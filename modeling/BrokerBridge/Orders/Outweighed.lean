import BrokerBridge.Conc.Before
import BrokerBridge.Orders.Routed

/-!
# Where a limited broker is ranked

A broker over its rate limit stays in the chain unless the policy is `REJECT`, with a pressure
of at least 20, "so others win". The pressure is one term of a sum: a broker wins over it
only if its health and priority do not differ by more. `limitedLast_iff` says when the
limited brokers come last.
-/

namespace BrokerBridge

open Conc Binary64

/-- No broker over its limit comes before one that is not, but for the preferred one. -/
def LimitedLast (q : RouteQuery) (rates : BrokerId → RateSnapshot) (chain : List RouteCandidate) :
    Prop :=
  ∀ a b, Before chain a b → (rates a.broker.id).allowed = false →
    q.preferredBrokerId ≠ some a.broker.id → (rates b.broker.id).allowed = false

/-- What two brokers that are not preferred are ranked by, added up in doubles. -/
def rankOf (q : RouteQuery) (c : RouteContext) (rates : BrokerId → RateSnapshot)
    (b : BrokerAccount) : Rat :=
  let rl := rates b.id
  let pressure := if rl.allowed then rl.pressure else max rl.pressure 20
  double (double (double ((healthOf c b.id).1 + double (double b.priority * 2)) - pressure) +
    (if q.region?.isSome then 10 else 0))

/-- Every eligible broker within its limit outweighs every one over its limit; of equals, the one
that was read first does. -/
def Outweighed (q : RouteQuery) (c : RouteContext) (brokers : List BrokerAccount)
    (assigned : BrokerId → Option (IpAssignment × StaticIp)) (rates : BrokerId → RateSnapshot) :
    Prop :=
  ∀ a ∈ brokers, ∀ b ∈ brokers, Eligible q c a (assigned a.id) (rates a.id) →
    Eligible q c b (assigned b.id) (rates b.id) →
    (rates a.id).allowed = false → q.preferredBrokerId ≠ some a.id →
    (rates b.id).allowed = true → q.preferredBrokerId ≠ some b.id →
    rankOf q c rates a < rankOf q c rates b ∨
      rankOf q c rates a = rankOf q c rates b ∧ Before brokers b a

section Chain

variable {q : RouteQuery} {cs : List RouteCandidate} {x y : RouteCandidate}

/-- In the chain, brokers that are not preferred keep the order they have been sorted to. -/
theorem before_chainOf_iff (hx : x ∈ cs) (hnodup : (cs.map (·.broker.id)).Nodup)
    (hpx : q.preferredBrokerId ≠ some x.broker.id) (hpy : q.preferredBrokerId ≠ some y.broker.id) :
    Before (chainOf (primaryOf q cs) cs) x y ↔ Before cs x y := by
  cases hp : primaryOf q cs with
  | none =>
      rw [primaryOf_none hp] at hx
      cases hx
  | some p =>
      show Before (p :: cs.filter (·.broker.id ≠ p.broker.id)) x y ↔ _
      unfold primaryOf at hp
      rcases Option.or_eq_some_iff.mp hp with hpref | ⟨_, hhead⟩
      · -- The head is the preferred broker, so neither of the two.
        obtain ⟨b, hb, hfind⟩ := Option.bind_eq_some_iff.mp hpref
        have hid : p.broker.id = b := by simpa using List.find?_some hfind
        have hne : ∀ z : RouteCandidate, q.preferredBrokerId ≠ some z.broker.id →
            z.broker.id ≠ p.broker.id := fun z hz he => hz (by rw [hb, he, hid])
        rw [before_cons_iff fun h => hne x hpx (congrArg (·.broker.id) h)]
        exact before_filter_iff (by simpa using hne x hpx) (by simpa using hne y hpy)
      · -- The head is the first of the sorted list, which the chain then is.
        obtain ⟨rest, rfl⟩ : ∃ rest, cs = p :: rest := by
          cases cs with
          | nil => cases hhead
          | cons z zs =>
              cases hhead
              exact ⟨zs, rfl⟩
        rw [List.map_cons, List.nodup_cons] at hnodup
        have hrest : rest.filter (fun z => decide (z.broker.id ≠ p.broker.id)) = rest :=
          List.filter_eq_self.mpr fun z hz => by
            simpa using fun he => hnodup.1 (List.mem_map.mpr ⟨z, hz, he⟩)
        rw [List.filter_cons_of_neg (by simp), hrest]

/-- Nothing comes before the preferred broker. -/
theorem not_before_preferred (hnodup : (cs.map (·.broker.id)).Nodup)
    (hpy : q.preferredBrokerId = some y.broker.id) :
    ¬ Before (chainOf (primaryOf q cs) cs) x y := by
  intro h
  have hperm := chainOf_perm (q := q) hnodup
  have hy := hperm.mem_iff.mp h.mem_right
  obtain ⟨z, hz, hid⟩ := chainOf_preferred hpy ⟨y, hy, rfl⟩
  have hids : ((chainOf (primaryOf q cs) cs).map (·.broker.id)).Nodup :=
    (hperm.map _).nodup_iff.mpr hnodup
  have hzy : z = y := List.inj_on_of_nodup_map hnodup
    (hperm.mem_iff.mp (List.mem_of_mem_head? hz)) hy hid
  subst hzy
  cases hchain : chainOf (primaryOf q cs) cs with
  | nil =>
      rw [hchain] at hz
      cases hz
  | cons p rest =>
      rw [hchain] at h hz hids
      cases hz
      have hnot : z ∉ rest := fun hmem => by
        rw [List.map_cons, List.nodup_cons] at hids
        exact hids.1 (List.mem_map.mpr ⟨z, hmem, rfl⟩)
      cases h with
      | cons _ h => exact hnot (Before.mem_right (l := rest) h)
      | cons_cons _ h => exact hnot (List.singleton_sublist.mp h)

end Chain

/-! ## The decision -/

section Decision

variable {q : RouteQuery} {c : RouteContext} {brokers : List BrokerAccount}
  {assigned : BrokerId → Option (IpAssignment × StaticIp)} {rates : BrokerId → RateSnapshot}

/-- What the loop has made of the brokers. -/
abbrev consideredAll (q : RouteQuery) (c : RouteContext) (brokers : List BrokerAccount)
    (assigned : BrokerId → Option (IpAssignment × StaticIp)) (rates : BrokerId → RateSnapshot) :
    List (Except Excluded RouteCandidate) :=
  brokers.map fun b => considered q c b (assigned b.id) (rates b.id)

theorem considered_ok {b : BrokerAccount} {rl : RateSnapshot}
    {assignment : Option (IpAssignment × StaticIp)} {cand : RouteCandidate}
    (h : considered q c b assignment rl = .ok cand) : cand = candidateOf q c b assignment rl := by
  unfold considered at h
  split at h
  · cases h
  split at h
  · cases h
  split at h
  · cases h
  · cases h
    rfl

/-- Of brokers that are not preferred, the rank decides. -/
theorem routeScore_candidateOf {b : BrokerAccount} (hb : q.preferredBrokerId ≠ some b.id) :
    (candidateOf q c b (assigned b.id) (rates b.id)).routeScore =
      rankOf q c rates b := by
  have hsticky : ¬ (decide (q.preferredBrokerId = some b.id)) = true := by simpa using hb
  have hterm : ∀ x : Rat, double (double x + if decide (q.preferredBrokerId = some b.id) = true
      then 15 else 0) = double x := fun x => by
    rw [if_neg hsticky, add_zero]
    exact double_double x
  unfold candidateOf rankOf
  simp only [hterm]

/-- Who is a candidate, and which comes first. -/
theorem mem_consideredAll {cand : RouteCandidate} :
    cand ∈ candidatesOf (consideredAll q c brokers assigned rates) ↔
      ∃ b ∈ brokers, Eligible q c b (assigned b.id) (rates b.id) ∧
        cand = candidateOf q c b (assigned b.id) (rates b.id) := by
  rw [mem_candidatesOf, List.mem_map]
  constructor
  · rintro ⟨b, hb, hok⟩
    exact ⟨b, hb, considered_ok_iff.mp ⟨cand, hok⟩, considered_ok hok⟩
  · rintro ⟨b, hb, helig, rfl⟩
    obtain ⟨cand, hok⟩ := considered_ok_iff.mpr helig
    exact ⟨b, hb, considered_ok hok ▸ hok⟩

theorem before_consideredAll {a b : BrokerAccount} (h : Before brokers a b)
    (ha : Eligible q c a (assigned a.id) (rates a.id))
    (hb : Eligible q c b (assigned b.id) (rates b.id)) :
    Before (candidatesOf (consideredAll q c brokers assigned rates))
      (candidateOf q c a (assigned a.id) (rates a.id))
      (candidateOf q c b (assigned b.id) (rates b.id)) := by
  have hok : ∀ {x : BrokerAccount}, Eligible q c x (assigned x.id) (rates x.id) →
      considered q c x (assigned x.id) (rates x.id) =
        .ok (candidateOf q c x (assigned x.id) (rates x.id)) := fun hx => by
    obtain ⟨cand, hcand⟩ := considered_ok_iff.mpr hx
    rw [hcand, considered_ok hcand]
  unfold candidatesOf consideredAll
  rw [List.filterMap_map]
  exact h.filterMap (by simp [hok ha]) (by simp [hok hb])

theorem consideredAll_nodup (hnodup : (brokers.map (·.id)).Nodup) :
    ((candidatesOf (consideredAll q c brokers assigned rates)).map (·.broker.id)).Nodup := by
  have hperm := candidates_exclusions_perm
    (f := fun b : BrokerAccount => considered q c b (assigned b.id) (rates b.id))
    (fun b => considered_id.1) (fun b => considered_id.2) brokers
  exact (List.nodup_append.mp (hperm.nodup_iff.mpr hnodup)).1

/-- In the chain, a broker that is not preferred comes before another if it has the greater rank,
or the same and was read first. -/
theorem before_chain_iff (hnodup : (brokers.map (·.id)).Nodup) {a b : BrokerAccount}
    (ha : a ∈ brokers)
    (hb : b ∈ brokers) (hea : Eligible q c a (assigned a.id) (rates a.id))
    (heb : Eligible q c b (assigned b.id) (rates b.id)) (hpa : q.preferredBrokerId ≠ some a.id)
    (hpb : q.preferredBrokerId ≠ some b.id) (hne : a.id ≠ b.id) :
    Before (decisionOf q c (consideredAll q c brokers assigned rates)).chain
        (candidateOf q c a (assigned a.id) (rates a.id))
        (candidateOf q c b (assigned b.id) (rates b.id)) ↔
      rankOf q c rates b < rankOf q c rates a ∨ rankOf q c rates a = rankOf q c rates b ∧
        Before brokers a b := by
  have hids : ((candidatesOf (consideredAll q c brokers assigned rates)).map (·.broker.id)).Nodup :=
    consideredAll_nodup hnodup
  have hsorted := sortCandidates_perm (candidatesOf (consideredAll q c brokers assigned rates))
  have hmema := mem_consideredAll.mpr ⟨a, ha, hea, rfl⟩
  have hmemb := mem_consideredAll.mpr ⟨b, hb, heb, rfl⟩
  have hcand : candidateOf q c a (assigned a.id) (rates a.id) ≠
      candidateOf q c b (assigned b.id) (rates b.id) := fun h =>
    hne (congrArg (·.broker.id) h)
  have hread : Before (candidatesOf (consideredAll q c brokers assigned rates))
      (candidateOf q c a (assigned a.id) (rates a.id))
      (candidateOf q c b (assigned b.id) (rates b.id)) ↔ Before brokers a b := by
    refine ⟨fun h => ?_, fun h => before_consideredAll h hea heb⟩
    refine (before_or ha hb fun he => hne (congrArg _ he)).resolve_right fun hba => ?_
    exact h.asymm hids.of_map (before_consideredAll hba heb hea)
  show Before (chainOf _ (sortCandidates _)) _ _ ↔ _
  rw [before_chainOf_iff (hsorted.mem_iff.mpr hmema) ((hsorted.map _).nodup_iff.mpr hids) hpa hpb,
    sortCandidates, before_insertionSort_iff hids.of_map hmema hmemb hcand,
    routeScore_candidateOf hpa, routeScore_candidateOf hpb, hread]

theorem limitedLast_decisionOf (hnodup : (brokers.map (·.id)).Nodup) :
    LimitedLast q rates (decisionOf q c (consideredAll q c brokers assigned rates)).chain ↔
      Outweighed q c brokers assigned rates := by
  have hids : ((candidatesOf (consideredAll q c brokers assigned rates)).map (·.broker.id)).Nodup :=
    consideredAll_nodup hnodup
  have hsorted := sortCandidates_perm (candidatesOf (consideredAll q c brokers assigned rates))
  have hnodupSorted := (hsorted.map (·.broker.id)).nodup_iff.mpr hids
  constructor
  · intro hlast a ha b hb hea heb hla hpa hlb hpb
    have hne : a.id ≠ b.id := fun he => by
      rw [he, hlb] at hla
      cases hla
    have hnot := mt (before_chain_iff hnodup ha hb hea heb hpa hpb hne).mpr fun h => by
      have hlimited := hlast _ _ h hla hpa
      exact Bool.noConfusion (hlimited.symm.trans hlb)
    rw [not_or, not_lt, not_and] at hnot
    refine (lt_or_eq_of_le hnot.1).imp_right fun heq => ⟨heq, ?_⟩
    exact (before_or ha hb fun he => hne (congrArg _ he)).resolve_left (hnot.2 heq)
  · intro hout x y hxy hlx hpx
    have hmem : ∀ z ∈ (decisionOf q c (consideredAll q c brokers assigned rates)).chain,
        ∃ b ∈ brokers, Eligible q c b (assigned b.id) (rates b.id) ∧
          z = candidateOf q c b (assigned b.id) (rates b.id) := fun z hz => by
      have hchain := chainOf_perm (q := q) ((hsorted.map (·.broker.id)).nodup_iff.mpr hids)
      exact mem_consideredAll.mp (hsorted.mem_iff.mp (hchain.mem_iff.mp hz))
    obtain ⟨a, ha, hea, rfl⟩ := hmem x hxy.mem_left
    obtain ⟨b, hb, heb, rfl⟩ := hmem y hxy.mem_right
    by_contra hly
    rw [Bool.not_eq_false] at hly
    have hne : a.id ≠ b.id := fun he => by
      rw [show (candidateOf q c a (assigned a.id) (rates a.id)).broker.id = b.id from he] at hlx
      exact Bool.noConfusion (hlx.symm.trans hly)
    by_cases hpb : q.preferredBrokerId = some b.id
    · exact not_before_preferred ((hsorted.map (·.broker.id)).nodup_iff.mpr hids) hpb hxy
    have hrank := (before_chain_iff hnodup ha hb hea heb hpx hpb hne).mp hxy
    rcases hout a ha b hb hea heb hlx hpx hly hpb with hlt | ⟨heq, hba⟩
    · exact hrank.elim (fun h => absurd h hlt.not_gt) fun h => absurd h.1 hlt.ne
    · rcases hrank with h | ⟨_, hab⟩
      · exact absurd heq h.ne'
      · exact hab.asymm hnodup.of_map hba

end Decision

/-- `select`, run while nothing fails, ranks the limited brokers last exactly when the others
outweigh them. -/
theorem select_limitedLast_iff (q : RouteQuery) (w : World) (health : List Health)
    (rates : BrokerId → RateSnapshot) (env : Nat → Nat × Env) {min : Rat}
    (hmin : w.db.config.minimum = some min)
    (henv : (select q {}).Suits passing (Serves health rates) env w) :
    ∃ d, ((select q {}).solo passing env w).1.1 = .ok d ∧
      (LimitedLast q rates d.chain ↔ Outweighed q (w.db.routeContext min health)
        (w.db.enabledBrokers q.clientId) w.db.assignmentOf rates) := by
  have hrun := Prog.solo_of_turn (Q := fun y v => ∃ d, y.1 = .ok d ∧ (LimitedLast q rates d.chain ↔
      Outweighed q (w.db.routeContext min health) (w.db.enabledBrokers q.clientId) w.db.assignmentOf
        rates))
    (Prog.turn_mono ?_ (select_finds q hmin w rfl)) henv
  · exact hrun
  rintro ⟨a | a, s⟩ v hend
  · exact hend.elim
  · refine ⟨a, rfl, ?_⟩
    rw [hend.2.2]
    exact limitedLast_decisionOf (w.db.brokers.nodup.sublist (List.filter_sublist.map _))

/-- Broker 3 has a priority of 200; broker 2, that of a new row. -/
def prioritized : World where
  db :=
    { clients := .of [{ id := 1 }]
      brokers := .of [{ id := 2, clientId := 1 }, { id := 3, clientId := 1, priority := 200 }]
      ips := .of
        [{ id := 5, externalId := 6, ipAddress := "192.0.2.1", region := "ewr" },
         { id := 7, externalId := 8, ipAddress := "192.0.2.2", region := "ewr" }]
      assignments := .of
        [{ id := 9, clientId := 1, brokerAccountId := 2, staticIpId := 5 },
         { id := 10, clientId := 1, brokerAccountId := 3, staticIpId := 7 }] }

/-- Broker 3 is over its limit. -/
def thirdLimited (b : BrokerId) : RateSnapshot :=
  if b = 3 then ⟨false, 20⟩ else ⟨true, 0⟩

def bothHealthy : List Health := [⟨2, 95, "healthy"⟩, ⟨3, 95, "healthy"⟩]

/-- The limiter is asked about broker 2 in the seventh await, and about broker 3 in the ninth. -/
def limiting (n : Nat) : Nat × Env :=
  (0, { health := bothHealthy, rate := thirdLimited (if n = 8 then 3 else 2) })

deriving instance DecidableEq for RateSnapshot, Health

/-- `Serves`, computed. -/
def servesCheck (health : List Health) (rates : BrokerId → RateSnapshot) (r : Req)
    (x : Nat × Env) : Bool :=
  x.2.fault.isNone && match r with
    | .query _ .latestHealth => decide (x.2.health = health)
    | .rateCheck b _ | .rateConsume b _ => decide (x.2.rate = rates b)
    | _ => true

theorem serves_of_check {health : List Health} {rates : BrokerId → RateSnapshot} (r : Req)
    (x : Nat × Env) (h : servesCheck health rates r x = true) : Serves health rates r x := by
  obtain ⟨hfault, hanswer⟩ := Bool.and_eq_true_iff.mp h
  refine ⟨Option.isNone_iff_eq_none.mp hfault, ?_⟩
  cases r with
  | query ws q => cases q <;> first | trivial | exact of_decide_eq_true hanswer
  | rateCheck b l => exact of_decide_eq_true hanswer
  | rateConsume b l => exact of_decide_eq_true hanswer
  | _ => trivial

theorem limiting_serves :
    (select { clientId := 1 } {}).Suits passing
      (Serves bothHealthy thirdLimited) limiting prioritized :=
  Prog.suits_of_check serves_of_check (by decide +kernel)

theorem select_limitedLast_prioritized :
    ∃ d, ((select { clientId := 1 } {}).solo passing limiting prioritized).1.1 = .ok d ∧
      (LimitedLast { clientId := 1 } thirdLimited d.chain ↔
        Outweighed { clientId := 1 } (prioritized.db.routeContext 50 bothHealthy)
          (prioritized.db.enabledBrokers 1) prioritized.db.assignmentOf thirdLimited) :=
  select_limitedLast_iff { clientId := 1 } prioritized bothHealthy thirdLimited limiting rfl
    limiting_serves

/-- The pressure of 20 does not outweigh the priority. -/
theorem not_limitedLast_prioritized :
    ¬ ∀ q w health rates env d, (select q {}).Suits passing (Serves health rates) env w →
      (w.db.routeContext 50 health).exceedPolicy ≠ "REJECT" →
      ((select q {}).solo passing env w).1.1 = .ok d → LimitedLast q rates d.chain := by
  intro h
  have hchain : ((select { clientId := 1 } {}).solo passing limiting prioritized).1.1.toOption.map
      (·.chain.map (·.broker.id)) = some [3, 2] := by decide +kernel
  obtain ⟨d, hd, hids⟩ := Option.map_eq_some_iff.mp hchain
  have hok : ((select { clientId := 1 } {}).solo passing limiting prioritized).1.1 = .ok d := by
    cases hrun : ((select { clientId := 1 } {}).solo passing limiting prioritized).1.1 with
    | ok d' =>
        rw [hrun] at hd
        rw [Option.some_inj.mp hd]
    | error x =>
        rw [hrun] at hd
        cases hd
  have hlast := h _ _ _ _ _ d limiting_serves (by decide +kernel) hok
  obtain ⟨x, rest, hcons, hx, hrest⟩ := List.map_eq_cons_iff.mp hids
  obtain ⟨y, ys, rfl, hy, hys⟩ := List.map_eq_cons_iff.mp hrest
  obtain rfl := List.map_eq_nil_iff.mp hys
  have hlimited := hlast x y (hcons ▸ List.Sublist.refl _) (by rw [hx]; rfl) nofun
  rw [hy] at hlimited
  cases hlimited

end BrokerBridge
