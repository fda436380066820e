import BrokerBridge.Code.Alone
import BrokerBridge.Code.Routing
import Mathlib.Order.Defs.Unbundled

/-!
# What routing decides

The loop over the brokers makes a candidate or an exclusion of each, from its rows and
the limiter's answer alone; `considered` is that function. The candidates are then
sorted and one is put first. So the decision is about lists: which brokers are in
which list, and in what order.

The coroutine finds what the database and the environment have, and decides that.
-/

namespace BrokerBridge

open Conc

/-- What the loop makes of a broker, given its assignment and the limiter's answer. -/
def considered (q : RouteQuery) (c : RouteContext) (broker : BrokerAccount)
    (assignment : Option (IpAssignment × StaticIp)) (rl : RateSnapshot) :
    Except Excluded RouteCandidate :=
  match excludedByIp q c broker assignment with
  | some x => .error x
  | none =>
      match excludedByHealth c broker with
      | some x => .error x
      | none =>
          if !rl.allowed ∧ c.exceedPolicy = "REJECT" then .error (.of broker "RATE_LIMITED")
          else .ok (candidateOf q c broker assignment rl)

/-- The health row that counts: the last of the broker's. -/
def RouteContext.healthRow (c : RouteContext) (b : BrokerId) : Option Health :=
  c.health.reverse.find? (·.brokerAccountId == b)

/-- Everything routing wants of a broker. -/
structure Eligible (q : RouteQuery) (c : RouteContext) (broker : BrokerAccount)
    (assignment : Option (IpAssignment × StaticIp)) (rl : RateSnapshot) : Prop where
  assigned : c.requireIp = true → assignment.isSome
  region : ∀ region, q.region? = some region →
    (broker.allowedRegions = [] ∨ region ∈ broker.allowedRegions) ∧
      ∀ a ip, assignment = some (a, ip) → ip.region = region
  health : ∃ h, c.healthRow broker.id = some h ∧ h.status ≠ "unhealthy" ∧ c.degradedMin ≤ h.score
  rate : c.exceedPolicy = "REJECT" → rl.allowed = true

section Brokers

variable {q : RouteQuery} {c : RouteContext} {broker : BrokerAccount}
  {assignment : Option (IpAssignment × StaticIp)} {rl : RateSnapshot}

theorem excludedByIp_iff : excludedByIp q c broker assignment = none ↔
    (c.requireIp = true → assignment.isSome) ∧ ∀ region, q.region? = some region →
      (broker.allowedRegions = [] ∨ region ∈ broker.allowedRegions) ∧
        ∀ a ip, assignment = some (a, ip) → ip.region = region := by
  unfold excludedByIp
  by_cases hreq : c.requireIp = true ∧ assignment.isNone = true
  · rw [if_pos hreq]
    refine ⟨nofun, fun h => ?_⟩
    have hsome := h.1 hreq.1
    rw [Option.isSome_iff_ne_none, ne_eq, ← Option.isNone_iff_eq_none] at hsome
    exact absurd hreq.2 hsome
  · rw [if_neg hreq]
    have hassigned : c.requireIp = true → assignment.isSome := by
      intro h
      cases assignment with
      | none => exact absurd ⟨h, rfl⟩ hreq
      | some x => rfl
    rw [and_iff_right hassigned]
    cases q.region? with
    | none => exact ⟨fun _ => nofun, fun _ => rfl⟩
    | some region =>
        simp only [Option.some.injEq, forall_eq']
        split
        · next hmiss => exact ⟨nofun, fun h => absurd h.1 (not_or.mpr hmiss)⟩
        · next hmiss =>
            have hallowed : broker.allowedRegions = [] ∨ region ∈ broker.allowedRegions := by
              by_contra hno
              exact hmiss (not_or.mp hno)
            rw [and_iff_right hallowed]
            cases assignment with
            | none => exact ⟨fun _ => nofun, fun _ => rfl⟩
            | some y =>
                obtain ⟨a, ip⟩ := y
                simp

theorem healthOf_eq : healthOf c broker.id =
    ((c.healthRow broker.id).elim (0, "unhealthy") fun h => (h.score, h.status)) := by
  unfold healthOf RouteContext.healthRow
  cases c.health.reverse.find? _ <;> rfl

theorem excludedByHealth_iff : excludedByHealth c broker = none ↔
    ∃ h, c.healthRow broker.id = some h ∧ h.status ≠ "unhealthy" ∧ c.degradedMin ≤ h.score := by
  unfold excludedByHealth
  rw [healthOf_eq]
  cases c.healthRow broker.id with
  | none => simp
  | some h =>
      show (if h.status = "unhealthy" ∨ h.score < c.degradedMin then some _ else none) = none ↔ _
      split
      · next hbad =>
          refine ⟨nofun, ?_⟩
          rintro ⟨_, heq, hst, hle⟩
          cases heq
          exact absurd hbad (not_or.mpr ⟨hst, not_lt.mpr hle⟩)
      · next hgood =>
          obtain ⟨hst, hlt⟩ := not_or.mp hgood
          exact ⟨fun _ => ⟨h, rfl, hst, not_lt.mp hlt⟩, fun _ => rfl⟩

/-- A broker becomes a candidate if and only if it is eligible. -/
theorem considered_ok_iff : (∃ cand, considered q c broker assignment rl = .ok cand) ↔
    Eligible q c broker assignment rl := by
  unfold considered
  constructor
  · rintro ⟨cand, h⟩
    split at h
    · cases h
    next hip =>
    split at h
    · cases h
    next hhealth =>
    split at h
    · cases h
    next hrate =>
    obtain ⟨hassigned, hregion⟩ := excludedByIp_iff.mp hip
    refine ⟨hassigned, hregion, excludedByHealth_iff.mp hhealth, fun hreject => ?_⟩
    by_contra hno
    exact hrate ⟨by simp [hno], hreject⟩
  · intro h
    rw [excludedByIp_iff.mpr ⟨h.assigned, h.region⟩, excludedByHealth_iff.mpr h.health]
    have hrate : ¬ ((!rl.allowed) = true ∧ c.exceedPolicy = "REJECT") := by
      rintro ⟨hno, hreject⟩
      rw [h.rate hreject] at hno
      cases hno
    exact ⟨_, if_neg hrate⟩

theorem excludedByIp_id {x : Excluded} (h : excludedByIp q c broker assignment = some x) :
    x.brokerAccountId = broker.id := by
  unfold excludedByIp at h
  split at h
  · cases h
    rfl
  split at h
  · cases h
  split at h
  · cases h
    rfl
  split at h
  · split at h
    · cases h
      rfl
    · cases h
  · cases h

/-- What a broker becomes is about that broker. -/
theorem considered_id : (∀ cand, considered q c broker assignment rl = .ok cand →
    cand.broker = broker) ∧
    ∀ x, considered q c broker assignment rl = .error x → x.brokerAccountId = broker.id := by
  unfold considered
  split
  · next x hx =>
      refine ⟨nofun, fun y hy => ?_⟩
      cases hy
      exact excludedByIp_id hx
  split
  · next x hx =>
      refine ⟨nofun, fun y hy => ?_⟩
      cases hy
      unfold excludedByHealth at hx
      dsimp only at hx
      split at hx
      · cases hx
        rfl
      · cases hx
  split
  · refine ⟨nofun, fun y hy => ?_⟩
    cases hy
    rfl
  · refine ⟨fun y hy => ?_, nofun⟩
    cases hy
    rfl

end Brokers

/-! ## The lists -/

def candidatesOf (xs : List (Except Excluded RouteCandidate)) : List RouteCandidate :=
  xs.filterMap fun x => match x with
    | .ok cand => some cand
    | .error _ => none

def exclusionsOf (xs : List (Except Excluded RouteCandidate)) : List Excluded :=
  xs.filterMap fun x => match x with
    | .ok _ => none
    | .error x => some x

theorem mem_candidatesOf {xs : List (Except Excluded RouteCandidate)} {cand : RouteCandidate} :
    cand ∈ candidatesOf xs ↔ .ok cand ∈ xs := by
  unfold candidatesOf
  rw [List.mem_filterMap]
  constructor
  · rintro ⟨x, hx, heq⟩
    cases x with
    | ok y =>
        cases heq
        exact hx
    | error y => cases heq
  · exact fun h => ⟨_, h, rfl⟩

theorem mem_exclusionsOf {xs : List (Except Excluded RouteCandidate)} {x : Excluded} :
    x ∈ exclusionsOf xs ↔ .error x ∈ xs := by
  unfold exclusionsOf
  rw [List.mem_filterMap]
  constructor
  · rintro ⟨y, hy, heq⟩
    cases y with
    | ok z => cases heq
    | error z =>
        cases heq
        exact hy
  · exact fun h => ⟨_, h, rfl⟩

/-- Every broker is in one of the lists. -/
theorem candidates_exclusions_perm {f : BrokerAccount → Except Excluded RouteCandidate}
    (hok : ∀ b cand, f b = .ok cand → cand.broker = b)
    (herror : ∀ b x, f b = .error x → x.brokerAccountId = b.id) (bs : List BrokerAccount) :
    ((candidatesOf (bs.map f)).map (·.broker.id) ++
      (exclusionsOf (bs.map f)).map (·.brokerAccountId)).Perm (bs.map (·.id)) := by
  induction bs with
  | nil => exact List.Perm.refl _
  | cons b bs ih =>
      rw [List.map_cons, List.map_cons]
      cases hb : f b with
      | ok cand =>
          show (cand.broker.id :: _).Perm _
          rw [hok b cand hb]
          exact ih.cons b.id
      | error x =>
          show (_ ++ x.brokerAccountId :: _).Perm _
          rw [herror b x hb]
          exact List.perm_middle.trans (ih.cons b.id)

section Chain

variable {q : RouteQuery} {cs : List RouteCandidate} {p : RouteCandidate}

theorem primaryOf_mem (h : primaryOf q cs = some p) : p ∈ cs := by
  unfold primaryOf at h
  rcases Option.or_eq_some_iff.mp h with h | ⟨-, h⟩
  · obtain ⟨b, -, hfind⟩ := Option.bind_eq_some_iff.mp h
    exact List.mem_of_find?_eq_some hfind
  · exact List.mem_of_mem_head? h

theorem primaryOf_none (h : primaryOf q cs = none) : cs = [] := by
  unfold primaryOf at h
  exact List.head?_eq_none_iff.mp (Option.or_eq_none_iff.mp h).2

/-- The chain has the candidates, each once. -/
theorem chainOf_perm (hnodup : (cs.map (·.broker.id)).Nodup) :
    (chainOf (primaryOf q cs) cs).Perm cs := by
  cases hp : primaryOf q cs with
  | none => rw [primaryOf_none hp, chainOf]
  | some p =>
      obtain ⟨l, l', rfl⟩ := List.append_of_mem (primaryOf_mem hp)
      rw [List.map_append, List.map_cons, List.nodup_middle, List.nodup_cons, ← List.map_append,
        List.mem_map] at hnodup
      have hothers : ∀ l'' : List RouteCandidate, (∀ c ∈ l'', c ∈ l ++ l') →
          l''.filter (fun c => c.broker.id ≠ p.broker.id) = l'' := by
        refine fun l'' hl => List.filter_eq_self.mpr fun c hc => ?_
        simpa using fun heq => hnodup.1 ⟨c, hl c hc, heq⟩
      show (p :: (l ++ p :: l').filter fun c => c.broker.id ≠ p.broker.id).Perm (l ++ p :: l')
      rw [List.filter_append, List.filter_cons_of_neg (by simp),
        hothers l fun c hc => List.mem_append_left _ hc,
        hothers l' fun c hc => List.mem_append_right _ hc]
      exact List.perm_middle.symm

/-- The preferred broker comes first, if it is there. -/
theorem chainOf_preferred {b : BrokerId} (hq : q.preferredBrokerId = some b)
    (h : ∃ c ∈ cs, c.broker.id = b) :
    ∃ c, (chainOf (primaryOf q cs) cs).head? = some c ∧ c.broker.id = b := by
  obtain ⟨c, hc, hb⟩ := h
  cases hfind : cs.find? (·.broker.id == b) with
  | none =>
      have hmiss := List.find?_eq_none.mp hfind c hc
      exact absurd (beq_iff_eq.mpr hb) hmiss
  | some p =>
      have hp : primaryOf q cs = some p := by
        rw [primaryOf, hq, Option.bind_some, hfind, Option.some_or]
      have hid := List.find?_some hfind
      rw [hp]
      exact ⟨p, rfl, beq_iff_eq.mp hid⟩

/-- What is in the chain but for the preferred broker is in the order of the candidates. -/
theorem chainOf_others : ((chainOf (primaryOf q cs) cs).filter fun c =>
    q.preferredBrokerId ≠ some c.broker.id).Sublist cs := by
  cases hp : primaryOf q cs with
  | none => exact List.nil_sublist cs
  | some p =>
      unfold primaryOf at hp
      obtain hpref | ⟨-, hhead⟩ := Option.or_eq_some_iff.mp hp
      · obtain ⟨b, hb, hfind⟩ := Option.bind_eq_some_iff.mp hpref
        have hid : p.broker.id = b := by simpa using List.find?_some hfind
        show (List.filter _ (p :: _)).Sublist cs
        rw [List.filter_cons_of_neg (by simp [hb, hid])]
        exact List.filter_sublist.trans List.filter_sublist
      · obtain ⟨rest, rfl⟩ : ∃ rest, cs = p :: rest := by
          cases cs with
          | nil => cases hhead
          | cons z zs =>
              cases hhead
              exact ⟨zs, rfl⟩
        refine List.filter_sublist.trans ?_
        show (p :: List.filter _ (p :: rest)).Sublist (p :: rest)
        rw [List.filter_cons_of_neg (by simp)]
        exact List.filter_sublist.cons_cons p

end Chain

theorem sortCandidates_perm (cs : List RouteCandidate) : (sortCandidates cs).Perm cs :=
  List.perm_insertionSort _ cs

theorem sortCandidates_sorted (cs : List RouteCandidate) :
    (sortCandidates cs).Pairwise fun a b => b.routeScore ≤ a.routeScore := by
  have : Std.Total fun a b : RouteCandidate => b.routeScore ≤ a.routeScore :=
    ⟨fun a b => le_total b.routeScore a.routeScore⟩
  have : IsTrans RouteCandidate fun a b => b.routeScore ≤ a.routeScore :=
    ⟨fun a b c hab hbc => le_trans hbc hab⟩
  exact List.pairwise_insertionSort _ cs

/-! ## The decision -/

/-- `select`, from what it has found. -/
def decisionOf (q : RouteQuery) (c : RouteContext) (xs : List (Except Excluded RouteCandidate)) :
    RouteDecision where
  primary := primaryOf q (sortCandidates (candidatesOf xs))
  chain := chainOf (primaryOf q (sortCandidates (candidatesOf xs)))
    (sortCandidates (candidatesOf xs))
  excluded := exclusionsOf xs
  requireAssignedIp := c.requireIp

/-- The decision is right, when these are the brokers and this is what each has. -/
structure RightlyRouted (q : RouteQuery) (c : RouteContext) (brokers : List BrokerAccount)
    (assigned : BrokerId → Option (IpAssignment × StaticIp)) (rates : BrokerId → RateSnapshot)
    (d : RouteDecision) : Prop where
  /-- Every broker is in one of the lists, once, and no other is. -/
  partition : (d.chain.map (·.broker.id) ++ d.excluded.map (·.brokerAccountId)).Perm
    (brokers.map (·.id))
  nodup : (d.chain.map (·.broker.id) ++ d.excluded.map (·.brokerAccountId)).Nodup
  sound : ∀ cand ∈ d.chain, cand.broker ∈ brokers ∧
    Eligible q c cand.broker (assigned cand.broker.id) (rates cand.broker.id)
  complete : ∀ x ∈ d.excluded, ∃ b ∈ brokers, b.id = x.brokerAccountId ∧
    ¬ Eligible q c b (assigned b.id) (rates b.id)
  preferred : ∀ b, q.preferredBrokerId = some b → (∃ cand ∈ d.chain, cand.broker.id = b) →
    ∃ cand, d.chain.head? = some cand ∧ cand.broker.id = b
  /-- All but the preferred broker are in the order of their scores. -/
  ordered : (d.chain.filter fun cand => q.preferredBrokerId ≠ some cand.broker.id).Pairwise
    fun a b => b.routeScore ≤ a.routeScore

theorem routed_decisionOf (q : RouteQuery) (c : RouteContext) {brokers : List BrokerAccount}
    (hnodup : (brokers.map (·.id)).Nodup) (assigned : BrokerId → Option (IpAssignment × StaticIp))
    (rates : BrokerId → RateSnapshot) :
    RightlyRouted q c brokers assigned rates
      (decisionOf q c (brokers.map fun b => considered q c b (assigned b.id) (rates b.id))) := by
  generalize hf : (fun b : BrokerAccount => considered q c b (assigned b.id) (rates b.id)) = f
  have hperm : ((candidatesOf (brokers.map f)).map (·.broker.id) ++
      (exclusionsOf (brokers.map f)).map (·.brokerAccountId)).Perm (brokers.map (·.id)) := by
    rw [← hf]
    exact candidates_exclusions_perm (fun b => considered_id.1) (fun b => considered_id.2) brokers
  have hsorted := sortCandidates_perm (candidatesOf (brokers.map f))
  have hcandidates : ((sortCandidates (candidatesOf (brokers.map f))).map (·.broker.id)).Nodup := by
    rw [(hsorted.map _).nodup_iff]
    exact (List.nodup_append.mp (hperm.nodup_iff.mpr hnodup)).1
  have hchain := (chainOf_perm (q := q) hcandidates).trans hsorted
  have hpartition := ((hchain.map (·.broker.id)).append_right
    ((exclusionsOf (brokers.map f)).map (·.brokerAccountId))).trans hperm
  exact
    { partition := hpartition
      nodup := hpartition.nodup_iff.mpr hnodup
      sound := fun cand hcand => by
        have hmem := mem_candidatesOf.mp (hchain.mem_iff.mp hcand)
        obtain ⟨b, hb, hok⟩ := List.mem_map.mp hmem
        rw [← hf] at hok
        rw [considered_id.1 cand hok]
        exact ⟨hb, considered_ok_iff.mp ⟨cand, hok⟩⟩
      complete := fun x hx => by
        obtain ⟨b, hb, herror⟩ := List.mem_map.mp (mem_exclusionsOf.mp hx)
        rw [← hf] at herror
        refine ⟨b, hb, (considered_id.2 x herror).symm, fun h => ?_⟩
        obtain ⟨cand, hok⟩ := considered_ok_iff.mpr h
        cases herror.symm.trans hok
      preferred := fun b hq hin => by
        obtain ⟨cand, hcand, hb⟩ := hin
        refine chainOf_preferred hq ⟨cand, ?_, hb⟩
        exact (chainOf_perm hcandidates).mem_iff.mp hcand
      ordered := (sortCandidates_sorted _).sublist chainOf_others }

/-! ## The coroutine -/

/-- Nothing fails; the health rows are these, and the limiter answers so. -/
def Serves (health : List Health) (rates : BrokerId → RateSnapshot) (r : Req)
    (x : Nat × Env) : Prop :=
  x.2.fault = none ∧ match r with
    | .query _ .latestHealth => x.2.health = health
    | .rateCheck b _ | .rateConsume b _ => x.2.rate = rates b
    | _ => True

/-- The coroutine only reads, and returns a value in `Q`. -/
def Finds {α : Type} (health : List Health) (rates : BrokerId → RateSnapshot) (d : Db) (t : Coro α)
    (Q : α → Prop) : Prop :=
  ∀ w : World, w.db = d → Task.wp (turn passing (Serves health rates)) t
    (fun a s v => s = {} ∧ v.db = d ∧ Q a) (fun _ _ _ => False) {} w

section Finding

variable {α β : Type} {health : List Health} {rates : BrokerId → RateSnapshot} {d : Db}

theorem Finds.pure {a : α} {Q : α → Prop} (h : Q a) : Finds health rates d (pure a) Q :=
  fun _ hw => ⟨rfl, hw, h⟩

theorem Finds.bind {t : Coro α} {f : α → Coro β} {P : α → Prop} {Q : β → Prop}
    (h : Finds health rates d t P) (hf : ∀ a, P a → Finds health rates d (f a) Q) :
    Finds health rates d (t >>= f) Q := by
  intro w hw
  rw [Task.wp_bind]
  refine Task.wp_turn_mono (h w hw) ?_ fun _ _ _ => id
  rintro a s v ⟨rfl, hv, ha⟩
  exact hf a ha v hv

theorem Finds.execute {q : Query} {Q : q.Res → Prop}
    (h : ∀ x t, Serves health rates (.query [] q) x → Q (q.eval x.2 t d)) :
    Finds health rates d (execute q) Q := by
  intro w hw
  rw [wp_execute]
  intro x hx
  have hans : passing (.query [] q) x w = (.ok (q.eval x.2 (w.clock + x.1) d),
      { w with clock := w.clock + x.1 }) := by
    show x.2.answer dbError _ _ _ = _
    rw [Env.answer, hx.1, ← hw]
    rfl
  rw [hans]
  exact ⟨rfl, hw, h x _ hx⟩

/-- A query that reads the tables, and nothing else. -/
theorem Finds.reads {q : Query} (y : q.Res) (h : ∀ e t, q.eval e t d = y) :
    Finds health rates d (BrokerBridge.execute q) (· = y) :=
  Finds.execute fun x t _ => h x.2 t

theorem rateSnapshot_finds (q : RouteQuery) (b : BrokerAccount) :
    Finds health rates d (rateSnapshot q b) (· = rates b.id) := by
  unfold rateSnapshot
  split
  · intro w hw x hx
    have hans : passing (.rateConsume b.id b.limit) x w =
        (.ok (rates b.id), { w with clock := w.clock + x.1 }) := by
      show x.2.answer _ _ _ _ = _
      rw [Env.answer, hx.1, hx.2]
    rw [hans]
    exact ⟨rfl, hw, rfl⟩
  · intro w hw x hx
    have hans : passing (.rateCheck b.id b.limit) x w =
        (.ok (rates b.id), { w with clock := w.clock + x.1 }) := by
      show x.2.answer _ _ _ _ = _
      rw [Env.answer, hx.1, hx.2]
    rw [hans]
    exact ⟨rfl, hw, rfl⟩

/-- The broker's active assignment, with its IP. -/
def Db.assignmentOf (d : Db) (b : BrokerId) : Option (IpAssignment × StaticIp) :=
  (d.assignments.rows.filter (·.activeFor b)).findSome? fun a =>
    (d.ips.get? a.staticIpId).map fun ip => (a, ip)

theorem considerBroker_finds (q : RouteQuery) (c : RouteContext) (b : BrokerAccount) :
    Finds health rates d (considerBroker q c b)
      (· = considered q c b (d.assignmentOf b.id) (rates b.id)) := by
  unfold considerBroker
  refine Finds.bind (Finds.reads (d.assignmentOf b.id) fun _ _ => rfl) ?_
  rintro _ rfl
  unfold considered
  cases excludedByIp q c b (d.assignmentOf b.id) with
  | some x => exact Finds.pure rfl
  | none =>
      cases excludedByHealth c b with
      | some x => exact Finds.pure rfl
      | none =>
          refine Finds.bind (rateSnapshot_finds q b) ?_
          rintro _ rfl
          dsimp only
          split
          · exact Finds.pure rfl
          · exact Finds.pure rfl

theorem considerBrokers_finds (q : RouteQuery) (c : RouteContext) (bs : List BrokerAccount) :
    Finds health rates d (considerBrokers q c bs) fun y =>
      y.1 = candidatesOf (bs.map fun b => considered q c b (d.assignmentOf b.id) (rates b.id)) ∧
      y.2 = exclusionsOf (bs.map fun b => considered q c b (d.assignmentOf b.id) (rates b.id)) := by
  induction bs with
  | nil => exact Finds.pure ⟨rfl, rfl⟩
  | cons b bs ih =>
      refine Finds.bind (considerBroker_finds q c b) ?_
      rintro x hx
      refine Finds.bind ih ?_
      rintro ⟨cs, xs⟩ ⟨rfl, rfl⟩
      rw [List.map_cons, ← hx]
      cases x with
      | ok cand => exact Finds.pure ⟨rfl, rfl⟩
      | error ex => exact Finds.pure ⟨rfl, rfl⟩

/-- The threshold in force, if it parses. -/
def Config.minimum (c : Config) : Option Rat :=
  match c.degradedMin with
  | some (.value x) => some x
  | some .bad => none
  | none => some 50

theorem degradedMinOf_finds {config : Config} {min : Rat} (h : config.minimum = some min) :
    Finds health rates d (degradedMinOf config) (· = min) := by
  unfold Config.minimum at h
  unfold degradedMinOf
  cases hmin : config.degradedMin with
  | none =>
      rw [hmin] at h
      exact Finds.pure (Option.some_inj.mp h)
  | some x =>
      rw [hmin] at h
      cases x with
      | value q => exact Finds.pure (Option.some_inj.mp h)
      | bad => cases h

/-- The brokers routing looks at. -/
def Db.enabledBrokers (d : Db) (c : ClientId) : List BrokerAccount :=
  d.brokers.rows.filter fun b => b.clientId == c && b.enabled

/-- What routing reads before it looks at them. -/
def Db.routeContext (d : Db) (min : Rat) (health : List Health) : RouteContext where
  degradedMin := min
  requireIp := d.config.requireAssignedIp.getD true
  exceedPolicy := Text.upper (d.config.exceedPolicy.getD "REROUTE")
  health := health

theorem select_finds (q : RouteQuery) {min : Rat} (hmin : d.config.minimum = some min) :
    Finds health rates d (select q) fun y =>
      y = decisionOf q (d.routeContext min health) ((d.enabledBrokers q.clientId).map fun b =>
        considered q (d.routeContext min health) b (d.assignmentOf b.id) (rates b.id)) := by
  unfold select
  refine Finds.bind (Finds.reads d.config fun _ _ => rfl) ?_
  rintro _ rfl
  refine Finds.bind (degradedMinOf_finds hmin) ?_
  rintro _ rfl
  refine Finds.bind (Finds.reads d.config fun _ _ => rfl) ?_
  rintro _ rfl
  refine Finds.bind (P := (· = Text.upper (d.config.exceedPolicy.getD "REROUTE"))) ?_ ?_
  · unfold exceedPolicy
    refine Finds.bind (Finds.reads d.config fun _ _ => rfl) ?_
    rintro _ rfl
    exact Finds.pure rfl
  rintro _ rfl
  refine Finds.bind (Finds.reads (d.enabledBrokers q.clientId) fun _ _ => rfl) ?_
  rintro _ rfl
  refine Finds.bind (Finds.execute (Q := fun y : List Health => y = health) fun x t hx => hx.2) ?_
  rintro _ rfl
  refine Finds.bind (considerBrokers_finds q _ _) ?_
  rintro ⟨cs, xs⟩ ⟨rfl, rfl⟩
  exact Finds.pure rfl

end Finding

/-- `select`, run while nothing fails, returns a decision that is right about the
client's enabled brokers. -/
theorem select_routed (q : RouteQuery) (w : World) (health : List Health)
    (rates : BrokerId → RateSnapshot) (env : Nat → Nat × Env) {min : Rat}
    (hmin : w.db.config.minimum = some min)
    (henv : (select q {}).Suits passing (Serves health rates) env w) :
    ∃ d, ((select q {}).solo passing env w).1.1 = .ok d ∧
      RightlyRouted q (w.db.routeContext min health)
        (w.db.enabledBrokers q.clientId) w.db.assignmentOf
        rates d := by
  have hrun := Prog.solo_of_turn (Q := fun y v => ∃ d, y.1 = .ok d ∧ RightlyRouted q
    (w.db.routeContext min health) (w.db.enabledBrokers q.clientId) w.db.assignmentOf rates d)
    (Prog.turn_mono ?_ (select_finds q hmin w rfl)) henv
  · exact hrun
  rintro ⟨a | a, s⟩ v hend
  · exact hend.elim
  · refine ⟨a, rfl, ?_⟩
    rw [hend.2.2]
    refine routed_decisionOf q _ ?_ _ rates
    exact w.db.brokers.nodup.sublist (List.filter_sublist.map _)

/-- Three brokers: one without an IP, one preferred. -/
def threeBrokers : World where
  db :=
    { clients := .of [{ id := 1 }]
      brokers := .of [{ id := 2, clientId := 1 }, { id := 3, clientId := 1 },
        { id := 4, clientId := 1 }]
      ips := .of
        [{ id := 5, externalId := 6, ipAddress := "192.0.2.1", region := "ewr" },
         { id := 7, externalId := 8, ipAddress := "192.0.2.2", region := "ewr" }]
      assignments := .of
        [{ id := 9, clientId := 1, brokerAccountId := 2, staticIpId := 5 },
         { id := 10, clientId := 1, brokerAccountId := 4, staticIpId := 7 }] }

def healthy : List Health := [⟨2, 95, "healthy"⟩, ⟨3, 99, "healthy"⟩, ⟨4, 90, "healthy"⟩]

theorem select_routed_threeBrokers :
    ∃ d, ((select { clientId := 1, preferredBrokerId := some 4 } {}).solo passing
        (fun _ => (0, { health := healthy })) threeBrokers).1.1 = .ok d ∧
      RightlyRouted { clientId := 1, preferredBrokerId := some 4 }
        (threeBrokers.db.routeContext 50 healthy)
        (threeBrokers.db.enabledBrokers 1) threeBrokers.db.assignmentOf (fun _ => ⟨true, 0⟩) d := by
  refine select_routed { clientId := 1, preferredBrokerId := some 4 } threeBrokers healthy
    (fun _ => ⟨true, 0⟩) _ rfl (Prog.suits_of_forall (fun r n => ⟨rfl, ?_⟩) _ _)
  split <;> trivial

end BrokerBridge
