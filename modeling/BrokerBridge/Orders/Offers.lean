import BrokerBridge.Orders.Routed
import BrokerBridge.Orders.Standing

/-!
# What routing is told

Routing reads the configuration, the brokers and their health, and of each broker its
assignment and, for some, what the limiter says. It finds a route if and only if these
answers make one of the brokers eligible. So whether an order has a route can be told from
what its call has heard, without asking what routing returned.
-/

namespace BrokerBridge

open Conc

/-- A request with its answer. -/
abbrev Heard : Type := (r : Req) × r.Ans

/-- `float(thresholds.get("degraded_min", 50))`, if that is a number. -/
def Config.threshold? (config : Config) : Option Rat :=
  match config.degradedMin with
  | some (.value q) => some q
  | some .bad => none
  | none => some 50

/-- What routing has read. -/
structure RouteReads where
  threshold : Rat
  /-- The configuration, once for each setting: others may have changed it between. -/
  thresholds : Config
  requirement : Config
  policy : Config
  brokers : List BrokerAccount
  health : List Health
  /-- What it was told of the brokers, and whatever came after. -/
  details : List Heard

namespace RouteReads

variable (x : RouteReads)

def context : RouteContext where
  degradedMin := x.threshold
  requireIp := x.requirement.requireAssignedIp.getD true
  exceedPolicy := Text.upper (x.policy.exceedPolicy.getD "REROUTE")
  health := x.health

/-- The answers, in the order of the questions. -/
def heard (q : RouteQuery) : List Heard :=
  [⟨.query [] .config, .ok x.thresholds⟩, ⟨.query [] .config, .ok x.requirement⟩,
    ⟨.query [] .config, .ok x.policy⟩, ⟨.query [] (.enabledBrokers q.clientId), .ok x.brokers⟩,
    ⟨.query [] .latestHealth, .ok x.health⟩] ++ x.details

end RouteReads

/-- The broker's assignment, as it was read. -/
def Heard.assignment (b : BrokerAccount) (a : Option (IpAssignment × StaticIp)) : Heard :=
  ⟨.query [] (.activeAssignment b.id), .ok a⟩

/-- What the limiter said of the broker. -/
def Heard.rate (b : BrokerAccount) (rl : RateSnapshot) : Heard := ⟨.rateCheck b.id b.limit, .ok rl⟩

/-- These answers make the broker eligible. -/
def Offered (q : RouteQuery) (c : RouteContext) (b : BrokerAccount) (l : List Heard) : Prop :=
  ∃ a rl, Heard.assignment b a ∈ l ∧ Heard.rate b rl ∈ l ∧ Eligible q c b a rl

/-- Routing was told of a broker that is eligible. -/
def RouteFound (q : RouteQuery) (l : List Heard) : Prop :=
  ∃ (pre : List Heard) (x : RouteReads), l = pre ++ x.heard q ∧
    x.thresholds.threshold? = some x.threshold ∧
    ∃ b ∈ x.brokers, Offered q x.context b x.details

/-! ## Listening -/

/-- The answer to a request, with what has been heard. -/
abbrev heeded (r : Req) (x : Turn) (y : World × List Heard) : r.Ans × (World × List Heard) :=
  tracked (amid handle) listening r x y

/-- Begun with nothing pending, the coroutine reads: with what it has heard it satisfies `Q`
when it returns and `X` when it raises. -/
def Tells {α : Type} (A : Turn → Prop) (t : Coro α) (Q : α → List Heard → Prop)
    (X : List Heard → Prop) : Prop :=
  ∀ (s : Session) w l, s.broken = false → s.pending = [] →
    Task.wp (alone heeded A) t
      (fun a s' y => s'.broken = false ∧ s'.pending = [] ∧ ∃ seg, y.2 = l ++ seg ∧ Q a seg)
      (fun _ _ y => ∃ seg, y.2 = l ++ seg ∧ X seg) s (w, l)

section Rules

variable {α β : Type} {A : Turn → Prop} {Q Q' : α → List Heard → Prop} {X X' : List Heard → Prop}

theorem Tells.pure {a : α} (h : Q a []) : Tells A (pure a) Q X :=
  fun _ _ l hb hp => ⟨hb, hp, [], (List.append_nil l).symm, h⟩

theorem Tells.raise {e : Exn} (h : X []) : Tells A (Task.raise e : Coro α) Q X :=
  fun _ _ l _ _ => ⟨[], (List.append_nil l).symm, h⟩

theorem Tells.mono {t : Coro α} (h : Tells A t Q X) (hQ : ∀ a seg, Q a seg → Q' a seg)
    (hX : ∀ seg, X seg → X' seg) : Tells A t Q' X' := by
  intro s w l hb hp
  refine Task.wp_alone_mono (h s w l hb hp) ?_ ?_
  · rintro a s' y ⟨hb', hp', seg, hseg, ha⟩
    exact ⟨hb', hp', seg, hseg, hQ a seg ha⟩
  · rintro e s' y ⟨seg, hseg, hx⟩
    exact ⟨seg, hseg, hX seg hx⟩

theorem Tells.raising {t : Coro α} (h : Tells A t Q X) (hX : ∀ seg, X seg → X' seg) :
    Tells A t Q X' := h.mono (fun _ _ => id) hX

theorem Tells.bind {t : Coro α} {f : α → Coro β} {P : α → List Heard → Prop}
    {R : β → List Heard → Prop}
    (h : Tells A t P X)
    (hf : ∀ a seg, P a seg → Tells A (f a) (fun b seg' => R b (seg ++ seg')) fun seg' =>
      X (seg ++ seg')) :
    Tells A (t >>= f) R X := by
  intro s w l hb hp
  rw [Task.wp_bind]
  refine Task.wp_alone_mono (h s w l hb hp) ?_ fun _ _ _ => id
  rintro a s' ⟨w', l'⟩ ⟨hb', hp', seg, rfl, ha⟩
  refine Task.wp_alone_mono (hf a seg ha s' w' (l ++ seg) hb' hp') ?_ ?_
  · rintro b s'' y ⟨hb'', hp'', seg', hseg', hR⟩
    exact ⟨hb'', hp'', seg ++ seg', by rw [hseg', List.append_assoc], hR⟩
  · rintro e s'' y ⟨seg', hseg', hX⟩
    exact ⟨seg ++ seg', by rw [hseg', List.append_assoc], hX⟩

/-- Others have their turn, and the query fails or is answered from the tables as they are then. -/
theorem wp_alone_execute {q : Query} {s : Session} {w : World} {l : List Heard}
    {R : q.Res → Session → World × List Heard → Prop} {E : Exn → Session → World × List Heard → Prop}
    (hb : s.broken = false) (hp : s.pending = [])
    (hfails : ∀ x : Turn, A x → ∀ f,
      E f { s with broken := true } (x.1 w, l ++ [⟨.query [] q, .error f⟩]))
    (hreads : ∀ x : Turn, A x → R (q.eval x.2 (x.1 w).clock (x.1 w).db) s
      (x.1 w, l ++ [⟨.query [] q, .ok (q.eval x.2 (x.1 w).clock (x.1 w).db)⟩])) :
    Task.wp (alone heeded A) (execute q) R E s (w, l) := by
  rw [wp_execute, if_neg (by rw [hb]; exact Bool.false_ne_true), hp]
  intro x hx
  rcases query_cases [] q x.2 (x.1 w) with ⟨f, hf⟩ | hok
  · have hans : amid handle (.query [] q) x w = (.error f, x.1 w) := hf
    simp only [heeded, tracked, hans, dbCases_error]
    exact hfails x hx f
  · have hans : amid handle (.query [] q) x w =
        (.ok (q.eval x.2 (x.1 w).clock (x.1 w).db), x.1 w) := hok
    simp only [heeded, tracked, hans, dbCases_ok]
    exact hreads x hx

/-- A query, and what it is answered; when that is an exception, it does harm. -/
theorem Tells.execute {q : Query} {Q : q.Res → List Heard → Prop}
    (hQ : ∀ e t d, Q (q.eval e t d) [⟨.query [] q, .ok (q.eval e t d)⟩])
    (hX : ∀ e, X [⟨.query [] q, .error e⟩]) : Tells A (execute q) Q X := by
  intro s w l hb hp
  exact wp_alone_execute hb hp (fun x _ f => ⟨_, rfl, hX f⟩)
    fun x _ => ⟨hb, hp, _, rfl, hQ x.2 _ _⟩

theorem Tells.rateCheck {b : BrokerId} {limit : Rat} {Q : RateSnapshot → List Heard → Prop}
    (hQ : ∀ rl, Q rl [⟨.rateCheck b limit, .ok rl⟩])
    (hX : ∀ e, X [⟨.rateCheck b limit, .error e⟩]) : Tells A (rateCheck b limit) Q X := by
  intro s w l hb hp
  unfold BrokerBridge.rateCheck
  rw [Task.wp_bind, wp_await]
  intro x _
  show Task.wp (alone heeded A) (ofRedisAnswer "rate limits"
    (amid handle (.rateCheck b limit) x w).1) _ _ s
    (_, l ++ [⟨.rateCheck b limit, (amid handle (.rateCheck b limit) x w).1⟩])
  generalize (amid handle (.rateCheck b limit) x w).1 = y
  cases y with
  | ok rl => exact ⟨hb, hp, _, rfl, hQ rl⟩
  | error e => cases e <;> exact ⟨_, rfl, hX _⟩

end Rules

section More

variable {α : Type} {A : Turn → Prop} {s : Session} {w : World} {l : List Heard}

/-- What a coroutine is told comes after what was told before. -/
theorem told_more (t : Coro α) : Task.wp (alone heeded A) t
    (fun _ _ y => ∃ seg, y.2 = l ++ seg) (fun _ _ y => ∃ seg, y.2 = l ++ seg) s (w, l) := by
  have hany : Task.wp (only fun _ => True) t (fun _ _ => True) (fun _ _ => True) s :=
    returns_any t s
  refine Task.wp_alone_mono (Task.wp_listened_of_only hany l) ?_ ?_
  all_goals
    rintro _ _ _ ⟨_, seg, hseg, _⟩
    exact ⟨seg, hseg⟩

/-- Submitting begins by handing the order over. -/
theorem submitInline_told (by_ : Actor) (order : Order) (chain : List RouteCandidate) :
    Task.wp (alone heeded A) (submitInline by_ order chain)
      (fun _ _ y => ∃ seg, y.2 = l ++ seg ∧ Routed seg)
      (fun _ _ y => ∃ seg, y.2 = l ++ seg ∧ Routed seg) s (w, l) := by
  unfold submitInline
  rw [Task.wp_bind, wp_mark]
  intro x _
  refine Task.wp_alone_mono (told_more _) ?_ ?_
  all_goals
    rintro _ _ _ ⟨seg, hseg⟩
    refine ⟨⟨.mark (.submitInline by_ order chain), ()⟩ :: seg, ?_, _, List.mem_cons_self, rfl⟩
    exact hseg.trans (List.append_assoc ..)

end More

/-! ## Routing -/

/-- Some await went wrong. -/
def Harmful (l : List Heard) : Prop := ∃ x ∈ l, harmful x.1 x.2 = true

theorem harmful_of_not_harmless {l : List Heard} (h : ¬ Harmless l) : Harmful l := by
  obtain ⟨x, hx⟩ := not_forall.mp h
  obtain ⟨hmem, hharm⟩ := Classical.not_imp.mp hx
  exact ⟨x, hmem, Bool.of_not_eq_false hharm⟩

theorem Harmful.append_left {l l' : List Heard} (h : Harmful l) : Harmful (l ++ l') := by
  obtain ⟨x, hx, hh⟩ := h
  exact ⟨x, List.mem_append_left l' hx, hh⟩

theorem Harmful.append_right {l l' : List Heard} (h : Harmful l') : Harmful (l ++ l') := by
  obtain ⟨x, hx, hh⟩ := h
  exact ⟨x, List.mem_append_right l hx, hh⟩

theorem harmful_singleton {r : Req} {x : r.Ans} (h : harmful r x = true) : Harmful [⟨r, x⟩] :=
  ⟨⟨r, x⟩, List.mem_singleton_self _, h⟩

/-- The broker that routing asked about. -/
def Heard.about : Heard → Option BrokerId
  | ⟨.query _ (.activeAssignment b), _⟩ | ⟨.rateCheck b _, _⟩ => some b
  | _ => none

/-- Answers about these brokers. -/
def Concerns (bs : List BrokerAccount) (l : List Heard) : Prop :=
  ∀ y ∈ l, ∃ b ∈ bs, y.about = some b.id

section Telling

variable {A : Turn → Prop} {q : RouteQuery} {c : RouteContext}

/-- The limiter is asked about a broker that nothing else excludes, and its answer decides. -/
theorem considerBroker_tells (b : BrokerAccount) (hq : q.consumeRateLimit = false) :
    Tells A (considerBroker q c b)
      (fun x seg => ∃ a, (seg = [.assignment b a] ∧ ∃ ex, x = .error ex) ∨
        ∃ rl, seg = [.assignment b a, .rate b rl] ∧ x = considered q c b a rl)
      Harmful := by
  refine Tells.bind (P := fun a seg => seg = [.assignment b a])
    (Tells.execute (fun _ _ _ => rfl) fun _ => harmful_singleton rfl) ?_
  rintro a _ rfl
  cases hip : excludedByIp q c b a with
  | some x => exact Tells.pure ⟨a, .inl ⟨rfl, x, rfl⟩⟩
  | none =>
      cases hhealth : excludedByHealth c b with
      | some x => exact Tells.pure ⟨a, .inl ⟨rfl, x, rfl⟩⟩
      | none =>
          unfold rateSnapshot
          rw [if_neg (by rw [hq]; exact Bool.false_ne_true)]
          refine Tells.bind (P := fun rl seg => seg = [.rate b rl])
            (Tells.rateCheck (fun _ => rfl) fun _ => (harmful_singleton rfl).append_right) ?_
          rintro rl _ rfl
          split
          · next hreject =>
              refine Tells.pure ⟨a, .inr ⟨rl, rfl, ?_⟩⟩
              rw [considered, hip, hhealth]
              exact (if_pos hreject).symm
          · next hreject =>
              refine Tells.pure ⟨a, .inr ⟨rl, rfl, ?_⟩⟩
              rw [considered, hip, hhealth]
              exact (if_neg hreject).symm

/-- What was told of other brokers says nothing of this one. -/
theorem offered_append_others {b : BrokerAccount} {bs : List BrokerAccount} {l l' : List Heard}
    (hof : Concerns bs l') (hb : b.id ∉ bs.map (·.id)) :
    (Offered q c b (l ++ l') ↔ Offered q c b l) ∧ (Offered q c b (l' ++ l) ↔ Offered q c b l) := by
  have hother : ∀ y : Heard, y.about = some b.id → y ∉ l' := by
    intro y habout hy
    obtain ⟨b', hb', heq⟩ := hof y hy
    rw [habout, Option.some_inj] at heq
    exact hb (heq ▸ List.mem_map_of_mem hb')
  have hassignment : ∀ a, Heard.assignment b a ∉ l' := fun a => hother _ rfl
  have hrate : ∀ rl, Heard.rate b rl ∉ l' := fun rl => hother _ rfl
  constructor <;> simp only [Offered, List.mem_append, hassignment, hrate, or_false, false_or]

theorem offered_pair {b : BrokerAccount} {a : Option (IpAssignment × StaticIp)}
    {rl : RateSnapshot} :
    Offered q c b [.assignment b a, .rate b rl] ↔ Eligible q c b a rl := by
  refine ⟨?_, fun h => ⟨a, rl, List.mem_cons_self, List.mem_cons_of_mem _ List.mem_cons_self, h⟩⟩
  rintro ⟨a', rl', ha', hrl', h⟩
  rcases List.mem_cons.mp ha' with ha' | ha'
  · rcases List.mem_cons.mp hrl' with hrl' | hrl'
    · cases hrl'
    · cases ha'
      cases List.mem_singleton.mp hrl'
      exact h
  · cases List.mem_singleton.mp ha'

/-- The broker is a candidate if and only if the answers make it eligible. -/
theorem considerBroker_offers (b : BrokerAccount) (hq : q.consumeRateLimit = false) :
    Tells A (considerBroker q c b)
      (fun x seg => Concerns [b] seg ∧ ((∃ cand, x = .ok cand) ↔ Offered q c b seg)) Harmful := by
  refine (considerBroker_tells b hq).mono ?_ fun _ => id
  rintro x seg ⟨a, hx⟩
  constructor
  · obtain ⟨rfl, _⟩ | ⟨rl, rfl, _⟩ := hx
    all_goals
      intro y hy
      refine ⟨b, List.mem_singleton_self b, ?_⟩
      simp only [List.mem_cons, List.not_mem_nil, or_false] at hy
    · rw [hy]
      rfl
    · rcases hy with rfl | rfl <;> rfl
  · obtain ⟨rfl, ex, rfl⟩ | ⟨rl, rfl, rfl⟩ := hx
    · refine iff_of_false (fun ⟨_, h⟩ => by cases h) ?_
      rintro ⟨a', rl, _, hrl, _⟩
      cases List.mem_singleton.mp hrl
    · exact considered_ok_iff.trans offered_pair.symm

theorem concerns_append {b : BrokerAccount} {bs : List BrokerAccount} {l l' : List Heard}
    (hl : Concerns [b] l) (hl' : Concerns bs l') : Concerns (b :: bs) (l ++ l') := by
  intro y hy
  rcases List.mem_append.mp hy with hy | hy
  · obtain ⟨b', hb', heq⟩ := hl y hy
    exact ⟨b, List.mem_cons_self, List.mem_singleton.mp hb' ▸ heq⟩
  · obtain ⟨b', hb', heq⟩ := hl' y hy
    exact ⟨b', List.mem_cons_of_mem _ hb', heq⟩

theorem exists_offered_append {b : BrokerAccount} {bs : List BrokerAccount} {l l' : List Heard}
    (hl : Concerns [b] l) (hl' : Concerns bs l') (hb : b.id ∉ bs.map (·.id)) :
    (∃ b' ∈ b :: bs, Offered q c b' (l ++ l')) ↔
      Offered q c b l ∨ ∃ b' ∈ bs, Offered q c b' l' := by
  have hothers : ∀ b' ∈ bs, (Offered q c b' (l ++ l') ↔ Offered q c b' l') := by
    intro b' hb'
    refine (offered_append_others hl ?_).2
    rw [List.map_singleton, List.mem_singleton]
    exact fun heq => hb (List.mem_map.mpr ⟨b', hb', heq⟩)
  rw [List.exists_mem_cons_iff, (offered_append_others hl' hb).1]
  exact or_congr_right (exists_congr fun b' => and_congr_right (hothers b'))

/-- There is a candidate if and only if the answers offer one. -/
theorem considerBrokers_tells {bs : List BrokerAccount} (hnodup : (bs.map (·.id)).Nodup)
    (hq : q.consumeRateLimit = false) :
    Tells A (considerBrokers q c bs)
      (fun x seg => Concerns bs seg ∧ (x.1 ≠ [] ↔ ∃ b ∈ bs, Offered q c b seg)) Harmful := by
  induction bs with
  | nil => exact Tells.pure ⟨List.forall_mem_nil _, by simp⟩
  | cons b bs ih =>
      obtain ⟨hb, hrest⟩ := List.nodup_cons.mp hnodup
      refine Tells.bind (considerBroker_offers b hq) fun x seg ⟨habout, hoffered⟩ => ?_
      refine Tells.bind ((ih hrest).raising fun _ h => h.append_right) ?_
      rintro ⟨cs, xs⟩ seg' ⟨habout', hcs⟩
      have hexists : (∃ b' ∈ b :: bs, Offered q c b' (seg ++ seg')) ↔
          (∃ cand, x = .ok cand) ∨ cs ≠ [] := by
        rw [exists_offered_append habout habout' hb, hoffered, hcs]
      cases x with
      | ok cand =>
          refine Tells.pure ?_
          rw [List.append_nil, hexists]
          exact ⟨concerns_append habout habout',
            iff_of_true (List.cons_ne_nil _ _) (.inl ⟨cand, rfl⟩)⟩
      | error ex =>
          refine Tells.pure ?_
          rw [List.append_nil, hexists]
          exact ⟨concerns_append habout habout',
            ⟨.inr, fun h => h.resolve_left fun ⟨_, h⟩ => by cases h⟩⟩

/-- `select` has read what it needs. -/
structure Consulted (q : RouteQuery) (x : RouteReads) (seg : List Heard) : Prop where
  heard : seg = x.heard q
  threshold : x.thresholds.threshold? = some x.threshold
  about : Concerns x.brokers x.details

/-- The settings have a threshold that is no number. -/
def Unreadable (seg : List Heard) : Prop :=
  ∃ config : Config, seg = [⟨.query [] .config, .ok config⟩] ∧ config.threshold? = none

theorem degradedMinOf_tells {config : Config} :
    Tells A (degradedMinOf config) (fun t seg => seg = [] ∧ config.threshold? = some t)
      fun seg => seg = [] ∧ config.threshold? = none := by
  unfold degradedMinOf Config.threshold?
  cases config.degradedMin with
  | none => exact Tells.pure ⟨rfl, rfl⟩
  | some setting =>
      cases setting with
      | value t => exact Tells.pure ⟨rfl, rfl⟩
      | bad => exact Tells.raise ⟨rfl, rfl⟩

theorem read_tells {query : Query} :
    Tells A (execute query) (fun a seg => seg = [⟨.query [] query, .ok a⟩]) Harmful :=
  Tells.execute (fun _ _ _ => rfl) fun _ => harmful_singleton rfl

theorem primaryOf_isSome {cs : List RouteCandidate} :
    (primaryOf q (sortCandidates cs)).isSome ↔ cs ≠ [] := by
  rw [Option.isSome_iff_ne_none, not_iff_not]
  constructor
  · intro h
    exact List.perm_nil.mp (primaryOf_none h ▸ (sortCandidates_perm cs).symm)
  · rintro rfl
    unfold primaryOf
    cases q.preferredBrokerId <;> rfl

theorem select_tells (hq : q.consumeRateLimit = false) :
    Tells A (select q)
      (fun d seg => ∃ x, Consulted q x seg ∧
        (d.primary.isSome ↔ ∃ b ∈ x.brokers, Offered q x.context b x.details))
      fun seg => Harmful seg ∨ Unreadable seg := by
  refine Tells.bind (read_tells.raising fun _ h => .inl h) ?_
  rintro c₁ _ rfl
  refine Tells.bind (degradedMinOf_tells.raising ?_) ?_
  · rintro _ ⟨rfl, hbad⟩
    exact .inr ⟨c₁, rfl, hbad⟩
  rintro t _ ⟨rfl, ht⟩
  refine Tells.bind (read_tells.raising fun _ h =>
    .inl h.append_right.append_right) ?_
  rintro c₂ _ rfl
  have hpolicy : Tells A exceedPolicy (fun policy seg => ∃ c₃ : Config,
      seg = [⟨.query [] .config, .ok c₃⟩] ∧ policy = Text.upper (c₃.exceedPolicy.getD "REROUTE"))
      Harmful := by
    refine Tells.bind read_tells ?_
    rintro c₃ _ rfl
    exact Tells.pure ⟨c₃, rfl, rfl⟩
  refine Tells.bind (hpolicy.raising
    fun _ h => .inl h.append_right.append_right.append_right) ?_
  rintro _ _ ⟨c₃, rfl, rfl⟩
  have hbrokers : Tells A (execute (.enabledBrokers q.clientId)) (fun bs seg =>
      seg = [⟨.query [] (.enabledBrokers q.clientId), .ok bs⟩] ∧ (bs.map (·.id)).Nodup) Harmful :=
    Tells.execute (fun _ _ d => ⟨rfl, d.brokers.nodup.sublist (List.filter_sublist.map _)⟩)
      fun _ => harmful_singleton rfl
  refine Tells.bind (hbrokers.raising
    fun _ h => .inl h.append_right.append_right.append_right.append_right) ?_
  rintro bs _ ⟨rfl, hnodup⟩
  refine Tells.bind (read_tells.raising
    fun _ h => .inl h.append_right.append_right.append_right.append_right.append_right) ?_
  rintro hs _ rfl
  refine Tells.bind ((considerBrokers_tells hnodup hq).raising
    fun _ h => .inl h.append_right.append_right.append_right.append_right.append_right.append_right)
      ?_
  rintro ⟨cs, xs⟩ seg ⟨habout, hcs⟩
  refine Tells.pure ⟨⟨t, c₁, c₂, c₃, bs, hs, seg⟩, ⟨?_, ht, habout⟩, primaryOf_isSome.trans hcs⟩
  simp [RouteReads.heard]

/-! ## Whether there is a route -/

/-- Routing reads the brokers once. -/
def Heard.readsBrokers : Heard → Bool
  | ⟨.query _ (.enabledBrokers _), _⟩ => true
  | _ => false

/-- The answers before routing. -/
def Unrouted (l : List Heard) : Prop := ∀ y ∈ l, y.readsBrokers = false

theorem Unrouted.append {l l' : List Heard} (h : Unrouted l) (h' : Unrouted l') :
    Unrouted (l ++ l') :=
  List.forall_mem_append.mpr ⟨h, h'⟩

theorem unrouted_of_concerns {bs : List BrokerAccount} {l : List Heard} (h : Concerns bs l) :
    Unrouted l := by
  intro y hy
  obtain ⟨b, -, habout⟩ := h y hy
  unfold Heard.about at habout
  split at habout
  · rfl
  · rfl
  · cases habout

theorem RouteFound.append {pre l : List Heard} (h : RouteFound q l) : RouteFound q (pre ++ l) := by
  obtain ⟨pre', x, rfl, ht, b, hb, hoffered⟩ := h
  exact ⟨pre ++ pre', x, (List.append_assoc ..).symm, ht, b, hb, hoffered⟩

/-- Once a route is found, whatever else is heard does not take it away. -/
theorem RouteFound.later {l post : List Heard} (h : RouteFound q l) : RouteFound q (l ++ post) := by
  obtain ⟨pre, x, rfl, ht, b, hb, a, rl, ha, hrl, heligible⟩ := h
  refine ⟨pre, { x with details := x.details ++ post }, ?_, ht, b, hb, a, rl,
    List.mem_append_left _ ha, List.mem_append_left _ hrl, heligible⟩
  rw [List.append_assoc, RouteReads.heard, RouteReads.heard, List.append_assoc]

/-- Neither what a query is answered nor what the limiter says. -/
def Heard.aside : Heard → Bool
  | ⟨.query _ _, _⟩ | ⟨.rateCheck _ _, _⟩ => false
  | _ => true

/-- A route is found by what was heard before already. -/
theorem RouteFound.before {l : List Heard} {y : Heard} (h : RouteFound q (l ++ [y]))
    (hy : y.aside = true) :
    RouteFound q l := by
  obtain ⟨pre, x, hsplit, ht, b, hb, a, rl, ha, hrl, heligible⟩ := h
  rcases List.eq_nil_or_concat x.details with hnil | ⟨details, y', hdetails⟩
  · rw [hnil] at ha
    cases ha
  · have hsplit' : l ++ [y] = (pre ++ { x with details := details }.heard q) ++ [y'] := by
      rw [hsplit, RouteReads.heard, RouteReads.heard, hdetails]
      simp
    obtain ⟨rfl, hlast⟩ := List.append_inj' hsplit' rfl
    cases hlast
    have hother : ∀ z : Heard, z.aside = false → z ∈ x.details → z ∈ details := by
      intro z hz hmem
      rw [hdetails, List.concat_eq_append] at hmem
      refine (List.mem_append.mp hmem).resolve_right fun hlast => ?_
      rw [List.mem_singleton.mp hlast, hy] at hz
      cases hz
    exact ⟨pre, { x with details := details }, rfl, ht, b, hb, a, rl, hother _ rfl ha,
      hother _ rfl hrl,
      heligible⟩

/-- The only element of a list that has a property divides it in one way. -/
theorem split_unique {α : Type} {p : α → Bool} {l m l' m' : List α} {e e' : α}
    (h : l ++ e :: m = l' ++ e' :: m') (hl : ∀ y ∈ l, p y = false) (hm : ∀ y ∈ m, p y = false)
    (he' : p e' = true) : l = l' ∧ e = e' ∧ m = m' := by
  rcases List.append_eq_append_iff.mp h with ⟨as, rfl, has⟩ | ⟨as, rfl, has⟩
  · cases as with
    | nil =>
        obtain ⟨rfl, rfl⟩ := List.cons.inj has
        exact ⟨(List.append_nil l).symm, rfl, rfl⟩
    | cons a as =>
        obtain ⟨-, rfl⟩ := List.cons.inj has
        have hmem : e' ∈ as ++ e' :: m' := List.mem_append_right as List.mem_cons_self
        rw [hm e' hmem] at he'
        cases he'
  · cases as with
    | nil =>
        obtain ⟨rfl, rfl⟩ := List.cons.inj has
        exact ⟨List.append_nil l', rfl, rfl⟩
    | cons a as =>
        obtain ⟨rfl, -⟩ := List.cons.inj has
        have hmem : e' ∈ l' ++ e' :: as := List.mem_append_right l' List.mem_cons_self
        rw [hl e' hmem] at he'
        cases he'

theorem RouteReads.heard_append (x : RouteReads) (pre : List Heard) :
    pre ++ x.heard q = (pre ++ [⟨.query [] .config, .ok x.thresholds⟩,
      ⟨.query [] .config, .ok x.requirement⟩, ⟨.query [] .config, .ok x.policy⟩]) ++
      ⟨.query [] (.enabledBrokers q.clientId), .ok x.brokers⟩ ::
        (⟨.query [] .latestHealth, .ok x.health⟩ :: x.details) := by
  simp [RouteReads.heard]

/-- What has been read decides whether there is a route. -/
theorem Consulted.routeFound_iff {x : RouteReads} {pre seg : List Heard} (h : Consulted q x seg)
    (hpre : Unrouted pre) :
    RouteFound q (pre ++ seg) ↔ ∃ b ∈ x.brokers, Offered q x.context b x.details := by
  obtain ⟨rfl, ht, habout⟩ := h
  constructor
  · rintro ⟨pre', x', hsplit, ht', b, hb, hoffered⟩
    rw [RouteReads.heard_append, RouteReads.heard_append] at hsplit
    have hreads : ∀ config : Config,
        Heard.readsBrokers ⟨.query [] .config, .ok config⟩ = false := fun _ => rfl
    have hbefore : Unrouted (pre ++ [⟨.query [] .config, .ok x.thresholds⟩,
        ⟨.query [] .config, .ok x.requirement⟩, ⟨.query [] .config, .ok x.policy⟩]) :=
      hpre.append (by simp [Unrouted, hreads])
    have hafter : Unrouted (⟨.query [] .latestHealth, .ok x.health⟩ :: x.details) :=
      List.forall_mem_cons.mpr ⟨rfl, unrouted_of_concerns habout⟩
    obtain ⟨hconfigs, hbrokers, hrest⟩ := split_unique hsplit hbefore hafter rfl
    obtain ⟨-, hconfigs⟩ := List.append_inj' hconfigs rfl
    cases x
    cases x'
    cases hconfigs
    cases hbrokers
    cases hrest
    cases ht.symm.trans ht'
    exact ⟨b, hb, hoffered⟩
  · rintro ⟨b, hb, hoffered⟩
    exact ⟨pre, x, rfl, ht, b, hb, hoffered⟩

theorem Unrouted.not_routeFound {l : List Heard} (h : Unrouted l) : ¬ RouteFound q l := by
  rintro ⟨pre, x, rfl, -⟩
  rw [RouteReads.heard_append] at h
  cases h _ (List.mem_append_right _ List.mem_cons_self)

theorem Unreadable.not_routeFound {pre seg : List Heard} (h : Unreadable seg)
    (hpre : Unrouted pre) :
    ¬ RouteFound q (pre ++ seg) := by
  obtain ⟨config, rfl, -⟩ := h
  exact (hpre.append (List.forall_mem_singleton.mpr rfl)).not_routeFound

/-- Routing returns where a route was found, and raises where something went wrong or none was. -/
theorem selectOrRaise_tells (hq : q.consumeRateLimit = false) :
    Tells A (selectOrRaise q) (fun _ seg => RouteFound q seg)
      fun seg => Harmful seg ∨ ∀ pre, Unrouted pre → ¬ RouteFound q (pre ++ seg) := by
  refine Tells.bind ((select_tells hq).raising ?_) ?_
  · exact fun seg h => h.imp_right fun hbad pre hpre => hbad.not_routeFound hpre
  rintro d seg ⟨x, hx, hd⟩
  split
  · next hnone =>
      refine Tells.raise (.inr fun pre hpre hfound => ?_)
      rw [List.append_nil, hx.routeFound_iff hpre, ← hd, Option.isSome_iff_ne_none] at hfound
      exact hfound (Option.isNone_iff_eq_none.mp hnone)
  · next hsome =>
      refine Tells.pure ?_
      rw [List.append_nil]
      refine (hx.routeFound_iff (List.forall_mem_nil _)).mpr (hd.mp ?_)
      rwa [Option.isNone_iff_eq_none, ← ne_eq, ← Option.isSome_iff_ne_none] at hsome

end Telling

end BrokerBridge
