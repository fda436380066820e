import BrokerBridge.Code.System
import BrokerBridge.Conc.History
import BrokerBridge.World.Frame

/-!
# Calls in flight

`place` takes a permit of the semaphore and counts itself in `_inflight_count`, each in a
`try` with its `finally`. Whatever happens in between, the permits that are out and the count
are those of the calls that are at these places of their code: `flight` is the protocol of the
two, and `Metered` the invariant of its runs.
-/

namespace BrokerBridge

open Conc

/-! ## Answers of any kind -/

/-- A request to the semaphore, or to the count. -/
def Req.meters : Req → Bool
  | .semAcquire _ | .semRelease _ | .inflightUp | .inflightDown => true
  | _ => false

/-- `w'`, with the semaphore and the count of `w`. -/
def World.withMetersOf (w' w : World) : World :=
  { w' with
    semaphore := w.semaphore
    maxInflight := w.maxInflight
    inflightCount := w.inflightCount }

/-- How an await ends: as the world has it, or in any other way, as when the task is cancelled
there. -/
inductive Response where
  | usual (e : Env)
  | other (answer : (r : Req) → r.Ans) (w : World)

/-- The system, where an await may end in any way. The semaphore's either acquires, or raises
without having acquired. -/
def hostile (s : Settings) : Machine World Req Req.Ans Response Call Tick (Except Exn Reply) where
  prog := programOf s
  handle r x w :=
    match x with
    | .usual e => handle r e w
    | .other answer w' => if r.meters then handle r {} w else (answer r, w'.withMetersOf w)
  tick := tick

/-! ## What is counted -/

inductive Motion where
  | took | gave | rose | fell
  deriving DecidableEq

/-- What a request has come to. -/
def motion : (x : (r : Req) × r.Ans) → Option Motion
  | ⟨.semAcquire _, .ok true⟩ => some .took
  | ⟨.semRelease _, _⟩ => some .gave
  | ⟨.inflightUp, _⟩ => some .rose
  | ⟨.inflightDown, _⟩ => some .fell
  | _ => none

/-- How often call `i` has done so. -/
def made (m : Motion) (log : History Req Req.Ans) (i : Nat) : Nat :=
  log.countP fun x => x.1 = i && motion x.2 = some m

/-- The accounts of a run: its history, and where it has led. -/
structure InflightAccount (size : Nat) (log : History Req Req.Ans)
    (s : Pool World Req Req.Ans (Except Exn Reply)) : Prop where
  /-- The count is that of the calls between their increment and their decrement. -/
  counted : s.world.inflightCount =
    (List.range s.threads.length).countP fun i => decide (made .fell log i < made .rose log i)
  bounded : s.world.inflightCount ≤ size
  /-- `max(0, _)` does nothing. -/
  unclamped : ∀ x ∈ s.trace, x.2.1 = .inflightDown → 0 < x.2.2.inflightCount
  /-- The permits that are out are those of the calls that have not given theirs back. -/
  permits : s.world.semaphore.length =
    (List.range s.threads.length).countP fun i => decide (made .gave log i < made .took log i)
  /-- What is released has been acquired, and is still out. -/
  owned : ∀ x ∈ s.trace, ∀ h, x.2.1 = .semRelease h → h ∈ x.2.2.semaphore
  once : ∀ i, made .gave log i ≤ made .took log i ∧ made .took log i ≤ 1 ∧
    made .fell log i ≤ made .rose log i ∧ made .rose log i ≤ 1
  released : ∀ i a, s.Returned i a →
    made .gave log i = made .took log i ∧ made .fell log i = made .rose log i
  idle : (∀ i < s.threads.length, ∃ a, s.Returned i a) →
    s.world.inflightCount = 0 ∧ s.world.semaphore = []

/-! ## The protocol -/

/-- Where a call is. -/
inductive Flight where
  | before
  /-- with a permit -/
  | held (h : Nat)
  /-- and counted -/
  | flying (h : Nat)
  /-- no longer counted -/
  | landed (h : Nat)
  /-- with the permit given back, or none got -/
  | after (took : Bool)

namespace Flight

def isFlying : Flight → Bool
  | flying _ => true
  | _ => false

def holder? : Flight → Option Nat
  | held h | flying h | landed h => some h
  | _ => none

def allows : Flight → Req → Prop
  | before, r => r.meters = false ∨ ∃ h, r = .semAcquire h
  | held _, r => r = .inflightUp
  | flying _, r => r.meters = false ∨ r = .inflightDown
  | landed h, r => r = .semRelease h
  | after _, r => r.meters = false

def advance : Flight → (r : Req) → r.Ans → Flight
  | before, .semAcquire h, .ok true => held h
  | before, .semAcquire _, _ => after false
  | held h, .inflightUp, _ => flying h
  | flying h, .inflightDown, _ => landed h
  | landed _, .semRelease _, _ => after true
  | ph, _, _ => ph

/-- How often a call there has moved so. -/
def made : Flight → Motion → Nat
  | before, _ => 0
  | held _, m => if m = .took then 1 else 0
  | flying _, m => if m = .took ∨ m = .rose then 1 else 0
  | landed _, m => if m = .gave then 0 else 1
  | after took, _ => took.toNat

end Flight

/-- Where a call ends. -/
def Flight.over : Flight → Prop
  | before | after _ => True
  | _ => False

def flight : Protocol Req Req.Ans Flight := ⟨Flight.allows, Flight.advance⟩

section Meters

variable {ph : Flight} {r : Req} {x : r.Ans}

theorem motion_none (h : r.meters = false) : motion ⟨r, x⟩ = none := by
  cases r with
  | semAcquire | semRelease | inflightUp | inflightDown => cases h
  | _ => rfl

theorem flight_steady (h : r.meters = false) : ph.advance r x = ph := by
  cases r with
  | semAcquire | semRelease | inflightUp | inflightDown => cases h
  | _ => cases ph <;> rfl

/-- The history of a call is where it is. -/
theorem made_advance (h : ph.allows r) (m : Motion) :
    (ph.advance r x).made m = ph.made m + if motion ⟨r, x⟩ = some m then 1 else 0 := by
  by_cases hr : r.meters = false
  · rw [flight_steady hr, motion_none hr, if_neg nofun, Nat.add_zero]
  cases ph with
  | before =>
      obtain ⟨h, rfl⟩ := h.resolve_left hr
      rcases x with e | _ | _ <;> cases m <;> rfl
  | held =>
      obtain rfl := h
      cases m <;> rfl
  | flying =>
      obtain rfl := h.resolve_left hr
      cases m <;> rfl
  | landed =>
      obtain rfl := h
      cases m <;> rfl
  | after => exact absurd h hr

end Meters

/-! ## The call follows it -/

section Follow

variable {s : Session} {ph : Flight}

/-- A stretch that makes no such request leaves the call where it is. -/
theorem steady_then {α β : Type} {t : Coro α} {f : α → Coro β} {Q : β → Session → Flight → Prop}
    {E : Exn → Session → Flight → Prop} (hph : ph = .before ∨ ∃ h, ph = .flying h)
    (ht : Calm (·.meters = false) t) (hs : s.Clean) (hE : ∀ e s', E e s' ph)
    (hk : ∀ a s', s'.Clean → Task.wp flight.step (f a) Q E s' ph) :
    Task.wp flight.step (t >>= f) Q E s ph := by
  rw [Task.wp_bind]
  have hallow : ∀ r : Req, r.meters = false → ph.allows r := fun r hr => by
    rcases hph with rfl | ⟨h, rfl⟩
    · exact .inl hr
    · exact .inl hr
  refine Task.wp_quiet (P := flight) (fun r hr => ⟨hallow r hr, fun x => flight_steady hr⟩) ?_
  exact Task.wp_only_mono (fun _ => id) (ht s hs) hk fun e s' _ => hE e s'

theorem steady_submitting (o : OrderId) : Submitting (·.meters = false) o where
  newId := rfl
  query _ _ := rfl
  commit _ := rfl
  routing r h := by cases r <;> first | rfl | exact h.elim
  place _ := rfl
  ensuring _ r h := by cases r <;> first | rfl | exact h.elim
  mark _ _ _ := rfl

theorem routing_steady (r : Req) (h : r.routing) : r.meters = false :=
  (steady_submitting 0).routing r h

theorem gating_steady {c : ClientId} (r : Req) (h : r.gating c) : r.meters = false := by
  cases r <;> first | rfl | exact h.elim

theorem read_steady {U : Write → Prop} {q : Query} : Steps (·.meters = false) U U (execute q) :=
  Steps.execute fun _ _ => rfl

theorem insertOrder_steady (order : Order) : Calm (·.meters = false) (insertOrder order) :=
  insertOrder_calm order (fun _ _ => rfl) rfl rfl rfl

theorem placeNew_steady (id : OrderId) (r : PlaceRequest) :
    Calm (·.meters = false) (placeNew id r) := by
  refine Steps.bind (insertOrder_steady _) fun x => ?_
  cases x with
  | error prior => exact Steps.pure _
  | ok order =>
      refine Steps.bind ((selectOrRaise_calm _).mono routing_steady) fun decision => ?_
      refine Steps.bind (submitInline_calm .place order (steady_submitting _) decision.chain)
        fun _ => ?_
      exact Steps.bind read_steady fun row => Steps.bind (Steps.refreshed row) fun _ => Steps.pure _

/-- Both `finally` clauses run, however the part between them ends. -/
theorem inflight_follows {α : Type} {t : Coro α} (h : Nat) (ht : Calm (·.meters = false) t)
    (hs : s.Clean) :
    Task.wp flight.step
      (Task.finally' (do await .inflightUp; Task.finally' t (await .inflightDown))
        (await (.semRelease h)))
      (fun _ _ ph => ph.over) (fun _ _ ph => ph.over) s (.held h) := by
  rw [Task.wp_finally', Task.wp_bind, wp_await]
  refine ⟨rfl, fun _ => ?_⟩
  rw [Task.wp_finally']
  have hend : ∀ s', Task.wp flight.step (await .inflightDown) (fun _ s'' =>
      Task.wp flight.step (await (.semRelease h)) (fun _ _ ph => ph.over)
        (fun _ _ ph => ph.over) s'')
      (fun _ _ ph => ph.over) s' (.flying h) := fun s' =>
    ⟨.inr rfl, fun _ => ⟨rfl, fun _ => trivial⟩⟩
  have hquiet : ∀ r : Req, r.meters = false →
      flight.allows (.flying h) r ∧ ∀ x, flight.advance (.flying h) r x = .flying h := fun r hr =>
    ⟨Or.inl hr, fun x => flight_steady hr⟩
  refine Task.wp_quiet hquiet ?_
  exact Task.wp_only_mono (fun _ => id) (ht s hs) (fun _ s' _ => hend s') fun _ s' _ => hend s'

theorem acquireInflight_follows {α : Type} {f : Unit → Coro α} (h : Nat) (hs : s.Clean)
    (hk : ∀ s', s'.Clean → Task.wp flight.step (f ()) (fun _ _ ph => ph.over)
      (fun _ _ ph => ph.over) s' (.held h)) :
    Task.wp flight.step (acquireInflight h >>= f) (fun _ _ ph => ph.over) (fun _ _ ph => ph.over) s
      .before := by
  rw [Task.wp_bind]
  unfold acquireInflight
  rw [Task.wp_bind, wp_await]
  refine ⟨.inr ⟨h, rfl⟩, fun x => ?_⟩
  rcases x with e | _ | _
  · exact trivial
  · exact trivial
  · exact hk s hs

theorem place_flies (r : PlaceRequest) :
    Task.wp flight.step (place r) (fun _ _ ph => ph.over) (fun _ _ ph => ph.over) {} .before := by
  unfold place
  refine steady_then (.inl rfl) ((assertTradingAllowed_calm _).mono gating_steady)
    Session.clean_new (fun _ _ => trivial) fun _ s1 hs1 => ?_
  refine steady_then (.inl rfl) read_steady hs1 (fun _ _ => trivial) fun prior s2 hs2 => ?_
  cases prior with
  | some prior => exact trivial
  | none =>
      refine steady_then (.inl rfl) (Steps.bind read_steady fun _ => Steps.pure _) hs2
        (fun _ _ => trivial) fun mode s3 hs3 => ?_
      rw [Task.wp_ite]
      split
      · exact trivial
      refine steady_then (.inl rfl) (Steps.newId rfl) hs3 (fun _ _ => trivial) fun id s4 hs4 => ?_
      exact acquireInflight_follows id hs4 fun s5 hs5 =>
        inflight_follows id (placeNew_steady id r) hs5

theorem programOf_flies (settings : Settings) (r : PlaceRequest) :
    (programOf settings (.place r)).Follows flight (fun _ ph => ph.over) .before :=
  Coro.program_ends (place_flies r) (fun _ _ _ => id) fun _ _ _ => id

end Follow

/-! ## What the world does -/

/-- What the calls take and count. -/
def World.meters (w : World) : List Nat × Nat × Nat := (w.semaphore, w.maxInflight, w.inflightCount)

theorem InfraCall.eval_meters (c : InfraCall) (e : Env) (w : World) :
    (c.eval e w).2.meters = w.meters := by
  cases c with
  | attachIp =>
      simp only [InfraCall.eval]
      split <;> rfl
  | destroyInstance =>
      simp only [InfraCall.eval]
      split <;> rfl
  | setAutoRenew =>
      simp only [InfraCall.eval]
      split <;> rfl
  | _ => rfl

theorem handle_meters {r : Req} (h : r.meters = false) (e : Env) (w : World) :
    (handle r e w).2.meters = w.meters := by
  cases r with
  | semAcquire | semRelease | inflightUp | inflightDown => cases h
  | commit ws =>
      rcases commit_cases ws e w with ⟨f, hf⟩ | ⟨d, _, hf⟩
      · rw [hf]
      · rw [hf]
        rfl
  | flush ws =>
      simp only [handle]
      split
      · rfl
      · exact Env.answer_keeps World.meters rfl
  | acquire k ttl t =>
      simp only [handle]
      split <;> exact Env.answer_keeps World.meters rfl
  | release k t =>
      refine Env.answer_keeps World.meters ?_
      split <;> rfl
  | infra c => exact Env.answer_keeps World.meters (c.eval_meters e w)
  | placeOrder o p =>
      rcases placeOrder_cases o p e w with ⟨f, hf⟩ | hf
      · rw [hf]
      · rw [hf]
        rfl
  | cancelOrder o bo =>
      rcases cancelOrder_cases o bo e w with ⟨f, hf⟩ | hf
      · rw [hf]
      · rw [hf]
        rfl
  | query | rollback | rateCheck | rateConsume => exact Env.answer_keeps World.meters rfl
  | cacheSession | authenticate | refreshSession => exact Env.answer_keeps World.meters rfl
  | fetchWhitelist | sleep => exact Env.answer_keeps World.meters rfl
  | _ => rfl

/-- A permit is taken while there is one, or nothing is. -/
theorem semAcquire_cases (h : Nat) (e : Env) (w : World) :
    (handle (.semAcquire h) e w).1 ≠ .ok true ∧ (handle (.semAcquire h) e w).2 = w ∨
    w.semaphore.length < w.maxInflight ∧
      handle (.semAcquire h) e w = (.ok true, { w with semaphore := h :: w.semaphore }) := by
  simp only [handle]
  split
  · next hroom =>
      rcases Env.answer_cases e .cancelled w true { w with semaphore := h :: w.semaphore } with
        ⟨f, hf⟩ | hf
      · rw [hf]
        exact .inl ⟨(fun heq => by cases heq), rfl⟩
      · exact .inr ⟨hroom, hf⟩
  · rcases Env.answer_cases e .cancelled w false w with ⟨f, hf⟩ | hf
    · rw [hf]
      exact .inl ⟨(fun heq => by cases heq), rfl⟩
    · rw [hf]
      exact .inl ⟨(fun heq => by cases heq), rfl⟩

theorem tick_meters (v : Tick) (w : World) : (tick v w).meters = w.meters := by
  cases v <;> rfl

section Hostile

variable {settings : Settings}

theorem hostile_steady {r : Req} (h : r.meters = false) (x : Response) (w : World) :
    ((hostile settings).handle r x w).2.meters = w.meters := by
  cases x with
  | usual e => exact handle_meters h e w
  | other answer w' =>
      show (if r.meters then handle r {} w else (answer r, w'.withMetersOf w)).2.meters = _
      rw [h]
      rfl

theorem hostile_meters {r : Req} (h : r.meters = true) (x : Response) (w : World) :
    ∃ e, (hostile settings).handle r x w = handle r e w := by
  cases x with
  | usual e => exact ⟨e, rfl⟩
  | other answer w' => exact ⟨{}, if_pos h⟩

end Hostile

/-! ## The invariant -/

/-- `f` says where the `n` calls are. -/
structure Balance (size n : Nat) (f : Nat → Flight) (w : World) : Prop where
  count : w.inflightCount = (List.range n).countP fun i => (f i).isFlying
  permits : w.semaphore.Perm ((List.range n).filterMap fun i => (f i).holder?)
  size_eq : w.maxInflight = size
  room : w.semaphore.length ≤ size

namespace Balance

variable {size n i : Nat} {f f' : Nat → Flight} {w w' : World}

theorem steady (h : Balance size n f w) (hw : w'.meters = w.meters) : Balance size n f w' := by
  obtain ⟨hsem, hmax, hcount⟩ : w'.semaphore = w.semaphore ∧ w'.maxInflight = w.maxInflight ∧
      w'.inflightCount = w.inflightCount := by
    have := Prod.mk.inj hw
    exact ⟨this.1, Prod.mk.inj this.2⟩
  refine ⟨?_, ?_, ?_, ?_⟩
  · rw [hcount, h.count]
  · rw [hsem]
    exact h.permits
  · rw [hmax, h.size_eq]
  · rw [hsem]
    exact h.room

/-- The calls but one. -/
theorem count_split (h : Balance size n f w) (hi : i < n) :
    w.inflightCount = ((List.range n).erase i).countP (fun j => (f j).isFlying) +
      (f i).isFlying.toNat := by
  rw [h.count, (range_perm_erase hi).countP_eq, List.countP_cons]
  cases (f i).isFlying <;> rfl

theorem permits_split (h : Balance size n f w) (hi : i < n) : w.semaphore.Perm
    ((f i).holder?.toList ++ ((List.range n).erase i).filterMap fun j => (f j).holder?) := by
  refine h.permits.trans (((range_perm_erase hi).filterMap _).trans ?_)
  rw [List.filterMap_cons]
  cases (f i).holder? <;> exact .refl _

/-- One call moves. -/
theorem move (h : Balance size n f w) (hi : i < n) (hf : ∀ j, j ≠ i → f' j = f j)
    (hcount : w'.inflightCount + (f i).isFlying.toNat = w.inflightCount + (f' i).isFlying.toNat)
    (hperm : ∀ rest, w.semaphore.Perm ((f i).holder?.toList ++ rest) →
      w'.semaphore.Perm ((f' i).holder?.toList ++ rest))
    (hsize : w'.maxInflight = w.maxInflight) (hroom : w'.semaphore.length ≤ size) :
    Balance size n f' w' := by
  have hsame : ∀ j ∈ (List.range n).erase i, f j = f' j := fun j hj =>
    (hf j (mem_range_erase hj)).symm
  refine ⟨?_, ?_, hsize.trans h.size_eq, hroom⟩
  · have hsplit := h.count_split hi
    have hothers : ((List.range n).erase i).countP (fun j => (f j).isFlying) =
        ((List.range n).erase i).countP fun j => (f' j).isFlying :=
      List.countP_congr fun j hj => by rw [hsame j hj]
    have hthis : (List.range n).countP (fun j => (f' j).isFlying) =
        ((List.range n).erase i).countP (fun j => (f' j).isFlying) + (f' i).isFlying.toNat := by
      rw [(range_perm_erase hi).countP_eq, List.countP_cons]
      cases (f' i).isFlying <;> rfl
    omega
  · have hothers : ((List.range n).erase i).filterMap (fun j => (f j).holder?) =
        ((List.range n).erase i).filterMap fun j => (f' j).holder? :=
      List.filterMap_congr fun j hj => by rw [hsame j hj]
    have hsplit := hperm _ (h.permits_split hi)
    rw [hothers] at hsplit
    refine hsplit.trans (List.Perm.symm (((range_perm_erase hi).filterMap _).trans ?_))
    rw [List.filterMap_cons]
    cases (f' i).holder? <;> exact .refl _

/-- A call that has just started. -/
theorem start (h : Balance size n f w) (hn : f n = .before) : Balance size (n + 1) f w := by
  refine ⟨?_, ?_, h.size_eq, h.room⟩
  · rw [List.range_succ, List.countP_append, h.count, List.countP_singleton, hn]
    rfl
  · rw [List.range_succ, List.filterMap_append, List.filterMap_cons, hn]
    exact h.permits.trans (.of_eq (List.append_nil _).symm)

end Balance

section Run

variable {settings : Settings} {size : Nat} {log : History Req Req.Ans}
  {s : Pool World Req Req.Ans (Except Exn Reply)}

/-- Where call `i` is. -/
abbrev flightOf (log : History Req Req.Ans) (i : Nat) : Flight := flight.phase .before log i

structure Metered (size : Nat) (s : Pool World Req Req.Ans (Except Exn Reply))
    (log : History Req Req.Ans) : Prop where
  tracked : Tracked flight (fun _ ph => ph.over) .before s log
  tallied : ∀ i m, made m log i = (flightOf log i).made m
  balance : Balance size s.threads.length (flightOf log) s.world
  unclamped : ∀ x ∈ s.trace, x.2.1 = .inflightDown → 0 < x.2.2.inflightCount
  owned : ∀ x ∈ s.trace, ∀ h, x.2.1 = .semRelease h → h ∈ x.2.2.semaphore

/-- What an answer adds to the history of the calls. -/
theorem made_append (m : Motion) (i j : Nat) (x : (r : Req) × r.Ans) :
    made m (log ++ [(i, x)]) j = made m log j + if i = j ∧ motion x = some m then 1 else 0 := by
  rw [made, List.countP_append, List.countP_singleton]
  refine congrArg _ ?_
  by_cases hij : i = j <;> by_cases hm : motion x = some m <;> simp [hij, hm]

theorem Metered.tallied_step (h : Metered size s log) {i : Nat} {r : Req} {k : r.Ans → Running}
    (hk : s.prog? i = some (.call r k)) (x : r.Ans) (j : Nat) (m : Motion) :
    made m (log ++ [(i, ⟨r, x⟩)]) j = (flightOf (log ++ [(i, ⟨r, x⟩)]) j).made m := by
  rw [made_append, h.tallied]
  by_cases hji : j = i
  · subst hji
    have hallow : (flightOf log j).allows r := (h.tracked.follows j _ hk).allows
    have hself : flightOf (log ++ [(j, ⟨r, x⟩)]) j = (flightOf log j).advance r x :=
      Protocol.phase_append_self
    rw [hself, made_advance hallow]
    simp
  · have hother : flightOf (log ++ [(i, ⟨r, x⟩)]) j = flightOf log j :=
      Protocol.phase_append_of_ne hji
    rw [hother, if_neg fun hc => hji hc.1.symm, Nat.add_zero]

/-- What a step of a call does to the permits and to the count, and in what state it is made. -/
theorem Metered.balance_step (h : Metered size s log) {i : Nat} {r : Req} {k : r.Ans → Running}
    (hk : s.prog? i = some (.call r k)) (y : Response) :
    (r = .inflightDown → 0 < s.world.inflightCount) ∧
    (∀ n, r = .semRelease n → n ∈ s.world.semaphore) ∧
    Balance size s.threads.length
      (flightOf (log ++ [(i, ⟨r, ((hostile settings).handle r y s.world).1⟩)]))
      ((hostile settings).handle r y s.world).2 := by
  have hi := Pool.prog?_some_lt hk
  have hallow : (flightOf log i).allows r := (h.tracked.follows i _ hk).allows
  have hself : flightOf (log ++ [(i, ⟨r, ((hostile settings).handle r y s.world).1⟩)]) i =
      (flightOf log i).advance r ((hostile settings).handle r y s.world).1 :=
    Protocol.phase_append_self
  have hothers : ∀ j, j ≠ i →
      flightOf (log ++ [(i, ⟨r, ((hostile settings).handle r y s.world).1⟩)]) j = flightOf log j :=
    fun j hj => Protocol.phase_append_of_ne hj
  have hcount := h.balance.count_split hi
  have hperm := h.balance.permits_split hi
  by_cases hr : r.meters = false
  · -- Nothing of it changes.
    refine ⟨fun he => ?_, fun n he => ?_, ?_⟩
    · rw [he] at hr
      cases hr
    · rw [he] at hr
      cases hr
    · rw [flight_steady hr] at hself
      refine Balance.steady ?_ (hostile_steady hr y s.world)
      exact h.balance.move hi hothers (by rw [hself]) (by rw [hself]; exact fun _ h => h) rfl
        h.balance.room
  obtain ⟨e, he⟩ := hostile_meters (Bool.not_eq_false _ ▸ hr) y s.world
  rw [he] at hself hothers ⊢
  cases hat : flightOf log i with
  | before =>
      rw [hat] at hallow hself
      obtain ⟨n, rfl⟩ := Or.resolve_left hallow hr
      refine ⟨nofun, fun _ => nofun, ?_⟩
      rcases semAcquire_cases n e s.world with ⟨hnot, hsame⟩ | ⟨hroom, htook⟩
      · have hafter : flightOf (log ++ [(i, ⟨_, (handle (.semAcquire n) e s.world).1⟩)]) i =
            .after false := by
          rw [hself]
          rcases hx : (handle (.semAcquire n) e s.world).1 with f | _ | _
          · rfl
          · rfl
          · exact absurd hx hnot
        rw [hsame]
        refine h.balance.move hi hothers ?_ ?_ rfl h.balance.room
        · rw [hafter, hat]
          rfl
        · rw [hafter, hat]
          exact fun _ h => h
      · rw [htook] at hself hothers ⊢
        refine h.balance.move hi hothers ?_ ?_ rfl ?_
        · rw [hself, hat]
          rfl
        · rw [hself, hat]
          exact fun rest h => h.cons n
        · rw [h.balance.size_eq] at hroom
          exact hroom
  | held n =>
      rw [hat] at hallow hself
      obtain rfl : r = .inflightUp := hallow
      refine ⟨nofun, fun _ => nofun, h.balance.move hi hothers ?_ ?_ rfl h.balance.room⟩
      · rw [hself, hat]
        rfl
      · rw [hself, hat]
        exact fun _ h => h
  | flying n =>
      rw [hat] at hallow hself hcount
      obtain rfl := Or.resolve_left hallow hr
      have hpos : 0 < s.world.inflightCount := by
        rw [hcount]
        exact Nat.succ_pos _
      refine ⟨fun _ => hpos, fun _ => nofun, h.balance.move hi hothers ?_ ?_ rfl h.balance.room⟩
      · rw [hself, hat]
        exact Nat.sub_add_cancel hpos
      · rw [hself, hat]
        exact fun _ h => h
  | landed n =>
      rw [hat] at hallow hself hperm
      obtain rfl : r = .semRelease n := hallow
      have hmem : n ∈ s.world.semaphore := hperm.mem_iff.mpr List.mem_cons_self
      refine ⟨nofun, ?_, h.balance.move hi hothers ?_ ?_ rfl ?_⟩
      · rintro _ ⟨⟩
        exact hmem
      · rw [hself, hat]
        rfl
      · rw [hself, hat]
        intro rest hrest
        have herase := hrest.erase n
        rwa [show Flight.holder? (.landed n) = some n from rfl, Option.toList_some,
          List.singleton_append, List.erase_cons_head] at herase
      · exact (List.length_erase_le).trans h.balance.room
  | after =>
      rw [hat] at hallow
      exact absurd hallow hr

/-- No calls but those of `place` are started. -/
def placing : Event Response Call Tick → Prop
  | .start c => ∃ r, c = .place r
  | _ => True

theorem Metered.init {w : World} (hcount : w.inflightCount = 0) (hsem : w.semaphore = []) :
    Metered w.maxInflight { world := w } [] where
  tracked := Tracked.init w []
  tallied _ _ := rfl
  balance :=
    { count := hcount
      permits := hsem ▸ .refl _
      size_eq := rfl
      room := by
        rw [hsem]
        exact Nat.zero_le _ }
  unclamped := List.forall_mem_nil _
  owned := List.forall_mem_nil _

theorem Metered.next (h : Metered size s log) {ev : Event Response Call Tick} (hev : placing ev) :
    Metered size ((hostile settings).next s ev) (log ++ (hostile settings).answered s ev) := by
  cases ev with
  | start c =>
      obtain ⟨r, rfl⟩ := hev
      have hlen : (s.threads ++ [some ((hostile settings).prog (.place r))]).length =
          s.threads.length + 1 := List.length_append
      rw [show (hostile settings).answered s (.start (.place r)) = [] from rfl, List.append_nil]
      refine ⟨h.tracked.started (programOf_flies settings r), h.tallied, ?_, h.unclamped, h.owned⟩
      show Balance size (s.threads ++ [some ((hostile settings).prog (.place r))]).length _ _
      rw [hlen]
      exact h.balance.start (h.tracked.new _ (Nat.le_refl _))
  | step i y =>
      by_cases hasks : ∃ r k, s.prog? i = some (.call r k)
      · obtain ⟨r, k, hk⟩ := hasks
        obtain ⟨hdown, hrelease, hbalance⟩ := h.balance_step hk y
        have htracked := h.tracked.stepped (M := hostile settings) hk y
        rw [Machine.answered_of_asks y hk]
        rw [Machine.next_step_of_asks y hk] at htracked ⊢
        refine ⟨htracked, fun j m => h.tallied_step hk _ j m, ?_, ?_, ?_⟩
        · show Balance size (s.threads.set i _).length _ _
          rw [List.length_set]
          exact hbalance
        · intro x hx hreq
          rcases List.mem_cons.mp hx with rfl | hx
          · exact hdown hreq
          · exact h.unclamped x hx hreq
        · intro x hx n hreq
          rcases List.mem_cons.mp hx with rfl | hx
          · exact hrelease n hreq
          · exact h.owned x hx n hreq
      · have hidle : ∀ r k, s.prog? i ≠ some (.call r k) := fun r k hk => hasks ⟨r, k, hk⟩
        rw [Machine.answered_of_idle y hidle, Machine.next_step_of_idle y hidle, List.append_nil]
        exact h
  | crash i =>
      rw [show (hostile settings).answered s (.crash i) = [] from rfl, List.append_nil]
      refine ⟨h.tracked.crashed i, h.tallied, ?_, h.unclamped, h.owned⟩
      show Balance size (s.threads.set i none).length _ _
      rw [List.length_set]
      exact h.balance
  | tick v =>
      rw [show (hostile settings).answered s (.tick v) = [] from rfl, List.append_nil]
      exact ⟨h.tracked.ticked v, h.tallied, h.balance.steady (tick_meters v s.world), h.unclamped,
        h.owned⟩

/-! ## The accounts -/

theorem Flight.made_le (ph : Flight) : ph.made .gave ≤ ph.made .took ∧ ph.made .took ≤ 1 ∧
    ph.made .fell ≤ ph.made .rose ∧ ph.made .rose ≤ 1 := by
  cases ph with
  | after took => cases took <;> decide
  | _ => simp [Flight.made]

theorem Flight.made_of_over {ph : Flight} (h : ph.over) :
    ph.made .gave = ph.made .took ∧ ph.made .fell = ph.made .rose := by
  cases ph with
  | before | after => exact ⟨rfl, rfl⟩
  | held | flying | landed => exact h.elim

theorem Flight.isFlying_eq (ph : Flight) : ph.isFlying = decide
    (ph.made .fell < ph.made .rose) := by
  cases ph with
  | after took => cases took <;> rfl
  | _ => rfl

theorem Flight.holder?_isSome (ph : Flight) :
    ph.holder?.isSome = decide (ph.made .gave < ph.made .took) := by
  cases ph with
  | after took => cases took <;> rfl
  | _ => rfl

theorem Flight.holder?_of_flying {ph : Flight} (h : ph.isFlying = true) :
    ph.holder?.isSome = true := by
  cases ph with
  | flying => rfl
  | _ => cases h

theorem Metered.account (h : Metered size s log) : InflightAccount size log s := by
  have hflying : ∀ i, (flightOf log i).isFlying = decide (made .fell log i < made .rose log i) :=
    fun i => by rw [h.tallied, h.tallied, Flight.isFlying_eq]
  have hout : s.world.semaphore.length =
      (List.range s.threads.length).countP fun i => (flightOf log i).holder?.isSome := by
    rw [h.balance.permits.length_eq, List.length_filterMap_eq_countP]
  have hover : ∀ i a, s.Returned i a → (flightOf log i).over := fun i a ha =>
    h.tracked.follows i _ ha
  refine ⟨?_, ?_, h.unclamped, ?_, h.owned, fun i => ?_, fun i a ha => ?_, fun hall => ?_⟩
  · rw [h.balance.count]
    exact List.countP_congr fun i _ => by rw [hflying]
  · rw [h.balance.count]
    refine Nat.le_trans ?_ (hout ▸ h.balance.room)
    exact List.countP_mono_left fun i _ => Flight.holder?_of_flying
  · rw [hout]
    exact List.countP_congr fun i _ => by rw [h.tallied, h.tallied, Flight.holder?_isSome]
  · simp only [h.tallied]
    exact (flightOf log i).made_le
  · simp only [h.tallied]
    exact Flight.made_of_over (hover i a ha)
  · have hnone : ∀ i ∈ List.range s.threads.length, (flightOf log i).holder?.isSome = false := by
      intro i hi
      obtain ⟨a, ha⟩ := hall i (List.mem_range.mp hi)
      have hplace := hover i a ha
      cases hat : flightOf log i with
      | before | after => rfl
      | held | flying | landed =>
          rw [hat] at hplace
          exact hplace.elim
    refine ⟨?_, ?_⟩
    · rw [h.balance.count, List.countP_eq_zero]
      intro i hi hfly
      have hsome := Flight.holder?_of_flying hfly
      rw [hnone i hi] at hsome
      cases hsome
    · rw [← List.length_eq_zero_iff, hout, List.countP_eq_zero]
      intro i hi hsome
      rw [hnone i hi] at hsome
      cases hsome

end Run

/-- However any number of calls of `place` are interleaved, and however each of their awaits
ends. -/
theorem inflight_account (settings : Settings) (w : World) (hcount : w.inflightCount = 0)
    (hsem : w.semaphore = []) (evs : List (Event Response Call Tick))
    (hevs : ∀ ev ∈ evs, placing ev) :
    InflightAccount w.maxInflight ((hostile settings).history { world := w } evs)
      ((hostile settings).run { world := w } evs) :=
  (Machine.history_induction (P := Metered w.maxInflight) (fun _ _ _ h hev => h.next hev)
    (Metered.init hcount hsem) hevs).account

/-- A client who may trade, and room for one order. -/
def roomForOne : World where
  db :=
    { clients := .of [{ id := 1 }]
      subscriptions := .of
        [{ id := 2, clientId := 1, status := .active, startsAt := 0, endsAt := 10 }] }
  maxInflight := 1

def orderOf (key : String) : Event Response Call Tick :=
  .start (.place { clientId := 1, clientOrderId := key, side := "buy", symbol := "X",
                   quantity := 1 })

/-- The first order is in flight, and the second turned away. -/
def twoOrders : List (Event Response Call Tick) :=
  [orderOf "a", orderOf "b"] ++ List.replicate 9 (.step 0 (.usual {})) ++
    List.replicate 9 (.step 1 (.usual {}))

theorem inflight_account_twoOrders :
    ((hostile {}).run { world := roomForOne } twoOrders).world.inflightCount = 1 ∧
    InflightAccount 1 ((hostile {}).history { world := roomForOne } twoOrders)
      ((hostile {}).run { world := roomForOne } twoOrders) := by
  refine ⟨by decide +kernel, inflight_account {} roomForOne rfl rfl twoOrders fun ev hev => ?_⟩
  simp only [twoOrders, List.mem_append, List.mem_cons, List.mem_replicate, List.not_mem_nil,
    or_false] at hev
  rcases hev with ((rfl | rfl) | ⟨_, rfl⟩) | ⟨_, rfl⟩
  · exact ⟨_, rfl⟩
  · exact ⟨_, rfl⟩
  · trivial
  · trivial

end BrokerBridge
