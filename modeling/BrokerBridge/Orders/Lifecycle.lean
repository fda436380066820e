import BrokerBridge.Code.Areas
import BrokerBridge.Code.System

/-!
# The life of an order, as its calls see it

The protocol that `place`, `replay` and `cancel` follow. A call takes an order
up, by inserting it or by a mark; from then until it takes up another it works
on that one only. An inserted order may be submitted. A replayed order is read,
then its attempts are: an attempt that the broker accepted is adopted, and only
without one may the order be submitted again. A cancelled order is read too,
and what the call does follows from that one read.

Submitting is `clear`: the loop may call `place_order` as often as the broker
refuses. Once it has accepted, the call only settles: it may write the order
and its attempts, but it never submits again.
-/

namespace BrokerBridge

open Conc

inductive Phase where
  /-- no order in hand -/
  | away
  /-- taken up by replay, nothing read yet -/
  | recovering (o : OrderId)
  /-- replay has read an order that is not terminal -/
  | found (o : OrderId)
  /-- the order may be submitted -/
  | clear (o : OrderId)
  /-- accepted or adopted, to be recorded -/
  | settling (o : OrderId)
  /-- taken up by cancel, nothing read yet -/
  | checking (o : OrderId)
  /-- cancel has read a cancelable order with this broker order id -/
  | cancelling (o : OrderId) (brokerOrder : Option BrokerOrderId)
  /-- the broker has cancelled, to be recorded -/
  | cancelled (o : OrderId)
  deriving DecidableEq

/-- The commit that marks an order cancelled. -/
def CancelWrites (o : OrderId) (ws : List Write) : Prop :=
  ∃ c key bo, ws = [.setOrder o (.status .cancelled), .enqueue (.orderCancelled o c key bo)]

def Write.order? : Write → Option OrderId
  | .addOrder r => some r.id
  | .addAttempt r => some r.orderId
  | .setOrder o _ => some o
  | .setAttempt o _ _ => some o
  | .enqueue (.orderSubmitted o ..) => some o
  | .enqueue (.orderCancelled o ..) => some o
  | _ => none

/-- The order that a commit inserts on its own. -/
def insertion? : List Write → Option OrderId
  | [.addOrder row] => some row.id
  | _ => none

/-- A request that concerns no order. -/
def Req.orderFree : Req → Prop
  | .commit ws | .flush ws => ∀ w ∈ ws, w.order? = none
  | .placeOrder _ _ | .cancelOrder _ _ => False
  | .mark (.recover _) | .mark (.cancel _) => False
  | _ => True

namespace Phase

/-- What a phase allows beyond that. -/
def permits : Phase → Req → Prop
  | clear o, r => r.busy o ∨ ∃ payload, r = .placeOrder o payload
  | settling o, r => r.busy o
  | cancelling o none, .commit ws => CancelWrites o ws
  | cancelling o (some bo), .cancelOrder o' bo' => o' = o ∧ bo' = bo
  | cancelled o, .commit ws => CancelWrites o ws
  | _, _ => False

/-- The row of an order, read. -/
def readOrder (ph : Phase) (same : Bool) (row : Option Order) : Phase :=
  match ph with
  | recovering o =>
      if same then
        match row with
        | some r => if r.status.terminal then away else found o
        | none => away
      else away
  | checking o =>
      if same then
        match row with
        | some r => if r.status.cancelable then cancelling o r.brokerOrderId else away
        | none => away
      else away
  | ph => ph

/-- Its attempts, read. -/
def readAttempts (ph : Phase) (same : Bool) (rows : List OrderAttempt) : Phase :=
  match ph with
  | found o =>
      if same then
        if (rows.findSome? (·.adoptable)).isSome then settling o else clear o
      else away
  | ph => ph

def order? : Phase → Option OrderId
  | away => none
  | recovering o | found o | clear o | settling o => some o
  | checking o | cancelling o _ | cancelled o => some o

/-- An answer to a query. A read counts only when no write of the session is
pending. -/
def read (ph : Phase) (ws : List Write) : (q : Query) → Except Exn q.Res → Phase
  | .order o, .ok row => ph.readOrder (ph.order? = some o ∧ ws.isEmpty) (row.map (·.1))
  | .attemptsOf o, .ok rows => ph.readAttempts (ph.order? = some o ∧ ws.isEmpty) rows
  | _, _ => ph

/-- A commit that inserts nothing: one that concerns the order moves on. -/
def wrote (ph : Phase) (ws : List Write) : Phase :=
  if ws.all (·.order? = none) then ph
  else
    match ph with
    | clear o => clear o
    | settling o => settling o
    | _ => away

/-- A commit: an insertion takes the order up. -/
def committed (ph : Phase) (ws : List Write) (x : Except Exn Unit) : Phase :=
  match insertion? ws, x with
  | some o, .ok _ => clear o
  | some _, .error _ => away
  | none, _ => ph.wrote ws

def placed (ph : Phase) (x : Except Exn BrokerOrderId) : Phase :=
  match ph, x with
  | clear o, .ok _ => settling o
  | ph, _ => ph

def cancelReplied (ph : Phase) (x : Except Exn Unit) : Phase :=
  match ph, x with
  | cancelling o (some _), .ok _ => cancelled o
  | _, _ => away

def advance (ph : Phase) : (r : Req) → r.Ans → Phase
  | .mark (.recover o), _ => recovering o
  | .mark (.cancel o), _ => checking o
  | .query ws q, x => ph.read ws q x
  | .commit ws, x => ph.committed ws x
  | .placeOrder _ _, x => ph.placed x
  | .cancelOrder _ _, x => ph.cancelReplied x
  | _, _ => ph

end Phase

/-- The order is taken up: it is marked, or inserted. -/
def Req.takesUp (o : OrderId) : Req → Prop
  | .mark (.recover o') | .mark (.cancel o') => o' = o
  | .commit ws => ∃ row : Order, row.id = o ∧ row.status = .created ∧ ws = [.addOrder row]
  | _ => False

/-- The life of an order. A call may take up an order at any time. -/
def lifecycle : Protocol Req Req.Ans Phase where
  allows ph r := r.orderFree ∨ (∃ o, r.takesUp o) ∨ ph.permits r
  advance := Phase.advance

/-! ## Stretches -/

theorem routing_orderFree (r : Req) (h : r.routing) : r.orderFree := by
  cases r <;> trivial

theorem ensuring_orderFree {b : BrokerId} (r : Req) (h : r.ensuring b) : r.orderFree := by
  cases r with
  | commit ws =>
      intro w hw
      have := h w hw
      cases w <;> first | rfl | exact this.elim
  | _ => trivial

theorem gating_orderFree {c : ClientId} (r : Req) (h : r.gating c) : r.orderFree := by
  cases r with
  | commit ws =>
      intro w hw
      have := h w hw
      cases w <;> first | rfl | exact this.elim
  | _ => trivial

/-- The phases in which reading an order moves nothing. -/
def Phase.steady : Phase → Prop
  | .away | .clear _ | .settling _ => True
  | _ => False

theorem insertion?_eq_none {ws : List Write} (h : ∀ row, Write.addOrder row ∉ ws) :
    insertion? ws = none := by
  unfold insertion?
  split
  · exact absurd (List.mem_singleton.mpr rfl) (h _)
  · rfl

theorem committed_of_none {ph : Phase} {ws : List Write} {x : Except Exn Unit}
    (h : insertion? ws = none) : ph.committed ws x = ph.wrote ws := by
  unfold Phase.committed
  rw [h]

theorem advance_orderFree {ph : Phase} (hph : ph.steady) (r : Req) (h : r.orderFree)
    (x : r.Ans) : ph.advance r x = ph := by
  cases r with
  | query ws q =>
      cases q <;> try rfl
      all_goals
        cases x
        · rfl
        · cases ph with
          | _ => first | rfl | exact hph.elim
  | commit ws =>
      have hno : insertion? ws = none := insertion?_eq_none fun row hrow => nomatch h _ hrow
      refine (committed_of_none hno).trans (if_pos (List.all_eq_true.mpr fun w hw => ?_))
      exact decide_eq_true (h w hw)
  | mark m => cases m <;> first | rfl | exact h.elim
  | placeOrder o p => exact h.elim
  | cancelOrder o b => exact h.elim
  | _ => rfl

theorem advance_busy {o : OrderId} {ph : Phase} (hph : ph = .clear o ∨ ph = .settling o)
    (r : Req) (h : r.busy o) (x : r.Ans) : ph.advance r x = ph := by
  cases r with
  | query ws q =>
      cases q <;> try rfl
      all_goals
        cases x
        · rfl
        · rcases hph with rfl | rfl <;> rfl
  | commit ws =>
      have hno : insertion? ws = none := insertion?_eq_none fun row hrow => h _ hrow
      refine (committed_of_none hno).trans ?_
      unfold Phase.wrote
      split
      · rfl
      · rcases hph with rfl | rfl <;> rfl
  | mark m => cases m <;> first | rfl | exact h.elim
  | placeOrder o p => exact h.elim
  | cancelOrder o b => exact h.elim
  | _ => rfl

theorem advance_inserted {ph : Phase} (order : Order) (x : Unit) :
    lifecycle.advance ph (.commit [.addOrder order]) (.ok x) = .clear order.id := rfl

section Stretches

variable {α : Type} {t : Coro α} {U V : Write → Prop} {s : Session} {ph : Phase}

/-- A stretch that works on the order in hand. -/
theorem lifecycle_busy {o : OrderId} (h : Steps (Req.busy o) U V t)
    (hph : ph = .clear o ∨ ph = .settling o) (hs : s.Staged U) :
    Task.wp lifecycle.step t (fun _ s' ph' => s'.Staged V ∧ ph' = ph)
      (fun _ s' ph' => s'.Clean ∧ ph' = ph) s ph := by
  refine Task.wp_quiet (P := lifecycle)
    (fun r hr => ⟨Or.inr (Or.inr ?_), advance_busy hph r hr⟩) ?_
  · rcases hph with rfl | rfl
    · exact Or.inl hr
    · exact hr
  · exact Task.wp_only_mono (fun _ => id) (h s hs) (fun _ _ h => ⟨h, rfl⟩) fun _ _ h => ⟨h, rfl⟩

/-- A stretch that concerns no order. -/
theorem lifecycle_free (h : Steps Req.orderFree U V t) (hph : ph.steady)
    (hs : s.Staged U) :
    Task.wp lifecycle.step t (fun _ s' ph' => s'.Staged V ∧ ph' = ph)
      (fun _ s' ph' => s'.Clean ∧ ph' = ph) s ph := by
  refine Task.wp_quiet (P := lifecycle)
    (fun r hr => ⟨Or.inl hr, advance_orderFree hph r hr⟩) ?_
  exact Task.wp_only_mono (fun _ => id) (h s hs) (fun _ _ h => ⟨h, rfl⟩) fun _ _ h => ⟨h, rfl⟩

end Stretches

/-! ## The programs follow -/

/-- What a stretch leaves behind when nothing is to be said of the phase. -/
abbrev Tidy {α : Type} : α → Session → Phase → Prop := fun _ s _ => s.Clean

section Follow

variable {s : Session} {o : OrderId}

/-- A stretch that works on the order, all of whose exceptions break the session. -/
theorem lifecycle_breaks {α : Type} {t : Coro α} {U V : Write → Prop} {ph : Phase}
    (h : Steps (Req.busy o) U V t) (hb : Breaks t)
    (hph : ph = .clear o ∨ ph = .settling o) (hs : s.Staged U) :
    Task.wp lifecycle.step t (fun _ s' ph' => s'.Staged V ∧ ph' = ph)
      (fun _ s' _ => s'.broken = true) s ph := by
  refine Task.wp_quiet (P := lifecycle)
    (fun r hr => ⟨Or.inr (Or.inr ?_), advance_busy hph r hr⟩) ?_
  · rcases hph with rfl | rfl
    · exact Or.inl hr
    · exact hr
  · exact Task.wp_only_mono (fun _ => id) (h.breaking hb hs) (fun _ _ h => ⟨h, rfl⟩)
      fun _ _ => id

/-- On a broken session the handler only raises. -/
theorem wp_submitHandler_broken {X : Type} {g : (r : Req) → (r.Ans → X) → X}
    {Q : Option LastError → Session → X} {E : Exn → Session → X} (order : Order)
    (attempt : OrderAttempt) (e : Exn) (hb : s.broken = true) :
    ∃ e' s', s'.broken = true ∧
      Task.wp g (submitHandler order attempt e) Q E s = E e' s' := by
  cases e with
  | cancelled => exact ⟨_, s, hb, rfl⟩
  | _ =>
      obtain ⟨s', hb', heq⟩ := wp_failAttempt_broken (g := g) attempt _ hb
      refine ⟨brokenSession, s', hb', ?_⟩
      simp only [submitHandler, Task.wp_bind]
      exact heq

/-- One submission: it fails and may be repeated, or it is not. -/
theorem trySubmit_follows {order : Order} {attempt : OrderAttempt} (c : RouteCandidate)
    (ha : attempt.orderId = order.id) (hs : s.Clean) :
    Task.wp lifecycle.step (trySubmit order attempt c)
      (fun x s' ph' => s'.Clean ∧ (x.isSome → ph' = .clear order.id)) Tidy s
      (.clear order.id) := by
  unfold trySubmit
  rw [Task.wp_catching, Task.wp_bind, wp_await]
  refine ⟨Or.inr (Or.inr (Or.inr ⟨_, rfl⟩)), fun x => ?_⟩
  cases x with
  | ok bo =>
      -- Accepted: if the recording raises, the session is broken and nothing follows.
      simp only [Task.wp_bind, wp_ofAnswer_ok]
      refine Task.wp_step_mono (lifecycle_breaks
        (recordSubmitted_calm order (busy_working _) attempt c bo ha)
        (recordSubmitted_breaks order attempt c bo) (Or.inr rfl) hs) ?_ ?_
      · exact fun _ s' ph' h => ⟨h.1, nofun⟩
      · intro e s' ph' hb
        obtain ⟨e', s'', hb', heq⟩ := wp_submitHandler_broken order attempt e hb
        rw [heq]
        exact Or.inl hb'
  | error e =>
      simp only [Task.wp_bind, wp_ofAnswer_error]
      exact Task.wp_step_mono (lifecycle_busy
        (submitHandler_calm order (busy_working _) attempt ha e)
        (Or.inl rfl) hs) (fun _ s' ph' h => ⟨h.1, fun _ => h.2⟩) fun _ s' ph' h => h.1

section Then

variable {α β : Type} {t : Coro α} {f : α → Coro β} {ph : Phase}
  {Q : β → Session → Phase → Prop}

/-- A working stretch, and what follows it, with what the stretch returned. -/
theorem busy_then_of {R : α → Prop} (h : Calm (Req.busy o) t) (hr : Returns R t)
    (hph : ph = .clear o ∨ ph = .settling o) (hs : s.Clean)
    (hk : ∀ a s', R a → s'.Clean → Task.wp lifecycle.step (f a) Q Tidy s' ph) :
    Task.wp lifecycle.step (t >>= f) Q Tidy s ph := by
  rw [Task.wp_bind]
  refine Task.wp_quiet (P := lifecycle)
    (fun r hr => ⟨Or.inr (Or.inr ?_), advance_busy hph r hr⟩) ?_
  · rcases hph with rfl | rfl
    · exact Or.inl hr
    · exact hr
  · exact Task.wp_only_mono (fun _ => id) (h.returning hr hs)
      (fun a s' h => hk a s' h.1 h.2) fun _ _ => id

theorem busy_then (h : Calm (Req.busy o) t) (hph : ph = .clear o ∨ ph = .settling o)
    (hs : s.Clean)
    (hk : ∀ a s', s'.Clean → Task.wp lifecycle.step (f a) Q Tidy s' ph) :
    Task.wp lifecycle.step (t >>= f) Q Tidy s ph :=
  busy_then_of h (returns_any t) hph hs fun a s' _ => hk a s'

/-- A stretch that concerns no order, and what follows it. -/
theorem free_then (h : Calm Req.orderFree t) (hph : ph.steady) (hs : s.Clean)
    (hk : ∀ a s', s'.Clean → Task.wp lifecycle.step (f a) Q Tidy s' ph) :
    Task.wp lifecycle.step (t >>= f) Q Tidy s ph := by
  rw [Task.wp_bind]
  refine Task.wp_step_mono (lifecycle_free h hph hs) ?_ fun _ _ _ h => h.1
  rintro a s' _ ⟨hs', rfl⟩
  exact hk a s' hs'

end Then

/-- A read that the protocol looks at. -/
theorem read_then {β : Type} {q : Query} {f : q.Res → Coro β} {ph : Phase}
    {Q : β → Session → Phase → Prop} (hs : s.Clean)
    (hk : ∀ x s', s'.Clean → Task.wp lifecycle.step (f x) Q Tidy s' (ph.read [] q (.ok x))) :
    Task.wp lifecycle.step (execute q >>= f) Q Tidy s ph := by
  rw [Task.wp_bind, wp_execute]
  split
  · next hb => exact .inl hb
  · next hb =>
      have hp : s.pending = [] := hs.pending hb
      rw [hp]
      refine ⟨.inl trivial, fun x => ?_⟩
      cases x with
      | error e => exact Session.clean_broken
      | ok x => exact hk x s hs

/-- The loop, from a phase in which the order may be submitted. -/
theorem submitChain_follows {order : Order} (held : List BrokerAccount)
    (chain : List RouteCandidate) (n : Nat) (last : Option LastError)
    (ho : order.id = o) (hs : s.Clean) :
    Task.wp lifecycle.step (submitChain held order n last chain) Tidy Tidy s (.clear o) := by
  induction chain generalizing order n last s o with
  | nil =>
      subst ho
      exact Task.wp_step_mono (lifecycle_busy (failoverExhausted_calm order (busy_working _) last)
        (.inl rfl) hs)
        (fun _ _ _ h => h.1) fun _ _ _ h => h.1
  | cons c rest ih =>
      subst ho
      rw [submitChain]
      refine busy_then ((rateConsume_calm _ _).mono (routing_busy order.id)) (.inl rfl) hs
        fun rl s1 hs1 => ?_
      split
      · -- Over the limit: the order is failed, or the loop goes on.
        exact busy_then (rateLimited_calm order (busy_working _) c rest) (.inl rfl) hs1
          fun why s2 hs2 => ih _ _ rfl hs2
      refine busy_then ((ensure_calm held c.broker.id false).mono (ensuring_busy order.id))
        (.inl rfl) hs1 fun _ s2 hs2 => ?_
      refine busy_then_of (openAttempt_calm order (busy_working _) c n)
        (openAttempt_returns order c n)
        (.inl rfl) hs2 fun x s3 hx hs3 => ?_
      obtain ⟨order', attempt⟩ := x
      obtain ⟨ho', ha⟩ := hx
      rw [Task.wp_bind, ← ho']
      refine Task.wp_step_mono (trySubmit_follows c (ha.trans ho'.symm) hs3) ?_ fun _ _ _ h => h
      rintro (_ | why) s4 ph4 ⟨hs4, hph4⟩
      · exact hs4
      · rw [hph4 rfl]
        exact busy_then (recordFailover_calm order' (busy_working _) c why.code rest) (.inl rfl) hs4
          fun _ s5 hs5 => ih _ _ rfl hs5

theorem submitInline_follows {order : Order} (by_ : Actor) (chain : List RouteCandidate)
    (ho : order.id = o) (hs : s.Clean) :
    Task.wp lifecycle.step (submitInline by_ order chain) Tidy Tidy s (.clear o) :=
  busy_then (Steps.mark trivial) (.inl rfl) hs fun _ _ hs1 =>
    busy_then (busy_working _).read (.inl rfl) hs1 fun _ _ hs2 => submitChain_follows _ _ _ _ ho hs2

/-- A stretch that concerns no order is allowed in every phase. -/
theorem free_follows {α : Type} {t : Coro α} {ph : Phase} (h : Calm Req.orderFree t)
    (hs : s.Clean) : Task.wp lifecycle.step t Tidy Tidy s ph :=
  Task.wp_allowed (P := lifecycle) (fun _ _ hr => Or.inl hr) (h s hs)

theorem free_read {U : Write → Prop} {q : Query} :
    Steps Req.orderFree U U (execute q) := Steps.execute fun _ _ => trivial

/-- What a `finally` does is allowed in every phase. -/
theorem finally_follows {α : Type} {t : Coro α} {last : Coro Unit} {ph : Phase}
    (ht : Task.wp lifecycle.step t Tidy Tidy s ph) (hl : Calm Req.orderFree last) :
    Task.wp lifecycle.step (Task.finally' t last) Tidy Tidy s ph := by
  rw [Task.wp_finally']
  exact Task.wp_step_mono ht (fun _ s' ph' hs' => free_follows hl hs')
    fun _ s' ph' hs' => free_follows hl hs'

/-! ### Placing -/

theorem insertHandler_calm (order : Order) (e : Exn) :
    Calm Req.orderFree (insertHandler order e) := by
  cases e with
  | integrity =>
      refine Steps.bind (Steps.rollback trivial) fun _ => Steps.bind free_read fun prior => ?_
      cases prior
      · exact Steps.raise _
      · exact Steps.pure _
  | _ => exact Steps.raise _

theorem insertHandler_returns (order : Order) (e : Exn) :
    Returns (fun x => ∃ prior, x = .error prior) (insertHandler order e) := by
  cases e with
  | integrity =>
      refine Returns.after fun _ => Returns.after fun prior => ?_
      cases prior
      · exact Returns.raise _
      · exact Returns.pure ⟨_, rfl⟩
  | _ => exact Returns.raise _

/-- What follows the commit of a new row. -/
def readBack (order : Order) : Coro (Except Order Order) := do
  let ⟨order, _⟩ ← refreshed (← execute (.order order.id))
  pure (.ok order)

theorem readBack_calm (order : Order) : Calm Req.orderFree (readBack order) :=
  Steps.bind free_read fun _ => Steps.bind (Steps.refreshed _) fun _ => Steps.pure _

theorem readBack_returns (order : Order) :
    Returns (fun x => ∃ row, row.id = order.id ∧ x = .ok row) (readBack order) :=
  Returns.after fun _ => Returns.after fun row => Returns.pure ⟨row.1, row.2, rfl⟩

theorem insertOrder_handled {order : Order} (e : Exn) {s : Session} {ph : Phase}
    (hs : s.Clean) :
    Task.wp lifecycle.step (insertHandler order e)
      (fun x s' ph' => s'.Clean ∧ ∀ row, x = .ok row → row.id = order.id ∧ ph' = .clear order.id)
      Tidy s ph := by
  refine Task.wp_step_mono (Task.wp_allowed (P := lifecycle) (fun _ _ hr => Or.inl hr)
    ((insertHandler_calm order e).returning (insertHandler_returns order e) hs)) ?_
    fun _ _ _ h => h
  rintro _ s' ph' ⟨⟨prior, rfl⟩, h⟩
  exact ⟨h, fun _ heq => nomatch heq⟩

theorem insertOrder_follows {order : Order} {ph : Phase} (hc : order.status = .created)
    (hs : s.Clean) :
    Task.wp lifecycle.step (insertOrder order)
      (fun x s' ph' => s'.Clean ∧ ∀ row, x = .ok row → row.id = order.id ∧ ph' = .clear order.id)
      Tidy s ph := by
  unfold insertOrder
  rw [Task.wp_catching, Task.wp_bind, wp_stage, Task.wp_bind, wp_commit]
  split
  · next hb => exact insertOrder_handled _ (.inl hb)
  · next hb =>
      have hp : s.pending = [] := hs.pending hb
      refine ⟨.inr (.inl ⟨order.id, order, rfl, hc, by simp [hp]⟩), fun x => ?_⟩
      have hadv : ∀ y, lifecycle.advance ph (.commit (s.pending ++ [.addOrder order])) (.ok y)
          = .clear order.id := by
        rw [hp]
        exact advance_inserted order
      cases x with
      | error e => exact insertOrder_handled _ Session.clean_broken
      | ok _ =>
          rw [hadv, dbCases_ok]
          have hsteady : (Phase.clear order.id).steady := trivial
          refine Task.wp_quiet (P := lifecycle)
            (fun r hr => ⟨Or.inl hr, advance_orderFree hsteady r hr⟩) ?_
          refine Task.wp_only_mono (fun _ => id)
            (Steps.returning (readBack_calm order) (readBack_returns order)
              (.inr (List.forall_mem_nil _))) ?_
            fun e s' hs' => insertOrder_handled e hs'
          rintro _ s' ⟨⟨row, hrow, rfl⟩, hs'⟩
          refine ⟨hs', fun row' heq => ?_⟩
          cases heq
          exact ⟨hrow, rfl⟩

theorem placeNew_follows (o : OrderId) (r : PlaceRequest) {ph : Phase} (hs : s.Clean) :
    Task.wp lifecycle.step (placeNew o r) Tidy Tidy s ph := by
  unfold placeNew
  rw [Task.wp_bind]
  have hnew : (r.order o).status = .created := rfl
  refine Task.wp_step_mono (insertOrder_follows hnew hs) ?_
    fun _ _ _ => id
  rintro (prior | order) s1 ph1 ⟨hs1, hrow⟩
  · exact hs1
  · obtain ⟨hid, rfl⟩ := hrow order rfl
    refine busy_then ((selectOrRaise_calm _).mono (routing_busy _)) (.inl rfl) hs1
      fun decision s2 hs2 => ?_
    rw [Task.wp_bind]
    refine Task.wp_step_mono (submitInline_follows .place decision.chain hid hs2)
      (fun _ s3 ph3 hs3 => free_follows ?_ hs3) fun _ _ _ => id
    exact Steps.bind free_read fun _ => Steps.bind (Steps.refreshed _) fun _ => Steps.pure _

theorem place_follows (r : PlaceRequest) (hs : s.Clean) :
    Task.wp lifecycle.step (place r) Tidy Tidy s .away := by
  have haway : Phase.away.steady := trivial
  refine free_then ((assertTradingAllowed_calm _).mono gating_orderFree) haway hs
    fun _ s1 hs1 => free_then free_read haway hs1 fun prior s2 hs2 => ?_
  cases prior with
  | some prior => exact hs2
  | none =>
      refine free_then (Steps.bind free_read fun _ => Steps.pure _) haway hs2
        fun mode s3 hs3 => ?_
      split
      · exact hs3
      refine free_then (Steps.newId trivial) haway hs3 fun id s4 hs4 => ?_
      refine free_then (Steps.bind (Steps.await trivial) fun x =>
        Steps.bind (Steps.ofAnswer x) fun _ => Steps.ite (Steps.pure _) (Steps.raise _))
        haway hs4 fun _ s5 hs5 => ?_
      refine finally_follows ?_ (Steps.await trivial)
      refine free_then (Steps.await trivial) haway hs5 fun _ s6 hs6 => ?_
      exact finally_follows (placeNew_follows id r hs6) (Steps.await trivial)

/-! ### Replaying -/

theorem resubmit_follows {order : Order} (chain : List RouteCandidate)
    (ho : order.id = o) (hs : s.Clean) :
    Task.wp lifecycle.step (resubmit order chain) Tidy Tidy s (.clear o) := by
  unfold resubmit
  rw [Task.wp_catching, Task.wp_bind]
  refine Task.wp_step_mono (submitInline_follows .replay chain ho hs) ?_
    fun e _ _ hs1 => free_follows (resubmitFailed_calm order (fun _ _ => trivial) e) hs1
  intro _ s1 ph1 hs1
  refine Task.wp_step_mono (free_follows (Steps.bind free_read fun _ =>
    Steps.bind (Steps.refreshed _) fun _ => Steps.ite (Steps.pure _) (Steps.pure _)) hs1)
    (fun _ _ _ h => h) fun e _ _ hs2 => free_follows
      (resubmitFailed_calm order (fun _ _ => trivial) e) hs2

theorem recoverOpen_follows (order : Order) (hs : s.Clean) :
    Task.wp lifecycle.step (recoverOpen order) Tidy Tidy s (.found order.id) := by
  refine read_then hs fun attempts s1 hs1 => ?_
  have hread : Phase.read (.found order.id) [] (.attemptsOf order.id) (.ok attempts) =
      if (attempts.findSome? (·.adoptable)).isSome then .settling order.id
      else .clear order.id := by
    simp [Phase.read, Phase.readAttempts, Phase.order?]
  rw [hread]
  cases attempts.findSome? (·.adoptable) with
  | some x =>
      exact Task.wp_step_mono (lifecycle_busy (adoptAttempt_calm order (busy_working _) x.1 x.2)
        (.inr rfl) hs1)
        (fun _ _ _ h => h.1) fun _ _ _ h => h.1
  | none =>
      refine busy_then_of (reopen_calm order (busy_working _)) (reopen_returns order) (.inl rfl) hs1
        fun order' s2 ho' hs2 => ?_
      refine busy_then ((selectOrRaise_calm _).mono (routing_busy _)) (.inl rfl) hs2
        fun decision s3 hs3 => ?_
      exact resubmit_follows decision.chain ho' hs3

theorem recoverOne_follows (stale : Order) {ph : Phase} (hs : s.Clean) :
    Task.wp lifecycle.step (recoverOne stale) Tidy Tidy s ph := by
  unfold recoverOne
  rw [Task.wp_bind, wp_mark]
  refine ⟨.inr (.inl ⟨stale.id, rfl⟩), fun _ => ?_⟩
  refine read_then hs fun row s1 hs1 => ?_
  rcases row with _ | ⟨order, ho⟩
  · exact hs1
  simp only [Task.wp_bind, refreshed, Task.wp_pure]
  split
  · exact hs1
  · next hterm =>
      have hread : Phase.read (.recovering stale.id) [] (.order stale.id)
          (.ok (some ⟨order, ho⟩)) = .found order.id := by
        simp [Phase.read, Phase.readOrder, Phase.order?, hterm, ho]
      show Task.wp (X := Phase → Prop) _ _ _ _ _ (Phase.read (.recovering stale.id) _ _ _)
      rw [hread]
      exact recoverOpen_follows order hs1

theorem recoverEach_follows (orders : List Order) {ph : Phase} (hs : s.Clean) :
    Task.wp lifecycle.step (recoverEach orders) Tidy Tidy s ph := by
  induction orders generalizing s ph with
  | nil => exact hs
  | cons order orders ih =>
      rw [recoverEach, Task.wp_bind, recoverStep, Task.wp_catching]
      refine Task.wp_step_mono (recoverOne_follows order hs) (fun x s1 ph1 hs1 => ?_)
        fun e s1 ph1 hs1 => ?_
      · rw [Task.wp_bind]
        exact Task.wp_step_mono (ih hs1) (fun _ _ _ h => h) fun _ _ _ h => h
      · rw [Task.wp_ite]
        split
        · rw [Task.wp_pure, Task.wp_bind]
          exact Task.wp_step_mono (ih hs1) (fun _ _ _ h => h) fun _ _ _ h => h
        · exact hs1

theorem replayRun_follows (limit : Nat) (hs : s.Clean) :
    Task.wp lifecycle.step (replayRun limit) Tidy Tidy s .away := by
  have haway : Phase.away.steady := trivial
  refine free_then free_read haway hs fun stuck s1 hs1 => ?_
  rw [Task.wp_bind]
  exact Task.wp_step_mono (recoverEach_follows stuck hs1) (fun _ _ _ h => h) fun _ _ _ h => h

/-! ### Cancelling -/

theorem markCancelled_follows {order : Order} {ph : Phase}
    (hph : ph = .cancelling order.id none ∨ ph = .cancelled order.id) (hs : s.Clean)
    (hc : order.status.cancelable) :
    Task.wp lifecycle.step (markCancelled order) Tidy Tidy s ph := by
  have hne : (Stored.set (OrderField.status .cancelled) order : Order) ≠ order := by
    intro h
    have : OrderStatus.cancelled = order.status := congrArg Order.status h
    rw [← this] at hc
    cases hc
  unfold markCancelled
  rw [Task.wp_bind, wp_assign, if_neg hne, Task.wp_bind, wp_enqueueOutbox, Task.wp_bind, wp_commit]
  split
  · next hb => exact .inl hb
  · next hb =>
      have hp : s.pending = [] := hs.pending hb
      refine ⟨.inr (.inr ?_), fun x => ?_⟩
      · have hw : CancelWrites order.id
            ((s.pending ++ [.setOrder order.id (.status .cancelled)]) ++
              [.enqueue (.orderCancelled order.id order.clientId order.clientOrderId
                order.brokerOrderId)]) := by
          rw [hp]
          exact ⟨_, _, _, rfl⟩
        rcases hph with rfl | rfl
        · exact hw
        · exact hw
      cases x with
      | error e => exact Session.clean_broken
      | ok _ =>
          refine free_follows (Steps.bind free_read fun _ => Steps.bind (Steps.refreshed _)
            fun _ => Steps.pure _) ?_
          exact .inr (List.forall_mem_nil _)

theorem cancelAtBroker_follows {order : Order} {bo : BrokerOrderId} (hs : s.Clean) :
    Task.wp lifecycle.step (cancelAtBroker order bo)
      (fun _ s' ph' => s'.Clean ∧ ph' = .cancelled order.id) Tidy s
      (.cancelling order.id (some bo)) := by
  unfold cancelAtBroker
  rw [Task.wp_catching, Task.wp_bind, wp_await]
  refine ⟨.inr (.inr ⟨rfl, rfl⟩), fun x => ?_⟩
  cases x with
  | ok _ => exact ⟨hs, rfl⟩
  | error e => cases e <;> exact hs

theorem cancel_follows (o : OrderId) {ph : Phase} (hs : s.Clean) :
    Task.wp lifecycle.step (cancel o) Tidy Tidy s ph := by
  unfold cancel
  rw [Task.wp_bind, wp_mark]
  refine ⟨.inr (.inl ⟨o, rfl⟩), fun _ => ?_⟩
  refine read_then hs fun row s1 hs1 => ?_
  rcases row with _ | ⟨order, ho⟩
  · exact hs1
  show Task.wp (X := Phase → Prop) _ (if _ then _ else _) _ _ _ _
  split
  · exact hs1
  next hcan =>
  have hcan' : order.status.cancelable = true := by simpa using hcan
  have hread : Phase.read (.checking o) [] (.order o) (.ok (some ⟨order, ho⟩)) =
      .cancelling order.id order.brokerOrderId := by
    simp [Phase.read, Phase.readOrder, Phase.order?, hcan', ho]
  show Task.wp (X := Phase → Prop) _ _ _ _ _ (Phase.read (.checking o) _ _ _)
  rw [hread]
  cases order.brokerOrderId with
  | none => exact markCancelled_follows (.inl rfl) hs1 hcan'
  | some bo =>
      refine read_then hs1 fun _ s2 hs2 => ?_
      rw [Task.wp_bind]
      refine Task.wp_step_mono (cancelAtBroker_follows hs2) ?_ fun _ _ _ h => h
      rintro _ s3 _ ⟨hs3, rfl⟩
      exact markCancelled_follows (.inr rfl) hs3 hcan'

/-! ### Every call -/

theorem inArea_orderFree {a : Area} (ha : a ≠ .orders) (r : Req) (h : r.inArea a) :
    r.orderFree := by
  have hws : ∀ ws : List Write, (∀ w ∈ ws, w.area = a) → ∀ w ∈ ws, w.order? = none := by
    intro ws h w hw
    have hw' := h w hw
    cases w with
    | enqueue p =>
        cases p with
        | orderSubmitted => exact absurd hw'.symm ha
        | orderCancelled => exact absurd hw'.symm ha
        | _ => rfl
    | addOrder | addAttempt | setOrder | setAttempt => exact absurd hw'.symm ha
    | _ => rfl
  cases r with
  | commit ws => exact hws ws h
  | flush ws => exact hws ws h
  | placeOrder => exact absurd h ha
  | cancelOrder => exact absurd h ha
  | mark => exact absurd h ha
  | _ => trivial

/-- A call that works in another area. -/
theorem Within.follows {α : Type} {a : Area} {t : Coro α} (h : Within a t)
    (ha : a ≠ .orders) {ph : Phase} :
    Task.wp lifecycle.step t (fun _ _ _ => True) (fun _ _ _ => True) {} ph := by
  refine Task.wp_step_mono (Task.wp_allowed (P := lifecycle)
    (fun _ r hr => Or.inl (inArea_orderFree ha r hr)) (h {} Session.clean_new.staged))
    (fun _ _ _ _ => trivial) fun _ _ _ _ => trivial

end Follow

theorem Coro.program_follows {α : Type} {t : Coro α} {reply : α → Reply}
    {Q : α → Session → Phase → Prop} {E : Exn → Session → Phase → Prop} {ph : Phase}
    (h : Task.wp lifecycle.step t Q E {} ph) :
    (t.program reply).Follows lifecycle (fun _ _ => True) ph :=
  Coro.program_ends h (fun _ _ _ _ => trivial) fun _ _ _ _ => trivial

/-- Every call of the system follows the protocol, with no order in hand yet. -/
theorem programOf_follows (s : Settings) (c : Call) :
    (programOf s c).Follows lifecycle (fun _ _ => True) .away := by
  have hnew := Session.clean_new
  cases c with
  | place r => exact Coro.program_follows (place_follows r hnew)
  | replay limit => exact Coro.program_follows (replayRun_follows limit hnew)
  | cancel o => exact Coro.program_follows (cancel_follows o hnew)
  | createSubscription c a b m =>
      exact Coro.program_follows ((createSubscription_within c a b m).follows nofun)
  | enforceExpiry t => exact Coro.program_follows ((enforceExpiry_within t).follows nofun)
  | expireNow i => exact Coro.program_follows ((expireNow_within i).follows nofun)
  | ensure b f =>
      exact Coro.program_follows
        (free_follows ((ensure_calm [] b f).mono ensuring_orderFree) hnew)
  | allocateIp region => exact Coro.program_follows ((allocateIp_within region).follows nofun)
  | assign x b c => exact Coro.program_follows ((assignIp_within x b c).follows nofun)
  | attach x i => exact Coro.program_follows ((attachIp_within x i).follows nofun)
  | detach x => exact Coro.program_follows ((detachIp_within x).follows nofun)
  | release x => exact Coro.program_follows ((releaseIp_within s x).follows nofun)
  | rotate b f => exact Coro.program_follows ((rotate_within s b f).follows nofun)

end BrokerBridge
