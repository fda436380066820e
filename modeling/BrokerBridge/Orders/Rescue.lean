import BrokerBridge.Orders.Offers
import BrokerBridge.Orders.Reported
import BrokerBridge.Orders.Scan

/-!
# What becomes of a stuck order

While it recovers an order, a replay is told what decides the outcome: which attempts there
are, whether the order has a route, and whether an await goes wrong that the recovery has no
answer to. An order that can be recovered by these answers is written, or is left in a status
that is not stuck any more. Of any other order nothing is promised.
-/

namespace BrokerBridge

open Conc

/-- Others leave the orders alone and delete nothing, and time passes. -/
def Turn.considerate (x : Turn) : Prop := x.sparesOrders ∧ ∀ o, x.spares o

/-! ## What is told of an order -/

/-- What a replay is told while it recovers the order, when it is at `current` to begin with. -/
def toldIn (o : OrderId) : Option OrderId → List Heard → List Heard
  | _, [] => []
  | current, x :: l =>
      match recoveredBy x with
      | o' :: _ => toldIn o (some o') l
      | [] => if current = some o then x :: toldIn o current l else toldIn o current l

/-- The attempts of an order, as they were read. -/
def Heard.attempts : Heard → Option (List OrderAttempt)
  | ⟨.query _ (.attemptsOf _), .ok attempts⟩ => some attempts
  | _ => none

/-- There was an attempt to adopt among them. -/
def AttemptFound (l : List Heard) : Prop :=
  ((l.findSome? Heard.attempts).bind (·.findSome? (·.adoptable))).isSome = true

instance (l : List Heard) : Decidable (AttemptFound l) :=
  inferInstanceAs (Decidable (_ = true))

/-- Nothing went wrong, and by these answers the order can be adopted, or it is routed, or it
is INDOUBT and is moved back to CREATED first. -/
structure Recoverable (r : Order) (l : List Heard) : Prop where
  begun : l ≠ []
  harmless : Harmless l
  cause : r.status = .indoubt ∨ AttemptFound l ∨ RouteFound r.route l

instance (l : List Heard) : Decidable (Harmless l) :=
  inferInstanceAs (Decidable (∀ x ∈ l, harmful x.1 x.2 = false))

theorem recoverable_of_attempt {r : Order} {l : List Heard} (h : Harmless l ∧ AttemptFound l) :
    Recoverable r l := by
  refine ⟨?_, h.1, .inr (.inl h.2)⟩
  rintro rfl
  cases h.2

/-- No row of the order is stuck. -/
def Db.Unstuck (o : OrderId) (d : Db) : Prop :=
  ∀ row, d.orders.get? o = some row → row.status.stuck = false

/-- The recovery of the order came to something, if by these answers it could. -/
def Tended (r : Order) (l : List Heard) (d : Db) : Prop :=
  Recoverable r l → r.id ∈ l.flatMap writtenBy ∨ d.Unstuck r.id

section Tending

variable {r : Order} {l l' : List Heard} {d : Db}

theorem tended_of_harmful (h : Harmful l) : Tended r l d := by
  obtain ⟨x, hx, hharm⟩ := h
  intro hrec
  rw [hrec.harmless x hx] at hharm
  cases hharm

theorem tended_of_written (h : r.id ∈ l.flatMap writtenBy) : Tended r l d := fun _ => .inl h

theorem mem_written_append (h : r.id ∈ l.flatMap writtenBy) :
    r.id ∈ (l ++ l').flatMap writtenBy := by
  rw [List.flatMap_append]
  exact List.mem_append_left _ h

theorem mem_written_append_right (h : r.id ∈ l'.flatMap writtenBy) :
    r.id ∈ (l ++ l').flatMap writtenBy := by
  rw [List.flatMap_append]
  exact List.mem_append_right _ h

end Tending

/-! ## Orders that are written -/

/-- Keeps the orders that are written. -/
def scribing : Protocol Req Req.Ans (List OrderId) where
  allows _ _ := True
  advance written r x := written ++ writtenBy ⟨r, x⟩

section Scribing

variable {α : Type} {s : Session} {ph : List OrderId}

theorem returns_scribing {R : α → Prop} {t : Coro α} (h : Returns R t) :
    Task.wp scribing.step t (fun a _ _ => R a) (fun _ _ _ => True) s ph :=
  Task.wp_allowed (fun _ _ _ => trivial) (h s)

/-- A commit writes what is pending. -/
theorem commit_scribing {o : OrderId} (h : ∃ f, Write.setOrder o f ∈ s.pending) :
    Task.wp scribing.step commit (fun _ _ ph => o ∈ ph) (fun _ _ _ => True) s ph := by
  rw [wp_commit]
  split
  · trivial
  · refine ⟨trivial, fun x => ?_⟩
    cases x with
    | error e => trivial
    | ok a =>
        obtain ⟨f, hf⟩ := h
        exact List.mem_append_right _ (List.mem_filterMap.mpr ⟨_, hf, rfl⟩)

/-- Once a write of the order is pending, what is assigned afterwards does not take it away. -/
theorem assign_scribing {F : Type} [Stored α F] [DecidableEq α] {β : Type} {o : OrderId}
    {r : α} {f : F}
    {k : α → Coro β}
    (hk : ∀ s : Session, (∃ f, Write.setOrder o f ∈ s.pending) →
      Task.wp scribing.step (k (Stored.set f r)) (fun _ _ ph => o ∈ ph) (fun _ _ _ => True) s ph)
    (h : ∃ f, Write.setOrder o f ∈ s.pending) :
    Task.wp scribing.step (assign r f >>= k) (fun _ _ ph => o ∈ ph) (fun _ _ _ => True) s ph := by
  rw [Task.wp_bind]
  refine wp_assign_all (hk s h) (hk _ ?_)
  obtain ⟨f', hf'⟩ := h
  exact ⟨f', List.mem_append_left _ hf'⟩

/-- Setting a status the order does not have. -/
theorem status_scribing {β : Type} {order : Order} {status : OrderStatus} {k : Order → Coro β}
    (hne : order.status ≠ status)
    (hk : ∀ s : Session, (∃ f, Write.setOrder order.id f ∈ s.pending) →
      Task.wp scribing.step (k (Stored.set (OrderField.status status) order))
        (fun _ _ ph => order.id ∈ ph) (fun _ _ _ => True) s ph) :
    Task.wp scribing.step (assign order (.status status) >>= k) (fun _ _ ph => order.id ∈ ph)
      (fun _ _ _ => True) s ph := by
  rw [Task.wp_bind, wp_assign, if_neg fun heq => hne (congrArg Order.status heq).symm]
  exact hk _ ⟨.status status, List.mem_append_right _ List.mem_cons_self⟩

theorem adoptAttempt_scribing {order : Order} (a : OrderAttempt) (bo : BrokerOrderId)
    (hne : order.status ≠ .submitted) :
    Task.wp scribing.step (adoptAttempt order a bo) (fun _ _ ph => order.id ∈ ph)
      (fun _ _ _ => True) s ph := by
  refine status_scribing hne fun s h => ?_
  refine assign_scribing (fun s h => ?_) h
  refine assign_scribing (fun s h => ?_) h
  refine assign_scribing (fun s h => ?_) h
  refine assign_scribing (fun s h => ?_) h
  rw [Task.wp_bind]
  exact commit_scribing h

theorem reopen_scribing {order : Order} (hindoubt : order.status = .indoubt) :
    Task.wp scribing.step (reopen order) (fun _ _ ph => order.id ∈ ph)
      (fun _ _ _ => True) s ph := by
  rw [reopen, if_pos hindoubt]
  refine status_scribing (by rw [hindoubt]; exact fun heq => by cases heq) fun s h => ?_
  rw [Task.wp_bind]
  exact commit_scribing h

theorem recordSubmitted_scribing {order : Order} (a : OrderAttempt) (c : RouteCandidate)
    (bo : BrokerOrderId) (hne : order.status ≠ .submitted) :
    Task.wp scribing.step (recordSubmitted order a c bo) (fun _ _ ph => order.id ∈ ph)
      (fun _ _ _ => True) s ph := by
  have hrest : ∀ (attempt : OrderAttempt) (s : Session), Task.wp scribing.step (do
      let order ← assign order (.status .submitted)
      let order ← assign order (.brokerOrderId attempt.brokerOrderId)
      let order ← assign order (.errorCode none)
      enqueueOutbox (.orderSubmitted order.id order.clientId order.clientOrderId
        c.broker.id c.staticIpId order.side order.symbol order.quantity order.brokerOrderId)
      commit) (fun _ _ ph => order.id ∈ ph) (fun _ _ _ => True) s ph := by
    intro attempt s
    refine status_scribing hne fun s h => ?_
    refine assign_scribing (fun s h => ?_) h
    refine assign_scribing (fun s h => ?_) h
    rw [Task.wp_bind, wp_enqueueOutbox]
    obtain ⟨f, hf⟩ := h
    exact commit_scribing ⟨f, List.mem_append_left _ hf⟩
  unfold recordSubmitted
  rw [Task.wp_bind]
  refine wp_assign_all ?_ ?_
  all_goals
    rw [Task.wp_bind]
    exact wp_assign_all (hrest _ _) (hrest _ _)

theorem submitHandler_some (order : Order) (a : OrderAttempt) (e : Exn) :
    Returns (fun why => why ≠ none) (submitHandler order a e) := by
  have hsome : ∀ x : LastError, (some x : Option LastError) ≠ none := fun x heq => by cases heq
  cases e with
  | broker code message status retryable =>
      refine Returns.after fun _ => ?_
      split
      · exact Returns.pure (hsome _)
      · exact Returns.after fun _ => Returns.raise _
  | cancelled => exact Returns.raise _
  | _ => exact Returns.after fun _ => Returns.pure (hsome _)

theorem trySubmit_scribing {order : Order} (a : OrderAttempt) (c : RouteCandidate)
    (hne : order.status ≠ .submitted) :
    Task.wp scribing.step (trySubmit order a c) (fun why _ ph => why = none → order.id ∈ ph)
      (fun _ _ _ => True) s ph := by
  have hhandler : ∀ e s ph, Task.wp scribing.step (submitHandler order a e)
      (fun why _ ph => why = none → order.id ∈ ph) (fun _ _ _ => True) s ph := by
    intro e s ph
    refine Task.wp_step_mono (returns_scribing (submitHandler_some order a e)) ?_ fun _ _ _ => id
    exact fun why _ _ hsome hnone => absurd hnone hsome
  unfold trySubmit
  rw [Task.wp_catching, Task.wp_bind, wp_await]
  refine ⟨trivial, fun x => ?_⟩
  cases x with
  | error e => exact hhandler e s _
  | ok bo =>
      show Task.wp scribing.step (recordSubmitted order a c bo >>= fun _ => pure none) _ _ s _
      rw [Task.wp_bind]
      refine Task.wp_step_mono (recordSubmitted_scribing a c bo hne) ?_ fun e s ph _ =>
        hhandler e s ph
      exact fun _ _ _ hmem _ => hmem

theorem openAttempt_submitting (order : Order) (c : RouteCandidate) (n : Nat) :
    Returns (fun x => x.1.id = order.id ∧ x.1.status = .submitting) (openAttempt order c n) := by
  let R : Order → Prop := fun x => x.id = order.id ∧ x.status = .submitting
  refine Returns.after fun _ => Returns.after fun _ => ?_
  refine Returns.bind (Returns.assign (R := R) ⟨rfl, rfl⟩) fun o₁ h₁ => ?_
  refine Returns.bind (Returns.assign (R := R) h₁) fun o₂ h₂ => ?_
  refine Returns.bind (Returns.assign (R := R) h₂) fun o₃ h₃ => ?_
  refine Returns.after fun _ => Returns.after fun _ => Returns.after fun x => ?_
  obtain ⟨attempt, _⟩ := x
  exact Returns.pure h₃

/-- The loop returns only after a broker has taken the order, and that is written. -/
theorem submitChain_scribing (held : List BrokerAccount) (chain : List RouteCandidate)
    {order : Order}
    (n : Nat) (last : Option LastError) :
    Task.wp scribing.step (submitChain held order n last chain) (fun _ _ ph => order.id ∈ ph)
      (fun _ _ _ => True) s ph := by
  induction chain generalizing order n last s ph with
  | nil =>
      rw [submitChain, failoverExhausted, Task.wp_bind]
      exact Task.wp_step_mono (returns_scribing (returns_any _)) (fun _ _ _ _ => trivial)
        fun _ _ _ => id
  | cons c rest ih =>
      rw [submitChain, Task.wp_bind]
      refine Task.wp_step_mono (returns_scribing (returns_any _))
        (fun rl s ph _ => ?_) fun _ _ _ => id
      split
      · rw [Task.wp_bind]
        exact Task.wp_step_mono (returns_scribing (returns_any _)) (fun _ _ _ _ =>
          ih _ _) fun _ _ _ => id
      rw [Task.wp_bind]
      refine Task.wp_step_mono (returns_scribing (returns_any _))
        (fun _ s ph _ => ?_) fun _ _ _ => id
      rw [Task.wp_bind]
      refine Task.wp_step_mono (returns_scribing (openAttempt_submitting order c n)) ?_
        fun _ _ _ => id
      rintro ⟨order', attempt⟩ s ph ⟨hid, hstatus⟩
      have hne : order'.status ≠ .submitted := by
        rw [hstatus]
        exact fun heq => by cases heq
      have hid' : order'.id = order.id := hid
      rw [← hid', Task.wp_bind]
      refine Task.wp_step_mono (trySubmit_scribing attempt c hne) ?_ fun _ _ _ => id
      rintro why s ph hnone
      cases why with
      | none => exact hnone rfl
      | some why =>
          rw [Task.wp_bind]
          exact Task.wp_step_mono (returns_scribing (returns_any _)) (fun _ _ _ _ => ih _ _)
            fun _ _ _ => id

theorem submitInline_scribing (by_ : Actor) (order : Order) (chain : List RouteCandidate) :
    Task.wp scribing.step (submitInline by_ order chain) (fun _ _ ph => order.id ∈ ph)
      (fun _ _ _ => True) s ph := by
  rw [submitInline, Task.wp_bind]
  refine Task.wp_step_mono (returns_scribing (returns_any _)) (fun _ s ph _ => ?_) fun _ _ _ => id
  rw [Task.wp_bind]
  refine Task.wp_step_mono (returns_scribing (returns_any _)) (fun _ s ph _ => ?_) fun _ _ _ => id
  exact submitChain_scribing _ chain 1 none

end Scribing

/-! ## Alone -/

section Alone

variable {α : Type} {t : Coro α} {s : Session} {w : World} {l : List Heard} {r : Order}

/-- The order is written when a stretch that writes it returns. -/
theorem written_of_scribing {o : OrderId}
    (h : Task.wp scribing.step t (fun _ _ ph => o ∈ ph) (fun _ _ _ => True) s []) :
    Task.wp (alone heeded Turn.considerate) t
      (fun _ _ y => ∃ seg, y.2 = l ++ seg ∧ o ∈ seg.flatMap writtenBy)
      (fun _ _ y => ∃ seg, y.2 = l ++ seg) s (w, l) := by
  have hstep : Task.wp (alone (tracked (amid handle) scribing.advance) Turn.considerate) t _ _ s
      (w, []) :=
    Task.wp_alone_of_step (J := fun _ _ => True) (fun _ _ _ _ _ _ _ => trivial) h trivial
  refine Task.wp_alone_mono (Task.wp_alone_listened hstep l) ?_ ?_
  · rintro _ _ _ ⟨seg, hseg, hmem, _⟩
    refine ⟨seg, hseg, ?_⟩
    rwa [List.flatMap_eq_foldl]
  · rintro _ _ _ ⟨seg, hseg, _⟩
    exact ⟨seg, hseg⟩

/-- A commit raises when it is answered with an exception. -/
theorem commit_told (hb : s.broken = false) : Task.wp (alone heeded Turn.considerate) commit
    (fun _ _ y => ∃ seg, y.2 = l ++ seg) (fun _ _ y => ∃ seg, y.2 = l ++ seg ∧ Harmful seg)
    s (w, l) := by
  rw [wp_commit, if_neg (by rw [hb]; exact Bool.false_ne_true)]
  intro x _
  rcases commit_cases s.pending x.2 (x.1 w) with ⟨f, hf⟩ | ⟨d, -, hok⟩
  · have hans : amid handle (.commit s.pending) x w = (.error f, x.1 w) := hf
    simp only [heeded, tracked, hans, dbCases_error]
    exact ⟨_, rfl, harmful_singleton rfl⟩
  · have hans : amid handle (.commit s.pending) x w = (.ok (), { x.1 w with db := d }) := hok
    simp only [heeded, tracked, hans, dbCases_ok]
    exact ⟨_, rfl⟩

theorem assign_told {F : Type} [Stored α F] [DecidableEq α] {β : Type} {a : α}
    {f : F} {k : α → Coro β}
    (hk : ∀ s : Session, s.broken = false → Task.wp (alone heeded Turn.considerate)
      (k (Stored.set f a))
      (fun _ _ y => ∃ seg, y.2 = l ++ seg) (fun _ _ y => ∃ seg, y.2 = l ++ seg ∧
        Harmful seg) s (w, l))
    (hb : s.broken = false) : Task.wp (alone heeded Turn.considerate) (assign a f >>= k)
      (fun _ _ y => ∃ seg, y.2 = l ++ seg) (fun _ _ y => ∃ seg, y.2 = l ++ seg ∧ Harmful seg)
      s (w, l) := by
  rw [Task.wp_bind]
  exact wp_assign_all (hk s hb) (hk _ hb)

theorem adoptAttempt_told (order : Order) (a : OrderAttempt) (bo : BrokerOrderId)
    (hb : s.broken = false) : Task.wp (alone heeded Turn.considerate) (adoptAttempt order a bo)
      (fun _ _ y => ∃ seg, y.2 = l ++ seg) (fun _ _ y => ∃ seg, y.2 = l ++ seg ∧ Harmful seg)
      s (w, l) := by
  refine assign_told (fun s hb => ?_) hb
  refine assign_told (fun s hb => ?_) hb
  refine assign_told (fun s hb => ?_) hb
  refine assign_told (fun s hb => ?_) hb
  refine assign_told (fun s hb => ?_) hb
  rw [Task.wp_bind]
  exact commit_told hb

theorem reopen_told {order : Order} (hindoubt : order.status = .indoubt) (hb : s.broken = false) :
    Task.wp (alone heeded Turn.considerate) (reopen order) (fun _ _ y => ∃ seg, y.2 = l ++ seg)
      (fun _ _ y => ∃ seg, y.2 = l ++ seg ∧ Harmful seg) s (w, l) := by
  rw [reopen, if_pos hindoubt]
  refine assign_told (fun s hb => ?_) hb
  rw [Task.wp_bind]
  exact commit_told hb

/-- Reading does not make an order stuck. -/
theorem resubmitFailed_told (order : Order) (e : Exn) {o : OrderId} (hs : s.Clean)
    (hw : w.db.Unstuck o) : Task.wp (alone heeded Turn.considerate) (resubmitFailed order e)
      (fun _ _ y => (∃ seg, y.2 = l ++ seg) ∧ y.1.db.Unstuck o)
      (fun _ _ y => (∃ seg, y.2 = l ++ seg) ∧ y.1.db.Unstuck o) s (w, l) := by
  have hreads := resubmitFailed_calm (N := fun r => ∃ ws q, r = .query ws q) order
    (fun ws q => ⟨ws, q, rfl⟩) e s hs
  have hkept : Task.wp (alone heeded Turn.considerate) (resubmitFailed order e) _ _ s (w, l) :=
    Task.wp_alone_of_only (J := fun y : World × List Heard => y.1.db.Unstuck o) ?_ hreads hw
  · refine Task.wp_alone_mono (Task.wp_alone_and (told_more _) hkept) ?_ ?_
    all_goals exact fun _ _ _ h => ⟨h.1, h.2.2⟩
  · rintro _ ⟨ws, q, rfl⟩ x hx ⟨w, l⟩ hw row hrow
    have hdb : (handle (.query ws q) x.2 (x.1 w)).2.db = (x.1 w).db :=
      handle_db (fun _ h => by cases h) _ _
    have hrow' : (handle (.query ws q) x.2 (x.1 w)).2.db.orders.get? o = some row := hrow
    rw [hdb, (hx.1 w).1] at hrow'
    exact hw row hrow'

/-! ## One order -/

/-- Submitting the order came to something. -/
def Attended (o : OrderId) (seg : List Heard) (d : Db) : Prop :=
  Harmful seg ∨ o ∈ seg.flatMap writtenBy ∨ d.Unstuck o

/-- An order that was handed over and is not written has failed, or something went wrong. -/
theorem attended_of_settled {o : OrderId} {seg : List Heard} {d : Db} (hrouted : Routed seg)
    (h : ∀ row, d.orders.get? o = some row →
      (row.status = .failed ↔ seg.foldl (fun v x => Standing.hear v x.1 x.2) .unrouted = .routed)) :
    Attended o seg d := by
  by_cases hharmless : Harmless seg
  · have hstanding : seg.foldl (fun v x => Standing.hear v x.1 x.2) .unrouted = .routed :=
      (foldl_hear seg .unrouted).mpr
        ⟨fun heq => (by cases heq), .inr hrouted, hharmless⟩
    refine .inr (.inr fun row hrow => ?_)
    rw [(h row hrow).mpr hstanding]
    rfl
  · exact .inl (harmful_of_not_harmless hharmless)

/-- The order is written already, or something has gone wrong already. -/
def Concluded (o : OrderId) (seg : List Heard) : Prop := Harmful seg ∨ o ∈ seg.flatMap writtenBy

theorem Concluded.later {o : OrderId} {seg seg' : List Heard} (h : Concluded o seg) :
    Concluded o (seg ++ seg') := by
  refine h.imp (·.append_left) fun hmem => ?_
  rw [List.flatMap_append]
  exact List.mem_append_left _ hmem

theorem Concluded.attended {o : OrderId} {seg : List Heard} {d : Db} (h : Concluded o seg) :
    Attended o seg d := h.imp_right .inl

/-- What comes after that changes nothing. -/
theorem Concluded.more {o : OrderId} {seg : List Heard} (h : Concluded o seg) (t : Coro α) :
    Task.wp (alone heeded Turn.considerate) t
      (fun _ _ y => ∃ seg, y.2 = l ++ seg ∧ Concluded o seg)
      (fun _ _ y => ∃ seg, y.2 = l ++ seg ∧ Concluded o seg) s (w, l ++ seg) := by
  refine Task.wp_alone_mono (told_more t) ?_ ?_
  all_goals
    rintro _ _ _ ⟨seg', hseg'⟩
    exact ⟨seg ++ seg', hseg'.trans (List.append_assoc ..), h.later⟩

theorem resubmit_attends {order : Order} {chain : List RouteCandidate}
    (hst : order.status ≠ .failed)
    (hchain : ∀ c ∈ chain, Routable w.db c.broker) (hb : s.broken = false) (hS : s.pending = [])
    (hu : Underway order.id order.id [] w) :
    Task.wp (alone heeded Turn.considerate) (resubmit order chain)
      (fun _ _ y => ∃ seg, y.2 = l ++ seg ∧ Attended order.id seg y.1.db)
      (fun _ _ y => ∃ seg, y.2 = l ++ seg ∧ Attended order.id seg y.1.db) s (w, l) := by
  have hattended : ∀ (y : World × List Heard), (∃ seg, y.2 = l ++ seg ∧ Concluded order.id seg) →
      ∃ seg, y.2 = l ++ seg ∧ Attended order.id seg y.1.db :=
    fun y h => h.imp fun seg h => h.imp_right Concluded.attended
  have hends := Task.wp_alone_listened (Task.wp_alone_of_fewer
    (fun (x : Turn) (hx : x.considerate) => hx.2 order.id)
    (submitInline_ends .replay rfl (fun _ => hst) hchain hb hS hu)) l
  have hclean := submitInline_calm .replay order (submits_submitting order.id) chain s
    (.inr (by rw [hS]; exact List.forall_mem_nil _))
  unfold resubmit
  rw [Task.wp_catching, Task.wp_bind]
  refine Task.wp_alone_mono (Task.wp_alone_and_only (Task.wp_alone_and hends
    (Task.wp_alone_and (written_of_scribing (submitInline_scribing .replay order chain))
      (submitInline_told .replay order chain))) hclean) ?_ ?_
  · rintro _ s' ⟨w', l'⟩ ⟨⟨_, ⟨seg, rfl, hmem⟩, _⟩, _⟩
    have hconcluded : Concluded order.id seg := .inr hmem
    refine Task.wp_alone_mono (hconcluded.more _) (fun _ _ => hattended) ?_
    rintro e s'' ⟨w'', l''⟩ ⟨seg', rfl, hconcluded'⟩
    exact Task.wp_alone_mono (hconcluded'.more _) (fun _ _ => hattended) fun _ _ => hattended
  · rintro e s' ⟨w', l'⟩ ⟨⟨⟨seg, rfl, hsettled⟩, _, seg', hseg', hrouted⟩, hs'⟩
    cases List.append_cancel_left hseg'
    by_cases hconcluded : Concluded order.id seg
    · exact Task.wp_alone_mono (hconcluded.more _) (fun _ _ => hattended) fun _ _ => hattended
    · have hunstuck : w'.db.Unstuck order.id := by
        rcases attended_of_settled hrouted hsettled with h | h | h
        · exact absurd (.inl h) hconcluded
        · exact absurd (.inr h) hconcluded
        · exact h
      refine Task.wp_alone_mono (resubmitFailed_told order e hs' hunstuck) ?_ ?_
      all_goals
        rintro _ _ ⟨w'', l''⟩ ⟨⟨seg', rfl⟩, hunstuck'⟩
        exact ⟨seg ++ seg', List.append_assoc .., .inr (.inr hunstuck')⟩

theorem Concluded.tended {pre seg : List Heard} {d : Db} (h : Concluded r.id seg) :
    Tended r (pre ++ seg) d := by
  rcases h with h | h
  · exact tended_of_harmful h.append_right
  · exact tended_of_written (mem_written_append_right h)

theorem Attended.tended {pre seg : List Heard} {d : Db} (h : Attended r.id seg d) :
    Tended r (pre ++ seg) d := by
  rcases h with h | h | h
  · exact Concluded.tended (.inl h)
  · exact Concluded.tended (.inr h)
  · exact fun _ => .inr h

/-- The order as it was found. -/
structure Pristine (r : Order) (s : Session) (w : World) : Prop where
  alive : s.broken = false
  nothing : s.pending = []
  row : w.db.orders.get? r.id = some r
  stuck : r.status.stuck = true

theorem Pristine.turn (h : Pristine r s w) {x : Turn} (hx : x.considerate) : Pristine r s (x.1 w) :=
  ⟨h.alive, h.nothing, (congrArg (·.get? r.id) (hx.1 w).1).trans h.row, h.stuck⟩

theorem Pristine.ne (h : Pristine r s w) : r.status ≠ .submitted ∧ r.status ≠ .failed := by
  have hstuck := h.stuck
  constructor <;>
    · intro heq
      rw [heq] at hstuck
      cases hstuck

/-- Nothing before this tells of attempts or of a route. -/
structure Preamble (pre : List Heard) : Prop where
  unrouted : Unrouted pre
  attempts : pre.findSome? Heard.attempts = none

/-- Without an attempt to adopt, the order is routed. -/
theorem routing_tends {pre : List Heard} {attempts : List OrderAttempt}
    (h : Pristine r s w) (hpre : Unrouted pre) (hindoubt : r.status ≠ .indoubt)
    (hattempts : pre.findSome? Heard.attempts = some attempts)
    (hnone : attempts.findSome? (·.adoptable) = none) :
    Task.wp (alone heeded Turn.considerate) (do
        let decision ← selectOrRaise r.route
        resubmit r decision.chain)
      (fun _ _ y => ∃ seg, y.2 = l ++ seg ∧ Tended r (pre ++ seg) y.1.db)
      (fun _ _ y => ∃ seg, y.2 = l ++ seg ∧ Tended r (pre ++ seg) y.1.db) s (w, l) := by
  have hu : Underway r.id r.id [] w := by
    refine ⟨fun {row} hrow => ?_, fun _ => ?_, List.forall_mem_nil _⟩
    · cases h.row.symm.trans hrow
      exact ⟨rfl, h.ne.2⟩
    · rw [h.row]
      rfl
  have hstretch : Stretch r.id r.id [] .unrouted (· = []) (fun _ => True) (selectOrRaise r.route)
      (· = []) fun x w => ∀ c ∈ x.chain, Routable w.db c.broker :=
    selectOrRaise_stretch r.route fun heq => by cases heq
  have hroutable := Task.wp_alone_listened (Task.wp_alone_of_fewer
    (fun (x : Turn) (hx : x.considerate) => hx.2 r.id)
      (hstretch s w h.alive h.nothing hu trivial)) l
  rw [Task.wp_bind]
  refine Task.wp_alone_mono (Task.wp_alone_and hroutable
    (selectOrRaise_tells rfl s w l h.alive h.nothing)) ?_ ?_
  · rintro decision s' ⟨w', l'⟩ ⟨⟨seg, rfl, hb, hS, hu', -, hchain⟩, -⟩
    refine Task.wp_alone_mono (resubmit_attends h.ne.2 hchain hb hS hu') ?_ ?_
    all_goals
      rintro _ _ ⟨w'', l''⟩ ⟨seg', rfl, hattended⟩
      refine ⟨seg ++ seg', List.append_assoc .., ?_⟩
      rw [← List.append_assoc]
      exact hattended.tended
  · rintro e s' ⟨w', l'⟩ ⟨-, seg, rfl, hraised⟩
    refine ⟨seg, rfl, ?_⟩
    rcases hraised with hharm | hunrouted
    · exact Concluded.tended (.inl hharm)
    · intro hrec
      rcases hrec.cause with hstatus | hadopt | hroute
      · exact absurd hstatus hindoubt
      · rw [AttemptFound, List.findSome?_append, hattempts, Option.some_or, Option.bind_some,
          hnone] at hadopt
        cases hadopt
      · exact absurd hroute (hunrouted pre hpre)

theorem recoverOpen_tends {pre : List Heard} (h : Pristine r s w) (hpre : Preamble pre) :
    Task.wp (alone heeded Turn.considerate) (recoverOpen r)
      (fun _ _ y => ∃ seg, y.2 = l ++ seg ∧ Tended r (pre ++ seg) y.1.db)
      (fun _ _ y => ∃ seg, y.2 = l ++ seg ∧ Tended r (pre ++ seg) y.1.db) s (w, l) := by
  unfold recoverOpen
  rw [Task.wp_bind]
  refine wp_alone_execute h.alive h.nothing
    (fun x _ f => ⟨_, rfl, Concluded.tended (.inl (harmful_singleton rfl))⟩) fun x hx => ?_
  generalize Query.eval x.2 (x.1 w).clock (x.1 w).db (.attemptsOf r.id) = attempts
  have h' : Pristine r s (x.1 w) := h.turn hx
  have hafter : ∀ (seg : List Heard) (d : Db), Concluded r.id seg → ∃ seg',
      l ++ [⟨.query [] (.attemptsOf r.id), .ok attempts⟩] ++ seg = l ++ seg' ∧
        Tended r (pre ++ seg') d := by
    intro seg d hconcluded
    refine ⟨⟨.query [] (.attemptsOf r.id), .ok attempts⟩ :: seg, List.append_assoc .., ?_⟩
    rw [List.append_cons]
    exact hconcluded.tended
  cases hfind : attempts.findSome? (·.adoptable) with
  | some found =>
      refine Task.wp_alone_mono (Task.wp_alone_and
        (written_of_scribing (adoptAttempt_scribing found.1 found.2 h.ne.1))
        (adoptAttempt_told r found.1 found.2 h.alive)) ?_ ?_
      · rintro _ s' ⟨w', l'⟩ ⟨⟨seg, rfl, hmem⟩, -⟩
        exact hafter seg _ (.inr hmem)
      · rintro _ s' ⟨w', l'⟩ ⟨-, seg, rfl, hharm⟩
        exact hafter seg _ (.inl hharm)
  | none =>
      by_cases hindoubt : r.status = .indoubt
      · rw [Task.wp_bind]
        refine Task.wp_alone_mono (Task.wp_alone_and
          (written_of_scribing (reopen_scribing hindoubt))
          (reopen_told hindoubt h.alive)) ?_ ?_
        · rintro order' s' ⟨w', l'⟩ ⟨⟨seg, rfl, hmem⟩, -⟩
          refine Task.wp_alone_mono (Concluded.more (.inr hmem) _) ?_ ?_
          all_goals
            rintro _ _ ⟨w'', l''⟩ ⟨seg', rfl, hconcluded⟩
            exact hafter seg' _ hconcluded
        · rintro e s' ⟨w', l'⟩ ⟨-, seg, rfl, hharm⟩
          exact hafter seg _ (.inl hharm)
      · rw [reopen, if_neg hindoubt]
        have hattempts : (pre ++ [(⟨.query [] (.attemptsOf r.id), .ok attempts⟩ : Heard)]).findSome?
            Heard.attempts = some attempts := by
          rw [List.findSome?_append, hpre.attempts]
          rfl
        refine Task.wp_alone_mono (routing_tends h'
          (hpre.unrouted.append (List.forall_mem_singleton.mpr rfl)) hindoubt hattempts hfind) ?_ ?_
        all_goals
          rintro _ _ ⟨w', l'⟩ ⟨seg, rfl, htended⟩
          refine ⟨⟨.query [] (.attemptsOf r.id), .ok attempts⟩ :: seg, List.append_assoc .., ?_⟩
          rwa [List.append_cons]

/-- What is heard while the order is recovered begins with the order being taken up. -/
abbrev takesUp (o : OrderId) : Heard := ⟨.mark (.recover o), ()⟩

theorem recoverStep_tends (hs : s.Clean) (hrow : w.db.orders.get? r.id = some r)
    (hstuck : r.status.stuck = true) :
    Task.wp (alone heeded Turn.considerate) (recoverStep r)
      (fun _ _ y => ∃ rest, y.2 = l ++ takesUp r.id :: rest ∧ Tended r rest y.1.db)
      (fun _ _ y => ∃ rest, y.2 = l ++ takesUp r.id :: rest ∧ Tended r rest y.1.db) s (w, l) := by
  have hcaught : ∀ (e : Exn) (s : Session) (y : World × List Heard),
      (∃ rest, y.2 = l ++ takesUp r.id :: rest ∧ Tended r rest y.1.db) →
      Task.wp (alone heeded Turn.considerate)
        (if e.isException then pure ⟨r.id, "failed", (e.str.take 500).toString, true⟩
          else Task.raise e : Coro Outcome)
        (fun _ _ y => ∃ rest, y.2 = l ++ takesUp r.id :: rest ∧ Tended r rest y.1.db)
        (fun _ _ y => ∃ rest, y.2 = l ++ takesUp r.id :: rest ∧ Tended r rest y.1.db) s y := by
    intro e s y h
    rw [Task.wp_ite]
    split
    · exact h
    · exact h
  unfold recoverStep recoverOne
  rw [Task.wp_catching, Task.wp_bind, wp_mark]
  intro x hx
  show Task.wp (alone heeded Turn.considerate) (execute (.order r.id) >>= _) _ _ s
    (x.1 w, l ++ [takesUp r.id])
  rw [Task.wp_bind]
  cases hb : s.broken with
  | true =>
      rw [wp_execute, if_pos hb]
      refine hcaught _ _ _ ⟨[], rfl, fun hrec => ?_⟩
      exact absurd rfl hrec.begun
  | false =>
  have hnone : s.pending = [] := hs.pending (by rw [hb]; exact Bool.false_ne_true)
  have hfound : Pristine r s (x.1 w) := Pristine.turn ⟨hb, hnone, hrow, hstuck⟩ hx
  refine wp_alone_execute hb hnone (fun x' _ f => ?_) fun x' hx' => ?_
  · refine hcaught _ _ _ ⟨[⟨.query [] (.order r.id), .error f⟩], List.append_assoc .., ?_⟩
    have hharm : Harmful [⟨.query [] (.order r.id), .error f⟩] := harmful_singleton rfl
    exact tended_of_harmful hharm
  have hfound' : Pristine r s (x'.1 (x.1 w)) := hfound.turn hx'
  have hread : (Query.eval x'.2 (x'.1 (x.1 w)).clock (x'.1 (x.1 w)).db (.order r.id) :
      Option {row : Order // row.id = r.id}) = some ⟨r, rfl⟩ := Table.lookup_eq_some.mpr hfound'.row
  rw [hread]
  show Task.wp (alone heeded Turn.considerate)
    (if r.status.terminal then pure ⟨r.id, "skipped", "already_terminal", false⟩
      else recoverOpen r : Coro Outcome) _ _ s
    (x'.1 (x.1 w), l ++ [takesUp r.id] ++ [⟨.query [] (.order r.id), .ok (some ⟨r, rfl⟩)⟩])
  rw [OrderStatus.terminal_of_stuck hstuck, if_neg Bool.false_ne_true]
  have hpre : Preamble [⟨.query [] (.order r.id), .ok (some ⟨r, rfl⟩)⟩] :=
    ⟨List.forall_mem_singleton.mpr rfl, rfl⟩
  have htends := recoverOpen_tends hfound' hpre
    (l := l ++ [takesUp r.id] ++ [⟨.query [] (.order r.id), .ok (some ⟨r, rfl⟩)⟩])
  refine Task.wp_alone_mono htends ?_ ?_
  · rintro _ _ ⟨w', l'⟩ ⟨seg, rfl, htended⟩
    exact ⟨_, by simp, htended⟩
  · rintro e s' ⟨w', l'⟩ ⟨seg, rfl, htended⟩
    exact hcaught e s' _ ⟨_, by simp, htended⟩

/-- One order of a replay: the answers that are about it, and the orders that are not. -/
structure Passed (r : Order) (w w' : World) (rest : List Heard) : Prop where
  only : ∀ x ∈ rest, recoveredBy x = []
  tended : Tended r rest w'.db
  others : ∀ o, o ≠ r.id → w'.db.orders.get? o = w.db.orders.get? o

theorem recoverStep_passes (hs : s.Clean) (hrow : w.db.orders.get? r.id = some r)
    (hstuck : r.status.stuck = true) :
    Task.wp (alone heeded Turn.considerate) (recoverStep r)
      (fun _ s' y => s'.Clean ∧ ∃ rest, y.2 = l ++ takesUp r.id :: rest ∧ Passed r w y.1 rest)
      (fun _ _ _ => True) s (w, l) := by
  have hstep : Task.wp (alone (tracked (amid handle) scanning.advance) Turn.considerate)
      (recoverStep r) _ _ s (w, {}) :=
    Task.wp_alone_of_step (J := ScanFrom w.db.orders w.clock)
      (fun ph r hr x hx w' hw' => hw'.step hr hx.1) (recoverStep_scans r hs)
      ⟨le_refl _, fun _ _ => rfl, List.forall_mem_nil _⟩
  have hscan := Task.wp_alone_listened hstep l
  refine Task.wp_alone_mono (Task.wp_alone_and hscan (recoverStep_tends hs hrow hstuck)) ?_
    fun _ _ _ _ => trivial
  rintro _ s' ⟨w', l'⟩ ⟨⟨seg, rfl, ⟨hs', hrecovered⟩, hfrom⟩, rest, hseg, htended⟩
  cases List.append_cancel_left hseg
  simp only [scanning] at hrecovered hfrom
  rw [foldl_hear_scanned] at hrecovered hfrom
  refine ⟨hs', rest, rfl, ?_, htended, fun o hne => hfrom.others o ?_⟩
  · have hnil : rest.flatMap recoveredBy = [] := List.cons_inj_right r.id |>.mp hrecovered
    exact List.flatMap_eq_nil_iff.mp hnil
  · rw [hrecovered]
    exact fun hmem => hne (List.mem_singleton.mp hmem)

/-! ## All of them -/

theorem toldIn_quiet {o : OrderId} {current : Option OrderId} {x : Heard} {l : List Heard}
    (h : recoveredBy x = []) : toldIn o current (x :: l) =
      if current = some o then x :: toldIn o current l else toldIn o current l := by
  rw [toldIn]
  split
  · next heq =>
      rw [h] at heq
      cases heq
  · rfl

/-- Until another order is taken up, what is told is about this one. -/
theorem toldIn_only {o : OrderId} {current : Option OrderId} {rest : List Heard} (l : List Heard)
    (h : ∀ x ∈ rest, recoveredBy x = []) :
    toldIn o current (rest ++ l) =
      (if current = some o then rest else []) ++ toldIn o current l := by
  induction rest with
  | nil => rw [ite_self]; rfl
  | cons x rest ih =>
      obtain ⟨hx, hrest⟩ := List.forall_mem_cons.mp h
      rw [List.cons_append, toldIn_quiet hx, ih hrest]
      split <;> rfl

/-- The orders have been recovered one after another. -/
structure PassedAll (orders : List Order) (w w' : World) (seg : List Heard) : Prop where
  told : ∀ o, o ∉ orders.map (·.id) → ∀ current, toldIn o current seg = []
  tended : ∀ r ∈ orders, ∀ current, Recoverable r (toldIn r.id current seg) →
    r.id ∈ seg.flatMap writtenBy ∨ w'.db.Unstuck r.id
  others : ∀ o, o ∉ orders.map (·.id) → w'.db.orders.get? o = w.db.orders.get? o

theorem PassedAll.cons {orders : List Order} {w' w'' : World} {rest seg : List Heard}
    (h : Passed r w w' rest) (h' : PassedAll orders w' w'' seg) (hr : r.id ∉ orders.map (·.id)) :
    PassedAll (r :: orders) w w'' (takesUp r.id :: rest ++ seg) := by
  have htold : ∀ o current, toldIn o current (takesUp r.id :: rest ++ seg) =
      (if some r.id = some o then rest else []) ++ toldIn o (some r.id) seg := fun o current =>
    toldIn_only seg h.only
  refine ⟨fun o ho current => ?_, fun r' hr' current hrec => ?_, fun o ho => ?_⟩
  · have hne : o ≠ r.id := List.ne_of_not_mem_cons ho
    have ho' : o ∉ orders.map (·.id) := List.not_mem_of_not_mem_cons ho
    rw [htold, if_neg fun heq => hne (Option.some.inj heq).symm, h'.told o ho', List.append_nil]
  · rw [htold] at hrec
    rcases List.mem_cons.mp hr' with rfl | hr'
    · rw [if_pos rfl, h'.told _ hr, List.append_nil] at hrec
      refine (h.tended hrec).imp (fun hmem => ?_) fun hunstuck row hrow => ?_
      · show r'.id ∈ (rest ++ seg).flatMap writtenBy
        exact mem_written_append hmem
      · exact hunstuck row ((h'.others _ hr).symm.trans hrow)
    · have hne : r.id ≠ r'.id := fun heq => hr (heq ▸ List.mem_map_of_mem hr')
      rw [if_neg fun heq => hne (Option.some.inj heq), List.nil_append] at hrec
      refine (h'.tended r' hr' _ hrec).imp_left fun hmem => ?_
      show r'.id ∈ (rest ++ seg).flatMap writtenBy
      exact mem_written_append_right hmem
  · have hne : o ≠ r.id := List.ne_of_not_mem_cons ho
    have ho' : o ∉ orders.map (·.id) := List.not_mem_of_not_mem_cons ho
    exact (h'.others o ho').trans (h.others o hne)

theorem recoverEach_passes {orders : List Order} (hnodup : (orders.map (·.id)).Nodup) (hs : s.Clean)
    (hrows : ∀ r ∈ orders, w.db.orders.get? r.id = some r ∧ r.status.stuck = true) :
    Task.wp (alone heeded Turn.considerate) (recoverEach orders)
      (fun _ _ y => ∃ seg, y.2 = l ++ seg ∧ PassedAll orders w y.1 seg) (fun _ _ _ => True)
      s (w, l) := by
  induction orders generalizing s w l with
  | nil =>
      refine ⟨[], (List.append_nil l).symm, fun _ _ _ => rfl, List.forall_mem_nil _, fun _ _ => rfl⟩
  | cons r orders ih =>
      obtain ⟨hr, hnodup⟩ := List.nodup_cons.mp hnodup
      obtain ⟨⟨hrow, hstuck⟩, hrows⟩ := List.forall_mem_cons.mp hrows
      rw [recoverEach, Task.wp_bind]
      refine Task.wp_alone_mono (recoverStep_passes hs hrow hstuck) ?_ fun _ _ _ => id
      rintro x s' ⟨w', l'⟩ ⟨hs', rest, rfl, hpassed⟩
      have hrows' : ∀ r' ∈ orders, w'.db.orders.get? r'.id = some r' ∧ r'.status.stuck = true := by
        intro r' hr'
        refine ⟨(hpassed.others _ fun heq => hr ?_).trans (hrows r' hr').1, (hrows r' hr').2⟩
        exact List.mem_map.mpr ⟨r', hr', heq⟩
      rw [Task.wp_bind]
      refine Task.wp_alone_mono (ih hnodup hs' hrows') ?_ fun _ _ _ => id
      rintro xs s'' ⟨w'', l''⟩ ⟨seg, rfl, hall⟩
      exact ⟨takesUp r.id :: rest ++ seg, List.append_assoc .., hall.cons hpassed hr⟩

end Alone

/-! ## The run -/

/-- A replay that returns writes every order that it could recover, or leaves it in a status
that is not stuck. -/
theorem replayed_tends {limit : Nat} {turns : Nat → Turn} {w : World}
    (hturns : ∀ n, (turns n).considerate) {y : Reply}
    (hreturns : (replayed limit turns w).1 = .ok y) :
    ∀ r ∈ oldest Order.updatedAt limit ((turns 0).1 w).db.stuck,
      Recoverable r (toldIn r.id none (replayHears limit turns w)) →
      r.id ∈ writtenIn limit turns w ∨ (replayed limit turns w).2.db.Unstuck r.id := by
  intro r hr hrec
  have hrun := replayed_eq limit turns w
  have hheard := replayHears_eq limit turns w
  rcases selection_cases limit (turns 0) w with ⟨f, hf⟩ | hok
  · rw [hrun, hf] at hreturns
    cases hreturns
  rw [hok] at hrun hheard
  have hrows : ∀ r ∈ oldest Order.updatedAt limit ((turns 0).1 w).db.stuck,
      ((turns 0).1 w).db.orders.get? r.id = some r ∧ r.status.stuck = true := fun r hr => by
    obtain ⟨hmem, hstuck⟩ := List.mem_filter.mp (mem_of_mem_oldest hr)
    exact ⟨Table.get?_of_mem hmem, hstuck⟩
  have hnodup : ((oldest Order.updatedAt limit ((turns 0).1 w).db.stuck).map (·.id)).Nodup :=
    nodup_map_oldest (((turns 0).1 w).db.orders.nodup.sublist (List.filter_sublist.map _))
  have hall : Task.wp (alone heeded Turn.considerate)
      (recoverAll (.ok (oldest Order.updatedAt limit ((turns 0).1 w).db.stuck)))
      (fun _ _ y => PassedAll (oldest Order.updatedAt limit ((turns 0).1 w).db.stuck)
        ((turns 0).1 w) y.1 y.2) (fun _ _ _ => True) {} ((turns 0).1 w, []) := by
    unfold recoverAll
    rw [Task.wp_bind, wp_ofDbAnswer_ok, Task.wp_bind]
    refine Task.wp_alone_mono (recoverEach_passes hnodup Session.clean_new hrows) ?_ fun _ _ _ => id
    rintro _ _ ⟨w', l'⟩ ⟨seg, rfl, h⟩
    exact h
  rcases Coro.program_solo .replayed hall (fun n => turns (n + 1)) fun n => hturns (n + 1) with
    ⟨_, _, hpassed, -⟩ | ⟨e, _, -, hraised⟩
  · rw [Prog.solo_tracked, foldl_listening, List.nil_append] at hpassed
    rw [hheard] at hrec
    rw [writtenIn, hheard, hrun]
    exact hpassed.tended r hr none hrec
  · rw [Prog.solo_tracked] at hraised
    rw [hrun] at hreturns
    cases hreturns.symm.trans hraised

end BrokerBridge
