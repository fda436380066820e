import BrokerBridge.Orders.Lifecycle
import BrokerBridge.World.Frame

/-!
# What the world knows of one order

The row of an order, its attempts, how often its cancellation was announced,
and the orders a broker accepted for it. A request that follows the protocol
with another order in hand changes none of that, except that it may cancel
broker orders.
-/

namespace BrokerBridge

open Conc

structure OrderSlice where
  row : Option Order
  attempts : AttemptId → Option OrderAttempt
  cancellations : Nat
  accepted : List BrokerOrder

/-- The event announces the cancellation of `o`. -/
def EventPayload.cancels (o : OrderId) : EventPayload → Bool
  | orderCancelled o' .. => o' = o
  | _ => false

/-- The orders that brokers accepted for `o`. -/
def World.acceptedFor (w : World) (o : OrderId) : List BrokerOrder :=
  w.brokerOrders.filter (·.order = o)

/-- How often the outbox announces the cancellation of `o`. -/
def Db.cancellations (d : Db) (o : OrderId) : Nat :=
  d.outbox.countP (·.payload.cancels o)

def World.orderSlice (o : OrderId) (w : World) : OrderSlice where
  row := w.db.orders.get? o
  attempts a := (w.db.attempts.get? a).filter (·.orderId = o)
  cancellations := w.db.cancellations o
  accepted := w.acceptedFor o

/-! ## Writes -/

section Writes

variable {o : OrderId} {now : Instant} {w : Write} {d d' : Db} {ws : List Write}

theorem Write.apply_orders (h : w.order? ≠ some o) :
    (w.apply now d).orders.get? o = d.orders.get? o := by
  cases w with
  | addOrder r => exact Table.get?_insert_of_ne fun he => h (congrArg some he.symm)
  | setOrder o' f =>
      have hne : o ≠ o' := fun he => h (congrArg some he.symm)
      exact (Table.get?_update_of_ne _ hne).trans (Table.get?_update_of_ne _ hne)
  | setAttempt o' a f =>
      simp only [Write.apply]
      split <;> rfl
  | _ => rfl

theorem OrderAttemptField.set_orderId (f : OrderAttemptField) (r : OrderAttempt) :
    (f.set r).orderId = r.orderId := by cases f <;> rfl

theorem Write.apply_attempts (h : w.order? ≠ some o) (a : AttemptId) :
    ((w.apply now d).attempts.get? a).filter (·.orderId = o) =
      (d.attempts.get? a).filter (·.orderId = o) := by
  cases w with
  | addAttempt r =>
      have hne : r.orderId ≠ o := fun he => h (congrArg some he)
      show ((d.attempts.insert r).get? a).filter _ = _
      by_cases ha : a = Row.key r
      · subst ha
        cases ht : d.attempts.get? (Row.key r) with
        | some r' => rw [Table.insert_of_taken ht, ht]
        | none =>
            rw [Table.get?_insert_self ht]
            simp [hne]
      · rw [Table.get?_insert_of_ne ha]
  | setAttempt o' a' f =>
      have hne : o' ≠ o := fun he => h (congrArg some he)
      simp only [Write.apply]
      split
      · next hany =>
          by_cases ha : a = a'
          · subst ha
            obtain ⟨r, hr, hro⟩ := Option.any_eq_true .. |>.mp hany
            have hro' : r.orderId = o' := by simpa using hro
            have hset : (Row.set f r : OrderAttempt).orderId = o' :=
              (OrderAttemptField.set_orderId f r).trans hro'
            rw [Table.get?_update_self, hr, Option.map_some]
            rw [Option.filter_some_neg (by simp [hset, hne]), Option.filter_some_neg
              (by simp [hro', hne])]
          · rw [Table.get?_update_of_ne _ ha]
      · rfl
  | _ => rfl

theorem Write.apply_cancellations (h : w.order? ≠ some o) :
    (w.apply now d).cancellations o = d.cancellations o := by
  cases w with
  | enqueue p =>
      have hp : p.cancels o = false := by
        cases p with
        | orderCancelled o' => exact decide_eq_false fun he => h (congrArg some he)
        | _ => rfl
      simp [Write.apply, Db.cancellations, List.countP_append, hp]
  | setAttempt o' a f =>
      simp only [Write.apply]
      split <;> rfl
  | _ => rfl

/-- A commit that does not concern the order. -/
theorem Db.write?_spares (h : ∀ w ∈ ws, w.order? ≠ some o) (hd : d.write? now ws = some d') :
    d'.orders.get? o = d.orders.get? o ∧
    (∀ a, (d'.attempts.get? a).filter (·.orderId = o) =
      (d.attempts.get? a).filter (·.orderId = o)) ∧
    d'.cancellations o = d.cancellations o :=
  ⟨Db.write?_eq (f := fun d => d.orders.get? o) (fun w hw _ => Write.apply_orders (h w hw)) hd,
    fun a => Db.write?_eq (f := fun d => (d.attempts.get? a).filter (·.orderId = o))
      (fun w hw _ => Write.apply_attempts (h w hw) a) hd,
    Db.write?_eq (f := fun d => d.cancellations o)
      (fun w hw _ => Write.apply_cancellations (h w hw)) hd⟩

/-- No write deletes an order. -/
theorem Write.apply_isSome (h : (d.orders.get? o).isSome) :
    ((w.apply now d).orders.get? o).isSome := by
  obtain ⟨r, hr⟩ := Option.isSome_iff_exists.mp h
  cases w with
  | addOrder r' => exact Option.isSome_iff_exists.mpr ⟨r, Table.get?_insert_of_some hr⟩
  | setOrder o' f =>
      simp only [Write.apply, Table.get?_update]
      split
      · next he => simp [← he, hr]
      · exact h
  | setAttempt o' a f =>
      simp only [Write.apply]
      split <;> exact h
  | _ => exact h

/-- The order is stored, and not cancelled. -/
def Db.Live (d : Db) (o : OrderId) : Prop :=
  ∃ r, d.orders.get? o = some r ∧ r.status ≠ .cancelled

theorem OrderField.set_live {f : OrderField} (hf : f ≠ .status .cancelled) {r : Order}
    (h : r.status ≠ .cancelled) : (f.set r).status ≠ .cancelled := by
  cases f with
  | status x => exact fun hx => hf (congrArg OrderField.status hx)
  | _ => exact h

theorem Write.working_live (h : w.working o) (hd : d.Live o) : (w.apply now d).Live o := by
  obtain ⟨r, hr, hlive⟩ := hd
  cases w with
  | addOrder => exact h.elim
  | setOrder o' f =>
      obtain ⟨rfl, hf⟩ := h
      refine ⟨OrderField.set (.updatedAt now) (f.set r), ?_, ?_⟩
      · simp only [Write.apply, Table.get?_update_self, hr, Option.map_some]
        rfl
      · exact OrderField.set_live (f := .updatedAt now) nofun (OrderField.set_live hf hlive)
  | setAttempt o' a f =>
      simp only [Write.apply]
      split <;> exact ⟨r, hr, hlive⟩
  | _ => exact ⟨r, hr, hlive⟩

theorem Write.working_cancellations (h : w.working o) :
    (w.apply now d).cancellations o = d.cancellations o := by
  cases w with
  | enqueue p =>
      cases p with
      | orderCancelled => exact h.elim
      | _ => simp [Write.apply, Db.cancellations, List.countP_append, EventPayload.cancels]
  | setAttempt o' a f =>
      simp only [Write.apply]
      split <;> rfl
  | _ => rfl

/-- What a commit that cancels the order does. -/
theorem Db.write?_cancels (h : CancelWrites o ws) (hd : d.write? now ws = some d')
    {r : Order} (hr : d.orders.get? o = some r) :
    (∃ r', d'.orders.get? o = some r' ∧ r'.status = .cancelled) ∧
    d'.cancellations o = d.cancellations o + 1 ∧ d'.attempts = d.attempts := by
  obtain ⟨c, key, bo, rfl⟩ := h
  obtain ⟨_, hd⟩ := Db.write?_cons.mp hd
  obtain ⟨_, rfl⟩ := Db.write?_singleton.mp hd
  refine ⟨⟨OrderField.set (.updatedAt now) (OrderField.set (.status .cancelled) r), ?_,
    rfl⟩, ?_, rfl⟩
  · simp only [Write.apply, Table.get?_update_self, hr, Option.map_some]
    rfl
  · simp [Write.apply, Db.cancellations, List.countP_append, EventPayload.cancels]

/-- It deletes nothing and makes nothing else. -/
theorem Db.write?_cancels_isSome (h : CancelWrites o ws) (hd : d.write? now ws = some d') :
    (d'.orders.get? o).isSome = (d.orders.get? o).isSome ∧ d'.attempts = d.attempts := by
  obtain ⟨c, key, bo, rfl⟩ := h
  obtain ⟨_, hd⟩ := Db.write?_cons.mp hd
  obtain ⟨_, rfl⟩ := Db.write?_singleton.mp hd
  refine ⟨?_, rfl⟩
  simp only [Write.apply, Table.get?_update_self, Option.isSome_map]

end Writes

/-! ## Reads -/

section Reads

variable {o : OrderId} {e : Env} {w : World}

theorem read_order {row : Option {r : Order // r.id = o}}
    (h : (handle (.query [] (.order o)) e w).1 = .ok row) :
    w.db.orders.get? o = row.map (·.1) := by
  rcases query_cases [] (.order o) e w with ⟨f, hf⟩ | hf
  · rw [hf] at h
    cases h
  · rw [hf] at h
    have hrow : w.db.orders.lookup o = row := Except.ok.inj h
    cases row with
    | none => exact Table.lookup_eq_none.mp hrow
    | some row => exact Table.lookup_eq_some.mp hrow

theorem read_attempts {rows : List OrderAttempt}
    (h : (handle (.query [] (.attemptsOf o)) e w).1 = .ok rows) {a : AttemptId}
    {row : OrderAttempt} (ha : (w.orderSlice o).attempts a = some row) : row ∈ rows := by
  rcases query_cases [] (.attemptsOf o) e w with ⟨f, hf⟩ | hf
  · rw [hf] at h
    cases h
  · rw [hf] at h
    cases h
    obtain ⟨hrow, ho⟩ := Option.filter_eq_some_iff.mp ha
    refine (List.mem_insertionSort _).mpr (List.mem_filter.mpr ⟨?_, ?_⟩)
    · exact (Table.get?_eq_some.mp hrow).1
    · simpa using ho

end Reads

/-! ## Requests -/

section Requests

variable {o : OrderId} {ph : Phase} {r : Req} {w : World}

/-- The request leaves what is known of `o` alone. -/
def Req.spares (o : OrderId) : Req → Prop
  | .commit ws => ∀ w ∈ ws, w.order? ≠ some o
  | .placeOrder o' _ => o' ≠ o
  | .cancelOrder _ _ => False
  | _ => True

theorem orderSlice_congr {w w' : World} (hdb : w'.db = w.db)
    (hbo : w'.brokerOrders = w.brokerOrders) : w'.orderSlice o = w.orderSlice o := by
  simp only [World.orderSlice, World.acceptedFor, hdb, hbo]

theorem handle_spares (h : r.spares o) (e : Env) (w : World) :
    (handle r e w).2.orderSlice o = w.orderSlice o := by
  cases r with
  | commit ws =>
      rcases commit_cases ws e w with ⟨f, hf⟩ | ⟨d, hd, hf⟩
      · rw [hf]
      · obtain ⟨h1, h2, h3⟩ := Db.write?_spares h hd
        rw [hf]
        simp only [World.orderSlice, World.acceptedFor, h1, h2, h3]
  | placeOrder o' p =>
      rcases placeOrder_cases o' p e w with ⟨f, hf⟩ | hf
      · rw [hf]
      · rw [hf]
        have hne : ¬ o' = o := h
        simp [World.orderSlice, World.acceptedFor, hne]
  | cancelOrder => exact h.elim
  | _ => exact orderSlice_congr (handle_quiet id e w).1 (handle_quiet id e w).2

theorem cancelled_acceptedFor (bo : BrokerOrderId) (w : World) :
    ({ w with brokerOrders := cancelled bo w.brokerOrders } : World).acceptedFor o =
      cancelled bo (w.acceptedFor o) := by
  simp only [World.acceptedFor, cancelled, List.filter_map]
  congr 1
  refine List.filter_congr fun b _ => ?_
  simp only [Function.comp_apply]
  split <;> rfl

/-! ## What the protocol allows -/

/-- The order that the call may go on to submit. -/
def Phase.submits : Phase → Option OrderId
  | .recovering o | .found o | .clear o | .settling o => some o
  | _ => none

theorem Write.working.spares {o' : OrderId} {v : Write} (h : v.working o) (hne : o ≠ o') :
    v.order? ≠ some o' := by
  intro hv
  cases v with
  | addOrder => exact h
  | addAttempt => exact hne (h.symm.trans (Option.some.inj hv))
  | setOrder => exact hne (h.1.symm.trans (Option.some.inj hv))
  | setAttempt => exact hne (h.symm.trans (Option.some.inj hv))
  | enqueue p =>
      cases p with
      | orderSubmitted => exact hne (h.symm.trans (Option.some.inj hv))
      | orderCancelled => exact h
      | _ => cases hv
  | _ => cases hv

theorem orderFree_spares (h : r.orderFree) : r.spares o := by
  cases r with
  | commit ws => exact fun v hv he => nomatch (h v hv).symm.trans he
  | placeOrder | cancelOrder => exact h.elim
  | _ => trivial

theorem busy_spares {o' : OrderId} (h : r.busy o) (hne : o ≠ o') : r.spares o' := by
  cases r with
  | commit ws => exact fun v hv => Write.working.spares (h v hv) hne
  | placeOrder | cancelOrder => exact h.elim
  | _ => trivial

/-- Work on an order changes what is known of it by its commits only. -/
theorem busy_cases (h : r.busy o) :
    (∃ ws, r = .commit ws ∧ ∀ v ∈ ws, v.working o) ∨ ¬ r.recording := by
  cases r with
  | commit ws => exact .inl ⟨ws, rfl, h⟩
  | placeOrder | cancelOrder => exact h.elim
  | _ => exact .inr id

theorem cancelWrites_spares {o' : OrderId} {ws : List Write} (h : CancelWrites o ws)
    (hne : o ≠ o') : (Req.commit ws).spares o' := by
  obtain ⟨c, key, bo, rfl⟩ := h
  intro v hv
  simp only [List.mem_cons, List.not_mem_nil, or_false] at hv
  rcases hv with rfl | rfl
  · exact fun he => hne (Option.some.inj he)
  · exact fun he => hne (Option.some.inj he)

theorem takesUp_spares {o' : OrderId} (h : r.takesUp o) (hne : o ≠ o') : r.spares o' := by
  cases r with
  | commit ws =>
      obtain ⟨row, hid, _, rfl⟩ := h
      intro v hv he
      cases List.mem_singleton.mp hv
      exact hne (hid.symm.trans (Option.some.inj he))
  | mark => trivial
  | _ => exact h.elim

/-- What a request of a call in some phase can be to `o`. -/
inductive Concern (o : OrderId) : Phase → Req → Prop where
  | takesUp {ph : Phase} {r : Req} (h : r.takesUp o) : Concern o ph r
  | spares {ph : Phase} {r : Req} (h : r.spares o) : Concern o ph r
  | cancelsAtBroker (o' : OrderId) (bo : BrokerOrderId) :
      Concern o (.cancelling o' (some bo)) (.cancelOrder o' bo)
  | marksCancelled {ph : Phase} {ws : List Write} (h : CancelWrites o ws)
      (hph : ph = .cancelling o none ∨ ph = .cancelled o) : Concern o ph (.commit ws)
  | works {ph : Phase} {r : Req} (h : r.busy o) (hph : ph = .clear o ∨ ph = .settling o) :
      Concern o ph r
  | submits (payload : OrderPayload) : Concern o (.clear o) (.placeOrder o payload)

theorem permits_concern (h : ph.permits r) (o : OrderId) : Concern o ph r := by
  cases ph with
  | clear o' =>
      by_cases ho : o' = o
      · subst ho
        rcases h with h | ⟨p, rfl⟩
        · exact .works h (.inl rfl)
        · exact .submits p
      · rcases h with h | ⟨p, rfl⟩
        · exact .spares (busy_spares h ho)
        · exact .spares ho
  | settling o' =>
      by_cases ho : o' = o
      · subst ho
        exact .works h (.inr rfl)
      · exact .spares (busy_spares h ho)
  | cancelling o' bo =>
      cases bo with
      | none =>
          cases r with
          | commit ws =>
              by_cases ho : o' = o
              · subst ho
                exact .marksCancelled h (.inl rfl)
              · exact .spares (cancelWrites_spares h ho)
          | _ => exact h.elim
      | some bo =>
          cases r with
          | cancelOrder o'' bo'' =>
              obtain ⟨rfl, rfl⟩ := h
              exact .cancelsAtBroker _ _
          | _ => exact h.elim
  | cancelled o' =>
      cases r with
      | commit ws =>
          by_cases ho : o' = o
          · subst ho
            exact .marksCancelled h (.inr rfl)
          · exact .spares (cancelWrites_spares h ho)
      | _ => exact h.elim
  | _ => exact h.elim

/-- The one case analysis of what the protocol allows. -/
theorem allows_concern (h : lifecycle.allows ph r) (o : OrderId) : Concern o ph r := by
  rcases h with h | ⟨o', h⟩ | h
  · exact .spares (orderFree_spares h)
  · by_cases ho : o' = o
    · exact .takesUp (ho ▸ h)
    · exact .spares (takesUp_spares h ho)
  · exact permits_concern h o

/-! ## Where an answer leads -/

/-- How the phase of a call that has `o` in hand moves on. -/
inductive Leads (o : OrderId) : Phase → (r : Req) → r.Ans → Phase → Prop where
  | stays (ph : Phase) (r : Req) (x : r.Ans) (h : ph.order? = some o) : Leads o ph r x ph
  | finds (row : {r : Order // r.id = o}) (h : ¬ row.1.status.terminal) :
      Leads o (.recovering o) (.query [] (.order o)) (.ok (some row)) (.found o)
  | adopts (rows : List OrderAttempt) :
      Leads o (.found o) (.query [] (.attemptsOf o)) (.ok rows) (.settling o)
  | clears (rows : List OrderAttempt) (h : rows.findSome? (·.adoptable) = none) :
      Leads o (.found o) (.query [] (.attemptsOf o)) (.ok rows) (.clear o)
  | submitted (o' : OrderId) (p : OrderPayload) (bo : BrokerOrderId) :
      Leads o (.clear o) (.placeOrder o' p) (.ok bo) (.settling o)
  | checked (row : {r : Order // r.id = o}) (h : row.1.status.cancelable) :
      Leads o (.checking o) (.query [] (.order o)) (.ok (some row))
        (.cancelling o row.1.brokerOrderId)
  | cancelled (o' : OrderId) (bo bo' : BrokerOrderId) :
      Leads o (.cancelling o (some bo)) (.cancelOrder o' bo') (.ok ()) (.cancelled o)

theorem readOrder_leads {ws : List Write} {o' : OrderId} {row : Option {r : Order // r.id = o'}}
    (h : (ph.read ws (.order o') (.ok row)).order? = some o) :
    Leads o ph (.query ws (.order o')) (.ok row) (ph.read ws (.order o') (.ok row)) := by
  have hstay : ph.order? = some o → (ph.read ws (.order o') (.ok row)) = ph →
      Leads o ph (.query ws (.order o')) (.ok row) (ph.read ws (.order o') (.ok row)) := by
    intro ho heq
    rw [heq]
    exact .stays ph _ _ ho
  cases ph with
  | recovering o'' =>
      simp only [Phase.read, Phase.readOrder] at h ⊢
      split at h <;> try cases h
      next hsame =>
      split at h <;> try cases h
      next r hr =>
      split at h <;> cases h
      next hterm =>
      obtain ⟨row, rfl, rfl⟩ := Option.map_eq_some_iff.mp hr
      obtain ⟨ho, hws⟩ : o = o' ∧ ws.isEmpty := by simpa [Phase.order?] using hsame
      subst ho
      rw [List.isEmpty_iff.mp hws]
      simpa [Phase.order?, hterm] using Leads.finds row hterm
  | checking o'' =>
      simp only [Phase.read, Phase.readOrder] at h ⊢
      split at h <;> try cases h
      next hsame =>
      split at h <;> try cases h
      next r hr =>
      split at h <;> cases h
      next hcan =>
      obtain ⟨row, rfl, rfl⟩ := Option.map_eq_some_iff.mp hr
      obtain ⟨ho, hws⟩ : o = o' ∧ ws.isEmpty := by simpa [Phase.order?] using hsame
      subst ho
      rw [List.isEmpty_iff.mp hws]
      simpa [Phase.order?, hcan] using Leads.checked row hcan
  | _ => exact hstay h rfl

theorem readAttempts_leads {ws : List Write} {o' : OrderId} {rows : List OrderAttempt}
    (h : (ph.read ws (.attemptsOf o') (.ok rows)).order? = some o) :
    Leads o ph (.query ws (.attemptsOf o')) (.ok rows)
      (ph.read ws (.attemptsOf o') (.ok rows)) := by
  cases ph with
  | found o'' =>
      simp only [Phase.read, Phase.readAttempts] at h ⊢
      split at h <;> try cases h
      next hsame =>
      split at h
      · next hadopt =>
          cases h
          obtain ⟨ho, hws⟩ : o = o' ∧ ws.isEmpty := by simpa [Phase.order?] using hsame
          subst ho
          rw [List.isEmpty_iff.mp hws]
          simpa [Phase.order?, hadopt] using Leads.adopts rows
      · next hadopt =>
          cases h
          obtain ⟨ho, hws⟩ : o = o' ∧ ws.isEmpty := by simpa [Phase.order?] using hsame
          subst ho
          rw [List.isEmpty_iff.mp hws]
          simpa [Phase.order?, hadopt] using Leads.clears rows (by simpa using hadopt)
  | _ => exact .stays _ _ _ h

/-- Only a take-up inserts the order. -/
theorem Concern.inserts {ws : List Write} (h : Concern o ph (.commit ws))
    (hws : insertion? ws = some o) : (Req.commit ws).takesUp o := by
  unfold insertion? at hws
  split at hws
  · next row =>
      have hid : row.id = o := Option.some.inj hws
      cases h with
      | takesUp h => exact h
      | spares h => exact absurd (congrArg some hid) (h _ List.mem_cons_self)
      | marksCancelled h => obtain ⟨_, _, _, h⟩ := h; cases h
      | works h => exact (h _ List.mem_cons_self).elim
  · cases hws

/-- A call stays with the order it has in hand until it takes one up. -/
theorem advance_leads (hallow : lifecycle.allows ph r) (hn : ¬ r.takesUp o) (x : r.Ans)
    (h : (lifecycle.advance ph r x).order? = some o) :
    Leads o ph r x (lifecycle.advance ph r x) := by
  cases r with
  | mark m =>
      cases m with
      | recover => exact absurd (Option.some.inj h) hn
      | cancel => exact absurd (Option.some.inj h) hn
      | submitInline => exact .stays _ _ _ h
  | query ws q =>
      cases q with
      | order o' =>
          cases x with
          | error => exact .stays _ _ _ h
          | ok row => exact readOrder_leads h
      | attemptsOf o' =>
          cases x with
          | error => exact .stays _ _ _ h
          | ok rows => exact readAttempts_leads h
      | _ => exact .stays _ _ _ h
  | commit ws =>
      change (ph.committed ws x).order? = some o at h
      change Leads o ph _ x (ph.committed ws x)
      cases hws : insertion? ws with
      | some o' =>
          simp only [Phase.committed, hws] at h
          cases x with
          | error => cases h
          | ok =>
              cases h
              exact absurd ((allows_concern hallow o).inserts hws) hn
      | none =>
          rw [committed_of_none hws] at h ⊢
          unfold Phase.wrote at h ⊢
          split at h
          · next hall =>
              rw [if_pos hall]
              exact .stays _ _ _ h
          · next hall =>
              rw [if_neg hall]
              cases ph with
              | clear => exact .stays _ _ _ h
              | settling => exact .stays _ _ _ h
              | _ => cases h
  | placeOrder o' p =>
      cases ph with
      | clear o'' =>
          cases x with
          | error => exact .stays _ _ _ h
          | ok bo =>
              cases h
              exact .submitted o' p bo
      | _ => exact .stays _ _ _ h
  | cancelOrder o' bo =>
      cases ph with
      | cancelling o'' bo' =>
          cases bo' with
          | none => cases h
          | some bo' =>
              cases x with
              | error => cases h
              | ok =>
                  cases h
                  exact .cancelled o' bo' bo
      | _ => cases h
  | _ => exact .stays _ _ _ h

theorem Leads.order {x : r.Ans} {ph' : Phase} (h : Leads o ph r x ph') :
    ph.order? = some o ∧ (ph'.submits = some o → ph.submits = some o) := by
  cases h with
  | stays ph r x h => exact ⟨h, id⟩
  | _ => exact ⟨rfl, by simp [Phase.submits]⟩

theorem order_of_submits (h : ph.submits = some o) : ph.order? = some o := by
  cases ph <;> first | exact h | cases h

/-- A call does not come to have the order in hand without taking it up. -/
theorem advance_order (hallow : lifecycle.allows ph r) (hn : ¬ r.takesUp o) (x : r.Ans)
    (h : (lifecycle.advance ph r x).order? = some o) : ph.order? = some o :=
  (advance_leads hallow hn x h).order.1

theorem advance_submits (hallow : lifecycle.allows ph r) (hn : ¬ r.takesUp o) (x : r.Ans)
    (h : (lifecycle.advance ph r x).submits = some o) : ph.submits = some o :=
  (advance_leads hallow hn x (order_of_submits h)).order.2 h

end Requests

end BrokerBridge
