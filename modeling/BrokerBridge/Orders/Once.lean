import BrokerBridge.Orders.Slice

/-!
# One broker order for an order

`place` records an acceptance in a commit of its own, after the broker has
answered, and `replay` decides from the recorded attempts whether to submit
again. The payload carries no idempotency key, so a broker cannot tell a second
submission from a first one: an acceptance that was not recorded, because the
call died or its commit failed, is submitted again.

Runs in which every take-up of an order is exclusive and finds every acceptance
recorded submit it at most once. The argument is about the phases of the
protocol: an order in hand is submitted only from `clear`, where nothing has
been accepted for it, and an acceptance leaves `clear` for good.
-/

namespace BrokerBridge

open Conc

namespace OrderSlice

/-- Every accepted broker order is in an attempt marked submitted. -/
def Recorded (s : OrderSlice) : Prop :=
  ∀ bo ∈ s.accepted.map (·.id), ∃ a row,
    s.attempts a = some row ∧ row.status = .submitted ∧ row.brokerOrderId = some bo

/-- What cancelling an order, or another order, may do to a slice. -/
def SameSubmission (s s' : OrderSlice) : Prop :=
  s.row.isSome = s'.row.isSome ∧ s.attempts = s'.attempts ∧
    s.accepted.map (·.id) = s'.accepted.map (·.id)

/-- At most one broker order, and none without the row. -/
def Once (s : OrderSlice) : Prop :=
  s.accepted.length ≤ 1 ∧ (s.row.isSome = false → s.accepted = [])

variable {s s' : OrderSlice}

theorem SameSubmission.length (h : s.SameSubmission s') :
    s'.accepted.length = s.accepted.length := by
  have := congrArg List.length h.2.2
  simpa using this.symm

theorem SameSubmission.nil (h : s.SameSubmission s') (hs : s.accepted = []) :
    s'.accepted = [] :=
  List.length_eq_zero_iff.mp (h.length.trans (by rw [hs]; rfl))

theorem SameSubmission.once (h : s.SameSubmission s') (hs : s.Once) : s'.Once :=
  ⟨h.length ▸ hs.1, fun hn => h.nil (hs.2 (h.1.trans hn))⟩

theorem SameSubmission.recorded (h : s.SameSubmission s') (hs : s.Recorded) : s'.Recorded := by
  unfold Recorded at hs ⊢
  rw [← h.2.1, ← h.2.2]
  exact hs

end OrderSlice

/-- The order is taken up to be submitted. -/
def Req.takesUpToSubmit (o : OrderId) (r : Req) : Prop :=
  r.takesUp o ∧ r ≠ .mark (.cancel o)

/-- Submitting an order: a recovery must find every acceptance recorded. -/
def submission : Discipline World Req OrderId OrderSlice where
  slice := World.orderSlice
  takeUp := Req.takesUpToSubmit
  ready r s :=
    match r with
    | .mark _ => s.Recorded
    | _ => True
  interfere := OrderSlice.SameSubmission
  inv := OrderSlice.Once
  evolve _ _ := True
  interfere_refl _ := ⟨rfl, rfl, rfl⟩
  interfere_trans h h' := ⟨h.1.trans h'.1, h.2.1.trans h'.2.1, h.2.2.trans h'.2.2⟩
  inv_interfere h hi := hi.once h
  evolve_trans _ _ := trivial
  evolve_interfere _ _ := trivial

/-- What is known of an order in hand. -/
def Phase.submission (s : OrderSlice) : Phase → Prop
  | .recovering _ => s.Recorded
  | .found _ => s.row.isSome ∧ s.Recorded
  | .clear _ => s.row.isSome ∧ s.accepted = []
  | _ => True

theorem Phase.submission_stable {ph : Phase} {s s' : OrderSlice} (h : ph.submission s)
    (hi : s.SameSubmission s') : ph.submission s' := by
  cases ph with
  | recovering => exact hi.recorded h
  | found => exact ⟨hi.1 ▸ h.1, hi.recorded h.2⟩
  | clear => exact ⟨hi.1 ▸ h.1, hi.nil h.2⟩
  | _ => trivial

/-! ## What the requests do -/

section Requests

variable {o : OrderId} {ph : Phase} {r : Req}

theorem cancelled_ids (bo : BrokerOrderId) (bs : List BrokerOrder) :
    (cancelled bo bs).map (·.id) = bs.map (·.id) := by
  rw [cancelled, List.map_map]
  refine List.map_congr_left fun b _ => ?_
  simp only [Function.comp_apply]
  split <;> rfl

/-- A cancellation at the broker, of whatever order, is interference. -/
theorem cancelOrder_interferes (o' : OrderId) (bo : BrokerOrderId) (e : Env) (w : World) :
    (w.orderSlice o).SameSubmission ((handle (.cancelOrder o' bo) e w).2.orderSlice o) := by
  rcases cancelOrder_cases o' bo e w with ⟨f, hf⟩ | hf
  · rw [hf]
    exact ⟨rfl, rfl, rfl⟩
  · rw [hf]
    refine ⟨rfl, rfl, ?_⟩
    simp only [World.orderSlice, cancelled_acceptedFor, cancelled_ids]

theorem cancelWrites_interferes {ws : List Write} (h : CancelWrites o ws) (e : Env) (w : World) :
    (w.orderSlice o).SameSubmission ((handle (.commit ws) e w).2.orderSlice o) := by
  rcases commit_cases ws e w with ⟨f, hf⟩ | ⟨d, hd, hf⟩
  · rw [hf]
    exact ⟨rfl, rfl, rfl⟩
  · rw [hf]
    obtain ⟨h1, h2⟩ := Db.write?_cancels_isSome h hd
    exact ⟨h1.symm, by simp only [World.orderSlice, h2], rfl⟩

/-- The one take-up that is not for a submission. -/
theorem takesUp_of_not (hn : ¬ r.takesUpToSubmit o) (h : r.takesUp o) :
    r = .mark (.cancel o) := by
  by_contra hne
  exact hn ⟨h, hne⟩

theorem submission_stays (hallow : lifecycle.allows ph r) (hn : ¬ r.takesUpToSubmit o)
    (x : r.Ans) (h : (lifecycle.advance ph r x).submits = some o) : ph.submits = some o := by
  by_cases ht : r.takesUp o
  · cases takesUp_of_not hn ht
    cases h
  · exact advance_submits hallow ht x h

/-- A call that will not submit the order only interferes. -/
theorem submission_away (hallow : lifecycle.allows ph r) (hn : ¬ r.takesUpToSubmit o)
    (hph : ph.submits ≠ some o) (e : Env) (w : World) :
    (w.orderSlice o).SameSubmission ((handle r e w).2.orderSlice o) := by
  cases allows_concern hallow o with
  | takesUp h =>
      cases takesUp_of_not hn h
      exact ⟨rfl, rfl, rfl⟩
  | spares h =>
      rw [handle_spares h]
      exact ⟨rfl, rfl, rfl⟩
  | cancelsAtBroker o' bo => exact cancelOrder_interferes o' bo e w
  | marksCancelled h => exact cancelWrites_interferes h e w
  | works h hph' => rcases hph' with rfl | rfl <;> exact absurd rfl hph
  | submits => exact absurd rfl hph

/-- Work on an order in hand accepts nothing and deletes nothing. -/
theorem busy_submission (h : r.busy o) (e : Env) (w : World) :
    ((w.orderSlice o).row.isSome → ((handle r e w).2.orderSlice o).row.isSome) ∧
    ((handle r e w).2.orderSlice o).accepted = (w.orderSlice o).accepted := by
  rcases busy_cases h with ⟨ws, rfl, _⟩ | hquiet
  · rcases commit_cases ws e w with ⟨f, hf⟩ | ⟨d, hd, hf⟩
    · rw [hf]
      exact ⟨id, rfl⟩
    · rw [hf]
      exact ⟨Db.write?_preserves (P := fun d => (d.orders.get? o).isSome)
        (fun _ _ _ _ hd => Write.apply_isSome hd) hd, rfl⟩
  · rw [orderSlice_congr (handle_quiet hquiet e w).1 (handle_quiet hquiet e w).2]
    exact ⟨id, rfl⟩

/-- The order is inserted, on its own, or nothing happens. -/
theorem insert_cases (row : Order) (e : Env) (w : World) :
    (∃ f, handle (.commit [.addOrder row]) e w = (.error f, w)) ∨
    w.db.orders.get? row.id = none ∧
      handle (.commit [.addOrder row]) e w =
        (.ok (), { w with
          db := { w.db with orders := w.db.orders.insert (row.stored w.clock) } }) := by
  rcases commit_cases [.addOrder row] e w with hf | ⟨d, hd, hf⟩
  · exact .inl hf
  · obtain ⟨hc, rfl⟩ := Db.write?_singleton.mp hd
    exact .inr ⟨(Write.addOrder_conflicts hc).1, hf⟩

/-- Without an adoptable attempt, no acceptance is recorded. -/
theorem Recorded.nil_of_read {e : Env} {w : World} {rows : List OrderAttempt}
    (h : (w.orderSlice o).Recorded)
    (hread : (handle (.query [] (.attemptsOf o)) e w).1 = .ok rows)
    (hnone : rows.findSome? (·.adoptable) = none) : (w.orderSlice o).accepted = [] := by
  refine List.eq_nil_iff_forall_not_mem.mpr fun b hb => ?_
  obtain ⟨a, row, ha, hstatus, hbo⟩ := h b.id (List.mem_map.mpr ⟨b, hb, rfl⟩)
  have hno := List.findSome?_eq_none_iff.mp hnone row (read_attempts hread ha)
  rw [OrderAttempt.adoptable, if_pos hstatus, hbo] at hno
  cases hno

/-- The assertions follow the answers. -/
theorem submission_leads {e : Env} {w : World} {ph' : Phase}
    (h : Leads o ph r (handle r e w).1 ph') (hs : ph.submission (w.orderSlice o)) :
    ph'.submission (w.orderSlice o) := by
  generalize hx : (handle r e w).1 = x at h
  cases h with
  | stays => exact hs
  | finds row hlive =>
      have hrow := read_order hx
      refine ⟨?_, hs⟩
      show (w.db.orders.get? o).isSome
      rw [hrow]
      rfl
  | clears rows hnone => exact ⟨hs.1, Recorded.nil_of_read hs.2 hx hnone⟩
  | _ => trivial

/-- One request with the order in hand. -/
theorem submission_kept (hallow : lifecycle.allows ph r) (hn : ¬ r.takesUpToSubmit o)
    (hph : ph.submits = some o) (e : Env) (w : World) (hs : ph.submission (w.orderSlice o))
    (hinv : (w.orderSlice o).Once) :
    ((handle r e w).2.orderSlice o).Once ∧
    ((lifecycle.advance ph r (handle r e w).1).submits = some o →
      (lifecycle.advance ph r (handle r e w).1).submission ((handle r e w).2.orderSlice o)) := by
  have hleads : ¬ r.takesUp o → (lifecycle.advance ph r (handle r e w).1).submits = some o →
      Leads o ph r (handle r e w).1 (lifecycle.advance ph r (handle r e w).1) :=
    fun hnt ho => advance_leads hallow hnt _ (order_of_submits ho)
  cases allows_concern hallow o with
  | takesUp h =>
      cases takesUp_of_not hn h
      exact ⟨hinv, nofun⟩
  | spares h =>
      have hsame := handle_spares h e w
      rw [hsame]
      refine ⟨hinv, fun ho => ?_⟩
      by_cases hnt : r.takesUp o
      · cases takesUp_of_not hn hnt
        cases ho
      · exact submission_leads (hleads hnt ho) hs
  | cancelsAtBroker => cases hph
  | marksCancelled h hph' => rcases hph' with rfl | rfl <;> cases hph
  | works h hph' =>
      obtain ⟨hrow, hacc⟩ := busy_submission h e w
      refine ⟨⟨hacc ▸ hinv.1, fun hnone => hacc.trans (hinv.2 ?_)⟩, fun _ => ?_⟩
      · rw [Bool.eq_false_iff] at hnone ⊢
        exact fun h => hnone (hrow h)
      · have hadv : lifecycle.advance ph r (handle r e w).1 = ph := advance_busy hph' r h _
        rw [hadv]
        rcases hph' with rfl | rfl
        · exact ⟨hrow hs.1, hacc.trans hs.2⟩
        · trivial
  | submits p =>
      obtain ⟨hrow, hnil⟩ := hs
      rcases placeOrder_cases o p e w with ⟨f, hf⟩ | hf
      · rw [hf]
        exact ⟨hinv, fun _ => ⟨hrow, hnil⟩⟩
      · rw [hf]
        refine ⟨⟨?_, fun hnone => ?_⟩, fun _ => trivial⟩
        · have hnil' : w.brokerOrders.filter (·.order = o) = [] := hnil
          simp [World.orderSlice, World.acceptedFor, hnil']
        · have hrow' : (w.db.orders.get? o).isSome := hrow
          exact absurd (hrow'.symm.trans hnone) Bool.noConfusion

/-- A take-up, of an order that is ready for it. -/
theorem submission_taken (ht : r.takesUpToSubmit o) (e : Env) (w : World)
    (hinv : (w.orderSlice o).Once) (hready : submission.ready r (w.orderSlice o)) :
    ((handle r e w).2.orderSlice o).Once ∧
    ((lifecycle.advance ph r (handle r e w).1).submits = some o →
      (lifecycle.advance ph r (handle r e w).1).submission ((handle r e w).2.orderSlice o)) := by
  obtain ⟨ht, hne⟩ := ht
  cases r with
  | mark m =>
      cases m with
      | recover o' =>
          cases ht
          exact ⟨hinv, fun _ => hready⟩
      | cancel o' =>
          cases ht
          exact absurd rfl hne
      | submitInline => exact ht.elim
  | commit ws =>
      obtain ⟨row, rfl, _, rfl⟩ := ht
      rcases insert_cases row e w with ⟨f, hf⟩ | ⟨hnone, hf⟩
      · rw [hf]
        exact ⟨hinv, nofun⟩
      · -- The row is new, so no broker has an order for it.
        rw [hf]
        have hnil : w.acceptedFor row.id = [] := hinv.2 (by simp [World.orderSlice, hnone])
        have hget := Table.get?_insert_self (a := row.stored w.clock) hnone
        have hrow : ((w.db.orders.insert (row.stored w.clock)).get? row.id).isSome :=
          Option.isSome_iff_exists.mpr ⟨_, hget⟩
        refine ⟨⟨?_, fun _ => hnil⟩, fun _ => ⟨hrow, hnil⟩⟩
        exact (congrArg List.length hnil).trans_le (Nat.zero_le 1)
  | _ => exact ht.elim

end Requests

/-! ## Runs -/

/-- The phases as the discipline sees them. -/
def submissionOutline (s : Settings) (o : OrderId) :
    submission.Outline (system s) lifecycle o where
  own ph := ph.submits = some o
  assert ph sl := ph.submission sl
  stable h hi := Phase.submission_stable h hi
  taken _ ht e w hinv hready :=
    have h := submission_taken ht e w hinv hready
    ⟨h.1, trivial, h.2⟩
  kept hallow hn hph e w hs hinv :=
    have h := submission_kept hallow hn hph e w hs hinv
    ⟨h.1, trivial, h.2⟩
  away hallow hn hph :=
    ⟨fun ⟨e, w, h⟩ => h (submission_away hallow hn hph e w),
      fun x h => hph (submission_stays hallow hn x h)⟩

theorem submission_tick (o : OrderId) (v : Tick) (w : World) :
    (w.orderSlice o).SameSubmission ((tick v w).orderSlice o) := by
  cases v <;> exact ⟨rfl, rfl, rfl⟩

/-- Every take-up for a submission, by the insertion of an order or by a
recovery, happens while no other call that has taken the order up can still
submit or record it, and a recovery finds every acceptance recorded. -/
abbrev SubmitsExclusively (s : Settings) : Pools → Happening → Prop :=
  submission.Exclusive (system s)

/-- In such a run a broker accepts an order at most once. -/
theorem accepted_once (s : Settings) {w : World} (hw : w.brokerOrders = []) {p : Pools}
    (h : (system s).Reach (Idle w) (SubmitsExclusively s) p) (o : OrderId) :
    (p.world.acceptedFor o).length ≤ 1 := by
  have hnil : w.acceptedFor o = [] := by rw [World.acceptedFor, hw]; rfl
  have hkept : submission.Kept (system s) o p := by
    refine Discipline.kept_of_reach (fun c => ?_) (submission_tick o) ?_ h
    · refine (submissionOutline s o).ok_of_follows (programOf_follows s c) fun heq => ?_
      cases heq
    · rintro _ rfl
      exact ⟨rfl, (congrArg List.length hnil).trans_le (Nat.zero_le 1), fun _ => hnil⟩
  exact hkept.1.1

/-! ## Runs that do, and a run that does not -/

/-- A client with one broker, whose session is valid. -/
def oneBroker : World where
  db :=
    { clients := .of [{ id := 1 }]
      brokers := .of [{ id := 2, clientId := 1 }]
      sessions := .of
        [{ brokerAccountId := 2, status := .valid, expiresAt := some 100
           hasRefreshToken := true }]
      config := { requireAssignedIp := some false } }

/-- Every await succeeds, the broker is healthy and accepts. -/
def fine : Env := { health := [⟨2, 100, "healthy"⟩] }

/-- Thread `i` makes its next `n` requests. -/
def steps (i n : Nat) (e : Env := fine) : List Happening := List.replicate n (.step i e)

def buyOne : PlaceRequest where
  clientId := 1
  clientOrderId := "a"
  side := "BUY"
  symbol := "X"
  quantity := 1

/-- `place` dies before the broker is asked, and `replay` recovers the order. -/
def crashedEarly : List Happening :=
  .start (.place buyOne) :: steps 0 20 ++ [.crash 0, .start (.replay 50)] ++ steps 1 40

/-- A check of one event that implies the condition of a run. -/
def submitsAlone (p : Pools) : Happening → Bool
  | .step i _ =>
      match p.prog? i with
      | some (.call (.mark (.recover o)) _) => p.alone i && (p.world.acceptedFor o).isEmpty
      | some (.call (.commit _) _) => p.alone i
      | _ => true
  | _ => true

theorem submitsAlone_exclusive (s : Settings) (p : Pools) (ev : Happening)
    (h : submitsAlone p ev = true) : SubmitsExclusively s p ev := by
  cases ev with
  | step i e =>
      rintro o r ⟨c, hc⟩ ⟨ht, hne⟩
      simp only [submitsAlone, hc] at h
      have hfree : p.alone i = true → ∀ j q, j ≠ i → p.prog? j = some q →
          ¬ submission.Holds (system s) o q := fun ha j q hj hq =>
        Discipline.not_holds_of_done fun r c => Pool.done_of_alone ha hj hq r c
      cases r with
      | mark m =>
          cases m with
          | recover o' =>
              cases ht
              obtain ⟨ha, hnil⟩ := Bool.and_eq_true_iff.mp h
              refine ⟨fun bo hbo => ?_, hfree ha⟩
              have hnil' : p.world.acceptedFor o = [] := List.isEmpty_iff.mp hnil
              simp [submission, World.orderSlice, hnil'] at hbo
          | cancel o' =>
              cases ht
              exact absurd rfl hne
          | submitInline => exact ht.elim
      | commit ws => exact ⟨trivial, hfree h⟩
      | _ => exact ht.elim
  | _ => trivial

theorem accepted_once_after_crash :
    (((system {}).run { world := oneBroker } crashedEarly).world.acceptedFor 3).length ≤ 1 := by
  have hrun : (system {}).Reach (Idle oneBroker) (SubmitsExclusively {})
      ((system {}).run { world := oneBroker } crashedEarly) := by
    refine Machine.reach_run_of_check (submitsAlone_exclusive {})
      (reach_idle oneBroker) crashedEarly ?_
    decide +kernel
  exact accepted_once {} rfl hrun 3

/-- The calls that work on orders. -/
def Call.onOrders : Call → Bool
  | .place _ | .replay _ | .cancel _ => true
  | _ => false

/-- Runs built from those calls; anything else may happen in them. -/
def OrderRun (_ : Pools) : Happening → Prop
  | .start c => c.onOrders = true
  | _ => True

/-- In every run a broker accepts an order at most once. -/
def AcceptedOnce (s : Settings) : Prop :=
  ∀ (w : World) (p : Pools), w.brokerOrders = [] → (system s).Reach (Idle w) OrderRun p →
    ∀ o, (p.world.acceptedFor o).length ≤ 1

/-- `place` dies after the broker has accepted, before that is recorded. -/
def crashedLate : List Happening :=
  .start (.place buyOne) :: steps 0 30 ++ [.crash 0, .start (.replay 50)] ++ steps 1 40

def startsOrderCalls (_ : Pools) : Happening → Bool
  | .start c => c.onOrders
  | _ => true

theorem startsOrderCalls_run (p : Pools) (ev : Happening) (h : startsOrderCalls p ev = true) :
    OrderRun p ev := by
  cases ev with
  | start c => exact h
  | _ => trivial

/-- The order is accepted twice. -/
theorem not_accepted_once : ¬ AcceptedOnce {} := by
  intro h
  have hrun : (system {}).Reach (Idle oneBroker) OrderRun
      ((system {}).run { world := oneBroker } crashedLate) := by
    refine Machine.reach_run_of_check startsOrderCalls_run (reach_idle oneBroker) crashedLate ?_
    decide +kernel
  have htwo : (((system {}).run { world := oneBroker } crashedLate).world.acceptedFor 3).length
      = 2 := by decide +kernel
  have := h oneBroker _ rfl hrun 3
  omega

end BrokerBridge
