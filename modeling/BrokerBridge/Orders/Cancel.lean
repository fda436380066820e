import BrokerBridge.Orders.Once

/-!
# A cancelled order stays cancelled

`cancel` decides from one read of the row whether the order ever reached a
broker, and what it then cancels there is the one broker order the row names.
`place` and `replay` write the status from their own copies of the row, so a
cancellation that is committed while one of them still has the order in hand is
overwritten, and the broker may have accepted an order the row did not name.

Runs in which every take-up of an order is exclusive, and a cancellation finds
every accepted broker order named in the row, cancel for good: `cancelled` is
the last status, every accepted broker order has been cancelled, and one event
says so.
-/

namespace BrokerBridge

open Conc

namespace OrderSlice

abbrev Cancelled (s : OrderSlice) : Prop := s.row.map (·.status) = some .cancelled

def Live (s : OrderSlice) : Prop := ∃ r, s.row = some r ∧ r.status ≠ .cancelled

/-- The row names every accepted broker order. -/
def Named (s : OrderSlice) : Prop :=
  ∀ b ∈ s.accepted, ∃ r, s.row = some r ∧ r.brokerOrderId = some b.id

/-- What cancelling another order may do to a slice. -/
def MoreCancelled (s s' : OrderSlice) : Prop :=
  s'.row = s.row ∧ s'.cancellations = s.cancellations ∧
    ∀ b' ∈ s'.accepted, ∃ b ∈ s.accepted, b.id = b'.id ∧ (b.cancelled → b'.cancelled)

/-- A cancelled order is cancelled everywhere and announced at most once. -/
def Final (s : OrderSlice) : Prop :=
  (s.Cancelled → (∀ b ∈ s.accepted, b.cancelled) ∧ s.cancellations ≤ 1) ∧
    (¬ s.Cancelled → s.cancellations = 0)

variable {s s' s'' : OrderSlice}

theorem MoreCancelled.refl (s : OrderSlice) : s.MoreCancelled s :=
  ⟨rfl, rfl, fun b hb => ⟨b, hb, rfl, id⟩⟩

theorem MoreCancelled.trans (h : s.MoreCancelled s') (h' : s'.MoreCancelled s'') :
    s.MoreCancelled s'' := by
  refine ⟨h'.1.trans h.1, h'.2.1.trans h.2.1, fun b'' hb'' => ?_⟩
  obtain ⟨b', hb', hid', hc'⟩ := h'.2.2 b'' hb''
  obtain ⟨b, hb, hid, hc⟩ := h.2.2 b' hb'
  exact ⟨b, hb, hid.trans hid', hc' ∘ hc⟩

theorem MoreCancelled.cancelled (h : s.MoreCancelled s') : s'.Cancelled ↔ s.Cancelled := by
  simp only [Cancelled, h.1]

theorem MoreCancelled.live (h : s.MoreCancelled s') (hs : s.Live) : s'.Live := by
  simpa only [Live, h.1] using hs

theorem MoreCancelled.all (h : s.MoreCancelled s') (hs : ∀ b ∈ s.accepted, b.cancelled) :
    ∀ b ∈ s'.accepted, b.cancelled := by
  intro b' hb'
  obtain ⟨b, hb, _, hc⟩ := h.2.2 b' hb'
  exact hc (hs b hb)

theorem MoreCancelled.named (h : s.MoreCancelled s') (hs : s.Named) : s'.Named := by
  intro b' hb'
  obtain ⟨b, hb, hid, _⟩ := h.2.2 b' hb'
  obtain ⟨r, hr, hbo⟩ := hs b hb
  exact ⟨r, h.1.trans hr, hbo.trans (congrArg some hid)⟩

theorem MoreCancelled.final (h : s.MoreCancelled s') (hs : s.Final) : s'.Final := by
  refine ⟨fun hc => ?_, fun hc => h.2.1.trans (hs.2 fun hn => hc (h.cancelled.mpr hn))⟩
  obtain ⟨hall, hone⟩ := hs.1 (h.cancelled.mp hc)
  exact ⟨h.all hall, h.2.1 ▸ hone⟩

theorem Live.not_cancelled (h : s.Live) : ¬ s.Cancelled := by
  obtain ⟨r, hr, hlive⟩ := h
  rw [Cancelled, hr]
  exact fun hc => hlive (Option.some.inj hc)

/-- A live order is right as long as nothing announces its cancellation. -/
theorem Live.final (h : s.Live) (h0 : s.cancellations = 0) : s.Final :=
  ⟨fun hc => absurd hc h.not_cancelled, fun _ => h0⟩

end OrderSlice

/-- Cancelling an order: it must find every acceptance named in the row. -/
def cancellation : Discipline World Req OrderId OrderSlice where
  slice := World.orderSlice
  takeUp o r := r.takesUp o
  ready r s :=
    match r with
    | .mark (.cancel _) => s.Named
    | _ => True
  interfere := OrderSlice.MoreCancelled
  inv := OrderSlice.Final
  evolve s s' := s.Cancelled → s'.Cancelled
  interfere_refl := OrderSlice.MoreCancelled.refl
  interfere_trans := OrderSlice.MoreCancelled.trans
  inv_interfere h hi := hi.final h
  evolve_trans h h' := h' ∘ h
  evolve_interfere _ hi := hi.cancelled.mpr

/-- What is known of an order in hand. -/
def Phase.cancellation (s : OrderSlice) : Phase → Prop
  | .found _ | .clear _ | .settling _ => s.Live
  | .checking _ => s.Named
  | .cancelling _ bo => s.Live ∧ ∀ b ∈ s.accepted, bo = some b.id
  | .cancelled _ => s.Live ∧ ∀ b ∈ s.accepted, b.cancelled
  | _ => True

theorem Phase.cancellation_stable {ph : Phase} {s s' : OrderSlice} (h : ph.cancellation s)
    (hi : s.MoreCancelled s') : ph.cancellation s' := by
  cases ph with
  | found | clear | settling => exact hi.live h
  | checking => exact hi.named h
  | cancelling o bo =>
      refine ⟨hi.live h.1, fun b' hb' => ?_⟩
      obtain ⟨b, hb, hid, _⟩ := hi.2.2 b' hb'
      exact (h.2 b hb).trans (congrArg some hid)
  | cancelled => exact ⟨hi.live h.1, hi.all h.2⟩
  | _ => trivial

/-! ## What the requests do -/

section Requests

variable {o : OrderId} {ph : Phase} {r : Req}

theorem mem_cancelled {bo : BrokerOrderId} {bs : List BrokerOrder} {b' : BrokerOrder} :
    b' ∈ cancelled bo bs ↔
      ∃ b ∈ bs, b' = if b.id = bo then { b with cancelled := true } else b := by
  simp only [cancelled, List.mem_map, eq_comm]

theorem cancelOrder_moreCancelled (o' : OrderId) (bo : BrokerOrderId) (e : Env) (w : World) :
    (w.orderSlice o).MoreCancelled ((handle (.cancelOrder o' bo) e w).2.orderSlice o) := by
  rcases cancelOrder_cases o' bo e w with ⟨f, hf⟩ | hf
  · rw [hf]
    exact OrderSlice.MoreCancelled.refl _
  · rw [hf]
    refine ⟨rfl, rfl, fun b' hb' => ?_⟩
    change b' ∈ World.acceptedFor _ o at hb'
    rw [cancelled_acceptedFor] at hb'
    obtain ⟨b, hb, rfl⟩ := mem_cancelled.mp hb'
    refine ⟨b, hb, ?_, ?_⟩ <;> split <;> simp

/-- A call without the order in hand only interferes. -/
theorem cancellation_away (hallow : lifecycle.allows ph r) (hn : ¬ r.takesUp o)
    (hph : ph.order? ≠ some o) (e : Env) (w : World) :
    (w.orderSlice o).MoreCancelled ((handle r e w).2.orderSlice o) := by
  cases allows_concern hallow o with
  | takesUp h => exact absurd h hn
  | spares h =>
      rw [handle_spares h]
      exact OrderSlice.MoreCancelled.refl _
  | cancelsAtBroker o' bo => exact cancelOrder_moreCancelled o' bo e w
  | marksCancelled h hph' => rcases hph' with rfl | rfl <;> exact absurd rfl hph
  | works h hph' => rcases hph' with rfl | rfl <;> exact absurd rfl hph
  | submits => exact absurd rfl hph

/-- Work on a live order keeps it live, and announces nothing. -/
theorem busy_cancellation (h : r.busy o) (e : Env) (w : World) (hlive : (w.orderSlice o).Live) :
    ((handle r e w).2.orderSlice o).Live ∧
    ((handle r e w).2.orderSlice o).cancellations = (w.orderSlice o).cancellations := by
  rcases busy_cases h with ⟨ws, rfl, hws⟩ | hquiet
  · rcases commit_cases ws e w with ⟨f, hf⟩ | ⟨d, hd, hf⟩
    · rw [hf]
      exact ⟨hlive, rfl⟩
    · rw [hf]
      refine ⟨?_, ?_⟩
      · exact Db.write?_preserves (P := fun d => d.Live o)
          (fun v hv _ _ hd => Write.working_live (hws v hv) hd) hd hlive
      · exact Db.write?_eq (f := fun d => d.cancellations o)
          (fun v hv _ => Write.working_cancellations (hws v hv)) hd
  · rw [orderSlice_congr (handle_quiet hquiet e w).1 (handle_quiet hquiet e w).2]
    exact ⟨hlive, rfl⟩

/-- The commit that ends a cancellation. -/
theorem cancelWrites_final {ws : List Write} (h : CancelWrites o ws) (e : Env) (w : World)
    (hinv : (w.orderSlice o).Final) (hlive : (w.orderSlice o).Live)
    (hall : ∀ b ∈ (w.orderSlice o).accepted, b.cancelled) :
    ((handle (.commit ws) e w).2.orderSlice o).Final := by
  rcases commit_cases ws e w with ⟨f, hf⟩ | ⟨d, hd, hf⟩
  · rw [hf]
    exact hinv
  · rw [hf]
    obtain ⟨row, hrow, _⟩ := hlive
    obtain ⟨⟨row', hrow', hstatus⟩, hcount, _⟩ := Db.write?_cancels h hd hrow
    have hc : d.orders.get? o |>.map (·.status) |> (· = some .cancelled) := by
      rw [hrow', Option.map_some, hstatus]
    have h0 : w.db.cancellations o = 0 := hinv.2 (OrderSlice.Live.not_cancelled ⟨row, hrow, ‹_›⟩)
    refine ⟨fun _ => ⟨hall, ?_⟩, fun hn => absurd hc hn⟩
    exact (hcount.trans (by rw [h0])).le

/-- The assertions follow the answers. -/
theorem cancellation_leads {e : Env} {w : World} {ph' : Phase} (hr : r.spares o)
    (h : Leads o ph r (handle r e w).1 ph') (hs : ph.cancellation (w.orderSlice o)) :
    ph'.cancellation (w.orderSlice o) := by
  generalize hx : (handle r e w).1 = x at h
  cases h with
  | stays => exact hs
  | finds row hlive =>
      refine ⟨row.1, read_order hx, fun hc => hlive ?_⟩
      rw [hc]
      rfl
  | checked row hcan =>
      have hrow := read_order hx
      refine ⟨⟨row.1, hrow, fun hc => ?_⟩, fun b hb => ?_⟩
      · rw [hc] at hcan
        cases hcan
      · obtain ⟨row', hrow', hbo⟩ := hs b hb
        cases hrow.symm.trans hrow'
        exact hbo
  | adopts => exact hs
  | clears => exact hs
  | submitted => exact hs
  | cancelled => exact hr.elim

/-- After the last commit, nothing is in hand. -/
theorem advance_cancelWrites {ws : List Write} (h : CancelWrites o ws)
    (hph : ph = .cancelling o none ∨ ph = .cancelled o) (x : (Req.commit ws).Ans) :
    lifecycle.advance ph (.commit ws) x = .away := by
  obtain ⟨c, key, bo, rfl⟩ := h
  rcases hph with rfl | rfl <;> rfl

/-- One request with the order in hand. -/
theorem cancellation_kept (hallow : lifecycle.allows ph r) (hn : ¬ r.takesUp o)
    (hph : ph.order? = some o) (e : Env) (w : World) (hs : ph.cancellation (w.orderSlice o))
    (hinv : (w.orderSlice o).Final) :
    ((handle r e w).2.orderSlice o).Final ∧
    ((w.orderSlice o).Cancelled → ((handle r e w).2.orderSlice o).Cancelled) ∧
    ((lifecycle.advance ph r (handle r e w).1).order? = some o →
      (lifecycle.advance ph r (handle r e w).1).cancellation ((handle r e w).2.orderSlice o)) := by
  cases allows_concern hallow o with
  | takesUp h => exact absurd h hn
  | spares h =>
      rw [handle_spares h]
      exact ⟨hinv, id, fun ho => cancellation_leads h (advance_leads hallow hn _ ho) hs⟩
  | cancelsAtBroker o' bo =>
      have hmore := cancelOrder_moreCancelled (o := o) o' bo e w
      refine ⟨hmore.final hinv, hmore.cancelled.mpr, fun ho => ?_⟩
      rcases cancelOrder_cases o' bo e w with ⟨f, hf⟩ | hf
      · rw [hf] at ho
        cases ho
      · -- Every accepted order is the one the row names, and that one is cancelled now.
        have hlive := hmore.live hs.1
        rw [hf] at hlive ⊢
        refine ⟨hlive, fun b' hb' => ?_⟩
        change b' ∈ World.acceptedFor _ o at hb'
        rw [cancelled_acceptedFor] at hb'
        obtain ⟨b, hb, rfl⟩ := mem_cancelled.mp hb'
        rw [if_pos (Option.some.inj (hs.2 b hb)).symm]
  | marksCancelled h hph' =>
      have hlive : (w.orderSlice o).Live := by rcases hph' with rfl | rfl <;> exact hs.1
      have hall : ∀ b ∈ (w.orderSlice o).accepted, b.cancelled := by
        rcases hph' with rfl | rfl
        · exact fun b hb => nomatch hs.2 b hb
        · exact hs.2
      refine ⟨cancelWrites_final h e w hinv hlive hall, fun hc => absurd hc hlive.not_cancelled,
        fun ho => ?_⟩
      rw [advance_cancelWrites h hph'] at ho
      cases ho
  | works h hph' =>
      have hlive : (w.orderSlice o).Live := by rcases hph' with rfl | rfl <;> exact hs
      obtain ⟨hlive', hcount⟩ := busy_cancellation h e w hlive
      refine ⟨hlive'.final (hcount.trans (hinv.2 hlive.not_cancelled)),
        fun hc => absurd hc hlive.not_cancelled, fun _ => ?_⟩
      have hadv : lifecycle.advance ph r (handle r e w).1 = ph := advance_busy hph' r h _
      rw [hadv]
      rcases hph' with rfl | rfl <;> exact hlive'
  | submits p =>
      have hlive : (w.orderSlice o).Live := hs
      have h0 := hinv.2 hlive.not_cancelled
      rcases placeOrder_cases o p e w with ⟨f, hf⟩ | hf
      · rw [hf]
        exact ⟨hinv, id, fun _ => hs⟩
      · rw [hf]
        exact ⟨OrderSlice.Live.final hlive h0, id, fun _ => hlive⟩

/-- A take-up, of an order that is ready for it. -/
theorem cancellation_taken (ht : r.takesUp o) (e : Env) (w : World)
    (hinv : (w.orderSlice o).Final) (hready : cancellation.ready r (w.orderSlice o)) :
    ((handle r e w).2.orderSlice o).Final ∧
    ((w.orderSlice o).Cancelled → ((handle r e w).2.orderSlice o).Cancelled) ∧
    ((lifecycle.advance ph r (handle r e w).1).order? = some o →
      (lifecycle.advance ph r (handle r e w).1).cancellation ((handle r e w).2.orderSlice o)) := by
  cases r with
  | mark m =>
      cases m with
      | recover => exact ⟨hinv, id, fun _ => trivial⟩
      | cancel => exact ⟨hinv, id, fun _ => hready⟩
      | submitInline => exact ht.elim
  | commit ws =>
      obtain ⟨row, rfl, hcreated, rfl⟩ := ht
      rcases insert_cases row e w with ⟨f, hf⟩ | ⟨hnone, hf⟩
      · rw [hf]
        refine ⟨hinv, id, fun heq => ?_⟩
        cases heq
      · -- The row is new, so nothing has announced its cancellation.
        rw [hf]
        have hnot : ¬ (w.orderSlice row.id).Cancelled := by
          rw [OrderSlice.Cancelled, World.orderSlice, hnone]
          rintro ⟨⟩
        have hget := Table.get?_insert_self (a := row.stored w.clock) hnone
        have hlive : (World.orderSlice row.id { w with db := { w.db with
            orders := w.db.orders.insert (row.stored w.clock) } }).Live :=
          ⟨row.stored w.clock, hget, fun hc => by cases hcreated.symm.trans hc⟩
        exact ⟨hlive.final (hinv.2 hnot), fun hc => absurd hc hnot, fun _ => hlive⟩
  | _ => exact ht.elim

end Requests

/-! ## Runs -/

/-- The phases as the discipline sees them. -/
def cancellationOutline (s : Settings) (o : OrderId) :
    cancellation.Outline (system s) lifecycle o where
  own ph := ph.order? = some o
  assert ph sl := ph.cancellation sl
  stable h hi := Phase.cancellation_stable h hi
  taken _ ht e w hinv hready := cancellation_taken ht e w hinv hready
  kept hallow hn hph e w hs hinv := cancellation_kept hallow hn hph e w hs hinv
  away hallow hn hph :=
    ⟨fun ⟨e, w, h⟩ => h (cancellation_away hallow hn hph e w),
      fun x h => hph (advance_order hallow hn x h)⟩

theorem cancellation_tick (o : OrderId) (v : Tick) (w : World) :
    (w.orderSlice o).MoreCancelled ((tick v w).orderSlice o) := by
  cases v <;> exact OrderSlice.MoreCancelled.refl _

/-- Every take-up, by an insertion, a recovery or a cancellation, happens while
no other call that has taken the order up can still change what is known of it,
and a cancellation finds every accepted broker order named in the row. -/
abbrev CancelsExclusively (s : Settings) : Pools → Happening → Prop :=
  cancellation.Exclusive (system s)

/-- No order yet, nor anything about one. -/
structure World.NoOrders (w : World) : Prop where
  orders : w.db.orders.rows = []
  outbox : w.db.outbox = []
  brokerOrders : w.brokerOrders = []

/-- The status of an order is `CANCELLED`. -/
abbrev World.Cancelled (w : World) (o : OrderId) : Prop := (w.orderSlice o).Cancelled

theorem World.NoOrders.final {w : World} (h : w.NoOrders) (o : OrderId) :
    (w.orderSlice o).Final := by
  have h0 : (w.orderSlice o).cancellations = 0 := by
    simp [World.orderSlice, Db.cancellations, h.outbox]
  refine ⟨fun hc => ?_, fun _ => h0⟩
  obtain ⟨row, hrow, _⟩ := Option.map_eq_some_iff.mp hc
  have hmem : row ∈ w.db.orders.rows := (Table.get?_eq_some.mp hrow).1
  rw [h.orders] at hmem
  cases hmem

/-- In such a run a cancellation is final. -/
theorem cancelled_for_good (s : Settings) {w : World} (hw : w.NoOrders) {p p' : Pools}
    (h : (system s).Reach (Idle w) (CancelsExclusively s) p)
    (h' : (system s).ReachFrom (CancelsExclusively s) p p') (o : OrderId)
    (hc : p.world.Cancelled o) :
    p'.world.Cancelled o ∧ (∀ b ∈ p'.world.acceptedFor o, b.cancelled) ∧
      p'.world.db.cancellations o ≤ 1 := by
  have hprog : ∀ c, cancellation.Ok (system s) o (programOf s c) none ∧
      ¬ cancellation.Holds (system s) o (programOf s c) := fun c =>
    (cancellationOutline s o).ok_of_follows (programOf_follows s c) fun heq => by cases heq
  have hkept : cancellation.Kept (system s) o p := by
    refine Discipline.kept_of_reach hprog (cancellation_tick o) ?_ h
    rintro _ rfl
    exact ⟨rfl, hw.final o⟩
  obtain ⟨hkept', hevolve⟩ := Discipline.kept_evolves hprog (cancellation_tick o) hkept h'
  have hc' : (p'.world.orderSlice o).Cancelled := hevolve hc
  exact ⟨hc', hkept'.1.1 hc'⟩

/-! ## A run that does, and a run that does not -/

/-- A check of one event that implies the condition of a run. -/
def cancelsAlone (p : Pools) : Happening → Bool
  | .step i _ =>
      match p.prog? i with
      | some (.call (.mark (.cancel o)) _) =>
          p.alone i && (p.world.acceptedFor o).all fun b =>
            (p.world.db.orders.get? o).any (·.brokerOrderId = some b.id)
      | some (.call (.mark _) _) => p.alone i
      | some (.call (.commit _) _) => p.alone i
      | _ => true
  | _ => true

theorem cancelsAlone_exclusive (s : Settings) (p : Pools) (ev : Happening)
    (h : cancelsAlone p ev = true) : CancelsExclusively s p ev := by
  cases ev with
  | step i e =>
      rintro o r ⟨c, hc⟩ ht
      simp only [cancelsAlone, hc] at h
      have hfree : p.alone i = true → ∀ j q, j ≠ i → p.prog? j = some q →
          ¬ cancellation.Holds (system s) o q := fun ha j q hj hq =>
        Discipline.not_holds_of_done fun r c => Pool.done_of_alone ha hj hq r c
      cases r with
      | mark m =>
          cases m with
          | recover o' => exact ⟨trivial, hfree h⟩
          | cancel o' =>
              cases ht
              obtain ⟨ha, hnamed⟩ := Bool.and_eq_true_iff.mp h
              refine ⟨fun b hb => ?_, hfree ha⟩
              have hany := List.all_eq_true.mp hnamed b hb
              obtain ⟨row, hrow, hbo⟩ := (Option.any_eq_true _ _).mp hany
              exact ⟨row, hrow, of_decide_eq_true hbo⟩
          | submitInline => exact ht.elim
      | commit ws => exact ⟨trivial, hfree h⟩
      | _ => exact ht.elim
  | _ => trivial

/-- The order is placed, then cancelled; then the scanner runs. -/
def placedThenCancelled : List Happening :=
  .start (.place buyOne) :: steps 0 40 ++ .start (.cancel 3) :: steps 1 10

def scanned : List Happening := .start (.replay 50) :: steps 2 10

theorem oneBroker_noOrders : oneBroker.NoOrders := ⟨rfl, rfl, rfl⟩

theorem cancelled_for_good_sequential :
    let p' := (system {}).run ((system {}).run { world := oneBroker } placedThenCancelled) scanned
    p'.world.Cancelled 3 ∧ (∀ b ∈ p'.world.acceptedFor 3, b.cancelled) ∧
      p'.world.db.cancellations 3 ≤ 1 := by
  have hrun : (system {}).Reach (Idle oneBroker) (CancelsExclusively {})
      ((system {}).run { world := oneBroker } placedThenCancelled) := by
    refine Machine.reach_run_of_check (cancelsAlone_exclusive {}) (reach_idle oneBroker)
      placedThenCancelled ?_
    decide +kernel
  have hrun' : (system {}).ReachFrom (CancelsExclusively {})
      ((system {}).run { world := oneBroker } placedThenCancelled)
      ((system {}).run ((system {}).run { world := oneBroker } placedThenCancelled) scanned) := by
    refine Machine.reach_run_of_check (cancelsAlone_exclusive {})
      (Machine.reachFrom_self _) scanned ?_
    decide +kernel
  have hcancelled :
      ((system {}).run { world := oneBroker } placedThenCancelled).world.Cancelled 3 := by
    decide +kernel
  exact cancelled_for_good {} oneBroker_noOrders hrun hrun' 3 hcancelled

/-- Once an order is cancelled, it stays cancelled, every accepted broker order
has been cancelled, and at most one event announces it. -/
def CancellationFinal (s : Settings) : Prop :=
  ∀ (w : World) (p p' : Pools), w.NoOrders → (system s).Reach (Idle w) OrderRun p →
    (system s).ReachFrom OrderRun p p' → ∀ o, p.world.Cancelled o →
      p'.world.Cancelled o ∧ (∀ b ∈ p'.world.acceptedFor o, b.cancelled) ∧
        p'.world.db.cancellations o ≤ 1

/-- `cancel` runs after the broker has accepted, before that is recorded. -/
def cancelledUnderway : List Happening :=
  .start (.place buyOne) :: steps 0 30 ++ .start (.cancel 3) :: steps 1 10

/-- The order is cancelled, and then submitted. -/
theorem not_cancellationFinal : ¬ CancellationFinal {} := by
  intro h
  have hrun : (system {}).Reach (Idle oneBroker) OrderRun
      ((system {}).run { world := oneBroker } cancelledUnderway) := by
    refine Machine.reach_run_of_check startsOrderCalls_run (reach_idle oneBroker)
      cancelledUnderway ?_
    decide +kernel
  have hrun' : (system {}).ReachFrom OrderRun
      ((system {}).run { world := oneBroker } cancelledUnderway)
      ((system {}).run ((system {}).run { world := oneBroker } cancelledUnderway)
        (steps 0 10)) := by
    refine Machine.reach_run_of_check startsOrderCalls_run (Machine.reachFrom_self _)
      (steps 0 10) ?_
    decide +kernel
  have hthen := h oneBroker _ _ oneBroker_noOrders hrun hrun' 3 (by decide +kernel)
  have hnot : ¬ ((system {}).run ((system {}).run { world := oneBroker } cancelledUnderway)
      (steps 0 10)).world.Cancelled 3 := by decide +kernel
  exact hnot hthen.1

end BrokerBridge
