import BrokerBridge.Orders.Standing
import BrokerBridge.Orders.Once
import Mathlib.Tactic.Linarith
import Mathlib.Tactic.NormNum

/-!
# The quantity of an order

`place` takes any decimal greater than 0. The row of the order is inserted and read back
before anything is submitted, and its column has eight decimals: what the broker and the
event get is the rounded quantity, which may be another one and may be 0. Where that has more
than ten digits before the point the insertion is refused, and nothing is submitted. Nothing
after the insertion sets the quantity of an order, so whatever other calls do in between does
not matter.
-/

namespace BrokerBridge

open Conc

/-! ## The column -/

/-- The decimal has at most eight places. -/
def EightPlaces (q : Rat) : Prop := ∃ n : Int, q * 10 ^ 8 = n

theorem numeric8_eq_iff {q : Rat} (h : 0 ≤ q) : numeric8 q = q ↔ EightPlaces q := by
  have hpow : (10 : Rat) ^ 8 ≠ 0 := by norm_num
  rw [numeric8, if_pos h, div_eq_iff hpow]
  constructor
  · exact fun heq => ⟨_, heq.symm⟩
  · rintro ⟨n, hn⟩
    have hhalf : ⌊(1 / 2 : Rat)⌋ = 0 := by
      rw [Int.floor_eq_zero_iff]
      constructor <;> norm_num
    rw [hn, Int.floor_intCast_add, hhalf, add_zero]

/-- The column has room for what the decimal rounds to. -/
def Fits (q : Rat) : Prop := |numeric8 q| < 10 ^ 10

/-! ## The rows -/

/-- The order is there, with this quantity. -/
def Db.HasQuantity (d : Db) (o : OrderId) (q : Rat) : Prop :=
  ∃ row, d.orders.get? o = some row ∧ row.quantity = q

section Rows

variable {now : Instant} {d d' : Db} {o : OrderId} {q : Rat}

theorem OrderField.set_quantity (f : OrderField) (row : Order) :
    (f.set row).quantity = row.quantity := by
  cases f <;> rfl

theorem quantity_update {t : Table Order} {o' : OrderId} {f : OrderField}
    (h : ∃ row, t.get? o = some row ∧ row.quantity = q) :
    ∃ row, (t.update o' f).get? o = some row ∧ row.quantity = q := by
  obtain ⟨row, hrow, rfl⟩ := h
  rw [Table.get?_update]
  split
  · next heq =>
      subst heq
      exact ⟨f.set row, by rw [hrow]; rfl, f.set_quantity row⟩
  · exact ⟨row, hrow, rfl⟩

theorem hasQuantity_apply {v : Write} (h : d.HasQuantity o q) :
    (v.apply now d).HasQuantity o q := by
  cases v with
  | addOrder row =>
      obtain ⟨row', hrow', hq⟩ := h
      exact ⟨row', Table.get?_insert_of_some hrow', hq⟩
  | setOrder o' f => exact quantity_update (quantity_update h)
  | setAttempt o' i f =>
      simp only [Write.apply]
      split <;> exact h
  | _ => exact h

theorem hasQuantity_write {ws : List Write} (hd : d.write? now ws = some d')
    (h : d.HasQuantity o q) : d'.HasQuantity o q :=
  Db.write?_preserves (P := fun d => d.HasQuantity o q) (fun _ _ _ _ => hasQuantity_apply) hd h

theorem fits_of_write {row : Order} (hd : d.write? now [.addOrder row] = some d') :
    Fits row.quantity := by
  have hroom := Write.overflows_of_conflicts (Db.write?_singleton.mp hd).1
  exact lt_of_not_ge (of_decide_eq_false hroom)

/-- An insertion rounds. -/
theorem hasQuantity_insert {row : Order} (hd : d.write? now [.addOrder row] = some d') :
    d'.HasQuantity row.id (numeric8 row.quantity) := by
  obtain ⟨hfree, rfl⟩ := Db.write?_singleton.mp hd
  exact ⟨row.stored now, Table.get?_insert_self (Write.addOrder_conflicts hfree).1, rfl⟩

end Rows

/-! ## What others do meanwhile -/

/-- Another call is answered, or the world ticks. -/
inductive Doing where
  | asks (r : Req) (e : Env)
  | ticks (t : Tick)

def Doing.run : Doing → World → World
  | .asks r e, w => (handle r e w).2
  | .ticks t, w => tick t w

/-- The answer, after whatever others have done. -/
def among (r : Req) (x : List Doing × Env) (w : World) : r.Ans × World :=
  handle r x.2 (x.1.foldl (fun w d => d.run w) w)

section Others

variable {o : OrderId} {q : Rat} {w : World}

theorem hasQuantity_handle {r : Req} {e : Env} (h : w.db.HasQuantity o q) :
    (handle r e w).2.db.HasQuantity o q := by
  by_cases hcommit : ∃ ws, r = .commit ws
  · obtain ⟨ws, rfl⟩ := hcommit
    rcases commit_cases ws e w with ⟨f, hf⟩ | ⟨d, hd, hf⟩
    · rw [hf]
      exact h
    · rw [hf]
      exact hasQuantity_write hd h
  · rw [handle_db fun ws heq => hcommit ⟨ws, heq⟩]
    exact h

theorem hasQuantity_others {ds : List Doing} (h : w.db.HasQuantity o q) :
    (ds.foldl (fun w d => d.run w) w).db.HasQuantity o q := by
  induction ds generalizing w with
  | nil => exact h
  | cons d ds ih =>
      refine ih ?_
      cases d with
      | asks r e => exact hasQuantity_handle h
      | ticks t => cases t <;> exact h

end Others

/-! ## What is submitted -/

/-- The quantity of an announced submission. -/
def Write.quantity? : Write → Option Rat
  | .enqueue (.orderSubmitted _ _ _ _ _ _ _ quantity _) => some quantity
  | _ => none

/-- The quantities that a request gives to the broker, or to the event it commits. -/
def Req.quantities : Req → List Rat
  | .placeOrder _ payload => [payload.quantity]
  | .commit ws => ws.filterMap Write.quantity?
  | _ => []

/-- No other quantity than `q`. -/
def Write.carries (q : Rat) (v : Write) : Prop := ∀ q', v.quantity? = some q' → q' = q

def Req.carries (q : Rat) (r : Req) : Prop := ∀ q' ∈ r.quantities, q' = q

section Carrying

variable {q : Rat} {U V : Write → Prop} {α : Type}

theorem carries_commit {ws : List Write} (h : ∀ v ∈ ws, v.carries q) :
    (Req.commit ws).carries q := by
  intro q' hq'
  obtain ⟨v, hv, hvq⟩ := List.mem_filterMap.mp hq'
  exact h v hv q' hvq

/-- A write that announces no submission. -/
theorem carries_of_none {v : Write} (h : v.quantity? = none) : v.carries q := by
  intro q' hq'
  rw [h] at hq'
  cases hq'

theorem carries_nil {r : Req} (h : r.quantities = []) : r.carries q := by
  intro q' hq'
  rw [h] at hq'
  cases hq'

theorem routing_carries (r : Req) (h : r.routing) : r.carries q := by
  cases r with
  | query | rateCheck | rateConsume => exact carries_nil rfl
  | _ => exact h.elim

theorem gating_carries {c : ClientId} (r : Req) (h : r.gating c) : r.carries q := by
  cases r with
  | query ws q' => exact carries_nil rfl
  | commit ws =>
      refine carries_commit fun v hv => ?_
      have := h v hv
      cases v with
      | enqueue p => exact this.elim
      | _ => exact carries_of_none rfl
  | _ => exact h.elim

theorem ensuring_carries {b : BrokerId} (r : Req) (h : r.ensuring b) : r.carries q := by
  cases r with
  | commit ws =>
      refine carries_commit fun v hv => ?_
      have := h v hv
      cases v with
      | enqueue p => exact this.elim
      | _ => exact carries_of_none rfl
  | placeOrder o payload => exact h.elim
  | _ => exact carries_nil rfl

theorem carries_execute {x : Query} : Steps (Req.carries q) U U (execute x) :=
  Steps.execute fun _ _ => carries_nil rfl

theorem carries_commits : Steps (Req.carries q) (Write.carries q) (fun _ => False) commit :=
  Steps.commit fun _ => carries_commit

/-- A stretch that stages such writes and commits them. -/
theorem carries_stretch {t : Coro α} (h : Steps (Req.carries q) (Write.carries q)
    (fun _ => False) t) :
    Calm (Req.carries q) t :=
  h.weaken (fun _ h => h.elim) fun _ => id

/-- Setting an attribute announces nothing. -/
theorem carries_assign {F β : Type} [Stored α F] [DecidableEq α] {r : α} {f : F} {k : α → Coro β}
    (hw : (Stored.write r f).quantity? = none)
    (hk : Steps (Req.carries q) (Write.carries q) V (k (Stored.set f r))) :
    Steps (Req.carries q) (Write.carries q) V (assign r f >>= k) :=
  Steps.assignThen (carries_of_none hw) hk

end Carrying

section Submission

variable {order : Order} {attempt : OrderAttempt} {c : RouteCandidate}

/-- Opening an attempt does not change it. -/
theorem openAttempt_quantity (n : Nat) :
    Returns (fun x => x.1.quantity = order.quantity) (openAttempt order c n) := by
  refine Returns.after fun id => Returns.after fun _ => ?_
  refine Returns.bind (Returns.assign (R := fun o => o.quantity = order.quantity) rfl)
    fun o1 h1 => ?_
  refine Returns.bind (Returns.assign (R := fun o => o.quantity = order.quantity) h1)
    fun o2 h2 => ?_
  refine Returns.bind (Returns.assign (R := fun o => o.quantity = order.quantity) h2)
    fun o3 h3 => ?_
  refine Returns.after fun _ => Returns.after fun row => Returns.after fun x => ?_
  obtain ⟨attempt, ha⟩ := x
  exact Returns.pure h3

theorem openAttempt_carries (n : Nat) :
    Calm (Req.carries order.quantity) (openAttempt order c n) := by
  refine Steps.bind (Steps.newId (carries_nil rfl)) fun id => carries_stretch ?_
  refine Steps.bind (Steps.stage (carries_of_none rfl)) fun _ => ?_
  refine carries_assign rfl (carries_assign rfl (carries_assign rfl ?_))
  refine Steps.bind carries_commits fun _ => Steps.bind carries_execute fun row => ?_
  exact Steps.bind (Steps.refreshed _) fun attempt => Steps.pure _

/-- The event has the quantity of the order. -/
theorem recordSubmitted_carries (bo : BrokerOrderId) :
    Calm (Req.carries order.quantity) (recordSubmitted order attempt c bo) := by
  refine carries_stretch (carries_assign rfl (carries_assign rfl (carries_assign rfl
    (carries_assign rfl (carries_assign rfl ?_)))))
  refine Steps.bind (Steps.stage ?_) fun _ => carries_commits
  intro q' hq'
  exact (Option.some.inj hq').symm

theorem failAttempt_carries {q : Rat} (error : String) :
    Calm (Req.carries q) (failAttempt attempt error) :=
  carries_stretch (carries_assign rfl (carries_assign rfl carries_commits))

theorem failOrder_carries {q : Rat} (code : String) : Calm (Req.carries q) (failOrder order code) :=
  carries_stretch (carries_assign rfl (carries_assign rfl carries_commits))

theorem recordFailover_carries {q : Rat} (reason : String) (rest : List RouteCandidate) :
    Calm (Req.carries q) (recordFailover order c reason rest) := by
  cases rest with
  | nil => exact Steps.pure _
  | cons next _ =>
      exact carries_stretch (Steps.bind (Steps.stage (carries_of_none rfl)) fun _ =>
        carries_commits)

theorem submitHandler_carries {q : Rat} (e : Exn) :
    Calm (Req.carries q) (submitHandler order attempt e) := by
  cases e with
  | broker code message status retryable =>
      refine Steps.bind (failAttempt_carries message) fun _ => Steps.ite (Steps.pure _) ?_
      exact Steps.bind (failOrder_carries code) fun _ => Steps.raise _
  | cancelled => exact Steps.raise _
  | _ => exact Steps.bind (failAttempt_carries _) fun _ => Steps.pure _

/-- The payload has the quantity of the order. -/
theorem trySubmit_carries : Calm (Req.carries order.quantity) (trySubmit order attempt c) := by
  refine Steps.catching ?_ fun e => submitHandler_carries e
  have hpayload : (Req.placeOrder order.id (orderPayload order c)).carries order.quantity :=
    fun q' hq' => List.mem_singleton.mp hq'
  refine Steps.bind (Steps.await hpayload) fun x => Steps.bind (Steps.ofAnswer x) fun bo => ?_
  exact Steps.bind (recordSubmitted_carries bo) fun _ => Steps.pure _

theorem rateLimited_carries {q : Rat} (rest : List RouteCandidate) :
    Calm (Req.carries q) (rateLimited order c rest) := by
  refine Steps.bind (exceedPolicy_calm.mono routing_carries) fun policy => Steps.ite ?_ ?_
  · exact Steps.bind (failOrder_carries _) fun _ => Steps.raise _
  · exact Steps.bind (recordFailover_carries _ rest) fun _ => Steps.pure _

theorem submitChain_carries {q : Rat} (held : List BrokerAccount) (chain : List RouteCandidate) :
    ∀ (order : Order) (n : Nat) (last : Option LastError), order.quantity = q →
      Calm (Req.carries q) (submitChain held order n last chain) := by
  induction chain with
  | nil =>
      rintro order n last rfl
      exact Steps.bind (failOrder_carries _) fun _ => Steps.raise _
  | cons c rest ih =>
      rintro order n last rfl
      rw [submitChain]
      refine Steps.bind ((rateConsume_calm _ _).mono routing_carries) fun rl => Steps.ite ?_ ?_
      · exact Steps.bind (rateLimited_carries rest) fun why => ih order _ _ rfl
      refine Steps.bind ((ensure_calm held c.broker.id false).mono ensuring_carries) fun _ => ?_
      refine Steps.bindOf (openAttempt_carries n) (openAttempt_quantity n) fun x hx => ?_
      obtain ⟨order', attempt⟩ := x
      have hq : order'.quantity = order.quantity := hx
      refine Steps.bind (hq ▸ trySubmit_carries) fun why => ?_
      cases why with
      | none => exact Steps.pure _
      | some why =>
          exact Steps.bind (recordFailover_carries why.code rest) fun _ => ih order' _ _ hq

theorem submitInline_carries (by_ : Actor) (chain : List RouteCandidate) :
    Calm (Req.carries order.quantity) (submitInline by_ order chain) :=
  Steps.bind (Steps.mark (carries_nil rfl)) fun _ => Steps.bind carries_execute fun _ =>
    submitChain_carries _ chain order 1 none rfl

end Submission

/-! ## Placing -/

section Placing

variable {r : PlaceRequest} {o : OrderId} {q : Rat} {s : Session} {w : World} {α β : Type}

/-- A stretch that submits nothing else, whatever comes of it. -/
theorem carries_then {t : Coro α} {f : α → Coro β} {Q : β → Session → World → Prop}
    (h : Calm (Req.carries q) t) (hs : s.Clean)
    (hk : ∀ a s' w', s'.Clean →
      Task.wp (guarded (Req.carries q) among) (f a) Q (fun _ _ _ => True) s' w') :
    Task.wp (guarded (Req.carries q) among) (t >>= f) Q (fun _ _ _ => True) s w := by
  rw [Task.wp_bind]
  exact Task.wp_guarded_mono (Task.wp_guarded_of_only (h s hs)) (fun a s' w' hs' => hk a s' w' hs')
    fun _ _ _ _ => trivial

/-- The row has quantity `q`, or it is an order that is not the request's own. -/
def InsertedRow (q : Rat) (x : Except Order Order) (s : Session) : Prop :=
  s.Clean ∧ ∀ order, x = .ok order → order.quantity = q

theorem insertHandler_row {order : Order} (e : Exn) :
    Task.wp (guarded (Req.carries q) among) (insertHandler order e)
      (fun x s' _ => InsertedRow q x s')
      (fun _ _ _ => True) s w := by
  cases e with
  | integrity =>
      unfold insertHandler
      rw [Task.wp_bind, wp_rollback]
      refine ⟨carries_nil rfl, fun x => ?_⟩
      generalize (among .rollback x w).1 = a
      cases a with
      | error e => exact trivial
      | ok _ =>
          rw [dbCases_ok]
          refine carries_then carries_execute Session.clean_new fun prior s' w' hs' => ?_
          cases prior with
          | none => exact trivial
          | some prior =>
              refine ⟨hs', ?_⟩
              intro _ h
              cases h
  | _ => exact trivial

theorem insertOrder_row (hq : Fits r.quantity → numeric8 r.quantity = q) (hs : s.Clean) :
    Task.wp (guarded (Req.carries q) among) (insertOrder (r.order o))
      (fun x s' _ => InsertedRow q x s')
      (fun _ _ _ => True) s w := by
  unfold insertOrder
  rw [Task.wp_catching, Task.wp_bind, wp_stage, Task.wp_bind, wp_commit]
  split
  · exact insertHandler_row _
  · next hb =>
      have hp : s.pending = [] := hs.pending hb
      have hpending : s.pending ++ [Write.addOrder (r.order o)] =
        [.addOrder (r.order o)] := by rw [hp]; rfl
      refine ⟨carries_commit fun v hv => ?_, fun x => ?_⟩
      · rw [hpending] at hv
        rw [List.mem_singleton.mp hv]
        exact carries_of_none rfl
      rw [among]
      generalize x.1.foldl (fun w d => d.run w) w = w1
      rcases commit_cases (s.pending ++ [.addOrder (r.order o)]) x.2 w1 with ⟨f, hf⟩ | ⟨d, hd, hf⟩
      · rw [hf]
        exact insertHandler_row _
      rw [hf, dbCases_ok, Task.wp_bind, wp_execute, if_neg hb]
      refine ⟨carries_nil rfl, fun y => ?_⟩
      rw [hpending] at hd
      have hfits : Fits (r.order o).quantity := fits_of_write hd
      have hinserted : d.HasQuantity (r.order o).id (numeric8 (r.order o).quantity) :=
        hasQuantity_insert hd
      rw [show numeric8 (r.order o).quantity = q from hq hfits] at hinserted
      have hquantity : (y.1.foldl (fun w (x : Doing) => x.run w) { w1 with db := d }).db.HasQuantity
          (r.order o).id q := hasQuantity_others hinserted
      rw [among]
      generalize y.1.foldl (fun w d => d.run w) { w1 with db := d } = w2 at hquantity ⊢
      rcases query_cases [] (.order (r.order o).id) y.2 w2 with ⟨f, hf'⟩ | hf'
      · rw [hf']
        exact insertHandler_row _
      rw [hf', dbCases_ok, Task.wp_bind]
      obtain ⟨row, hrow, hrowq⟩ := hquantity
      have hlookup : w2.db.orders.lookup (r.order o).id = some ⟨row, Table.get?_key hrow⟩ :=
        Table.lookup_eq_some.mpr hrow
      generalize hx : Query.eval _ _ _ (Query.order _) = found
      cases hx.symm.trans hlookup
      exact ⟨.inr (List.forall_mem_nil _), fun order heq => by cases heq; exact hrowq⟩

/-- What is asked on the way out. -/
theorem guarded_finally {t : Coro α} {last : Coro Unit}
    (hlast : ∀ s w, Task.wp (guarded (Req.carries q) among) last (fun _ _ _ => True)
      (fun _ _ _ => True) s w)
    (h : Task.wp (guarded (Req.carries q) among) t (fun _ _ _ => True) (fun _ _ _ => True) s w) :
    Task.wp (guarded (Req.carries q) among) (Task.finally' t last) (fun _ _ _ => True)
      (fun _ _ _ => True) s w := by
  rw [Task.wp_finally']
  exact Task.wp_guarded_mono h (fun _ s' w' _ => hlast s' w') fun _ s' w' _ => hlast s' w'

theorem placeNew_carries (hq : Fits r.quantity → numeric8 r.quantity = q) (hs : s.Clean) :
    Task.wp (guarded (Req.carries q) among) (placeNew o r)
      (fun _ _ _ => True) (fun _ _ _ => True) s w := by
  unfold placeNew
  rw [Task.wp_bind]
  refine Task.wp_guarded_mono (insertOrder_row hq hs) ?_ fun _ _ _ _ => trivial
  rintro (prior | order) s1 w1 ⟨hs1, hquantity⟩
  · exact trivial
  · have hrow := hquantity order rfl
    refine carries_then ((selectOrRaise_calm _).mono routing_carries) hs1
      fun decision s2 w2 hs2 => ?_
    refine carries_then (hrow ▸ submitInline_carries _ _) hs2 fun _ s3 w3 hs3 => ?_
    refine carries_then carries_execute hs3 fun row s4 w4 _ => ?_
    rcases row with _ | ⟨row, hrow⟩ <;> exact trivial

theorem place_carries (hq : Fits r.quantity → numeric8 r.quantity = q) :
    Task.wp (guarded (Req.carries q) among) (place r) (fun _ _ _ => True)
      (fun _ _ _ => True) {} w := by
  unfold place
  refine carries_then ((assertTradingAllowed_calm _).mono gating_carries) Session.clean_new
    fun _ s1 w1 hs1 => ?_
  refine carries_then carries_execute hs1 fun prior s2 w2 hs2 => ?_
  cases prior with
  | some prior => exact trivial
  | none =>
      have hmode : Calm (Req.carries q) executionMode :=
        Steps.bind carries_execute fun _ => Steps.pure _
      refine carries_then hmode hs2 fun mode s3 w3 hs3 => ?_
      split
      · exact trivial
      refine carries_then (Steps.newId (carries_nil rfl)) hs3 fun o s4 w4 hs4 => ?_
      have hacquire : Calm (Req.carries q) (acquireInflight o) :=
        Steps.bind (Steps.await (carries_nil rfl)) fun x => Steps.bind (Steps.ofAnswer x)
          fun _ => Steps.ite (Steps.pure _) (Steps.raise _)
      refine carries_then hacquire hs4 fun _ s5 w5 hs5 => ?_
      refine guarded_finally (fun _ _ => ⟨carries_nil rfl, fun _ => trivial⟩) ?_
      refine carries_then (Steps.await (carries_nil rfl)) hs5 fun _ s6 w6 hs6 => ?_
      exact guarded_finally (fun _ _ => ⟨carries_nil rfl, fun _ => trivial⟩)
        (placeNew_carries hq hs6)

end Placing

/-- What `place(r)` gives to the broker and to the events of its submissions, while others do
what they do. -/
def submittedBy (r : PlaceRequest) (env : Nat → List Doing × Env) (w : World) : List Rat :=
  ((place r {}).heard among env w).flatMap fun x => x.1.quantities

/-- What is submitted fits its column, and nothing but the rounded quantity is. -/
theorem submittedBy_rounds {r : PlaceRequest} {env : Nat → List Doing × Env} {w : World} {q : Rat}
    (hq : q ∈ submittedBy r env w) : Fits r.quantity ∧ q = numeric8 r.quantity := by
  obtain ⟨x, hx, hq⟩ := List.mem_flatMap.mp hq
  have hcarries : ∀ q', (Fits r.quantity → numeric8 r.quantity = q') → q = q' :=
    fun q' hq' => Prog.heard_of_guarded (place_carries hq') env x hx q hq
  refine ⟨by_contra fun hfits => ?_, hcarries _ fun _ => rfl⟩
  -- Without room in the column the call carries whatever one likes.
  have hzero := hcarries 0 fun h => absurd h hfits
  have hone := hcarries 1 fun h => absurd h hfits
  exact absurd (hzero.symm.trans hone) zero_ne_one

/-- What the column has no room for is not submitted, and what is submitted has the quantity
that was requested, and a positive one, exactly when that has at most eight places. -/
theorem submitted_quantity_iff (r : PlaceRequest) (hr : 0 < r.quantity)
    (env : Nat → List Doing × Env) (w : World) :
    (¬ Fits r.quantity → submittedBy r env w = []) ∧
      ∀ q ∈ submittedBy r env w, q = r.quantity ∧ 0 < q ↔ EightPlaces r.quantity := by
  refine ⟨fun hfits => List.eq_nil_iff_forall_not_mem.mpr fun q hq => ?_, fun q hq => ?_⟩
  · exact hfits (submittedBy_rounds hq).1
  · rw [(submittedBy_rounds hq).2, ← numeric8_eq_iff (le_of_lt hr)]
    exact ⟨fun h => h.1, fun h => ⟨h, by rw [h]; exact hr⟩⟩

/-- Nobody else does anything, and nothing fails. -/
def nobodyElse (_ : Nat) : List Doing × Env := ([], fine)

/-- One unit: the attempt's payload and the event of its submission have it. -/
theorem submitted_quantity_one :
    submittedBy buyOne nobodyElse oneBroker = [1, 1] ∧
      ∀ q ∈ submittedBy buyOne nobodyElse oneBroker, q = buyOne.quantity ∧ 0 < q := by
  refine ⟨by decide +kernel, fun q hq => ?_⟩
  exact ((submitted_quantity_iff buyOne (by decide +kernel) nobodyElse oneBroker).2 q hq).mpr
    ⟨10 ^ 8, by norm_num [buyOne]⟩

example : submittedBy { buyOne with quantity := 10 ^ 10 + 1 / 10 ^ 9 } nobodyElse oneBroker =
    [] := by
  decide +kernel

/-- A billionth of a unit. -/
def buyDust : PlaceRequest := { buyOne with quantity := 1 / 10 ^ 9 }

/-- An order for nothing is submitted. -/
theorem not_submitted_quantity_dust :
    0 < buyDust.quantity ∧
      ¬ ∀ q ∈ submittedBy buyDust nobodyElse oneBroker, q = buyDust.quantity ∧ 0 < q := by
  have hsubmitted : submittedBy buyDust nobodyElse oneBroker = [0, 0] := by decide +kernel
  refine ⟨by decide +kernel, fun h => ?_⟩
  have := h 0 (by rw [hsubmitted]; exact List.mem_cons_self)
  exact absurd this.2 (lt_irrefl 0)

end BrokerBridge
