import BrokerBridge.World.Handle
import Mathlib.Data.List.MinMax

/-!
# What an answer leaves alone

Only a commit changes the database, and it changes it by its own writes, so
what each of them leaves alone the commit does too. Only the two calls to a
broker change the broker's orders.
-/

namespace BrokerBridge

open Conc

/-! ## The database -/

theorem Db.write?_cons {now : Instant} {d d' : Db} {w : Write} {ws : List Write} :
    d.write? now (w :: ws) = some d' ↔
      w.conflicts d = false ∧ (w.apply now d).write? now ws = some d' := by
  simp only [Db.write?, List.foldlM_cons, Write.checked]
  cases w.conflicts d <;> simp

@[simp] theorem Db.write?_nil {now : Instant} {d : Db} : d.write? now [] = some d := rfl

/-- A commit of one write. -/
theorem Db.write?_singleton {now : Instant} {d d' : Db} {w : Write} :
    d.write? now [w] = some d' ↔ w.conflicts d = false ∧ d' = w.apply now d := by
  rw [Db.write?_cons, Db.write?_nil, Option.some_inj, eq_comm (a := d')]

theorem Db.write?_append {now : Instant} {d : Db} {ws ws' : List Write} :
    d.write? now (ws ++ ws') = (d.write? now ws).bind (Db.write? now · ws') :=
  List.foldlM_append

/-- What holds across each write that does not conflict holds across a commit. -/
theorem Db.write?_preserves {P : Db → Prop} {now : Instant} {ws : List Write}
    (h : ∀ w ∈ ws, ∀ d, w.conflicts d = false → P d → P (w.apply now d)) {d d' : Db}
    (hd : d.write? now ws = some d') (hP : P d) : P d' := by
  induction ws generalizing d with
  | nil =>
      cases hd
      exact hP
  | cons w ws ih =>
      obtain ⟨hc, hd⟩ := Db.write?_cons.mp hd
      exact ih (fun w' hw' => h w' (List.mem_cons_of_mem _ hw')) hd
        (h w List.mem_cons_self d hc hP)

/-- A view of the database that each write leaves alone. -/
theorem Db.write?_eq {β : Type*} {f : Db → β} {now : Instant} {ws : List Write}
    (h : ∀ w ∈ ws, ∀ d, f (w.apply now d) = f d) {d d' : Db}
    (hd : d.write? now ws = some d') : f d' = f d :=
  Db.write?_preserves (P := fun x => f x = f d)
    (fun w hw x _ hx => (h w hw x).trans hx) hd rfl

theorem Write.overflows_of_conflicts {d : Db} {w : Write} (h : w.conflicts d = false) :
    w.overflows = false := by
  cases w with
  | addOrder r => exact (Bool.or_eq_false_iff.mp (Bool.or_eq_false_iff.mp h).1).1
  | _ => rfl

/-- An order goes in where neither its id nor its key is in use. -/
theorem Write.addOrder_conflicts {d : Db} {r : Order} (h : (addOrder r).conflicts d = false) :
    d.orders.get? r.id = none ∧ (d.orders.rows.any fun r' =>
      r'.clientId == r.clientId && r'.clientOrderId == r.clientOrderId) = false := by
  obtain ⟨hid, hkey⟩ := Bool.or_eq_false_iff.mp h
  have hfree := (Bool.or_eq_false_iff.mp hid).2
  rw [Option.isSome_eq_false_iff, Option.isNone_iff_eq_none] at hfree
  exact ⟨hfree, hkey⟩

/-- What is written has room in its column. -/
theorem Db.overflows_of_write? {now : Instant} {ws : List Write} {d d' : Db}
    (hd : d.write? now ws = some d') : ws.any Write.overflows = false := by
  induction ws generalizing d with
  | nil => rfl
  | cons w ws ih =>
      obtain ⟨hc, hd⟩ := Db.write?_cons.mp hd
      rw [List.any_cons, Write.overflows_of_conflicts hc, ih hd]
      rfl

/-- One write too many, and one that has room in its column: a constraint refuses it. -/
theorem refusal_concat {now : Instant} {ws : List Write} {d d' : Db} {w : Write}
    (hd : d.write? now ws = some d') (hw : w.overflows = false) :
    refusal (ws ++ [w]) = .integrity := by
  rw [refusal, List.any_append, Db.overflows_of_write? hd, List.any_cons, hw]
  rfl

/-- With nothing pending a session sees the committed rows. -/
@[simp] theorem Db.view_nil {now : Instant} {d : Db} : d.view now [] = d := rfl

/-! ## Answers -/

section Answer

variable {α : Type} {e : Env} {documented : Exn} {w w' : World} {x : α}

theorem Env.answer_of_fault {f : Fault} (h : e.fault = some f) :
    e.answer documented w x w' = (.error (f.exn documented), w) := by
  simp only [Env.answer, h]

theorem Env.answer_of_fine (h : e.fault = none) : e.answer documented w x w' = (.ok x, w') := by
  simp only [Env.answer, h]

/-- An answer either fails and changes nothing, or it succeeds. -/
theorem Env.answer_cases (e : Env) (documented : Exn) (w : World) (x : α) (w' : World) :
    (∃ f, e.answer documented w x w' = (.error f, w)) ∨
    e.answer documented w x w' = (.ok x, w') := by
  unfold Env.answer
  split
  · exact .inl ⟨_, rfl⟩
  · exact .inr rfl

/-- An answer given from the world as it is leaves alone what its success does. -/
theorem Env.answer_keeps {β : Type} (f : World → β) (h : f w' = f w) :
    f (e.answer documented w x w').2 = f w := by
  rcases Env.answer_cases e documented w x w' with ⟨_, heq⟩ | heq
  · rw [heq]
  · rw [heq]
    exact h

end Answer

/-- A commit fails and changes nothing, or it does its writes. -/
theorem commit_cases (ws : List Write) (e : Env) (w : World) :
    (∃ f, handle (.commit ws) e w = (.error f, w)) ∨
    ∃ d, w.db.write? w.clock ws = some d ∧
      handle (.commit ws) e w = (.ok (), { w with db := d }) := by
  simp only [handle]
  cases hd : w.db.write? w.clock ws with
  | none => exact .inl ⟨_, rfl⟩
  | some d =>
      refine (Env.answer_cases e dbError w () { w with db := d }).imp id fun h => ?_
      exact ⟨d, rfl, h⟩

/-- A query changes nothing, and answers what the session sees. -/
theorem query_cases (ws : List Write) (q : Query) (e : Env) (w : World) :
    (∃ f, handle (.query ws q) e w = (.error f, w)) ∨
    handle (.query ws q) e w = (.ok (q.eval e w.clock (w.db.view w.clock ws)), w) :=
  Env.answer_cases e dbError w _ w

/-- The broker refuses and nothing changes, or it has a new order. -/
theorem placeOrder_cases (o : OrderId) (p : OrderPayload) (e : Env) (w : World) :
    (∃ f, handle (.placeOrder o p) e w = (.error f, w)) ∨
    handle (.placeOrder o p) e w = (.ok w.freshId, { w with
      brokerOrders := ⟨w.freshId, o, p, false⟩ :: w.brokerOrders
      nextId := w.freshId + 1 }) := by
  simp only [handle]
  cases e.reply with
  | accepted => exact .inr rfl
  | rejected => exact .inl ⟨_, rfl⟩
  | raised => exact .inl ⟨_, rfl⟩

/-- The broker's orders with `bo` cancelled. -/
def cancelled (bo : BrokerOrderId) (bs : List BrokerOrder) : List BrokerOrder :=
  bs.map fun b => if b.id = bo then { b with cancelled := true } else b

theorem cancelOrder_cases (o : OrderId) (bo : BrokerOrderId) (e : Env) (w : World) :
    (∃ f, handle (.cancelOrder o bo) e w = (.error f, w)) ∨
    handle (.cancelOrder o bo) e w =
      (.ok (), { w with brokerOrders := cancelled bo w.brokerOrders }) := by
  simp only [handle]
  cases e.reply with
  | accepted => exact .inr rfl
  | rejected => exact .inl ⟨_, rfl⟩
  | raised => exact .inl ⟨_, rfl⟩

/-- The database and the broker's orders: what invariants are about. -/
def World.records (w : World) : Db × List BrokerOrder := (w.db, w.brokerOrders)

theorem Env.answer_records {α : Type} (e : Env) (documented : Exn) {w w' : World} (x : α)
    (h : w'.records = w.records) : (e.answer documented w x w').2.records = w.records :=
  Env.answer_keeps World.records h

theorem InfraCall.eval_records (c : InfraCall) (e : Env) (w : World) :
    (c.eval e w).2.records = w.records := by
  cases c with
  | attachIp =>
      simp only [InfraCall.eval]
      split <;> rfl
  | destroyInstance =>
      simp only [InfraCall.eval]
      split <;> rfl
  | setAutoRenew =>
      simp only [InfraCall.eval]
      split <;> rfl
  | _ => rfl

/-- A request that may change them. -/
def Req.recording : Req → Prop
  | .commit _ | .placeOrder _ _ | .cancelOrder _ _ => True
  | _ => False

theorem handle_records {r : Req} (h : ¬ r.recording) (e : Env) (w : World) :
    (handle r e w).2.records = w.records := by
  cases r with
  | commit | placeOrder | cancelOrder => exact absurd trivial h
  | flush ws =>
      simp only [handle]
      split
      · rfl
      · exact Env.answer_records e _ _ rfl
  | acquire k ttl t =>
      simp only [handle]
      split <;> exact Env.answer_records e _ _ rfl
  | release k t =>
      refine Env.answer_records e _ _ ?_
      split <;> rfl
  | semAcquire n =>
      simp only [handle]
      split <;> exact Env.answer_records e _ _ rfl
  | infra c => exact Env.answer_records e _ _ (c.eval_records e w)
  | query | rollback | rateCheck | rateConsume => exact Env.answer_records e _ _ rfl
  | cacheSession | authenticate | refreshSession => exact Env.answer_records e _ _ rfl
  | fetchWhitelist | sleep => exact Env.answer_records e _ _ rfl
  | _ => rfl

theorem handle_quiet {r : Req} (h : ¬ r.recording) (e : Env) (w : World) :
    (handle r e w).2.db = w.db ∧ (handle r e w).2.brokerOrders = w.brokerOrders :=
  Prod.mk.inj (handle_records h e w)

/-- Every request but a commit leaves the database alone. -/
theorem handle_db {r : Req} (h : ∀ ws, r ≠ .commit ws) (e : Env) (w : World) :
    (handle r e w).2.db = w.db := by
  cases r with
  | commit ws => exact absurd rfl (h ws)
  | placeOrder o p =>
      rcases placeOrder_cases o p e w with ⟨f, hf⟩ | hf <;> rw [hf]
  | cancelOrder o bo =>
      rcases cancelOrder_cases o bo e w with ⟨f, hf⟩ | hf <;> rw [hf]
  | _ => exact (handle_quiet id e w).1

/-! ## The clock -/

theorem InfraCall.eval_clock (c : InfraCall) (e : Env) (w : World) :
    (c.eval e w).2.clock = w.clock := by
  cases c with
  | attachIp =>
      simp only [InfraCall.eval]
      split <;> rfl
  | destroyInstance =>
      simp only [InfraCall.eval]
      split <;> rfl
  | setAutoRenew =>
      simp only [InfraCall.eval]
      split <;> rfl
  | _ => rfl

/-- No request takes time; time passes between them. -/
theorem handle_clock (r : Req) (e : Env) (w : World) : (handle r e w).2.clock = w.clock := by
  have hkeeps : ∀ {α : Type} (documented : Exn) {w' : World} (x : α), w'.clock = w.clock →
      (e.answer documented w x w').2.clock = w.clock := fun _ _ _ => Env.answer_keeps World.clock
  cases r with
  | acquire k ttl t =>
      simp only [handle]
      split <;> exact hkeeps _ _ rfl
  | release k t =>
      refine hkeeps _ _ ?_
      split <;> rfl
  | commit ws =>
      rcases commit_cases ws e w with ⟨f, hf⟩ | ⟨d, _, hf⟩ <;> rw [hf]
  | flush ws =>
      simp only [handle]
      split
      · rfl
      · exact hkeeps _ _ rfl
  | semAcquire n =>
      simp only [handle]
      split <;> exact hkeeps _ _ rfl
  | placeOrder o p =>
      rcases placeOrder_cases o p e w with ⟨f, hf⟩ | hf <;> rw [hf]
  | cancelOrder o bo =>
      rcases cancelOrder_cases o bo e w with ⟨f, hf⟩ | hf <;> rw [hf]
  | infra c => exact hkeeps _ _ (c.eval_clock e w)
  | query | rollback | rateCheck | rateConsume => exact hkeeps _ _ rfl
  | cacheSession | authenticate | refreshSession => exact hkeeps _ _ rfl
  | fetchWhitelist | sleep => exact hkeeps _ _ rfl
  | _ => rfl

/-! ## New ids -/

theorem lt_freshId {w : World} {i : Nat} (h : i ∈ w.ids) : i < w.freshId := by
  have hle : i ≤ w.ids.foldr max 0 := List.le_max_of_le h (Nat.le_refl i)
  have hmax : w.ids.foldr max 0 + 1 ≤ w.freshId := Nat.le_max_right _ _
  omega

theorem get?_none_of_fresh {α : Type} [Row α] {t : Table α} {i : Nat}
    (h : ∀ a ∈ t.rows, Row.key a ≠ i) : t.get? i = none := by
  rw [Table.get?_eq_none, List.mem_map]
  rintro ⟨a, ha, hk⟩
  exact h a ha hk

/-- Everything that has an id in a table is among the ids. -/
theorem mem_ids_of_db {w : World} {i : Nat} (h : i ∈ w.db.ids) : i ∈ w.ids := by
  simp only [World.ids, List.mem_append, h, true_or]

end BrokerBridge
