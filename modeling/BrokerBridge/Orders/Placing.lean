import BrokerBridge.Orders.Once
import BrokerBridge.World.Locks

/-!
# Placing an order more than once

However many calls place an order under one key, one row gets it: the key is unique in
the table, and a call whose insertion runs into that reads the row that is there. The
call whose insertion goes through is the one that drew the id of the row, and it alone
goes on to routing and submission.
-/

namespace BrokerBridge

open Conc

/-! ## Orders by their key -/

/-- The order has this key. -/
def Db.HasKey (d : Db) (c : ClientId) (key : String) (x : OrderId) : Prop :=
  ∃ r, d.orders.get? x = some r ∧ r.clientId = c ∧ r.clientOrderId = key

/-- No two orders have it. -/
def Db.KeyUnique (d : Db) (c : ClientId) (key : String) : Prop :=
  ∀ x y, d.HasKey c key x → d.HasKey c key y → x = y

section Keys

variable {now : Instant} {d d' : Db} {c : ClientId} {key : String} {x : OrderId} {w : Write}

/-- The key of an order is none of its fields that are set. -/
theorem OrderField.set_key (f : OrderField) (r : Order) :
    (f.set r).clientId = r.clientId ∧ (f.set r).clientOrderId = r.clientOrderId := by
  cases f <;> exact ⟨rfl, rfl⟩

theorem hasKey_update {t : Table Order} {y : OrderId} {f : OrderField} :
    (∃ r, (t.update y f).get? x = some r ∧ r.clientId = c ∧ r.clientOrderId = key) ↔
      ∃ r, t.get? x = some r ∧ r.clientId = c ∧ r.clientOrderId = key := by
  rw [Table.get?_update]
  split
  · next heq =>
      subst heq
      constructor
      · rintro ⟨r, hr, hc, hkey⟩
        obtain ⟨r', hr', rfl⟩ := Option.map_eq_some_iff.mp hr
        obtain ⟨h1, h2⟩ := f.set_key r'
        exact ⟨r', hr', h1.symm.trans hc, h2.symm.trans hkey⟩
      · rintro ⟨r, hr, hc, hkey⟩
        obtain ⟨h1, h2⟩ := f.set_key r
        exact ⟨_, Option.map_eq_some_iff.mpr ⟨r, hr, rfl⟩, h1.trans hc, h2.trans hkey⟩
  · exact Iff.rfl

/-- Only an insertion gives an order a key. -/
theorem hasKey_apply (hw : ∀ r, w ≠ .addOrder r) :
    (w.apply now d).HasKey c key x ↔ d.HasKey c key x := by
  cases w with
  | addOrder r => exact absurd rfl (hw r)
  | setOrder o f => exact hasKey_update.trans hasKey_update
  | setAttempt o i f =>
      simp only [Write.apply]
      split <;> exact Iff.rfl
  | _ => exact Iff.rfl

theorem hasKey_kept (h : d.HasKey c key x) : (w.apply now d).HasKey c key x := by
  by_cases hw : ∃ r, w = .addOrder r
  · obtain ⟨r, rfl⟩ := hw
    obtain ⟨r', hr', hkey⟩ := h
    exact ⟨r', Table.get?_insert_of_some hr', hkey⟩
  · exact (hasKey_apply fun r heq => hw ⟨r, heq⟩).mpr h

/-- What an insertion that meets no conflict does. -/
theorem hasKey_insert {r : Order} (hfree : (Write.addOrder r).conflicts d = false) :
    ((Write.addOrder r).apply now d).HasKey c key x ↔
      d.HasKey c key x ∨ x = r.id ∧ r.clientId = c ∧ r.clientOrderId = key := by
  obtain ⟨hnone, -⟩ := Write.addOrder_conflicts hfree
  by_cases hx : x = r.id
  · subst hx
    have hget : (d.orders.insert (r.stored now)).get? r.id = some (r.stored now) :=
      Table.get?_insert_self hnone
    constructor
    · rintro ⟨r', hr', hc, hkey⟩
      cases hget.symm.trans hr'
      exact .inr ⟨rfl, hc, hkey⟩
    · rintro (⟨r', hr', _⟩ | ⟨_, hc, hkey⟩)
      · cases hnone.symm.trans hr'
      · exact ⟨r.stored now, hget, hc, hkey⟩
  · have hget : (d.orders.insert (r.stored now)).get? x = d.orders.get? x :=
      Table.get?_insert_of_ne hx
    constructor
    · rintro ⟨r', hr', hkey⟩
      exact .inl ⟨r', hget.symm.trans hr', hkey⟩
    · rintro (⟨r', hr', hkey⟩ | ⟨heq, _⟩)
      · exact ⟨r', hget.trans hr', hkey⟩
      · exact absurd heq hx

/-- The constraint keeps the key unique. -/
theorem keyUnique_apply (hfree : w.conflicts d = false) (h : d.KeyUnique c key) :
    (w.apply now d).KeyUnique c key := by
  by_cases hw : ∃ r, w = .addOrder r
  · obtain ⟨r, rfl⟩ := hw
    -- The row is new under its key, so no order that was there has it.
    have hnew : ∀ y, d.HasKey c key y → ¬ (r.clientId = c ∧ r.clientOrderId = key) := by
      rintro y ⟨r', hr', hc', hkey'⟩ ⟨hc, hkey⟩
      have hany := (Bool.or_eq_false_iff.mp hfree).2
      have := List.any_eq_false.mp hany r' (Table.get?_eq_some.mp hr').1
      simp [hc, hkey, hc', hkey'] at this
    intro y z hy hz
    rcases (hasKey_insert hfree).mp hy with hold | ⟨rfl, hkey⟩ <;>
      rcases (hasKey_insert hfree).mp hz with hold' | ⟨rfl, hkey'⟩
    · exact h y z hold hold'
    · exact absurd hkey' (hnew y hold)
    · exact absurd hkey (hnew z hold')
    · rfl
  · have hkept : ∀ x, (w.apply now d).HasKey c key x ↔ d.HasKey c key x :=
      fun x => hasKey_apply fun r heq => hw ⟨r, heq⟩
    exact fun y z hy hz => h y z ((hkept y).mp hy) ((hkept z).mp hz)

theorem hasKey_write {ws : List Write} (hd : d.write? now ws = some d')
    (h : d.HasKey c key x) : d'.HasKey c key x :=
  Db.write?_preserves (P := fun d => d.HasKey c key x) (fun _ _ _ _ => hasKey_kept) hd h

theorem keyUnique_write {ws : List Write} (hd : d.write? now ws = some d')
    (h : d.KeyUnique c key) : d'.KeyUnique c key :=
  Db.write?_preserves (P := fun d => d.KeyUnique c key) (fun _ _ _ => keyUnique_apply) hd h

/-- The order of a commit that inserts one. -/
theorem hasKey_inserted {r : Order} (hd : d.write? now [.addOrder r] = some d') :
    d'.HasKey r.clientId r.clientOrderId r.id := by
  obtain ⟨hfree, rfl⟩ := Db.write?_singleton.mp hd
  exact (hasKey_insert hfree).mpr (.inr ⟨rfl, rfl, rfl⟩)

theorem hasKey_step {h : Past World Req} (hx : h.1.db.HasKey c key x) (r : Req) (e : Env) :
    (handle r e h.1).2.db.HasKey c key x := by
  by_cases hcommit : ∃ ws, r = .commit ws
  · obtain ⟨ws, rfl⟩ := hcommit
    rcases commit_cases ws e h.1 with ⟨f, hf⟩ | ⟨d, hd, hf⟩
    · rw [hf]
      exact hx
    · rw [hf]
      exact hasKey_write hd hx
  · rw [handle_db fun ws heq => hcommit ⟨ws, heq⟩]
    exact hx

theorem keyUnique_step {h : Past World Req} (hx : h.1.db.KeyUnique c key) (r : Req) (e : Env) :
    (handle r e h.1).2.db.KeyUnique c key := by
  by_cases hcommit : ∃ ws, r = .commit ws
  · obtain ⟨ws, rfl⟩ := hcommit
    rcases commit_cases ws e h.1 with ⟨f, hf⟩ | ⟨d, hd, hf⟩
    · rw [hf]
      exact hx
    · rw [hf]
      exact keyUnique_write hd hx
  · rw [handle_db fun ws heq => hcommit ⟨ws, heq⟩]
    exact hx

end Keys

/-! ## Where a call is -/

inductive Placement where
  | out
  /-- the id of the new row is drawn -/
  | drawn (o : OrderId)
  /-- the row is inserted -/
  | inserted (o : OrderId)
  /-- it has been read back; routing and submission follow -/
  | through (o : OrderId)
  /-- the order that has the key is found -/
  | found (o : OrderId)

/-- A request that `place` makes only past its insertion: the first is the read of the
new row, then come routing and submission. -/
def Req.pastInsertion : Req → Prop
  | .query _ q => match q with
      | .order _ | .enabledBrokers _ | .latestHealth | .activeAssignment _ => True
      | _ => False
  | .rateCheck _ _ | .rateConsume _ _ | .placeOrder _ _ => True
  | .mark (.submitInline _ _ _) => True
  | _ => False

/-- A request that inserts no order. -/
def Req.insertsNone : Req → Prop
  | .commit ws => ∀ row, Write.addOrder row ∉ ws
  | _ => True

/-- A request that is neither of these, and moves no phase. -/
def Req.aside (r : Req) : Prop :=
  r.insertsNone ∧ ¬ r.pastInsertion ∧ r ≠ .newId ∧ ∀ ws c key, r ≠ .query ws (.orderWithKey c key)

/-- The commit of a new row under the key. -/
def Inserts (c : ClientId) (key : String) (o : OrderId) (ws : List Write) : Prop :=
  ∃ row : Order, ws = [.addOrder row] ∧ row.id = o ∧ row.clientId = c ∧ row.clientOrderId = key

def Placement.permits (c : ClientId) (key : String) : Placement → Req → Prop
  | .drawn o, .commit ws => Inserts c key o ws ∨ ∀ row, Write.addOrder row ∉ ws
  | .inserted _, .query _ (.order _) => True
  | .through _, r => r.insertsNone
  | _, r => r.insertsNone ∧ ¬ r.pastInsertion

def placement (c : ClientId) (key : String) : Protocol Req Req.Ans Placement where
  allows ph r := ph.permits c key r
  advance
    | .out, .newId, x => .drawn x
    | .drawn o, .commit ws, .ok _ => if (insertion? ws).isSome then .inserted o else .drawn o
    | .inserted o, .query _ (.order _), .ok _ => .through o
    | .out, .query [] (.orderWithKey c' key'), .ok (some row) =>
        if c' = c ∧ key' = key then .found row.id else .out
    | .drawn o, .query [] (.orderWithKey c' key'), .ok (some row) =>
        if c' = c ∧ key' = key then .found row.id else .drawn o
    | .inserted o, .query [] (.orderWithKey c' key'), .ok (some row) =>
        if c' = c ∧ key' = key then .found row.id else .inserted o
    | ph, _, _ => ph

/-- How a call ends: with the order it has inserted, or with the one it has found. -/
def Placement.ends : Except Exn Reply → Placement → Prop
  | .ok (.placed order true), ph => ph = .through order.id
  | .ok (.placed order false), ph => ph = .found order.id
  | _, _ => True

section Follow

variable {c : ClientId} {key : String} {ph : Placement} {r : Req} {s : Session}

theorem permits_aside (h : r.aside) : ph.permits c key r := by
  obtain ⟨hins, hpast, _, _⟩ := h
  cases ph with
  | drawn o =>
      cases r with
      | commit ws => exact .inr hins
      | _ => exact ⟨hins, hpast⟩
  | inserted o =>
      cases r with
      | query ws q =>
          cases q with
          | order o' => trivial
          | _ => exact ⟨hins, hpast⟩
      | _ => exact ⟨hins, hpast⟩
  | through o => exact hins
  | _ => exact ⟨hins, hpast⟩

theorem advance_aside (h : r.aside) (x : r.Ans) : (placement c key).advance ph r x = ph := by
  obtain ⟨hins, hpast, hid, hkey⟩ := h
  unfold placement
  simp only
  split
  · exact absurd rfl hid
  · exact if_neg (by rw [insertion?_eq_none hins]; exact Bool.false_ne_true)
  · exact absurd trivial hpast
  · exact absurd rfl (hkey _ _ _)
  · exact absurd rfl (hkey _ _ _)
  · exact absurd rfl (hkey _ _ _)
  · rfl

/-- A stretch that is aside. -/
theorem aside_then {α β : Type} {t : Coro α} {f : α → Coro β} {Q : β → Session → Placement → Prop}
    (h : Calm Req.aside t) (hs : s.Clean)
    (hk : ∀ a s', s'.Clean → Task.wp (placement c key).step (f a) Q (fun _ _ _ => True) s' ph) :
    Task.wp (placement c key).step (t >>= f) Q (fun _ _ _ => True) s ph := by
  rw [Task.wp_bind]
  refine Task.wp_quiet (fun r hr => ⟨permits_aside hr, advance_aside hr⟩) ?_
  exact Task.wp_only_mono (fun _ => id) (h s hs) hk fun _ _ _ => trivial

theorem gating_aside {c' : ClientId} (r : Req) (h : r.gating c') : r.aside := by
  cases r with
  | query ws q =>
      obtain ⟨_, hq⟩ := h
      cases q with
      | client | subscriptionsOf => exact ⟨trivial, id, nofun, nofun⟩
      | _ => exact hq.elim
  | commit ws =>
      refine ⟨fun row hrow => ?_, id, nofun, nofun⟩
      exact nomatch h _ hrow
  | _ => exact h.elim

theorem config_aside : Calm Req.aside executionMode :=
  Steps.bind (Steps.execute fun _ _ => ⟨trivial, id, nofun, nofun⟩) fun _ => Steps.pure _

theorem acquireInflight_aside (o : OrderId) : Calm Req.aside (acquireInflight o) :=
  Steps.bind (Steps.await ⟨trivial, id, nofun, nofun⟩) fun x => Steps.bind (Steps.ofAnswer x)
    fun _ => Steps.ite (Steps.pure _) (Steps.raise _)

/-- Past the read of the new row nothing moves the call. -/
theorem through_then {α β : Type} {o : OrderId} {t : Coro α} {f : α → Coro β}
    {Q : β → Session → Placement → Prop} (h : Calm Req.insertsNone t) (hs : s.Clean)
    (hk : ∀ a s', s'.Clean →
      Task.wp (placement c key).step (f a) Q (fun _ _ _ => True) s' (.through o)) :
    Task.wp (placement c key).step (t >>= f) Q (fun _ _ _ => True) s (.through o) := by
  rw [Task.wp_bind]
  refine Task.wp_quiet (N := Req.insertsNone) (fun r hr => ⟨hr, fun x => rfl⟩) ?_
  exact Task.wp_only_mono (fun _ => id) (h s hs) hk fun _ _ _ => trivial

theorem routing_insertsNone (r : Req) (h : r.routing) : r.insertsNone := by
  cases r <;> trivial

theorem submits_insertsNone {o : OrderId} (r : Req) (h : r.submits o) : r.insertsNone := by
  rcases h with h | ⟨payload, rfl⟩
  · cases r with
    | commit ws => exact fun row hrow => h _ hrow
    | _ => trivial
  · trivial

/-- The order under the key, selected. -/
theorem wp_orderWithKey {o : OrderId} (hs : s.Clean)
    (hph : ph = .out ∨ ph = .drawn o ∨ ph = .inserted o)
    {Q : Option Order → Session → Placement → Prop}
    (hnone : Q none s ph) (hsome : ∀ prior : Order, Q (some prior) s (.found prior.id)) :
    Task.wp (placement c key).step (execute (.orderWithKey c key)) Q (fun _ _ _ => True) s ph := by
  rw [wp_execute]
  split
  · exact trivial
  · next hb =>
      have hp : s.pending = [] := hs.pending hb
      rw [hp]
      refine ⟨?_, fun x => ?_⟩
      · rcases hph with rfl | rfl | rfl <;> exact ⟨trivial, id⟩
      cases x with
      | error e => exact trivial
      | ok prior =>
          cases prior with
          | none => rcases hph with rfl | rfl | rfl <;> exact hnone
          | some prior =>
              have hfound : (placement c key).advance ph (.query [] (.orderWithKey c key))
                  (.ok (some prior)) = .found prior.id := by
                rcases hph with rfl | rfl | rfl <;> exact if_pos ⟨rfl, rfl⟩
              rw [hfound]
              exact hsome prior

/-- What an insertion comes to. -/
def InsertedOr (x : Except Order Order) (s : Session) (ph : Placement) : Prop :=
  s.Clean ∧ match x with
    | .ok order => ph = .through order.id
    | .error prior => ph = .found prior.id

theorem insertHandler_places {order : Order} {o : OrderId} (e : Exn)
    (hph : ph = .drawn o ∨ ph = .inserted o) :
    Task.wp (placement order.clientId order.clientOrderId).step (insertHandler order e)
      InsertedOr (fun _ _ _ => True) s ph := by
  cases e with
  | integrity =>
      unfold insertHandler
      rw [Task.wp_bind, wp_rollback]
      have haside : Req.rollback.aside := ⟨trivial, id, nofun, nofun⟩
      refine ⟨permits_aside haside, fun x => ?_⟩
      rw [advance_aside haside]
      cases x with
      | error e => exact trivial
      | ok _ =>
          rw [dbCases_ok, Task.wp_bind]
          refine wp_orderWithKey Session.clean_new (.inr hph) ?_ ?_
          · exact trivial
          · exact fun prior => ⟨Session.clean_new, rfl⟩
  | _ => exact trivial

theorem insertOrder_places {order : Order} (hs : s.Clean) :
    Task.wp (placement order.clientId order.clientOrderId).step (insertOrder order)
      InsertedOr (fun _ _ _ => True) s (.drawn order.id) := by
  unfold insertOrder
  rw [Task.wp_catching, Task.wp_bind, wp_stage, Task.wp_bind, wp_commit]
  split
  · exact insertHandler_places _ (.inl rfl)
  · next hb =>
      have hp : s.pending = [] := hs.pending hb
      refine ⟨.inl ⟨order, by simp [hp], rfl, rfl, rfl⟩, fun x => ?_⟩
      cases x with
      | error e => exact insertHandler_places _ (.inl rfl)
      | ok _ =>
          have hadv : (placement order.clientId order.clientOrderId).advance (.drawn order.id)
              (.commit (s.pending ++ [.addOrder order])) (.ok ()) = .inserted order.id := by
            rw [hp]
            rfl
          rw [hadv, dbCases_ok, Task.wp_bind, wp_execute, if_neg hb]
          refine ⟨trivial, fun row => ?_⟩
          cases row with
          | error e => exact insertHandler_places e (.inr rfl)
          | ok row =>
              rcases row with _ | ⟨row, hrow⟩
              · exact trivial
              · refine ⟨.inr (List.forall_mem_nil _), ?_⟩
                show Placement.through order.id = .through row.id
                rw [hrow]

theorem placeNew_places (r : PlaceRequest) (o : OrderId) (hs : s.Clean) :
    Task.wp (placement r.clientId r.clientOrderId).step (placeNew o r)
      (fun x _ ph => ph.ends (.ok (.placed x.1 x.2))) (fun _ _ _ => True) s (.drawn o) := by
  unfold placeNew
  rw [Task.wp_bind]
  have hinsert := @insertOrder_places s (r.order o) hs
  refine Task.wp_step_mono hinsert ?_ fun _ _ _ => id
  rintro (prior | order) s1 ph1 ⟨hs1, hph1⟩
  · exact hph1
  have hph1 : ph1 = .through order.id := hph1
  subst hph1
  refine through_then ((selectOrRaise_calm _).mono routing_insertsNone) hs1
    fun decision s2 hs2 => ?_
  refine through_then ((submitInline_calm _ _ (submits_submitting _) _).mono submits_insertsNone)
    hs2 fun _ s3 hs3 => ?_
  refine through_then (Steps.execute fun _ _ => trivial) hs3 fun row s4 hs4 => ?_
  rcases row with _ | ⟨row, hrow⟩
  · exact trivial
  · show Placement.through order.id = .through row.id
    rw [hrow]

/-- What is asked on the way out moves nothing. -/
theorem finally_places {α : Type} {t : Coro α} {last : Coro Unit} {F : α → Placement → Prop}
    (hl : ∀ s, Task.wp (only Req.aside) last (fun _ _ => True) (fun _ _ => True) s)
    (ht : Task.wp (placement c key).step t (fun a _ => F a) (fun _ _ _ => True) s ph) :
    Task.wp (placement c key).step (Task.finally' t last) (fun a _ => F a) (fun _ _ _ => True)
      s ph := by
  rw [Task.wp_finally']
  refine Task.wp_step_mono ht (fun a s' ph' hF => ?_) fun e s' ph' _ => ?_
  · refine Task.wp_quiet (fun r hr => ⟨permits_aside hr, advance_aside hr⟩) ?_
    exact Task.wp_only_mono (fun _ => id) (hl s') (fun _ _ _ => hF) fun _ _ _ => trivial
  · refine Task.wp_quiet (fun r hr => ⟨permits_aside hr, advance_aside hr⟩) ?_
    exact Task.wp_only_mono (fun _ => id) (hl s') (fun _ _ _ => trivial) fun _ _ _ => trivial

theorem place_places (r : PlaceRequest) :
    Task.wp (placement r.clientId r.clientOrderId).step (place r)
      (fun x _ ph => ph.ends (.ok (.placed x.1 x.2))) (fun _ _ _ => True) {} .out := by
  unfold place
  refine aside_then ((assertTradingAllowed_calm _).mono gating_aside) Session.clean_new
    fun _ s1 hs1 => ?_
  rw [Task.wp_bind]
  refine wp_orderWithKey (o := 0) hs1 (.inl rfl) ?_ fun prior => rfl
  refine aside_then config_aside hs1 fun mode s2 hs2 => ?_
  rw [Task.wp_ite]
  split
  · exact trivial
  rw [Task.wp_bind, wp_newId]
  refine ⟨⟨trivial, id⟩, fun o => ?_⟩
  refine aside_then (acquireInflight_aside o) hs2 fun _ s3 hs3 => ?_
  have hrelease : ∀ s, Task.wp (only Req.aside) (await (.semRelease o)) (fun _ _ => True)
      (fun _ _ => True) s := fun _ => ⟨⟨trivial, id, nofun, nofun⟩, fun _ => trivial⟩
  have hdown : ∀ s, Task.wp (only Req.aside) (await .inflightDown) (fun _ _ => True)
      (fun _ _ => True) s := fun _ => ⟨⟨trivial, id, nofun, nofun⟩, fun _ => trivial⟩
  refine finally_places (F := fun (x : Order × Bool) ph => ph.ends (.ok (.placed x.1 x.2)))
    hrelease ?_
  refine aside_then (Steps.await ⟨trivial, id, nofun, nofun⟩) hs3 fun _ s4 hs4 => ?_
  exact finally_places hdown (placeNew_places r o hs4)

/-- A call of `place` follows the protocol of its key. -/
theorem programOf_places (settings : Settings) (r : PlaceRequest) :
    (programOf settings (.place r)).Follows (placement r.clientId r.clientOrderId)
      (fun x ph => ph.ends x) .out :=
  Coro.program_ends (place_places r) (fun _ _ _ => id) fun _ _ _ _ => trivial

end Follow

/-! ## The runs -/

/-- Only orders under one key are placed. -/
def Places (c : ClientId) (key : String) (_ : Pools) : Happening → Prop
  | .start (.place r) => r.clientId = c ∧ r.clientOrderId = key
  | .start _ => False
  | _ => True

/-- The call has gone past its insertion, towards routing and submission. -/
def Entered (i : Nat) (tr : List (Nat × Req × World)) : Prop :=
  ∃ r w, (i, r, w) ∈ tr ∧ r.pastInsertion

/-- The call has drawn the id of the order that has the key. -/
def Owns (c : ClientId) (key : String) (i : Nat) (o : OrderId) (h : Past World Req) : Prop :=
  Drew i o h.2 ∧ h.1.db.HasKey c key o

/-- What holds where a call is. -/
def Placement.At (c : ClientId) (key : String) (i : Nat) : Placement → Past World Req → Prop
  | .out, _ => True
  | .drawn o, h => Drew i o h.2
  | .inserted o, h | .through o, h => Owns c key i o h
  | .found o, h => h.1.db.HasKey c key o

/-- The key is unique, and who has gone past the insertion has inserted the order. -/
structure Single (c : ClientId) (key : String) (h : Past World Req) : Prop where
  apart : TokensApart h
  unique : h.1.db.KeyUnique c key
  entered : ∀ i, Entered i h.2 → ∃ o, Owns c key i o h

section Steps

variable {c : ClientId} {key : String} {i j : Nat} {o : OrderId} {h : Past World Req}
  {ph ph' : Placement} {r : Req}

theorem Owns.after (ho : Owns c key j o h) (i : Nat) (r : Req) (e : Env) :
    Owns c key j o ((handle r e h.1).2, (i, r, h.1) :: h.2) :=
  ⟨ho.1.cons _, hasKey_step ho.2 r e⟩

/-- Who inserted the order is one call. -/
theorem Owns.same {o' : OrderId} (hs : Single c key h) (hi : Owns c key i o h)
    (hj : Owns c key j o' h) : i = j := by
  have hsame : o = o' := hs.unique o o' hi.2 hj.2
  subst hsame
  exact hs.apart.unique i j o hi.1 hj.1

theorem Placement.At.other (hat : ph.At c key j h) (i : Nat) (r : Req) (e : Env) :
    ph.At c key j ((handle r e h.1).2, (i, r, h.1) :: h.2) := by
  cases ph with
  | out => trivial
  | drawn o => exact Drew.cons hat _
  | inserted o => exact Owns.after hat i r e
  | through o => exact Owns.after hat i r e
  | found o => exact hasKey_step hat r e

/-- The order that a query for the key finds. -/
theorem hasKey_queried {ws : List Write} {row : Order} {e : Env} (w : World)
    (hws : ws = [])
    (h : (handle (.query ws (.orderWithKey c key)) e w).1 = .ok (some row)) :
    w.db.HasKey c key row.id := by
  subst hws
  rcases query_cases [] (.orderWithKey c key) e w with ⟨f, hf⟩ | hf
  · rw [hf] at h
    cases h
  · rw [hf] at h
    have hfind : w.db.orders.rows.find? _ = some row := Except.ok.inj h
    have hmem := List.mem_of_find?_eq_some hfind
    have hkey := List.find?_some hfind
    simp only [Bool.and_eq_true, beq_iff_eq] at hkey
    exact ⟨row, Table.get?_of_mem hmem, hkey⟩

/-- How the answers of a world move a call. -/
theorem placement_moves (ph : Placement) (r : Req) (e : Env) (w : World) :
    (placement c key).advance ph r (handle r e w).1 = ph ∨
    (r = .newId ∧ (placement c key).advance ph r (handle r e w).1 = .drawn w.freshId) ∨
    (∃ o ws, ph = .drawn o ∧ r = .commit ws ∧ (insertion? ws).isSome ∧
      w.db.write? w.clock ws = some (handle r e w).2.db ∧
      (placement c key).advance ph r (handle r e w).1 = .inserted o) ∨
    (∃ o, ph = .inserted o ∧ (placement c key).advance ph r (handle r e w).1 = .through o) ∨
    ∃ x, w.db.HasKey c key x ∧ (placement c key).advance ph r (handle r e w).1 = .found x := by
  by_cases hquery : ∃ ws c' key', r = .query ws (.orderWithKey c' key')
  · obtain ⟨ws, c', key', rfl⟩ := hquery
    cases hx : (handle (.query ws (.orderWithKey c' key')) e w).1 with
    | error f =>
        refine .inl ?_
        cases ph <;> first | rfl | (cases ws <;> rfl)
    | ok row =>
        cases row with
        | none =>
            refine .inl ?_
            cases ph <;> first | rfl | (cases ws <;> rfl)
        | some row =>
            cases ws with
            | cons w' ws =>
                refine .inl ?_
                cases ph <;> rfl
            | nil =>
                by_cases hkey : c' = c ∧ key' = key
                · obtain ⟨rfl, rfl⟩ := hkey
                  have hrow := hasKey_queried w rfl hx
                  cases ph with
                  | out | drawn o | inserted o =>
                      exact .inr (.inr (.inr (.inr ⟨row.id, hrow, if_pos ⟨rfl, rfl⟩⟩)))
                  | through o | found o => exact .inl rfl
                · refine .inl ?_
                  cases ph with
                  | out | drawn o | inserted o => exact if_neg hkey
                  | through o | found o => rfl
  by_cases hcommit : ∃ o ws, ph = .drawn o ∧ r = .commit ws
  · obtain ⟨o, ws, rfl, rfl⟩ := hcommit
    rcases commit_cases ws e w with ⟨f, hf⟩ | ⟨d, hd, hf⟩
    · exact .inl (by rw [hf]; rfl)
    · rw [hf]
      by_cases hins : (insertion? ws).isSome
      · exact .inr (.inr (.inl ⟨o, ws, rfl, rfl, hins, hd, if_pos hins⟩))
      · exact .inl (if_neg hins)
  by_cases hid : r = .newId
  · subst hid
    cases ph with
    | out => exact .inr (.inl ⟨rfl, rfl⟩)
    | _ => exact .inl rfl
  · generalize (handle r e w).1 = x
    unfold placement
    simp only
    split
    · exact absurd rfl hid
    · exact absurd ⟨_, _, rfl, rfl⟩ hcommit
    · exact .inr (.inr (.inr (.inl ⟨_, rfl, rfl⟩)))
    · exact absurd ⟨_, _, _, rfl⟩ hquery
    · exact absurd ⟨_, _, _, rfl⟩ hquery
    · exact absurd ⟨_, _, _, rfl⟩ hquery
    · exact .inl rfl

theorem Placement.At.own (hat : ph.At c key i h) (hr : ph.permits c key r) (e : Env) :
    ((placement c key).advance ph r (handle r e h.1).1).At c key i
      ((handle r e h.1).2, (i, r, h.1) :: h.2) := by
  rcases @placement_moves c key ph r e h.1 with
    heq | ⟨rfl, heq⟩ | ⟨o, ws, rfl, rfl, hins, hd, heq⟩ | ⟨o, rfl, heq⟩ | ⟨x, hx, heq⟩
  · rw [heq]
    exact hat.other i r e
  · rw [heq]
    exact drew_newId i h
  · rw [heq]
    rcases hr with ⟨row, rfl, rfl, rfl, rfl⟩ | hnone
    · exact ⟨Drew.cons hat _, hasKey_inserted hd⟩
    · rw [insertion?_eq_none hnone] at hins
      cases hins
  · rw [heq]
    exact Owns.after hat i r e
  · rw [heq]
    exact hasKey_step hx r e

theorem Single.after (hs : Single c key h) (hat : ph.At c key i h) (hr : ph.permits c key r)
    (e : Env) : Single c key ((handle r e h.1).2, (i, r, h.1) :: h.2) := by
  refine ⟨hs.apart.after i r e, keyUnique_step hs.unique r e, ?_⟩
  rintro j ⟨r', w, hmem, hpast⟩
  rcases List.mem_cons.mp hmem with heq | hmem
  · cases heq
    cases ph with
    | inserted o => exact ⟨o, Owns.after hat i r e⟩
    | through o => exact ⟨o, Owns.after hat i r e⟩
    | out => exact absurd hpast hr.2
    | found o => exact absurd hpast hr.2
    | drawn o =>
        cases r with
        | commit ws => exact hpast.elim
        | _ => exact absurd hpast hr.2
  · obtain ⟨o, ho⟩ := hs.entered j ⟨r', w, hmem, hpast⟩
    exact ⟨o, ho.after i r e⟩

end Steps

def placements (s : Settings) (w : World) (c : ClientId) (key : String) :
    Annotation (system s) (placement c key) (fun x ph => ph.ends x) (Idle w) (Places c key) where
  inv := Single c key
  holds i ph _ h := ph.At c key i h
  start {p c'} _ hc _ := by
    cases c' with
    | place r =>
        obtain ⟨rfl, rfl⟩ := hc
        exact ⟨.out, programOf_places s r, trivial⟩
    | _ => exact hc.elim
  own _ _ _ hf hinv hat _ := ⟨hinv.after hat hf.allows _, hat.own hf.allows _⟩
  other _ _ _ _ _ _ _ _ hat' := hat'.other _ _ _
  tick {p v} _ hinv := by
    cases v <;> exact ⟨⟨hinv.apart.lt, hinv.apart.unique⟩, hinv.unique, hinv.entered⟩
  tick_holds {p v j ph q} _ _ _ hat := by
    cases ph <;> cases v <;> exact hat

/-- Placing is idempotent. -/
structure PlacedOnce (c : ClientId) (key : String) (p : Pools) : Prop where
  /-- At most one order has the key. -/
  unique : p.world.db.KeyUnique c key
  /-- A call that returns gives an order that has it. -/
  returned : ∀ i order created, p.Returned i (.ok (.placed order created)) →
    p.world.db.HasKey c key order.id
  same : ∀ i j order order' created created', p.Returned i (.ok (.placed order created)) →
    p.Returned j (.ok (.placed order' created')) → order.id = order'.id
  /-- At most one call has created it. -/
  created : ∀ i j order order', p.Returned i (.ok (.placed order true)) →
    p.Returned j (.ok (.placed order' true)) → i = j
  /-- At most one call has entered routing and submission. -/
  entered : ∀ i j, Entered i p.trace → Entered j p.trace → i = j

/-- Any number of calls that place an order under one key make one order. -/
theorem placedOnce_of_reach (s : Settings) {w : World} {c : ClientId} {key : String}
    (hw : w.db.KeyUnique c key) {p : Pools}
    (h : (system s).Reach (Idle w) (Places c key) p) : PlacedOnce c key p := by
  obtain ⟨hinv, hloc⟩ := (placements s w c key).sound (fun p hp => by
    cases hp
    exact ⟨⟨tokens_nil w, hw, fun i hi => by obtain ⟨_, _, hmem, _⟩ := hi; cases hmem⟩, rfl⟩) h
  have hcreated : ∀ {i order}, p.Returned i (.ok (.placed order true)) →
      Owns c key i order.id p.past := by
    intro i order hret
    obtain ⟨ph, hends, hat⟩ := hloc i _ hret
    have hph : ph = .through order.id := hends
    subst hph
    exact hat
  have hreturned : ∀ i order created, p.Returned i (.ok (.placed order created)) →
      p.world.db.HasKey c key order.id := by
    intro i order created hret
    cases created with
    | true => exact (hcreated hret).2
    | false =>
        obtain ⟨ph, hends, hat⟩ := hloc i _ hret
        have hph : ph = .found order.id := hends
        subst hph
        exact hat
  refine ⟨hinv.unique, hreturned, ?_, ?_, ?_⟩
  · intro i j order order' created created' hi hj
    exact hinv.unique _ _ (hreturned i order created hi) (hreturned j order' created' hj)
  · exact fun i j order order' hi hj => (hcreated hi).same hinv (hcreated hj)
  · intro i j hi hj
    obtain ⟨o, ho⟩ := hinv.entered i hi
    obtain ⟨o', ho'⟩ := hinv.entered j hj
    exact ho.same hinv ho'

/-! ## The same order placed twice -/

/-- `Places`, computed. -/
def placesCheck (c : ClientId) (key : String) (_ : Pools) : Happening → Bool
  | .start (.place r) => r.clientId = c ∧ r.clientOrderId = key
  | .start _ => false
  | _ => true

theorem places_of_check {c : ClientId} {key : String} (s : Pools) (ev : Happening)
    (h : placesCheck c key s ev = true) : Places c key s ev := by
  cases ev with
  | start c' =>
      cases c' with
      | place r =>
          have hkey : decide (r.clientId = c ∧ r.clientOrderId = key) = true := h
          have hsame : r.clientId = c ∧ r.clientOrderId = key := of_decide_eq_true hkey
          exact hsame
      | _ => exact nomatch h
  | _ => trivial

/-- The first call has looked for the key when the second one places the order. -/
def placedTwice : List Happening :=
  [.start (.place buyOne), .start (.place buyOne)] ++ steps 0 7 ++ steps 1 40 ++ steps 0 40

theorem keyUnique_oneBroker : oneBroker.db.KeyUnique 1 "a" := by
  rintro x y ⟨r, hr, _⟩
  cases hr

theorem placedOnce_twice :
    PlacedOnce 1 "a" ((system {}).run { world := oneBroker } placedTwice) :=
  placedOnce_of_reach {} keyUnique_oneBroker
    (Machine.reach_run_of_check places_of_check (reach_idle oneBroker) placedTwice
      (by decide +kernel))

end BrokerBridge
