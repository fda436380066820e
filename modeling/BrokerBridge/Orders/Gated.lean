import BrokerBridge.Orders.Placing
import BrokerBridge.Orders.Once

/-!
# Every submission has passed the gate once

`place` asks the gate before it inserts its order, and the replay does not ask it again.
So an order is sent to a broker only if some call, that has inserted it, had found that its
client may trade. Nothing is said of how long ago that was: the subscription may have
ended since.

The gate is a protocol of two questions. That an order is in the table before it is sent is
read off the life of an order.
-/

namespace BrokerBridge

open Conc

/-! ## The gate -/

/-- What `client_trading_allowed` makes of the client's status and its subscriptions. -/
def tradable (st : ClientStatus) (rows : List Subscription) (now : Instant) : Bool :=
  if rows.isEmpty then st ≠ .suspended else !(coveringActive now rows).isEmpty

def Db.subscriptionsOf (d : Db) (c : ClientId) : List Subscription :=
  d.subscriptions.rows.filter (·.clientId == c)

/-- The call has been told that the client is there, with this status. -/
def ToldStatus (i : Nat) (c : ClientId) (st : ClientStatus) (tr : List (Nat × Req × World)) :
    Prop :=
  ∃ w client, (i, .query [] (.client c), w) ∈ tr ∧ w.db.clients.get? c = some client ∧
    client.status = st

/-- Some call has asked for the client and for its subscriptions, and both together let
the client trade. -/
def FoundOpen (c : ClientId) (tr : List (Nat × Req × World)) : Prop :=
  ∃ i st w, ToldStatus i c st tr ∧ (i, .query [] (.subscriptionsOf c), w) ∈ tr ∧
    tradable st (w.db.subscriptionsOf c) w.clock = true

inductive Gating where
  | shut
  /-- the client is there, with this status -/
  | asked (c : ClientId) (st : ClientStatus)
  | passed (c : ClientId)

/-- Orders are inserted past the gate only. -/
def Gating.permits (ph : Gating) : Req → Prop
  | .commit ws => ∀ row, Write.addOrder row ∈ ws → ph = .passed row.clientId
  | _ => True

def gate : Protocol Req Req.Ans Gating where
  allows ph r := ph.permits r
  advance
    | .passed c, _, _ => .passed c
    | _, .query [] (.client c), .ok (some client) => .asked c client.status
    | .asked c st, .query [] (.subscriptionsOf c'), .ok (rows, now) =>
        if c' = c ∧ tradable st rows now then .passed c else .asked c st
    | ph, _, _ => ph

/-- A request that inserts orders of this client only. -/
def Req.insertsFor (c : ClientId) : Req → Prop
  | .commit ws => ∀ row, Write.addOrder row ∈ ws → row.clientId = c
  | _ => True

section Follow

variable {c : ClientId} {ph : Gating} {r : Req} {s : Session}

theorem permits_insertsNone (h : r.insertsNone) : ph.permits r := by
  cases r with
  | commit ws => exact fun row hrow => absurd hrow (h row)
  | _ => trivial

theorem permits_insertsFor (h : r.insertsFor c) : (Gating.passed c).permits r := by
  cases r with
  | commit ws => exact fun row hrow => congrArg Gating.passed (h row hrow).symm
  | _ => trivial

theorem insertsFor_of_none (h : r.insertsNone) : r.insertsFor c := by
  cases r with
  | commit ws => exact fun row hrow => absurd hrow (h row)
  | _ => trivial

theorem orderFree_insertsNone (r : Req) (h : r.orderFree) : r.insertsNone := by
  cases r with
  | commit ws =>
      intro row hrow
      have hnone := h _ hrow
      cases hnone
  | _ => trivial

/-- Past the gate. -/
theorem passed_ends {α : Type} {t : Coro α} (h : Calm (Req.insertsFor c) t) (hs : s.Clean) :
    Task.wp gate.step t (fun _ _ _ => True) (fun _ _ _ => True) s (.passed c) := by
  refine Task.wp_quiet (P := gate) (fun r hr => ⟨permits_insertsFor hr, fun _ => rfl⟩) ?_
  exact Task.wp_only_mono (fun _ => id) (h s hs) (fun _ _ _ => trivial) fun _ _ _ => trivial

/-- What the gate itself does past its questions. -/
theorem gating_keeps {α β : Type} {t : Coro α} {f : α → Coro β} (h : Calm (Req.gating c) t)
    (hs : s.Clean)
    (hf : ∀ a s', s'.Clean →
      Task.wp gate.step (f a) (fun _ _ _ => True) (fun _ _ _ => True) s' (.passed c)) :
    Task.wp gate.step t
      (fun a s' ph => Task.wp gate.step (f a) (fun _ _ _ => True) (fun _ _ _ => True) s' ph)
      (fun _ _ _ => True) s (.passed c) := by
  refine Task.wp_quiet (P := gate) (N := Req.gating c) (fun r hr => ⟨?_, fun _ => rfl⟩) ?_
  · exact permits_insertsFor (insertsFor_of_none
      (orderFree_insertsNone r (gating_orderFree r hr)))
  · exact Task.wp_only_mono (fun _ => id) (h s hs) hf fun _ _ _ => trivial

/-- What inserts nothing may be done anywhere. -/
theorem inserting_ends {α : Type} {t : Coro α} (h : Calm Req.insertsNone t) (hs : s.Clean) :
    Task.wp gate.step t (fun _ _ _ => True) (fun _ _ _ => True) s ph :=
  Task.wp_step_mono (Task.wp_allowed (P := gate) (fun _ _ => permits_insertsNone) (h s hs))
    (fun _ _ _ _ => trivial) fun _ _ _ _ => trivial

theorem read_insertsNone {U : Write → Prop} {q : Query} : Steps Req.insertsNone U U (execute q) :=
  Steps.execute fun _ _ => trivial

/-! ### Placing -/

/-- The gate lets a call through only as far as it has been told. -/
theorem clientTradingAllowed_gates (c : ClientId) :
    Task.wp gate.step (clientTradingAllowed c)
      (fun allowed s ph => s.Clean ∧ (allowed = true → ph = .passed c)) (fun _ _ _ => True) {}
      .shut := by
  unfold clientTradingAllowed
  rw [Task.wp_bind, wp_execute, if_neg Bool.false_ne_true]
  refine ⟨trivial, fun x => ?_⟩
  cases x with
  | error e => exact trivial
  | ok client =>
      cases client with
      | none => exact ⟨Session.clean_new, fun h => by cases h⟩
      | some client =>
          simp only [dbCases_ok]
          rw [Task.wp_bind, wp_execute, if_neg Bool.false_ne_true]
          refine ⟨trivial, fun y => ?_⟩
          cases y with
          | error e => exact trivial
          | ok y =>
              obtain ⟨rows, now⟩ := y
              have hpassed : tradable client.status rows now = true →
                  gate.advance (.asked c client.status) (.query [] (.subscriptionsOf c))
                    (.ok (rows, now)) = .passed c := fun h => if_pos ⟨rfl, h⟩
              simp only [dbCases_ok]
              rw [Task.wp_ite]
              split
              · next hempty =>
                  refine ⟨Session.clean_new, fun hallowed => hpassed ?_⟩
                  unfold tradable
                  rw [if_pos hempty]
                  exact hallowed
              · next hempty =>
                  refine ⟨Session.clean_new, fun hallowed => hpassed ?_⟩
                  unfold tradable
                  rw [if_neg hempty]
                  exact hallowed

theorem assertTradingAllowed_gates {β : Type} {f : Unit → Coro β}
    (hf : ∀ s, s.Clean →
      Task.wp gate.step (f ()) (fun _ _ _ => True) (fun _ _ _ => True) s (.passed c)) :
    Task.wp gate.step (assertTradingAllowed c >>= f) (fun _ _ _ => True) (fun _ _ _ => True) {}
      .shut := by
  unfold assertTradingAllowed
  rw [Task.wp_bind, Task.wp_bind]
  refine Task.wp_step_mono (clientTradingAllowed_gates c) ?_ fun _ _ _ _ => trivial
  rintro allowed s ph ⟨hs, hph⟩
  cases allowed with
  | false =>
      rw [if_neg Bool.false_ne_true, ← Task.wp_bind]
      refine inserting_ends (Steps.bindOf (V := fun _ => False) (R := fun _ => False) ?_ ?_
        fun _ h => h.elim) hs
      · exact Steps.bind read_insertsNone fun _ => Steps.bind read_insertsNone fun _ =>
          Steps.raise _
      · exact Returns.after fun _ => Returns.after fun _ => Returns.raise _
  | true =>
      obtain rfl := hph rfl
      rw [if_pos rfl]
      refine gating_keeps ?_ hs fun _ => hf
      refine Steps.bind (gating_read rfl) fun client => ?_
      cases client with
      | some client => exact Steps.ite (clearSuspension_calm _) (Steps.pure _)
      | none => exact Steps.pure _

theorem insertsFor_submitting (c : ClientId) (o : OrderId) : Submitting (Req.insertsFor c) o where
  newId := trivial
  query _ _ := trivial
  commit h := fun _ hrow => (h _ hrow).elim
  routing r h := insertsFor_of_none (routing_insertsNone r h)
  place _ := trivial
  ensuring _ r h := insertsFor_of_none (submits_insertsNone (o := o) r (.inl (ensuring_busy o r h)))
  mark _ _ _ := trivial

theorem read_insertsFor {U : Write → Prop} {q : Query} :
    Steps (Req.insertsFor c) U U (execute q) := Steps.execute fun _ _ => trivial

theorem insertOrder_insertsFor (order : Order) :
    Calm (Req.insertsFor order.clientId) (insertOrder order) := by
  refine insertOrder_calm order (fun ws hws row hrow => ?_) trivial trivial trivial
  cases hws _ hrow
  rfl

theorem placeNew_insertsFor (id : OrderId) (r : PlaceRequest) :
    Calm (Req.insertsFor r.clientId) (placeNew id r) := by
  refine Steps.bind (insertOrder_insertsFor (r.order id)) fun x => ?_
  cases x with
  | error prior => exact Steps.pure _
  | ok order =>
      refine Steps.bind ((selectOrRaise_calm _).mono fun r hr =>
        insertsFor_of_none (routing_insertsNone r hr)) fun decision => ?_
      refine Steps.bind (submitInline_calm .place order (insertsFor_submitting _ _) decision.chain)
        fun _ => ?_
      exact Steps.bind read_insertsFor fun row => Steps.bind (Steps.refreshed row) fun _ =>
        Steps.pure _

theorem place_gates (r : PlaceRequest) :
    Task.wp gate.step (place r) (fun _ _ _ => True) (fun _ _ _ => True) {} .shut := by
  refine assertTradingAllowed_gates fun s hs => passed_ends ?_ hs
  refine Steps.bind read_insertsFor fun prior => ?_
  cases prior with
  | some prior => exact Steps.pure _
  | none =>
      refine Steps.bind (Steps.bind read_insertsFor fun _ => Steps.pure _) fun mode =>
        Steps.ite (Steps.raise _) (Steps.bind (Steps.newId trivial) fun id => ?_)
      refine Steps.bind (Steps.bind (Steps.await trivial) fun x => Steps.bind (Steps.ofAnswer x)
        fun _ => Steps.ite (Steps.pure _) (Steps.raise _)) fun _ => ?_
      refine Calm.finally' (Steps.bind (Steps.await trivial) fun _ => ?_) (Steps.await trivial)
      exact Calm.finally' (placeNew_insertsFor id r) (Steps.await trivial)

/-! ### The other calls -/

theorem insertsNone_submitting (o : OrderId) : Submitting Req.insertsNone o where
  newId := trivial
  query _ _ := trivial
  commit h := fun _ hrow => h _ hrow
  routing := routing_insertsNone
  place _ := trivial
  ensuring _ r h := submits_insertsNone (o := o) r (.inl (ensuring_busy o r h))
  mark _ _ _ := trivial

theorem recoverStep_insertsNone (order : Order) : Calm Req.insertsNone (recoverStep order) := by
  refine Steps.catching ?_ fun e => Steps.ite (Steps.pure _) (Steps.raise _)
  refine Steps.bind (Steps.mark trivial) fun _ => Steps.bind read_insertsNone fun row =>
    Steps.bind (Steps.refreshed row) fun order' => Steps.ite (Steps.pure _) ?_
  exact recoverOpen_calm order'.1 (insertsNone_submitting _)

theorem recoverEach_insertsNone (orders : List Order) :
    Calm Req.insertsNone (recoverEach orders) := by
  induction orders with
  | nil => exact Steps.pure _
  | cons o os ih =>
      exact Steps.bind (recoverStep_insertsNone o) fun _ => Steps.bind ih fun _ => Steps.pure _

theorem replayRun_insertsNone (limit : Nat) : Calm Req.insertsNone (replayRun limit) :=
  Steps.bind read_insertsNone fun stuck => Steps.bind (recoverEach_insertsNone stuck) fun _ =>
    Steps.pure _

theorem markCancelled_insertsNone (order : Order) : Calm Req.insertsNone (markCancelled order) := by
  refine Steps.weaken (U := fun w => ∀ row, w ≠ .addOrder row) (V := fun _ => False) ?_
    (fun _ h => h.elim) fun _ => id
  refine Steps.assignThen (fun _ heq => by cases heq) ?_
  refine Steps.bind (Steps.stage fun _ heq => by cases heq) fun _ => ?_
  refine Steps.bind (Steps.commit fun ws hws row hrow => hws _ hrow row rfl) fun _ => ?_
  exact Steps.bind read_insertsNone fun row => Steps.bind (Steps.refreshed row) fun _ =>
    Steps.pure _

theorem cancelAtBroker_insertsNone (order : Order) (bo : BrokerOrderId) :
    Calm Req.insertsNone (cancelAtBroker order bo) := by
  refine Steps.catching (Steps.bind (Steps.await trivial) fun x => Steps.ofAnswer x) fun e => ?_
  cases e <;> exact Steps.raise _

theorem cancel_insertsNone (o : OrderId) : Calm Req.insertsNone (cancel o) := by
  refine Steps.bind (Steps.mark trivial) fun _ => Steps.bind read_insertsNone fun row => ?_
  cases row with
  | none => exact Steps.raise _
  | some row =>
      obtain ⟨order, ho⟩ := row
      refine Steps.ite (Steps.raise _) ?_
      cases hbo : order.brokerOrderId with
      | none => exact markCancelled_insertsNone order
      | some bo =>
          refine Steps.bind read_insertsNone fun _ => ?_
          exact Steps.bind (cancelAtBroker_insertsNone order bo) fun _ =>
            markCancelled_insertsNone order

theorem Within.gates {α : Type} {a : Area} {t : Coro α} (h : Within a t) (ha : a ≠ .orders) :
    Task.wp gate.step t (fun _ _ _ => True) (fun _ _ _ => True) {} ph :=
  Task.wp_step_mono (Task.wp_allowed (P := gate)
    (fun _ r hr => permits_insertsNone (orderFree_insertsNone r (inArea_orderFree ha r hr)))
    (h {} Session.clean_new.staged)) (fun _ _ _ _ => trivial) fun _ _ _ _ => trivial

theorem Coro.program_gates {α : Type} {t : Coro α} {reply : α → Reply}
    (h : Task.wp gate.step t (fun _ _ _ => True) (fun _ _ _ => True) {} ph) :
    (t.program reply).Follows gate (fun _ _ => True) ph :=
  Coro.program_ends h (fun _ _ _ _ => trivial) fun _ _ _ _ => trivial

theorem programOf_gates (settings : Settings) (c : Call) :
    (programOf settings c).Follows gate (fun _ _ => True) .shut := by
  have hnew := Session.clean_new
  cases c with
  | place r => exact Coro.program_gates (place_gates r)
  | replay limit => exact Coro.program_gates (inserting_ends (replayRun_insertsNone limit) hnew)
  | cancel o => exact Coro.program_gates (inserting_ends (cancel_insertsNone o) hnew)
  | createSubscription c a b m =>
      exact Coro.program_gates ((createSubscription_within c a b m).gates fun h => by cases h)
  | enforceExpiry t =>
      exact Coro.program_gates ((enforceExpiry_within t).gates fun h => by cases h)
  | expireNow i => exact Coro.program_gates ((expireNow_within i).gates fun h => by cases h)
  | ensure b f =>
      exact Coro.program_gates (inserting_ends ((ensure_calm [] b f).mono fun r hr =>
        orderFree_insertsNone r (ensuring_orderFree r hr)) hnew)
  | allocateIp region =>
      exact Coro.program_gates ((allocateIp_within region).gates fun h => by cases h)
  | assign x b c => exact Coro.program_gates ((assignIp_within x b c).gates fun h => by cases h)
  | attach x i => exact Coro.program_gates ((attachIp_within x i).gates fun h => by cases h)
  | detach x => exact Coro.program_gates ((detachIp_within x).gates fun h => by cases h)
  | release x =>
      exact Coro.program_gates ((releaseIp_within settings x).gates fun h => by cases h)
  | rotate b f => exact Coro.program_gates ((rotate_within settings b f).gates fun h => by cases h)

end Follow

/-! ## Every order -/

section Orders

variable {c : ClientId} {st : ClientStatus} {i : Nat} {tr : List (Nat × Req × World)}
  {ph : Gating} {r : Req} {h : Past World Req}

theorem ToldStatus.cons (ht : ToldStatus i c st tr) (x : Nat × Req × World) :
    ToldStatus i c st (x :: tr) := by
  obtain ⟨w, client, hmem, hget, hst⟩ := ht
  exact ⟨w, client, List.mem_cons_of_mem x hmem, hget, hst⟩

theorem FoundOpen.cons (ho : FoundOpen c tr) (x : Nat × Req × World) : FoundOpen c (x :: tr) := by
  obtain ⟨i, st, w, htold, hmem, htradable⟩ := ho
  exact ⟨i, st, w, htold.cons x, List.mem_cons_of_mem x hmem, htradable⟩

/-- What the call has been told, where it is. -/
def Gating.At (i : Nat) : Gating → List (Nat × Req × World) → Prop
  | .shut, _ => True
  | .asked c st, tr => ToldStatus i c st tr
  | .passed c, tr => FoundOpen c tr

theorem Gating.At.cons (hat : ph.At i tr) (x : Nat × Req × World) : ph.At i (x :: tr) := by
  cases ph with
  | shut => trivial
  | asked c st => exact ToldStatus.cons hat x
  | passed c => exact FoundOpen.cons hat x

/-- How the answers of a world move a call. -/
theorem gate_moves (ph : Gating) (r : Req) (e : Env) (w : World) :
    gate.advance ph r (handle r e w).1 = ph ∨
    (∃ c client, r = .query [] (.client c) ∧ w.db.clients.get? c = some client ∧
      gate.advance ph r (handle r e w).1 = .asked c client.status) ∨
    ∃ c st, ph = .asked c st ∧ r = .query [] (.subscriptionsOf c) ∧
      tradable st (w.db.subscriptionsOf c) w.clock = true ∧
      gate.advance ph r (handle r e w).1 = .passed c := by
  by_cases hclient : ∃ c, r = .query [] (.client c)
  · obtain ⟨c, rfl⟩ := hclient
    rcases query_cases [] (.client c) e w with ⟨f, hf⟩ | hf
    · rw [hf]
      exact .inl (by cases ph <;> rfl)
    · rw [hf]
      cases hget : w.db.clients.get? c with
      | none =>
          have heval : (Query.client c).eval e w.clock (w.db.view w.clock []) = none := hget
          rw [heval]
          exact .inl (by cases ph <;> rfl)
      | some client =>
          have heval : (Query.client c).eval e w.clock (w.db.view w.clock []) = some client := hget
          rw [heval]
          cases ph with
          | passed c' => exact .inl rfl
          | shut => exact .inr (.inl ⟨c, client, rfl, hget, rfl⟩)
          | asked c' st => exact .inr (.inl ⟨c, client, rfl, hget, rfl⟩)
  by_cases hsubs : ∃ c, r = .query [] (.subscriptionsOf c)
  · obtain ⟨c, rfl⟩ := hsubs
    rcases query_cases [] (.subscriptionsOf c) e w with ⟨f, hf⟩ | hf
    · rw [hf]
      exact .inl (by cases ph <;> rfl)
    · rw [hf]
      cases ph with
      | shut => exact .inl rfl
      | passed c' => exact .inl rfl
      | asked c' st =>
          by_cases hopen : c = c' ∧ tradable st (w.db.subscriptionsOf c) w.clock = true
          · obtain ⟨rfl, hopen⟩ := hopen
            exact .inr (.inr ⟨c, st, rfl, rfl, hopen, if_pos ⟨rfl, hopen⟩⟩)
          · exact .inl (if_neg hopen)
  · generalize (handle r e w).1 = x
    refine .inl ?_
    unfold gate
    simp only
    split
    · rfl
    · exact absurd ⟨_, rfl⟩ hclient
    · exact absurd ⟨_, rfl⟩ hsubs
    · rfl

theorem Gating.At.own (hat : ph.At i h.2) (e : Env) :
    (gate.advance ph r (handle r e h.1).1).At i ((i, r, h.1) :: h.2) := by
  rcases gate_moves ph r e h.1 with heq | ⟨c, client, rfl, hget, heq⟩ |
    ⟨c, st, rfl, rfl, hopen, heq⟩
  · rw [heq]
    exact hat.cons _
  · rw [heq]
    exact ⟨h.1, client, List.mem_cons_self, hget, rfl⟩
  · rw [heq]
    exact ⟨i, st, h.1, ToldStatus.cons hat _, List.mem_cons_self, hopen⟩

/-- Every order is of a client that has been found open. -/
def Admitted (h : Past World Req) : Prop :=
  ∀ c key x, h.1.db.HasKey c key x → FoundOpen c h.2

theorem Admitted.own (hadm : Admitted h) (hr : ph.permits r) (hat : ph.At i h.2) (e : Env) :
    Admitted ((handle r e h.1).2, (i, r, h.1) :: h.2) := by
  intro c key x hx
  refine FoundOpen.cons ?_ _
  by_cases hcommit : ∃ ws, r = .commit ws
  · obtain ⟨ws, rfl⟩ := hcommit
    rcases commit_cases ws e h.1 with ⟨f, hf⟩ | ⟨d, hd, hf⟩
    · rw [hf] at hx
      exact hadm c key x hx
    · rw [hf] at hx
      refine Db.write?_preserves (P := fun d => ∀ c key x, d.HasKey c key x → FoundOpen c h.2)
        (fun v hv d' hfree ih => ?_) hd hadm c key x hx
      intro c key x hx
      by_cases hadd : ∃ row, v = .addOrder row
      · obtain ⟨row, rfl⟩ := hadd
        rcases (hasKey_insert hfree).mp hx with hold | ⟨-, rfl, -⟩
        · exact ih c key x hold
        · obtain rfl := hr row hv
          exact hat
      · exact ih c key x ((hasKey_apply fun row heq => hadd ⟨row, heq⟩).mp hx)
  · rw [handle_db fun ws heq => hcommit ⟨ws, heq⟩] at hx
    exact hadm c key x hx

end Orders

def admissions (s : Settings) (w : World) :
    Annotation (system s) gate (fun _ _ => True) (Idle w) Machine.anyEvent where
  inv := Admitted
  holds i ph _ h := ph.At i h.2
  start {_ c} _ _ _ := ⟨.shut, programOf_gates s c, trivial⟩
  own _ _ _ hf hinv hat _ := ⟨hinv.own hf.allows hat _, hat.own _⟩
  other _ _ _ _ _ _ _ _ hat' := hat'.cons _
  tick {p v} _ hinv := by cases v <;> exact hinv
  tick_holds _ _ _ hat := hat

theorem admitted_of_reach (s : Settings) {w : World} (hw : w.db.orders.rows = []) {p : Pools}
    (h : (system s).Reach (Idle w) Machine.anyEvent p) : Admitted p.past := by
  refine ((admissions s w).sound (fun p hp => ?_) h).1
  cases hp
  refine ⟨fun c key x hx => ?_, rfl⟩
  obtain ⟨row, hrow, -⟩ := hx
  have hmem : row ∈ w.db.orders.rows := (Table.get?_eq_some.mp hrow).1
  rw [hw] at hmem
  cases hmem

/-! ## Every submission -/

section Submissions

variable {o : OrderId} {ph : Phase} {r : Req} {w : World} {e : Env}

def Db.HasOrder (d : Db) (o : OrderId) : Prop := ∃ c key, d.HasKey c key o

/-- An order that may be submitted, or is found to be, is in the table. -/
def Phase.InTable (d : Db) : Phase → Prop
  | .found o => d.HasOrder o
  | .clear o => d.HasOrder o
  | _ => True

theorem hasOrder_step (h : w.db.HasOrder o) (r : Req) (e : Env) :
    (handle r e w).2.db.HasOrder o := by
  obtain ⟨c, key, h⟩ := h
  exact ⟨c, key, hasKey_step (h := (w, [])) h r e⟩

theorem Phase.InTable.step (h : ph.InTable w.db) (r : Req) (e : Env) :
    ph.InTable (handle r e w).2.db := by
  cases ph with
  | found o => exact hasOrder_step h r e
  | clear o => exact hasOrder_step h r e
  | _ => trivial

theorem readOrder_inTable {d : Db} (h : ph.InTable d) {same : Bool} {row : Option Order}
    (hrow : same = true → ∀ r, row = some r → ∃ o, ph.order? = some o ∧ d.HasOrder o) :
    (ph.readOrder same row).InTable d := by
  cases ph with
  | recovering o =>
      cases same with
      | false => trivial
      | true =>
          cases row with
          | none => trivial
          | some r =>
              obtain ⟨o', ho, hhas⟩ := hrow rfl r rfl
              cases ho
              simp only [Phase.readOrder, if_true]
              split
              · trivial
              · exact hhas
  | checking o =>
      simp only [Phase.readOrder]
      split
      · split
        · split <;> trivial
        · trivial
      · trivial
  | _ => exact h

theorem readAttempts_inTable {d : Db} (h : ph.InTable d) (same : Bool) (rows : List OrderAttempt) :
    (ph.readAttempts same rows).InTable d := by
  cases ph with
  | found o =>
      simp only [Phase.readAttempts]
      split
      · split
        · trivial
        · exact h
      · trivial
  | _ => exact h

theorem committed_inTable (h : ph.InTable w.db) (ws : List Write) (e : Env) :
    (ph.committed ws (handle (.commit ws) e w).1).InTable (handle (.commit ws) e w).2.db := by
  have hkept := h.step (.commit ws) e
  cases hins : insertion? ws with
  | none =>
      rw [committed_of_none hins]
      unfold Phase.wrote
      split
      · exact hkept
      · cases ph with
        | clear o => exact hkept
        | _ => trivial
  | some o =>
      rcases commit_cases ws e w with ⟨f, hf⟩ | ⟨d, hd, hf⟩
      · rw [hf]
        simp only [Phase.committed, hins]
        trivial
      · rw [hf]
        simp only [Phase.committed, hins]
        obtain ⟨row, rfl, rfl⟩ : ∃ row, ws = [.addOrder row] ∧ row.id = o := by
          unfold insertion? at hins
          split at hins
          · exact ⟨_, rfl, Option.some.inj hins⟩
          · cases hins
        exact ⟨_, _, hasKey_inserted hd⟩

/-- A call that may submit an order has read it from the table, or inserted it. -/
theorem advance_inTable (h : ph.InTable w.db) (r : Req) (e : Env) :
    (lifecycle.advance ph r (handle r e w).1).InTable (handle r e w).2.db := by
  have hkept := h.step r e
  cases r with
  | mark m =>
      cases m with
      | submitInline => exact hkept
      | _ => trivial
  | commit ws => exact committed_inTable h ws e
  | placeOrder o p =>
      show (ph.placed _).InTable _
      generalize (handle (.placeOrder o p) e w).1 = x
      cases ph with
      | clear o =>
          cases x with
          | error f => exact hkept
          | ok bo => trivial
      | _ => exact hkept
  | cancelOrder o bo =>
      show (ph.cancelReplied _).InTable _
      unfold Phase.cancelReplied
      split <;> trivial
  | query ws q =>
      rcases query_cases ws q e w with ⟨f, hf⟩ | hf
      · rw [hf]
        cases q <;> exact h
      · rw [hf]
        cases q with
        | order o =>
            refine readOrder_inTable h fun hsame r hr => ?_
            simp only [decide_eq_true_eq, List.isEmpty_iff] at hsame
            obtain ⟨ho, rfl⟩ := hsame
            obtain ⟨x, hx, -⟩ := Option.map_eq_some_iff.mp hr
            exact ⟨o, ho, _, _, x.1, Table.lookup_eq_some.mp hx, rfl, rfl⟩
        | attemptsOf o => exact readAttempts_inTable h _ _
        | _ => exact h
  | _ => exact hkept

/-- At each submission the order is in the table, and its client has been found open. -/
def SubmitsAdmitted (tr : List (Nat × Req × World)) : Prop :=
  ∀ later i o payload w earlier, tr = later ++ (i, .placeOrder o payload, w) :: earlier →
    ∃ order, w.db.orders.get? o = some order ∧ FoundOpen order.clientId earlier

theorem SubmitsAdmitted.cons {tr : List (Nat × Req × World)} (h : SubmitsAdmitted tr) {i : Nat}
    (hr : ∀ o payload, r = .placeOrder o payload →
      ∃ order, w.db.orders.get? o = some order ∧ FoundOpen order.clientId tr) :
    SubmitsAdmitted ((i, r, w) :: tr) := by
  intro later j o payload w' earlier heq
  cases later with
  | nil =>
      obtain ⟨hhead, rfl⟩ := List.cons.inj heq
      cases hhead
      exact hr o payload rfl
  | cons x later => exact h later j o payload w' earlier (List.cons.inj heq).2

/-- Only an order that may be submitted is. -/
theorem submits_clear {payload : OrderPayload} (h : lifecycle.allows ph (.placeOrder o payload)) :
    ph = .clear o := by
  rcases h with h | ⟨o', h⟩ | h
  · exact h.elim
  · exact h.elim
  · cases ph with
    | clear o' =>
        rcases h with h | ⟨payload', h⟩
        · exact h.elim
        · cases h
          rfl
    | settling o' => exact h.elim
    | cancelling o' bo => cases bo <;> exact h.elim
    | _ => exact h.elim

end Submissions

def submissions (s : Settings) (w : World) (hw : w.db.orders.rows = []) :
    Annotation (system s) lifecycle (fun _ _ => True) (Idle w) Machine.anyEvent where
  inv h := SubmitsAdmitted h.2
  holds _ ph _ h := ph.InTable h.1.db
  start {_ c} _ _ _ := ⟨.away, programOf_follows s c, trivial⟩
  own {p i e r k ph} hreach _ _ hf hinv hat _ := by
    refine ⟨hinv.cons fun o payload heq => ?_, advance_inTable hat r e⟩
    subst heq
    have hclear := submits_clear hf.allows
    subst hclear
    obtain ⟨c, key, hhas⟩ : p.world.db.HasOrder o := hat
    have hopen := admitted_of_reach s hw hreach c key o hhas
    obtain ⟨order, hget, rfl, -⟩ := hhas
    exact ⟨order, hget, hopen⟩
  other _ _ _ _ _ _ _ _ hat' := hat'.step _ _
  tick {p v} _ hinv := hinv
  tick_holds {p v _ ph _} _ _ _ hat := by cases ph <;> cases v <;> exact hat

/-- In every run, whatever fails or dies: when an order is sent to a broker, by `place` or
by the replay, it is in the table, and some call had found that its client may trade. -/
theorem submits_admitted (s : Settings) {w : World} (hw : w.db.orders.rows = [])
    (evs : List Happening) : SubmitsAdmitted ((system s).run { world := w } evs).trace := by
  have hreach := Machine.reach_run (reach_idle (s := s) w) evs
  refine ((submissions s w hw).sound (fun p hp => ?_) hreach).1
  cases hp
  refine ⟨fun later i o payload w' earlier heq => ?_, rfl⟩
  cases later <;> cases heq

/-- The order that the replay submits, after `place` has died. -/
theorem submits_admitted_after_crash :
    SubmitsAdmitted ((system {}).run { world := oneBroker } crashedEarly).trace :=
  submits_admitted {} rfl crashedEarly

end BrokerBridge
