import BrokerBridge.Orders.Adoption
import BrokerBridge.Orders.Placing
import BrokerBridge.Orders.Once

/-!
# What the outbox says of orders

An attempt is marked submitted in the commit that stages its event, and by the call that has
opened it. An order is marked submitted in such a commit, or by a replay that has read such an
attempt, and it is marked cancelled with its own event. So whatever calls run together, and
wherever they fail or die, the table of attempts and the outbox say the same.
-/

namespace BrokerBridge

open Conc

/-- What a broker has accepted: the order, through which IP, and its own id for it. -/
structure Acceptance where
  order : OrderId
  broker : BrokerId
  ip : Option IpId
  brokerOrder : Option BrokerOrderId

def OrderAttempt.acceptance (a : OrderAttempt) : Acceptance where
  order := a.orderId
  broker := a.brokerAccountId
  ip := a.staticIpId
  brokerOrder := a.brokerOrderId

/-- The acceptance that an attempt records. -/
def OrderAttempt.acceptance? (a : OrderAttempt) : Option Acceptance :=
  if a.status = .submitted then some a.acceptance else none

/-- The acceptance that an event announces. -/
def EventPayload.acceptance? : EventPayload → Option Acceptance
  | .orderSubmitted o _ _ b ip _ _ _ bo => some ⟨o, b, ip, bo⟩
  | _ => none

def Db.acceptances (d : Db) : List Acceptance := d.attempts.rows.filterMap (·.acceptance?)

def Db.announcements (d : Db) : List Acceptance := d.outbox.filterMap (·.payload.acceptance?)

/-- The events tell what the attempts and the orders do. -/
structure Db.Told (d : Db) : Prop where
  /-- The same acceptances, each as often. -/
  accepted : d.announcements.Perm d.acceptances
  submitted : ∀ o r, d.orders.get? o = some r → r.status = .submitted →
    ∃ a ∈ d.acceptances, a.order = o
  cancelled : ∀ o r, d.orders.get? o = some r → r.status = .cancelled →
    ∃ e ∈ d.outbox, e.payload.cancels o = true

/-! ## Commits -/

/-- From `d` to `d'` the attempts record `A` and the events announce `E` in addition; only attempts
in `P` have changed, and no order says more than that. -/
structure Db.Tells (P : AttemptId → Prop) (A E : List Acceptance) (d d' : Db) : Prop where
  attempts : ∀ x, ¬ P x → d'.attempts.get? x = d.attempts.get? x
  acceptances : d'.acceptances.Perm (A ++ d.acceptances)
  announcements : d'.announcements.Perm (E ++ d.announcements)
  outbox : ∀ e ∈ d.outbox, e ∈ d'.outbox
  submitted : ∀ o r', d'.orders.get? o = some r' → r'.status = .submitted →
    (∃ a ∈ d'.acceptances, a.order = o) ∨ ∃ r, d.orders.get? o = some r ∧ r.status = .submitted
  cancelled : ∀ o r', d'.orders.get? o = some r' → r'.status = .cancelled →
    (∃ e ∈ d'.outbox, e.payload.cancels o = true) ∨
      ∃ r, d.orders.get? o = some r ∧ r.status = .cancelled

section Commits

variable {P : AttemptId → Prop} {A A' E E' : List Acceptance} {d d' d'' : Db} {now : Instant}
  {o : OrderId} {u : Write} {ws : List Write} {row : OrderAttempt}

theorem Db.Tells.rfl' : d.Tells P [] [] d where
  attempts _ _ := rfl
  acceptances := List.Perm.refl _
  announcements := List.Perm.refl _
  outbox _ := id
  submitted _ r hr hst := .inr ⟨r, hr, hst⟩
  cancelled _ r hr hst := .inr ⟨r, hr, hst⟩

theorem Db.Tells.kept (h : d.Tells P A E d') {a : Acceptance} (ha : a ∈ d.acceptances) :
    a ∈ d'.acceptances :=
  h.acceptances.mem_iff.mpr (List.mem_append_right _ ha)

theorem Db.Tells.trans (h : d.Tells P A E d') (h' : d'.Tells P A' E' d'') :
    d.Tells P (A' ++ A) (E' ++ E) d'' where
  attempts x hx := (h'.attempts x hx).trans (h.attempts x hx)
  acceptances := by
    rw [List.append_assoc]
    exact h'.acceptances.trans (h.acceptances.append_left A')
  announcements := by
    rw [List.append_assoc]
    exact h'.announcements.trans (h.announcements.append_left E')
  outbox e he := h'.outbox e (h.outbox e he)
  submitted o r' hr' hst := by
    obtain ha | ⟨r, hr, hst⟩ := h'.submitted o r' hr' hst
    · exact .inl ha
    · obtain ⟨a, ha, hon⟩ | hold := h.submitted o r hr hst
      · exact .inl ⟨a, h'.kept ha, hon⟩
      · exact .inr hold
  cancelled o r' hr' hst := by
    obtain he | ⟨r, hr, hst⟩ := h'.cancelled o r' hr' hst
    · exact .inl he
    · obtain ⟨e, he, hon⟩ | hold := h.cancelled o r hr hst
      · exact .inl ⟨e, h'.outbox e he, hon⟩
      · exact .inr hold

theorem Db.Tells.mono {Q : AttemptId → Prop} (h : d.Tells P A E d') (hPQ : ∀ x, P x → Q x) :
    d.Tells Q A E d' :=
  { h with attempts := fun x hx => h.attempts x fun hP => hx (hPQ x hP) }

/-- What is recorded is announced. -/
theorem Db.Tells.told (h : d.Tells P A A d') (ht : d.Told) : d'.Told where
  accepted := by
    have hsame : (A ++ d.announcements).Perm (A ++ d.acceptances) := ht.accepted.append_left A
    exact (h.announcements.trans hsame).trans h.acceptances.symm
  submitted o r' hr' hst := by
    obtain ha | ⟨r, hr, hst⟩ := h.submitted o r' hr' hst
    · exact ha
    · obtain ⟨a, ha, hon⟩ := ht.submitted o r hr hst
      exact ⟨a, h.kept ha, hon⟩
  cancelled o r' hr' hst := by
    obtain he | ⟨r, hr, hst⟩ := h.cancelled o r' hr' hst
    · exact he
    · obtain ⟨e, he, hon⟩ := ht.cancelled o r hr hst
      exact ⟨e, h.outbox e he, hon⟩

/-! ### Single writes -/

/-- A write that records and announces nothing. -/
def Write.plain : Write → Prop
  | .addOrder row => row.status ≠ .submitted ∧ row.status ≠ .cancelled
  | .addAttempt _ | .setAttempt _ _ _ => False
  | .setOrder _ f => f ≠ .status .submitted ∧ f ≠ .status .cancelled
  | .enqueue p => p.acceptance? = none
  | _ => True

/-- The order's row as it was but for one field. -/
theorem setOrder_get? {f : OrderField} {o' : OrderId} {r' : Order}
    (h : ((Write.setOrder o f).apply now d).orders.get? o' = some r') :
    ∃ r, d.orders.get? o' = some r ∧ (r'.status = r.status ∨ o' = o ∧ f = .status r'.status) := by
  have hget : ((d.orders.update o f).update o (.updatedAt now)).get? o' = some r' := h
  rw [Table.get?_update] at hget
  split at hget
  · next heq =>
      subst heq
      rw [Table.get?_update_self, Option.map_map] at hget
      obtain ⟨r, hr, rfl⟩ := Option.map_eq_some_iff.mp hget
      refine ⟨r, hr, ?_⟩
      cases f with
      | status st => exact .inr ⟨rfl, rfl⟩
      | _ => exact .inl rfl
  · next hne =>
      rw [Table.get?_update_of_ne _ hne] at hget
      exact ⟨r', hget, .inl rfl⟩

theorem tells_setOrder {f : OrderField} (hc : f ≠ .status .cancelled)
    (hs : f = .status .submitted → ∃ a ∈ d.acceptances, a.order = o) :
    d.Tells P [] [] ((Write.setOrder o f).apply now d) where
  attempts _ _ := rfl
  acceptances := List.Perm.refl _
  announcements := List.Perm.refl _
  outbox _ := id
  submitted o' r' hr' hst := by
    obtain ⟨r, hr, hsame | ⟨rfl, rfl⟩⟩ := setOrder_get? hr'
    · exact .inr ⟨r, hr, hsame ▸ hst⟩
    · exact .inl (hs (by rw [hst]))
  cancelled o' r' hr' hst := by
    obtain ⟨r, hr, hsame | ⟨rfl, rfl⟩⟩ := setOrder_get? hr'
    · exact .inr ⟨r, hr, hsame ▸ hst⟩
    · exact absurd (by rw [hst]) hc

theorem tells_enqueue (p : EventPayload) :
    d.Tells P [] p.acceptance?.toList ((Write.enqueue p).apply now d) where
  attempts _ _ := rfl
  acceptances := List.Perm.refl _
  announcements := by
    show ((d.outbox ++ [({ payload := p } : OutboxEvent)]).filterMap _).Perm _
    rw [List.filterMap_append]
    cases hp : p.acceptance? with
    | none => simp [hp, Db.announcements]
    | some a => simp [hp, Db.announcements]
  outbox _ := List.mem_append_left _
  submitted _ r hr hst := .inr ⟨r, hr, hst⟩
  cancelled _ r hr hst := .inr ⟨r, hr, hst⟩

/-- A write to another table. -/
theorem tells_apart (horders : d'.orders = d.orders) (hattempts : d'.attempts = d.attempts)
    (hout : d'.outbox = d.outbox) : d.Tells P [] [] d' where
  attempts _ _ := by rw [hattempts]
  acceptances := by
    rw [Db.acceptances, hattempts]
    exact List.Perm.refl _
  announcements := by
    rw [Db.announcements, hout]
    exact List.Perm.refl _
  outbox _ he := hout ▸ he
  submitted _ r hr hst := .inr ⟨r, horders ▸ hr, hst⟩
  cancelled _ r hr hst := .inr ⟨r, horders ▸ hr, hst⟩

theorem tells_plain (hu : u.plain) : d.Tells P [] [] (u.apply now d) := by
  cases u with
  | addOrder row =>
      have hold : ∀ o r', (d.orders.insert (row.stored now)).get? o = some r' →
          r'.status = row.status ∨ d.orders.get? o = some r' := by
        intro o r' hr'
        obtain ⟨hmem, hkey⟩ := Table.get?_eq_some.mp hr'
        cases hget : d.orders.get? (Row.key (row.stored now)) with
        | some r =>
            rw [Table.insert_of_taken hget] at hr'
            exact .inr hr'
        | none =>
            obtain hmem | rfl := (Table.mem_rows_insert hget).mp hmem
            · exact .inr (Table.get?_eq_some.mpr ⟨hmem, hkey⟩)
            · exact .inl rfl
      refine ⟨fun _ _ => rfl, List.Perm.refl _, List.Perm.refl _, fun _ => id, ?_, ?_⟩
      · intro o r' hr' hst
        obtain hsame | hget := hold o r' hr'
        · exact absurd (hsame.symm.trans hst) hu.1
        · exact .inr ⟨r', hget, hst⟩
      · intro o r' hr' hst
        obtain hsame | hget := hold o r' hr'
        · exact absurd (hsame.symm.trans hst) hu.2
        · exact .inr ⟨r', hget, hst⟩
  | addAttempt row => exact hu.elim
  | setAttempt o x f => exact hu.elim
  | setOrder o f => exact tells_setOrder hu.2 fun heq => absurd heq hu.1
  | enqueue p =>
      have hnone : p.acceptance? = none := hu
      have hevent : d.Tells P [] p.acceptance?.toList ((Write.enqueue p).apply now d) :=
        tells_enqueue p
      rw [hnone] at hevent
      exact hevent
  | _ => exact tells_apart rfl rfl rfl

/-- Marking the order submitted, besides. -/
def Write.settles (o : OrderId) (u : Write) : Prop :=
  u.plain ∨ u = .setOrder o (.status .submitted)

theorem tells_settles (hws : ∀ u ∈ ws, u.settles o) (ha : ∃ a ∈ d.acceptances, a.order = o)
    (hd : d.write? now ws = some d') : d.Tells P [] [] d' := by
  refine Db.write?_preserves (P := fun x => d.Tells P [] [] x) (fun u hu x _ hx =>
    ?_) hd Db.Tells.rfl'
  obtain hplain | rfl := hws u hu
  · exact hx.trans (tells_plain hplain)
  · obtain ⟨a, ha, hon⟩ := ha
    exact hx.trans (tells_setOrder (fun h => by cases h) fun _ => ⟨a, hx.kept ha, hon⟩)

theorem tells_plains (hws : ∀ u ∈ ws, u.plain) (hd : d.write? now ws = some d') :
    d.Tells P [] [] d' :=
  Db.write?_preserves (P := fun x => d.Tells P [] [] x)
    (fun u hu _ _ hx => hx.trans (tells_plain (hws u hu))) hd Db.Tells.rfl'

/-- The commit that marks an order cancelled, or what there is to do of it. -/
def Cancels (ws : List Write) : Prop :=
  ∃ o p, ws = [.setOrder o (.status .cancelled), .enqueue p] ∧ p.cancels o = true ∧
    p.acceptance? = none

theorem tells_cancels (hws : Cancels ws) (hd : d.write? now ws = some d') : d.Tells P [] [] d' := by
  obtain ⟨o, p, rfl, hp, hnone⟩ := hws
  obtain ⟨-, hd⟩ := Db.write?_cons.mp hd
  obtain ⟨-, rfl⟩ := Db.write?_singleton.mp hd
  have hevent : ((Write.setOrder o (.status .cancelled)).apply now d).Tells P []
      p.acceptance?.toList
      ((Write.enqueue p).apply now ((Write.setOrder o (.status .cancelled)).apply now d)) :=
    tells_enqueue p
  rw [hnone] at hevent
  refine ⟨fun _ _ => rfl, List.Perm.refl _, hevent.announcements, hevent.outbox, ?_, ?_⟩
  · intro o' r' hr' hst
    obtain ⟨r, hr, hsame | ⟨rfl, heq⟩⟩ := setOrder_get? hr'
    · exact .inr ⟨r, hr, hsame ▸ hst⟩
    · rw [hst] at heq
      cases heq
  · intro o' r' hr' hst
    obtain ⟨r, hr, hsame | ⟨rfl, -⟩⟩ := setOrder_get? hr'
    · exact .inr ⟨r, hr, hsame ▸ hst⟩
    · exact .inl ⟨_, List.mem_append_right _ (List.mem_singleton.mpr rfl), hp⟩

/-! ### Attempts -/

/-- The row of an attempt is as `row`, and records nothing. -/
def Db.Unrecorded (d : Db) (x : AttemptId) (o : OrderId) : Prop :=
  ∃ a, d.attempts.get? x = some a ∧ a.orderId = o ∧ a.acceptance? = none

theorem acceptance?_eq_none {a : OrderAttempt} : a.acceptance? = none ↔ a.status ≠ .submitted := by
  unfold OrderAttempt.acceptance?
  split
  · next h => exact ⟨fun heq => (by cases heq), fun hne => absurd h hne⟩
  · next h => exact ⟨fun _ => h, fun _ => rfl⟩

/-- The row of an attempt changes. -/
theorem tells_update {x : AttemptId} {f : OrderAttemptField} {a : OrderAttempt}
    (ha : d.attempts.get? x = some a) (hnone : a.acceptance? = none) :
    d.Tells (· = x) (f.set a).acceptance?.toList []
    { d with attempts := d.attempts.update x f } where
  attempts y hy := Table.get?_update_of_ne _ hy
  acceptances := by
    have hperm := Table.filterMap_update (f := f) OrderAttempt.acceptance? ha
    rw [hnone, Option.toList_none, List.append_nil] at hperm
    exact hperm
  announcements := List.Perm.refl _
  outbox _ := id
  submitted _ r hr hst := .inr ⟨r, hr, hst⟩
  cancelled _ r hr hst := .inr ⟨r, hr, hst⟩

theorem apply_setAttempt {x : AttemptId} {f : OrderAttemptField} {a : OrderAttempt}
    (ha : d.attempts.get? x = some a) (ho : a.orderId = o) :
    (Write.setAttempt o x f).apply now d = { d with attempts := d.attempts.update x f } := by
  have hmine : (d.attempts.get? x).any (fun r => r.orderId == o) = true := by
    rw [ha, Option.any_some, ho, beq_self_eq_true]
  exact if_pos hmine

/-- A write to this attempt that does not mark it submitted. -/
def FailsAttempt (row : OrderAttempt) (u : Write) : Prop :=
  ∃ f, u = .setAttempt row.orderId row.id f ∧ f ≠ .status .submitted

theorem tells_fails (hws : ∀ u ∈ ws, FailsAttempt row u) (hrow : d.Unrecorded row.id row.orderId)
    (hd : d.write? now ws = some d') : d.Tells (· = row.id) [] [] d' := by
  suffices h : d.Tells (· = row.id) [] [] d' ∧ d'.Unrecorded row.id row.orderId from h.1
  refine Db.write?_preserves
    (P := fun x => d.Tells (· = row.id) [] [] x ∧ x.Unrecorded row.id row.orderId)
    (fun u hu x _ hx => ?_) hd ⟨Db.Tells.rfl', hrow⟩
  obtain ⟨f, rfl, hf⟩ := hws u hu
  obtain ⟨htells, a, ha, ho, hnone⟩ := hx
  have hset : (f.set a).acceptance? = none := by
    rw [acceptance?_eq_none] at hnone ⊢
    cases f with
    | status st => exact fun heq => hf (congrArg _ heq)
    | _ => exact hnone
  have hupdate := tells_update (f := f) ha hnone
  rw [hset] at hupdate
  rw [apply_setAttempt ha ho]
  refine ⟨htells.trans hupdate, f.set a, ?_, ?_, hset⟩
  · show (x.attempts.update row.id f).get? row.id = _
    rw [Table.get?_update_self, ha]
    rfl
  · exact (OrderAttemptField.set_orderId f a).trans ho

/-- The commit that opens an attempt. -/
def OpensAttempt (x : AttemptId) (row : OrderAttempt) (ws : List Write) : Prop :=
  ∃ rest, ws = .addAttempt row :: rest ∧ row.id = x ∧ row.acceptance? = none ∧ ∀ u ∈ rest, u.plain

theorem tells_opens {x : AttemptId} (hws : OpensAttempt x row ws) (hd : d.write? now ws = some d') :
    d.Tells (· = x) [] [] d' ∧ d'.attempts.get? row.id = some row := by
  obtain ⟨rest, rfl, rfl, hnone, hrest⟩ := hws
  obtain ⟨hfree, hd⟩ := Db.write?_cons.mp hd
  have habsent : d.attempts.get? row.id = none :=
    Option.isNone_iff_eq_none.mp (Option.isSome_eq_false_iff.mp hfree)
  have hadd : d.Tells (· = row.id) [] [] ((Write.addAttempt row).apply now d) :=
    { attempts := fun y hy => Table.get?_insert_of_ne hy
      acceptances := by
        show ((d.attempts.insert row).rows.filterMap _).Perm _
        rw [Table.filterMap_insert OrderAttempt.acceptance? habsent, hnone]
        simp [Db.acceptances]
      announcements := List.Perm.refl _
      outbox := fun _ => id
      submitted := fun _ r hr hst => .inr ⟨r, hr, hst⟩
      cancelled := fun _ r hr hst => .inr ⟨r, hr, hst⟩ }
  have hplain : ((Write.addAttempt row).apply now d).Tells (fun _ => False) [] [] d' :=
    tells_plains hrest hd
  refine ⟨hadd.trans (hplain.mono fun _ h => h.elim), ?_⟩
  rw [hplain.attempts _ id]
  exact Table.get?_insert_self habsent

/-- The commit that records an acceptance. -/
def RecordsAcceptance (row : OrderAttempt) (a : Acceptance) (ws : List Write) : Prop :=
  ∃ bo rest p, ws = .setAttempt row.orderId row.id (.status .submitted) ::
      .setAttempt row.orderId row.id (.brokerOrderId (some bo)) :: (rest ++ [.enqueue p]) ∧
    (∀ u ∈ rest, u.settles row.orderId) ∧ p.acceptance? = some a ∧
    a = { row.acceptance with brokerOrder := some bo }

/-- The row is marked submitted, with the broker's id. -/
theorem tells_submitted {a : Acceptance} {bo : BrokerOrderId}
    (hrow : d.attempts.get? row.id = some row)
    (hnone : row.acceptance? = none) (ha : a = { row.acceptance with brokerOrder := some bo }) :
    d.Tells (· = row.id) [a] [] { d with
      attempts := (d.attempts.update row.id (OrderAttemptField.status .submitted)).update row.id
        (OrderAttemptField.brokerOrderId (some bo)) } := by
  have hfirst := tells_update (f := .status .submitted) hrow hnone
  have hrow' : (d.attempts.update row.id (OrderAttemptField.status .submitted)).get? row.id =
      some { row with status := .submitted } := by
    rw [Table.get?_update_self, hrow]
    rfl
  have hsecond := Table.filterMap_update (f := OrderAttemptField.brokerOrderId (some bo))
    OrderAttempt.acceptance? hrow'
  refine ⟨?_, ?_, List.Perm.refl _, fun _ => id, fun _ r hr hst => .inr ⟨r, hr, hst⟩,
    fun _ r hr hst => .inr ⟨r, hr, hst⟩⟩
  · intro y hy
    exact (Table.get?_update_of_ne _ hy).trans (hfirst.attempts y hy)
  · -- The acceptance without the broker's id comes and goes.
    have hperm := hsecond.trans (hfirst.acceptances.append_left _)
    have hcomm : ∀ (b : Acceptance), ([a] ++ ([b] ++ d.acceptances)).Perm
      (([a] ++ d.acceptances) ++ [b]) := by
      intro b
      rw [List.append_assoc]
      exact List.perm_append_comm.append_left [a]
    subst ha
    exact (List.perm_append_right_iff _).mp (hperm.trans (hcomm _))

theorem tells_records {a : Acceptance} (hws : RecordsAcceptance row a ws)
    (hrow : d.attempts.get? row.id = some row) (hnone : row.acceptance? = none)
    (hd : d.write? now ws = some d') : d.Tells (· = row.id) [a] [a] d' := by
  obtain ⟨bo, rest, p, rfl, hrest, hp, ha⟩ := hws
  obtain ⟨-, hd⟩ := Db.write?_cons.mp hd
  obtain ⟨-, hd⟩ := Db.write?_cons.mp hd
  have hrow' : (d.attempts.update row.id (OrderAttemptField.status .submitted)).get? row.id =
      some { row with status := .submitted } := by
    rw [Table.get?_update_self, hrow]
    rfl
  rw [apply_setAttempt hrow rfl, apply_setAttempt
    (a := { row with status := .submitted }) hrow' rfl,
    Db.write?_append] at hd
  obtain ⟨d₁, hd₁, hd⟩ := Option.bind_eq_some_iff.mp hd
  obtain ⟨-, rfl⟩ := Db.write?_singleton.mp hd
  have hsubmitted := tells_submitted hrow hnone ha
  have hmem := hsubmitted.acceptances.mem_iff.mpr List.mem_cons_self
  have hsettled := tells_settles (P := (· = row.id)) hrest ⟨a, hmem, by rw [ha]; rfl⟩ hd₁
  have hevent : d₁.Tells (· = row.id) [] p.acceptance?.toList ((Write.enqueue p).apply now d₁) :=
    tells_enqueue p
  rw [hp] at hevent
  exact (hsubmitted.trans hsettled).trans hevent

end Commits

/-! ## Where a call is -/

inductive Filing where
  | away
  /-- an id has been drawn -/
  | drawn (x : AttemptId)
  /-- an attempt is in the table under that id -/
  | filed (row : OrderAttempt)
  /-- it has been read back -/
  | opened (row : OrderAttempt)
  /-- an attempt has been read that records an acceptance of the order -/
  | adopting (o : OrderId)
  /-- something has been read that no database answers -/
  | void

namespace Filing

/-- What a phase may commit that is not plain and cancels nothing. -/
def writes : Filing → List Write → Prop
  | drawn x, ws => ∃ row, OpensAttempt x row ws
  | opened row, ws => (∃ a, RecordsAcceptance row a ws) ∨ ∀ u ∈ ws, FailsAttempt row u
  | adopting o, ws => ∀ u ∈ ws, u.settles o
  | void, _ => True
  | _, _ => False

def permits (ph : Filing) : Req → Prop
  | .commit ws => (∀ u ∈ ws, u.plain) ∨ Cancels ws ∨ ph.writes ws
  | _ => True

def committed : Filing → List Write → Filing
  | drawn _, .addAttempt row :: _ => filed row
  | _, _ => away

/-- The attempt, read. -/
def readAttempt (ph : Filing) (x : AttemptId) (a : OrderAttempt) : Filing :=
  match ph with
  | filed row => if x = row.id then if a = row then opened row else void else ph
  | ph => ph

/-- The attempts of an order, read. -/
def readAttempts (ph : Filing) (o : OrderId) (rows : List OrderAttempt) : Filing :=
  if (rows.findSome? (·.adoptable)).isSome then adopting o else ph

def read (ph : Filing) : (q : Query) → Except Exn q.Res → Filing
  | .attempt _ x, .ok (some a) => ph.readAttempt x a.1
  | .attemptsOf o, .ok rows => ph.readAttempts o rows
  | _, _ => ph

def advance (ph : Filing) : (r : Req) → r.Ans → Filing
  | .newId, x => drawn x
  | .query [] q, x => ph.read q x
  | .commit ws, .ok _ => ph.committed ws
  | _, _ => ph

end Filing

def filing : Protocol Req Req.Ans Filing where
  allows := Filing.permits
  advance := Filing.advance

/-- A request that records and announces nothing. -/
def Req.plain : Req → Prop
  | .commit ws => ∀ u ∈ ws, u.plain
  | _ => True

section Follow

variable {s : Session} {ph : Filing} {o : OrderId} {α β : Type}

theorem permits_plain {r : Req} (h : r.plain) : ph.permits r := by
  cases r with
  | commit ws => exact .inl h
  | _ => trivial

theorem orderFree_plain (r : Req) (h : r.orderFree) : r.plain := by
  cases r with
  | commit ws =>
      intro u hu
      have hnone := h u hu
      cases u with
      | addOrder row => cases hnone
      | addAttempt row => cases hnone
      | setOrder o f => cases hnone
      | setAttempt o x f => cases hnone
      | enqueue p =>
          cases p with
          | orderSubmitted => cases hnone
          | _ => rfl
      | _ => trivial
  | _ => trivial

/-- What a stretch leaves when nothing is to be said of the phase. -/
abbrev Done {α : Type} : α → Session → Filing → Prop := fun _ s _ => s.Clean

theorem plain_ends {t : Coro α} (h : Calm Req.plain t) (hs : s.Clean) :
    Task.wp filing.step t Done Done s ph :=
  Task.wp_allowed (P := filing) (fun _ _ => permits_plain) (h s hs)

/-- A stretch that records nothing, and what follows it. -/
theorem plain_then {t : Coro α} {f : α → Coro β} (h : Calm Req.plain t) (hs : s.Clean)
    (hf : ∀ a s' ph', s'.Clean → Task.wp filing.step (f a) Done Done s' ph') :
    Task.wp filing.step (t >>= f) Done Done s ph := by
  rw [Task.wp_bind]
  exact Task.wp_step_mono (plain_ends h hs) (fun a s' ph' h' => hf a s' ph' h') fun _ _ _ => id

theorem read_plain {U : Write → Prop} {q : Query} : Steps Req.plain U U (execute q) :=
  Steps.execute fun _ _ => trivial

/-- A read that the protocol looks at. -/
theorem filing_read {q : Query} {f : q.Res → Coro β} {Q : β → Session → Filing → Prop}
    (hs : s.Clean)
    (hf : ∀ x s', s'.Clean → Task.wp filing.step (f x) Q Done s' (ph.read q (.ok x))) :
    Task.wp filing.step (execute q >>= f) Q Done s ph := by
  rw [Task.wp_bind, wp_execute]
  split
  · next hb => exact .inl hb
  · next hb =>
      rw [hs.pending hb]
      refine ⟨trivial, fun x => ?_⟩
      cases x with
      | error e => exact Session.clean_broken
      | ok x => exact hf x s hs

/-! ### Staging -/

/-- These writes are pending, and then only writes in `U`. -/
def Session.Begins (s : Session) (base : List Write) (U : Write → Prop) : Prop :=
  s.broken = true ∨ ∃ rest, s.pending = base ++ rest ∧ ∀ u ∈ rest, U u

theorem Session.Clean.begins {U : Write → Prop} (hs : s.Clean) (base : List Write) :
    ({ s with pending := s.pending ++ base } : Session).Begins base U := by
  by_cases hb : s.broken = true
  · exact .inl hb
  · refine .inr ⟨[], ?_, List.forall_mem_nil _⟩
    show s.pending ++ base = base ++ []
    rw [hs.pending hb, List.append_nil, List.nil_append]

theorem Session.Clean.begins_nil {U : Write → Prop} (hs : s.Clean) : s.Begins [] U :=
  Or.imp_right (fun h => ⟨s.pending, rfl, fun u hu => (h u hu).elim⟩) hs

theorem Session.Begins.stage {base : List Write} {U : Write → Prop} {u : Write}
    (hs : s.Begins base U) (hu : U u) :
    ({ s with pending := s.pending ++ [u] } : Session).Begins base U := by
  obtain hb | ⟨rest, hp, hrest⟩ := hs
  · exact .inl hb
  · refine .inr ⟨rest ++ [u], ?_, ?_⟩
    · show s.pending ++ [u] = _
      rw [hp, List.append_assoc]
    · intro v hv
      obtain hv | hv := List.mem_append.mp hv
      · exact hrest v hv
      · exact List.mem_singleton.mp hv ▸ hu

theorem assign_files {γ F : Type} [Stored γ F] [DecidableEq γ] {r : γ} {f : F} {k : γ → Coro β}
    {base : List Write} {U : Write → Prop} {Q : β → Session → Filing → Prop}
    {E : Exn → Session → Filing → Prop} (hs : s.Begins base U) (hU : U (Stored.write r f))
    (hk : ∀ s', s'.Begins base U → Task.wp filing.step (k (Stored.set f r)) Q E s' ph) :
    Task.wp filing.step (assign r f >>= k) Q E s ph := by
  rw [Task.wp_bind]
  obtain heq | heq := wp_assign_cases (g := filing.step) r f
    (fun a s => Task.wp filing.step (k a) Q E s) E s
  · rw [heq]
    exact hk s hs
  · rw [heq]
    exact hk _ (hs.stage hU)

/-- A commit that the phase permits. -/
theorem commit_files {base : List Write} {U : Write → Prop} {Q : Unit → Session → Filing → Prop}
    {E : Exn → Session → Filing → Prop} (hs : s.Begins base U)
    (hp : ∀ rest, (∀ u ∈ rest, U u) → ph.permits (.commit (base ++ rest)))
    (hE : ∀ e s' ph', s'.broken = true → E e s' ph')
    (hQ : ∀ rest s', s'.Clean → Q () s' (ph.committed (base ++ rest))) :
    Task.wp filing.step commit Q E s ph := by
  rw [wp_commit]
  split
  · next hb => exact hE _ _ _ hb
  · next hb =>
      obtain ⟨rest, hpending, hrest⟩ := hs.resolve_left hb
      rw [hpending]
      refine ⟨hp rest hrest, fun x => ?_⟩
      cases x with
      | error e => exact hE _ _ _ rfl
      | ok _ => exact hQ rest _ (.inr (List.forall_mem_nil _))

/-! ### Submitting -/

theorem plain_stretch {t : Coro α} (h : Steps Req.plain Write.plain (fun _ => False) t) :
    Calm Req.plain t :=
  h.weaken (fun _ h => h.elim) fun _ => id

theorem plain_commit : Steps Req.plain Write.plain (fun _ => False) commit :=
  Steps.commit fun _ h => h

theorem failOrder_plain (order : Order) (code : String) :
    Calm Req.plain (failOrder order code) := by
  refine plain_stretch (Steps.assignThen ⟨fun h => (by cases h), fun h => (by cases h)⟩ ?_)
  exact Steps.assignThen ⟨fun h => (by cases h), fun h => (by cases h)⟩ plain_commit

theorem recordFailover_plain (order : Order) (c : RouteCandidate) (reason : String)
    (rest : List RouteCandidate) : Calm Req.plain (recordFailover order c reason rest) := by
  cases rest with
  | nil => exact Steps.pure _
  | cons next _ => exact plain_stretch (Steps.bind (Steps.stage trivial) fun _ => plain_commit)

theorem routing_plain (r : Req) (h : r.routing) :
    r.plain := orderFree_plain r (routing_orderFree r h)

theorem rateLimited_plain (order : Order) (c : RouteCandidate) (rest : List RouteCandidate) :
    Calm Req.plain (rateLimited order c rest) := by
  refine Steps.bind (exceedPolicy_calm.mono routing_plain) fun policy => Steps.ite ?_ ?_
  · exact Steps.bind (failOrder_plain order _) fun _ => Steps.raise _
  · exact Steps.bind (recordFailover_plain order c _ rest) fun _ => Steps.pure _

/-- The attempt of the order at this broker is open, as far as the phase knows. -/
def Filing.Holds (o : OrderId) (c : RouteCandidate) (a : OrderAttempt) (ph : Filing) : Prop :=
  ph = .void ∨ ph = .opened a ∧ a.orderId = o ∧ a.status = .submitting ∧ a.brokerOrderId = none ∧
    a.brokerAccountId = c.broker.id ∧ a.staticIpId = c.staticIpId

theorem openAttempt_files (order : Order) (c : RouteCandidate) (n : Nat) (hs : s.Clean) :
    Task.wp filing.step (openAttempt order c n)
      (fun x s' ph' => s'.Clean ∧ x.1.id = order.id ∧ ph'.Holds order.id c x.2) Done s ph := by
  unfold openAttempt
  rw [Task.wp_bind, wp_newId]
  refine ⟨trivial, fun id => ?_⟩
  beta_reduce
  rw [Task.wp_bind, wp_stage]
  have hplain : ∀ f : OrderField, f ≠ .status .submitted → f ≠ .status .cancelled →
      (Write.setOrder order.id f).plain := fun f h h' => ⟨h, h'⟩
  refine assign_files (hs.begins _) (hplain _ (fun h => by cases h) fun h => by cases h)
    fun s₁ hs₁ => ?_
  refine assign_files hs₁ (hplain _ (fun h => by cases h) fun h => by cases h) fun s₂ hs₂ => ?_
  refine assign_files hs₂ (hplain _ (fun h => by cases h) fun h => by cases h) fun s₃ hs₃ => ?_
  rw [Task.wp_bind]
  refine commit_files hs₃ (fun rest hrest => .inr (.inr ⟨_, rest, rfl, rfl, rfl, hrest⟩))
    (fun _ _ _ hb => .inl hb) fun rest s₄ hs₄ => ?_
  refine filing_read hs₄ fun row s₅ hs₅ => ?_
  cases row with
  | none => exact hs₅
  | some found =>
      obtain ⟨a, ha⟩ := found
      refine ⟨hs₅, rfl, ?_⟩
      show Filing.Holds order.id c a (if id = id then (if a = _ then .opened _ else .void) else _)
      rw [if_pos rfl]
      split
      · next heq =>
          rw [heq]
          exact .inr ⟨rfl, rfl, rfl, rfl, rfl, rfl⟩
      · exact .inl rfl

/-- An acceptance is recorded and announced in one commit. -/
theorem recordSubmitted_files {order : Order} {a : OrderAttempt} (c : RouteCandidate)
    (bo : BrokerOrderId) (hs : s.Clean) (hph : ph.Holds order.id c a) :
    Task.wp filing.step (recordSubmitted order a c bo) Done
      (fun _ s' _ => s'.broken = true) s ph := by
  unfold recordSubmitted
  obtain rfl | ⟨rfl, ho, hst, hbo, hbroker, hip⟩ := hph
  · -- Nothing is promised of a row that no database answers with.
    refine assign_files (U := fun _ => True) hs.begins_nil trivial fun s₁ hs₁ => ?_
    refine assign_files hs₁ trivial fun s₂ hs₂ => assign_files hs₂ trivial fun s₃ hs₃ => ?_
    refine assign_files hs₃ trivial fun s₄ hs₄ => assign_files hs₄ trivial fun s₅ hs₅ => ?_
    rw [Task.wp_bind, wp_enqueueOutbox]
    exact commit_files (hs₅.stage trivial) (fun _ _ => .inr (.inr trivial)) (fun _ _ _ => id)
      fun _ _ => id
  have hset : Stored.set (OrderAttemptField.status .submitted) a ≠ a := by
    intro heq
    have hst' : AttemptStatus.submitted = a.status := congrArg OrderAttempt.status heq
    rw [hst] at hst'
    cases hst'
  have hset' : Stored.set (OrderAttemptField.brokerOrderId (some bo))
      (Stored.set (OrderAttemptField.status .submitted) a) ≠
        Stored.set (OrderAttemptField.status .submitted) a := by
    intro heq
    have hbo' : some bo = a.brokerOrderId := congrArg OrderAttempt.brokerOrderId heq
    rw [hbo] at hbo'
    cases hbo'
  have hsettles : ∀ f : OrderField, f ≠ .status .cancelled →
      (Write.setOrder order.id f).settles order.id := by
    intro f hf
    by_cases heq : f = .status .submitted
    · exact .inr (by rw [heq])
    · exact .inl ⟨heq, hf⟩
  rw [Task.wp_bind, wp_assign, if_neg hset, Task.wp_bind, wp_assign, if_neg hset']
  have hbase := hs.begins (U := Write.settles order.id)
    [.setAttempt a.orderId a.id (.status .submitted),
      .setAttempt a.orderId a.id (.brokerOrderId (some bo))]
  rw [List.append_cons] at hbase
  refine assign_files hbase (hsettles _ fun h => by cases h) fun s₁ hs₁ => ?_
  refine assign_files hs₁ (hsettles _ fun h => by cases h) fun s₂ hs₂ => ?_
  refine assign_files hs₂ (hsettles _ fun h => by cases h) fun s₃ hs₃ => ?_
  rw [Task.wp_bind, wp_enqueueOutbox]
  obtain hb | ⟨rest, hpending, hrest⟩ := hs₃
  · rw [wp_commit, if_pos hb]
    exact hb
  -- The event is staged last.
  refine commit_files (U := fun _ => False) (.inr ⟨[], by rw [hpending, List.append_nil],
    List.forall_mem_nil _⟩) (fun rest' hrest' => ?_) (fun _ _ _ => id) fun _ _ => id
  obtain rfl : rest' = [] := List.eq_nil_iff_forall_not_mem.mpr hrest'
  refine .inr (.inr (.inl ⟨{ a.acceptance with brokerOrder := some bo }, bo, rest, _,
    List.append_nil _, ho ▸ hrest, ?_, rfl⟩))
  rw [OrderAttempt.acceptance, ho, hbroker, hip]
  rfl

theorem failAttempt_files {order : Order} {a : OrderAttempt} {c : RouteCandidate} (error : String)
    (hs : s.Clean) (hph : ph.Holds order.id c a) :
    Task.wp filing.step (failAttempt a error) Done Done s ph := by
  have hfails : ∀ f : OrderAttemptField, f ≠ .status .submitted →
      FailsAttempt a (.setAttempt a.orderId a.id f) := fun f hf => ⟨f, rfl, hf⟩
  unfold failAttempt
  refine assign_files hs.begins_nil (hfails _ fun h => by cases h) fun s₁ hs₁ => ?_
  refine assign_files hs₁ (hfails _ fun h => by cases h) fun s₂ hs₂ => ?_
  refine commit_files hs₂ (fun rest hrest => ?_) (fun _ _ _ hb => .inl hb) fun _ s₃ hs₃ => hs₃
  obtain rfl | ⟨rfl, -⟩ := hph
  · exact .inr (.inr trivial)
  · exact .inr (.inr (.inr hrest))

theorem submitHandler_files {order : Order} {a : OrderAttempt} {c : RouteCandidate} (e : Exn)
    (hs : s.Clean) (hph : ph.Holds order.id c a) :
    Task.wp filing.step (submitHandler order a e) Done Done s ph := by
  cases e with
  | broker code message status retryable =>
      simp only [submitHandler]
      rw [Task.wp_bind]
      refine Task.wp_step_mono (failAttempt_files message hs hph) (fun _ s₁ ph₁ hs₁ => ?_)
        fun _ _ _ => id
      cases retryable with
      | true => exact hs₁
      | false => exact plain_then (failOrder_plain order code) hs₁ fun _ _ _ hs₂ => hs₂
  | cancelled => exact hs
  | _ =>
      simp only [submitHandler]
      rw [Task.wp_bind]
      exact Task.wp_step_mono (failAttempt_files _ hs hph) (fun _ _ _ => id) fun _ _ _ => id

/-- One submission, recorded or marked failed. -/
theorem trySubmit_files {order : Order} {a : OrderAttempt} (c : RouteCandidate) (hs : s.Clean)
    (hph : ph.Holds order.id c a) : Task.wp filing.step (trySubmit order a c) Done Done s ph := by
  unfold trySubmit
  rw [Task.wp_catching, Task.wp_bind, wp_await]
  refine ⟨trivial, fun x => ?_⟩
  cases x with
  | ok bo =>
      simp only [Task.wp_bind, wp_ofAnswer_ok]
      refine Task.wp_step_mono (recordSubmitted_files c bo hs hph) (fun _ _ _ h => h) ?_
      -- On a broken session the handler only raises.
      intro e s₁ ph₁ hb
      obtain ⟨e', s₂, hb', heq⟩ := wp_submitHandler_broken order a e hb
      rw [heq]
      exact .inl hb'
  | error e =>
      simp only [Task.wp_bind, wp_ofAnswer_error]
      exact submitHandler_files e hs hph

theorem ensuring_plain {b : BrokerId} (r : Req) (h : r.ensuring b) : r.plain :=
  orderFree_plain r (ensuring_orderFree r h)

theorem submitChain_files (held : List BrokerAccount) (chain : List RouteCandidate) (order : Order)
    (n : Nat) (last : Option LastError) (hs : s.Clean) :
    Task.wp filing.step (submitChain held order n last chain) Done Done s ph := by
  induction chain generalizing order n last s ph with
  | nil => exact plain_ends (Steps.bind (failOrder_plain order _) fun _ => Steps.raise _) hs
  | cons c rest ih =>
      rw [submitChain]
      refine plain_then ((rateConsume_calm _ _).mono routing_plain) hs fun rl s₁ _ hs₁ => ?_
      split
      · exact plain_then (rateLimited_plain order c rest) hs₁ fun why _ _ hs₂ => ih _ _ _ hs₂
      refine plain_then ((ensure_calm held c.broker.id false).mono ensuring_plain) hs₁
        fun _ s₂ _ hs₂ => ?_
      rw [Task.wp_bind]
      refine Task.wp_step_mono (openAttempt_files order c n hs₂) ?_ fun _ _ _ => id
      rintro ⟨order', a⟩ s₃ ph₃ ⟨hs₃, hid, hph⟩
      have hid' : order'.id = order.id := hid
      rw [← hid'] at hph
      rw [Task.wp_bind]
      refine Task.wp_step_mono (trySubmit_files c hs₃ hph) (fun why s₄ ph₄ hs₄ => ?_)
        fun _ _ _ => id
      cases why with
      | none => exact hs₄
      | some why =>
          refine plain_then (recordFailover_plain order' c why.code rest) hs₄ fun _ _ _ hs₅ => ?_
          exact ih _ _ _ hs₅

theorem submitInline_files (by_ : Actor) (order : Order) (chain : List RouteCandidate)
    (hs : s.Clean) : Task.wp filing.step (submitInline by_ order chain) Done Done s ph :=
  plain_then (Steps.mark trivial) hs fun _ _ _ hs₁ =>
    plain_then read_plain hs₁ fun _ _ _ hs₂ => submitChain_files _ _ _ _ _ hs₂

theorem finally_files {t : Coro α} {last : Coro Unit} (ht : Task.wp filing.step t Done Done s ph)
    (hl : Calm Req.plain last) : Task.wp filing.step (Task.finally' t last) Done Done s ph := by
  rw [Task.wp_finally']
  exact Task.wp_step_mono ht (fun _ s' ph' hs' => plain_ends hl hs') fun _ s' ph' hs' =>
    plain_ends hl hs'

/-! ### Placing -/

theorem insertOrder_plain {order : Order} (hc : order.status = .created) :
    Calm Req.plain (insertOrder order) := by
  refine insertOrder_calm order (fun ws hws w hw => ?_) trivial trivial trivial
  rw [hws w hw]
  show order.status ≠ .submitted ∧ order.status ≠ .cancelled
  rw [hc]
  exact ⟨fun h => (by cases h), fun h => (by cases h)⟩

theorem placeNew_files (x : OrderId) (r : PlaceRequest) (hs : s.Clean) :
    Task.wp filing.step (placeNew x r) Done Done s ph := by
  refine plain_then (insertOrder_plain rfl) hs fun y s₁ _ hs₁ => ?_
  cases y with
  | error prior => exact hs₁
  | ok order =>
      refine plain_then ((selectOrRaise_calm _).mono routing_plain) hs₁ fun decision _ _ hs₂ => ?_
      rw [Task.wp_bind]
      refine Task.wp_step_mono (submitInline_files .place order decision.chain hs₂) ?_
        fun _ _ _ => id
      intro _ s₃ _ hs₃
      exact plain_ends (Steps.bind read_plain fun row => Steps.bind (Steps.refreshed row) fun _ =>
        Steps.pure _) hs₃

theorem place_files (r : PlaceRequest) (hs : s.Clean) :
    Task.wp filing.step (place r) Done Done s ph := by
  refine plain_then ((assertTradingAllowed_calm _).mono fun r hr =>
    orderFree_plain r (gating_orderFree r hr)) hs fun _ _ _ hs₁ => ?_
  refine plain_then read_plain hs₁ fun prior _ _ hs₂ => ?_
  cases prior with
  | some prior => exact hs₂
  | none =>
      refine plain_then (Steps.bind read_plain fun _ => Steps.pure _) hs₂ fun mode _ _ hs₃ => ?_
      split
      · exact hs₃
      refine plain_then (Steps.newId trivial) hs₃ fun id _ _ hs₄ => ?_
      refine plain_then (Steps.bind (Steps.await trivial) fun x => Steps.bind (Steps.ofAnswer x)
        fun _ => Steps.ite (Steps.pure _) (Steps.raise _)) hs₄ fun _ _ _ hs₅ => ?_
      refine finally_files ?_ (Steps.await trivial)
      refine plain_then (Steps.await trivial) hs₅ fun _ _ _ hs₆ => ?_
      exact finally_files (placeNew_files id r hs₆) (Steps.await trivial)

/-! ### Replaying -/

theorem resubmit_files (order : Order) (chain : List RouteCandidate) (hs : s.Clean) :
    Task.wp filing.step (resubmit order chain) Done Done s ph := by
  have hcaught : ∀ e s' ph', s'.Clean →
      Task.wp filing.step (resubmitFailed order e) Done Done s' ph' :=
    fun e _ _ h => plain_ends (resubmitFailed_calm order (fun _ _ => trivial) e) h
  unfold resubmit
  rw [Task.wp_catching, Task.wp_bind]
  refine Task.wp_step_mono (submitInline_files .replay order chain hs) (fun _ s₁ _ hs₁ => ?_)
    fun e _ _ h => hcaught e _ _ h
  refine Task.wp_step_mono (plain_ends (Steps.bind read_plain fun row =>
    Steps.bind (Steps.refreshed row) fun _ => Steps.ite (Steps.pure _) (Steps.pure _)) hs₁)
    (fun _ _ _ => id) fun e _ _ h => hcaught e _ _ h

theorem adoptAttempt_files (order : Order) (a : OrderAttempt) (bo : BrokerOrderId) (hs : s.Clean) :
    Task.wp filing.step (adoptAttempt order a bo) Done Done s (.adopting order.id) := by
  have hsettles : ∀ f : OrderField, f ≠ .status .submitted → f ≠ .status .cancelled →
      (Write.setOrder order.id f).settles order.id := fun f h h' => .inl ⟨h, h'⟩
  unfold adoptAttempt
  refine assign_files (U := Write.settles order.id) hs.begins_nil (.inr rfl) fun s₁ hs₁ => ?_
  refine assign_files hs₁ (hsettles _ (fun h => by cases h) fun h => by cases h) fun s₂ hs₂ => ?_
  refine assign_files hs₂ (hsettles _ (fun h => by cases h) fun h => by cases h) fun s₃ hs₃ => ?_
  refine assign_files hs₃ (hsettles _ (fun h => by cases h) fun h => by cases h) fun s₄ hs₄ => ?_
  refine assign_files hs₄ (hsettles _ (fun h => by cases h) fun h => by cases h) fun s₅ hs₅ => ?_
  rw [Task.wp_bind]
  exact commit_files hs₅ (fun _ hrest => .inr (.inr hrest)) (fun _ _ _ hb => .inl hb)
    fun _ _ hs₆ => hs₆

theorem reopen_plain (order : Order) : Calm Req.plain (reopen order) := by
  refine Steps.ite (plain_stretch ?_) (Steps.pure _)
  exact Steps.assignThen ⟨fun h => (by cases h), fun h => (by cases h)⟩
    (Steps.bind plain_commit fun _ => Steps.pure _)

theorem recoverOpen_files (order : Order) (hs : s.Clean) :
    Task.wp filing.step (recoverOpen order) Done Done s ph := by
  refine filing_read hs fun attempts s₁ hs₁ => ?_
  show Task.wp (X := Filing → Prop) _ _ _ _ _
    (if (attempts.findSome? (·.adoptable)).isSome then _ else _)
  cases attempts.findSome? (·.adoptable) with
  | some x => exact adoptAttempt_files order x.1 x.2 hs₁
  | none =>
      refine plain_then (reopen_plain order) hs₁ fun order' _ _ hs₂ => ?_
      refine plain_then ((selectOrRaise_calm _).mono routing_plain) hs₂ fun decision _ _ hs₃ => ?_
      exact resubmit_files order' decision.chain hs₃

theorem recoverOne_files (stale : Order) (hs : s.Clean) :
    Task.wp filing.step (recoverOne stale) Done Done s ph := by
  refine plain_then (Steps.mark trivial) hs fun _ _ _ hs₁ => ?_
  refine plain_then read_plain hs₁ fun row _ _ hs₂ => ?_
  refine plain_then (Steps.refreshed row) hs₂ fun found _ _ hs₃ => ?_
  obtain ⟨order, ho⟩ := found
  show Task.wp (X := Filing → Prop) _ (if _ then _ else _) _ _ _ _
  split
  · exact hs₃
  · exact recoverOpen_files order hs₃

theorem recoverEach_files (orders : List Order) (hs : s.Clean) :
    Task.wp filing.step (recoverEach orders) Done Done s ph := by
  induction orders generalizing s ph with
  | nil => exact hs
  | cons order orders ih =>
      have hrest : ∀ x s' ph', s'.Clean → Task.wp filing.step
          (recoverEach orders >>= fun xs => pure (x :: xs)) Done Done s' ph' := by
        intro x s' ph' hs'
        rw [Task.wp_bind]
        exact Task.wp_step_mono (ih hs') (fun _ _ _ => id) fun _ _ _ => id
      rw [recoverEach, Task.wp_bind, recoverStep, Task.wp_catching]
      refine Task.wp_step_mono (recoverOne_files order hs) (fun x s₁ ph₁ hs₁ => hrest x s₁ ph₁ hs₁)
        fun e s₁ ph₁ hs₁ => ?_
      rw [Task.wp_ite]
      split
      · exact hrest _ s₁ ph₁ hs₁
      · exact hs₁

theorem replayRun_files (limit : Nat) (hs : s.Clean) :
    Task.wp filing.step (replayRun limit) Done Done s ph := by
  refine plain_then read_plain hs fun stuck s₁ _ hs₁ => ?_
  rw [Task.wp_bind]
  exact Task.wp_step_mono (recoverEach_files stuck hs₁) (fun _ _ _ => id) fun _ _ _ => id

/-! ### Cancelling -/

theorem markCancelled_files (order : Order) (hs : s.Clean) :
    Task.wp filing.step (markCancelled order) Done Done s ph := by
  have hread : ∀ s' ph', s'.Clean → Task.wp filing.step
      (execute (.order order.id) >>= fun row => refreshed row >>= fun x => pure x.1)
      Done Done s' ph' :=
    fun _ _ => plain_ends (Steps.bind read_plain fun row => Steps.bind (Steps.refreshed row)
      fun _ => Steps.pure _)
  unfold markCancelled
  rw [Task.wp_bind, wp_assign]
  split
  · -- An order that is cancelled already is announced again.
    rw [Task.wp_bind, wp_enqueueOutbox, Task.wp_bind]
    refine commit_files (U := fun _ => False) (hs.begins _) (fun rest hrest => .inl fun u hu => ?_)
      (fun _ _ _ => .inl) fun _ s₁ hs₁ => hread s₁ _ hs₁
    obtain hu | hu := List.mem_append.mp hu
    · obtain rfl := List.mem_singleton.mp hu
      rfl
    · exact (hrest u hu).elim
  · rw [Task.wp_bind, wp_enqueueOutbox, Task.wp_bind]
    have hpending := hs.begins (U := fun _ => False) [.setOrder order.id (.status .cancelled),
      .enqueue (.orderCancelled order.id order.clientId order.clientOrderId order.brokerOrderId)]
    rw [List.append_cons] at hpending
    refine commit_files hpending (fun rest hrest => ?_) (fun _ _ _ => .inl) fun _ s₁ hs₁ =>
      hread s₁ _ hs₁
    obtain rfl : rest = [] := List.eq_nil_iff_forall_not_mem.mpr hrest
    exact .inr (.inl ⟨order.id, _, rfl, decide_eq_true rfl, rfl⟩)

theorem cancel_files (o : OrderId) (hs : s.Clean) :
    Task.wp filing.step (cancel o) Done Done s ph := by
  refine plain_then (Steps.mark trivial) hs fun _ _ _ hs₁ => ?_
  refine plain_then read_plain hs₁ fun row _ _ hs₂ => ?_
  cases row with
  | none => exact hs₂
  | some found =>
      obtain ⟨order, ho⟩ := found
      show Task.wp (X := Filing → Prop) _ (if _ then _ else _) _ _ _ _
      split
      · exact hs₂
      cases order.brokerOrderId with
      | none => exact markCancelled_files order hs₂
      | some bo =>
          refine plain_then read_plain hs₂ fun _ _ _ hs₃ => ?_
          refine plain_then ?_ hs₃ fun _ _ _ hs₄ => markCancelled_files order hs₄
          refine Steps.catching (Steps.bind (Steps.await trivial) fun x =>
            Steps.ofAnswer x) fun e => ?_
          cases e <;> exact Steps.raise _

/-! ### Every call -/

theorem Coro.program_files {t : Coro α} {reply : α → Reply}
    (h : Task.wp filing.step t Done Done {} ph) :
    (t.program reply).Follows filing (fun _ _ => True) ph :=
  Coro.program_ends h (fun _ _ _ _ => trivial) fun _ _ _ _ => trivial

/-- A call that has nothing to do with orders. -/
theorem Within.files {a : Area} {t : Coro α} (h : Within a t) (ha : a ≠ .orders)
    {reply : α → Reply} : (t.program reply).Follows filing (fun _ _ => True) ph := by
  refine Coro.program_ends (Task.wp_allowed (P := filing) (fun _ r hr => ?_)
    (h {} Session.clean_new.staged)) (fun _ _ _ _ => trivial) fun _ _ _ _ => trivial
  exact permits_plain (orderFree_plain r (inArea_orderFree ha r hr))

theorem programOf_files (settings : Settings) (c : Call) :
    (programOf settings c).Follows filing (fun _ _ => True) .away := by
  have hnew := Session.clean_new
  cases c with
  | place r => exact Coro.program_files (place_files r hnew)
  | replay limit => exact Coro.program_files (replayRun_files limit hnew)
  | cancel o => exact Coro.program_files (cancel_files o hnew)
  | ensure b f =>
      exact Coro.program_files (plain_ends ((ensure_calm [] b f).mono ensuring_plain) hnew)
  | createSubscription c a b m =>
      exact (createSubscription_within c a b m).files fun h => by cases h
  | enforceExpiry t => exact (enforceExpiry_within t).files fun h => by cases h
  | expireNow i => exact (expireNow_within i).files fun h => by cases h
  | allocateIp region => exact (allocateIp_within region).files fun h => by cases h
  | assign x b c => exact (assignIp_within x b c).files fun h => by cases h
  | attach x i => exact (attachIp_within x i).files fun h => by cases h
  | detach x => exact (detachIp_within x).files fun h => by cases h
  | release x => exact (releaseIp_within settings x).files fun h => by cases h
  | rotate b f => exact (rotate_within settings b f).files fun h => by cases h

end Follow

/-! ## Every run -/

/-- The attempts that only this call may touch. -/
def Filing.Own : Filing → AttemptId → Prop
  | .drawn x, y => y = x
  | .filed row, y | .opened row, y => y = row.id
  | _, _ => False

/-- Call `i` has opened this attempt, and it is as it was then. -/
def Filed (i : Nat) (row : OrderAttempt) (h : Past World Req) : Prop :=
  Drew i row.id h.2 ∧ h.1.db.attempts.get? row.id = some row ∧ row.acceptance? = none

/-- What holds where a call is. -/
def Filing.At (i : Nat) : Filing → Past World Req → Prop
  | .away, _ => True
  | .drawn x, h => Drew i x h.2
  | .filed row, h | .opened row, h => Filed i row h
  | .adopting o, h => ∃ a ∈ h.1.db.acceptances, a.order = o
  | .void, _ => False

section Runs

variable {i j : Nat} {h : Past World Req} {ph ph' : Filing} {r : Req} {ws : List Write} {d : Db}
  {row : OrderAttempt}

/-- What a call commits. -/
theorem Filing.At.tells (hat : ph.At i h) (hp : ph.permits (.commit ws))
    (hd : h.1.db.write? h.1.clock ws = some d) : ∃ A, h.1.db.Tells ph.Own A A d := by
  obtain hplain | hcancels | hwrites := hp
  · exact ⟨[], tells_plains hplain hd⟩
  · exact ⟨[], tells_cancels hcancels hd⟩
  cases ph with
  | away => exact hwrites.elim
  | filed row => exact hwrites.elim
  | void => exact hat.elim
  | adopting o => exact ⟨[], tells_settles hwrites hat hd⟩
  | drawn x =>
      obtain ⟨row, hopens⟩ := hwrites
      exact ⟨[], (tells_opens hopens hd).1⟩
  | opened row =>
      obtain ⟨-, hrow, hnone⟩ := hat
      obtain ⟨a, hrecords⟩ | hfails := hwrites
      · exact ⟨[a], tells_records hrecords hrow hnone hd⟩
      · exact ⟨[], tells_fails hfails ⟨row, hrow, rfl, hnone⟩ hd⟩

/-- A request of a call, and what it does to the tables. -/
theorem Filing.At.step (hat : ph.At i h) (hp : ph.permits r) (e : Env) :
    ∃ A, h.1.db.Tells ph.Own A A (handle r e h.1).2.db := by
  by_cases hcommit : ∃ ws, r = .commit ws
  · obtain ⟨ws, rfl⟩ := hcommit
    obtain ⟨f, hf⟩ | ⟨d, hd, hf⟩ := commit_cases ws e h.1
    · rw [hf]
      exact ⟨[], Db.Tells.rfl'⟩
    · rw [hf]
      exact hat.tells hp hd
  · rw [handle_db fun ws heq => hcommit ⟨ws, heq⟩]
    exact ⟨[], Db.Tells.rfl'⟩

theorem Filing.At.drew (hat : ph.At i h) {x : AttemptId} (hx : ph.Own x) : Drew i x h.2 := by
  cases ph with
  | drawn y =>
      obtain rfl : x = y := hx
      exact hat
  | filed row | opened row =>
      obtain rfl : x = row.id := hx
      exact hat.1
  | _ => exact hx.elim

/-- Other calls have not drawn the same id. -/
theorem Filed.other (hf : Filed j row h) (ht : TokensApart h) (hij : j ≠ i) (hat : ph.At i h)
    (hp : ph.permits r) (e : Env) :
    Filed j row ((handle r e h.1).2, (i, r, h.1) :: h.2) := by
  obtain ⟨hdrew, hrow, hnone⟩ := hf
  obtain ⟨A, htells⟩ := hat.step hp e
  refine ⟨hdrew.cons _, ?_, hnone⟩
  rw [htells.attempts row.id fun hown => hij (ht.unique j i row.id hdrew (hat.drew hown))]
  exact hrow

theorem Filing.At.other (hat' : ph'.At j h) (ht : TokensApart h) (hij : j ≠ i) (hat : ph.At i h)
    (hp : ph.permits r) (e : Env) :
    ph'.At j ((handle r e h.1).2, (i, r, h.1) :: h.2) := by
  cases ph' with
  | away => trivial
  | void => exact hat'.elim
  | drawn x => exact Drew.cons hat' _
  | filed row | opened row => exact Filed.other hat' ht hij hat hp e
  | adopting o =>
      obtain ⟨A, htells⟩ := hat.step hp e
      obtain ⟨a, ha, ho⟩ := hat'
      exact ⟨a, htells.kept ha, ho⟩

/-- As long as the tables are as they were, so is what a call knows. -/
theorem Filing.At.stays (hat : ph.At i h) {e : Env} (hdb : (handle r e h.1).2.db = h.1.db) :
    ph.At i ((handle r e h.1).2, (i, r, h.1) :: h.2) := by
  cases ph with
  | away => trivial
  | void => exact hat.elim
  | drawn x => exact Drew.cons hat _
  | filed row | opened row =>
      obtain ⟨hdrew, hrow, hnone⟩ := hat
      exact ⟨hdrew.cons _, by rw [hdb]; exact hrow, hnone⟩
  | adopting o =>
      show ∃ a ∈ (handle r e h.1).2.db.acceptances, a.order = o
      rw [hdb]
      exact hat

/-- A database answers with the row that it has. -/
theorem Filing.At.readAttempt (hat : ph.At i h) {x : AttemptId} {a : OrderAttempt}
    (ha : h.1.db.attempts.get? x = some a) : (ph.readAttempt x a).At i h := by
  cases ph with
  | filed row =>
      obtain ⟨hdrew, hrow, hnone⟩ := hat
      show Filing.At i (if x = row.id then if a = row then .opened row else .void else .filed row) h
      split
      · next hx =>
          have hsame : a = row := Option.some.inj (ha.symm.trans (hx ▸ hrow))
          rw [if_pos hsame]
          exact ⟨hdrew, hrow, hnone⟩
      · exact ⟨hdrew, hrow, hnone⟩
  | _ => exact hat

/-- An attempt that can be adopted records an acceptance of its order. -/
theorem Filing.At.readAttempts (hat : ph.At i h) {o : OrderId} {rows : List OrderAttempt}
    (hrows : ∀ a ∈ rows, h.1.db.attempts.get? a.id = some a ∧ a.orderId = o) :
    (ph.readAttempts o rows).At i h := by
  unfold Filing.readAttempts
  split
  · next hsome =>
      obtain ⟨⟨a, bo⟩, hfound⟩ := Option.isSome_iff_exists.mp hsome
      obtain ⟨x, hx, hadopt⟩ := List.exists_of_findSome?_eq_some hfound
      obtain ⟨rfl, hsub, -⟩ := adoptable_eq.mp hadopt
      obtain ⟨hstored, ho⟩ := hrows x hx
      have hrecorded : x.acceptance? = some x.acceptance := if_pos hsub
      refine ⟨x.acceptance, ?_, ho⟩
      exact List.mem_filterMap.mpr ⟨x, (Table.get?_eq_some.mp hstored).1, hrecorded⟩
  · exact hat

theorem Filing.At.read (hat : ph.At i h) (q : Query) (e : Env) :
    (ph.read q (.ok (q.eval e h.1.clock h.1.db))).At i h := by
  cases q with
  | attempt o x =>
      show (Filing.read ph (.attempt o x) (.ok ((h.1.db.attempts.lookup x).bind _))).At i h
      cases hlook : h.1.db.attempts.lookup x with
      | none => exact hat
      | some r =>
          rw [Option.bind_some]
          split
          · exact hat.readAttempt (Table.lookup_eq_some.mp hlook)
          · exact hat
  | attemptsOf o => exact hat.readAttempts fun a ha => mem_attemptsOf.mp ha
  | _ => exact hat

/-- A commit past which the call has an attempt has opened it. -/
theorem Filing.At.commits (hat : ph.At i h) (hp : ph.permits (.commit ws))
    (hd : h.1.db.write? h.1.clock ws = some d) (x : Nat × Req × World) :
    (ph.committed ws).At i ({ h.1 with db := d }, x :: h.2) := by
  unfold Filing.committed
  split
  · next y row rest =>
      obtain hplain | ⟨o, p, heq, -⟩ | ⟨row', hopens⟩ := hp
      · exact (hplain _ List.mem_cons_self).elim
      · cases heq
      · have hstored := (tells_opens hopens hd).2
        obtain ⟨rest', heq, hid, hnone, -⟩ := hopens
        cases heq
        exact ⟨hid ▸ Drew.cons hat x, hstored, hnone⟩
  · trivial

theorem Filing.At.own (hat : ph.At i h) (hp : ph.permits r) (e : Env) :
    (ph.advance r (handle r e h.1).1).At i ((handle r e h.1).2, (i, r, h.1) :: h.2) := by
  cases r with
  | newId => exact drew_newId i h
  | query ws q =>
      have hstays := hat.stays (handle_db (r := .query ws q) (fun _ heq => by cases heq) e h.1)
      cases ws with
      | cons u us => exact hstays
      | nil =>
          obtain ⟨f, hf⟩ | hf := query_cases [] q e h.1
          · rw [hf] at hstays ⊢
            have hread : ph.read q (.error f) = ph := by cases q <;> rfl
            show (ph.read q (.error f)).At i _
            rw [hread]
            exact hstays
          · rw [hf] at hstays ⊢
            exact hstays.read q e
  | commit ws =>
      obtain ⟨f, hf⟩ | ⟨d, hd, hf⟩ := commit_cases ws e h.1
      · have hstays := hat.stays (r := .commit ws) (e := e) (by rw [hf])
        rw [hf] at hstays ⊢
        exact hstays
      · rw [hf]
        exact hat.commits hp hd _
  | _ => exact hat.stays (handle_db (fun _ heq => by cases heq) e h.1)

end Runs

def filings (s : Settings) (w : World) :
    Annotation (system s) filing (fun _ _ => True) (Idle w) anyEvent where
  inv h := TokensApart h ∧ h.1.db.Told
  holds i ph _ h := ph.At i h
  start _ _ _ := ⟨.away, programOf_files s _, trivial⟩
  own {p i e r k ph} _ _ _ hf hinv hat _ := by
    obtain ⟨A, htells⟩ := hat.step hf.allows e
    exact ⟨⟨hinv.1.after _ _ _, htells.told hinv.2⟩, hat.own hf.allows e⟩
  other {p i j e r k q ph ph'} _ _ _ hij hf _ hinv hat hat' := hat'.other hinv.1 hij hat hf.allows e
  tick {p v} _ hinv := by
    obtain ⟨hapart, htold⟩ := hinv
    cases v <;> exact ⟨⟨hapart.lt, hapart.unique⟩, htold.accepted, htold.submitted, htold.cancelled⟩
  tick_holds {p v j ph q} _ _ _ hat := by
    cases ph <;> cases v <;> exact hat

/-- Whatever calls run, and wherever they stop, the attempts and the outbox say the same. -/
theorem told_of_run (s : Settings) {w : World} (hw : w.db.Told) (evs : List Happening) :
    ((system s).run { world := w } evs).world.db.Told :=
  ((filings s w).sound (fun p hp => by
    cases hp
    exact ⟨⟨tokens_nil w, hw⟩, rfl⟩) (Machine.reach_run (reach_idle w) evs)).1.2

/-! ## An order accepted twice and cancelled -/

theorem told_oneBroker : oneBroker.db.Told where
  accepted := List.Perm.refl _
  submitted _ _ hr := by cases hr
  cancelled _ _ hr := by cases hr

/-- The first acceptance is lost with its call, the second one is recorded. -/
def cancelledLate : List Happening :=
  crashedLate ++ [.start (.cancel 3)] ++ steps 2 20

theorem told_cancelledLate :
    ((system {}).run { world := oneBroker } cancelledLate).world.db.Told ∧
      ((system {}).run { world := oneBroker } cancelledLate).world.db.acceptances.length = 1 :=
  ⟨told_of_run {} told_oneBroker cancelledLate, by decide +kernel⟩

end BrokerBridge
