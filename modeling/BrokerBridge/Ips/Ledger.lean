import BrokerBridge.World.Frame
import Mathlib.Logic.Function.Basic

/-!
# The ledger of static IPs

What the database says of static IPs, as functions from ids to rows: the IPs, their
assignments, their usage. The other tables that the IP services read, and never
write, stand beside them, and so do the events they announce. Every write of these
services puts one row there, and every answer of a query is what the ledger has. The provider's
side is a function from resource ids to resources.

The tables of the database and the provider's list implement both.
-/

namespace BrokerBridge

open Conc

/-- Rows are found under their own ids. -/
def Keyed {α : Type} (key : α → Nat) (f : Nat → Option α) : Prop :=
  ∀ k a, f k = some a → key a = k

theorem Keyed.update {α : Type} {key : α → Nat} {f : Nat → Option α} (hf : Keyed key f) (a : α) :
    Keyed key (Function.update f (key a) (some a)) := by
  intro k b h
  rw [Function.update_apply] at h
  split at h
  · next hk =>
      cases h
      exact hk.symm
  · exact hf k b h

@[ext] structure Ledger where
  ips : IpId → Option StaticIp
  assignments : AssignmentId → Option IpAssignment
  history : HistoryId → Option BrokerIpUsageHistory
  instances : InstanceId → Option Instance
  brokers : BrokerId → Option BrokerAccount
  /-- How many orders are in flight on an IP. -/
  inflight : IpId → Nat
  config : Config
  outbox : List OutboxEvent
  ip_id : Keyed StaticIp.id ips
  assignment_id : Keyed IpAssignment.id assignments
  usage_id : Keyed BrokerIpUsageHistory.id history
  instance_id : Keyed Instance.id instances

namespace Ledger

variable (L : Ledger)

def putIp (ip : StaticIp) : Ledger :=
  { L with ips := Function.update L.ips ip.id (some ip), ip_id := L.ip_id.update ip }

def putAssignment (a : IpAssignment) : Ledger :=
  { L with
    assignments := Function.update L.assignments a.id (some a)
    assignment_id := L.assignment_id.update a }

def putHistory (h : BrokerIpUsageHistory) : Ledger :=
  { L with
    history := Function.update L.history h.id (some h)
    usage_id := L.usage_id.update h }

def announce (p : EventPayload) : Ledger := { L with outbox := L.outbox ++ [{ payload := p }] }

variable {L}

theorem putIp_self {ip : StaticIp} (h : L.ips ip.id = some ip) : L.putIp ip = L := by
  ext1
  case ips =>
    exact (congrArg (Function.update L.ips ip.id) h.symm).trans (Function.update_eq_self ..)
  all_goals rfl

theorem putAssignment_self {a : IpAssignment} (h : L.assignments a.id = some a) :
    L.putAssignment a = L := by
  ext1
  case assignments =>
    exact (congrArg (Function.update L.assignments a.id) h.symm).trans (Function.update_eq_self ..)
  all_goals rfl

theorem putHistory_self {h : BrokerIpUsageHistory} (hh : L.history h.id = some h) :
    L.putHistory h = L := by
  ext1
  case history =>
    exact (congrArg (Function.update L.history h.id) hh.symm).trans (Function.update_eq_self ..)
  all_goals rfl

@[simp] theorem ips_putIp (ip : StaticIp) :
    (L.putIp ip).ips = Function.update L.ips ip.id (some ip) := rfl

@[simp] theorem assignments_putAssignment (a : IpAssignment) :
    (L.putAssignment a).assignments = Function.update L.assignments a.id (some a) := rfl

@[simp] theorem history_putHistory (h : BrokerIpUsageHistory) :
    (L.putHistory h).history = Function.update L.history h.id (some h) := rfl

/-- The assignment is active, and this broker's. -/
def ActiveFor (L : Ledger) (b : BrokerId) (a : IpAssignment) : Prop :=
  L.assignments a.id = some a ∧ a.brokerAccountId = b ∧ a.status = .active

/-- The assignment is active, and of this IP. -/
def ActiveOn (L : Ledger) (x : IpId) (a : IpAssignment) : Prop :=
  L.assignments a.id = some a ∧ a.staticIpId = x ∧ a.status = .active

/-- A usage row of the broker and the IP. -/
def Usage (L : Ledger) (b : BrokerId) (x : IpId) (h : BrokerIpUsageHistory) : Prop :=
  L.history h.id = some h ∧ h.brokerAccountId = b ∧ h.staticIpId = x

end Ledger

/-- The rows are those in `P`, each once. -/
structure Lists {α : Type} (P : α → Prop) (key : α → Nat) (rows : List α) : Prop where
  mem : ∀ a, a ∈ rows ↔ P a
  nodup : (rows.map key).Nodup

/-- The answer is what the ledger has. -/
def Ledger.Answers (L : Ledger) : (q : Query) → q.Res → Prop
  | .ip x, y => y = L.ips x
  | .assignment a, y => y = L.assignments a
  | .instanceById i, y => y = L.instances i
  | .broker b, y => y = L.brokers b
  | .config, y => y = L.config
  | .countInflight x, n => n = L.inflight x
  | .activeAssignment b, none => ∀ a, L.ActiveFor b a → L.ips a.staticIpId = none
  | .activeAssignment b, some y => L.ActiveFor b y.1 ∧ L.ips y.1.staticIpId = some y.2
  | .activeAssignmentsOfBroker b, rows => Lists (L.ActiveFor b) IpAssignment.id rows
  | .activeAssignmentsOfIp x, rows => Lists (L.ActiveOn x) IpAssignment.id rows
  | .usageHistory b x, rows => Lists (L.Usage b x) BrokerIpUsageHistory.id rows
  | .openUsageHistory b x, rows =>
      Lists (fun h => L.Usage b x h ∧ h.releasedAt = none) BrokerIpUsageHistory.id rows
  | _, _ => True

/-! ## The database -/

def Db.ledger (d : Db) : Ledger where
  ips := d.ips.get?
  assignments := d.assignments.get?
  history := d.history.get?
  instances := d.instances.get?
  brokers := d.brokers.get?
  inflight x := (d.orders.rows.filter fun r => r.staticIpId == some x && !r.status.drained).length
  config := d.config
  outbox := d.outbox
  ip_id := fun _ _ => Table.get?_key
  assignment_id := fun _ _ => Table.get?_key
  usage_id := fun _ _ => Table.get?_key
  instance_id := fun _ _ => Table.get?_key

section Writes

variable {now : Instant} {d : Db}

theorem get?_update_eq {α : Type} [Row α] {t : Table α} {a : α} (h : t.get? (Row.key a) = some a)
    (f : Row.Field α) :
    (t.update (Row.key a) f).get? = Function.update t.get? (Row.key a) (some (Row.set f a)) := by
  funext k
  rw [Table.get?_update, Function.update_apply, h]
  rfl

theorem get?_insert_eq {α : Type} [Row α] {t : Table α} {a : α} (h : t.get? (Row.key a) = none) :
    (t.insert a).get? = Function.update t.get? (Row.key a) (some a) := by
  funext k
  rw [Function.update_apply]
  split
  · next hk =>
      subst hk
      rw [Table.get?_eq_some, Table.mem_rows_insert h]
      exact ⟨.inr rfl, rfl⟩
  · next hk => exact Table.get?_insert_of_ne hk

theorem ledger_setIp {ip : StaticIp} (h : d.ledger.ips ip.id = some ip) (f : StaticIpField) :
    ((Write.setIp ip.id f).apply now d).ledger = d.ledger.putIp (f.set ip) := by
  have hid : (f.set ip).id = ip.id := Row.key_set f ip
  ext1
  case ips =>
    show (d.ips.update ip.id f).get? = Function.update d.ips.get? (f.set ip).id _
    rw [hid]
    exact get?_update_eq h f
  all_goals rfl

theorem ledger_setAssignment {a : IpAssignment} (h : d.ledger.assignments a.id = some a)
    (f : IpAssignmentField) :
    ((Write.setAssignment a.id f).apply now d).ledger = d.ledger.putAssignment (f.set a) := by
  have hid : (f.set a).id = a.id := Row.key_set f a
  ext1
  case assignments =>
    show (d.assignments.update a.id f).get? = Function.update d.assignments.get? (f.set a).id _
    rw [hid]
    exact get?_update_eq h f
  all_goals rfl

theorem ledger_setHistory {h : BrokerIpUsageHistory} (hh : d.ledger.history h.id = some h)
    (f : BrokerIpUsageHistoryField) :
    ((Write.setHistory h.id f).apply now d).ledger = d.ledger.putHistory (f.set h) := by
  have hid : (f.set h).id = h.id := Row.key_set f h
  ext1
  case history =>
    show (d.history.update h.id f).get? = Function.update d.history.get? (f.set h).id _
    rw [hid]
    exact get?_update_eq hh f
  all_goals rfl

theorem ledger_addIp {ip : StaticIp} (h : d.ledger.ips ip.id = none) :
    ((Write.addIp ip).apply now d).ledger = d.ledger.putIp ip := by
  ext1
  case ips => exact get?_insert_eq h
  all_goals rfl

theorem ledger_addAssignment {a : IpAssignment} (h : d.ledger.assignments a.id = none) :
    ((Write.addAssignment a).apply now d).ledger = d.ledger.putAssignment a := by
  ext1
  case assignments => exact get?_insert_eq h
  all_goals rfl

theorem ledger_addHistory {h : BrokerIpUsageHistory} (hh : d.ledger.history h.id = none) :
    ((Write.addHistory h).apply now d).ledger = d.ledger.putHistory h := by
  ext1
  case history => exact get?_insert_eq hh
  all_goals rfl

end Writes

theorem lists_filter {α : Type} [Row α] (t : Table α) (p : α → Bool) {P : α → Prop}
    (h : ∀ a, P a ↔ t.get? (Row.key a) = some a ∧ p a = true) :
    Lists P Row.key (t.rows.filter p) where
  mem a := by
    rw [List.mem_filter, h, Table.get?_eq_some]
    exact ⟨fun h => ⟨⟨h.1, rfl⟩, h.2⟩, fun h => ⟨h.1.1, h.2⟩⟩
  nodup := t.nodup.sublist (List.filter_sublist.map _)

theorem eval_answers (e : Env) (now : Instant) (d : Db) (q : Query) :
    d.ledger.Answers q (q.eval e now d) := by
  cases q with
  | ip | assignment | instanceById | broker | config | countInflight => rfl
  | activeAssignmentsOfBroker b =>
      refine lists_filter d.assignments _ fun a => ?_
      simp [Ledger.ActiveFor, IpAssignment.activeFor, Db.ledger, Row.key]
  | activeAssignmentsOfIp x =>
      refine lists_filter d.assignments _ fun a => ?_
      simp [Ledger.ActiveOn, Db.ledger, Row.key]
  | usageHistory b x =>
      refine lists_filter d.history _ fun h => ?_
      simp [Ledger.Usage, Db.ledger, Row.key]
  | openUsageHistory b x =>
      refine lists_filter d.history _ fun h => ?_
      simp [Ledger.Usage, Db.ledger, Row.key, and_assoc]
  | activeAssignment b =>
      have hactive : ∀ a, a ∈ d.assignments.rows.filter (·.activeFor b) ↔
        d.ledger.ActiveFor b a := by
        refine (lists_filter d.assignments _ fun a => ?_).mem
        simp [Ledger.ActiveFor, IpAssignment.activeFor, Db.ledger, Row.key]
      cases hrow : (Query.activeAssignment b).eval e now d with
      | none =>
          intro a ha
          have hmiss := List.findSome?_eq_none_iff.mp hrow a ((hactive a).mpr ha)
          exact Option.map_eq_none_iff.mp hmiss
      | some y =>
          obtain ⟨a, hmem, ha⟩ := List.exists_of_findSome?_eq_some hrow
          obtain ⟨ip, hip, rfl⟩ := Option.map_eq_some_iff.mp ha
          exact ⟨(hactive a).mp hmem, hip⟩
  | _ => trivial

/-! ## The provider -/

/-- The provider's IPs by their resource ids. -/
abbrev Cloud : Type := ExternalId → Option CloudIp

def World.cloud (w : World) : Cloud := fun ext => w.cloudIps.find? (·.externalId == ext)

theorem cloud_mem {w : World} {ext : ExternalId} {ip : CloudIp} (h : w.cloud ext = some ip) :
    ip ∈ w.cloudIps := List.mem_of_find?_eq_some h

theorem cloud_externalId {w : World} {ext : ExternalId} {ip : CloudIp}
    (h : w.cloud ext = some ip) : ip.externalId = ext := by
  have := List.find?_some h
  simpa using this

/-- What a call about an IP that exists does. -/
def InfraCall.onCloud (C : Cloud) : InfraCall → Cloud
  | .deleteIp ext => Function.update C ext ((C ext).map .delete)
  | .attachIp ext instExt => Function.update C ext
      (some (((C ext).getD { externalId := ext, ipAddress := "" }).attach instExt))
  | .detachIp ext => Function.update C ext ((C ext).map .detach)
  | _ => C

theorem cloud_setCloudIp {f : CloudIp → CloudIp} (hf : ∀ ip, (f ip).externalId = ip.externalId)
    (w : World) (ext : ExternalId) :
    (w.setCloudIp ext f).cloud = Function.update w.cloud ext ((w.cloud ext).map f) := by
  funext y
  simp only [World.cloud, World.setCloudIp, Function.update_apply]
  induction w.cloudIps with
  | nil => simp
  | cons ip ips ih =>
      rw [List.map_cons, List.find?_cons, List.find?_cons, List.find?_cons, ih]
      have hkey : (if ip.externalId = ext then f ip else ip).externalId = ip.externalId := by
        split
        · exact hf ip
        · rfl
      rw [hkey]
      by_cases hy : y = ext
      · subst hy
        by_cases hip : ip.externalId = y
        · simp [hip]
        · simp [beq_eq_false_iff_ne.mpr hip]
      · by_cases hip : ip.externalId = y
        · simp [hip, hy]
        · simp [beq_eq_false_iff_ne.mpr hip, hy]

theorem cloud_append (w : World) {ip : CloudIp} (h : w.cloud ip.externalId = none) :
    ({ w with cloudIps := w.cloudIps ++ [ip] } : World).cloud =
      Function.update w.cloud ip.externalId (some ip) := by
  funext y
  simp only [World.cloud, List.find?_append, Function.update_apply]
  split
  · next hy =>
      subst hy
      rw [show w.cloudIps.find? (·.externalId == ip.externalId) = none from h]
      simp
  · next hy => simp [Ne.symm hy]

theorem eval_cloud (c : InfraCall) (hc : ∀ region, c ≠ .createIp region) (e : Env) (w : World) :
    (c.eval e w).2.cloud = c.onCloud w.cloud := by
  cases c with
  | createIp region => exact absurd rfl (hc region)
  | deleteIp ext => exact cloud_setCloudIp (f := .delete) (fun _ => rfl) w ext
  | detachIp ext => exact cloud_setCloudIp (f := .detach) (fun _ => rfl) w ext
  | attachIp ext instExt =>
      simp only [InfraCall.eval, InfraCall.onCloud]
      cases hip : w.cloud ext with
      | none =>
          have hany : ¬ w.cloudIps.any (·.externalId == ext) = true := by
            rw [List.any_eq_true]
            rintro ⟨ip, hmem, hext⟩
            exact List.find?_eq_none.mp hip ip hmem hext
          rw [if_neg hany]
          exact cloud_append w hip
      | some ip =>
          have hany : w.cloudIps.any (·.externalId == ext) = true :=
            List.any_eq_true.mpr ⟨ip, cloud_mem hip, beq_iff_eq.mpr (cloud_externalId hip)⟩
          rw [if_pos hany]
          refine (cloud_setCloudIp (f := .attach instExt) (fun _ => rfl) w ext).trans ?_
          rw [hip]
          rfl
  | destroyInstance =>
      simp only [InfraCall.eval]
      split <;> rfl
  | setAutoRenew =>
      simp only [InfraCall.eval]
      split <;> rfl
  | _ => rfl

/-! ## New ids -/

/-- Nothing has this id yet. -/
structure Ledger.Fresh (L : Ledger) (C : Cloud) (i : Nat) : Prop where
  ip : L.ips i = none
  assignment : L.assignments i = none
  usage : L.history i = none
  external : ∀ x ip, L.ips x = some ip → ip.externalId ≠ i
  unassigned : ∀ y a, L.assignments y = some a → a.staticIpId ≠ i
  unused : ∀ y h, L.history y = some h → h.staticIpId ≠ i
  resource : C i = none

theorem fresh_newId (w : World) : w.db.ledger.Fresh w.cloud w.freshId := by
  have hids : ∀ i ∈ w.db.ids, i ≠ w.freshId := fun i hi =>
    Nat.ne_of_lt (lt_freshId (mem_ids_of_db hi))
  have hrow : ∀ {α : Type} (l : List α) (f : α → Nat), (∀ i ∈ l.map f, i ∈ w.db.ids) →
      ∀ a ∈ l, f a ≠ w.freshId := fun l f hl a ha =>
    hids _ (hl _ (List.mem_map_of_mem ha))
  constructor
  · refine get?_none_of_fresh (hrow _ StaticIp.id fun i hi => ?_)
    simp only [Db.ids, List.mem_append, hi, true_or, or_true]
  · refine get?_none_of_fresh (hrow _ IpAssignment.id fun i hi => ?_)
    simp only [Db.ids, List.mem_append, hi, true_or, or_true]
  · refine get?_none_of_fresh (hrow _ BrokerIpUsageHistory.id fun i hi => ?_)
    simp only [Db.ids, List.mem_append, hi, true_or, or_true]
  · intro x ip hip
    refine hrow _ StaticIp.externalId (fun i hi => ?_) ip (Table.get?_eq_some.mp hip).1
    simp only [Db.ids, List.mem_append, hi, true_or, or_true]
  · intro y a ha
    refine hrow _ IpAssignment.staticIpId (fun i hi => ?_) a (Table.get?_eq_some.mp ha).1
    simp only [Db.ids, List.mem_append, hi, true_or, or_true]
  · intro y h hh
    refine hrow _ BrokerIpUsageHistory.staticIpId (fun i hi => ?_) h (Table.get?_eq_some.mp hh).1
    simp only [Db.ids, List.mem_append, hi, true_or, or_true]
  · refine List.find?_eq_none.mpr fun ip hip => ?_
    have hmem : ip.externalId ∈ w.ids := by
      have := List.mem_map_of_mem (f := CloudIp.externalId) hip
      simp only [World.ids, List.mem_append, this, true_or, or_true]
    simpa using Nat.ne_of_lt (lt_freshId hmem)

end BrokerBridge
