import BrokerBridge.World.Handle

/-!
# The tables of the administration

Provider configurations, configuration items, and the outbox with what the
publishers need of it. The services of the other modules write to the outbox
too; here their events are simply rows that appear.

A bulk `UPDATE` is a statement of its own: it sets the rows it finds, and the
rows it has found are what is pending until the commit. Under READ COMMITTED
every statement sees what is committed when it begins, and the writes of its own
transaction. A row that two transactions update stays locked until the first
commits; the model lets the second go on, which changes the order of some steps
and not what is committed.
-/

namespace BrokerBridge.Admin

open Conc

abbrev ProviderConfigId := Nat
abbrev ItemId := Nat
abbrev OutboxId := Nat
abbrev UserId := Nat

inductive ProviderKind where
  | infrastructure | brokerDefault | event | cache | lock | session
  deriving DecidableEq, Repr

/-- `ProviderKind(kind)` -/
def ProviderKind.ofString : String → Option ProviderKind
  | "infrastructure" => some .infrastructure
  | "broker_default" => some .brokerDefault
  | "event" => some .event
  | "cache" => some .cache
  | "lock" => some .lock
  | "session" => some .session
  | _ => none

inductive ProviderScope where
  | global | client
  deriving DecidableEq, Repr

inductive ProviderStatus where
  | pending | active | retired | failedValidation
  deriving DecidableEq, Repr

/-- A configuration body, as far as the modelled functions look into it. -/
structure ProviderBody where
  mockBackend : Option String := none
  apiKey : Option String := none
  defaultRegion : Option String := none
  region : Option String := none
  deriving DecidableEq

structure ProviderConfig where
  id : ProviderConfigId
  kind : ProviderKind
  providerType : String
  scopeType : ProviderScope := .global
  clientId : Option ClientId := none
  status : ProviderStatus := .pending
  version : Nat := 1
  config : ProviderBody := {}
  activatedAt : Option Instant := none
  deriving DecidableEq

inductive ProviderConfigField where
  | status (x : ProviderStatus)
  deriving DecidableEq

def ProviderConfigField.set : ProviderConfigField → ProviderConfig → ProviderConfig
  | .status x, r => { r with status := x }

instance : Row ProviderConfig where
  key := ProviderConfig.id
  Field := ProviderConfigField
  set := ProviderConfigField.set
  key_set f r := by cases f; rfl

/-- The row in force for everyone, as `_active_row` looks for it. -/
def ProviderConfig.activeGlobal (k : ProviderKind) (r : ProviderConfig) : Bool :=
  r.kind = k && r.status = .active && r.clientId.isNone && r.scopeType = .global

structure ConfigurationItem where
  id : ItemId
  key : String
  value : String
  version : Nat := 1
  updatedBy : Option UserId := none
  deriving DecidableEq

inductive ConfigurationItemField where
  | value (x : String)
  | version (x : Nat)
  | updatedBy (x : Option UserId)
  deriving DecidableEq

def ConfigurationItemField.set : ConfigurationItemField → ConfigurationItem → ConfigurationItem
  | .value x, r => { r with value := x }
  | .version x, r => { r with version := x }
  | .updatedBy x, r => { r with updatedBy := x }

instance : Row ConfigurationItem where
  key := ConfigurationItem.id
  Field := ConfigurationItemField
  set := ConfigurationItemField.set
  key_set f r := by cases f <;> rfl

/-- The payload of an event: of the two that the administration announces, and
of any other. -/
inductive Payload where
  | configUpdated (key : String) (version : Nat)
  | providerActivated (kind providerType : String) (version : Nat)
  | other (json : String)
  deriving DecidableEq

structure OutboxRow where
  id : OutboxId
  eventType : String
  topic : String := "ip"
  payload : Payload
  status : OutboxStatus := .pending
  error : Option String := none
  correlationId : Option String := none
  createdAt : Instant := 0
  sentAt : Option Instant := none
  deriving DecidableEq

inductive OutboxRowField where
  | status (x : OutboxStatus)
  | error (x : Option String)
  | sentAt (x : Option Instant)
  deriving DecidableEq

def OutboxRowField.set : OutboxRowField → OutboxRow → OutboxRow
  | .status x, r => { r with status := x }
  | .error x, r => { r with error := x }
  | .sentAt x, r => { r with sentAt := x }

instance : Row OutboxRow where
  key := OutboxRow.id
  Field := OutboxRowField
  set := OutboxRowField.set
  key_set f r := by cases f <;> rfl

structure Tables where
  providers : Table ProviderConfig := {}
  items : Table ConfigurationItem := {}
  outbox : Table OutboxRow := {}

inductive Write where
  | addProvider (row : ProviderConfig)
  | setProvider (id : ProviderConfigId) (f : ProviderConfigField)
  | addItem (row : ConfigurationItem)
  | setItem (id : ItemId) (f : ConfigurationItemField)
  | addOutbox (row : OutboxRow)
  | setOutbox (id : OutboxId) (f : OutboxRowField)

namespace Write

/-- The write runs into a constraint: a primary key, or the key of an item. -/
def conflicts (d : Tables) : Write → Bool
  | addProvider r => (d.providers.get? r.id).isSome
  | addItem r => (d.items.get? r.id).isSome || d.items.rows.any fun r' => r'.key == r.key
  | addOutbox r => (d.outbox.get? r.id).isSome
  | _ => false

/-- The write done, at time `now`. -/
def apply (now : Instant) (d : Tables) : Write → Tables
  | addProvider r => { d with providers := d.providers.insert r }
  | setProvider i f => { d with providers := d.providers.update i f }
  | addItem r => { d with items := d.items.insert r }
  | setItem i f => { d with items := d.items.update i f }
  | addOutbox r => { d with outbox := d.outbox.insert { r with createdAt := now } }
  | setOutbox i f => { d with outbox := d.outbox.update i f }

def checked (now : Instant) (d : Tables) (w : Write) : Option Tables :=
  if w.conflicts d then none else some (w.apply now d)

end Write

namespace Tables

/-- A list of writes, all or none. -/
def write? (now : Instant) (d : Tables) (ws : List Write) : Option Tables :=
  ws.foldlM (Write.checked now) d

/-- What a statement sees: the committed rows and its transaction's writes. -/
def view (now : Instant) (d : Tables) (ws : List Write) : Tables :=
  (d.write? now ws).getD d

@[simp] theorem view_nil {now : Instant} {d : Tables} : d.view now [] = d := rfl

theorem write?_cons {now : Instant} {d d' : Tables} {w : Write} {ws : List Write} :
    d.write? now (w :: ws) = some d' ↔
      w.conflicts d = false ∧ (w.apply now d).write? now ws = some d' := by
  simp only [write?, List.foldlM_cons, Write.checked]
  cases w.conflicts d <;> simp

theorem write?_append {now : Instant} {d d' : Tables} {ws ws' : List Write} :
    d.write? now (ws ++ ws') = some d' ↔
      ∃ d₁, d.write? now ws = some d₁ ∧ d₁.write? now ws' = some d' := by
  rw [write?, List.foldlM_append, Option.bind_eq_bind, Option.bind_eq_some_iff]
  rfl

end Tables

end BrokerBridge.Admin
