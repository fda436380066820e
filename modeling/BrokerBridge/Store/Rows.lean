import Mathlib.Data.Rat.Defs
import BrokerBridge.Conc.Table

/-!
# The rows of the database

One structure a table, with the columns the modelled services read or write,
under the source's names. Statuses are enumerations: the columns are strings,
but the services only ever store the values listed here. Ids are uuids, of
which only equality matters; instants are UTC, in any unit, and decimals and
floats are exact rationals.

Columns that no modelled function reads are left out: `created_at` and
`assigned_at`, the metadata and capability dictionaries apart from the
whitelist format, and the encrypted tokens apart from whether a refresh token
is there.

A service changes a row by setting attributes of its object. Each table whose
rows are changed has a type of the attributes that are ever set, and is a
`Row` by it.
-/

namespace BrokerBridge

open Conc

abbrev ClientId := Nat
abbrev SubscriptionId := Nat
abbrev BrokerId := Nat
abbrev InstanceId := Nat
abbrev IpId := Nat
abbrev AssignmentId := Nat
abbrev HistoryId := Nat
abbrev OrderId := Nat
abbrev AttemptId := Nat
/-- The broker's own order id, `mock-…` for the mock broker. -/
abbrev BrokerOrderId := Nat
/-- The infrastructure provider's resource id. -/
abbrev ExternalId := Nat
abbrev Instant := Int
abbrev Region := String

inductive ClientStatus where
  | active | suspended
  deriving DecidableEq, Repr

structure Client where
  id : ClientId
  status : ClientStatus := .active
  deriving DecidableEq

inductive ClientField where
  | status (x : ClientStatus)
  deriving DecidableEq

def ClientField.set : ClientField → Client → Client
  | .status x, r => { r with status := x }

instance : Row Client where
  key := Client.id
  Field := ClientField
  set := ClientField.set
  key_set f r := by cases f; rfl

inductive SubscriptionStatus where
  | active | expired
  deriving DecidableEq, Repr

inductive TeardownMode where
  | suspend | destroy
  deriving DecidableEq, Repr

structure Subscription where
  id : SubscriptionId
  clientId : ClientId
  status : SubscriptionStatus := .active
  startsAt : Instant
  endsAt : Instant
  teardownMode : TeardownMode := .suspend
  teardownCompletedAt : Option Instant := none
  deriving DecidableEq

inductive SubscriptionField where
  | status (x : SubscriptionStatus)
  | endsAt (x : Instant)
  | teardownCompletedAt (x : Option Instant)
  deriving DecidableEq

def SubscriptionField.set : SubscriptionField → Subscription → Subscription
  | .status x, r => { r with status := x }
  | .endsAt x, r => { r with endsAt := x }
  | .teardownCompletedAt x, r => { r with teardownCompletedAt := x }

instance : Row Subscription where
  key := Subscription.id
  Field := SubscriptionField
  set := SubscriptionField.set
  key_set f r := by cases f <;> rfl

structure BrokerAccount where
  id : BrokerId
  clientId : ClientId
  displayName : String := ""
  priority : Int := 100
  enabled : Bool := true
  allowedRegions : List Region := []
  rateLimitRps : Option Rat := none
  deriving DecidableEq

inductive BrokerAccountField where
  | enabled (x : Bool)
  | priority (x : Int)
  | rateLimitRps (x : Option Rat)
  deriving DecidableEq

def BrokerAccountField.set : BrokerAccountField → BrokerAccount → BrokerAccount
  | .enabled x, r => { r with enabled := x }
  | .priority x, r => { r with priority := x }
  | .rateLimitRps x, r => { r with rateLimitRps := x }

instance : Row BrokerAccount where
  key := BrokerAccount.id
  Field := BrokerAccountField
  set := BrokerAccountField.set
  key_set f r := by cases f <;> rfl

/-- `valid`, or whatever else the broker's token response says. -/
inductive SessionStatus where
  | valid | other
  deriving DecidableEq, Repr

structure BrokerSession where
  brokerAccountId : BrokerId
  status : SessionStatus
  expiresAt : Option Instant
  hasRefreshToken : Bool
  deriving DecidableEq

inductive BrokerSessionField where
  | status (x : SessionStatus)
  | expiresAt (x : Option Instant)
  | hasRefreshToken (x : Bool)
  deriving DecidableEq

def BrokerSessionField.set : BrokerSessionField → BrokerSession → BrokerSession
  | .status x, r => { r with status := x }
  | .expiresAt x, r => { r with expiresAt := x }
  | .hasRefreshToken x, r => { r with hasRefreshToken := x }

instance : Row BrokerSession where
  key := BrokerSession.brokerAccountId
  Field := BrokerSessionField
  set := BrokerSessionField.set
  key_set f r := by cases f <;> rfl

/-- `other` stands for the statuses a cloud provider reports that no service
of this repository looks for. -/
inductive InstanceStatus where
  | running | pending | suspended | destroyed | other
  deriving DecidableEq, Repr

structure Instance where
  id : InstanceId
  clientId : ClientId
  externalId : ExternalId
  region : Region
  status : InstanceStatus := .running
  autoRenew : Bool := true
  deriving DecidableEq

inductive InstanceField where
  | status (x : InstanceStatus)
  | autoRenew (x : Bool)
  deriving DecidableEq

def InstanceField.set : InstanceField → Instance → Instance
  | .status x, r => { r with status := x }
  | .autoRenew x, r => { r with autoRenew := x }

instance : Row Instance where
  key := Instance.id
  Field := InstanceField
  set := InstanceField.set
  key_set f r := by cases f <;> rfl

inductive IpStatus where
  | allocated | attached | detached | released | quarantined
  deriving DecidableEq, Repr

structure StaticIp where
  id : IpId
  externalId : ExternalId
  ipAddress : String
  region : Region
  status : IpStatus := .allocated
  instanceId : Option InstanceId := none
  deriving DecidableEq

inductive StaticIpField where
  | status (x : IpStatus)
  | instanceId (x : Option InstanceId)
  deriving DecidableEq

def StaticIpField.set : StaticIpField → StaticIp → StaticIp
  | .status x, r => { r with status := x }
  | .instanceId x, r => { r with instanceId := x }

instance : Row StaticIp where
  key := StaticIp.id
  Field := StaticIpField
  set := StaticIpField.set
  key_set f r := by cases f <;> rfl

inductive AssignmentStatus where
  | active | draining | released
  deriving DecidableEq, Repr

structure IpAssignment where
  id : AssignmentId
  clientId : ClientId
  brokerAccountId : BrokerId
  staticIpId : IpId
  status : AssignmentStatus := .active
  releasedAt : Option Instant := none
  deriving DecidableEq

inductive IpAssignmentField where
  | status (x : AssignmentStatus)
  | releasedAt (x : Option Instant)
  deriving DecidableEq

def IpAssignmentField.set : IpAssignmentField → IpAssignment → IpAssignment
  | .status x, r => { r with status := x }
  | .releasedAt x, r => { r with releasedAt := x }

instance : Row IpAssignment where
  key := IpAssignment.id
  Field := IpAssignmentField
  set := IpAssignmentField.set
  key_set f r := by cases f <;> rfl

structure BrokerIpUsageHistory where
  id : HistoryId
  brokerAccountId : BrokerId
  staticIpId : IpId
  usedAt : Instant
  releasedAt : Option Instant := none
  reuseEligibleAt : Option Instant := none
  deriving DecidableEq

inductive BrokerIpUsageHistoryField where
  | releasedAt (x : Option Instant)
  | reuseEligibleAt (x : Option Instant)
  deriving DecidableEq

def BrokerIpUsageHistoryField.set : BrokerIpUsageHistoryField → BrokerIpUsageHistory →
    BrokerIpUsageHistory
  | .releasedAt x, r => { r with releasedAt := x }
  | .reuseEligibleAt x, r => { r with reuseEligibleAt := x }

instance : Row BrokerIpUsageHistory where
  key := BrokerIpUsageHistory.id
  Field := BrokerIpUsageHistoryField
  set := BrokerIpUsageHistoryField.set
  key_set f r := by cases f <;> rfl

inductive OrderStatus where
  | created | submitting | submitted | indoubt | failed | cancelled
  deriving DecidableEq, Repr

def OrderStatus.toString : OrderStatus → String
  | .created => "CREATED"
  | .submitting => "SUBMITTING"
  | .submitted => "SUBMITTED"
  | .indoubt => "INDOUBT"
  | .failed => "FAILED"
  | .cancelled => "CANCELLED"

structure Order where
  id : OrderId
  clientId : ClientId
  clientOrderId : String
  side : String
  symbol : String
  quantity : Rat
  orderType : String := "MARKET"
  timeInForce : String := "DAY"
  status : OrderStatus := .created
  brokerAccountId : Option BrokerId := none
  staticIpId : Option IpId := none
  preferredBrokerId : Option BrokerId := none
  regionPreference : Option Region := none
  errorCode : Option String := none
  brokerOrderId : Option BrokerOrderId := none
  updatedAt : Instant := 0
  deriving DecidableEq

inductive OrderField where
  | status (x : OrderStatus)
  | brokerAccountId (x : Option BrokerId)
  | staticIpId (x : Option IpId)
  | errorCode (x : Option String)
  | brokerOrderId (x : Option BrokerOrderId)
  | updatedAt (x : Instant)
  deriving DecidableEq

def OrderField.set : OrderField → Order → Order
  | .status x, r => { r with status := x }
  | .brokerAccountId x, r => { r with brokerAccountId := x }
  | .staticIpId x, r => { r with staticIpId := x }
  | .errorCode x, r => { r with errorCode := x }
  | .brokerOrderId x, r => { r with brokerOrderId := x }
  | .updatedAt x, r => { r with updatedAt := x }

instance : Row Order where
  key := Order.id
  Field := OrderField
  set := OrderField.set
  key_set f r := by cases f <;> rfl

inductive AttemptStatus where
  | submitting | submitted | failed
  deriving DecidableEq, Repr

/-- The payload of `place_order`; a broker sees nothing else of the order. -/
structure OrderPayload where
  clientOrderId : String
  side : String
  symbol : String
  quantity : Rat
  orderType : String
  timeInForce : String
  brokerAccountId : BrokerId
  staticIpId : Option IpId
  deriving DecidableEq

/-- The key `_idem_key` hashes. SHA-256 is taken to be injective, so the key
is what goes into it. -/
structure IdemKey where
  clientId : ClientId
  clientOrderId : String
  brokerId : BrokerId
  deriving DecidableEq

structure OrderAttempt where
  id : AttemptId
  orderId : OrderId
  attemptNo : Nat
  brokerAccountId : BrokerId
  staticIpId : Option IpId
  status : AttemptStatus := .submitting
  brokerOrderId : Option BrokerOrderId := none
  requestPayload : OrderPayload
  error : Option String := none
  idempotencyKey : IdemKey
  deriving DecidableEq

inductive OrderAttemptField where
  | status (x : AttemptStatus)
  | brokerOrderId (x : Option BrokerOrderId)
  | error (x : Option String)
  deriving DecidableEq

def OrderAttemptField.set : OrderAttemptField → OrderAttempt → OrderAttempt
  | .status x, r => { r with status := x }
  | .brokerOrderId x, r => { r with brokerOrderId := x }
  | .error x, r => { r with error := x }

instance : Row OrderAttempt where
  key := OrderAttempt.id
  Field := OrderAttemptField
  set := OrderAttemptField.set
  key_set f r := by cases f <;> rfl

structure FailoverEvent where
  orderId : OrderId
  fromBrokerId : BrokerId
  toBrokerId : BrokerId
  reason : String

/-- The payloads of the outbox events, one constructor an `event_type`. -/
inductive EventPayload where
  | orderSubmitted (orderId : OrderId) (clientId : ClientId) (clientOrderId : String)
      (brokerAccountId : BrokerId) (staticIpId : Option IpId) (side symbol : String)
      (quantity : Rat) (brokerOrderId : Option BrokerOrderId)
  | orderCancelled (orderId : OrderId) (clientId : ClientId) (clientOrderId : String)
      (brokerOrderId : Option BrokerOrderId)
  | ipAllocated (staticIpId : IpId) (ipAddress : String) (region : Region)
  | ipReleased (staticIpId : IpId) (ipAddress : String) (region : Region)
  | ipRotated (clientId : ClientId) (brokerAccountId : BrokerId) (oldIpId newIpId : IpId)
      (oldIp newIp : String) (force drained whitelistOk : Bool)
  | subscriptionExpired (subscriptionId : SubscriptionId) (clientId : ClientId)
      (teardownMode : TeardownMode) (endsAt : Instant)

inductive OutboxStatus where
  | pending | sent | error
  deriving DecidableEq, Repr

structure OutboxEvent where
  payload : EventPayload
  status : OutboxStatus := .pending

/-! ## Configuration items

Each key the services read, with the one field they look for. A missing item
and an item without the field are both `none`; a value that `int(…)` or
`float(…)` refuses is `bad`. -/

inductive Setting (α : Type) where
  | value (a : α)
  | bad
  deriving DecidableEq

structure Config where
  /-- `orders.execution_mode`, its mode -/
  executionMode : Option String := none
  /-- `rate_limit.exceed_policy`, its policy -/
  exceedPolicy : Option String := none
  /-- `routing.require_assigned_ip` -/
  requireAssignedIp : Option Bool := none
  /-- `routing.health_thresholds`, its `degraded_min` -/
  degradedMin : Option (Setting Rat) := none
  /-- `ip.reuse.cooldown_hours`, its hours -/
  cooldownHours : Option (Setting Int) := none
  /-- `ip.rotation.drain_timeout_seconds`, its seconds or value -/
  drainTimeoutSeconds : Option (Setting Int) := none
  /-- `ip.rotation.on_timeout`, its policy -/
  onTimeout : Option String := none
  /-- `subscription.teardown_mode`, its mode or policy -/
  teardownMode : Option String := none

end BrokerBridge
