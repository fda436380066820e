import BrokerBridge.Store.Rows
import Mathlib.Algebra.Order.Floor.Defs
import Mathlib.Data.Rat.Floor

/-!
# The database

The committed tables, and the writes a session flushes into them. A write
names one row, or inserts one. Setting an attribute of an order also stamps
its `updated_at`, as `onupdate` does; the quantity of an order is rounded to
the eight decimals of its column.

The constraints are those of the models: primary keys, one order a client and
client order id, one IP an address, one session a broker. The partial unique
index of the migration on active assignments is not among them: the models do
not declare it, so a database made from them does not have it.

A commit applies all the writes of a session or, on the first conflict, none.
Failover events and outbox events are only ever appended, and the position of
one is its identity; the snapshots and findings of a whitelist sync are left
out, since no modelled service reads them.
-/

namespace BrokerBridge

open Conc

structure Db where
  clients : Table Client := {}
  subscriptions : Table Subscription := {}
  brokers : Table BrokerAccount := {}
  sessions : Table BrokerSession := {}
  instances : Table Instance := {}
  ips : Table StaticIp := {}
  assignments : Table IpAssignment := {}
  history : Table BrokerIpUsageHistory := {}
  orders : Table Order := {}
  attempts : Table OrderAttempt := {}
  failovers : List FailoverEvent := []
  outbox : List OutboxEvent := []
  config : Config := {}

/-- What a session adds or sets. An attempt is named with its order, which it
never changes. -/
inductive Write where
  | addSubscription (row : Subscription)
  | addSession (row : BrokerSession)
  | addInstance (row : Instance)
  | addIp (row : StaticIp)
  | addAssignment (row : IpAssignment)
  | addHistory (row : BrokerIpUsageHistory)
  | addOrder (row : Order)
  | addAttempt (row : OrderAttempt)
  | addFailover (row : FailoverEvent)
  | enqueue (payload : EventPayload)
  | setClient (id : ClientId) (f : ClientField)
  | setSubscription (id : SubscriptionId) (f : SubscriptionField)
  | setSession (id : BrokerId) (f : BrokerSessionField)
  | setInstance (id : InstanceId) (f : InstanceField)
  | setIp (id : IpId) (f : StaticIpField)
  | setAssignment (id : AssignmentId) (f : IpAssignmentField)
  | setHistory (id : HistoryId) (f : BrokerIpUsageHistoryField)
  | setOrder (id : OrderId) (f : OrderField)
  | setAttempt (order : OrderId) (id : AttemptId) (f : OrderAttemptField)

/-- A `Numeric(18, 8)` column rounds half away from zero. -/
def numeric8 (q : Rat) : Rat :=
  if 0 ≤ q then (⌊q * 10 ^ 8 + 1 / 2⌋ : Int) / 10 ^ 8
  else -((⌊-q * 10 ^ 8 + 1 / 2⌋ : Int) / 10 ^ 8)

/-- An order as its table stores it. -/
def Order.stored (now : Instant) (r : Order) : Order :=
  { r with quantity := numeric8 r.quantity, updatedAt := now }

namespace Write

/-- The column has ten digits before the point, and no room for more. -/
def overflows : Write → Bool
  | addOrder r => 10 ^ 10 ≤ |numeric8 r.quantity|
  | _ => false

/-- The write runs into a constraint, or into the bound of a column. -/
def conflicts (d : Db) : Write → Bool
  | addSubscription r => (d.subscriptions.get? r.id).isSome
  | addSession r => (d.sessions.get? r.brokerAccountId).isSome
  | addInstance r => (d.instances.get? r.id).isSome
  | addIp r => (d.ips.get? r.id).isSome ||
      d.ips.rows.any fun r' => r'.ipAddress == r.ipAddress
  | addAssignment r => (d.assignments.get? r.id).isSome
  | addHistory r => (d.history.get? r.id).isSome
  | addOrder r => overflows (addOrder r) || (d.orders.get? r.id).isSome ||
      d.orders.rows.any fun r' =>
        r'.clientId == r.clientId && r'.clientOrderId == r.clientOrderId
  | addAttempt r => (d.attempts.get? r.id).isSome
  | _ => false

/-- The write done, at time `now`. -/
def apply (now : Instant) (d : Db) : Write → Db
  | addSubscription r => { d with subscriptions := d.subscriptions.insert r }
  | addSession r => { d with sessions := d.sessions.insert r }
  | addInstance r => { d with instances := d.instances.insert r }
  | addIp r => { d with ips := d.ips.insert r }
  | addAssignment r => { d with assignments := d.assignments.insert r }
  | addHistory r => { d with history := d.history.insert r }
  | addOrder r => { d with orders := d.orders.insert (r.stored now) }
  | addAttempt r => { d with attempts := d.attempts.insert r }
  | addFailover r => { d with failovers := d.failovers ++ [r] }
  | enqueue p => { d with outbox := d.outbox ++ [{ payload := p }] }
  | setClient i f => { d with clients := d.clients.update i f }
  | setSubscription i f => { d with subscriptions := d.subscriptions.update i f }
  | setSession i f => { d with sessions := d.sessions.update i f }
  | setInstance i f => { d with instances := d.instances.update i f }
  | setIp i f => { d with ips := d.ips.update i f }
  | setAssignment i f => { d with assignments := d.assignments.update i f }
  | setHistory i f => { d with history := d.history.update i f }
  | setOrder i f =>
      { d with orders := (d.orders.update i f).update i (.updatedAt now) }
  | setAttempt o i f =>
      if (d.attempts.get? i).any fun r => r.orderId == o then
        { d with attempts := d.attempts.update i f }
      else d

/-- The write done, or the conflict it runs into. -/
def checked (now : Instant) (d : Db) (w : Write) : Option Db :=
  if w.conflicts d then none else some (w.apply now d)

end Write

namespace Db

/-- A list of writes, all or none. -/
def write? (now : Instant) (d : Db) (ws : List Write) : Option Db :=
  ws.foldlM (Write.checked now) d

/-- The database as the transaction that flushed `ws` sees it. -/
def view (now : Instant) (d : Db) (ws : List Write) : Db :=
  (d.write? now ws).getD d

end Db

end BrokerBridge
