import BrokerBridge.Store.Db
import BrokerBridge.World.Text

/-!
# What a coroutine awaits

Every `await` of the modelled services that reaches outside the process, and
the few synchronous reads of shared state between them, is a request. The
code from one request to the next runs without a switch, as asyncio
guarantees.

A query carries the writes the session has pending: autoflush puts them into
the transaction before the query runs, so a session reads its own writes. A
commit carries them too. The clock read that follows the arrival of a client's
subscriptions is part of that query, for there is no switch between the two.

A mark asks nothing and changes nothing. It stands at a place in the code the
statements need to point at: where a stored order is taken up, and where an
order is handed to the submission loop.
-/

namespace BrokerBridge

open Conc

/-- The exceptions that matter to a handler. `cancelled` is a `BaseException`:
no `except Exception` catches it. The `details` of an `AppError` are left out;
nothing reads them. -/
inductive Exn where
  | app (code message : String) (status : Nat)
  | broker (code message : String) (status : Nat) (retryable : Bool)
  | infra (code message : String) (status : Nat)
  | integrity
  | redisUnavailable
  | other (message : String)
  | cancelled
  deriving DecidableEq

/-- What `except Exception` catches. -/
def Exn.isException : Exn → Bool
  | .cancelled => false
  | _ => true

/-- `str(exc)` -/
def Exn.str : Exn → String
  | .app _ message _ => message
  | .broker _ message _ _ => message
  | .infra _ message _ => message
  | .integrity => "integrity error"
  | .redisUnavailable => "Redis unavailable"
  | .other message => message
  | .cancelled => ""

inductive LockKey where
  | session (b : BrokerId)
  | brokerIp (b : BrokerId)
  | ip (x : IpId)
  deriving DecidableEq

/-- A row of `latest_for_brokers`: the columns routing reads. -/
structure Health where
  brokerAccountId : BrokerId
  score : Rat
  status : String

/-- The answer of a rate limiter. -/
structure RateSnapshot where
  allowed : Bool
  pressure : Rat

/-- A broker's token response. -/
structure Tokens where
  status : SessionStatus
  expiresAt : Option Instant

structure RouteCandidate where
  broker : BrokerAccount
  staticIpId : Option IpId
  healthScore : Rat
  healthStatus : String
  ratePressure : Rat
  routeScore : Rat
  reasons : List String

inductive Query where
  | client (c : ClientId)
  | subscription (s : SubscriptionId)
  | subscriptionsOf (c : ClientId)
  | dueSubscriptions (now : Instant)
  | liveInstances (c : ClientId)
  | config
  | order (o : OrderId)
  | orderWithKey (c : ClientId) (clientOrderId : String)
  | stuckOrders (limit : Nat)
  | attempt (o : OrderId) (a : AttemptId)
  | attemptsOf (o : OrderId)
  | broker (b : BrokerId)
  | enabledBrokers (c : ClientId)
  | latestHealth
  | brokerSession (b : BrokerId)
  | ip (x : IpId)
  | instanceById (i : InstanceId)
  | assignment (a : AssignmentId)
  | activeAssignment (b : BrokerId)
  | activeAssignmentsOfBroker (b : BrokerId)
  | activeAssignmentsOfIp (x : IpId)
  | assignedIps (b : BrokerId)
  | usageHistory (b : BrokerId) (x : IpId)
  | openUsageHistory (b : BrokerId) (x : IpId)
  | countInflight (x : IpId)
  | providerRow
  | whitelistSnapshot

/-- A row selected by its keys has them. -/
@[reducible] def Query.Res : Query → Type
  | client _ => Option Client
  | subscription _ => Option Subscription
  | subscriptionsOf _ => List Subscription × Instant
  | dueSubscriptions _ => List Subscription
  | liveInstances _ => List Instance
  | config => Config
  | order o => Option {r : Order // r.id = o}
  | orderWithKey _ _ => Option Order
  | stuckOrders _ => List Order
  | attempt o a => Option {r : OrderAttempt // r.id = a ∧ r.orderId = o}
  | attemptsOf _ => List OrderAttempt
  | broker _ => Option BrokerAccount
  | enabledBrokers _ => List BrokerAccount
  | latestHealth => List Health
  | brokerSession _ => Option BrokerSession
  | ip _ => Option StaticIp
  | instanceById _ => Option Instance
  | assignment _ => Option IpAssignment
  | activeAssignment _ => Option (IpAssignment × StaticIp)
  | activeAssignmentsOfBroker _ => List IpAssignment
  | activeAssignmentsOfIp _ => List IpAssignment
  | assignedIps _ => List StaticIp
  | usageHistory _ _ => List BrokerIpUsageHistory
  | openUsageHistory _ _ => List BrokerIpUsageHistory
  | countInflight _ => Nat
  | providerRow => Unit
  | whitelistSnapshot => Unit

/-- The calls of the infrastructure provider. -/
inductive InfraCall where
  | createIp (region : Region)
  | deleteIp (ext : ExternalId)
  | attachIp (ext : ExternalId) (instExt : ExternalId)
  | detachIp (ext : ExternalId)
  | createInstance (region : Region)
  | destroyInstance (ext : ExternalId)
  | suspendInstance (ext : ExternalId)
  | startInstance (ext : ExternalId)
  | setAutoRenew (ext : ExternalId) (enabled : Bool)

/-- A created IP answers its resource id and address, a created instance its
resource id. -/
@[reducible] def InfraCall.Res : InfraCall → Type
  | createIp _ => ExternalId × String
  | createInstance _ => ExternalId
  | _ => Unit

/-- What submits an order. -/
inductive Actor where
  | place | replay
  deriving DecidableEq

inductive Mark where
  /-- `_recover_one` takes up the stored order. -/
  | recover (o : OrderId)
  /-- `cancel` takes it up. -/
  | cancel (o : OrderId)
  /-- `_submit_inline` is called. -/
  | submitInline (by_ : Actor) (order : Order) (chain : List RouteCandidate)

inductive Req where
  | query (pending : List Write) (q : Query)
  | commit (pending : List Write)
  | flush (pending : List Write)
  | rollback
  | newId
  | now
  /-- The key expires `ttlSeconds` after it is taken, if the provider lets keys expire. -/
  | acquire (key : LockKey) (ttlSeconds : Int) (token : Nat)
  | release (key : LockKey) (token : Nat)
  | semAcquire (holder : Nat)
  | semRelease (holder : Nat)
  | inflightUp
  | inflightDown
  | rateCheck (b : BrokerId) (limit : Rat)
  | rateConsume (b : BrokerId) (limit : Rat)
  | cacheSession (b : BrokerId)
  | authenticate (b : BrokerId)
  | refreshSession (b : BrokerId)
  /-- `place_order`, for order `o`: the broker sees the payload only. -/
  | placeOrder (o : OrderId) (payload : OrderPayload)
  | cancelOrder (o : OrderId) (brokerOrder : BrokerOrderId)
  | fetchWhitelist (b : BrokerId)
  | infra (call : InfraCall)
  /-- How often the drain loop will sleep before its deadline has passed. -/
  | drainPolls (timeoutSeconds : Int)
  | sleep
  | mark (m : Mark)

@[reducible] def Req.Ans : Req → Type
  | query _ q => Except Exn q.Res
  | commit _ | flush _ | rollback => Except Exn Unit
  | newId => Nat
  | now => Instant
  | acquire _ _ _ => Except Exn Bool
  | release _ _ => Except Exn Unit
  | semAcquire _ => Except Exn Bool
  | semRelease _ | inflightUp | inflightDown => Unit
  | rateCheck _ _ | rateConsume _ _ => Except Exn RateSnapshot
  | cacheSession _ => Except Exn Unit
  | authenticate _ | refreshSession _ => Except Exn Tokens
  | placeOrder _ _ => Except Exn BrokerOrderId
  | cancelOrder _ _ => Except Exn Unit
  | fetchWhitelist _ => Except Exn Unit
  | infra c => Except Exn c.Res
  | drainPolls _ => Nat
  | sleep => Except Exn Unit
  | mark _ => Unit

end BrokerBridge
