import BrokerBridge.World.Request
import BrokerBridge.Conc.Pool
import Mathlib.Data.List.Sort

/-!
# How the world answers

The shared state outside a coroutine: the database, the clock, the locks, the
in-flight semaphore, the broker's orders and the provider's resources. An
answer depends on the world and on an environment value, which settles what
nobody here controls: whether an await raises, what the broker replies, what
the rate limiter counts.

The locks are those of `MemoryLock`, and of `RedisLock` up to the expiry of a
key, which is an event of its own. A semaphore acquired with a timeout either
acquires or raises, so a full semaphore raises; one that a release frees in
time is a later step. A commit that raises has done nothing. The broker is
`MockBrokerProvider`: every accepted `place_order` makes a new broker order,
whatever the payload says.

`newId` is `uuid4`: an id that is in no row and has not been drawn before.
-/

namespace BrokerBridge

open Conc

/-- An order at the broker. Which row it was placed for is not something the
broker knows; the log keeps it for the statements. -/
structure BrokerOrder where
  id : BrokerOrderId
  order : OrderId
  payload : OrderPayload
  cancelled : Bool := false

inductive CloudStatus where
  | allocated | attached | detached | released
  deriving DecidableEq

/-- An IP as the provider has it. -/
structure CloudIp where
  externalId : ExternalId
  ipAddress : String
  status : CloudStatus := .allocated
  instanceExternalId : Option ExternalId := none
  deriving DecidableEq

structure World where
  db : Db := {}
  clock : Instant := 0
  locks : LockKey → Option Nat := fun _ => none
  /-- The calls that hold the in-flight semaphore. -/
  semaphore : List Nat := []
  /-- `max_inflight_orders`, the size of the semaphore. -/
  maxInflight : Nat := 100
  inflightCount : Nat := 0
  brokerOrders : List BrokerOrder := []
  cloudIps : List CloudIp := []
  cloudInstances : List (ExternalId × InstanceStatus) := []
  nextId : Nat := 0

/-- How an await goes wrong. -/
inductive Fault where
  /-- the exception the callee documents -/
  | failed
  /-- another exception -/
  | failedOtherwise
  /-- the task is cancelled there -/
  | cancelled
  deriving DecidableEq

inductive BrokerReply where
  | accepted
  | rejected (code message : String) (status : Nat) (retryable : Bool)
  | raised (message : String)

/-- What settles one answer. -/
structure Env where
  fault : Option Fault := none
  reply : BrokerReply := .accepted
  rate : RateSnapshot := ⟨true, 0⟩
  health : List Health := []
  tokens : Tokens := ⟨.valid, none⟩
  address : String := ""
  polls : Nat := 0

/-- The exception of a faulty await, given the one its callee documents. -/
def Fault.exn (documented : Exn) : Fault → Exn
  | .failed => documented
  | .failedOtherwise => .other "unexpected error"
  | .cancelled => .cancelled

/-- An error of the database, when no constraint is involved. -/
def dbError : Exn := .other "database error"

/-- What the database refuses these writes with. -/
def refusal (ws : List Write) : Exn :=
  if ws.any Write.overflows then .other "numeric field overflow" else .integrity

def infraError : Exn := .infra "INFRA_UNAVAILABLE" "infrastructure call failed" 503

/-! ## Ids -/

/-- Every id that occurs in the database. -/
def Db.ids (d : Db) : List Nat :=
  d.clients.rows.map (·.id) ++ d.subscriptions.rows.map (·.id) ++
  d.brokers.rows.map (·.id) ++ d.instances.rows.map (·.id) ++
  d.instances.rows.map (·.externalId) ++
  d.ips.rows.map (·.id) ++ d.ips.rows.map (·.externalId) ++
  d.assignments.rows.map (·.id) ++ d.assignments.rows.map (·.staticIpId) ++
  d.history.rows.map (·.id) ++ d.history.rows.map (·.staticIpId) ++
  d.orders.rows.map (·.id) ++ d.attempts.rows.map (·.id) ++
  d.attempts.rows.map (·.orderId)

/-- Every id in use. -/
def World.ids (w : World) : List Nat :=
  w.db.ids ++ w.semaphore ++ w.brokerOrders.map (·.id) ++
  w.brokerOrders.map (·.order) ++ w.cloudIps.map (·.externalId) ++
  w.cloudInstances.map (·.1)

/-- The next `uuid4`. -/
def World.freshId (w : World) : Nat :=
  max w.nextId (w.ids.foldr max 0 + 1)

/-! ## Queries -/

def IpAssignment.activeFor (b : BrokerId) (a : IpAssignment) : Bool :=
  a.brokerAccountId = b && a.status = .active

def Subscription.due (now : Instant) (s : Subscription) : Bool :=
  s.status = .active && s.endsAt ≤ now && s.teardownCompletedAt.isNone

/-- `STUCK_STATUSES` -/
def OrderStatus.stuck : OrderStatus → Bool
  | .created | .submitting | .indoubt => true
  | _ => false

/-- `_TERMINAL_ORDER_STATUSES` of the rotation service. -/
def OrderStatus.drained : OrderStatus → Bool
  | .cancelled | .failed => true
  | _ => false

def Query.eval (e : Env) (clock : Instant) (d : Db) : (q : Query) → q.Res
  | client c => d.clients.get? c
  | subscription s => d.subscriptions.get? s
  | subscriptionsOf c => (d.subscriptions.rows.filter (·.clientId == c), clock)
  | dueSubscriptions now => d.subscriptions.rows.filter (·.due now)
  | liveInstances c => d.instances.rows.filter fun i =>
      i.clientId == c && (i.status == .running || i.status == .pending || i.status == .suspended)
  | config => d.config
  | order o => d.orders.lookup o
  | orderWithKey c key =>
      d.orders.rows.find? fun r => r.clientId == c && r.clientOrderId == key
  | stuckOrders limit =>
      ((d.orders.rows.filter (·.status.stuck)).insertionSort
        fun a b => a.updatedAt ≤ b.updatedAt).take limit
  | attempt o a => (d.attempts.lookup a).bind fun r =>
      if h : r.1.orderId = o then some ⟨r.1, r.2, h⟩ else none
  | attemptsOf o =>
      (d.attempts.rows.filter (·.orderId == o)).insertionSort
        fun a b => b.attemptNo ≤ a.attemptNo
  | broker b => d.brokers.get? b
  | enabledBrokers c => d.brokers.rows.filter fun b => b.clientId == c && b.enabled
  | latestHealth => e.health
  | brokerSession b => d.sessions.get? b
  | ip x => d.ips.get? x
  | instanceById i => d.instances.get? i
  | assignment a => d.assignments.get? a
  | activeAssignment b =>
      (d.assignments.rows.filter (·.activeFor b)).findSome? fun a =>
        (d.ips.get? a.staticIpId).map fun ip => (a, ip)
  | activeAssignmentsOfBroker b => d.assignments.rows.filter (·.activeFor b)
  | activeAssignmentsOfIp x =>
      d.assignments.rows.filter fun a => a.staticIpId == x && a.status == .active
  | assignedIps b =>
      (d.assignments.rows.filter (·.activeFor b)).filterMap fun a =>
        d.ips.get? a.staticIpId
  | usageHistory b x =>
      d.history.rows.filter fun h => h.brokerAccountId == b && h.staticIpId == x
  | openUsageHistory b x =>
      d.history.rows.filter fun h =>
        h.brokerAccountId == b && h.staticIpId == x && h.releasedAt.isNone
  | countInflight x =>
      (d.orders.rows.filter fun r => r.staticIpId == some x && !r.status.drained).length
  | providerRow => ()
  | whitelistSnapshot => ()

/-! ## The provider's resources, as `DatabaseMockBackend` keeps them -/

/-- Change the IPs with this resource id. -/
def World.setCloudIp (w : World) (ext : ExternalId) (f : CloudIp → CloudIp) : World :=
  { w with cloudIps := w.cloudIps.map fun ip => if ip.externalId = ext then f ip else ip }

def CloudIp.delete (ip : CloudIp) : CloudIp := { ip with status := .released }

def CloudIp.attach (instExt : ExternalId) (ip : CloudIp) : CloudIp :=
  { ip with status := .attached, instanceExternalId := some instExt }

def CloudIp.detach (ip : CloudIp) : CloudIp :=
  { ip with status := .detached, instanceExternalId := none }

/-- Change the instance with this resource id, or keep track of it from now on. -/
def World.setCloudInstance (w : World) (ext : ExternalId) (st : InstanceStatus) : World :=
  { w with cloudInstances :=
      if ext ∈ w.cloudInstances.map (·.1) then
        w.cloudInstances.map fun i => if i.1 = ext then (ext, st) else i
      else w.cloudInstances ++ [(ext, st)] }

/-- A provider call that succeeds. -/
def InfraCall.eval (e : Env) (w : World) : (c : InfraCall) → c.Res × World
  | createIp _ =>
      let ext := w.freshId
      ((ext, e.address), { w with
        cloudIps := w.cloudIps ++ [{ externalId := ext, ipAddress := e.address }]
        nextId := ext + 1 })
  | deleteIp ext => ((), w.setCloudIp ext .delete)
  | attachIp ext instExt =>
      if w.cloudIps.any (·.externalId == ext) then ((), w.setCloudIp ext (.attach instExt))
      else ((), { w with
        cloudIps := w.cloudIps ++ [CloudIp.attach instExt { externalId := ext, ipAddress := "" }] })
  | detachIp ext => ((), w.setCloudIp ext .detach)
  | createInstance _ =>
      let ext := w.freshId
      (ext, { w with
        cloudInstances := w.cloudInstances ++ [(ext, .running)], nextId := ext + 1 })
  | destroyInstance ext =>
      if ext ∈ w.cloudInstances.map (·.1) then ((), w.setCloudInstance ext .destroyed)
      else ((), w)
  | suspendInstance ext => ((), w.setCloudInstance ext .suspended)
  | startInstance ext => ((), w.setCloudInstance ext .running)
  | setAutoRenew ext _ =>
      if ext ∈ w.cloudInstances.map (·.1) ∨ w.cloudIps.any (·.externalId == ext) then ((), w)
      else ((), w.setCloudInstance ext .running)

/-! ## The answer to a request -/

/-- `Function.update` for locks, so that an answer stays executable. -/
def World.setLock (w : World) (k : LockKey) (t : Option Nat) : World :=
  { w with locks := fun k' => if k' = k then t else w.locks k' }

/-- Answer `x`, unless the await is faulty. -/
def Env.answer {α : Type} (e : Env) (documented : Exn) (w : World) (x : α) (w' : World) :
    Except Exn α × World :=
  match e.fault with
  | some f => (.error (f.exn documented), w)
  | none => (.ok x, w')

def handle (r : Req) (e : Env) (w : World) : r.Ans × World :=
  match r with
  | .query ws q => e.answer dbError w (q.eval e w.clock (w.db.view w.clock ws)) w
  | .commit ws =>
      match w.db.write? w.clock ws with
      | none => (.error (refusal ws), w)
      | some d => e.answer dbError w () { w with db := d }
  | .flush ws =>
      match w.db.write? w.clock ws with
      | none => (.error (refusal ws), w)
      | some _ => e.answer dbError w () w
  | .rollback => e.answer dbError w () w
  | .newId => (w.freshId, { w with nextId := w.freshId + 1 })
  | .now => (w.clock, w)
  | .acquire k _ t =>
      match w.locks k with
      | some t' => e.answer .redisUnavailable w (t' == t) w
      | none => e.answer .redisUnavailable w true (w.setLock k (some t))
  | .release k t =>
      e.answer .redisUnavailable w ()
        (if w.locks k = some t then w.setLock k none else w)
  | .semAcquire h =>
      if w.semaphore.length < w.maxInflight then
        e.answer .cancelled w true { w with semaphore := h :: w.semaphore }
      else e.answer .cancelled w false w
  | .semRelease h => ((), { w with semaphore := w.semaphore.erase h })
  | .inflightUp => ((), { w with inflightCount := w.inflightCount + 1 })
  | .inflightDown => ((), { w with inflightCount := w.inflightCount - 1 })
  | .rateCheck _ _ => e.answer .redisUnavailable w e.rate w
  | .rateConsume _ _ => e.answer .redisUnavailable w e.rate w
  | .cacheSession _ => e.answer .redisUnavailable w () w
  | .authenticate _ => e.answer (.other "authentication failed") w e.tokens w
  | .refreshSession _ => e.answer (.other "refresh failed") w e.tokens w
  | .placeOrder o p =>
      match e.reply with
      | .rejected code message status retryable =>
          (.error (.broker code message status retryable), w)
      | .raised message => (.error (.other message), w)
      | .accepted =>
          (.ok w.freshId, { w with
            brokerOrders := ⟨w.freshId, o, p, false⟩ :: w.brokerOrders
            nextId := w.freshId + 1 })
  | .cancelOrder _ bo =>
      match e.reply with
      | .rejected code message status retryable =>
          (.error (.broker code message status retryable), w)
      | .raised message => (.error (.other message), w)
      | .accepted =>
          (.ok (), { w with brokerOrders := w.brokerOrders.map fun b =>
            if b.id = bo then { b with cancelled := true } else b })
  | .fetchWhitelist _ => e.answer (.other "whitelist unavailable") w () w
  | .infra c => e.answer infraError w (c.eval e w).1 (c.eval e w).2
  | .drainPolls _ => (e.polls, w)
  | .sleep => e.answer .cancelled w () w
  | .mark _ => ((), w)

/-! ## What else happens -/

inductive Tick where
  | advance (by_ : Nat)
  | setConfig (c : Config)
  | setBroker (b : BrokerId) (f : BrokerAccountField)
  /-- A lock key expires, or its process dies. -/
  | expireLock (k : LockKey)

def tick : Tick → World → World
  | .advance n, w => { w with clock := w.clock + n }
  | .setConfig c, w => { w with db := { w.db with config := c } }
  | .setBroker b f, w => { w with db := { w.db with brokers := w.db.brokers.update b f } }
  | .expireLock k, w => w.setLock k none

end BrokerBridge
