import BrokerBridge.World.Handle
import BrokerBridge.Conc.Task

/-!
# Coroutines and their database session

A service method is a coroutine with a session of its own. The session holds
the writes that are pending and whether its transaction is broken: after a
database await has raised, whatever the reason, every further database call
of the session raises at once, without reaching the database, until a
rollback. Objects are values; setting an attribute of one stages a write only
if the value changes, as the unit of work would find at the flush. Sessions
are made with `expire_on_commit=False`, so an object keeps the values it was
loaded with until it is refreshed.
-/

namespace BrokerBridge

open Conc

structure Session where
  pending : List Write := []
  broken : Bool := false

abbrev Coro (α : Type) : Type := Task Req Req.Ans Exn Session α

def await (r : Req) : Coro r.Ans := Task.ask r

/-- What a broken session raises. -/
def brokenSession : Exn := .other "this session's transaction has been rolled back"

/-- The answer of an await, or its exception. -/
def ofAnswer {α : Type} : Except Exn α → Coro α
  | .ok a => pure a
  | .error e => Task.raise e

/-- The answer of a database await; an exception breaks the session. -/
def ofDbAnswer {α : Type} : Except Exn α → Coro α
  | .ok a => pure a
  | .error e => do
      Task.modifyLocal fun s => { s with broken := true }
      Task.raise e

/-- `db.execute` and `db.get` -/
def execute (q : Query) : Coro q.Res := do
  let s ← Task.local'
  if s.broken then Task.raise brokenSession
  else
    let x : Except Exn q.Res ← await (.query s.pending q)
    ofDbAnswer x

/-- `db.commit` -/
def commit : Coro Unit := do
  let s ← Task.local'
  if s.broken then Task.raise brokenSession
  else
    let x : Except Exn Unit ← await (.commit s.pending)
    ofDbAnswer x
    Task.modifyLocal fun s => { s with pending := [] }

/-- `db.flush`, up to what it checks: the writes stay pending for the commit. -/
def flush : Coro Unit := do
  let s ← Task.local'
  if s.broken then Task.raise brokenSession
  else
    let x : Except Exn Unit ← await (.flush s.pending)
    ofDbAnswer x

/-- `db.rollback` -/
def rollback : Coro Unit := do
  let x : Except Exn Unit ← await .rollback
  ofDbAnswer x
  Task.modifyLocal fun _ => {}

/-- Stage a write: `db.add`, or an attribute set. -/
def stage (w : Write) : Coro Unit :=
  Task.modifyLocal fun s => { s with pending := s.pending ++ [w] }

/-- `enqueue_outbox` -/
def enqueueOutbox (p : EventPayload) : Coro Unit := stage (.enqueue p)

/-- Objects that are set attribute by attribute, and the write that setting
one amounts to. -/
class Stored (α : Type) (F : outParam Type) where
  set : F → α → α
  write : α → F → Write

instance : Stored Client ClientField := ⟨ClientField.set, fun r => .setClient r.id⟩
instance : Stored Subscription SubscriptionField :=
  ⟨SubscriptionField.set, fun r => .setSubscription r.id⟩
instance : Stored BrokerSession BrokerSessionField :=
  ⟨BrokerSessionField.set, fun r => .setSession r.brokerAccountId⟩
instance : Stored Instance InstanceField := ⟨InstanceField.set, fun r => .setInstance r.id⟩
instance : Stored StaticIp StaticIpField := ⟨StaticIpField.set, fun r => .setIp r.id⟩
instance : Stored IpAssignment IpAssignmentField :=
  ⟨IpAssignmentField.set, fun r => .setAssignment r.id⟩
instance : Stored BrokerIpUsageHistory BrokerIpUsageHistoryField :=
  ⟨BrokerIpUsageHistoryField.set, fun r => .setHistory r.id⟩
instance : Stored Order OrderField := ⟨OrderField.set, fun r => .setOrder r.id⟩
instance : Stored OrderAttempt OrderAttemptField :=
  ⟨OrderAttemptField.set, fun r => .setAttempt r.orderId r.id⟩

/-- Set an attribute of an object: no write if it has the value already. -/
def assign {α F : Type} [Stored α F] [DecidableEq α] (r : α) (f : F) : Coro α :=
  if Stored.set f r = r then pure r
  else do
    stage (Stored.write r f)
    pure (Stored.set f r)

/-- `db.refresh`, for a row that a query looks up. -/
def refreshed {α : Type} : Option α → Coro α
  | some r => pure r
  | none => Task.raise (.other "could not refresh instance")

/-- `scalar_one_or_none` -/
def scalarOneOrNone {α : Type} : List α → Coro (Option α)
  | [] => pure none
  | [r] => pure (some r)
  | _ => Task.raise (.other "multiple rows were found")

/-- `get_infrastructure_provider` and `get_broker_provider`: at most a lookup
in the database. -/
def getProvider : Coro Unit := execute .providerRow

def infra (c : InfraCall) : Coro c.Res := do
  let x : Except Exn c.Res ← await (.infra c)
  ofAnswer x

def newId : Coro Nat := await .newId

/-- `datetime.now(UTC)` -/
def now : Coro Instant := await .now

def mark (m : Mark) : Coro Unit := await (.mark m)

/-- `raise_redis_unavailable` -/
def redisUnavailable (op : String) : Exn :=
  .app "REDIS_UNAVAILABLE" s!"Redis dependency is down ({op})" 503

/-- The answer of a Redis await, with its exception put into the envelope. -/
def ofRedisAnswer {α : Type} (op : String) : Except Exn α → Coro α
  | .ok a => pure a
  | .error .redisUnavailable => Task.raise (redisUnavailable op)
  | .error e => Task.raise e

def acquireLock (k : LockKey) (ttlSeconds : Int) (token : Nat) (op : String) : Coro Bool := do
  let x : Except Exn Bool ← await (.acquire k ttlSeconds token)
  ofRedisAnswer op x

/-- `release_lock`: the key expires by itself when Redis is down. -/
def releaseLock (k : LockKey) (token : Nat) : Coro Unit := do
  let x : Except Exn Unit ← await (.release k token)
  match x with
  | .error .redisUnavailable => pure ()
  | x => ofAnswer x

end BrokerBridge
