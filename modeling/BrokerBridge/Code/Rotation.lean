import BrokerBridge.Code.IpManager

/-!
# Rotation

`RotationService.rotate`: a new IP is allocated and attached where the old one
is, the old assignment drains, and a last commit cuts over. The new IP and
whether the cutover is committed are variables of the coroutine that its
`finally` reads; here they are where in the body the exception left from.

The old assignment is loaded once and refreshed after the allocation. Selecting
it again before it is set to draining returns the same object, whatever the
row has become.
-/

namespace BrokerBridge

open Conc

/-! ## What rotation asks of others -/

/-- `WhitelistService.sync`, up to the rows it writes. What the broker's list
contains, and whether it parses, is an answer of the environment. -/
def whitelistSync (b : BrokerId) : Coro Unit := do
  match ← execute (.broker b) with
  | none => Task.raise (.app "NOT_FOUND" "Broker not found" 404)
  | some _ =>
      getProvider
      let x : Except Exn Unit ← await (.fetchWhitelist b)
      ofAnswer x
      let _ ← execute (.assignedIps b)
      commit
      execute .whitelistSnapshot

/-- Run `t`; report whether it ended without an `Exception`. -/
def succeeds (t : Coro Unit) : Coro Bool :=
  Task.catching
    (do
      t
      pure true)
    fun e => if e.isException then pure false else Task.raise e

/-- `_config_int("ip.rotation.drain_timeout_seconds", 30)` -/
def drainTimeout : Coro Int := do
  let config ← execute .config
  match config.drainTimeoutSeconds with
  | some x => settingInt x
  | none => pure 30

/-- `_on_timeout_policy` -/
def onTimeoutPolicy : Coro String := do
  let config ← execute .config
  pure (Text.upper (config.onTimeout.getD "ABORT"))

/-- `count_inflight` -/
def countInflight (x : IpId) : Coro Nat := execute (.countInflight x)

/-! ## Clean-up -/

/-- The provider's side of `_cleanup_new_ip`. -/
def detachNewIp (ip : StaticIp) : Coro Unit :=
  if ip.instanceId.isSome then do
    infra (.detachIp ip.externalId)
    let _ ← assign ip (.instanceId none)
  else pure ()

/-- `_cleanup_new_ip` -/
def cleanupNewIp (ip : StaticIp) : Coro Unit := do
  getProvider
  let _ ← succeeds do
    detachNewIp ip
    infra (.deleteIp ip.externalId)
  let _ ← assign ip (.status .released)

/-- The new IP cleaned up, unless it is assigned or released already. -/
def discardNewIp (x : IpId) : Coro Unit := do
  let active ← scalarOneOrNone (← execute (.activeAssignmentsOfIp x))
  if active.isNone then
    match ← execute (.ip x) with
    | some ip =>
        if ip.status ≠ .released then
          cleanupNewIp ip
          commit
    | none => pure ()

/-- What the `finally` does about a new IP that was not cut over to. -/
def finalCleanup (x : IpId) : Coro Unit := do
  let _ ← succeeds (discardNewIp x)

/-- `t`, with `handler` run when it raises; the exception goes on. -/
def onError {α : Type} (t : Coro α) (handler : Coro Unit) : Coro α :=
  Task.catching t fun e => do
    handler
    Task.raise e

/-! ## The phases -/

/-- What is known once the new IP is there. -/
structure Rotation where
  broker : BrokerId
  force : Bool
  oldAssignment : IpAssignment
  oldIp : StaticIp
  newIp : StaticIp

/-- Up to the commit of the new row. -/
def beginRotation (b : BrokerId) (force : Bool) : Coro Rotation := do
  match ← execute (.broker b) with
  | none => Task.raise (.app "NOT_FOUND" "Broker not found" 404)
  | some _ =>
      match ← execute (.activeAssignment b) with
      | none =>
          Task.raise (.app "NO_ACTIVE_ASSIGNMENT"
            "Broker has no active IP assignment to rotate" 409)
      | some (oldAssignment, oldIp) =>
          let newIp ← allocateIp oldIp.region
          pure { broker := b, force, oldAssignment, oldIp, newIp }

/-- The new IP attached to the instance of the old one, unless that is gone. -/
def attachToOld (newIp : StaticIp) : Option InstanceId → Coro StaticIp
  | none => pure newIp
  | some i => do
      match ← execute (.instanceById i) with
      | some inst =>
          if inst.status ≠ .destroyed then attachIp newIp.id inst.id
          else pure newIp
      | none => pure newIp

/-- `scalar_one` on the old assignment; the object is the one in memory. -/
def reselect (a : IpAssignment) : Coro Unit := do
  match ← execute (.assignment a.id) with
  | some _ => pure ()
  | none => Task.raise (.other "no row was found when one was required")

/-- From the new row to the commit of the draining assignment; whether the
whitelist sync went through, and the objects as they are then. -/
def startDraining (r : Rotation) : Coro (Rotation × Bool) := do
  assertReuseAllowed r.broker r.newIp.id
  let oldAssignment ← refreshed (← execute (.assignment r.oldAssignment.id))
  let oldIp ← refreshed (← execute (.ip r.oldIp.id))
  let newIp ← attachToOld r.newIp r.oldIp.instanceId
  let whitelistOk ← succeeds (whitelistSync r.broker)
  reselect oldAssignment
  let oldAssignment ← assign oldAssignment (.status .draining)
  commit
  pure ({ r with oldAssignment, oldIp, newIp }, whitelistOk)

/-- The drain loop: whether no order is in flight before the deadline, which
passes after `polls` more sleeps. -/
def drainLoop (x : IpId) : Nat → Coro Bool
  | 0 => do
      let inflight ← countInflight x
      pure (inflight = 0)
  | polls + 1 => do
      let inflight ← countInflight x
      if inflight = 0 then pure true
      else
        let y : Except Exn Unit ← await .sleep
        ofAnswer y
        drainLoop x polls

/-- The drain timeout: everything is put back, and the call raises. -/
def abortRotation (r : Rotation) : Coro Unit := do
  cleanupNewIp r.newIp
  let _ ← assign r.oldAssignment (.status .active)
  commit
  let _ ← countInflight r.oldIp.id
  Task.raise (.app "ROTATION_DRAIN_TIMEOUT"
    "In-flight orders did not drain before timeout; rotation aborted" 409)

/-- The drain, aborted or done: whether the old IP had drained. -/
def drain (r : Rotation) : Coro Bool := do
  let timeout ← drainTimeout
  let onTimeout ← onTimeoutPolicy
  let polls ← await (.drainPolls (max 0 timeout))
  let drained ← drainLoop r.oldIp.id polls
  if !drained ∧ !r.force ∧ onTimeout ≠ "FORCE" then
    abortRotation r
    pure drained
  else pure drained

/-- The old IP detached, if it is attached. -/
def detachOld (ip : StaticIp) : Coro StaticIp := do
  if ip.status = .attached then
    getProvider
    let _ ← succeeds (infra (.detachIp ip.externalId))
    assign ip (.instanceId none)
  else pure ip

/-- The cutover, up to its commit: the id of the new assignment. -/
def cutover (s : Settings) (r : Rotation) (drained whitelistOk : Bool) :
    Coro AssignmentId := do
  let now ← now
  let cooldown ← cooldownHours s
  let oldAssignment ← assign r.oldAssignment (.status .released)
  let oldAssignment ← assign oldAssignment (.releasedAt (some now))
  let hist ← execute (.openUsageHistory r.broker r.oldIp.id)
  closeHistory now (now + cooldown * hour) hist
  let oldIp ← refreshed (← execute (.ip r.oldIp.id))
  let oldIp ← detachOld oldIp
  let oldIp ← assign oldIp (.status .released)
  let id ← addAssignment oldAssignment.clientId r.broker r.newIp.id now
  enqueueOutbox (.ipRotated oldAssignment.clientId r.broker oldIp.id r.newIp.id
    oldIp.ipAddress r.newIp.ipAddress r.force drained whitelistOk)
  commit
  pure id

structure RotateResult where
  brokerAccountId : BrokerId
  oldIpId : IpId
  newIpId : IpId
  oldIp : String
  newIp : String
  oldAssignmentId : AssignmentId
  newAssignmentId : AssignmentId
  force : Bool
  drained : Bool
  whitelistOk : Bool

/-- The result, once the objects it is made of have been refreshed. -/
def rotated (r : Rotation) (drained whitelistOk : Bool) (newId : AssignmentId) :
    Coro RotateResult := do
  let newAssignment ← refreshed (← execute (.assignment newId))
  let newIp ← refreshed (← execute (.ip r.newIp.id))
  pure
    { brokerAccountId := r.broker
      oldIpId := r.oldIp.id
      newIpId := newIp.id
      oldIp := r.oldIp.ipAddress
      newIp := newIp.ipAddress
      oldAssignmentId := r.oldAssignment.id
      newAssignmentId := newAssignment.id
      force := r.force
      drained
      whitelistOk }

/-- From the new row to the commit of the cutover. -/
def moveOver (s : Settings) (r : Rotation) :
    Coro (Rotation × Bool × Bool × AssignmentId) := do
  let (r, whitelistOk) ← startDraining r
  let drained ← drain r
  let id ← cutover s r drained whitelistOk
  pure (r, drained, whitelistOk, id)

/-- The body of `rotate`, with the broker's IP lock held; `unlock` gives it
back, in the `finally`. -/
def rotateLocked (s : Settings) (b : BrokerId) (force : Bool) (unlock : Coro Unit) :
    Coro RotateResult := do
  let r ← onError (beginRotation b force) unlock
  let (r, drained, whitelistOk, id) ← onError (moveOver s r) do
    finalCleanup r.newIp.id
    unlock
  Task.finally' (rotated r drained whitelistOk id) unlock

/-- `rotate` -/
def rotate (s : Settings) (b : BrokerId) (force : Bool) : Coro RotateResult := do
  let token ← newId
  if ← acquireLock (.brokerIp b) 60 token "broker IP lock" then
    rotateLocked s b force (releaseLock (.brokerIp b) token)
  else Task.raise (.app "LOCK_CONTENTION" "Broker IP lock held" 409)

end BrokerBridge
