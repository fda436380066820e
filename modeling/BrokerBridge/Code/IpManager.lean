import BrokerBridge.Code.Coro

/-!
# Static IPs

`IpManagerService`: allocating an IP, assigning it to a broker, attaching and
detaching it, and releasing it.
-/

namespace BrokerBridge

open Conc

structure Settings where
  ipReuseCooldownHours : Int := 24

/-- `int(…)` of a configuration value. -/
def settingInt : Setting Int → Coro Int
  | .value n => pure n
  | .bad => Task.raise (.other "invalid literal for int()")

/-- `_cooldown_hours` -/
def cooldownHours (s : Settings) : Coro Int := do
  let config ← execute .config
  match config.cooldownHours with
  | some x => settingInt x
  | none => pure s.ipReuseCooldownHours

/-- An hour, in the unit of instants. -/
def hour : Instant := 3600

/-! ## Allocating -/

/-- One try of `allocate_ip`: `none` when the address is taken already. -/
def tryAllocate (region : Region) : Coro (Option StaticIp) := do
  let (ext, address) ←
    Task.catching (infra (.createIp region)) fun
      | .infra code message status => Task.raise (.app code message status)
      | e => Task.raise e
  let id ← newId
  Task.catching
    (do
      stage (.addIp { id := id, externalId := ext, ipAddress := address, region := region })
      flush
      enqueueOutbox (.ipAllocated id address region)
      commit
      let row ← refreshed (← execute (.ip id))
      pure (some row))
    fun
    | .integrity => do
        rollback
        pure none
    | e => Task.raise e

def allocateTries (region : Region) : Nat → Coro StaticIp
  | 0 => Task.raise (.app "IP_ALLOCATE_CONFLICT"
      "Could not allocate a unique static IP address" 409)
  | n + 1 => do
      match ← tryAllocate region with
      | some row => pure row
      | none => allocateTries region n

/-- `allocate_ip` -/
def allocateIp (region : Region) : Coro StaticIp := do
  getProvider
  allocateTries region 8

/-- `get_ip` -/
def getIp (x : IpId) : Coro StaticIp := do
  match ← execute (.ip x) with
  | none => Task.raise (.app "NOT_FOUND" "Static IP not found" 404)
  | some ip => pure ip

/-! ## Assigning -/

/-- `_assert_reuse_allowed` -/
def assertReuseAllowed (b : BrokerId) (x : IpId) : Coro Unit := do
  let now ← now
  let hist ← execute (.usageHistory b x)
  if hist.any fun h => h.reuseEligibleAt.any (now < ·) then
    Task.raise (.app "IP_REUSE_POLICY"
      "Cannot reassign this IP to the same broker until cooldown elapses (BR-G04)" 409)
  else pure ()

/-- What `assign` asks of the IP's status. -/
def checkAssignable (ip : StaticIp) : Coro Unit :=
  if ip.status = .quarantined then
    Task.raise (.app "INVALID_STATE" "IP status quarantined cannot be assigned" 409)
  else if ip.status = .attached then
    Task.raise (.app "INVALID_STATE" "Detach IP before reassignment" 409)
  else pure ()

/-- The assignment row and its usage history, staged. -/
def addAssignment (clientId : ClientId) (b : BrokerId) (x : IpId) (now : Instant) :
    Coro AssignmentId := do
  let id ← newId
  stage (.addAssignment
    { id := id, clientId := clientId, brokerAccountId := b, staticIpId := x })
  let histId ← newId
  stage (.addHistory
    { id := histId, brokerAccountId := b, staticIpId := x, usedAt := now })
  pure id

/-- An IP that had been released is allocated again. -/
def reviveIp (ip : StaticIp) : Coro Unit :=
  if ip.status = .released then do
    let _ ← assign ip (.status .allocated)
  else pure ()

/-- The body of `assign`, with both locks held. -/
def assignLocked (x : IpId) (b : BrokerId) (clientId : Option ClientId) :
    Coro IpAssignment := do
  let ip ← getIp x
  checkAssignable ip
  match ← execute (.broker b) with
  | none => Task.raise (.app "NOT_FOUND" "Broker not found" 404)
  | some broker =>
      assertReuseAllowed b x
      let active ← scalarOneOrNone (← execute (.activeAssignmentsOfBroker b))
      if active.isSome then
        Task.raise (.app "ASSIGNMENT_CONFLICT" "Broker already has an active IP assignment" 409)
      else
        let id ← addAssignment (clientId.getD broker.clientId) b x (← now)
        reviveIp ip
        commit
        refreshed (← execute (.assignment id))

/-- The second lock of `assign`; without it the first is given back. -/
def withIpLock (x : IpId) (b : BrokerId) (token : Nat) : Coro Unit := do
  if ← acquireLock (.ip x) 30 token "IP lock" then pure ()
  else
    releaseLock (.brokerIp b) token
    Task.raise (.app "LOCK_CONTENTION" "IP lock held" 409)

/-- `assign` -/
def assignIp (x : IpId) (b : BrokerId) (clientId : Option ClientId) :
    Coro IpAssignment := do
  let token ← newId
  if ← acquireLock (.brokerIp b) 30 token "broker IP lock" then
    withIpLock x b token
    Task.finally' (assignLocked x b clientId)
      (do
        releaseLock (.ip x) token
        releaseLock (.brokerIp b) token)
  else Task.raise (.app "LOCK_CONTENTION" "Broker IP lock held" 409)

/-! ## Attaching, detaching, releasing -/

/-- A body under the lock of an IP. -/
def underIpLock {α : Type} (x : IpId) (body : Coro α) : Coro α := do
  let token ← newId
  if ← acquireLock (.ip x) 30 token "IP lock" then
    Task.finally' body (releaseLock (.ip x) token)
  else Task.raise (.app "LOCK_CONTENTION" "IP lock held" 409)

def attachLocked (x : IpId) (instanceId : InstanceId) : Coro StaticIp := do
  let ip ← getIp x
  match ← execute (.instanceById instanceId) with
  | none => Task.raise (.app "NOT_FOUND" "Instance not found" 404)
  | some inst =>
      if inst.status = .destroyed then
        Task.raise (.app "INVALID_STATE" "Instance is destroyed" 409)
      else
        getProvider
        infra (.attachIp ip.externalId inst.externalId)
        let ip ← assign ip (.instanceId (some instanceId))
        let _ ← assign ip (.status .attached)
        commit
        refreshed (← execute (.ip x))

/-- `attach` -/
def attachIp (x : IpId) (instanceId : InstanceId) : Coro StaticIp :=
  underIpLock x (attachLocked x instanceId)

def detachLocked (x : IpId) : Coro StaticIp := do
  let ip ← getIp x
  getProvider
  infra (.detachIp ip.externalId)
  let ip ← assign ip (.instanceId none)
  let _ ← assign ip (.status .detached)
  commit
  refreshed (← execute (.ip x))

/-- `detach` -/
def detachIp (x : IpId) : Coro StaticIp := underIpLock x (detachLocked x)

/-- The usage rows of an assignment that ends, closed. -/
def closeHistory (now eligible : Instant) : List BrokerIpUsageHistory → Coro Unit
  | [] => pure ()
  | h :: hs => do
      let h ← assign h (.releasedAt (some now))
      let _ ← assign h (.reuseEligibleAt (some eligible))
      closeHistory now eligible hs

/-- An assignment marked released; its usage rows are read in between. -/
def releaseAssignment (now eligible : Instant) (a : IpAssignment) : Coro Unit := do
  let a ← assign a (.status .released)
  let _ ← assign a (.releasedAt (some now))
  let hist ← execute (.openUsageHistory a.brokerAccountId a.staticIpId)
  closeHistory now eligible hist

def releaseAssignments (now eligible : Instant) : List IpAssignment → Coro Unit
  | [] => pure ()
  | a :: as => do
      releaseAssignment now eligible a
      releaseAssignments now eligible as

def releaseLocked (s : Settings) (x : IpId) : Coro StaticIp := do
  let ip ← getIp x
  if ip.status = .attached then
    Task.raise (.app "INVALID_STATE" "Detach IP before release" 409)
  else
    let cooldown ← cooldownHours s
    let now ← now
    let active ← execute (.activeAssignmentsOfIp x)
    releaseAssignments now (now + cooldown * hour) active
    getProvider
    infra (.deleteIp ip.externalId)
    let ip ← assign ip (.status .released)
    enqueueOutbox (.ipReleased ip.id ip.ipAddress ip.region)
    commit
    refreshed (← execute (.ip x))

/-- `release` -/
def releaseIp (s : Settings) (x : IpId) : Coro StaticIp := underIpLock x (releaseLocked s x)

end BrokerBridge
