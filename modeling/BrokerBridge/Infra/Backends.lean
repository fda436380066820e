import BrokerBridge.Ips.DocNet
import BrokerBridge.World.Handle

/-!
# The two mock backends

`DatabaseMockBackend` keeps everything in memory. `DockerMockBackend` has a container for
each instance, and keeps its IPs the same way as the other: the two classes have the same
code there, so it is written once, for a pool of IPs. What the Docker engine answers, and
whether it answers at all, comes with the call, and so do the random parts.
-/

namespace BrokerBridge.Infra

open Conc

/-! ## Resources -/

/-- An IP; one that was attached without being made has neither address nor region. -/
structure IpResource where
  externalId : ExternalId
  status : CloudStatus
  id : Option ExternalId := none
  ipAddress : Option String := none
  region : Option Region := none
  instanceExternalId : Option ExternalId := none
  provider : Option String := none
  backend : Option String := none
  note : Option String := none
  autoRenew : Option Bool := none
  deriving DecidableEq

inductive IpResourceField where
  | deleted
  | attachedTo (instExt : ExternalId)
  | detached
  | autoRenew (enabled : Bool)

def IpResourceField.set : IpResourceField → IpResource → IpResource
  | .deleted, r => { r with status := .released }
  | .attachedTo instExt, r => { r with status := .attached, instanceExternalId := some instExt }
  | .detached, r => { r with status := .detached, instanceExternalId := none }
  | .autoRenew enabled, r => { r with autoRenew := some enabled }

instance : Row IpResource where
  key := IpResource.externalId
  Field := IpResourceField
  set := IpResourceField.set
  key_set f r := by cases f <;> rfl

abbrev ContainerId : Type := String

structure InstanceResource where
  externalId : ExternalId
  status : InstanceStatus
  id : Option ExternalId := none
  region : Option Region := none
  provider : Option String := none
  backend : Option String := none
  label : Option String := none
  containerId : Option ContainerId := none
  autoRenew : Option Bool := none
  deriving DecidableEq

inductive InstanceResourceField where
  | status (st : InstanceStatus)
  | autoRenew (enabled : Bool)

def InstanceResourceField.set : InstanceResourceField → InstanceResource → InstanceResource
  | .status st, r => { r with status := st }
  | .autoRenew enabled, r => { r with autoRenew := some enabled }

instance : Row InstanceResource where
  key := InstanceResource.externalId
  Field := InstanceResourceField
  set := InstanceResourceField.set
  key_set f r := by cases f <;> rfl

/-! ## What a call is given -/

/-- What the Docker engine answers in a call; an error is the text of its exception. -/
structure Engine where
  sdk : Bool := true
  client : Except String Unit := .ok ()
  ping : Except String Unit := .ok ()
  run : Except String ContainerId := .ok ""
  get : Except String ContainerId := .ok ""
  list : Except String (List ContainerId) := .ok []
  remove : Except String Unit := .ok ()
  stop : Except String Unit := .ok ()
  start : Except String Unit := .ok ()

/-- The first container of those that have the label. -/
def Engine.labelled (engine : Engine) : Except Exn (Option ContainerId) :=
  match engine.list with
  | .error exc => .error (.other exc)
  | .ok containers => .ok containers.head?

structure Tape where
  /-- the next `uuid4` -/
  uuid : ExternalId
  /-- the random parts of the addresses that are tried -/
  salts : Nat → Nat := fun _ => 0
  /-- `infra_fault_enabled()` -/
  faultEnabled : Bool := false
  label : Option String := none
  engine : Engine := {}

/-! ## The pool of IPs -/

/-- The allocator and the IPs. -/
structure IpPool where
  counter : Nat := 1
  ips : Table IpResource := {}

namespace IpPool

variable (p : IpPool)

/-- The addresses in use. -/
def used : List String := p.ips.rows.filterMap fun r => r.ipAddress.filter (· ≠ "")

/-- `create_ip`, past the fault; what the backend adds of its own is in `r`. -/
def createIp (region : Region) (t : Tape) (r : IpResource) : IpResource × IpPool :=
  let (ipAddress, counter) := DocNet.nextAddress p.used p.counter t.salts
  let resource : IpResource :=
    { r with
      id := some t.uuid
      externalId := t.uuid
      ipAddress := some ipAddress
      region := some region
      status := .allocated
      provider := some "mock" }
  (resource, { counter := counter, ips := p.ips.insert resource })

def deleteIp (ext : ExternalId) : IpPool :=
  { p with ips := p.ips.update ext IpResourceField.deleted }

def attachIp (ext instExt : ExternalId) : IpPool :=
  match p.ips.get? ext with
  | none =>
      { p with
        ips := p.ips.insert
          { externalId := ext, status := .attached, instanceExternalId := some instExt } }
  | some _ => { p with ips := p.ips.update ext (IpResourceField.attachedTo instExt) }

def detachIp (ext : ExternalId) : IpPool :=
  { p with ips := p.ips.update ext IpResourceField.detached }

def setAutoRenew (ext : ExternalId) (enabled : Bool) : IpPool :=
  { p with ips := p.ips.update ext (IpResourceField.autoRenew enabled) }

end IpPool

/-! ## The database backend -/

/-- `INFRA_UNAVAILABLE`, with what was asked for. -/
def injectedFault (asked : String) : Exn :=
  .infra "INFRA_UNAVAILABLE" ("Mock infrastructure injected fault (" ++ asked ++ ")") 503

/-- The label of a new instance. -/
def labelOf (region : Region) (label : Option String) : String :=
  match label with
  | none | some "" => "Lab Instance " ++ region
  | some label => label

structure DatabaseMockBackend where
  pool : IpPool := {}
  instances : Table InstanceResource := {}
  probeFail : Bool := false

namespace DatabaseMockBackend

variable (b : DatabaseMockBackend)

def setProbeFail (enabled : Bool) : DatabaseMockBackend := { b with probeFail := enabled }

def faultActive (t : Tape) : Bool := b.probeFail || t.faultEnabled

def createIp (region : Region) (t : Tape) : Except Exn IpResource × DatabaseMockBackend :=
  if b.faultActive t then (.error (injectedFault "probe/create_ip"), b)
  else
    let (resource, pool) := b.pool.createIp region t
      { externalId := t.uuid
        status := .allocated
        backend := some "database"
        autoRenew := some true }
    (.ok resource, { b with pool := pool })

def deleteIp (ext : ExternalId) : DatabaseMockBackend := { b with pool := b.pool.deleteIp ext }

def attachIp (ext instExt : ExternalId) : DatabaseMockBackend :=
  { b with pool := b.pool.attachIp ext instExt }

def detachIp (ext : ExternalId) : DatabaseMockBackend := { b with pool := b.pool.detachIp ext }

def createInstance (region : Region) (t : Tape) :
    Except Exn InstanceResource × DatabaseMockBackend :=
  if b.faultActive t then (.error (injectedFault "create_instance"), b)
  else
    let resource : InstanceResource :=
      { id := some t.uuid
        externalId := t.uuid
        region := some region
        status := .running
        provider := some "mock"
        backend := some "database"
        label := some (labelOf region t.label)
        autoRenew := some true }
    (.ok resource, { b with instances := b.instances.insert resource })

def destroyInstance (ext : ExternalId) : DatabaseMockBackend :=
  { b with instances := b.instances.update ext (InstanceResourceField.status .destroyed) }

/-- An instance that is not known is kept track of from now on. -/
def track (ext : ExternalId) (st : InstanceStatus) : DatabaseMockBackend :=
  match b.instances.get? ext with
  | some _ => { b with instances := b.instances.update ext (InstanceResourceField.status st) }
  | none =>
      { b with
        instances := b.instances.insert
          { externalId := ext, status := st, provider := some "mock", backend := some "database" } }

def suspendInstance (ext : ExternalId) : DatabaseMockBackend := b.track ext .suspended

def startInstance (ext : ExternalId) : DatabaseMockBackend := b.track ext .running

def setAutoRenew (ext : ExternalId) (enabled : Bool) : DatabaseMockBackend :=
  if (b.instances.get? ext).isSome then
    { b with instances := b.instances.update ext (InstanceResourceField.autoRenew enabled) }
  else if (b.pool.ips.get? ext).isSome then
    { b with pool := b.pool.setAutoRenew ext enabled }
  else
    { b with
      instances := b.instances.insert
        { externalId := ext
          autoRenew := some enabled
          status := .running
          provider := some "mock"
          backend := some "database" } }

end DatabaseMockBackend

/-! ## The Docker backend -/

def dockerSocketHint : String :=
  "Docker socket not mounted or Docker Engine unavailable; " ++
  "use mock_backend=database, or ensure /var/run/docker.sock is mounted " ++
  "(Local Lab: docker compose up)"

/-- What is raised with an engine's exception in the text. -/
def dockerError (code message exc : String) : Exn := .infra code (message ++ ": " ++ exc) 503

structure DockerMockBackend where
  pool : IpPool := {}
  instances : Table InstanceResource := {}
  probeFail : Bool := false
  /-- whether the client is there already -/
  client : Bool := false

namespace DockerMockBackend

variable (b : DockerMockBackend)

def setProbeFail (enabled : Bool) : DockerMockBackend := { b with probeFail := enabled }

def faultActive (t : Tape) : Bool := b.probeFail || t.faultEnabled

/-- `_get_client` -/
def getClient (t : Tape) : Except Exn DockerMockBackend :=
  if b.client then .ok b
  else if t.engine.sdk then
    match t.engine.client with
    | .ok _ => .ok { b with client := true }
    | .error exc =>
        .error (.infra "DOCKER_UNAVAILABLE" (dockerSocketHint ++ " (" ++ exc ++ ")") 503)
  else
    .error (.infra "DOCKER_SDK_MISSING" ("docker package required for MOCK_INFRA_BACKEND=docker " ++
      "(poetry install --extras infra-docker)") 503)

def createIp (region : Region) (t : Tape) : Except Exn IpResource × DockerMockBackend :=
  if b.faultActive t then (.error (injectedFault "probe/create_ip"), b)
  else
    let (resource, pool) := b.pool.createIp region t
      { externalId := t.uuid
        status := .allocated
        backend := some "docker"
        note := some "DOC-NET simulated IP (not container network IP)" }
    (.ok resource, { b with pool := pool })

def deleteIp (ext : ExternalId) : DockerMockBackend := { b with pool := b.pool.deleteIp ext }

def attachIp (ext instExt : ExternalId) : DockerMockBackend :=
  { b with pool := b.pool.attachIp ext instExt }

def detachIp (ext : ExternalId) : DockerMockBackend := { b with pool := b.pool.detachIp ext }

def createInstance (region : Region) (t : Tape) :
    Except Exn InstanceResource × DockerMockBackend :=
  if b.faultActive t then (.error (injectedFault "create_instance"), b)
  else
    match b.getClient t with
    | .error e => (.error e, b)
    | .ok b =>
        match t.engine.run with
        | .error exc =>
            (.error (dockerError "DOCKER_CREATE_FAILED" "Failed to create mock container" exc), b)
        | .ok container =>
            let resource : InstanceResource :=
              { id := some t.uuid
                externalId := t.uuid
                region := some region
                status := .running
                provider := some "mock"
                backend := some "docker"
                label := some (labelOf region t.label)
                containerId := some container
                autoRenew := some true }
            (.ok resource, { b with instances := b.instances.insert resource })

/-- `_container_for`: the container the instance was given, or else the first with its label. -/
def containerFor (ext : ExternalId) (t : Tape) :
    Except Exn (Option ContainerId) × DockerMockBackend :=
  match b.getClient t with
  | .error e => (.error e, b)
  | .ok b =>
      match (b.instances.get? ext).bind (·.containerId) with
      | none | some "" => (t.engine.labelled, b)
      | some _ =>
          match t.engine.get with
          | .ok container => (.ok (some container), b)
          | .error _ => (t.engine.labelled, b)

/-- The status, if the instance is known. -/
def setStatus (ext : ExternalId) (st : InstanceStatus) : DockerMockBackend :=
  { b with instances := b.instances.update ext (InstanceResourceField.status st) }

/-- A container that cannot be removed is left. -/
def destroyInstance (ext : ExternalId) (t : Tape) : Except Exn Unit × DockerMockBackend :=
  match b.containerFor ext t with
  | (.error e, b) => (.error e, b)
  | (.ok _, b) => (.ok (), b.setStatus ext .destroyed)

/-- The container, if there is one, is told to stop or to start, and then the status is set. -/
def turn (ext : ExternalId) (t : Tape) (told : Except String Unit) (code message : String)
    (st : InstanceStatus) : Except Exn Unit × DockerMockBackend :=
  match b.containerFor ext t with
  | (.error e, b) => (.error e, b)
  | (.ok none, b) => (.ok (), b.setStatus ext st)
  | (.ok (some _), b) =>
      match told with
      | .error exc => (.error (dockerError code message exc), b)
      | .ok _ => (.ok (), b.setStatus ext st)

def suspendInstance (ext : ExternalId) (t : Tape) : Except Exn Unit × DockerMockBackend :=
  b.turn ext t t.engine.stop "DOCKER_SUSPEND_FAILED" "Failed to stop mock container" .suspended

def startInstance (ext : ExternalId) (t : Tape) : Except Exn Unit × DockerMockBackend :=
  b.turn ext t t.engine.start "DOCKER_START_FAILED" "Failed to start mock container" .running

def setAutoRenew (ext : ExternalId) (enabled : Bool) : DockerMockBackend :=
  { b with
    instances := b.instances.update ext (InstanceResourceField.autoRenew enabled)
    pool := b.pool.setAutoRenew ext enabled }

end DockerMockBackend

/-! ## The facade -/

/-- `MockInfrastructureProvider` -/
inductive MockInfrastructureProvider where
  | database (b : DatabaseMockBackend)
  | docker (b : DockerMockBackend)

namespace MockInfrastructureProvider

/-- A name that is not known stands for the database. -/
def new (backend : String) : MockInfrastructureProvider :=
  let name := Text.lower (Text.strip (if backend = "" then "database" else backend))
  if name = "docker" then docker {} else database {}

def setProbeFail (enabled : Bool) : MockInfrastructureProvider → MockInfrastructureProvider
  | database b => database (b.setProbeFail enabled)
  | docker b => docker (b.setProbeFail enabled)

/-- A call of the facade goes to its backend. -/
def call : MockInfrastructureProvider → (c : InfraCall) → Tape →
    Except Exn c.Res × MockInfrastructureProvider
  | database b, .createIp region, t =>
      let (x, b) := b.createIp region t
      (x.map fun r => (r.externalId, r.ipAddress.getD ""), database b)
  | database b, .deleteIp ext, _ => (.ok (), database (b.deleteIp ext))
  | database b, .attachIp ext instExt, _ => (.ok (), database (b.attachIp ext instExt))
  | database b, .detachIp ext, _ => (.ok (), database (b.detachIp ext))
  | database b, .createInstance region, t =>
      let (x, b) := b.createInstance region t
      (x.map (·.externalId), database b)
  | database b, .destroyInstance ext, _ => (.ok (), database (b.destroyInstance ext))
  | database b, .suspendInstance ext, _ => (.ok (), database (b.suspendInstance ext))
  | database b, .startInstance ext, _ => (.ok (), database (b.startInstance ext))
  | database b, .setAutoRenew ext enabled, _ => (.ok (), database (b.setAutoRenew ext enabled))
  | docker b, .createIp region, t =>
      let (x, b) := b.createIp region t
      (x.map fun r => (r.externalId, r.ipAddress.getD ""), docker b)
  | docker b, .deleteIp ext, _ => (.ok (), docker (b.deleteIp ext))
  | docker b, .attachIp ext instExt, _ => (.ok (), docker (b.attachIp ext instExt))
  | docker b, .detachIp ext, _ => (.ok (), docker (b.detachIp ext))
  | docker b, .createInstance region, t =>
      let (x, b) := b.createInstance region t
      (x.map (·.externalId), docker b)
  | docker b, .destroyInstance ext, t =>
      let (x, b) := b.destroyInstance ext t
      (x, docker b)
  | docker b, .suspendInstance ext, t =>
      let (x, b) := b.suspendInstance ext t
      (x, docker b)
  | docker b, .startInstance ext, t =>
      let (x, b) := b.startInstance ext t
      (x, docker b)
  | docker b, .setAutoRenew ext enabled, _ => (.ok (), docker (b.setAutoRenew ext enabled))

end MockInfrastructureProvider

end BrokerBridge.Infra
