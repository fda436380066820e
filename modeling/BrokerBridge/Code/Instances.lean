import BrokerBridge.Code.Alone

/-!
# Instances

The rest of `IpManagerService`: instances are created, destroyed, suspended and started,
and their renewal is switched. None of these methods takes a lock. Each reads the row,
calls the provider and commits; `suspend_instance` and `start_instance` refuse a
destroyed instance, by the row they have read.
-/

namespace BrokerBridge

open Conc

/-- A provider call whose `MockInfrastructureError` is put into the envelope. -/
def infraOrApp (c : InfraCall) : Coro c.Res :=
  Task.catching (infra c) fun
    | .infra code message status => Task.raise (.app code message status)
    | e => Task.raise e

/-- `create_instance`; the provider reports the state of the new resource. -/
def createInstance (clientId : ClientId) (region : Region) (status : InstanceStatus)
    (autoRenew : Bool) : Coro Instance := do
  getProvider
  let ext ← infraOrApp (.createInstance region)
  let id ← newId
  stage (.addInstance
    { id := id, clientId := clientId, externalId := ext, region := region, status := status
      autoRenew := autoRenew })
  commit
  refreshed (← execute (.instanceById id))

/-- The row of an instance. -/
def getInstance (i : InstanceId) : Coro Instance := do
  match ← execute (.instanceById i) with
  | none => Task.raise (.app "NOT_FOUND" "Instance not found" 404)
  | some row => pure row

/-- `destroy_instance` -/
def destroyInstance (i : InstanceId) : Coro Unit := do
  let row ← getInstance i
  getProvider
  infraOrApp (.destroyInstance row.externalId)
  let _ ← assign row (.status .destroyed)
  commit

/-- What `suspend_instance` and `start_instance` have in common. -/
def setStatus (i : InstanceId) (call : ExternalId → Coro Unit) (status : InstanceStatus) :
    Coro Instance := do
  let row ← getInstance i
  if row.status = .destroyed then
    Task.raise (.app "INVALID_STATE" "Instance is destroyed" 409)
  else
    getProvider
    call row.externalId
    let _ ← assign row (.status status)
    commit
    refreshed (← execute (.instanceById i))

/-- `suspend_instance` -/
def suspendInstance (i : InstanceId) : Coro Instance :=
  setStatus i (fun ext => infraOrApp (.suspendInstance ext)) .suspended

/-- `start_instance` -/
def startInstance (i : InstanceId) : Coro Instance :=
  setStatus i (fun ext => infraOrApp (.startInstance ext)) .running

/-- `set_auto_renew` -/
def setAutoRenew (i : InstanceId) (enabled : Bool) : Coro Instance := do
  let row ← getInstance i
  getProvider
  infra (.setAutoRenew row.externalId enabled)
  let _ ← assign row (.autoRenew enabled)
  commit
  refreshed (← execute (.instanceById i))

/-! ## The system with these calls -/

inductive FleetCall where
  | createInstance (c : ClientId) (region : Region) (status : InstanceStatus) (autoRenew : Bool)
  | destroyInstance (i : InstanceId)
  | suspendInstance (i : InstanceId)
  | startInstance (i : InstanceId)
  | setAutoRenew (i : InstanceId) (enabled : Bool)
  | call (c : Call)

inductive FleetReply where
  | row (inst : Instance)
  | done
  | reply (r : Reply)

/-- The program of a coroutine, with a new session. -/
def Coro.fleet {α : Type} (t : Coro α) (reply : α → FleetReply) :
    Prog Req Req.Ans (Except Exn FleetReply) :=
  (t {}).bind fun r => .ret (r.1.map reply)

def fleetProgram (s : Settings) : FleetCall → Prog Req Req.Ans (Except Exn FleetReply)
  | .createInstance c region status renew => (createInstance c region status renew).fleet .row
  | .destroyInstance i => (destroyInstance i).fleet fun _ => .done
  | .suspendInstance i => (suspendInstance i).fleet .row
  | .startInstance i => (startInstance i).fleet .row
  | .setAutoRenew i enabled => (setAutoRenew i enabled).fleet .row
  | .call c => (programOf s c).bind fun r => .ret (r.map .reply)

abbrev Fleet : Type := Pool World Req Req.Ans (Except Exn FleetReply)

abbrev FleetEvent : Type := Event Env FleetCall Tick

def fleet (s : Settings) : Machine World Req Req.Ans Env FleetCall Tick
    (Except Exn FleetReply) where
  prog := fleetProgram s
  handle := handle
  tick := tick

/-- The calls that have to do with instances and static IPs. -/
def FleetCall.inScope : FleetCall → Bool
  | .call (.enforceExpiry _) | .call (.expireNow _) => true
  | .call c => c.onIps
  | _ => true

end BrokerBridge
