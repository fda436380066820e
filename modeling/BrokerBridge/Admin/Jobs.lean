import BrokerBridge.Admin.Console

/-!
# What the administration runs

`activate_provider`, `put_config`, `drain_outbox` and its three callers.
-/

namespace BrokerBridge.Admin

open Conc

/-! ## Regions -/

/-- `COMMON_REGIONS` -/
def commonRegions : List String :=
  ["ewr", "ord", "dfw", "sea", "lax", "atl", "mia", "sjc", "ams", "lhr", "fra", "nrt", "syd",
    "sgp", "icn", "yto", "mex", "sao", "mad", "waw", "sto"]

/-- `REGION_ALIASES` -/
def regionAliases : List (String × String) :=
  [("eur", "ewr"), ("nyc", "ewr"), ("ny", "ewr"), ("newyork", "ewr"), ("chicago", "ord"),
    ("london", "lhr"), ("amsterdam", "ams"), ("frankfurt", "fra")]

/-- `normalize_region` of a text that is not blank: the region, or the message. -/
def normalizeRegion (raw : String) : Except String String :=
  let region := Text.lower (Text.strip raw)
  match regionAliases.lookup region with
  | some r => .ok r
  | none =>
      if region ∈ commonRegions then .ok region
      else
        let hint :=
          if region.startsWith "eu" then " Did you mean 'ewr' (Newark)?" else ""
        .error (s!"Unknown region '{raw}'. Use a Vultr-style code such as " ++
          s!"ewr, ord, lax, ams, fra, lhr, sjc.{hint}")

def blank : Option String → Bool
  | none => true
  | some x => (Text.strip x).isEmpty

/-! ## Activating a provider -/

structure ConsoleSettings where
  mockInfraBackend : String := "database"
  vultrDefaultRegion : String := "ewr"

/-- `ProviderActivateRequest`; its scope is not read by anything. -/
structure ActivateRequest where
  providerType : String
  clientId : Option ClientId := none
  validateFirst : Bool := true
  activate : Bool := true
  config : ProviderBody := {}

/-- The activation of a kind for everyone. -/
def ActivateRequest.global (body : ActivateRequest) : Bool :=
  body.activate && body.clientId.isNone

def validationFailed (message : String) : Exn :=
  .app "PROVIDER_VALIDATION_FAILED" message 422

/-- `_apply_region_config` -/
def applyRegionConfig (config : ProviderBody) : Except Exn ProviderBody :=
  match if blank config.defaultRegion then config.region else config.defaultRegion with
  | none => .ok config
  | some raw =>
      if blank (some raw) then .ok config
      else
        match normalizeRegion raw with
        | .error message => .error (validationFailed message)
        | .ok region =>
            .ok { config with
              defaultRegion := some region
              region := config.region.map fun _ => region }

/-- `_probe_error_message` -/
def probeErrorMessage (probe : Probe) (fallback : String) : String :=
  if !blank probe.message then Text.strip (probe.message.getD "")
  else if !blank probe.hint then Text.strip (probe.hint.getD "")
  else
    match probe.error with
    | some code => s!"{fallback} ({code})"
    | none => fallback

/-- `DOCKER_SOCKET_HINT` -/
def dockerSocketHint : String :=
  "Docker socket not mounted or Docker Engine unavailable; use mock_backend=database, or ensure " ++
    "/var/run/docker.sock is mounted (Local Lab: docker compose up)"

def contains (text part : String) : Bool := (text.splitOn part).length > 1

/-- The message of a failed probe of a mock backend. -/
def mockProbeMessage (backend : String) (probe : Probe) : String :=
  let msg := probeErrorMessage probe "Provider probe failed"
  if backend = "docker" && !contains (Text.lower msg) "database" &&
      (!contains (Text.lower msg) "docker" || !contains (Text.lower msg) "socket") then
    let stem := msg.dropEndWhile (· == '.')
    s!"{stem}. {dockerSocketHint}"
  else msg

/-- The checks before a probe: the body as it will be stored, and the message
for when the probe fails, if there is a probe. -/
def checkBody (s : ConsoleSettings) (k : ProviderKind) (body : ActivateRequest)
    (config : ProviderBody) : Except Exn (ProviderBody × Option (Probe → String)) :=
  match k with
  | .event =>
      if body.providerType ∈ ["memory", "redpanda_local", "kafka", "redpanda_cloud"] then
        .ok (config, some fun probe => probeErrorMessage probe "Event provider probe failed")
      else
        let t := body.providerType
        .error (validationFailed (s!"Event provider type '{t}' not supported " ++
          "(use memory|redpanda_local|kafka|redpanda_cloud)"))
  | .infrastructure =>
      if Text.lower body.providerType = "mock" then
        let given := config.mockBackend.getD ""
        let backend := Text.lower (Text.strip
          (if given ≠ "" then given
          else if s.mockInfraBackend ≠ "" then s.mockInfraBackend
          else "database"))
        if backend = "database" ∨ backend = "docker" then
          .ok ({ config with mockBackend := some backend }, some (mockProbeMessage backend))
        else
          .error (validationFailed s!"mock_backend '{backend}' not supported (use database|docker)")
      else if Text.lower body.providerType = "vultr" then
        if config.apiKey.getD "" = "" then .error (validationFailed "Vultr api_key required")
        else .ok (config, some fun probe => probeErrorMessage probe "Vultr provider probe failed")
      else
        let t := body.providerType
        .error (validationFailed s!"Provider type '{t}' not supported (use mock|vultr)")
  | _ =>
      if body.providerType = "mock" then
        .ok (config, some fun probe => probeErrorMessage probe "Provider probe failed")
      else
        let t := body.providerType
        .error (validationFailed s!"Provider type '{t}' not supported (use mock)")

def probeBody (k : ProviderKind) (providerType : String) (config : ProviderBody)
    (message : Probe → String) : Job Unit := do
  let x : Except Exn Probe ← Task.ask (Req.probe k providerType config)
  let probe ← ofAnswer x
  if probe.ok then pure () else Task.raise (validationFailed (message probe))

/-- Everything before the tables are read: the body as it will be stored. -/
def validateBody (s : ConsoleSettings) (k : ProviderKind) (body : ActivateRequest) :
    Job ProviderBody := do
  let config ← ofAnswer (applyRegionConfig body.config)
  if body.validateFirst then
    let (config, message) ← ofAnswer (checkBody s k body config)
    match message with
    | none => pure config
    | some message => do
        probeBody k body.providerType config message
        pure config
  else pure config

/-- The bulk update. -/
def retireActive (k : ProviderKind) : Job Unit := do
  let ws ← Task.local'
  let x : Except Exn (List ProviderConfigId) ← Task.ask (Req.retire ws k)
  let ids ← ofAnswer x
  Task.modifyLocal fun ws => ws ++ ids.map fun i => .setProvider i (.status .retired)

/-- `activated_at` -/
def activationTime (activate : Bool) : Job (Option Instant) :=
  if activate then do
    let t ← now
    pure (some t)
  else pure none

/-- The event of an activated event provider. -/
def announceActivation (k : ProviderKind) (body : ActivateRequest) (version : Nat) : Job Unit :=
  if body.activate ∧ k = .event then
    enqueueOutbox "provider.activated" "config"
      (.providerActivated "event" body.providerType version)
  else pure ()

/-- `next_version`, after the latest row. -/
def nextVersion : Option ProviderConfig → Nat
  | some r => r.version + 1
  | none => 1

/-- The new row, in one transaction with the retirement of the others. -/
def installVersion (k : ProviderKind) (body : ActivateRequest) (config : ProviderBody)
    (version : Nat) : Job ProviderConfig := do
  retireActive k
  let id ← newId
  let activatedAt ← activationTime body.activate
  stage (.addProvider
    { id := id
      kind := k
      providerType := body.providerType
      scopeType := .global
      clientId := body.clientId
      status := if body.activate then .active else .pending
      version := version
      config := config
      activatedAt := activatedAt })
  announceActivation k body version
  commit
  refreshed (← execute (.providerConfig id))

/-- What `activate_provider` does once the request is validated. -/
def installProvider (k : ProviderKind) (body : ActivateRequest) (config : ProviderBody) :
    Job ProviderConfig := do
  let latest ← execute (.latest k)
  installVersion k body config (nextVersion latest)

/-- `activate_provider` -/
def activateProvider (s : ConsoleSettings) (kind : String) (body : ActivateRequest) :
    Job ProviderConfig :=
  match ProviderKind.ofString kind with
  | none => Task.raise (.app "NOT_FOUND" s!"Unknown provider kind: {kind}" 404)
  | some k => do
      let config ← validateBody s k body
      installProvider k body config

/-! ## Configuration items -/

/-- `ConfigService.put` -/
def putItem (key value : String) (updatedBy : Option UserId) : Job ConfigurationItem := do
  match ← execute (.item key) with
  | none => do
      let id ← newId
      stage (.addItem { id := id, key := key, value := value, version := 1,
                        updatedBy := updatedBy })
      commit
      refreshed (← execute (.itemById id))
  | some item => do
      stage (.setItem item.id (.value value))
      stage (.setItem item.id (.version ((if item.version = 0 then 1 else item.version) + 1)))
      stage (.setItem item.id (.updatedBy updatedBy))
      commit
      refreshed (← execute (.itemById item.id))

/-- The keys whose changes are announced. -/
def announcedKey (key : String) : Bool :=
  "ip.rotation.".toList.isPrefixOf key.toList || "routing.".toList.isPrefixOf key.toList

/-- `put_config` -/
def putConfig (key value : String) (user : UserId) : Job ConfigurationItem := do
  let item ← putItem key value (some user)
  if announcedKey key then
    enqueueOutbox "config.updated" "config" (.configUpdated key item.version)
    commit
    refreshed (← execute (.itemById item.id))
  else pure item

/-! ## Draining the outbox -/

/-- `DEFAULT_TOPIC_MAP` -/
def defaultTopicMap : List (String × String) :=
  [("orders", "brokerbridge.orders"), ("brokers", "brokerbridge.brokers"),
    ("ip", "brokerbridge.ip"), ("subscriptions", "brokerbridge.subscriptions"),
    ("config", "brokerbridge.config")]

/-- `resolve_physical_topic` -/
def resolvePhysicalTopic (logical : String) (bus : EventBus) : String :=
  let topicPrefix := bus.topicPrefix.bind fun p => if p = "" then none else some p
  let physical :=
    match (bus.topicMap ++ defaultTopicMap).lookup logical with
    | some physical => physical
    | none =>
        match topicPrefix with
        | some p =>
            let stem := p.dropEndWhile (· == '.')
            s!"{stem}.{logical}"
        | none => s!"brokerbridge.{logical}"
  match topicPrefix with
  | some p =>
      if (bus.topicMap.lookup logical).isNone && physical.startsWith "brokerbridge." then
        let stem := p.dropEndWhile (· == '.')
        s!"{stem}.{physical.drop 13}"
      else physical
  | none => physical

/-- `build_envelope`, addressed. -/
def publication (bus : EventBus) (producer : String) (row : OutboxRow) : Publication where
  topic := resolvePhysicalTopic row.topic bus
  eventId := row.id
  eventType := row.eventType
  producer := producer
  correlationId := row.correlationId
  payload := row.payload

/-- One row published and marked; whether it was sent. -/
def publishOne (bus : EventBus) (producer : String) (row : OutboxRow) : Job Bool :=
  Task.catching
    (do
      let x : Except Exn Unit ← Task.ask (Req.publish (publication bus producer row))
      ofAnswer x
      let row ← setOutbox row (.status .sent)
      let _ ← setOutbox row (.sentAt (some (← now)))
      pure true)
    fun e =>
      if e.isException then do
        let row ← setOutbox row (.status .error)
        let _ ← setOutbox row (.error (some ((e.str.take 2000).toString)))
        pure false
      else Task.raise e

structure DrainStats where
  sent : Nat := 0
  error : Nat := 0
  pending : Nat := 0
  deriving DecidableEq

def publishEach (bus : EventBus) (producer : String) : List OutboxRow → DrainStats →
    Job DrainStats
  | [], stats => pure stats
  | row :: rows, stats => do
      let sent ← publishOne bus producer row
      publishEach bus producer rows
        (if sent then { stats with sent := stats.sent + 1 }
        else { stats with error := stats.error + 1 })

/-- `get_event_provider`, as far as its caller is concerned. -/
def getEventProvider : Job EventBus := do
  let _ ← execute (.activeRows .event)
  let x : Except Exn EventBus ← Task.ask Req.connect
  ofAnswer x

/-- `drain_outbox` -/
def drainOutbox (limit : Nat) (producer : String) : Job DrainStats := do
  let rows ← execute (.pendingOutbox limit)
  if rows.isEmpty then pure {}
  else
    let bus ← getEventProvider
    let stats ← publishEach bus producer rows {}
    commit
    pure stats

/-- One round of `outbox_publisher_loop`; `last` is the version it saw before. -/
def publisherRound (last : Option Nat) : Job DrainStats :=
  Task.catching
    (do
      let rows ← execute (.activeRows .event)
      let version := (rows.find? fun r => r.activeGlobal .event).map (·.version)
      if version ≠ last then
        let _ ← getEventProvider
      drainOutbox 50 "brokerbridge-worker")
    fun e => if e.isException then pure {} else Task.raise e

/-- `_emit_sim_event` -/
def emitSimEvent (eventType : String) (payload : Payload) : Job DrainStats := do
  enqueueOutbox eventType "config" payload
  commit
  drainOutbox 20 "brokerbridge-sim"

/-! ## The system -/

inductive Call where
  | activate (kind : String) (body : ActivateRequest)
  | putConfig (key value : String) (user : UserId)
  /-- `drain_events` -/
  | drain (limit : Nat)
  | publisherRound (last : Option Nat)
  | emitSimEvent (eventType : String) (payload : Payload)

inductive Reply where
  | provider (row : ProviderConfig)
  | item (row : ConfigurationItem)
  | drained (stats : DrainStats)

abbrev Running : Type := Prog Req Req.Ans (Except Exn Reply)

/-- The program of a job, with a new session. -/
def Job.program {α : Type} (t : Job α) (reply : α → Reply) : Running :=
  (t []).bind fun r => .ret (r.1.map reply)

def programOf (s : ConsoleSettings) : Call → Running
  | .activate kind body => (activateProvider s kind body).program .provider
  | .putConfig key value user => (putConfig key value user).program .item
  | .drain limit => (drainOutbox limit "brokerbridge-api").program .drained
  | .publisherRound last => (publisherRound last).program .drained
  | .emitSimEvent t p => (emitSimEvent t p).program .drained

inductive Tick where
  | advance (by_ : Nat)
  /-- Another service commits an event. -/
  | announce (eventType topic : String) (payload : Payload)

def tick : Tick → World → World
  | .advance n, w => { w with clock := w.clock + n }
  | .announce t topic p, w =>
      let row : OutboxRow := { id := w.freshId, eventType := t, topic := topic, payload := p }
      { w with
        db := (Write.addOutbox row).apply w.clock w.db
        nextId := w.freshId + 1 }

abbrev Pools : Type := Pool World Req Req.Ans (Except Exn Reply)

abbrev Happening : Type := Event Env Call Tick

def console (s : ConsoleSettings) : Machine World Req Req.Ans Env Call Tick (Except Exn Reply) where
  prog := programOf s
  handle := handle
  tick := tick

/-- The pools a run starts from: a world, and no call yet. -/
def Fresh (w : World) (p : Pools) : Prop := p = { world := w }

theorem reach_fresh {s : ConsoleSettings} {Cond : Pools → Happening → Prop} (w : World) :
    (console s).Reach (Fresh w) Cond { world := w } := .init rfl

end BrokerBridge.Admin
