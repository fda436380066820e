import BrokerBridge.Admin.Versions

/-!
# The provider manager

One slot of the manager's cache holds the infrastructure provider, whether it was
built from the active row or from the environment; next to it stands the version of
the row, or -1 for the environment. A caller without a session does not see the row
and takes the environment's branch.

With the active row fixed, the callers with a session all get one object if and only
if there is no row, or no call without a session comes between two of theirs.
-/

namespace BrokerBridge.Admin

/-! ## Providers -/

structure ManagerSettings where
  infraProvider : String := "mock"
  mockInfraBackend : String := "database"
  vultrApiKey : String := ""
  vultrDefaultRegion : String := "ewr"

inductive MockBackend where
  | database | docker
  deriving DecidableEq, Repr

/-- `backend_name` -/
def MockBackend.name : MockBackend → String
  | .database => "database"
  | .docker => "docker"

inductive Adapter where
  | mock (backend : MockBackend) (probeFail : Bool)
  | vultr (apiKey defaultRegion : String)
  deriving DecidableEq

/-- A provider object: which one it is, and the row it was built from, none if it
was built from the environment. -/
structure InfraProvider where
  object : Nat
  builtFrom : Option ProviderConfig
  adapter : Adapter
  deriving DecidableEq

structure BrokerFault where
  code : String
  status : Int := 503
  retryable : Bool := true
  deriving DecidableEq

/-- `MockBrokerProvider` -/
structure BrokerObject where
  object : Nat
  persistentFault : Option BrokerFault := none
  deriving DecidableEq

structure InfraDegraded where
  configuredBackend : MockBackend
  effectiveBackend : MockBackend
  message : String
  deriving DecidableEq

/-- `ProviderManager`, as far as it keeps these two providers; `built` counts the
objects it has made. -/
structure ProviderManager where
  infrastructure : Option InfraProvider := none
  broker : Option BrokerObject := none
  infraVersion : Option Int := none
  infraDegraded : Option InfraDegraded := none
  built : Nat := 0
  deriving DecidableEq

/-- What a call finds around it: the error of the docker engine, if it does not
answer, and the fault flags. -/
structure Moment where
  dockerError : Option String := none
  brokerFault : Option BrokerFault := none
  infraProbeFail : Bool := false
  deriving DecidableEq

/-! ## Building -/

/-- `x.strip().lower()` -/
def stripLower (x : String) : String := Text.lower (Text.strip x)

/-- `x or y` -/
def orElse (x y : String) : String := if x = "" then y else x

/-- `_resolve_mock_backend` -/
def resolveMockBackend (s : ManagerSettings) (config : ProviderBody) : MockBackend :=
  let given := stripLower (config.mockBackend.getD "")
  let backend := orElse given (orElse (stripLower s.mockInfraBackend) "database")
  if backend = "docker" then .docker else .database

/-- The backend that `_build_mock_infra` settles on. -/
def effectiveBackend (at_ : Moment) : MockBackend → MockBackend
  | .database => .database
  | .docker => if at_.dockerError.isSome then .database else .docker

/-- `_infra_degraded` after `_build_mock_infra`. -/
def degradedBackend (at_ : Moment) : MockBackend → Option InfraDegraded
  | .database => none
  | .docker =>
      at_.dockerError.map fun message =>
        { configuredBackend := .docker
          effectiveBackend := .database
          message := orElse message dockerSocketHint }

/-- `_build_vultr` -/
def buildVultr (s : ManagerSettings) (config : ProviderBody) : Adapter :=
  let region := orElse (config.defaultRegion.getD "")
    (orElse (config.region.getD "") (orElse s.vultrDefaultRegion "ewr"))
  .vultr (Text.strip (orElse (config.apiKey.getD "") s.vultrApiKey)) (Text.strip region)

/-- A new provider takes the slot. -/
def ProviderManager.build (s : ManagerSettings) (at_ : Moment) (m : ProviderManager)
    (builtFrom : Option ProviderConfig) (providerType : String) (config : ProviderBody)
    (version : Int) : InfraProvider × ProviderManager :=
  if stripLower (orElse providerType "mock") = "vultr" then
    let provider : InfraProvider :=
      { object := m.built, builtFrom := builtFrom, adapter := buildVultr s config }
    (provider,
      { m with
        infrastructure := some provider
        infraVersion := some version
        built := m.built + 1 })
  else
    let backend := resolveMockBackend s config
    let provider : InfraProvider :=
      { object := m.built
        builtFrom := builtFrom
        adapter := .mock (effectiveBackend at_ backend) false }
    (provider,
      { m with
        infrastructure := some provider
        infraVersion := some version
        infraDegraded := degradedBackend at_ backend
        built := m.built + 1 })

/-- `_active_row`; without a session there is none. -/
def activeRow (k : ProviderKind) (session : Option Tables) : Option ProviderConfig :=
  session.bind fun d => ((Query.activeRows k).eval d).find? fun r => r.activeGlobal k

/-- The provider in the slot, if it is of this version. -/
def ProviderManager.cached (m : ProviderManager) (version : Int) : Option InfraProvider :=
  if m.infraVersion = some version then m.infrastructure else none

/-- `get_infrastructure_provider` -/
def getInfrastructureProvider (s : ManagerSettings) (at_ : Moment) (session : Option Tables)
    (m : ProviderManager) : InfraProvider × ProviderManager :=
  match activeRow .infrastructure session with
  | some row =>
      match m.cached row.version with
      | some provider => (provider, m)
      | none => m.build s at_ (some row) row.providerType row.config row.version
  | none =>
      match m.cached (-1) with
      | some provider => (provider, m)
      | none =>
          let config : ProviderBody :=
            if stripLower (orElse s.infraProvider "mock") = "vultr" then
              { apiKey := some s.vultrApiKey, defaultRegion := some s.vultrDefaultRegion }
            else {}
          m.build s at_ none s.infraProvider config (-1)

structure Description where
  providerType : String
  version : Option Nat
  backend : Option String
  configuredBackend : Option String
  effectiveBackend : Option String
  degraded : Bool
  degradeMessage : Option String
  label : String
  deriving DecidableEq

/-- `describe_infrastructure` -/
def describeInfrastructure (s : ManagerSettings) (at_ : Moment) (session : Option Tables)
    (m : ProviderManager) : Description × ProviderManager :=
  let row := activeRow .infrastructure session
  let (provider, m) := getInfrastructureProvider s at_ session m
  let providerType :=
    match row with
    | some row => row.providerType
    | none => orElse s.infraProvider "mock"
  let effective :=
    match provider.adapter with
    | .mock backend _ => some backend.name
    | .vultr _ _ => none
  let mock := Text.lower providerType = "mock"
  let configured :=
    if mock then
      some (resolveMockBackend s ((row.map (·.config)).getD {})).name
    else effective
  let label :=
    match effective with
    | some backend => if mock then s!"mock ({backend})" else providerType
    | none => providerType
  ({ providerType := providerType
     version := row.map (·.version)
     backend := effective
     configuredBackend := configured
     effectiveBackend := effective
     degraded := m.infraDegraded.isSome
     degradeMessage := m.infraDegraded.map (·.message)
     label := label }, m)

/-- `get_broker_provider`; both branches of the source build a mock. -/
def getBrokerProvider (m : ProviderManager) : BrokerObject × ProviderManager :=
  match m.broker with
  | some broker => (broker, m)
  | none =>
      let broker : BrokerObject := { object := m.built }
      (broker, { m with broker := some broker, built := m.built + 1 })

/-- `set_probe_fail` on the object in the slot. -/
def InfraProvider.setProbeFail (enabled : Bool) (p : InfraProvider) : InfraProvider :=
  match p.adapter with
  | .mock backend _ => { p with adapter := .mock backend enabled }
  | .vultr _ _ => p

/-- `apply_faults_to_providers` -/
def applyFaultsToProviders (s : ManagerSettings) (at_ : Moment) (m : ProviderManager) :
    ProviderManager :=
  let (broker, m) := getBrokerProvider m
  let m := { m with broker := some { broker with persistentFault := at_.brokerFault } }
  let (infra, m) := getInfrastructureProvider s at_ none m
  { m with infrastructure := some (infra.setProbeFail at_.infraProbeFail) }

/-! ## Sequences of calls -/

inductive ManagerCall where
  | getInfrastructure (session : Option Tables)
  | getBroker
  | applyFaults
  /-- `_submit_inline`, up to its broker provider -/
  | submit
  | describe (session : Option Tables)

inductive ManagerReply where
  | infrastructure (provider : InfraProvider)
  | broker (provider : BrokerObject)
  | description (x : Description)
  | none

def ProviderManager.call (s : ManagerSettings) (at_ : Moment) (m : ProviderManager) :
    ManagerCall → ManagerReply × ProviderManager
  | .getInfrastructure session =>
      let (provider, m) := getInfrastructureProvider s at_ session m
      (.infrastructure provider, m)
  | .getBroker =>
      let (broker, m) := getBrokerProvider m
      (.broker broker, m)
  | .applyFaults => (.none, applyFaultsToProviders s at_ m)
  | .submit =>
      let (broker, m) := getBrokerProvider (applyFaultsToProviders s at_ m)
      (.broker broker, m)
  | .describe session =>
      let (x, m) := describeInfrastructure s at_ session m
      (.description x, m)

/-- The call asks for the infrastructure provider with a session. -/
def ManagerCall.gets : ManagerCall → Bool
  | .getInfrastructure session => session.isSome
  | _ => false

/-- The call looks for the infrastructure provider without a session. -/
def ManagerCall.sessionless : ManagerCall → Bool
  | .getInfrastructure session => session.isNone
  | .getBroker => false
  | .applyFaults => true
  | .submit => true
  | .describe session => session.isNone

/-- The session of the call, if it has one, sees this active row. -/
def ManagerCall.Sees (row : Option ProviderConfig) : ManagerCall → Prop
  | .getInfrastructure (some d) => activeRow .infrastructure (some d) = row
  | .describe (some d) => activeRow .infrastructure (some d) = row
  | _ => True

/-- The provider that a call with a session was given. -/
def ManagerReply.given (c : ManagerCall) : ManagerReply → Option InfraProvider
  | .infrastructure provider => if c.gets then some provider else .none
  | _ => .none

/-- The providers that the calls with a session were given, in turn. -/
def ProviderManager.given (s : ManagerSettings) :
    ProviderManager → List (Moment × ManagerCall) → List InfraProvider
  | _, [] => []
  | m, (at_, c) :: cs =>
      let (reply, m') := m.call s at_ c
      (reply.given c).toList ++ ProviderManager.given s m' cs

/-- All are one object, built from the row. -/
def Stable (row : Option ProviderConfig) (providers : List InfraProvider) : Prop :=
  ∃ object, ∀ p ∈ providers, p.object = object ∧ p.builtFrom = row

/-- No call without a session comes between two that ask with one. -/
def Undivided (calls : List ManagerCall) : Prop :=
  ∀ a c b, [a, c, b].Sublist calls → a.gets → b.gets → ¬ c.sessionless

/-! ## What a call does to the slot -/

/-- The version that stands for a row, or for the environment. -/
def versionOf : Option ProviderConfig → Int
  | some row => row.version
  | none => -1

/-- The slot, as far as it matters which object is in it. -/
structure Slot where
  version : Int
  object : Nat
  builtFrom : Option ProviderConfig

def ProviderManager.slot (m : ProviderManager) : Option Slot :=
  match m.infrastructure, m.infraVersion with
  | some p, some version =>
      some { version := version, object := p.object, builtFrom := p.builtFrom }
  | _, _ => none

/-- From `m` to `m'` the slot was asked for the provider of a row, and holds it. -/
structure Took (row : Option ProviderConfig) (m m' : ProviderManager) (slot : Slot) : Prop where
  holds : m'.slot = some slot
  version : slot.version = versionOf row
  kept : m.slot = some slot ∨
    (∀ old, m.slot = some old → old.version ≠ slot.version) ∧ m.built ≤ slot.object ∧
      slot.builtFrom = row
  built : m.built ≤ m'.built
  below : (∀ old, m.slot = some old → old.object < m.built) → slot.object < m'.built

theorem slot_new : ({} : ProviderManager).slot = none := rfl

theorem slot_of_cached {m : ProviderManager} {v : Int} {p : InfraProvider}
    (h : m.cached v = some p) :
    m.slot = some { version := v, object := p.object, builtFrom := p.builtFrom } := by
  unfold ProviderManager.cached at h
  split at h
  · next hversion => simp only [ProviderManager.slot, hversion, h]
  · cases h

theorem version_ne_of_cached {m : ProviderManager} {v : Int} (h : m.cached v = none) {old : Slot}
    (hold : m.slot = some old) : old.version ≠ v := by
  rintro rfl
  unfold ProviderManager.slot at hold
  split at hold
  · next p version hp hversion =>
      cases hold
      rw [ProviderManager.cached, if_pos hversion, hp] at h
      cases h
  · cases hold

theorem took_build (s : ManagerSettings) (at_ : Moment) (m : ProviderManager)
    (row : Option ProviderConfig) (providerType : String) (config : ProviderBody)
    (h : m.cached (versionOf row) = none) :
    ∃ slot, Took row m (m.build s at_ row providerType config (versionOf row)).2 slot ∧
      (m.build s at_ row providerType config (versionOf row)).1.object = slot.object ∧
      (m.build s at_ row providerType config (versionOf row)).1.builtFrom = slot.builtFrom := by
  have hne : ∀ old, m.slot = some old → old.version ≠ versionOf row :=
    fun old hold => version_ne_of_cached h hold
  refine ⟨{ version := versionOf row, object := m.built, builtFrom := row }, ?_⟩
  unfold ProviderManager.build
  split
  · exact ⟨⟨rfl, rfl, .inr ⟨hne, Nat.le_refl _, rfl⟩, Nat.le_succ _, fun _ => Nat.lt_succ_self _⟩,
      rfl, rfl⟩
  · exact ⟨⟨rfl, rfl, .inr ⟨hne, Nat.le_refl _, rfl⟩, Nat.le_succ _, fun _ => Nat.lt_succ_self _⟩,
      rfl, rfl⟩

theorem took_cached {m : ProviderManager} {row : Option ProviderConfig} {p : InfraProvider}
    (h : m.cached (versionOf row) = some p) :
    ∃ slot, Took row m m slot ∧ p.object = slot.object ∧ p.builtFrom = slot.builtFrom :=
  ⟨_, ⟨slot_of_cached h, rfl, .inl (slot_of_cached h), Nat.le_refl _,
    fun hbelow => hbelow _ (slot_of_cached h)⟩, rfl, rfl⟩

theorem took_get (s : ManagerSettings) (at_ : Moment) (session : Option Tables)
    (m : ProviderManager) :
    ∃ slot, Took (activeRow .infrastructure session) m
        (getInfrastructureProvider s at_ session m).2 slot ∧
      (getInfrastructureProvider s at_ session m).1.object = slot.object ∧
      (getInfrastructureProvider s at_ session m).1.builtFrom = slot.builtFrom := by
  unfold getInfrastructureProvider
  cases activeRow .infrastructure session with
  | some row =>
      cases hcached : m.cached row.version with
      | some p =>
          simp only [hcached]
          exact took_cached hcached
      | none =>
          simp only [hcached]
          exact took_build s at_ m (some row) row.providerType row.config hcached
  | none =>
      cases hcached : m.cached (-1) with
      | some p => exact @took_cached _ none _ hcached
      | none => exact took_build s at_ m none s.infraProvider _ hcached

/-- The broker provider is in another slot. -/
theorem getBrokerProvider_slot (m : ProviderManager) : (getBrokerProvider m).2.slot = m.slot := by
  unfold getBrokerProvider
  split <;> rfl

theorem getBrokerProvider_built (m : ProviderManager) :
    m.built ≤ (getBrokerProvider m).2.built := by
  unfold getBrokerProvider
  split
  · exact Nat.le_refl _
  · exact Nat.le_succ _

theorem took_broker {row : Option ProviderConfig} {m m' : ProviderManager} {slot : Slot}
    (h : Took row (getBrokerProvider m).2 m' slot) : Took row m m' slot := by
  unfold getBrokerProvider at h
  split at h
  · exact h
  · exact
      { holds := h.holds
        version := h.version
        kept := h.kept.imp_right fun hnew => ⟨hnew.1, Nat.le_of_succ_le hnew.2.1, hnew.2.2⟩
        built := Nat.le_of_succ_le h.built
        below := fun hbelow => h.below fun old hold => Nat.lt_succ_of_lt (hbelow old hold) }

theorem Took.then_broker {row : Option ProviderConfig} {m m' : ProviderManager} {slot : Slot}
    (h : Took row m m' slot) : Took row m (getBrokerProvider m').2 slot := by
  unfold getBrokerProvider
  split
  · exact h
  · exact
      { holds := h.holds
        version := h.version
        kept := h.kept
        built := Nat.le_succ_of_le h.built
        below := fun hbelow => Nat.lt_succ_of_lt (h.below hbelow) }

/-- The object in the slot may change, as long as it is the same one. -/
theorem Took.then_set {row : Option ProviderConfig} {m m' : ProviderManager} {slot : Slot}
    (h : Took row m m' slot) {p : InfraProvider} (hobject : p.object = slot.object)
    (hfrom : p.builtFrom = slot.builtFrom) :
    Took row m { m' with infrastructure := some p } slot := by
  have hholds := h.holds
  unfold ProviderManager.slot at hholds
  split at hholds
  · next old version _ hversion =>
      cases hholds
      have hslot : ({ m' with infrastructure := some p } : ProviderManager).slot =
          some { version := version, object := old.object, builtFrom := old.builtFrom } := by
        simp only [ProviderManager.slot, hversion, hobject, hfrom]
      exact { h with holds := hslot }
  · cases hholds

theorem setProbeFail_object (enabled : Bool) (p : InfraProvider) :
    (p.setProbeFail enabled).object = p.object := by
  unfold InfraProvider.setProbeFail
  split <;> rfl

theorem setProbeFail_builtFrom (enabled : Bool) (p : InfraProvider) :
    (p.setProbeFail enabled).builtFrom = p.builtFrom := by
  unfold InfraProvider.setProbeFail
  split <;> rfl

theorem took_applyFaults (s : ManagerSettings) (at_ : Moment) (m : ProviderManager) :
    ∃ slot, Took none m (applyFaultsToProviders s at_ m) slot := by
  obtain ⟨slot, htook, hobject, hfrom⟩ := took_get s at_ none
    { (getBrokerProvider m).2 with
      broker := some { (getBrokerProvider m).1 with persistentFault := at_.brokerFault } }
  have hset := htook.then_set ((setProbeFail_object at_.infraProbeFail _).trans hobject)
    ((setProbeFail_builtFrom at_.infraProbeFail _).trans hfrom)
  exact ⟨slot, took_broker ⟨hset.holds, hset.version, hset.kept, hset.built, hset.below⟩⟩

/-- The row that a call sees, when this one is active. -/
def ManagerCall.seen (row : Option ProviderConfig) (c : ManagerCall) : Option ProviderConfig :=
  if c.sessionless then none else row

theorem seen_of_sees {row : Option ProviderConfig} {c : ManagerCall} {session : Option Tables}
    (h : c.Sees row) (hc : c = .getInfrastructure session ∨ c = .describe session) :
    activeRow .infrastructure session = c.seen row := by
  rcases hc with rfl | rfl <;> cases session with
  | none => rfl
  | some d => exact h

/-- Every other call asks the slot once, and one that is given a provider is given what is
in the slot then. -/
theorem took_call (s : ManagerSettings) (at_ : Moment) (m : ProviderManager)
    {row : Option ProviderConfig} {c : ManagerCall} (h : c.Sees row) (hc : c ≠ .getBroker) :
    ∃ slot, Took (c.seen row) m (m.call s at_ c).2 slot ∧
      ∀ p, (m.call s at_ c).1.given c = some p →
        p.object = slot.object ∧ p.builtFrom = slot.builtFrom := by
  cases c with
  | getBroker => exact absurd rfl hc
  | getInfrastructure session =>
      obtain ⟨slot, htook, hobject, hfrom⟩ := took_get s at_ session m
      rw [seen_of_sees h (.inl rfl)] at htook
      refine ⟨slot, htook, fun p hp => ?_⟩
      have hgiven : p = (getInfrastructureProvider s at_ session m).1 := by
        simp only [ProviderManager.call, ManagerReply.given] at hp
        split at hp
        · exact (Option.some_inj.mp hp).symm
        · cases hp
      rw [hgiven]
      exact ⟨hobject, hfrom⟩
  | applyFaults =>
      obtain ⟨slot, htook⟩ := took_applyFaults s at_ m
      exact ⟨slot, htook, fun p hp => nomatch hp⟩
  | submit =>
      obtain ⟨slot, htook⟩ := took_applyFaults s at_ m
      exact ⟨slot, htook.then_broker, fun p hp => nomatch hp⟩
  | describe session =>
      obtain ⟨slot, htook, _, _⟩ := took_get s at_ session m
      rw [seen_of_sees h (.inr rfl)] at htook
      exact ⟨slot, htook, fun p hp => nomatch hp⟩

/-- The environment's version is that of no row. -/
theorem seen_of_version {row : Option ProviderConfig} {c : ManagerCall}
    (h : versionOf (c.seen row) = versionOf row) : c.seen row = row := by
  unfold ManagerCall.seen at h ⊢
  split at h
  · next hc =>
      rw [if_pos hc]
      cases row with
      | none => rfl
      | some r =>
          have hminus : (-1 : Int) = r.version := h
          omega
  · next hc => exact if_neg hc

/-! ## Whole sequences -/

section Sequences

variable {s : ManagerSettings} {row : Option ProviderConfig} {m : ProviderManager}
  {calls : List (Moment × ManagerCall)}

theorem given_of_gets {at_ : Moment} {c : ManagerCall} (h : c.gets) :
    ∃ p, (m.call s at_ c).1.given c = some p := by
  cases c with
  | getInfrastructure session => exact ⟨_, if_pos h⟩
  | _ => exact nomatch h

theorem given_of_not_gets {c : ManagerCall} (h : ¬ c.gets) (reply : ManagerReply) :
    reply.given c = none := by
  cases reply with
  | infrastructure p => exact if_neg h
  | _ => rfl

theorem given_cons (at_ : Moment) (c : ManagerCall) :
    m.given s ((at_, c) :: calls) =
      ((m.call s at_ c).1.given c).toList ++ (m.call s at_ c).2.given s calls := rfl

/-- A call for the broker is given no infrastructure provider. -/
theorem given_getBroker (at_ : Moment) :
    m.given s ((at_, .getBroker) :: calls) = (getBrokerProvider m).2.given s calls := rfl

theorem not_sessionless_of_gets {c : ManagerCall} (h : c.gets) : ¬ c.sessionless := by
  cases c with
  | getInfrastructure session =>
      cases session with
      | none => exact nomatch h
      | some d => exact nofun
  | _ => exact nomatch h

theorem given_nil (h : ∀ c ∈ calls, ¬ c.2.gets) : m.given s calls = [] := by
  induction calls generalizing m with
  | nil => rfl
  | cons c calls ih =>
      rw [given_cons, given_of_not_gets (h c List.mem_cons_self),
        ih fun c hc => h c (List.mem_cons_of_mem _ hc)]
      rfl

/-- With the row's provider in the slot, calls that do not divide are given it. -/
theorem given_of_slot {slot : Slot} (hsees : ∀ c ∈ calls, c.2.Sees row)
    (hslot : m.slot = some slot) (hversion : slot.version = versionOf row)
    (h : row = none ∨ ∀ c b, [c, b].Sublist (calls.map (·.2)) → b.gets → ¬ c.sessionless) :
    ∀ p ∈ m.given s calls, p.object = slot.object ∧ p.builtFrom = slot.builtFrom := by
  induction calls generalizing m with
  | nil => exact List.forall_mem_nil _
  | cons c calls ih =>
      obtain ⟨at_, c⟩ := c
      have hrest : ∀ c ∈ calls, c.2.Sees row := fun c hc => hsees c (List.mem_cons_of_mem _ hc)
      have hundivided : row = none ∨
          ∀ c b, [c, b].Sublist (calls.map (·.2)) → b.gets → ¬ c.sessionless :=
        h.imp_right fun h c b hsub => h c b (hsub.cons _)
      by_cases hbroker : c = .getBroker
      · subst hbroker
        rw [given_getBroker]
        exact ih hrest ((getBrokerProvider_slot m).trans hslot) hundivided
      by_cases hrow : row = none ∨ ¬ c.sessionless
      · have hseen : c.seen row = row := by
          rcases hrow with rfl | hc
          · unfold ManagerCall.seen
            split <;> rfl
          · exact if_neg hc
        obtain ⟨slot', htook, hgiven⟩ := took_call s at_ m (hsees _ List.mem_cons_self) hbroker
        rw [hseen] at htook
        have hsame : slot' = slot := by
          rcases htook.kept with hkept | ⟨hne, _⟩
          · exact Option.some_inj.mp (hkept.symm.trans hslot)
          · exact absurd (hversion.trans htook.version.symm) (hne slot hslot)
        subst hsame
        intro p hp
        rw [given_cons, List.mem_append, Option.mem_toList] at hp
        rcases hp with hp | hp
        · exact hgiven p hp
        · exact ih hrest htook.holds hundivided p hp
      · have hc : c.sessionless := by
          by_contra hc
          exact hrow (.inr hc)
        have hno : ∀ b ∈ calls, ¬ b.2.gets := by
          intro b hb hgets
          rcases h with hnone | h
          · exact hrow (.inl hnone)
          · have hsub : [c, b.2].Sublist (c :: calls.map (·.2)) :=
              (List.singleton_sublist.mpr (List.mem_map_of_mem hb)).cons_cons c
            exact h c b.2 hsub hgets hc
        have hself : ¬ c.gets := fun hgets => not_sessionless_of_gets hgets hc
        rw [given_cons, given_of_not_gets hself, given_nil hno]
        exact List.forall_mem_nil _

theorem stable_of_undivided (hsees : ∀ c ∈ calls, c.2.Sees row)
    (hslot : ∀ slot, m.slot = some slot → slot.version = versionOf row → slot.builtFrom = row)
    (h : row = none ∨ Undivided (calls.map (·.2))) : Stable row (m.given s calls) := by
  induction calls generalizing m with
  | nil => exact ⟨0, List.forall_mem_nil _⟩
  | cons c calls ih =>
      obtain ⟨at_, c⟩ := c
      have hrest : ∀ c ∈ calls, c.2.Sees row := fun c hc => hsees c (List.mem_cons_of_mem _ hc)
      have hundivided : row = none ∨ Undivided (calls.map (·.2)) :=
        h.imp_right fun h a c b hsub => h a c b (hsub.cons _)
      by_cases hbroker : c = .getBroker
      · subst hbroker
        rw [given_getBroker]
        refine ih hrest (fun slot' hslot' => ?_) hundivided
        exact hslot slot' ((getBrokerProvider_slot m).symm.trans hslot')
      obtain ⟨slot, htook, hgiven⟩ := took_call s at_ m (hsees _ List.mem_cons_self) hbroker
      have hbuilt : slot.version = versionOf row → slot.builtFrom = row := by
        intro hversion
        rcases htook.kept with hkept | ⟨_, _, hnew⟩
        · exact hslot slot hkept hversion
        · exact hnew.trans (seen_of_version (htook.version.symm.trans hversion))
      by_cases hgets : c.gets
      · have hseen : c.seen row = row := if_neg (not_sessionless_of_gets hgets)
        rw [hseen] at htook
        refine ⟨slot.object, fun p hp => ?_⟩
        rw [given_cons, List.mem_append, Option.mem_toList] at hp
        rw [← hbuilt htook.version]
        rcases hp with hp | hp
        · exact hgiven p hp
        · refine given_of_slot hrest htook.holds htook.version
            (h.imp_right fun h c' b hsub => ?_) p hp
          exact h c c' b (hsub.cons_cons c) hgets
      · rw [given_cons, given_of_not_gets hgets]
        refine ih hrest (fun slot' hslot' hversion => ?_) hundivided
        rw [Option.some_inj.mp (hslot'.symm.trans htook.holds)] at hversion ⊢
        exact hbuilt hversion

/-- No object in the slot is older than `n`, if it is the row's. -/
def BuiltSince (n : Nat) (row : Option ProviderConfig) (m : ProviderManager) : Prop :=
  n ≤ m.built ∧ ∀ slot, m.slot = some slot → slot.version = versionOf row → n ≤ slot.object

theorem since_call {n : Nat} {m' : ProviderManager} {c : ManagerCall} {slot : Slot}
    (hm : BuiltSince n row m) (h : Took (c.seen row) m m' slot) : BuiltSince n row m' := by
  refine ⟨Nat.le_trans hm.1 h.built, fun slot' hslot hversion => ?_⟩
  rw [Option.some_inj.mp (hslot.symm.trans h.holds)] at hversion ⊢
  rcases h.kept with hkept | ⟨_, hnew, _⟩
  · exact hm.2 slot hkept hversion
  · exact Nat.le_trans hm.1 hnew

theorem since_broker {n : Nat} (hm : BuiltSince n row m) :
    BuiltSince n row (getBrokerProvider m).2 := by
  refine ⟨Nat.le_trans hm.1 (getBrokerProvider_built m), fun slot hslot => ?_⟩
  exact hm.2 slot ((getBrokerProvider_slot m).symm.trans hslot)

theorem given_since {n : Nat} {b : ManagerCall} (hsees : ∀ c ∈ calls, c.2.Sees row)
    (hm : BuiltSince n row m) (hb : b ∈ calls.map (·.2)) (hgets : b.gets) :
    ∃ p ∈ m.given s calls, n ≤ p.object := by
  induction calls generalizing m with
  | nil => exact nomatch hb
  | cons c calls ih =>
      obtain ⟨at_, c⟩ := c
      have hrest : ∀ c ∈ calls, c.2.Sees row := fun c hc => hsees c (List.mem_cons_of_mem _ hc)
      by_cases hbroker : c = .getBroker
      · subst hbroker
        rw [given_getBroker]
        refine ih hrest (since_broker hm) ((List.mem_cons.mp hb).resolve_left fun heq => ?_)
        subst heq
        cases hgets
      obtain ⟨slot, htook, hgiven⟩ := took_call s at_ m (hsees _ List.mem_cons_self) hbroker
      have hsince := since_call hm htook
      rw [given_cons]
      rcases List.mem_cons.mp hb with rfl | hb
      · obtain ⟨p, hp⟩ := @given_of_gets s m at_ _ hgets
        refine ⟨p, List.mem_append_left _ (Option.mem_toList.mpr hp), ?_⟩
        have hseen : b.seen row = row := if_neg (not_sessionless_of_gets hgets)
        rw [hseen] at htook
        rw [(hgiven p hp).1]
        exact hsince.2 slot htook.holds htook.version
      · obtain ⟨p, hp, hle⟩ := ih hrest hsince hb
        exact ⟨p, List.mem_append_right _ hp, hle⟩

/-- After a call without a session, the row's provider is built again. -/
theorem given_after_sessionless {n : Nat} {r : ProviderConfig} {c b : ManagerCall}
    (hsees : ∀ c ∈ calls, c.2.Sees (some r)) (hn : n ≤ m.built)
    (hsub : [c, b].Sublist (calls.map (·.2))) (hc : c.sessionless) (hgets : b.gets) :
    ∃ p ∈ m.given s calls, n ≤ p.object := by
  induction calls generalizing m with
  | nil => exact nomatch List.sublist_nil.mp hsub
  | cons c' calls ih =>
      obtain ⟨at_, c'⟩ := c'
      have hrest : ∀ c ∈ calls, c.2.Sees (some r) :=
        fun c hc => hsees c (List.mem_cons_of_mem _ hc)
      by_cases hbroker : c' = .getBroker
      · subst hbroker
        rw [given_getBroker]
        cases hsub with
        | cons _ hsub => exact ih hrest (Nat.le_trans hn (getBrokerProvider_built m)) hsub
        | cons_cons _ hsub => cases hc
      obtain ⟨slot, htook, _⟩ := took_call s at_ m (hsees _ List.mem_cons_self) hbroker
      have hbuilt := Nat.le_trans hn htook.built
      have hlater : ∃ p ∈ (m.call s at_ c').2.given s calls, n ≤ p.object := by
        cases hsub with
        | cons _ hsub => exact ih hrest hbuilt hsub
        | cons_cons _ hsub =>
            refine given_since hrest ⟨hbuilt, fun slot' hslot hversion => ?_⟩
              (List.singleton_sublist.mp hsub) hgets
            rw [Option.some_inj.mp (hslot.symm.trans htook.holds), htook.version,
              ManagerCall.seen, if_pos hc] at hversion
            have hminus : (-1 : Int) = r.version := hversion
            omega
      obtain ⟨p, hp, hle⟩ := hlater
      exact ⟨p, List.mem_append_right _ hp, hle⟩

theorem two_objects {r : ProviderConfig} {a c b : ManagerCall}
    (hsees : ∀ c ∈ calls, c.2.Sees (some r))
    (hm : ∀ slot, m.slot = some slot → slot.object < m.built)
    (hsub : [a, c, b].Sublist (calls.map (·.2))) (ha : a.gets) (hc : c.sessionless)
    (hb : b.gets) : ∃ p ∈ m.given s calls, ∃ q ∈ m.given s calls, p.object < q.object := by
  induction calls generalizing m with
  | nil => exact nomatch List.sublist_nil.mp hsub
  | cons c' calls ih =>
      obtain ⟨at_, c'⟩ := c'
      have hrest : ∀ c ∈ calls, c.2.Sees (some r) :=
        fun c hc => hsees c (List.mem_cons_of_mem _ hc)
      by_cases hbroker : c' = .getBroker
      · subst hbroker
        rw [given_getBroker]
        cases hsub with
        | cons _ hsub =>
            refine ih hrest (fun slot hslot => ?_) hsub
            exact Nat.lt_of_lt_of_le (hm slot ((getBrokerProvider_slot m).symm.trans hslot))
              (getBrokerProvider_built m)
        | cons_cons _ hsub => cases ha
      obtain ⟨slot, htook, hgiven⟩ := took_call s at_ m (hsees _ List.mem_cons_self) hbroker
      rw [given_cons]
      cases hsub with
      | cons _ hsub =>
          have hbelow : ∀ slot', (m.call s at_ c').2.slot = some slot' →
              slot'.object < (m.call s at_ c').2.built := by
            intro slot' hslot
            rw [Option.some_inj.mp (hslot.symm.trans htook.holds)]
            exact htook.below hm
          obtain ⟨p, hp, q, hq, hlt⟩ := ih hrest hbelow hsub
          exact ⟨p, List.mem_append_right _ hp, q, List.mem_append_right _ hq, hlt⟩
      | cons_cons _ hsub =>
          obtain ⟨p, hp⟩ := @given_of_gets s m at_ _ ha
          obtain ⟨q, hq, hle⟩ := given_after_sessionless (s := s) hrest (Nat.le_refl _) hsub hc hb
          refine ⟨p, List.mem_append_left _ (Option.mem_toList.mpr hp), q,
            List.mem_append_right _ hq, ?_⟩
          rw [(hgiven p hp).1]
          exact Nat.lt_of_lt_of_le (htook.below hm) hle

end Sequences

/-- From a new manager, and with this row active throughout: the calls with a session
are all given one object, built from the row, if and only if there is no row or no
call without a session comes between two of them. -/
theorem stable_iff (s : ManagerSettings) (row : Option ProviderConfig)
    (calls : List (Moment × ManagerCall)) (hsees : ∀ c ∈ calls, c.2.Sees row) :
    Stable row (ProviderManager.given s {} calls) ↔
      row = none ∨ Undivided (calls.map (·.2)) := by
  constructor
  · rintro ⟨object, hall⟩
    cases row with
    | none => exact .inl rfl
    | some r =>
        refine .inr fun a c b hsub ha hb hc => ?_
        obtain ⟨p, hp, q, hq, hlt⟩ := two_objects (s := s) hsees 
          (fun _ h => nomatch slot_new.symm.trans h) hsub ha hc hb
        have hsame := (hall p hp).1.trans (hall q hq).1.symm
        omega
  · exact stable_of_undivided hsees fun _ h => nomatch slot_new.symm.trans h

/-! ## One call of another service -/

/-- A mock infrastructure provider in force for everyone. -/
def mockRow : ProviderConfig :=
  { id := 1, kind := .infrastructure, providerType := "mock", status := .active }

def mockTables : Tables := (Write.addProvider mockRow).apply 0 {}

theorem activeRow_mockTables :
    activeRow .infrastructure (some mockTables) = some mockRow := by decide

/-- Two requests with a look at the status between them. -/
def statusBetween : List (Moment × ManagerCall) :=
  [({}, .getInfrastructure (some mockTables)), ({}, .describe (some mockTables)),
    ({}, .getInfrastructure (some mockTables))]

theorem stable_status_between :
    Stable (some mockRow) (ProviderManager.given {} {} statusBetween) :=
  (stable_iff {} (some mockRow) statusBetween (List.forall_mem_cons.mpr
    ⟨activeRow_mockTables, List.forall_mem_cons.mpr
      ⟨activeRow_mockTables, List.forall_mem_singleton.mpr activeRow_mockTables⟩⟩)).mpr
    (.inr fun a c b hsub _ _ hc => by
      cases hsub.eq_of_length rfl
      cases hc)

/-- Two requests with the submission of an order between them. -/
def submitBetween : List (Moment × ManagerCall) :=
  [({}, .getInfrastructure (some mockTables)), ({}, .submit),
    ({}, .getInfrastructure (some mockTables))]

/-- A submission puts the environment's provider into the slot, and the next request
builds the row's again. -/
theorem not_always_stable :
    ¬ ∀ (s : ManagerSettings) (row : Option ProviderConfig)
      (calls : List (Moment × ManagerCall)), (∀ c ∈ calls, c.2.Sees row) →
      Stable row (ProviderManager.given s {} calls) := by
  intro h
  have hsees : ∀ c ∈ submitBetween, c.2.Sees (some mockRow) :=
    List.forall_mem_cons.mpr ⟨activeRow_mockTables,
      List.forall_mem_cons.mpr ⟨trivial, List.forall_mem_singleton.mpr activeRow_mockTables⟩⟩
  obtain ⟨object, hall⟩ := h {} (some mockRow) submitBetween hsees
  obtain ⟨p, hp, q, hq, hlt⟩ := two_objects (s := {}) hsees
    (fun _ h => nomatch slot_new.symm.trans h) (List.Sublist.refl _) rfl rfl rfl
  have hsame := (hall p hp).1.trans (hall q hq).1.symm
  omega

end BrokerBridge.Admin
