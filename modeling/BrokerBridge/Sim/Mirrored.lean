import BrokerBridge.Sim.Flags
import BrokerBridge.World.Handle

/-!
# The flags and the providers

A fault is switched in the flags and then pushed to the providers in the cache, where the
broker keeps it as its persistent fault and the infrastructure as its failing probe. Both
look at the flags too, and first. So what the cache holds has no fault of its own that the
flags do not have: it was built without one, or got the one that was enabled when the
flags last changed. A broker that was dropped from the cache, and that somebody may still
use, keeps the fault it had; as long as some fault of the broker is enabled it shows that.
-/

namespace BrokerBridge.Admin

/-- `invalidate`, as far as these two providers go. -/
def ProviderManager.invalidate (m : ProviderManager) : Option ProviderKind → ProviderManager
  | none =>
      { m with
        infrastructure := none
        broker := none
        infraVersion := none
        infraDegraded := none }
  | some .brokerDefault => { m with broker := none }
  | some .infrastructure =>
      { m with
        infrastructure := none
        infraVersion := none
        infraDegraded := none }
  | some _ => m

/-- `_active_fault`, with the live fault of the broker. -/
def BrokerObject.activeFault (live : Option BrokerFault) (o : BrokerObject) : Option BrokerFault :=
  match live with
  | some fault => some fault
  | none => o.persistentFault

/-- `_fault_active` of a mock provider's backend, with the live flag. -/
def InfraProvider.faultActive (live : Bool) (p : InfraProvider) : Bool :=
  match p.adapter with
  | .mock _ probeFail => probeFail || live
  | .vultr _ _ => false

end BrokerBridge.Admin

namespace BrokerBridge.Sim

open Admin

/-! ## Switching and using -/

/-- The flags, the provider manager, and the brokers that it dropped. -/
structure Simulator where
  flags : Flags := {}
  manager : ProviderManager := {}
  dropped : List BrokerObject := []

inductive Use where
  | setFault (name : String) (enabled : Bool)
  | clearAllFaults
  | invalidate (kind : Option ProviderKind)
  /-- A call of the manager by anybody else. -/
  | call (c : ManagerCall)

/-- A use, when it is made, and the docker engine's error, if it does not answer. -/
structure Used where
  use : Use
  now : Instant
  dockerError : Option String := none

def Flags.moment (flags : Flags) (u : Used) : Moment where
  dockerError := u.dockerError
  brokerFault := flags.activeBrokerFault
  infraProbeFail := flags.infraFaultEnabled

/-- The flags are changed and then applied. -/
def Simulator.setFlags (s : ManagerSettings) (u : Used) (x : Simulator) (flags : Flags) :
    Simulator :=
  { x with flags := flags, manager := applyFaultsToProviders s (flags.moment u) x.manager }

/-- A use; a fault that is not known is refused and nothing is done. -/
def Simulator.step (s : ManagerSettings) (x : Simulator) (u : Used) : Simulator :=
  match u.use with
  | .setFault name enabled =>
      match x.flags.setEnabled u.now name enabled with
      | none => x
      | some flags => x.setFlags s u flags
  | .clearAllFaults => x.setFlags s u (x.flags.clearAll u.now)
  | .invalidate kind =>
      let manager := x.manager.invalidate kind
      { x with
        manager := manager
        dropped := x.dropped ++ (if manager.broker.isSome then [] else x.manager.broker.toList) }
  | .call c => { x with manager := (x.manager.call s (x.flags.moment u) c).2 }

def Simulator.run (s : ManagerSettings) (us : List Used) (x : Simulator) : Simulator :=
  us.foldl (Simulator.step s) x

/-! ## What the cache holds -/

/-- No provider in the cache has a fault that this moment does not have. -/
structure Blameless (at_ : Moment) (m : ProviderManager) : Prop where
  broker : ∀ o, m.broker = some o → o.persistentFault = none ∨ o.persistentFault = at_.brokerFault
  infra : ∀ p backend, m.infrastructure = some p → p.adapter = .mock backend true →
    at_.infraProbeFail

section Blameless

variable {s : ManagerSettings} {at_ : Moment} {m : ProviderManager}

/-- A provider that is built anew has no fault. -/
theorem build_adapter (at_ : Moment) (m : ProviderManager) (builtFrom : Option ProviderConfig)
    (providerType : String) (config : ProviderBody) (version : Int) (backend : MockBackend) :
    (m.build s at_ builtFrom providerType config version).1.adapter ≠ .mock backend true := by
  unfold ProviderManager.build
  split
  · intro heq
    cases heq
  · intro heq
    cases heq

theorem Blameless.build (h : Blameless at_ m) (builtFrom : Option ProviderConfig)
    (providerType : String) (config : ProviderBody) (version : Int) :
    Blameless at_ (m.build s at_ builtFrom providerType config version).2 := by
  have hnew := build_adapter (s := s) at_ m builtFrom providerType config version
  unfold ProviderManager.build at hnew ⊢
  split at hnew
  · next htype =>
      rw [if_pos htype]
      refine ⟨h.broker, fun p backend hp hadapter => ?_⟩
      cases hp
      exact absurd hadapter (hnew backend)
  · next htype =>
      rw [if_neg htype]
      refine ⟨h.broker, fun p backend hp hadapter => ?_⟩
      cases hp
      exact absurd hadapter (hnew backend)

theorem Blameless.getInfrastructure (h : Blameless at_ m) (session : Option Tables) :
    Blameless at_ (getInfrastructureProvider s at_ session m).2 := by
  unfold getInfrastructureProvider
  split
  · split
    · exact h
    · exact h.build _ _ _ _
  · split
    · exact h
    · exact h.build _ _ _ _

theorem Blameless.getBroker (h : Blameless at_ m) : Blameless at_ (getBrokerProvider m).2 := by
  unfold getBrokerProvider
  split
  · exact h
  · refine ⟨fun o ho => ?_, h.infra⟩
    cases ho
    exact .inl rfl

/-- Whatever was there before, applying the faults leaves those of the moment. -/
theorem blameless_applyFaults (s : ManagerSettings) (at_ : Moment) (m : ProviderManager) :
    Blameless at_ (applyFaultsToProviders s at_ m) := by
  unfold applyFaultsToProviders
  dsimp only
  generalize hm : ({ (getBrokerProvider m).2 with
    broker := some { (getBrokerProvider m).1 with persistentFault := at_.brokerFault } } :
      ProviderManager) = pushed
  have hbroker : pushed.broker =
      some { (getBrokerProvider m).1 with persistentFault := at_.brokerFault } := by
    rw [← hm]
  have hkeeps : (getInfrastructureProvider s at_ none pushed).2.broker = pushed.broker := by
    unfold getInfrastructureProvider ProviderManager.build
    split
    · split
      · rfl
      · split <;> rfl
    · split
      · rfl
      · split <;> rfl
  refine ⟨fun o ho => ?_, fun p backend hp hadapter => ?_⟩
  · rw [hkeeps, hbroker] at ho
    cases ho
    exact .inr rfl
  · cases hp
    unfold InfraProvider.setProbeFail at hadapter
    split at hadapter
    · injection hadapter with _ hfail
    · next heq =>
        rw [heq] at hadapter
        cases hadapter

theorem Blameless.call (h : Blameless at_ m) (c : ManagerCall) :
    Blameless at_ (m.call s at_ c).2 := by
  cases c with
  | getInfrastructure session => exact h.getInfrastructure session
  | getBroker => exact h.getBroker
  | applyFaults => exact blameless_applyFaults s at_ m
  | submit => exact (blameless_applyFaults s at_ m).getBroker
  | describe session => exact h.getInfrastructure session

theorem Blameless.invalidate (h : Blameless at_ m) (kind : Option ProviderKind) :
    Blameless at_ (m.invalidate kind) := by
  have hnone : ∀ {α : Type} {x : α} {P : Prop}, (none : Option α) = some x → P :=
    fun heq => by cases heq
  cases kind with
  | none => exact ⟨fun _ => hnone, fun _ _ heq => hnone heq⟩
  | some kind =>
      cases kind with
      | brokerDefault => exact ⟨fun _ => hnone, h.infra⟩
      | infrastructure => exact ⟨h.broker, fun _ _ heq => hnone heq⟩
      | event => exact h
      | cache => exact h
      | lock => exact h
      | session => exact h

end Blameless

/-! ## Every run -/

structure Simulator.Mirrored (x : Simulator) : Prop where
  exclusive : x.flags.Exclusive
  logged : ∃ log, x.flags.Logged log
  blameless : ∀ u, Blameless (x.flags.moment u) x.manager

theorem mirrored_new : ({} : Simulator).Mirrored where
  exclusive := by rintro f g _ _ ⟨⟩
  logged := ⟨[], logged_new⟩
  blameless u := ⟨by rintro o ⟨⟩, by rintro p backend ⟨⟩⟩

/-- A manager is blameless for one docker engine if it is for another. -/
theorem Blameless.of_flags {flags : Flags} {u u' : Used} {m : ProviderManager}
    (h : Blameless (flags.moment u) m) : Blameless (flags.moment u') m := ⟨h.broker, h.infra⟩

theorem Simulator.Mirrored.step {x : Simulator} (h : x.Mirrored) (s : ManagerSettings) (u : Used) :
    (x.step s u).Mirrored := by
  obtain ⟨use, now, dockerError⟩ := u
  obtain ⟨log, hlog⟩ := h.logged
  cases use with
  | setFault name enabled =>
      simp only [Simulator.step]
      cases hset : x.flags.setEnabled now name enabled with
      | none => exact h
      | some flags =>
          exact
            { exclusive := h.exclusive.setEnabled hset
              logged := hlog.setEnabled hset
              blameless := fun u => (blameless_applyFaults s _ _).of_flags }
  | clearAllFaults =>
      exact
        { exclusive := by rintro f g _ _ ⟨⟩
          logged := ⟨_, hlog.clearAll⟩
          blameless := fun u => (blameless_applyFaults s _ _).of_flags }
  | invalidate kind =>
      exact
        { exclusive := h.exclusive
          logged := h.logged
          blameless := fun u => (h.blameless u).invalidate kind }
  | call c =>
      exact
        { exclusive := h.exclusive
          logged := h.logged
          blameless := fun u =>
            ((h.blameless ⟨.call c, now, dockerError⟩).call c).of_flags }

theorem Simulator.Mirrored.run {x : Simulator} (h : x.Mirrored) (s : ManagerSettings)
    (us : List Used) : (x.run s us).Mirrored := by
  induction us generalizing x with
  | nil => exact h
  | cons u us ih => exact ih (h.step s u)

/-! ## What the simulator promises -/

/-- What everybody who uses a provider sees of the faults. -/
structure Simulator.Faithful (x : Simulator) : Prop where
  /-- The broker has one fault at most. -/
  exclusive : ¬ (x.flags.enabled .brokerUnavailable ∧ x.flags.enabled .brokerReject)
  /-- The broker in the cache refuses an order if and only if a fault of the broker is
  enabled, and with that fault. -/
  broker : ∀ o, x.manager.broker = some o →
    o.activeFault x.flags.activeBrokerFault = x.flags.activeBrokerFault
  /-- A dropped broker refuses orders too while a fault is enabled. -/
  dropped : ∀ o ∈ x.dropped, ∀ fault, x.flags.activeBrokerFault = some fault →
    o.activeFault x.flags.activeBrokerFault = some fault
  infra : ∀ p backend probeFail, x.manager.infrastructure = some p →
    p.adapter = .mock backend probeFail →
    p.faultActive x.flags.infraFaultEnabled = x.flags.infraFaultEnabled
  /-- 200 records are kept at most. -/
  kept : x.flags.history.length ≤ 200
  /-- The last record kept that decides a fault says whether it is enabled. -/
  told : ∀ f r, (x.flags.history.filter (·.decides f)).getLast? = some r →
    x.flags.enabled f = r.tells f

theorem Simulator.Mirrored.faithful {x : Simulator} (h : x.Mirrored) : x.Faithful := by
  obtain ⟨log, hlog⟩ := h.logged
  have hblameless := h.blameless ⟨.clearAllFaults, 0, none⟩
  refine
    { exclusive := ?_, broker := fun o ho => ?_, dropped := fun o _ fault hfault => ?_,
      infra := fun p backend probeFail hp hadapter => ?_, kept := ?_,
      told := fun f r hr => hlog.told hr }
  · rintro ⟨hunavailable, hreject⟩
    cases h.exclusive _ _ rfl rfl hunavailable hreject
  · unfold BrokerObject.activeFault
    cases hlive : x.flags.activeBrokerFault with
    | some fault => rfl
    | none =>
        rcases hblameless.broker o ho with hnone | hsame
        · exact hnone
        · exact hsame.trans hlive
  · rw [hfault]
    rfl
  · simp only [InfraProvider.faultActive, hadapter]
    cases probeFail with
    | false => rfl
    | true => exact (hblameless.infra p backend hp hadapter).symm
  · rw [hlog.history]
    exact length_lastRecords log

/-- In every run of switching and clearing faults, of activations that drop providers and
of whatever else uses the providers, with the docker engine answering or not, the faults
that the providers in the cache show are exactly those whose flags are set, and the history
agrees with the flags. -/
theorem faithful_of_run (s : ManagerSettings) (us : List Used) :
    (({} : Simulator).run s us).Faithful :=
  (mirrored_new.run s us).faithful

end BrokerBridge.Sim
