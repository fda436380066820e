import BrokerBridge.Health.Snapshots
import BrokerBridge.Orders.Routed
import BrokerBridge.Sim.Mirrored

/-!
# What a fault does to routing

Switching a fault of the broker probes every enabled broker, and routing reads the latest
snapshots. Everything a snapshot shows since then was measured under the fault that is
still enabled: an unavailable broker gets nothing but its latency and its IP, too little
to be routed to, while one that rejects is reachable and stays above the threshold, so
that orders go to it and are refused.

Brokers that were not enabled when the fault was switched keep the snapshots they have.
-/

namespace BrokerBridge.Admin

open Scoring

/-- What `place_order` does with an order, under a fault or without. -/
def answerUnder : Option BrokerFault → BrokerReply
  | some fault =>
      .rejected fault.code s!"Mock broker injected fault ({fault.status})" fault.status.toNat
        fault.retryable
  | none => .accepted

/-- A hard reject leaves the broker reachable. -/
def probeUnder : Option BrokerFault → ProbeReport
  | some fault =>
      if fault.code = "BROKER_REJECT" ∨ fault.retryable = false then
        { ok := false
          error := some fault.code
          successRate := some (25 / 100)
          timeoutRate := some (15 / 100)
          connectivity := some true }
      else
        { ok := false
          error := some fault.code
          successRate := some 0
          timeoutRate := some 1
          connectivity := some false }
  | none => { ok := true, successRate := some 1, timeoutRate := some 0 }

def BrokerObject.placeOrder (live : Option BrokerFault) (o : BrokerObject) : BrokerReply :=
  answerUnder (o.activeFault live)

def BrokerObject.probe (live : Option BrokerFault) (o : BrokerObject) : ProbeReport :=
  probeUnder (o.activeFault live)

end BrokerBridge.Admin

namespace BrokerBridge.Sim

open Admin Conc Scoring

/-! ## Probing and switching -/

/-- The simulator beside the brokers and their snapshots. -/
structure Lab where
  sim : Simulator := {}
  brokers : Table BrokerAccount := {}
  snapshots : List HealthSnapshot := []
  clock : Instant := 0

structure LabConfig where
  settings : ManagerSettings := {}
  health : HealthConfig := {}

/-- With `probed`, `probe_all` ends with an exception after that many brokers. -/
inductive Happening where
  /-- the endpoints of the simulator -/
  | setFault (name : String) (enabled : Bool) (probed : Option Nat)
  | clearFaults (probed : Option Nat)
  /-- the endpoint of monitoring -/
  | probeAll (probed : Option Nat)
  /-- `latest_for_brokers`, which routing calls -/
  | latest
  | call (c : ManagerCall)
  | invalidate (kind : Option ProviderKind)
  /-- Brokers are made and changed. -/
  | setBrokers (brokers : Table BrokerAccount)

structure Event where
  happening : Happening
  elapsed : Nat := 0
  dockerError : Option String := none
  readings : BrokerId → HealthReading

namespace Lab

variable (config : LabConfig) (e : Event)

/-- `probe_broker` -/
def probeBroker (b : BrokerAccount) (x : Lab) : HealthSnapshot × Lab :=
  let (o, manager) := getBrokerProvider x.sim.manager
  let probe := o.probe x.sim.flags.activeBrokerFault
  let s := config.health.snapshot x.clock b.id ((e.readings b.id).measurement (.ok probe))
  (s, { x with sim := { x.sim with manager := manager }, snapshots := x.snapshots ++ [s] })

def probeEach (bs : List BrokerAccount) (x : Lab) : Lab :=
  bs.foldl (fun x b => (x.probeBroker config e b).2) x

def enabledBrokers (x : Lab) : List BrokerAccount := x.brokers.rows.filter (·.enabled)

/-- `probe_all` -/
def probeAll (probed : Option Nat) (x : Lab) : Lab :=
  match probed with
  | none => x.probeEach config e x.enabledBrokers
  | some n => x.probeEach config e (x.enabledBrokers.take n)

/-- The loop of `latest_for_brokers`. -/
def latestFor : List BrokerAccount → Lab → List Health × Lab
  | [], x => ([], x)
  | b :: bs, x =>
      match latestOf x.snapshots b.id with
      | some s =>
          let (rows, x) := latestFor bs x
          (s.health :: rows, x)
      | none =>
          if b.enabled then
            let (s, x) := x.probeBroker config e b
            let (rows, x) := latestFor bs x
            (s.health :: rows, x)
          else latestFor bs x

/-- `latest_for_brokers` -/
def latest (x : Lab) : List Health × Lab :=
  latestFor config e (x.brokers.rows.insertionSort fun b b' => b.priority ≤ b'.priority) x

/-- The simulator is used. -/
def using_ (use : Use) (x : Lab) : Lab :=
  { x with sim := x.sim.step config.settings ⟨use, x.clock, e.dockerError⟩ }

def step (x : Lab) : Lab :=
  let x := { x with clock := x.clock + (e.elapsed + 1 : Nat) }
  match e.happening with
  | .setFault name enabled probed =>
      match FaultId.ofName? name with
      | none => x
      | some f =>
          let x := x.using_ config e (.setFault name enabled)
          if f.profile.target = "broker" then x.probeAll config e probed else x
  | .clearFaults probed => (x.using_ config e .clearAllFaults).probeAll config e probed
  | .probeAll probed => x.probeAll config e probed
  | .latest => (x.latest config e).2
  | .call c => x.using_ config e (.call c)
  | .invalidate kind => x.using_ config e (.invalidate kind)
  | .setBrokers brokers => { x with brokers := brokers }

def run (es : List Event) (x : Lab) : Lab := es.foldl (fun x e => x.step config e) x

end Lab

/-- A fault of the broker is switched, or all are cleared, and every broker is probed. -/
def Event.Switches (e : Event) : Prop :=
  e.happening = .clearFaults none ∨
  ∃ f name enabled, e.happening = .setFault name enabled none ∧ FaultId.ofName? name = some f ∧
    f.ofBroker

/-- No fault of the broker is switched. -/
def Event.Quiet (e : Event) : Prop :=
  match e.happening with
  | .setFault name _ _ => ∀ f, FaultId.ofName? name = some f → f.ofBroker = false
  | .clearFaults _ => False
  | _ => True

/-- The use of the simulator that the event makes, if it makes one. -/
def Event.Uses (e : Event) (use : Use) : Prop :=
  match e.happening with
  | .setFault name enabled _ => use = .setFault name enabled
  | .clearFaults _ => use = .clearAllFaults
  | .call c => use = .call c
  | .invalidate kind => use = .invalidate kind
  | _ => False

section Closed

variable {config : LabConfig} {e : Event} {I : Lab → Prop} {x : Lab}

theorem probeEach_closed (hprobe : ∀ x b, I x → I (Lab.probeBroker config e b x).2) (h : I x)
    (bs : List BrokerAccount) : I (x.probeEach config e bs) := by
  induction bs generalizing x with
  | nil => exact h
  | cons b bs ih => exact ih (hprobe x b h)

theorem probeAll_closed (hprobe : ∀ x b, I x → I (Lab.probeBroker config e b x).2) (h : I x)
    (probed : Option Nat) : I (x.probeAll config e probed) := by
  cases probed with
  | none => exact probeEach_closed hprobe h _
  | some n => exact probeEach_closed hprobe h _

theorem latestFor_closed (hprobe : ∀ x b, I x → I (Lab.probeBroker config e b x).2) (h : I x)
    (bs : List BrokerAccount) : I (x.latestFor config e bs).2 := by
  induction bs generalizing x with
  | nil => exact h
  | cons b bs ih =>
      simp only [Lab.latestFor]
      split
      · exact ih h
      · split
        · exact ih (hprobe x b h)
        · exact ih h

/-- What probing one broker and the event's use of the simulator keep, the event keeps. -/
theorem step_closed (hprobe : ∀ x b, I x → I (Lab.probeBroker config e b x).2)
    (hclock : ∀ x : Lab, I x → I { x with clock := x.clock + (e.elapsed + 1 : Nat) })
    (huse : ∀ (x : Lab) use, e.Uses use → I x → I (x.using_ config e use))
    (hbrokers : ∀ (x : Lab) brokers, I x → I { x with brokers := brokers }) (h : I x) :
    I (x.step config e) := by
  have hlater := hclock x h
  unfold Lab.step
  unfold Event.Uses at huse
  generalize e.happening = happening at huse
  cases happening with
  | setFault name enabled probed =>
      dsimp only
      split
      · exact hlater
      · split
        · exact probeAll_closed hprobe (huse _ _ rfl hlater) probed
        · exact huse _ _ rfl hlater
  | clearFaults probed => exact probeAll_closed hprobe (huse _ _ rfl hlater) probed
  | probeAll probed => exact probeAll_closed hprobe hlater probed
  | latest => exact latestFor_closed hprobe hlater _
  | call c => exact huse _ _ rfl hlater
  | invalidate kind => exact huse _ _ rfl hlater
  | setBrokers brokers => exact hbrokers _ brokers hlater

end Closed

/-! ## What the snapshots show -/

/-- What every probe finds while this fault is live, given what is true of the readings. -/
def Found (config : LabConfig) (live : Option BrokerFault) (R : HealthReading → Prop)
    (P : HealthSnapshot → Prop) : Prop :=
  ∀ now b r, R r → P (config.health.snapshot now b (r.measurement (.ok (probeUnder live))))

/-- Since `t` the snapshots are of this kind, and these brokers have one. -/
structure Showing (live : Option BrokerFault) (P : HealthSnapshot → Prop) (t : Instant)
    (seen : BrokerId → Prop) (x : Lab) : Prop where
  mirrored : x.sim.Mirrored
  live : x.sim.flags.activeBrokerFault = live
  shows : ∀ s ∈ x.snapshots, t ≤ s.measuredAt → P s
  recent : ∀ b, seen b → ∃ s ∈ x.snapshots, s.brokerAccountId = b ∧ t ≤ s.measuredAt

theorem getBroker_cached (m : ProviderManager) :
    (getBrokerProvider m).2.broker = some (getBrokerProvider m).1 := by
  unfold getBrokerProvider
  split
  · assumption
  · rfl

theorem mirrored_getBroker {x : Simulator} (h : x.Mirrored) :
    ({ x with manager := (getBrokerProvider x.manager).2 } : Simulator).Mirrored where
  exclusive := h.exclusive
  logged := h.logged
  blameless u := (h.blameless u).getBroker

section Showing

variable {config : LabConfig} {e : Event} {live : Option BrokerFault} {R : HealthReading → Prop}
  {P : HealthSnapshot → Prop} {t : Instant} {seen : BrokerId → Prop} {x : Lab}

/-- The broker that is probed has the live fault, or none. -/
theorem probeBroker_snapshot (h : x.sim.Mirrored) (b : BrokerAccount) :
    (x.probeBroker config e b).1 = config.health.snapshot x.clock b.id
      ((e.readings b.id).measurement (.ok (probeUnder x.sim.flags.activeBrokerFault))) := by
  have hfaithful := (mirrored_getBroker h).faithful.broker _ (getBroker_cached x.sim.manager)
  simp only [Lab.probeBroker, BrokerObject.probe]
  rw [hfaithful]

theorem Showing.probeBroker (h : Showing live P t seen x) (hfound : Found config live R P)
    (hreadings : ∀ b, R (e.readings b)) (b : BrokerAccount) :
    P (x.probeBroker config e b).1 ∧ Showing live P t seen (x.probeBroker config e b).2 := by
  have hnew : P (x.probeBroker config e b).1 := by
    rw [probeBroker_snapshot h.mirrored, h.live]
    exact hfound _ _ _ (hreadings b.id)
  refine ⟨hnew, mirrored_getBroker h.mirrored, h.live, fun s hs ht => ?_, fun i hi => ?_⟩
  · rcases List.mem_append.mp hs with hs | hs
    · exact h.shows s hs ht
    · rw [List.mem_singleton.mp hs]
      exact hnew
  · obtain ⟨s, hs, hrecent⟩ := h.recent i hi
    exact ⟨s, List.mem_append_left _ hs, hrecent⟩

/-- A row of a broker that has a snapshot since `t`, or none at all, shows the fault. -/
theorem Showing.latestFor (h : Showing live P t seen x) (hfound : Found config live R P)
    (hreadings : ∀ b, R (e.readings b)) (bs : List BrokerAccount) :
    Showing live P t seen (x.latestFor config e bs).2 ∧
      ∀ i, seen i →
        (∀ row ∈ (x.latestFor config e bs).1, row.brokerAccountId = i →
          ∃ s, P s ∧ row = s.health) ∧
        (i ∈ bs.map (·.id) → ∃ row ∈ (x.latestFor config e bs).1, row.brokerAccountId = i) := by
  induction bs generalizing x with
  | nil => exact ⟨h, fun i _ => ⟨by rintro row ⟨⟩, by rintro ⟨⟩⟩⟩
  | cons b bs ih =>
      simp only [Lab.latestFor]
      cases hlatest : latestOf x.snapshots b.id with
      | some s =>
          obtain ⟨hend, hrows⟩ := ih h
          obtain ⟨hs, hid⟩ := latestOf_mem hlatest
          refine ⟨hend, fun i hi => ⟨fun row hrow hrowid => ?_, fun hmem => ?_⟩⟩
          · rcases List.mem_cons.mp hrow with rfl | hrow
            · have hb : b.id = i := hid.symm.trans hrowid
              obtain ⟨old, hold, holdid, ht⟩ := h.recent i hi
              exact ⟨s, h.shows s hs (ht.trans (le_latestOf hlatest hold (holdid.trans hb.symm))),
                rfl⟩
            · exact (hrows i hi).1 row hrow hrowid
          · rcases List.mem_cons.mp hmem with rfl | hmem
            · exact ⟨s.health, List.mem_cons_self, hid⟩
            · obtain ⟨row, hrow, hrowid⟩ := (hrows i hi).2 hmem
              exact ⟨row, List.mem_cons_of_mem _ hrow, hrowid⟩
      | none =>
          have hnot : ∀ i, seen i → b.id ≠ i := by
            rintro i hi rfl
            obtain ⟨old, hold, holdid, _⟩ := h.recent _ hi
            obtain ⟨s, hs⟩ := latestOf_isSome hold holdid
            cases hlatest.symm.trans hs
          have htail : ∀ i, seen i → i ∈ (b :: bs).map (·.id) → i ∈ bs.map (·.id) :=
            fun i hi hmem => (List.mem_cons.mp hmem).resolve_left fun heq => hnot i hi heq.symm
          dsimp only
          by_cases henabled : b.enabled = true
          · rw [if_pos henabled]
            obtain ⟨_, hnext⟩ := h.probeBroker hfound hreadings b
            obtain ⟨hend, hrows⟩ := ih hnext
            refine ⟨hend, fun i hi => ⟨fun row hrow hrowid => ?_, fun hmem => ?_⟩⟩
            · rcases List.mem_cons.mp hrow with rfl | hrow
              · exact absurd hrowid (hnot i hi)
              · exact (hrows i hi).1 row hrow hrowid
            · obtain ⟨row, hrow, hrowid⟩ := (hrows i hi).2 (htail i hi hmem)
              exact ⟨row, List.mem_cons_of_mem _ hrow, hrowid⟩
          · rw [if_neg henabled]
            obtain ⟨hend, hrows⟩ := ih h
            exact ⟨hend, fun i hi => ⟨(hrows i hi).1, fun hmem => (hrows i hi).2 (htail i hi hmem)⟩⟩

/-- Switching the infrastructure's fault is nothing to the broker. -/
theorem activeBrokerFault_setEnabled {flags flags' : Flags} {now : Instant} {name : String}
    {on : Bool} (hset : flags.setEnabled now name on = some flags')
    (hname : ∀ f, FaultId.ofName? name = some f → f.ofBroker = false) :
    flags'.activeBrokerFault = flags.activeBrokerFault := by
  obtain ⟨f, hf, rfl⟩ := Option.map_eq_some_iff.mp hset
  have hother := hname f hf
  cases f with
  | brokerUnavailable => cases hother
  | brokerReject => cases hother
  | infraProbeFail =>
      simp only [Flags.activeBrokerFault, Flags.record, List.find?, switched, FaultId.ofBroker,
        Bool.and_false, Bool.false_and, reduceCtorEq, if_false, Bool.false_eq_true]

theorem Showing.using_ (h : Showing live P t seen x) {use : Use} (huse : e.Uses use)
    (hq : e.Quiet) : Showing live P t seen (x.using_ config e use) := by
  refine ⟨h.mirrored.step _ _, ?_, h.shows, h.recent⟩
  rw [← h.live]
  unfold Event.Uses at huse
  unfold Event.Quiet at hq
  generalize e.happening = happening at huse hq
  cases happening with
  | setFault name enabled probed =>
      subst huse
      simp only [Lab.using_, Simulator.step]
      cases hset : x.sim.flags.setEnabled x.clock name enabled with
      | none => rfl
      | some flags => exact activeBrokerFault_setEnabled hset hq
  | clearFaults probed => exact hq.elim
  | probeAll probed => exact huse.elim
  | latest => exact huse.elim
  | call c =>
      subst huse
      rfl
  | invalidate kind =>
      subst huse
      rfl
  | setBrokers brokers => exact huse.elim

theorem Showing.step (h : Showing live P t seen x) (hfound : Found config live R P)
    (hreadings : ∀ b, R (e.readings b)) (hq : e.Quiet) :
    Showing live P t seen (x.step config e) :=
  step_closed (fun _ b h => (h.probeBroker hfound hreadings b).2)
    (fun _ h => ⟨h.mirrored, h.live, h.shows, h.recent⟩) (fun _ _ huse h => h.using_ huse hq)
    (fun _ _ h => ⟨h.mirrored, h.live, h.shows, h.recent⟩) h

theorem Showing.run {es : List Event} (h : Showing live P t seen x)
    (hfound : Found config live R P) (hreadings : ∀ e ∈ es, ∀ b, R (e.readings b))
    (hq : ∀ e ∈ es, e.Quiet) : Showing live P t seen (x.run config es) := by
  induction es generalizing x with
  | nil => exact h
  | cons e es ih =>
      have hnext := h.step hfound (hreadings e List.mem_cons_self) (hq e List.mem_cons_self)
      exact ih hnext (fun e he => hreadings e (List.mem_cons_of_mem _ he))
        fun e he => hq e (List.mem_cons_of_mem _ he)

end Showing

/-! ## Switching -/

/-- Snapshots are of the past. -/
structure Sound (x : Lab) : Prop where
  mirrored : x.sim.Mirrored
  past : ∀ s ∈ x.snapshots, s.measuredAt ≤ x.clock

section Sound

variable {config : LabConfig} {e : Event} {x : Lab}

theorem Sound.probeBroker (h : Sound x) (b : BrokerAccount) :
    Sound (x.probeBroker config e b).2 := by
  refine ⟨mirrored_getBroker h.mirrored, fun s hs => ?_⟩
  rcases List.mem_append.mp hs with hs | hs
  · exact h.past s hs
  · rw [List.mem_singleton.mp hs]
    exact le_refl x.clock

theorem Sound.step (h : Sound x) : Sound (x.step config e) :=
  step_closed (fun _ b h => h.probeBroker b)
    (fun _ h => ⟨h.mirrored, fun s hs =>
      (h.past s hs).trans (Int.le_add_of_nonneg_right (Int.natCast_nonneg _))⟩)
    (fun _ _ _ h => ⟨h.mirrored.step _ _, h.past⟩) (fun _ _ h => ⟨h.mirrored, h.past⟩) h

theorem Sound.run (h : Sound x) (es : List Event) : Sound (x.run config es) := by
  induction es generalizing x with
  | nil => exact h
  | cons e es ih => exact ih h.step

theorem sound_new : Sound {} := ⟨mirrored_new, by rintro s ⟨⟩⟩

end Sound

section Switching

variable {config : LabConfig} {e : Event} {live : Option BrokerFault} {R : HealthReading → Prop}
  {P : HealthSnapshot → Prop} {t : Instant} {seen : BrokerId → Prop} {x : Lab}

/-- Every broker that is probed has a recent snapshot afterwards. -/
theorem Showing.probeEach (h : Showing live P t seen x) (ht : t ≤ x.clock)
    (hfound : Found config live R P) (hreadings : ∀ b, R (e.readings b))
    (bs : List BrokerAccount) :
    Showing live P t (fun i => seen i ∨ i ∈ bs.map (·.id)) (x.probeEach config e bs) := by
  induction bs generalizing x seen with
  | nil => exact ⟨h.mirrored, h.live, h.shows, fun i hi => h.recent i (by simpa using hi)⟩
  | cons b bs ih =>
      obtain ⟨hnew, hnext⟩ := h.probeBroker hfound hreadings b
      have hseen : Showing live P t (fun i => seen i ∨ i = b.id)
          (x.probeBroker config e b).2 := by
        refine ⟨hnext.mirrored, hnext.live, hnext.shows, fun i hi => ?_⟩
        rcases hi with hi | rfl
        · exact hnext.recent i hi
        · exact ⟨_, List.mem_append_right _ (List.mem_singleton_self _), rfl, ht⟩
      have hrest := ih hseen ht
      refine ⟨hrest.mirrored, hrest.live, hrest.shows, fun i hi => hrest.recent i ?_⟩
      simpa [or_assoc] using hi

/-- An event that switches a fault uses the simulator and probes every broker. -/
theorem step_of_switches (config : LabConfig) (h : e.Switches) (x : Lab) : ∃ use, x.step config e =
    (Lab.using_ config e use { x with clock := x.clock + (e.elapsed + 1 : Nat) }).probeAll
      config e none := by
  rcases h with heq | ⟨f, name, enabled, heq, hname, hf⟩
  · refine ⟨.clearAllFaults, ?_⟩
    simp only [Lab.step, heq]
  · refine ⟨.setFault name enabled, ?_⟩
    have htarget : f.profile.target = "broker" := by
      cases f with
      | brokerUnavailable => rfl
      | brokerReject => rfl
      | infraProbeFail => cases hf
    simp only [Lab.step, heq, hname, htarget, if_true]

/-- After a switch the snapshots show the fault that is live then. -/
theorem Sound.showing (h : Sound x) (hs : e.Switches)
    (hfound : Found config (x.step config e).sim.flags.activeBrokerFault R P)
    (hreadings : ∀ b, R (e.readings b)) :
    Showing (x.step config e).sim.flags.activeBrokerFault P
      (x.clock + (e.elapsed + 1 : Nat)) (fun i => ∃ b ∈ x.brokers.rows, b.enabled ∧ b.id = i)
      (x.step config e) := by
  obtain ⟨use, heq⟩ := step_of_switches config hs x
  generalize hused : Lab.using_ config e use { x with clock := x.clock + (e.elapsed + 1 : Nat) } =
    used at heq
  have hflags : (x.step config e).sim.flags = used.sim.flags := by
    rw [heq]
    exact probeAll_closed (I := fun y => y.sim.flags = used.sim.flags) (fun _ _ h => h) rfl none
  rw [hflags] at hfound ⊢
  have hstart : Showing used.sim.flags.activeBrokerFault P (x.clock + (e.elapsed + 1 : Nat))
      (fun _ => False) used := by
    refine ⟨?_, rfl, fun s hs ht => ?_, fun _ hi => hi.elim⟩
    · rw [← hused]
      exact h.mirrored.step _ _
    · rw [← hused] at hs
      have hpast : s.measuredAt ≤ x.clock := h.past s hs
      exact absurd ht (not_le.mpr (hpast.trans_lt (Int.lt_add_of_pos_right _ (by positivity))))
  have hend := hstart.probeEach (e := e) (by rw [← hused]; exact le_refl _) hfound hreadings
    used.enabledBrokers
  rw [heq]
  refine ⟨hend.mirrored, hend.live, hend.shows, fun i hi => hend.recent i (.inr ?_)⟩
  obtain ⟨b, hb, henabled, rfl⟩ := hi
  have hbrokers : used.brokers = x.brokers := by rw [← hused]; rfl
  refine List.mem_map.mpr ⟨b, List.mem_filter.mpr ⟨?_, henabled⟩, rfl⟩
  rw [hbrokers]
  exact hb

end Switching

/-! ## What is measured under a fault -/

/-- The threshold of routing. -/
def degradedMin (config : HealthConfig) : Rat := setting config.thresholds "degraded_min" 50

/-- Weights and thresholds for which latency and the IP alone do not make a broker routable,
and a fast hard reject does; the defaults are among them. -/
structure Tuned (config : HealthConfig) : Prop where
  nonneg : (weightsOf config.weights).Nonneg
  budget : 0 < config.latencyBudgetMs
  ordered : degradedMin config ≤ setting config.thresholds "healthy_min" 80
  whole : ∃ n : Int, degradedMin config = n
  down : 100 * (weightsOf config.weights).wLat + 100 * (weightsOf config.weights).wIp <
    degradedMin config
  up : degradedMin config ≤ 42 * (weightsOf config.weights).wLat +
    25 * (weightsOf config.weights).wSucc + 100 * (weightsOf config.weights).wConn +
    85 * (weightsOf config.weights).wTo

/-- The probe takes little of the latency budget. -/
def Quick (config : HealthConfig) (r : HealthReading) : Prop :=
  r.latencyMs ≤ 58 / 100 * config.latencyBudgetMs

theorem activeBrokerFault_unavailable {flags : Flags} (h : flags.enabled .brokerUnavailable) :
    flags.activeBrokerFault = some { code := "BROKER_UNAVAILABLE" } := by
  simp only [Flags.activeBrokerFault, List.find?, h]
  rfl

theorem activeBrokerFault_reject {flags : Flags} (h : flags.enabled .brokerUnavailable = false)
    (hreject : flags.enabled .brokerReject) : flags.activeBrokerFault =
      some { code := "BROKER_REJECT", status := 400, retryable := false } := by
  simp only [Flags.activeBrokerFault, List.find?, h, hreject]
  rfl

theorem activeBrokerFault_none {flags : Flags} (h : flags.enabled .brokerUnavailable = false)
    (hreject : flags.enabled .brokerReject = false) : flags.activeBrokerFault = none := by
  simp only [Flags.activeBrokerFault, List.find?, h, hreject, Option.map_none]

section Measured

variable {config : LabConfig}

theorem found_unavailable (h : Tuned config.health) :
    Found config (some { code := "BROKER_UNAVAILABLE" }) (fun _ => True)
      (·.status = .unhealthy) := by
  intro now b r _
  have hlat := weighted_range h.nonneg.wLat
    ⟨le_clamp (100 * (1 - r.latencyMs / config.health.latencyBudgetMs)) 0 100,
      clamp_le _ (by norm_num)⟩
  have hip := weighted_range h.nonneg.wIp (ipHealth_range r)
  have hscore : computeHealthScore config.health.weights config.health.latencyBudgetMs
      (r.measurement (.ok (probeUnder (some { code := "BROKER_UNAVAILABLE" })))) <
      degradedMin config.health := by
    simp only [computeHealthScore, latencyScore, connectivityScore,
      HealthReading.measurement, probeUnder,
      reduceCtorEq, or_false, String.reduceEq, if_false, Option.getD_some, Bool.false_eq_true]
    linarith [h.down]
  have hhealthy : ¬ setting config.health.thresholds "healthy_min" 80 ≤
      computeHealthScore config.health.weights config.health.latencyBudgetMs
        (r.measurement (.ok (probeUnder (some { code := "BROKER_UNAVAILABLE" })))) :=
    not_le.mpr (hscore.trans_le h.ordered)
  simp only [HealthConfig.snapshot, statusFromScore]
  rw [if_neg hhealthy]
  exact if_neg (not_le.mpr hscore)

/-- Routing does not exclude the broker for its health. -/
def Routable (config : HealthConfig) (s : HealthSnapshot) : Prop :=
  s.status ≠ .unhealthy ∧ degradedMin config ≤ s.score

/-- A broker that can be reached, and that succeeds once in four times or more. -/
structure Reachable (probe : ProbeReport) : Prop where
  connectivity : probe.connectivity.getD probe.ok = true
  success : ∃ r, probe.successRate = some r ∧ 25 / 100 ≤ r
  timeout : ∃ r, probe.timeoutRate = some r ∧ r ≤ 15 / 100

theorem reachable_none : Reachable (probeUnder none) :=
  ⟨rfl, ⟨1, rfl, by norm_num⟩, ⟨0, rfl, by norm_num⟩⟩

theorem reachable_reject : Reachable
    (probeUnder (some { code := "BROKER_REJECT", status := 400, retryable := false })) :=
  ⟨rfl, ⟨25 / 100, rfl, le_refl _⟩, ⟨15 / 100, rfl, le_refl _⟩⟩

theorem found_reachable (h : Tuned config.health) {live : Option BrokerFault}
    (hlive : Reachable (probeUnder live)) :
    Found config live (Quick config.health) (Routable config.health) := by
  intro now b r hquick
  obtain ⟨success, hsuccess, hsuccessMin⟩ := hlive.success
  obtain ⟨timeout, htimeout, htimeoutMax⟩ := hlive.timeout
  have hshare : r.latencyMs / config.health.latencyBudgetMs ≤ 58 / 100 :=
    (div_le_iff₀ h.budget).mpr hquick
  have hfast : 42 ≤ latencyScore r.latencyMs config.health.latencyBudgetMs :=
    (le_min (by norm_num) (by linarith)).trans (le_max_right _ _)
  have hscore : degradedMin config.health ≤
      computeHealthScore config.health.weights config.health.latencyBudgetMs
        (r.measurement (.ok (probeUnder live))) := by
    have h1 := mul_le_mul_of_nonneg_left hfast h.nonneg.wLat
    have h2 := mul_le_mul_of_nonneg_left hsuccessMin h.nonneg.wSucc
    have h4 := mul_le_mul_of_nonneg_left htimeoutMax h.nonneg.wTo
    have h5 := mul_nonneg h.nonneg.wIp (ipHealth_range r).1
    have hmeasured : r.measurement (.ok (probeUnder live)) =
        ⟨r.latencyMs, success, timeout, true, r.ipHealth⟩ := by
      simp only [HealthReading.measurement, hlive.connectivity, hsuccess,
        htimeout, Option.getD_some]
    rw [hmeasured]
    simp only [computeHealthScore, connectivityScore, if_true]
    linarith [h.up]
  refine ⟨?_, ?_⟩
  · simp only [HealthConfig.snapshot, statusFromScore]
    split
    · exact Status.noConfusion
    · split
      · exact Status.noConfusion
      · next hlow => exact absurd hscore hlow
  · obtain ⟨n, hn⟩ := h.whole
    rw [hn] at hscore ⊢
    exact le_roundTo hscore

end Measured

/-! ## Routing -/

section Routing

variable {config : HealthConfig} {q : RouteQuery} {c : RouteContext} {broker : BrokerAccount}
  {assignment : Option (IpAssignment × StaticIp)} {rl : RateSnapshot} {P : HealthSnapshot → Prop}

/-- The row that counts is a row of the broker. -/
theorem healthRow_mem {h : Health} (hrow : c.healthRow broker.id = some h) :
    h ∈ c.health ∧ h.brokerAccountId = broker.id := by
  have hid := List.find?_some (p := fun h : Health => h.brokerAccountId == broker.id) hrow
  exact ⟨List.mem_reverse.mp (List.mem_of_find?_eq_some hrow), beq_iff_eq.mp hid⟩

theorem not_eligible (h : ∀ row ∈ c.health, row.brokerAccountId = broker.id →
    ∃ s : HealthSnapshot, s.status = .unhealthy ∧ row = s.health) :
    ¬ Eligible q c broker assignment rl := by
  intro helig
  obtain ⟨row, hrow, hstatus, _⟩ := helig.health
  obtain ⟨hmem, hid⟩ := healthRow_mem hrow
  obtain ⟨s, hs, rfl⟩ := h row hmem hid
  rw [HealthSnapshot.health, hs] at hstatus
  exact hstatus rfl

theorem eligible_iff (hmin : c.degradedMin = degradedMin config)
    (hsome : ∃ row ∈ c.health, row.brokerAccountId = broker.id)
    (h : ∀ row ∈ c.health, row.brokerAccountId = broker.id →
      ∃ s : HealthSnapshot, Routable config s ∧ row = s.health) :
    Eligible q c broker assignment rl ↔
      excludedByIp q c broker assignment = none ∧
        (c.exceedPolicy = "REJECT" → rl.allowed = true) := by
  constructor
  · intro helig
    exact ⟨excludedByIp_iff.mpr ⟨helig.assigned, helig.region⟩, helig.rate⟩
  · rintro ⟨hip, hrate⟩
    obtain ⟨hassigned, hregion⟩ := excludedByIp_iff.mp hip
    refine ⟨hassigned, hregion, ?_, hrate⟩
    cases hrow : c.healthRow broker.id with
    | none =>
        obtain ⟨row, hmem, hid⟩ := hsome
        have hnone := List.find?_eq_none.mp hrow row (List.mem_reverse.mpr hmem)
        exact absurd (beq_iff_eq.mpr hid) hnone
    | some row =>
        obtain ⟨hmem, hid⟩ := healthRow_mem hrow
        obtain ⟨s, ⟨hstatus, hscore⟩, rfl⟩ := h row hmem hid
        refine ⟨s.health, rfl, ?_, hmin.trans_le hscore⟩
        cases hs : s.status with
        | unhealthy => exact absurd hs hstatus
        | degraded => simp [HealthSnapshot.health, hs, Status.toString]
        | healthy => simp [HealthSnapshot.health, hs, Status.toString]

end Routing

theorem latest_complete {config : LabConfig} {e : Event} {x : Lab} {live : Option BrokerFault}
    {R : HealthReading → Prop} {P : HealthSnapshot → Prop} {t : Instant} {seen : BrokerId → Prop}
    (h : Showing live P t seen x) (hfound : Found config live R P)
    (hreadings : ∀ b, R (e.readings b)) {broker : BrokerAccount} (hbroker : broker ∈ x.brokers.rows)
    (hseen : seen broker.id) :
    (∀ row ∈ (x.latest config e).1, row.brokerAccountId = broker.id →
      ∃ s, P s ∧ row = s.health) ∧
    ∃ row ∈ (x.latest config e).1, row.brokerAccountId = broker.id := by
  obtain ⟨hrows, hsome⟩ := (h.latestFor hfound hreadings
    (x.brokers.rows.insertionSort fun b b' => b.priority ≤ b'.priority)).2 broker.id hseen
  refine ⟨hrows, hsome (List.mem_map.mpr ⟨broker, ?_, rfl⟩)⟩
  rw [List.mem_insertionSort]
  exact hbroker

/-- After a fault of the broker was switched and until the next switch, whatever else
happens: with the broker unavailable, routing considers no broker eligible that was enabled
at the switch; with a hard reject or without a fault, if probes are quick, health excludes
none of these; and under a hard reject the order is refused with its code. -/
theorem routed_under_fault (config : LabConfig) (htuned : Tuned config.health)
    (before after : List Event) (e last : Event) (hswitch : e.Switches)
    (hquiet : ∀ e' ∈ after, e'.Quiet) (x y : Lab) (hx : x = ({} : Lab).run config before)
    (hy : y = (x.step config e).run config after) (q : RouteQuery) (c : RouteContext)
    (broker : BrokerAccount) (assignment : Option (IpAssignment × StaticIp)) (rl : RateSnapshot)
    (hhealth : c.health = (y.latest config last).1)
    (hmin : c.degradedMin = degradedMin config.health)
    (hbroker : broker ∈ y.brokers.rows)
    (henabled : ∃ b ∈ x.brokers.rows, b.enabled ∧ b.id = broker.id) :
    (y.sim.flags.enabled .brokerUnavailable = true → ¬ Eligible q c broker assignment rl) ∧
    (y.sim.flags.enabled .brokerUnavailable = false →
      (∀ e' ∈ e :: last :: after, ∀ b, Quick config.health (e'.readings b)) →
      (Eligible q c broker assignment rl ↔
        excludedByIp q c broker assignment = none ∧
          (c.exceedPolicy = "REJECT" → rl.allowed = true))) ∧
    (y.sim.flags.enabled .brokerReject = true → ∀ o, y.sim.manager.broker = some o →
      o.placeOrder y.sim.flags.activeBrokerFault =
        .rejected "BROKER_REJECT" "Mock broker injected fault (400)" 400 false) := by
  have hsound : Sound x := hx ▸ sound_new.run before
  -- The snapshots since the switch are of one kind, whichever the live fault allows.
  have hend : ∀ {R : HealthReading → Prop} {P : HealthSnapshot → Prop},
      (∀ e' ∈ e :: last :: after, ∀ b, R (e'.readings b)) →
      Found config (x.step config e).sim.flags.activeBrokerFault R P →
      y.sim.flags.activeBrokerFault = (x.step config e).sim.flags.activeBrokerFault ∧
      (∀ row ∈ c.health, row.brokerAccountId = broker.id → ∃ s, P s ∧ row = s.health) ∧
      ∃ row ∈ c.health, row.brokerAccountId = broker.id := by
    intro R P hreadings hfound
    have hshowing := (hsound.showing hswitch hfound (hreadings e List.mem_cons_self)).run hfound
      (fun e' he' => hreadings e' (List.mem_cons_of_mem _ (List.mem_cons_of_mem _ he'))) hquiet
    rw [← hy] at hshowing
    have hlast := hreadings last (List.mem_cons_of_mem _ List.mem_cons_self)
    rw [hhealth]
    exact ⟨hshowing.live, latest_complete hshowing hfound hlast hbroker henabled⟩
  have hsame : y.sim.flags.activeBrokerFault = (x.step config e).sim.flags.activeBrokerFault :=
    (hend (R := fun _ => True) (P := fun _ => True) (fun _ _ _ => trivial)
      fun _ _ _ _ => trivial).1
  have hmirrored : y.sim.Mirrored := hy ▸ ((hsound.step (e := e)).run after).mirrored
  refine ⟨fun hdown => ?_, fun hup hquick => ?_, fun hreject o ho => ?_⟩
  · have hlive := hsame ▸ activeBrokerFault_unavailable hdown
    have hfound : Found config _ _ _ := found_unavailable htuned
    rw [← hlive] at hfound
    exact not_eligible (hend (fun _ _ _ => trivial) hfound).2.1
  · have hfound : Found config (x.step config e).sim.flags.activeBrokerFault
        (Quick config.health) (Routable config.health) := by
      rw [← hsame]
      cases hreject : y.sim.flags.enabled .brokerReject with
      | true =>
          rw [activeBrokerFault_reject hup hreject]
          exact found_reachable htuned reachable_reject
      | false =>
          rw [activeBrokerFault_none hup hreject]
          exact found_reachable htuned reachable_none
    obtain ⟨_, hrows, hsome⟩ := hend hquick hfound
    exact eligible_iff hmin hsome hrows
  · have hexclusive := hmirrored.faithful.exclusive
    have hup : y.sim.flags.enabled .brokerUnavailable = false := by
      by_contra hon
      exact hexclusive ⟨by simpa using hon, hreject⟩
    rw [BrokerObject.placeOrder, hmirrored.faithful.broker o ho,
      activeBrokerFault_reject hup hreject]
    rfl

/-- The defaults are tuned. -/
theorem tuned_default : Tuned {} := by
  refine ⟨?_, ?_, ?_, ⟨50, ?_⟩, ?_, ?_⟩
  · constructor <;> norm_num [weightsOf, setting]
  all_goals norm_num [weightsOf, setting, degradedMin]

def oneBroker : Table BrokerAccount := .of [{ id := 2, clientId := 1 }]

/-- Every probe takes a tenth of the budget. -/
def quickReading : HealthReading := ⟨50, none, by norm_num, by rintro health ⟨⟩⟩

/-- A broker is made, becomes unavailable, and is dropped from the provider manager. -/
theorem routed_under_fault_unavailable :
    ¬ Eligible { clientId := 1 }
      { degradedMin := 50
        requireIp := false
        exceedPolicy := "REROUTE"
        health :=
          ((((({} : Lab).step {} ⟨.setBrokers oneBroker, 0, none, fun _ => quickReading⟩).step {}
            ⟨.setFault "broker_unavailable" true none, 0, none, fun _ => quickReading⟩).run {}
            [⟨.invalidate (some .brokerDefault), 0, none, fun _ => quickReading⟩]).latest {}
            ⟨.latest, 0, none, fun _ => quickReading⟩).1 }
      { id := 2, clientId := 1 } none ⟨true, 0⟩ := by
  refine (routed_under_fault {} tuned_default
    [⟨.setBrokers oneBroker, 0, none, fun _ => quickReading⟩]
    [⟨.invalidate (some .brokerDefault), 0, none, fun _ => quickReading⟩]
    ⟨.setFault "broker_unavailable" true none, 0, none, fun _ => quickReading⟩
    ⟨.latest, 0, none, fun _ => quickReading⟩ (.inr ⟨.brokerUnavailable, _, _, rfl, rfl, rfl⟩)
    ?_ _ _ rfl rfl _ _ _ _ _ rfl rfl (List.mem_singleton_self _)
    ⟨_, List.mem_singleton_self _, rfl, rfl⟩).1 rfl
  intro e' he'
  rw [List.mem_singleton.mp he']
  trivial

end BrokerBridge.Sim
