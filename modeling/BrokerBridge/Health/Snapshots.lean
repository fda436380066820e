import BrokerBridge.Health.Score
import BrokerBridge.World.Request
import Mathlib.Data.List.Sort
import Mathlib.Data.Rat.Floor

/-!
# Health snapshots

What `HealthService` stores of a probe, and which snapshot of a broker counts. The score
and the parts are rounded when they are stored, the status is that of the score before.
The latest snapshot counts, and a broker that has none and is enabled is probed first.
-/

namespace BrokerBridge.Scoring

/-! ## A probe -/

/-- What a broker answers to a probe. -/
structure ProbeReport where
  ok : Bool
  error : Option String := none
  successRate : Option Rat := none
  timeoutRate : Option Rat := none
  connectivity : Option Bool := none

/-- What is read beside the answer: the time that it took, and the health of the IP that is
assigned to the broker, if one is and if it has one. -/
structure HealthReading where
  latencyMs : Rat
  ip : Option (Option Nat)
  nonneg : 0 ≤ latencyMs
  percent : ∀ health, ip = some (some health) → health ≤ 100

/-- `_ip_health_for_broker` -/
def HealthReading.ipHealth (r : HealthReading) : Rat :=
  match r.ip with
  | none => 50
  | some (some health) => health
  | some none => 100

/-- What `probe_broker` makes of the answer; an exception counts as no connection. -/
def HealthReading.measurement (r : HealthReading) : Except Exn ProbeReport → Measurement
  | .ok probe =>
      let connectivity := probe.connectivity.getD probe.ok
      { latencyMs := r.latencyMs
        successRate := probe.successRate.getD (if connectivity then 1 else 0)
        timeoutRate := probe.timeoutRate.getD (if connectivity then 0 else 1)
        connectivity := connectivity
        ipHealth := r.ipHealth }
  | .error _ =>
      { latencyMs := r.latencyMs
        successRate := 0
        timeoutRate := 1
        connectivity := false
        ipHealth := r.ipHealth }

theorem ipHealth_range (r : HealthReading) : 0 ≤ r.ipHealth ∧ r.ipHealth ≤ 100 := by
  unfold HealthReading.ipHealth
  split
  · norm_num
  · next health hip =>
      have hle : (health : Rat) ≤ 100 := by exact_mod_cast r.percent health hip
      exact ⟨Nat.cast_nonneg health, hle⟩
  · norm_num

/-! ## Rounding -/

/-- To the nearest integer, and to the even one of two. -/
def roundHalfEven (x : Rat) : Int :=
  let rest := x - x.floor
  if rest < 1 / 2 then x.floor
  else if 1 / 2 < rest then x.floor + 1
  else if x.floor % 2 = 0 then x.floor else x.floor + 1

/-- `round(x, digits)` -/
def roundTo (digits : Nat) (x : Rat) : Rat := roundHalfEven (x * 10 ^ digits) / 10 ^ digits

theorem le_roundHalfEven {n : Int} {x : Rat} (h : (n : Rat) ≤ x) : n ≤ roundHalfEven x := by
  have hfloor : n ≤ x.floor := Rat.le_floor_iff.mpr h
  unfold roundHalfEven
  dsimp only
  split
  · exact hfloor
  · split
    · exact hfloor.trans (Int.le_add_one le_rfl)
    · split
      · exact hfloor
      · exact hfloor.trans (Int.le_add_one le_rfl)

/-- Rounding keeps what is at least a number that needs no rounding above it. -/
theorem le_roundTo {digits : Nat} {n : Int} {x : Rat} (h : (n : Rat) ≤ x) :
    (n : Rat) ≤ roundTo digits x := by
  have hpos : (0 : Rat) < 10 ^ digits := by positivity
  have hscaled : ((n * 10 ^ digits : Int) : Rat) ≤ x * 10 ^ digits := by
    push_cast
    exact mul_le_mul_of_nonneg_right h hpos.le
  have hround : ((n * 10 ^ digits : Int) : Rat) ≤ roundHalfEven (x * 10 ^ digits) := by
    exact_mod_cast le_roundHalfEven hscaled
  rw [roundTo, le_div_iff₀ hpos]
  push_cast at hround
  exact hround

/-! ## Snapshots -/

structure HealthSnapshot where
  brokerAccountId : BrokerId
  latencyMs : Rat
  successRate : Rat
  timeoutRate : Rat
  connectivity : Bool
  ipHealth : Rat
  score : Rat
  status : Status
  measuredAt : Instant

/-- The stored weights and thresholds, and the setting. -/
structure HealthConfig where
  weights : List (String × Rat) := []
  thresholds : List (String × Rat) := []
  latencyBudgetMs : Rat := 500

/-- `probe_broker`, once the broker has answered. -/
def HealthConfig.snapshot (config : HealthConfig) (now : Instant) (b : BrokerId) (m : Measurement) :
    HealthSnapshot :=
  let score := computeHealthScore config.weights config.latencyBudgetMs m
  { brokerAccountId := b
    latencyMs := roundTo 4 m.latencyMs
    successRate := roundTo 6 m.successRate
    timeoutRate := roundTo 6 m.timeoutRate
    connectivity := m.connectivity
    ipHealth := roundTo 4 m.ipHealth
    score := roundTo 4 score
    status := statusFromScore config.thresholds score
    measuredAt := now }

/-- The broker's snapshot that counts: `order_by(measured_at.desc()).limit(1)`. -/
def latestOf (snapshots : List HealthSnapshot) (b : BrokerId) : Option HealthSnapshot :=
  ((snapshots.filter (·.brokerAccountId = b)).insertionSort
    fun s s' => s'.measuredAt ≤ s.measuredAt).head?

/-- The columns that routing reads. -/
def HealthSnapshot.health (s : HealthSnapshot) : Health where
  brokerAccountId := s.brokerAccountId
  score := s.score
  status := s.status.toString

section Latest

variable {snapshots : List HealthSnapshot} {b : BrokerId} {s : HealthSnapshot}

theorem latestOf_mem (h : latestOf snapshots b = some s) :
    s ∈ snapshots ∧ s.brokerAccountId = b := by
  have hmem := List.mem_of_mem_head? h
  rw [List.mem_insertionSort, List.mem_filter, decide_eq_true_iff] at hmem
  exact hmem

/-- No snapshot of the broker is later. -/
theorem le_latestOf (h : latestOf snapshots b = some s) {old : HealthSnapshot}
    (hold : old ∈ snapshots) (hb : old.brokerAccountId = b) : old.measuredAt ≤ s.measuredAt := by
  have hsorted := List.pairwise_insertionSort
    (fun s s' : HealthSnapshot => s'.measuredAt ≤ s.measuredAt)
    (snapshots.filter (·.brokerAccountId = b))
  have hmem : old ∈ (snapshots.filter (·.brokerAccountId = b)).insertionSort
      (fun s s' => s'.measuredAt ≤ s.measuredAt) := by
    rw [List.mem_insertionSort, List.mem_filter, decide_eq_true_iff]
    exact ⟨hold, hb⟩
  unfold latestOf at h
  cases hlist : (snapshots.filter (·.brokerAccountId = b)).insertionSort
      (fun s s' => s'.measuredAt ≤ s.measuredAt) with
  | nil =>
      rw [hlist] at h
      cases h
  | cons head rest =>
      rw [hlist] at h hsorted hmem
      cases h
      rcases List.mem_cons.mp hmem with rfl | hrest
      · exact le_refl _
      · exact (List.pairwise_cons.mp hsorted).1 old hrest

theorem latestOf_isSome (hs : s ∈ snapshots) (hb : s.brokerAccountId = b) :
    ∃ s', latestOf snapshots b = some s' := by
  have hmem : s ∈ (snapshots.filter (·.brokerAccountId = b)).insertionSort
      (fun s s' => s'.measuredAt ≤ s.measuredAt) := by
    rw [List.mem_insertionSort, List.mem_filter, decide_eq_true_iff]
    exact ⟨hs, hb⟩
  unfold latestOf
  cases hlist : (snapshots.filter (·.brokerAccountId = b)).insertionSort
      (fun s s' => s'.measuredAt ≤ s.measuredAt) with
  | nil =>
      rw [hlist] at hmem
      cases hmem
  | cons head rest => exact ⟨head, rfl⟩

end Latest

end BrokerBridge.Scoring
