import Mathlib.Algebra.Order.Field.Basic
import Mathlib.Data.Rat.Lemmas
import Mathlib.Order.Monotone.Basic
import Mathlib.Tactic.Linarith
import Mathlib.Tactic.Positivity

/-!
# The health score

`compute_health_score` and `status_from_score`, over exact rationals. Weights and
thresholds are dictionaries that an admin stores, with a default for each key they
miss.

Measurements are ordered: one is at most another when it is no better in any of its
five parts. The score is five terms, each monotone in one part, so it is monotone in
the measurement, and what is said of the status follows by composition.
-/

namespace BrokerBridge

namespace Scoring

/-- `float(d.get(key, default))` -/
def setting (d : List (String × Rat)) (key : String) (default : Rat) : Rat :=
  (d.lookup key).getD default

def clamp (value lo hi : Rat) : Rat := max lo (min hi value)

/-- What a probe of a broker measures. -/
structure Measurement where
  latencyMs : Rat
  successRate : Rat
  timeoutRate : Rat
  connectivity : Bool
  ipHealth : Rat

def latencyScore (latencyMs latencyBudgetMs : Rat) : Rat :=
  clamp (100 * (1 - latencyMs / latencyBudgetMs)) 0 100

def connectivityScore (connectivity : Bool) : Rat := if connectivity then 100 else 0

/-- The weights that are used, whatever the stored dictionary leaves out. -/
structure Weights where
  wLat : Rat
  wSucc : Rat
  wConn : Rat
  wTo : Rat
  wIp : Rat

def weightsOf (d : List (String × Rat)) : Weights where
  wLat := setting d "w_lat" (25 / 100)
  wSucc := setting d "w_succ" (30 / 100)
  wConn := setting d "w_conn" (15 / 100)
  wTo := setting d "w_to" (20 / 100)
  wIp := setting d "w_ip" (10 / 100)

/-- `compute_health_score` -/
def computeHealthScore (weights : List (String × Rat)) (latencyBudgetMs : Rat)
    (m : Measurement) : Rat :=
  let w := weightsOf weights
  w.wLat * latencyScore m.latencyMs latencyBudgetMs
    + w.wSucc * (m.successRate * 100)
    + w.wConn * connectivityScore m.connectivity
    + w.wTo * (100 - m.timeoutRate * 100)
    + w.wIp * m.ipHealth

inductive Status where
  | unhealthy | degraded | healthy
  deriving DecidableEq, Repr

def Status.toString : Status → String
  | .unhealthy => "unhealthy"
  | .degraded => "degraded"
  | .healthy => "healthy"

/-- `status_from_score` -/
def statusFromScore (thresholds : List (String × Rat)) (score : Rat) : Status :=
  if setting thresholds "healthy_min" 80 ≤ score then .healthy
  else if setting thresholds "degraded_min" 50 ≤ score then .degraded
  else .unhealthy

/-! ## Orders -/

def Status.rank : Status → Nat
  | .unhealthy => 0
  | .degraded => 1
  | .healthy => 2

/-- Healthy over degraded over unhealthy. -/
instance : LE Status := ⟨fun a b => a.rank ≤ b.rank⟩

instance : Preorder Status := Preorder.lift Status.rank

/-- No better in any part. -/
instance : LE Measurement where
  le m m' :=
    m'.latencyMs ≤ m.latencyMs ∧ m.successRate ≤ m'.successRate ∧
      m'.timeoutRate ≤ m.timeoutRate ∧ m.connectivity ≤ m'.connectivity ∧
      m.ipHealth ≤ m'.ipHealth

instance : Preorder Measurement where
  le_refl m := ⟨le_rfl, le_rfl, le_rfl, le_rfl, le_rfl⟩
  le_trans a b c h h' :=
    ⟨h'.1.trans h.1, h.2.1.trans h'.2.1, h'.2.2.1.trans h.2.2.1, h.2.2.2.1.trans h'.2.2.2.1,
      h.2.2.2.2.trans h'.2.2.2.2⟩

/-- The ranges of what is measured. -/
structure Measurement.InRange (m : Measurement) : Prop where
  latency : 0 ≤ m.latencyMs
  success : 0 ≤ m.successRate ∧ m.successRate ≤ 1
  timeout : 0 ≤ m.timeoutRate ∧ m.timeoutRate ≤ 1
  ip : 0 ≤ m.ipHealth ∧ m.ipHealth ≤ 100

structure Weights.Nonneg (w : Weights) : Prop where
  wLat : 0 ≤ w.wLat
  wSucc : 0 ≤ w.wSucc
  wConn : 0 ≤ w.wConn
  wTo : 0 ≤ w.wTo
  wIp : 0 ≤ w.wIp

def Weights.sum (w : Weights) : Rat := w.wLat + w.wSucc + w.wConn + w.wTo + w.wIp

/-! ## The terms -/

theorem clamp_mono {a b : Rat} (h : a ≤ b) (lo hi : Rat) : clamp a lo hi ≤ clamp b lo hi :=
  max_le_max_left lo (min_le_min_left hi h)

theorem le_clamp (value lo hi : Rat) : lo ≤ clamp value lo hi := le_max_left lo _

theorem clamp_le (value : Rat) {lo hi : Rat} (h : lo ≤ hi) : clamp value lo hi ≤ hi :=
  max_le h (min_le_left hi value)

theorem latencyScore_anti {budget l l' : Rat} (hbudget : 0 < budget) (h : l ≤ l') :
    latencyScore l' budget ≤ latencyScore l budget := by
  have hdiv : l / budget ≤ l' / budget := div_le_div_of_nonneg_right h hbudget.le
  exact clamp_mono (by linarith) 0 100

theorem connectivityScore_mono {c c' : Bool} (h : c ≤ c') :
    connectivityScore c ≤ connectivityScore c' := by
  cases c with
  | false => cases c' <;> simp [connectivityScore]
  | true =>
      cases c' with
      | true => exact le_rfl
      | false => exact absurd h (by decide)

theorem connectivityScore_range (c : Bool) :
    0 ≤ connectivityScore c ∧ connectivityScore c ≤ 100 := by
  cases c <;> simp [connectivityScore]

/-- A term between 0 and 100, weighted. -/
theorem weighted_range {w x : Rat} (hw : 0 ≤ w) (h : 0 ≤ x ∧ x ≤ 100) :
    0 ≤ w * x ∧ w * x ≤ 100 * w := by
  have hle : w * x ≤ w * 100 := mul_le_mul_of_nonneg_left h.2 hw
  exact ⟨mul_nonneg hw h.1, by linarith⟩

/-! ## The score -/

section Score

variable {weights : List (String × Rat)} {budget : Rat}

theorem computeHealthScore_mono (hw : (weightsOf weights).Nonneg) (hbudget : 0 < budget) :
    Monotone (computeHealthScore weights budget) := by
  intro m m' h
  obtain ⟨hlat, hsucc, hto, hconn, hip⟩ := h
  have h1 := mul_le_mul_of_nonneg_left (latencyScore_anti hbudget hlat) hw.wLat
  have h2 : (weightsOf weights).wSucc * (m.successRate * 100)
      ≤ (weightsOf weights).wSucc * (m'.successRate * 100) :=
    mul_le_mul_of_nonneg_left (by linarith) hw.wSucc
  have h3 := mul_le_mul_of_nonneg_left (connectivityScore_mono hconn) hw.wConn
  have h4 : (weightsOf weights).wTo * (100 - m.timeoutRate * 100)
      ≤ (weightsOf weights).wTo * (100 - m'.timeoutRate * 100) :=
    mul_le_mul_of_nonneg_left (by linarith) hw.wTo
  have h5 := mul_le_mul_of_nonneg_left hip hw.wIp
  simp only [computeHealthScore]
  linarith

theorem computeHealthScore_range (hw : (weightsOf weights).Nonneg) {m : Measurement}
    (h : m.InRange) :
    0 ≤ computeHealthScore weights budget m ∧
      computeHealthScore weights budget m ≤ 100 * (weightsOf weights).sum := by
  have h1 := weighted_range hw.wLat
    ⟨le_clamp (100 * (1 - m.latencyMs / budget)) 0 100, clamp_le _ (by norm_num)⟩
  have hsucc : 0 ≤ m.successRate * 100 ∧ m.successRate * 100 ≤ 100 := by
    constructor <;> linarith [h.success.1, h.success.2]
  have h2 := weighted_range hw.wSucc hsucc
  have h3 := weighted_range hw.wConn (connectivityScore_range m.connectivity)
  have hto : 0 ≤ 100 - m.timeoutRate * 100 ∧ 100 - m.timeoutRate * 100 ≤ 100 := by
    constructor <;> linarith [h.timeout.1, h.timeout.2]
  have h4 := weighted_range hw.wTo hto
  have h5 := weighted_range hw.wIp h.ip
  simp only [computeHealthScore, latencyScore, Weights.sum]
  constructor <;> linarith

end Score

theorem statusFromScore_mono (thresholds : List (String × Rat)) :
    Monotone (statusFromScore thresholds) := by
  intro x y h
  show (statusFromScore thresholds x).rank ≤ (statusFromScore thresholds y).rank
  by_cases hhealthy : setting thresholds "healthy_min" 80 ≤ x
  · simp only [statusFromScore, if_pos hhealthy, if_pos (hhealthy.trans h), le_refl]
  · by_cases hdegraded : setting thresholds "degraded_min" 50 ≤ x
    · simp only [statusFromScore, if_neg hhealthy, if_pos hdegraded, if_pos (hdegraded.trans h)]
      split <;> simp [Status.rank]
    · simp only [statusFromScore, if_neg hhealthy, if_neg hdegraded, Status.rank]
      exact Nat.zero_le _

/-- For weights that are not negative, the score of a measurement in its range is between
0 and 100 times their sum; it grows with what is good and falls with what is bad; and a
measurement that is no worse has no worse status. -/
theorem healthScore_ordered (weights thresholds : List (String × Rat)) (budget : Rat)
    (hweights : (weightsOf weights).Nonneg) (hbudget : 0 < budget) :
    (∀ m : Measurement, m.InRange → 0 ≤ computeHealthScore weights budget m ∧
      computeHealthScore weights budget m ≤ 100 * (weightsOf weights).sum) ∧
    (∀ m : Measurement, Antitone fun l =>
      computeHealthScore weights budget { m with latencyMs := l }) ∧
    (∀ m : Measurement, Antitone fun r =>
      computeHealthScore weights budget { m with timeoutRate := r }) ∧
    (∀ m : Measurement, Monotone fun r =>
      computeHealthScore weights budget { m with successRate := r }) ∧
    (∀ m : Measurement, Monotone fun c =>
      computeHealthScore weights budget { m with connectivity := c }) ∧
    (∀ m : Measurement, Monotone fun x =>
      computeHealthScore weights budget { m with ipHealth := x }) ∧
    ∀ m m' : Measurement, m ≤ m' →
      statusFromScore thresholds (computeHealthScore weights budget m) ≤
        statusFromScore thresholds (computeHealthScore weights budget m') := by
  have hmono := computeHealthScore_mono hweights hbudget
  refine ⟨fun m h => computeHealthScore_range hweights h, fun m l l' h => ?_, fun m r r' h => ?_,
    fun m r r' h => ?_, fun m c c' h => ?_, fun m x x' h => ?_, fun m m' h => ?_⟩
  · exact hmono ⟨h, le_rfl, le_rfl, le_rfl, le_rfl⟩
  · exact hmono ⟨le_rfl, le_rfl, h, le_rfl, le_rfl⟩
  · exact hmono ⟨le_rfl, h, le_rfl, le_rfl, le_rfl⟩
  · exact hmono ⟨le_rfl, le_rfl, le_rfl, h, le_rfl⟩
  · exact hmono ⟨le_rfl, le_rfl, le_rfl, le_rfl, h⟩
  · exact statusFromScore_mono thresholds (hmono h)

/-- The default weights, a latency budget of 500 ms. -/
theorem healthScore_ordered_defaults :
    computeHealthScore [] 500 ⟨250, 1, 0, true, 80⟩ ≤ 100 * (weightsOf []).sum ∧
      statusFromScore [] (computeHealthScore [] 500 ⟨600, 1 / 2, 0, true, 80⟩) ≤
        statusFromScore [] (computeHealthScore [] 500 ⟨250, 1, 0, true, 80⟩) := by
  have hweights : (weightsOf []).Nonneg := by
    constructor <;> norm_num [weightsOf, setting]
  have hordered := healthScore_ordered [] [] 500 hweights (by norm_num)
  refine ⟨(hordered.1 ⟨250, 1, 0, true, 80⟩ ⟨?_, ?_, ?_, ?_⟩).2,
    hordered.2.2.2.2.2.2 _ _ ⟨?_, ?_, ?_, ?_, ?_⟩⟩ <;> norm_num

end Scoring

end BrokerBridge
