import Mathlib.Algebra.Order.Floor.Ring
import Mathlib.Data.Int.Log
import Mathlib.Data.Rat.Floor
import Mathlib.Tactic.Linarith
import Mathlib.Tactic.NormNum
import Mathlib.Tactic.Positivity
import Mathlib.Tactic.Ring

/-!
# Rounding to double precision

The numbers of IEEE 754's binary64 format, as rational numbers: `double x` is the number of the
format that is nearest to `x`, the one with the even significand of two that are as near. An
operation on doubles is the operation on rationals, rounded.

There is no largest exponent here, so nothing overflows, and a zero has no sign.

What proofs need of rounding is that it keeps the order (`double_mono`) and the numbers of the
format (`double_double`), and when it changes nothing (`isDouble_of_grid`).
-/

namespace Binary64

/-- The nearest integer, the even one of two. -/
def nearestInt (y : Rat) : Int :=
  if Int.fract y < 1 / 2 then ⌊y⌋
  else if 1 / 2 < Int.fract y then ⌊y⌋ + 1
  else ⌊y⌋ + ⌊y⌋ % 2

/-- The exponent of the last of 53 binary places, or of the smallest one there is. -/
def lastPlace (x : Rat) : Int := max (Int.log 2 x - 52) (-1074)

/-- Rounding of a number that is not negative. -/
def nearest (x : Rat) : Rat := nearestInt (x / 2 ^ lastPlace x) * 2 ^ lastPlace x

def double (x : Rat) : Rat := if x < 0 then -nearest (-x) else nearest x

/-- A number of the format. -/
def IsDouble (x : Rat) : Prop := double x = x

instance (x : Rat) : Decidable (IsDouble x) := inferInstanceAs (Decidable (double x = x))

/-! ## To integers -/

section Integers

variable {y z : Rat} {n : Int}

theorem floor_le_nearestInt (y : Rat) : ⌊y⌋ ≤ nearestInt y := by
  have hmod := Int.emod_nonneg ⌊y⌋ (show (2 : Int) ≠ 0 by decide)
  unfold nearestInt
  split
  · exact le_refl _
  · split
    · exact le_of_lt (Int.lt_succ _)
    · exact le_add_of_nonneg_right hmod

theorem nearestInt_le_floor (y : Rat) : nearestInt y ≤ ⌊y⌋ + 1 := by
  have hmod := Int.emod_lt_of_pos ⌊y⌋ (show (0 : Int) < 2 by decide)
  unfold nearestInt
  split
  · exact le_of_lt (Int.lt_succ _)
  · split
    · exact le_refl _
    · exact Int.add_le_add_left (Int.lt_add_one_iff.mp hmod) _

theorem nearestInt_intCast (n : Int) : nearestInt n = n := by
  unfold nearestInt
  rw [Int.fract_intCast, Int.floor_intCast]
  exact if_pos one_half_pos

theorem nearestInt_mono (h : y ≤ z) : nearestInt y ≤ nearestInt z := by
  obtain hlt | heq := lt_or_eq_of_le (Int.floor_le_floor h)
  · exact (nearestInt_le_floor y).trans (hlt.trans_le (floor_le_nearestInt z))
  · -- Between two integers only the fraction counts.
    have hfract : Int.fract y ≤ Int.fract z := by
      unfold Int.fract
      rw [heq]
      exact sub_le_sub_right h _
    unfold nearestInt
    rw [heq]
    have hmod := Int.emod_nonneg ⌊z⌋ (show (2 : Int) ≠ 0 by decide)
    have hmod' := Int.emod_lt_of_pos ⌊z⌋ (show (0 : Int) < 2 by decide)
    split_ifs <;> first | omega | linarith

theorem nearestInt_le (h : y ≤ n) : nearestInt y ≤ n := by
  rw [← nearestInt_intCast n]
  exact nearestInt_mono h

theorem le_nearestInt (h : (n : Rat) ≤ y) : n ≤ nearestInt y := by
  rw [← nearestInt_intCast n]
  exact nearestInt_mono h

end Integers

/-! ## To the format -/

section Format

variable {x y : Rat} {m k : Int}

theorem two_zpow_pos (k : Int) : (0 : Rat) < 2 ^ k := zpow_pos two_pos k

theorem nearest_zero : nearest 0 = 0 := by
  unfold nearest
  rw [zero_div, ← Int.cast_zero, nearestInt_intCast, Int.cast_zero, zero_mul]

theorem nearest_nonneg (h : 0 ≤ x) : 0 ≤ nearest x := by
  have hscaled : ((0 : Int) : Rat) ≤ x / 2 ^ lastPlace x := by
    rw [Int.cast_zero]
    exact div_nonneg h (two_zpow_pos _).le
  have hround : (0 : Rat) ≤ nearestInt (x / 2 ^ lastPlace x) := by
    exact_mod_cast le_nearestInt hscaled
  exact mul_nonneg hround (two_zpow_pos _).le

/-- All of 53 places are enough for a number below this. -/
theorem lt_two_zpow_lastPlace (h : 0 ≤ x) : x < 2 ^ (lastPlace x + 53) := by
  obtain rfl | hpos := h.eq_or_lt
  · exact two_zpow_pos _
  have hlog : x < ((2 : Nat) : Rat) ^ (Int.log 2 x + 1) := Int.lt_zpow_succ_log_self one_lt_two x
  rw [Nat.cast_ofNat] at hlog
  refine hlog.trans_le (zpow_le_zpow_right₀ one_le_two ?_)
  have hle : Int.log 2 x - 52 ≤ lastPlace x := le_max_left _ _
  omega

theorem nearest_le_zpow (h : 0 ≤ x) : nearest x ≤ 2 ^ (lastPlace x + 53) := by
  have hscaled : x / 2 ^ lastPlace x ≤ ((2 ^ 53 : Int) : Rat) := by
    rw [div_le_iff₀ (two_zpow_pos _)]
    refine (lt_two_zpow_lastPlace h).le.trans (le_of_eq ?_)
    rw [zpow_add₀ two_ne_zero, mul_comm]
    norm_num
  have hround : (nearestInt (x / 2 ^ lastPlace x) : Rat) ≤ 2 ^ 53 := by
    exact_mod_cast nearestInt_le hscaled
  calc nearest x ≤ 2 ^ 53 * 2 ^ lastPlace x :=
        mul_le_mul_of_nonneg_right hround (two_zpow_pos _).le
    _ = 2 ^ (lastPlace x + 53) := by
        rw [zpow_add₀ two_ne_zero, mul_comm]
        norm_num

/-- Where the exponent is not the smallest, the first place is taken. -/
theorem zpow_le_nearest (h : 0 < x) (hplace : -1074 < lastPlace x) :
    2 ^ (lastPlace x + 52) ≤ nearest x := by
  have hlast : lastPlace x = Int.log 2 x - 52 := by
    unfold lastPlace at hplace ⊢
    omega
  have hlog : ((2 : Nat) : Rat) ^ Int.log 2 x ≤ x := Int.zpow_log_le_self one_lt_two h
  have hscaled : (((2 ^ 52 : Int)) : Rat) ≤ x / 2 ^ lastPlace x := by
    rw [le_div_iff₀ (two_zpow_pos _)]
    refine le_trans (le_of_eq ?_) hlog
    rw [hlast, zpow_sub₀ two_ne_zero, Int.cast_pow, Int.cast_ofNat, Nat.cast_ofNat]
    exact mul_div_cancel₀ _ (by norm_num)
  have hround : (2 ^ 52 : Rat) ≤ nearestInt (x / 2 ^ lastPlace x) := by
    exact_mod_cast le_nearestInt hscaled
  calc (2 : Rat) ^ (lastPlace x + 52) = 2 ^ 52 * 2 ^ lastPlace x := by
        rw [zpow_add₀ two_ne_zero, mul_comm]
        norm_num
    _ ≤ nearest x := mul_le_mul_of_nonneg_right hround (two_zpow_pos _).le

theorem nearest_mono (hx : 0 ≤ x) (h : x ≤ y) : nearest x ≤ nearest y := by
  obtain rfl | hpos := hx.eq_or_lt
  · rw [nearest_zero]
    exact nearest_nonneg h
  have hplace : lastPlace x ≤ lastPlace y :=
    max_le_max_right _ (Int.sub_le_sub_right (Int.log_mono_right hpos h) 52)
  obtain heq | hlt := hplace.eq_or_lt
  · unfold nearest
    rw [heq]
    have hscaled : x / 2 ^ lastPlace y ≤ y / 2 ^ lastPlace y :=
      div_le_div_of_nonneg_right h (two_zpow_pos _).le
    refine mul_le_mul_of_nonneg_right ?_ (two_zpow_pos _).le
    exact_mod_cast nearestInt_mono hscaled
  · -- A power of two lies between.
    have hleast : -1074 ≤ lastPlace x := le_max_right _ _
    calc nearest x ≤ 2 ^ (lastPlace x + 53) := nearest_le_zpow hx
      _ ≤ 2 ^ (lastPlace y + 52) := zpow_le_zpow_right₀ one_le_two (by omega)
      _ ≤ nearest y := zpow_le_nearest (hpos.trans_le h) (hleast.trans_lt hlt)

/-- Rounding keeps the order. -/
theorem double_mono (h : x ≤ y) : double x ≤ double y := by
  unfold double
  split
  · next hx =>
      split
      · next hy =>
          have hneg : -y ≤ -x := neg_le_neg h
          exact neg_le_neg (nearest_mono (neg_pos.mpr hy).le hneg)
      · next hy =>
          have hxpos := nearest_nonneg (neg_pos.mpr hx).le
          have hypos := nearest_nonneg (not_lt.mp hy)
          linarith
  · next hx =>
      rw [if_neg (not_lt.mpr ((not_lt.mp hx).trans h))]
      exact nearest_mono (not_lt.mp hx) h

theorem double_neg (x : Rat) : double (-x) = -double x := by
  unfold double
  obtain hx | rfl | hx := lt_trichotomy x 0
  · rw [if_neg (not_lt.mpr (neg_pos.mpr hx).le), if_pos hx, neg_neg]
  · simp [nearest_zero]
  · rw [if_pos (neg_neg_iff_pos.mpr hx), if_neg (not_lt.mpr hx.le), neg_neg]

/-! ## What is in it -/

/-- Fewer than 54 places, the last one not below the smallest. -/
theorem nearest_of_grid (hm : 0 ≤ m) (hlt : m < 2 ^ 53) (hk : -1074 ≤ k) :
    nearest (m * 2 ^ k) = m * 2 ^ k := by
  obtain rfl | hpos := hm.eq_or_lt
  · rw [Int.cast_zero, zero_mul, nearest_zero]
  have hmpos : (0 : Rat) < m := by exact_mod_cast hpos
  have hx : (0 : Rat) < m * 2 ^ k := mul_pos hmpos (two_zpow_pos k)
  have hplace : lastPlace (m * 2 ^ k) ≤ k := by
    have hlog : ((2 : Nat) : Rat) ^ Int.log 2 ((m : Rat) * 2 ^ k) ≤ m * 2 ^ k :=
      Int.zpow_log_le_self one_lt_two hx
    have hbound : (m : Rat) * 2 ^ k < 2 ^ (53 + k) := by
      rw [zpow_add₀ two_ne_zero]
      refine mul_lt_mul_of_pos_right ?_ (two_zpow_pos k)
      exact_mod_cast hlt
    have hless : Int.log 2 ((m : Rat) * 2 ^ k) < 53 + k := by
      rw [Nat.cast_ofNat] at hlog
      exact (zpow_lt_zpow_iff_right₀ one_lt_two).mp (hlog.trans_lt hbound)
    exact max_le (by omega) hk
  -- In units of the last place it is an integer.
  obtain ⟨n, hn⟩ := Int.eq_ofNat_of_zero_le (sub_nonneg.mpr hplace)
  have hscaled : (m : Rat) * 2 ^ k / 2 ^ lastPlace ((m : Rat) * 2 ^ k) =
      ((m * 2 ^ n : Int) : Rat) := by
    rw [mul_div_assoc, ← zpow_sub₀ two_ne_zero, hn, zpow_natCast]
    push_cast
    rfl
  unfold nearest
  rw [hscaled, nearestInt_intCast, ← hscaled, div_mul_cancel₀ _ (two_zpow_pos _).ne']

theorem isDouble_of_grid (hm : |m| < 2 ^ 53) (hk : -1074 ≤ k) : IsDouble (m * 2 ^ k) := by
  obtain ⟨hlow, hhigh⟩ := abs_lt.mp hm
  unfold IsDouble double
  split
  · next hneg =>
      have hnonneg : 0 ≤ -m := by
        have hm' : (m : Rat) < 0 := neg_of_mul_neg_left hneg (two_zpow_pos k).le
        have hm'' : m < 0 := by exact_mod_cast hm'
        omega
      have hkept := nearest_of_grid hnonneg (by omega) hk
      rw [Int.cast_neg, neg_mul] at hkept
      rw [hkept, neg_neg]
  · next hnonneg =>
      refine nearest_of_grid ?_ hhigh hk
      have hm' := nonneg_of_mul_nonneg_left (not_lt.mp hnonneg) (two_zpow_pos k)
      exact_mod_cast hm'

theorem nearest_nearest (h : 0 ≤ x) : nearest (nearest x) = nearest x := by
  have hnonneg : 0 ≤ nearestInt (x / 2 ^ lastPlace x) :=
    le_nearestInt (by rw [Int.cast_zero]; exact div_nonneg h (two_zpow_pos _).le)
  have hle : nearestInt (x / 2 ^ lastPlace x) ≤ 2 ^ 53 := by
    refine nearestInt_le ?_
    rw [div_le_iff₀ (two_zpow_pos _)]
    refine (lt_two_zpow_lastPlace h).le.trans (le_of_eq ?_)
    rw [zpow_add₀ two_ne_zero, mul_comm]
    norm_num
  have hleast : -1074 ≤ lastPlace x := le_max_right _ _
  obtain hlt | heq := lt_or_eq_of_le hle
  · exact nearest_of_grid hnonneg hlt hleast
  · -- One place more: a power of two.
    have hpower : nearest x = ((2 ^ 52 : Int) : Rat) * 2 ^ (lastPlace x + 1) := by
      unfold nearest
      rw [heq, zpow_add₀ two_ne_zero]
      norm_num
      ring
    rw [hpower]
    exact nearest_of_grid (by positivity) (by norm_num) (by omega)

/-- What has been rounded is not changed any more. -/
theorem double_double (x : Rat) : IsDouble (double x) := by
  have hmain : ∀ y, 0 ≤ y → double (nearest y) = nearest y := fun y hy => by
    unfold double
    rw [if_neg (not_lt.mpr (nearest_nonneg hy)), nearest_nearest hy]
  unfold IsDouble
  by_cases hx : x < 0
  · have hneg : double x = -nearest (-x) := if_pos hx
    rw [hneg, double_neg, hmain _ (neg_pos.mpr hx).le]
  · have hpos : double x = nearest x := if_neg hx
    rw [hpos, hmain _ (not_lt.mp hx)]

/-- A number of the format is on the same side of `x` as of `double x`. -/
theorem le_double_of_le (hy : IsDouble y) (h : y ≤ x) : y ≤ double x := by
  have hle := double_mono h
  rwa [hy] at hle

theorem double_le_of_le (hy : IsDouble y) (h : x ≤ y) : double x ≤ y := by
  have hle := double_mono h
  rwa [hy] at hle

end Format

end Binary64
