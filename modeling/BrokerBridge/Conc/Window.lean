import Mathlib.Algebra.Order.Group.Defs
import Mathlib.Data.List.Basic
import Mathlib.Tactic.Abel

/-!
# Events in sliding windows

Times of events, and how many of them a window of a given width can hold. The windows
are open where they begin and closed where they end, as those of a limiter that forgets
an event once it is as old as the window is wide.
-/

namespace Conc

variable {α : Type*} [AddCommGroup α] [LinearOrder α]

/-- How many of the times lie in the window of width `w` that ends at `t`. -/
def countIn (w t : α) (ts : List α) : Nat := ts.countP fun s => t - w < s ∧ s ≤ t

/-- No window of width `w` holds more than `n` of the times. -/
def Sparse (w : α) (n : Nat) (ts : List α) : Prop := ∀ t, countIn w t ts ≤ n

/-- The times that are younger than `w`. -/
def younger (w now : α) (ts : List α) : List α := ts.filter fun s => now - w < s

theorem sparse_nil (w : α) (n : Nat) : Sparse w n [] := fun _ => Nat.zero_le _

/-- A last event, when the window that ends with it has room. -/
theorem Sparse.cons [IsOrderedAddMonoid α] {w now : α} {n : Nat} {ts : List α}
    (h : Sparse w n ts) (hroom : (younger w now ts).length < n) :
    Sparse w n (now :: ts) := by
  intro t
  rw [countIn, List.countP_cons]
  split
  · next hnow =>
      obtain ⟨-, hle⟩ := of_decide_eq_true hnow
      have hfewer : countIn w t ts ≤ (younger w now ts).length := by
        rw [younger, ← List.countP_eq_length_filter]
        refine List.countP_mono_left fun s _ hs => ?_
        have hlow := (of_decide_eq_true hs).1
        exact decide_eq_true (lt_of_le_of_lt (sub_le_sub_right hle w) hlow)
      exact Nat.succ_le_of_lt (Nat.lt_of_le_of_lt hfewer hroom)
  · exact h t

end Conc
