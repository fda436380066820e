import Mathlib.Data.List.Count
import Mathlib.Data.List.Perm.Basic
import Mathlib.Data.List.Sort
import Mathlib.Order.Basic

/-!
# Windows of sorted answers

Rows are listed by a key, greatest first, and each answer may put the rows of one key in
any order. A window is a stretch of an answer, from one offset to another. Windows of
different answers fit together where no key has rows on both sides of the offset: up to
there, and from there on, any two answers have the same rows. Where a key has rows on both
sides, two answers can be made that do not fit.
-/

namespace Conc

variable {α β : Type} [LinearOrder β] (key : α → β)

/-- The rows, in an order that the key allows. -/
structure Lists (rows l : List α) : Prop where
  perm : l.Perm rows
  sorted : l.Pairwise fun a b => key b ≤ key a

/-- The rows with a greater key. -/
def above (rows : List α) (t : β) : List α := rows.filter fun a => t < key a

/-- The rows with this key. -/
def level (rows : List α) (t : β) : List α := rows.filter fun a => key a = t

/-- Rows of one key are on both sides of the offset, in every answer. -/
def Straddles (rows : List α) (offset : Nat) (t : β) : Prop :=
  (above key rows t).length < offset ∧
    offset < (above key rows t).length + (level key rows t).length

variable {key} {rows l l' : List α} {offset : Nat} {t : β}

/-- A sorted list falls into what is above a key, at it and below it. -/
theorem sorted_split (h : l.Pairwise fun a b => key b ≤ key a) (t : β) :
    l = above key l t ++ (level key l t ++ l.filter fun a => key a < t) := by
  induction l with
  | nil => rfl
  | cons a l ih =>
      rw [List.pairwise_cons] at h
      obtain ⟨hhead, htail⟩ := h
      have hsplit := ih htail
      unfold above level at hsplit ⊢
      rcases lt_trichotomy t (key a) with hlt | heq | hgt
      · have h1 : decide (t < key a) = true := decide_eq_true hlt
        have h2 : decide (key a = t) = false := decide_eq_false hlt.ne'
        have h3 : decide (key a < t) = false := decide_eq_false (lt_asymm hlt)
        simp only [List.filter_cons, h1, h2, h3, if_true, Bool.false_eq_true, if_false,
          List.cons_append]
        rw [← hsplit]
      · have hnone : l.filter (fun b => decide (t < key b)) = [] :=
          List.filter_eq_nil_iff.mpr fun b hb => by
            rw [decide_eq_true_eq, heq]
            exact not_lt.mpr (hhead b hb)
        have h1 : decide (t < key a) = false := decide_eq_false (heq ▸ lt_irrefl _)
        have h2 : decide (key a = t) = true := decide_eq_true heq.symm
        have h3 : decide (key a < t) = false := decide_eq_false (heq ▸ lt_irrefl _)
        rw [hnone, List.nil_append] at hsplit
        simp only [List.filter_cons, h1, h2, h3, if_true, Bool.false_eq_true, if_false, hnone,
          List.nil_append, List.cons_append]
        rw [← hsplit]
      · have hnone : l.filter (fun b => decide (t < key b)) = [] :=
          List.filter_eq_nil_iff.mpr fun b hb => by
            rw [decide_eq_true_eq]
            exact not_lt.mpr (le_trans (hhead b hb) (le_of_lt hgt))
        have hnone' : l.filter (fun b => decide (key b = t)) = [] :=
          List.filter_eq_nil_iff.mpr fun b hb => by
            rw [decide_eq_true_eq]
            exact ne_of_lt (lt_of_le_of_lt (hhead b hb) hgt)
        have h1 : decide (t < key a) = false := decide_eq_false (lt_asymm hgt)
        have h2 : decide (key a = t) = false := decide_eq_false (ne_of_lt hgt)
        have h3 : decide (key a < t) = true := decide_eq_true hgt
        rw [hnone, hnone', List.nil_append, List.nil_append] at hsplit
        simp only [List.filter_cons, h1, h2, h3, if_true, Bool.false_eq_true, if_false, hnone,
          hnone', List.nil_append]
        rw [← hsplit]

theorem Lists.above_perm (h : Lists key rows l) (t : β) : (above key l t).Perm (above key rows t) :=
  h.perm.filter _

theorem Lists.level_perm (h : Lists key rows l) (t : β) : (level key l t).Perm (level key rows t) :=
  h.perm.filter _

theorem Lists.length_eq (h : Lists key rows l) : l.length = rows.length := h.perm.length_eq

open Classical in
/-- How often a row is before the offset: not at all or as often as it is there, unless
its key has rows on both sides. -/
theorem Lists.count_take (h : Lists key rows l) {a : α}
    (hno : ¬ Straddles key rows offset (key a)) :
    (l.take offset).count a =
      if offset ≤ (above key rows (key a)).length then 0 else rows.count a := by
  have hsplit := sorted_split h.sorted (key a)
  have habove : (above key l (key a)).length = (above key rows (key a)).length :=
    (h.above_perm _).length_eq
  have hlevel : (level key l (key a)).length = (level key rows (key a)).length :=
    (h.level_perm _).length_eq
  have hnotabove : a ∉ above key l (key a) := by
    intro hmem
    exact lt_irrefl _ (of_decide_eq_true (List.mem_filter.mp hmem).2)
  split
  · next hle =>
      rw [← habove] at hle
      rw [hsplit, List.take_append_of_le_length hle]
      exact List.count_eq_zero.mpr fun hmem => hnotabove (List.mem_of_mem_take hmem)
  · next hgt =>
      have hge : (above key l (key a)).length + (level key l (key a)).length ≤ offset := by
        unfold Straddles at hno
        omega
      have hbelow : a ∉ l.filter fun b => key b < key a := by
        intro hmem
        exact lt_irrefl _ (of_decide_eq_true (List.mem_filter.mp hmem).2)
      have hrows : rows.count a = l.count a := (h.perm.count_eq a).symm
      have hrest : a ∉ l.drop offset := by
        intro hmem
        rw [hsplit, ← List.append_assoc] at hmem
        rw [List.drop_append, List.drop_eq_nil_of_le (by rw [List.length_append]; exact hge),
          List.nil_append] at hmem
        exact hbelow (List.mem_of_mem_drop hmem)
      have hcount := congrArg (List.count a) (List.take_append_drop offset l)
      rw [List.count_append, List.count_eq_zero.mpr hrest] at hcount
      omega

/-- Where no key straddles, two answers have the same rows from there on. -/
theorem Lists.drop_perm (h : Lists key rows l) (h' : Lists key rows l')
    (hno : ∀ t, ¬ Straddles key rows offset t) : (l.drop offset).Perm (l'.drop offset) := by
  classical
  refine List.perm_iff_count.mpr fun a => ?_
  have hl := congrArg (List.count a) (List.take_append_drop offset l)
  have hl' := congrArg (List.count a) (List.take_append_drop offset l')
  rw [List.count_append, h.count_take (hno _), h.perm.count_eq a] at hl
  rw [List.count_append, h'.count_take (hno _), h'.perm.count_eq a] at hl'
  omega

/-! ## Two answers that do not fit -/

variable (key rows offset) in
/-- Two answers that differ in the rows on both sides of the offset. -/
structure Swapped (l l' : List α) : Prop where
  first : Lists key rows l
  second : Lists key rows l'
  apart : ∃ front x y back, front.length + 1 = offset ∧ l = front ++ x :: y :: back ∧
    l' = front ++ y :: x :: back

theorem lists_insertionSort (key : α → β) (rows : List α) :
    Lists key rows (rows.insertionSort fun a b => key b ≤ key a) := by
  have htotal : Std.Total fun a b : α => key b ≤ key a := ⟨fun a b => le_total _ _⟩
  have htrans : IsTrans α fun a b => key b ≤ key a := ⟨fun _ _ _ h h' => le_trans h' h⟩
  exact ⟨List.perm_insertionSort _ rows, List.pairwise_insertionSort _ rows⟩

/-- Neighbours with one key may change places. -/
theorem Lists.swap {front back : List α} {x y : α} (h : Lists key rows (front ++ x :: y :: back))
    (hxy : key x = key y) : Lists key rows (front ++ y :: x :: back) := by
  refine ⟨((List.Perm.swap x y back).append_left front).trans h.perm, ?_⟩
  have hsorted := h.sorted
  simp only [List.pairwise_append, List.pairwise_cons, List.mem_cons, forall_eq_or_imp]
    at hsorted ⊢
  obtain ⟨hfront, ⟨⟨_, hx⟩, hy, hback⟩, hcross⟩ := hsorted
  refine ⟨hfront, ⟨⟨hxy ▸ le_rfl, hy⟩, hx, hback⟩, fun a ha => ?_⟩
  obtain ⟨hax, hay, hrest⟩ := hcross a ha
  exact ⟨hay, hax, hrest⟩

theorem exists_swapped (h : Straddles key rows offset t) :
    ∃ l l', Swapped key rows offset l l' := by
  have hlists := lists_insertionSort key rows
  generalize (rows.insertionSort fun a b => key b ≤ key a) = l at hlists
  have hsplit := sorted_split hlists.sorted t
  have habove := (hlists.above_perm t).length_eq
  have hlevel := (hlists.level_perm t).length_eq
  obtain ⟨hlow, hhigh⟩ := h
  have hkeys : ∀ a ∈ level key l t, key a = t := fun a ha =>
    of_decide_eq_true (List.mem_filter.mp ha).2
  -- the two rows of the key on both sides of the offset
  obtain ⟨j, hj⟩ : ∃ j, (above key l t).length + j + 1 = offset :=
    ⟨offset - (above key l t).length - 1, by omega⟩
  have hlen : j + 1 < (level key l t).length := by omega
  have hcut : level key l t = (level key l t).take j ++
      (level key l t)[j] :: (level key l t)[j + 1] :: (level key l t).drop (j + 2) := by
    rw [List.getElem_cons_drop, List.getElem_cons_drop, List.take_append_drop]
  have hl : l = (above key l t ++ (level key l t).take j) ++ (level key l t)[j] ::
      (level key l t)[j + 1] ::
        ((level key l t).drop (j + 2) ++ l.filter fun a => key a < t) := by
    conv_lhs => rw [hsplit, hcut]
    simp only [List.append_assoc, List.cons_append]
  have hsame : key (level key l t)[j] = key (level key l t)[j + 1] :=
    (hkeys _ (List.getElem_mem _)).trans (hkeys _ (List.getElem_mem _)).symm
  refine ⟨l, _, hlists, (hl ▸ hlists).swap hsame, _, _, _, _, ?_, hl, rfl⟩
  rw [List.length_append, List.length_take]
  omega

end Conc
