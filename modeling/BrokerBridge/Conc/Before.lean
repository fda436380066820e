import Mathlib.Data.List.Sort

/-!
# Which of two comes first in a list

`Before l a b` says that `a` stands somewhere before `b`. In a list without repetitions it is
a strict order of the members, and a stable sort is described by it: what has the greater
key comes first, and equal keys keep their order.
-/

namespace Conc

variable {α β : Type*} {l : List α} {a b : α}

def Before (l : List α) (a b : α) : Prop := [a, b].Sublist l

theorem Before.mem_left (h : Before l a b) : a ∈ l := h.subset (by simp)

theorem Before.mem_right (h : Before l a b) : b ∈ l := h.subset (by simp)

theorem before_cons_self (h : b ∈ l) : Before (a :: l) a b :=
  (List.singleton_sublist.mpr h).cons_cons a

theorem Before.cons (h : Before l a b) (x : α) : Before (x :: l) a b := List.Sublist.cons x h

/-- Only what comes after the head is before anything but by being the head. -/
theorem before_cons_iff {x : α} (h : a ≠ x) : Before (x :: l) a b ↔ Before l a b := by
  refine ⟨fun hab => ?_, fun hab => hab.cons x⟩
  cases hab with
  | cons _ h' => exact h'
  | cons_cons _ h' => exact absurd rfl h

theorem before_or (ha : a ∈ l) (hb : b ∈ l) (hne : a ≠ b) : Before l a b ∨ Before l b a := by
  induction l with
  | nil => cases ha
  | cons x xs ih =>
      rcases List.mem_cons.mp ha with rfl | ha'
      · have hb' := (List.mem_cons.mp hb).resolve_left (Ne.symm hne)
        exact .inl (before_cons_self hb')
      · rcases List.mem_cons.mp hb with rfl | hb'
        · exact .inr (before_cons_self ha')
        · exact (ih ha' hb').imp (·.cons x) (·.cons x)

theorem Before.asymm (hn : l.Nodup) (h : Before l a b) : ¬ Before l b a := by
  intro h'
  induction l with
  | nil => cases h
  | cons x xs ih =>
      rw [List.nodup_cons] at hn
      by_cases ha : a = x
      · subst ha
        by_cases hb : b = a
        · subst hb
          have hmem : b ∈ xs := by
            cases h with
            | cons _ h => exact h.subset (by simp)
            | cons_cons _ h => exact List.singleton_sublist.mp h
          exact hn.1 hmem
        · exact hn.1 ((before_cons_iff hb).mp h').mem_right
      · have hxs := (before_cons_iff ha).mp h
        by_cases hb : b = x
        · subst hb
          exact hn.1 hxs.mem_right
        · exact ih hn.2 hxs ((before_cons_iff hb).mp h')

theorem Before.filterMap {f : α → Option β} {a' b' : β} (h : Before l a b) (ha : f a = some a')
    (hb : f b = some b') : Before (l.filterMap f) a' b' := by
  have hsub := List.Sublist.filterMap f h
  rwa [List.filterMap_cons_some ha, List.filterMap_cons_some hb, List.filterMap_nil] at hsub

theorem before_filter_iff {p : α → Bool} (ha : p a = true) (hb : p b = true) :
    Before (l.filter p) a b ↔ Before l a b := by
  refine ⟨fun h => h.trans List.filter_sublist, fun h => ?_⟩
  have hsub := List.Sublist.filter p h
  rwa [List.filter_cons_of_pos ha, List.filter_cons_of_pos hb, List.filter_nil] at hsub

/-- A stable sort by descending keys. -/
theorem before_insertionSort_iff [LinearOrder β] {key : α → β} (hn : l.Nodup) (ha : a ∈ l)
    (hb : b ∈ l) (hne : a ≠ b) :
    Before (l.insertionSort fun x y => key y ≤ key x) a b ↔
      key b < key a ∨ key a = key b ∧ Before l a b := by
  have : Std.Total fun x y : α => key y ≤ key x := ⟨fun x y => le_total (key y) (key x)⟩
  have : IsTrans α fun x y => key y ≤ key x := ⟨fun x y z hxy hyz => le_trans hyz hxy⟩
  have hperm := List.perm_insertionSort (fun x y => key y ≤ key x) l
  have hnodup := hperm.nodup_iff.mpr hn
  have hsorted := List.pairwise_insertionSort (fun x y => key y ≤ key x) l
  have hle : ∀ {x y}, Before (l.insertionSort fun x y => key y ≤ key x) x y → key y ≤ key x :=
    fun h => List.pairwise_iff_forall_sublist.mp hsorted h
  constructor
  · intro h
    rcases lt_or_eq_of_le (hle h) with hlt | heq
    · exact .inl hlt
    · refine .inr ⟨heq.symm, (before_or ha hb hne).resolve_right fun hba => ?_⟩
      exact h.asymm hnodup (List.pair_sublist_insertionSort heq.ge hba)
  · rintro (hlt | ⟨heq, hab⟩)
    · refine (before_or (hperm.mem_iff.mpr ha) (hperm.mem_iff.mpr hb) hne).resolve_right fun h => ?_
      exact absurd (hle h) (not_le_of_gt hlt)
    · exact List.pair_sublist_insertionSort heq.ge hab

end Conc
