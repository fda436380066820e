import Mathlib.Algebra.Ring.Nat
import Mathlib.Data.List.Sort
import Mathlib.Order.Defs.LinearOrder

/-!
# The oldest first, in batches

Rows carry a stamp, and a batch is the `limit` rows with the smallest stamps. Rows
that are ahead of all others, a queue within the rows, are served in full by
consecutive batches, whatever comes in behind them: each batch either takes `limit`
of them or all that are left.
-/

namespace Conc

variable {α β : Type} [LinearOrder β] (stamp : α → β) (limit : Nat)

/-- The `limit` oldest rows, in order; rows of one age stay in the order they had. -/
def oldest (rows : List α) : List α :=
  (rows.insertionSort fun a b => stamp a ≤ stamp b).take limit

/-- Some of the rows, all of them older than any other row. -/
structure Ahead (rows waiting : List α) : Prop where
  mem : ∀ a ∈ waiting, a ∈ rows
  older : ∀ a ∈ waiting, ∀ b ∈ rows, b ∉ waiting → stamp a < stamp b

/-- What waits is ahead of all others when a batch is taken, and what the batch has
left of it is ahead of all others again, the next time. Each batch has a limit, and
the rows it is taken from. -/
def Queued [DecidableEq α] : List α → List (Nat × List α) → Prop
  | _, [] => True
  | waiting, (limit, rows) :: rounds =>
      rows.Nodup ∧ Ahead stamp rows waiting ∧
        Queued (waiting.filter fun a => a ∉ oldest stamp limit rows) rounds

variable {stamp limit} {rows waiting : List α}

theorem mem_of_mem_oldest {a : α} (h : a ∈ oldest stamp limit rows) : a ∈ rows :=
  (List.mem_insertionSort _).mp (List.mem_of_mem_take h)

theorem length_oldest : (oldest stamp limit rows).length = min limit rows.length := by
  unfold oldest
  rw [List.length_take, List.length_insertionSort]

theorem nodup_oldest (h : rows.Nodup) : (oldest stamp limit rows).Nodup := by
  have hsorted := (List.perm_insertionSort (fun a b => stamp a ≤ stamp b) rows).nodup_iff.mpr h
  exact hsorted.sublist (List.take_sublist _ _)

theorem nodup_map_oldest {γ : Type*} {f : α → γ} (h : (rows.map f).Nodup) :
    ((oldest stamp limit rows).map f).Nodup := by
  have hperm := (List.perm_insertionSort (fun a b => stamp a ≤ stamp b) rows).map f
  exact (hperm.nodup_iff.mpr h).sublist ((List.take_sublist _ _).map f)

theorem sorted_insertionSort :
    (rows.insertionSort fun a b => stamp a ≤ stamp b).Pairwise fun a b => stamp a ≤ stamp b := by
  have htotal : Std.Total fun a b : α => stamp a ≤ stamp b := ⟨fun a b => le_total _ _⟩
  have htrans : IsTrans α fun a b => stamp a ≤ stamp b := ⟨fun _ _ _ => le_trans⟩
  exact List.pairwise_insertionSort (fun a b => stamp a ≤ stamp b) rows

theorem sorted_oldest : (oldest stamp limit rows).Pairwise fun a b => stamp a ≤ stamp b :=
  sorted_insertionSort.sublist (List.take_sublist _ _)

/-- What a batch leaves is no older than what it takes. -/
theorem oldest_le {a b : α} (ha : a ∈ oldest stamp limit rows) (hb : b ∈ rows)
    (hleft : b ∉ oldest stamp limit rows) : stamp a ≤ stamp b := by
  have hsorted := @sorted_insertionSort α β _ stamp rows
  rw [← List.take_append_drop limit (rows.insertionSort fun a b => stamp a ≤ stamp b)] at hsorted
  have hb' := (List.mem_insertionSort fun a b => stamp a ≤ stamp b).mpr hb
  rw [← List.take_append_drop limit (rows.insertionSort fun a b => stamp a ≤ stamp b)] at hb'
  have hdrop := (List.mem_append.mp hb').resolve_left hleft
  exact (List.pairwise_append.mp hsorted).2.2 a ha b hdrop

section Served

variable [DecidableEq α]

/-- A batch takes `limit` of the rows ahead, or all of them. -/
theorem Ahead.length_left_le (h : Ahead stamp rows waiting) (hrows : rows.Nodup)
    (hwaiting : waiting.Nodup) :
    (waiting.filter fun a => a ∉ oldest stamp limit rows).length ≤ waiting.length - limit := by
  by_cases hall : ∀ a ∈ waiting, a ∈ oldest stamp limit rows
  · have hnil : (waiting.filter fun a => a ∉ oldest stamp limit rows) = [] :=
      List.filter_eq_nil_iff.mpr fun a ha => by simpa using hall a ha
    rw [hnil]
    exact Nat.zero_le _
  · -- One of them is left, so the batch is full, and full of rows no younger than it.
    obtain ⟨a, ha, hleft⟩ : ∃ a ∈ waiting, a ∉ oldest stamp limit rows := by
      simpa only [not_forall, exists_prop] using hall
    have hsub : ∀ b ∈ oldest stamp limit rows, b ∈ waiting := by
      intro b hb
      by_contra hout
      have hlt := h.older a ha b (mem_of_mem_oldest hb) hout
      have hle := oldest_le hb (h.mem a ha) hleft
      exact absurd hlt hle.not_gt
    have hfull : (oldest stamp limit rows).length = limit := by
      rw [length_oldest]
      by_contra hshort
      refine hleft ?_
      have htake : limit ≥ (rows.insertionSort fun a b => stamp a ≤ stamp b).length := by
        rw [List.length_insertionSort]
        omega
      rw [oldest, List.take_of_length_le htake]
      exact (List.mem_insertionSort _).mpr (h.mem a ha)
    have htaken : (waiting.filter fun a => a ∈ oldest stamp limit rows).Perm
        (oldest stamp limit rows) := by
      rw [List.perm_ext_iff_of_nodup (hwaiting.filter _) (nodup_oldest hrows)]
      intro b
      rw [List.mem_filter]
      exact ⟨fun hb => by simpa using hb.2, fun hb => ⟨hsub b hb, by simpa using hb⟩⟩
    have hsplit := List.length_eq_length_filter_add (l := waiting)
      fun a => decide (a ∈ oldest stamp limit rows)
    have hneg : (waiting.filter fun a => !decide (a ∈ oldest stamp limit rows)).length =
        (waiting.filter fun a => a ∉ oldest stamp limit rows).length := by
      simp only [decide_not]
    rw [htaken.length_eq, hfull, hneg] at hsplit
    omega

/-- Enough batches serve all that waits. -/
theorem Queued.served {rounds : List (Nat × List α)} (h : Queued stamp waiting rounds)
    (hwaiting : waiting.Nodup) (hlen : waiting.length ≤ (rounds.map (·.1)).sum) :
    ∀ a ∈ waiting, ∃ round ∈ rounds, a ∈ oldest stamp round.1 round.2 := by
  induction rounds generalizing waiting with
  | nil =>
      intro a ha
      have hnil : waiting = [] := List.eq_nil_of_length_eq_zero (by simpa using hlen)
      rw [hnil] at ha
      cases ha
  | cons round rounds ih =>
      obtain ⟨limit, rows⟩ := round
      obtain ⟨hrows, hahead, hrest⟩ := h
      intro a ha
      by_cases hserved : a ∈ oldest stamp limit rows
      · exact ⟨(limit, rows), List.mem_cons_self, hserved⟩
      · have hleft := @Ahead.length_left_le α β _ stamp limit rows waiting _ hahead hrows hwaiting
        have hfew : (waiting.filter fun a => a ∉ oldest stamp limit rows).length ≤
            (rounds.map (·.1)).sum := by
          rw [List.map_cons, List.sum_cons] at hlen
          omega
        obtain ⟨round, hround, hmem⟩ := ih hrest (hwaiting.filter _) hfew a
          (List.mem_filter.mpr ⟨ha, by simpa using hserved⟩)
        exact ⟨round, List.mem_cons_of_mem _ hround, hmem⟩

end Served

end Conc
