import Mathlib.Data.List.Nodup

/-!
# Keyed tables

A table is a list of rows with a primary key: no two rows share it, and the
table carries the proof. A row type says what its key is and which fields an
update may set; no update changes the key, so updating keeps a table a table.
Inserting a row whose key is taken is refused.

Rows keep the order they were inserted in. A lookup by key finds the row, the
only one there is.
-/

namespace Conc

/-- A type of rows: its key, the fields an update sets, and what setting one
does. -/
class Row (α : Type) where
  key : α → Nat
  Field : Type
  set : Field → α → α
  key_set : ∀ f a, key (set f a) = key a

/-- Rows with pairwise different keys. -/
@[ext] structure Table (α : Type) [Row α] where
  rows : List α := []
  nodup : (rows.map Row.key).Nodup := by exact List.nodup_nil

namespace Table

variable {α : Type} [Row α] (t : Table α) (k : Nat)

/-- The table of these rows, whose keys are compared. -/
def of (rows : List α) (h : decide (rows.map Row.key).Nodup = true := by exact Eq.refl true) :
    Table α where
  rows := rows
  nodup := of_decide_eq_true h

/-- The row with key `k`. -/
def get? : Option α := t.rows.find? fun a => Row.key a == k

/-- Set a field of the row with key `k`, if there is one. -/
def update (f : Row.Field α) : Table α where
  rows := t.rows.map fun a => if Row.key a = k then Row.set f a else a
  nodup := by
    have hk : (Row.key ∘ fun a : α => if Row.key a = k then Row.set f a else a) = Row.key := by
      funext a
      show Row.key (if Row.key a = k then Row.set f a else a) = Row.key a
      split
      · exact Row.key_set f a
      · rfl
    rw [List.map_map, hk]
    exact t.nodup

/-- Add a row, unless its key is taken. -/
def insert (a : α) : Table α :=
  if h : Row.key a ∈ t.rows.map Row.key then t
  else
    { rows := t.rows ++ [a]
      nodup := by
        rw [List.map_append, List.map_singleton]
        exact t.nodup.append (List.nodup_singleton _)
          (List.disjoint_singleton.mpr h) }

variable {t k}

theorem get?_eq_some {a : α} : t.get? k = some a ↔ a ∈ t.rows ∧ Row.key a = k := by
  obtain ⟨rows, hd⟩ := t
  induction rows with
  | nil => simp [get?]
  | cons b rows ih =>
      have hd' : Row.key b ∉ rows.map Row.key ∧ (rows.map Row.key).Nodup := by
        rwa [List.map_cons, List.nodup_cons] at hd
      have ih' := ih hd'.2
      simp only [get?, List.find?_cons, List.mem_cons] at ih' ⊢
      by_cases hb : Row.key b = k
      · rw [beq_iff_eq.mpr hb]
        constructor
        · rintro ⟨⟩
          exact ⟨.inl rfl, hb⟩
        · rintro ⟨rfl | ha, hk⟩
          · rfl
          · exact absurd (List.mem_map.mpr ⟨a, ha, hk.trans hb.symm⟩) hd'.1
      · rw [beq_eq_false_iff_ne.mpr hb]
        refine ih'.trans ⟨fun h => ⟨.inr h.1, h.2⟩, ?_⟩
        rintro ⟨rfl | ha, hk⟩
        · exact absurd hk hb
        · exact ⟨ha, hk⟩

theorem get?_key {a : α} (h : t.get? k = some a) : Row.key a = k :=
  (get?_eq_some.mp h).2

/-- The row with key `k`, with the proof that it is. -/
def lookup (t : Table α) (k : Nat) : Option {a : α // Row.key a = k} :=
  (t.get? k).pmap Subtype.mk fun _ h => get?_key h

theorem lookup_eq_some {a : {a : α // Row.key a = k}} :
    t.lookup k = some a ↔ t.get? k = some a.1 := by
  obtain ⟨a, ha⟩ := a
  rw [lookup, Option.pmap_eq_some_iff]
  constructor
  · rintro ⟨b, _, hb, heq⟩
    cases heq
    exact hb
  · exact fun h => ⟨a, ha, h, rfl⟩

theorem lookup_eq_none : t.lookup k = none ↔ t.get? k = none := by
  rw [lookup, Option.pmap_eq_none_iff]

theorem get?_of_mem {a : α} (h : a ∈ t.rows) : t.get? (Row.key a) = some a :=
  get?_eq_some.mpr ⟨h, rfl⟩

theorem get?_eq_none : t.get? k = none ↔ k ∉ t.rows.map Row.key := by
  simp [get?, List.find?_eq_none]

/-- A key has one row at most. -/
theorem length_filter_key : (t.rows.filter (Row.key · == k)).length ≤ 1 := by
  have hnodup : ((t.rows.filter (Row.key · == k)).map Row.key).Nodup :=
    t.nodup.sublist (List.filter_sublist.map _)
  have hall : ∀ x ∈ (t.rows.filter (Row.key · == k)).map Row.key, x = k := by
    intro x hx
    obtain ⟨a, ha, rfl⟩ := List.mem_map.mp hx
    exact beq_iff_eq.mp (List.mem_filter.mp ha).2
  rw [List.eq_replicate_of_mem hall, List.nodup_replicate, List.length_map] at hnodup
  exact hnodup

theorem mem_rows_update {f : Row.Field α} {a : α} :
    a ∈ (t.update k f).rows ↔
      (a ∈ t.rows ∧ Row.key a ≠ k) ∨ ∃ b, t.get? k = some b ∧ a = Row.set f b := by
  simp only [update, List.mem_map]
  constructor
  · rintro ⟨b, hb, rfl⟩
    split
    · next hk => exact .inr ⟨b, get?_eq_some.mpr ⟨hb, hk⟩, rfl⟩
    · next hk => exact .inl ⟨hb, hk⟩
  · rintro (⟨ha, hk⟩ | ⟨b, hb, rfl⟩)
    · exact ⟨a, ha, if_neg hk⟩
    · obtain ⟨hb, hk⟩ := get?_eq_some.mp hb
      exact ⟨b, hb, if_pos hk⟩

@[simp] theorem get?_update_self (f : Row.Field α) :
    (t.update k f).get? k = (t.get? k).map (Row.set f) := by
  ext a
  rw [get?_eq_some, mem_rows_update, Option.map_eq_some_iff]
  constructor
  · rintro ⟨⟨_, hk⟩ | ⟨b, hb, rfl⟩, hka⟩
    · exact absurd hka hk
    · exact ⟨b, hb, rfl⟩
  · rintro ⟨b, hb, rfl⟩
    exact ⟨.inr ⟨b, hb, rfl⟩, (Row.key_set f b).trans (get?_key hb)⟩

theorem get?_update_of_ne (f : Row.Field α) {k' : Nat} (h : k' ≠ k) :
    (t.update k f).get? k' = t.get? k' := by
  ext a
  rw [get?_eq_some, mem_rows_update, get?_eq_some]
  constructor
  · rintro ⟨⟨ha, _⟩ | ⟨b, hb, rfl⟩, hka⟩
    · exact ⟨ha, hka⟩
    · exact absurd (hka.symm.trans ((Row.key_set f b).trans (get?_key hb))) h
  · rintro ⟨ha, hka⟩
    exact ⟨.inl ⟨ha, fun hk => h (hka.symm.trans hk)⟩, hka⟩

theorem get?_update (f : Row.Field α) (k' : Nat) :
    (t.update k f).get? k' = if k' = k then (t.get? k).map (Row.set f) else t.get? k' := by
  split
  · next h => rw [h, get?_update_self]
  · next h => exact get?_update_of_ne f h

theorem mem_rows_insert {a b : α} (h : t.get? (Row.key a) = none) :
    b ∈ (t.insert a).rows ↔ b ∈ t.rows ∨ b = a := by
  rw [insert, dif_neg (get?_eq_none.mp h)]
  simp

theorem insert_of_taken {a b : α} (h : t.get? (Row.key a) = some b) : t.insert a = t :=
  dif_pos (List.mem_map.mpr ⟨b, (get?_eq_some.mp h).1, get?_key h⟩)

theorem rows_insert {a : α} (h : t.get? (Row.key a) = none) :
    (t.insert a).rows = t.rows ++ [a] := by
  rw [insert, dif_neg (get?_eq_none.mp h)]

theorem get?_insert_self {a : α} (h : t.get? (Row.key a) = none) :
    (t.insert a).get? (Row.key a) = some a :=
  get?_eq_some.mpr ⟨(mem_rows_insert h).mpr (.inr rfl), rfl⟩

theorem get?_insert_of_ne {a : α} (h : k ≠ Row.key a) : (t.insert a).get? k = t.get? k := by
  cases ht : t.get? (Row.key a) with
  | some b => rw [insert_of_taken ht]
  | none =>
      ext b
      rw [get?_eq_some, mem_rows_insert ht, get?_eq_some]
      constructor
      · rintro ⟨hb | rfl, hk⟩
        · exact ⟨hb, hk⟩
        · exact absurd hk.symm h
      · exact fun hb => ⟨.inl hb.1, hb.2⟩

theorem get?_insert_of_some {a b : α} (h : t.get? k = some b) : (t.insert a).get? k = some b := by
  by_cases hk : k = Row.key a
  · subst hk
    rw [insert_of_taken h, h]
  · rw [get?_insert_of_ne hk, h]

/-- A row, in its place among the others. -/
theorem rows_update {f : Row.Field α} {a : α} (h : t.get? k = some a) :
    ∃ l₁ l₂, t.rows = l₁ ++ a :: l₂ ∧ (t.update k f).rows = l₁ ++ Row.set f a :: l₂ := by
  obtain ⟨hmem, hkey⟩ := get?_eq_some.mp h
  obtain ⟨l₁, l₂, hsplit⟩ := List.append_of_mem hmem
  refine ⟨l₁, l₂, hsplit, ?_⟩
  have hnodup := t.nodup
  rw [hsplit, List.map_append, List.map_cons, List.nodup_append, List.nodup_cons] at hnodup
  obtain ⟨-, ⟨hnot₂, -⟩, hnot₁⟩ := hnodup
  have hothers : ∀ l : List α, (∀ b ∈ l, Row.key b ≠ k) →
      l.map (fun b => if Row.key b = k then Row.set f b else b) = l := by
    intro l hl
    rw [List.map_congr_left fun b hb => if_neg (hl b hb), List.map_id']
  have h₁ : ∀ b ∈ l₁, Row.key b ≠ k := by
    intro b hb heq
    exact hnot₁ _ (List.mem_map_of_mem hb) _ List.mem_cons_self (heq.trans hkey.symm)
  have h₂ : ∀ b ∈ l₂, Row.key b ≠ k := by
    intro b hb heq
    rw [hkey, ← heq] at hnot₂
    exact hnot₂ (List.mem_map_of_mem hb)
  show t.rows.map _ = _
  rw [hsplit, List.map_append, List.map_cons, hothers l₁ h₁, hothers l₂ h₂, if_pos hkey]

/-- A selection of the rows loses what the old version of the row gave, and gains what the new one
gives. -/
theorem filterMap_update {β : Type} {f : Row.Field α} {a : α} (g : α → Option β)
    (h : t.get? k = some a) :
    ((t.update k f).rows.filterMap g ++ (g a).toList).Perm
      ((g (Row.set f a)).toList ++ t.rows.filterMap g) := by
  obtain ⟨l₁, l₂, hrows, hrows'⟩ := rows_update (f := f) h
  have hcons : ∀ (b : α) l, (b :: l).filterMap g = (g b).toList ++ l.filterMap g := by
    intro b l
    rw [List.filterMap_cons]
    cases g b <;> rfl
  have hswap : ((l₁.filterMap g ++ (g (Row.set f a)).toList) ++
    (l₂.filterMap g ++ (g a).toList)).Perm
      (((g (Row.set f a)).toList ++ l₁.filterMap g) ++ ((g a).toList ++ l₂.filterMap g)) :=
    List.perm_append_comm.append List.perm_append_comm
  rw [hrows, hrows', List.filterMap_append, List.filterMap_append, hcons, hcons]
  simpa only [List.append_assoc] using hswap

theorem filterMap_insert {β : Type} {a : α} (g : α → Option β) (h : t.get? (Row.key a) = none) :
    (t.insert a).rows.filterMap g = t.rows.filterMap g ++ (g a).toList := by
  rw [rows_insert h, List.filterMap_append]
  cases hg : g a <;> simp [hg]

end Table

end Conc
