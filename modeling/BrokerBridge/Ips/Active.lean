import BrokerBridge.World.Frame

/-!
# The active assignments of a broker

Which of its assignments are active, and what a commit does to them. A write either
leaves the active assignments of a broker alone but for ending some, or it activates
one: the new row of an assignment, or the status of an old one. A commit of the IP
services activates at most one row.
-/

namespace BrokerBridge

open Conc

/-- The assignment is active, and this broker's. -/
def Db.ActiveFor (d : Db) (b : BrokerId) (x : AssignmentId) : Prop :=
  ∃ a, d.assignments.get? x = some a ∧ a.activeFor b = true

/-- No broker has two active assignments. -/
def Db.OneActive (d : Db) : Prop :=
  ∀ b x y, d.ActiveFor b x → d.ActiveFor b y → x = y

/-- The broker of an assignment. -/
def Db.brokerOf (d : Db) (x : AssignmentId) : Option BrokerId :=
  (d.assignments.get? x).map (·.brokerAccountId)

/-! ## Writes -/

/-- The write may make an assignment active that was not. -/
def Write.engages : Write → Bool
  | .addAssignment a => a.status = .active
  | .setAssignment _ (.status st) => st = .active
  | _ => false

/-- None of the writes does. -/
def Quiet (ws : List Write) : Prop := ∀ w ∈ ws, w.engages = false

instance (ws : List Write) : Decidable (Quiet ws) :=
  inferInstanceAs (Decidable (∀ w ∈ ws, _))

section Writes

variable {now : Instant} {d d' : Db} {b : BrokerId} {x : AssignmentId}

theorem activeFor_iff {a : IpAssignment} :
    a.activeFor b = true ↔ a.brokerAccountId = b ∧ a.status = .active := by
  simp [IpAssignment.activeFor]

/-- Every write but those of assignments leaves their table alone. -/
theorem apply_assignments {w : Write} (h : ∀ a, w ≠ .addAssignment a)
    (h' : ∀ y f, w ≠ .setAssignment y f) : (w.apply now d).assignments = d.assignments := by
  cases w with
  | addAssignment a => exact absurd rfl (h a)
  | setAssignment y f => exact absurd rfl (h' y f)
  | setAttempt o i f =>
      simp only [Write.apply]
      split <;> rfl
  | _ => rfl

theorem brokerOf_apply {w : Write} (hx : d.brokerOf x = some b) :
    (w.apply now d).brokerOf x = some b := by
  obtain ⟨a, ha, hab⟩ := Option.map_eq_some_iff.mp hx
  by_cases hadd : ∃ r, w = .addAssignment r
  · obtain ⟨r, rfl⟩ := hadd
    have hget : (d.assignments.insert r).get? x = some a := Table.get?_insert_of_some ha
    exact Option.map_eq_some_iff.mpr ⟨a, hget, hab⟩
  by_cases hset : ∃ y f, w = .setAssignment y f
  · obtain ⟨y, f, rfl⟩ := hset
    show (Table.get? (d.assignments.update y f) x).map _ = some b
    rw [Table.get?_update]
    split
    · next heq =>
        rw [← heq, ha]
        cases f <;> exact congrArg some hab
    · rw [ha]
      exact congrArg some hab
  · rw [Db.brokerOf, apply_assignments (fun r h => hadd ⟨r, h⟩) (fun y f h => hset ⟨y, f, h⟩)]
    exact hx

/-- A new assignment is active for its broker. -/
theorem activeFor_add {r : IpAssignment}
    (h : ((Write.addAssignment r).apply now d).ActiveFor b x) :
    d.ActiveFor b x ∨ x = r.id ∧ r.activeFor b = true := by
  obtain ⟨a, ha, hact⟩ := h
  by_cases hx : x = r.id
  · subst hx
    cases hget : d.assignments.get? r.id with
    | some a' =>
        have hkept : (d.assignments.insert r).get? r.id = some a' :=
          Table.get?_insert_of_some hget
        rw [Option.some_inj.mp (ha.symm.trans hkept)] at hact
        exact .inl ⟨a', hget, hact⟩
    | none =>
        have hnew : (d.assignments.insert r).get? r.id = some r := Table.get?_insert_self hget
        rw [Option.some_inj.mp (ha.symm.trans hnew)] at hact
        exact .inr ⟨rfl, hact⟩
  · have hkept : (d.assignments.insert r).get? x = d.assignments.get? x :=
      Table.get?_insert_of_ne hx
    exact .inl ⟨a, hkept.symm.trans ha, hact⟩

/-- Setting a field of an assignment touches that one only. -/
theorem activeFor_set {y : AssignmentId} {f : IpAssignmentField}
    (h : ((Write.setAssignment y f).apply now d).ActiveFor b x) :
    d.ActiveFor b x ∨ x = y ∧ f = .status .active ∧ d.brokerOf y = some b := by
  obtain ⟨a, ha, hact⟩ := h
  have hget : (d.assignments.update y f).get? x = some a := ha
  rw [Table.get?_update] at hget
  split at hget
  · next heq =>
      obtain ⟨a', ha', rfl⟩ := Option.map_eq_some_iff.mp hget
      obtain ⟨hb, hst⟩ := activeFor_iff.mp hact
      cases f with
      | status st =>
          have hactive : st = .active := hst
          exact .inr ⟨heq, hactive ▸ rfl, Option.map_eq_some_iff.mpr ⟨a', ha', hb⟩⟩
      | releasedAt t => exact .inl ⟨a', heq ▸ ha', activeFor_iff.mpr ⟨hb, hst⟩⟩
  · exact .inl ⟨a, hget, hact⟩

/-- What a write that activates nothing leaves active was active. -/
theorem activeFor_quiet {w : Write} (hw : w.engages = false)
    (h : (w.apply now d).ActiveFor b x) : d.ActiveFor b x := by
  by_cases hadd : ∃ r, w = .addAssignment r
  · obtain ⟨r, rfl⟩ := hadd
    rcases activeFor_add h with h | ⟨_, hact⟩
    · exact h
    · have hidle : ¬ r.status = .active := of_decide_eq_false hw
      exact absurd (activeFor_iff.mp hact).2 hidle
  by_cases hset : ∃ y f, w = .setAssignment y f
  · obtain ⟨y, f, rfl⟩ := hset
    rcases activeFor_set h with h | ⟨_, rfl, _⟩
    · exact h
    · cases hw
  · obtain ⟨a, ha, hact⟩ := h
    rw [apply_assignments (fun r h => hadd ⟨r, h⟩) (fun y f h => hset ⟨y, f, h⟩)] at ha
    exact ⟨a, ha, hact⟩

/-! ## Commits -/

theorem brokerOf_write {ws : List Write} (hd : d.write? now ws = some d')
    (hx : d.brokerOf x = some b) : d'.brokerOf x = some b :=
  Db.write?_preserves (P := fun d => d.brokerOf x = some b)
    (fun _ _ _ _ => brokerOf_apply) hd hx

theorem activeFor_write {ws : List Write} (hws : Quiet ws) (hd : d.write? now ws = some d')
    (h : d'.ActiveFor b x) : d.ActiveFor b x :=
  Db.write?_preserves (P := fun d' => d'.ActiveFor b x → d.ActiveFor b x)
    (fun w hw _ _ hprev hactive => hprev (activeFor_quiet (hws w hw) hactive)) hd id h

/-- The commit of one write among others that activate nothing. -/
theorem activeFor_among {l l' : List Write} {w : Write} (hl : Quiet l) (hl' : Quiet l')
    (hd : d.write? now (l ++ w :: l') = some d') :
    ∃ d₁, d.write? now l = some d₁ ∧
      (∀ b x, d'.ActiveFor b x → (w.apply now d₁).ActiveFor b x) ∧
      ∀ b x, d₁.ActiveFor b x → d.ActiveFor b x := by
  rw [Db.write?_append] at hd
  obtain ⟨d₁, hd₁, hd⟩ := Option.bind_eq_some_iff.mp hd
  obtain ⟨_, hd⟩ := Db.write?_cons.mp hd
  exact ⟨d₁, hd₁, fun _ _ => activeFor_write hl' hd, fun _ _ => activeFor_write hl hd₁⟩

/-- A write that ends an assignment, and others that activate none, leave it ended. -/
theorem not_activeFor_of_released {l : List Write} (hl : Quiet l)
    (hmem : .setAssignment x (.status .released) ∈ l) (hd : d.write? now l = some d') :
    ¬ d'.ActiveFor b x := by
  obtain ⟨l₁, l₂, rfl⟩ := List.append_of_mem hmem
  rw [Db.write?_append] at hd
  obtain ⟨d₁, hd₁, hd⟩ := Option.bind_eq_some_iff.mp hd
  obtain ⟨_, hd⟩ := Db.write?_cons.mp hd
  intro hactive
  have hl₂ : Quiet l₂ := fun w hw => hl w (List.mem_append_right _ (List.mem_cons_of_mem _ hw))
  obtain ⟨a, ha, hact⟩ := activeFor_write hl₂ hd hactive
  have hget : (d₁.assignments.update x (.status .released)).get? x = some a := ha
  rw [Table.get?_update_self] at hget
  obtain ⟨a', _, rfl⟩ := Option.map_eq_some_iff.mp hget
  cases (activeFor_iff.mp hact).2

end Writes

end BrokerBridge
