import BrokerBridge.Conc.Protocol

/-!
# What a run has answered

The trace of a pool has the requests of its threads; the history of a schedule has the answers
too, oldest first. It tells how far each thread has come in a protocol, so what is claimed of a
run can speak of what its threads have got, and not only of what they have asked.
-/

namespace Conc

variable {σ Req : Type} {Ans : Req → Type} {E C V R Ph : Type}

/-- Requests with their answers, each with the thread that made it. -/
abbrev History (Req : Type) (Ans : Req → Type) : Type := List (Nat × (r : Req) × Ans r)

namespace Machine

variable (M : Machine σ Req Ans E C V R)

/-- What an event adds. -/
def answered (s : Pool σ Req Ans R) : Event E C V → History Req Ans
  | .step i e =>
      match s.prog? i with
      | some (.call r _) => [(i, ⟨r, (M.handle r e s.world).1⟩)]
      | _ => []
  | _ => []

def history (s : Pool σ Req Ans R) : List (Event E C V) → History Req Ans
  | [] => []
  | ev :: evs => M.answered s ev ++ history (M.next s ev) evs

variable {M}

/-- The induction over schedules. -/
theorem history_induction {P : Pool σ Req Ans R → History Req Ans → Prop}
    {Cond : Event E C V → Prop}
    (hstep : ∀ s log ev, P s log → Cond ev → P (M.next s ev) (log ++ M.answered s ev))
    {s : Pool σ Req Ans R} (h0 : P s []) {evs : List (Event E C V)} (hevs : ∀ ev ∈ evs, Cond ev) :
    P (M.run s evs) (M.history s evs) := by
  have hrun : ∀ (evs : List (Event E C V)) (s : Pool σ Req Ans R) (log : History Req Ans),
      P s log → (∀ ev ∈ evs, Cond ev) → P (M.run s evs) (log ++ M.history s evs) := by
    intro evs
    induction evs with
    | nil =>
        intro s log h _
        rw [history, List.append_nil]
        exact h
    | cons ev evs ih =>
        intro s log h hevs
        rw [history, ← List.append_assoc]
        exact ih _ _ (hstep s log ev h (hevs ev List.mem_cons_self))
          fun ev' hev' => hevs ev' (List.mem_cons_of_mem _ hev')
  exact hrun evs s [] h0 hevs

theorem answered_of_asks {s : Pool σ Req Ans R} {i : Nat} {r : Req} {k : Ans r → Prog Req Ans R}
    (e : E) (h : s.prog? i = some (.call r k)) :
    M.answered s (.step i e) = [(i, ⟨r, (M.handle r e s.world).1⟩)] := by
  simp only [answered, h]

theorem answered_of_idle {s : Pool σ Req Ans R} {i : Nat} (e : E)
    (h : ∀ r k, s.prog? i ≠ some (.call r k)) : M.answered s (.step i e) = [] := by
  rw [answered]
  split
  · next r k hk => exact absurd hk (h r k)
  · rfl

end Machine

/-! ## Phases -/

namespace Protocol

variable (P : Protocol Req Ans Ph) (start : Ph)

/-- How far thread `i` has come. -/
def phase (log : History Req Ans) (i : Nat) : Ph :=
  log.foldl (fun ph x => if x.1 = i then P.advance ph x.2.1 x.2.2 else ph) start

variable {P start} {log : History Req Ans} {i j : Nat} {r : Req} {x : Ans r}

theorem phase_append_self :
    P.phase start (log ++ [(i, ⟨r, x⟩)]) i = P.advance (P.phase start log i) r x := by
  rw [phase, List.foldl_append, List.foldl_cons, List.foldl_nil, if_pos rfl]
  rfl

theorem phase_append_of_ne (h : j ≠ i) :
    P.phase start (log ++ [(i, ⟨r, x⟩)]) j = P.phase start log j := by
  rw [phase, List.foldl_append, List.foldl_cons, List.foldl_nil, if_neg h.symm]
  rfl

end Protocol

/-- Every thread is where its history says, and those to come have none. -/
structure Tracked (P : Protocol Req Ans Ph) (F : R → Ph → Prop) (start : Ph)
    (s : Pool σ Req Ans R) (log : History Req Ans) : Prop where
  follows : ∀ i p, s.prog? i = some p → p.Follows P F (P.phase start log i)
  new : ∀ i, s.threads.length ≤ i → P.phase start log i = start

namespace Tracked

variable {M : Machine σ Req Ans E C V R} {P : Protocol Req Ans Ph} {F : R → Ph → Prop} {start : Ph}
  {s : Pool σ Req Ans R} {log : History Req Ans}

theorem init (w : σ) (tr : List (Nat × Req × σ)) :
    Tracked P F start (Pool.mk w ([] : List (Option (Prog Req Ans R))) tr) [] :=
  ⟨fun _ _ h => (nomatch h), fun _ _ => rfl⟩

theorem started (h : Tracked P F start s log) {c : C} (hc : (M.prog c).Follows P F start) :
    Tracked P F start (M.next s (.start c)) log := by
  refine ⟨fun i p hp => ?_, fun i hi => h.new i ?_⟩
  · rw [Machine.next, Pool.prog?_append] at hp
    split at hp
    · next hi =>
        cases hp
        rw [h.new i (Nat.le_of_eq hi.symm)]
        exact hc
    · exact h.follows i p hp
  · have hlen : (s.threads ++ [some (M.prog c)]).length ≤ i := hi
    rw [List.length_append] at hlen
    exact Nat.le_of_add_right_le hlen

theorem stepped (h : Tracked P F start s log) {i : Nat} {r : Req} {k : Ans r → Prog Req Ans R}
    (hk : s.prog? i = some (.call r k)) (e : E) :
    Tracked P F start (M.next s (.step i e)) (log ++ [(i, ⟨r, (M.handle r e s.world).1⟩)]) := by
  have hi := Pool.prog?_some_lt hk
  rw [Machine.next_step_of_asks e hk]
  refine ⟨fun j p hp => ?_, fun j hj => ?_⟩
  · rw [Pool.prog?_set _ _ _ hi] at hp
    by_cases hji : j = i
    · subst hji
      rw [if_pos rfl] at hp
      cases hp
      rw [Protocol.phase_append_self]
      exact (h.follows j _ hk).next _
    · rw [if_neg hji] at hp
      rw [Protocol.phase_append_of_ne hji]
      exact h.follows j p hp
  · change (s.threads.set i _).length ≤ j at hj
    rw [List.length_set] at hj
    rw [Protocol.phase_append_of_ne (by omega)]
    exact h.new j hj

theorem crashed (h : Tracked P F start s log) (i : Nat) :
    Tracked P F start (M.next s (.crash i)) log := by
  refine ⟨fun j p hp => h.follows j p (Pool.prog?_kill _ _ hp), fun j hj => h.new j ?_⟩
  change (s.threads.set i none).length ≤ j at hj
  rwa [List.length_set] at hj

theorem ticked (h : Tracked P F start s log) (v : V) :
    Tracked P F start (M.next s (.tick v)) log := ⟨h.follows, h.new⟩

end Tracked

/-! ## Counting threads -/

/-- One thread of `n`, and the others. -/
theorem range_perm_erase {n i : Nat} (hi : i < n) :
    (List.range n).Perm (i :: (List.range n).erase i) :=
  List.perm_cons_erase (List.mem_range.mpr hi)

theorem mem_range_erase {n i j : Nat} (h : j ∈ (List.range n).erase i) : j ≠ i := by
  rw [List.nodup_range.mem_erase_iff] at h
  exact h.1

/-- Lists that threads have, when one thread's changes. -/
theorem range_flatMap_update {α : Type} {n i : Nat} (f : Nat → List α) (l : List α) (hi : i < n) :
    ∃ rest, ((List.range n).flatMap f).Perm (f i ++ rest) ∧
      ((List.range n).flatMap fun j => if j = i then l else f j).Perm (l ++ rest) := by
  refine ⟨((List.range n).erase i).flatMap f, (range_perm_erase hi).flatMap_right _, ?_⟩
  refine ((range_perm_erase hi).flatMap_right _).trans (.of_eq ?_)
  rw [List.flatMap_cons, if_pos rfl]
  exact congrArg (l ++ ·) (List.flatMap_congr fun j hj => if_neg (mem_range_erase hj))

end Conc
