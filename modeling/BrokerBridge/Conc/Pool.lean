import Mathlib.Data.List.Basic
import BrokerBridge.Conc.Prog

/-!
# Pools: any number of programs over one world

A machine says what each kind of call runs, how the world answers a request,
and what else may happen to the world. The answer is a function of an
environment value, so a schedule is a list of events that can be executed,
and the things nobody controls are the environment values in it.

A pool is the world, the running programs, and the trace of the requests made
so far, each with the world it was made in. An event starts a call, lets one
program make its next request, kills a program, or ticks the world. A step is
atomic; everything else interleaves, since any thread may be chosen next. A
killed thread is never resumed, which is all a crash is: what it wrote to the
world stays, and what it held in its local state is gone.

`Reach` collects the pools that a run gets to when every event meets a
condition, `fun _ _ => True` for all runs; `Reach.invariant` is the induction
over runs, packaged once.
-/

namespace Conc

variable {σ Req : Type} {Ans : Req → Type} {E C V R : Type}

/-- The calls, the answers and the other changes of a world `σ`. -/
structure Machine (σ Req : Type) (Ans : Req → Type) (E C V R : Type) where
  prog : C → Prog Req Ans R
  handle : (r : Req) → E → σ → Ans r × σ
  tick : V → σ → σ

/-- One thing that happens. -/
inductive Event (E C V : Type) : Type where
  | start (c : C)
  | step (i : Nat) (e : E)
  | crash (i : Nat)
  | tick (v : V)

/-- The world, the threads (`none` once killed) and the requests made so far,
newest first, each with its thread and the world it was made in. -/
structure Pool (σ Req : Type) (Ans : Req → Type) (R : Type) where
  world : σ
  threads : List (Option (Prog Req Ans R)) := []
  trace : List (Nat × Req × σ) := []

namespace Pool

/-- The program of thread `i`, if it has not been killed. -/
def prog? (s : Pool σ Req Ans R) (i : Nat) : Option (Prog Req Ans R) :=
  s.threads[i]?.join

/-- Thread `i` waits for the answer to `r`. -/
def Asks (s : Pool σ Req Ans R) (i : Nat) (r : Req) : Prop :=
  ∃ k, s.prog? i = some (.call r k)

/-- Thread `i` has returned `a`. -/
def Returned (s : Pool σ Req Ans R) (i : Nat) (a : R) : Prop :=
  s.prog? i = some (.ret a)

/-- No thread but `i` has anything left to ask. -/
def alone (s : Pool σ Req Ans R) (i : Nat) : Bool :=
  (List.range s.threads.length).all fun j =>
    j == i || match s.prog? j with
      | some (.call _ _) => false
      | _ => true

end Pool

namespace Machine

variable (M : Machine σ Req Ans E C V R)

/-- What an event does to a pool. A step of a thread that has nothing to ask
changes nothing. -/
def next (s : Pool σ Req Ans R) : Event E C V → Pool σ Req Ans R
  | .start c => { s with threads := s.threads ++ [some (M.prog c)] }
  | .step i e =>
      match s.prog? i with
      | some (.call r k) =>
          let x := M.handle r e s.world
          { world := x.2
            threads := s.threads.set i (some (k x.1))
            trace := (i, r, s.world) :: s.trace }
      | _ => s
  | .crash i => { s with threads := s.threads.set i none }
  | .tick v => { s with world := M.tick v s.world }

/-- A schedule, executed. -/
def run (s : Pool σ Req Ans R) (evs : List (Event E C V)) : Pool σ Req Ans R :=
  evs.foldl M.next s

/-- The pools reached from `init` by runs all of whose events meet `Cond`. -/
inductive Reach (init : Pool σ Req Ans R → Prop)
    (Cond : Pool σ Req Ans R → Event E C V → Prop) : Pool σ Req Ans R → Prop where
  | init {s} (h : init s) : Reach init Cond s
  | step {s} (h : Reach init Cond s) {ev} (hc : Cond s ev) : Reach init Cond (M.next s ev)

/-- A pool reached from `s` by a run all of whose events meet `Cond`. -/
abbrev ReachFrom (Cond : Pool σ Req Ans R → Event E C V → Prop)
    (s : Pool σ Req Ans R) : Pool σ Req Ans R → Prop :=
  M.Reach (· = s) Cond

/-- Every run, whatever happens in it. -/
def anyEvent (_ : Pool σ Req Ans R) (_ : Event E C V) : Prop := True

variable {M} {init : Pool σ Req Ans R → Prop}
  {Cond Cond' : Pool σ Req Ans R → Event E C V → Prop}

/-- The induction over runs. -/
theorem Reach.invariant {P : Pool σ Req Ans R → Prop} (h0 : ∀ s, init s → P s)
    (hstep : ∀ s ev, P s → Cond s ev → P (M.next s ev)) {s : Pool σ Req Ans R}
    (h : M.Reach init Cond s) : P s := by
  induction h with
  | init h => exact h0 _ h
  | step _ hc ih => exact hstep _ _ ih hc

theorem reachFrom_self (s : Pool σ Req Ans R) : M.ReachFrom Cond s s := .init rfl

theorem Reach.trans {s s' : Pool σ Req Ans R} (h : M.Reach init Cond s)
    (h' : M.ReachFrom Cond s s') : M.Reach init Cond s' := by
  induction h' with
  | init h' => subst h'; exact h
  | step _ hc ih => exact .step ih hc

/-- An executed schedule is a run. -/
theorem reach_run {s : Pool σ Req Ans R} (h : M.Reach init anyEvent s)
    (evs : List (Event E C V)) : M.Reach init anyEvent (M.run s evs) := by
  induction evs generalizing s with
  | nil => exact h
  | cons ev evs ih => exact ih (.step h trivial)

/-- An executed schedule meets a condition when a check of each of its events
says so. -/
theorem reach_run_of_check {check : Pool σ Req Ans R → Event E C V → Bool}
    (hcheck : ∀ s ev, check s ev = true → Cond s ev)
    {s : Pool σ Req Ans R} (h : M.Reach init Cond s) :
    ∀ evs : List (Event E C V),
      (evs.foldl (fun acc ev => (acc.1 && check acc.2 ev, M.next acc.2 ev)) (true, s)).1
        = true →
      M.Reach init Cond (M.run s evs) := by
  have hfalse : ∀ (evs : List (Event E C V)) (s : Pool σ Req Ans R),
      (evs.foldl (fun acc ev => (acc.1 && check acc.2 ev, M.next acc.2 ev)) (false, s)).1
        = false := by
    intro evs
    induction evs with
    | nil => intro s; rfl
    | cons ev evs ih => intro s; exact ih _
  intro evs
  induction evs generalizing s with
  | nil => intro _; exact h
  | cons ev evs ih =>
      intro hb
      simp only [List.foldl_cons, Bool.true_and] at hb
      cases hc : check s ev with
      | false => rw [hc, hfalse] at hb; cases hb
      | true =>
          rw [hc] at hb
          exact ih (.step h (hcheck _ _ hc)) hb

/-! ## What one event does to one thread -/

section Threads

variable {s : Pool σ Req Ans R} {i j : Nat}

theorem next_step_of_asks {r : Req} {k : Ans r → Prog Req Ans R} (e : E)
    (h : s.prog? i = some (.call r k)) :
    M.next s (.step i e) =
      { world := (M.handle r e s.world).2
        threads := s.threads.set i (some (k (M.handle r e s.world).1))
        trace := (i, r, s.world) :: s.trace } := by
  simp only [next, h]

theorem next_step_of_idle (e : E) (h : ∀ r k, s.prog? i ≠ some (.call r k)) :
    M.next s (.step i e) = s := by
  rw [next]
  split
  · next r k hk => exact absurd hk (h r k)
  · rfl

/-- A step either asks something or changes nothing. -/
theorem step_cases (s : Pool σ Req Ans R) (i : Nat) (e : E) :
    (∃ r k, s.prog? i = some (.call r k) ∧ M.next s (.step i e) =
      { world := (M.handle r e s.world).2
        threads := s.threads.set i (some (k (M.handle r e s.world).1))
        trace := (i, r, s.world) :: s.trace }) ∨
    M.next s (.step i e) = s := by
  by_cases h : ∃ r k, s.prog? i = some (.call r k)
  · obtain ⟨r, k, hk⟩ := h
    exact .inl ⟨r, k, hk, next_step_of_asks e hk⟩
  · exact .inr (next_step_of_idle e fun r k hk => h ⟨r, k, hk⟩)

end Threads

end Machine

namespace Pool

variable {s : Pool σ Req Ans R} {i j : Nat} {p q : Prog Req Ans R}

theorem prog?_some_lt (h : s.prog? i = some p) : i < s.threads.length := by
  by_contra hlt
  rw [prog?, List.getElem?_eq_none (by omega)] at h
  cases h

theorem prog?_length (s : Pool σ Req Ans R) : s.prog? s.threads.length = none := by
  rw [prog?, List.getElem?_eq_none (Nat.le_refl _)]
  rfl

/-- Where one thread is alone, the others are done. -/
theorem done_of_alone (h : s.alone i = true) (hj : j ≠ i) (hp : s.prog? j = some p)
    (r : Req) (k : Ans r → Prog Req Ans R) : p ≠ .call r k := by
  rintro rfl
  have := List.all_eq_true.mp h j (List.mem_range.mpr (prog?_some_lt hp))
  simp [hp, hj] at this

theorem prog?_append (w : σ) (tr : List (Nat × Req × σ)) :
    (Pool.mk w (s.threads ++ [some q]) tr).prog? j =
      if j = s.threads.length then some q else s.prog? j := by
  simp only [prog?]
  rcases Nat.lt_trichotomy j s.threads.length with h | h | h
  · rw [if_neg (by omega), List.getElem?_append_left h]
  · rw [if_pos h, h, List.getElem?_concat_length]
    rfl
  · rw [if_neg (by omega), List.getElem?_eq_none (by simp; omega),
      List.getElem?_eq_none (by omega)]

theorem prog?_set (w : σ) (o : Option (Prog Req Ans R)) (tr : List (Nat × Req × σ))
    (hi : i < s.threads.length) :
    (Pool.mk w (s.threads.set i o) tr).prog? j =
      if j = i then o else s.prog? j := by
  simp only [prog?]
  by_cases h : j = i
  · subst h
    rw [if_pos rfl, List.getElem?_set_self hi]
    rfl
  · rw [if_neg h, List.getElem?_set_ne (by omega)]

theorem prog?_kill (w : σ) (tr : List (Nat × Req × σ))
    (h : (Pool.mk w (s.threads.set i none) tr).prog? j = some p) :
    s.prog? j = some p := by
  by_cases hi : i < s.threads.length
  · rw [prog?_set w none tr hi] at h
    split at h
    · cases h
    · exact h
  · rw [prog?, List.set_eq_of_length_le (by omega)] at h
    exact h

end Pool

namespace Machine

variable {M : Machine σ Req Ans E C V R} {init : Pool σ Req Ans R → Prop}
  {Cond : Pool σ Req Ans R → Event E C V → Prop}

/-- A property of programs that every call starts with and that no answer
takes away holds of every thread of every run. -/
theorem Reach.threads {P : Prog Req Ans R → Prop}
    (h0 : ∀ s, init s → ∀ i p, s.prog? i = some p → P p)
    (hstart : ∀ s c, Cond s (.start c) → P (M.prog c))
    (hstep : ∀ (r : Req) (k : Ans r → Prog Req Ans R), P (.call r k) →
      ∀ e w, P (k (M.handle r e w).1))
    {s : Pool σ Req Ans R} (h : M.Reach init Cond s) :
    ∀ i p, s.prog? i = some p → P p := by
  induction h with
  | init h => exact h0 _ h
  | @step s _ ev hc ih =>
      cases ev with
      | start c =>
          intro i p hp
          rw [next, Pool.prog?_append] at hp
          split at hp
          · cases hp; exact hstart _ c hc
          · exact ih i p hp
      | step j e =>
          rcases step_cases (M := M) s j e with ⟨r, k, hk, heq⟩ | heq
          · intro i p hp
            rw [heq, Pool.prog?_set _ _ _ (Pool.prog?_some_lt hk)] at hp
            split at hp
            · cases hp; exact hstep r k (ih j _ hk) e _
            · exact ih i p hp
          · rw [heq]; exact ih
      | crash j => exact fun i p hp => ih i p (Pool.prog?_kill _ _ hp)
      | tick v => exact ih

/-- Every request of a run was made by one of its threads. -/
theorem Reach.trace_lt (hinit : ∀ s, init s → s.trace = []) {s : Pool σ Req Ans R}
    (h : M.Reach init Cond s) : ∀ x ∈ s.trace, x.1 < s.threads.length := by
  induction h with
  | init h =>
      rw [hinit _ h]
      exact List.forall_mem_nil _
  | @step s _ ev _ ih =>
      cases ev with
      | start c =>
          intro x hx
          show x.1 < (s.threads ++ [some (M.prog c)]).length
          rw [List.length_append]
          exact Nat.lt_of_lt_of_le (ih x hx) (Nat.le_add_right _ _)
      | step j e =>
          rcases step_cases (M := M) s j e with ⟨r, k, hk, heq⟩ | heq
          · rw [heq]
            intro x hx
            show x.1 < (s.threads.set j _).length
            rw [List.length_set]
            rcases List.mem_cons.mp hx with rfl | hx
            · exact Pool.prog?_some_lt hk
            · exact ih x hx
          · rw [heq]
            exact ih
      | crash j =>
          intro x hx
          show x.1 < (s.threads.set j none).length
          rw [List.length_set]
          exact ih x hx
      | tick v => exact ih

/-- Where nothing is killed, every thread that has asked something is there. -/
theorem Reach.traced (hinit : ∀ s, init s → s.trace = []) (hcrash : ∀ s i, ¬ Cond s (.crash i))
    {s : Pool σ Req Ans R} (h : M.Reach init Cond s) :
    ∀ x ∈ s.trace, ∃ p, s.prog? x.1 = some p := by
  induction h with
  | init h =>
      rw [hinit _ h]
      exact List.forall_mem_nil _
  | @step s _ ev hc ih =>
      cases ev with
      | start c =>
          intro x hx
          obtain ⟨p, hp⟩ := ih x hx
          refine ⟨p, ?_⟩
          rw [next, Pool.prog?_append, if_neg (Nat.ne_of_lt (Pool.prog?_some_lt hp))]
          exact hp
      | step j e =>
          rcases step_cases (M := M) s j e with ⟨r, k, hk, heq⟩ | heq
          · rw [heq]
            intro x hx
            rw [Pool.prog?_set _ _ _ (Pool.prog?_some_lt hk)]
            split
            · exact ⟨_, rfl⟩
            · next hne =>
                rcases List.mem_cons.mp hx with rfl | hx
                · exact absurd rfl hne
                · exact ih x hx
          · rw [heq]
            exact ih
      | crash j => exact absurd hc (hcrash s j)
      | tick v => exact ih

/-- Every request a run makes is one its thread's program could make. -/
theorem Reach.all {P : Req → Prop}
    (h0 : ∀ s, init s → ∀ i p, s.prog? i = some p → p.All P)
    (hstart : ∀ s c, Cond s (.start c) → (M.prog c).All P)
    {s : Pool σ Req Ans R} (h : M.Reach init Cond s) :
    ∀ i p, s.prog? i = some p → p.All P :=
  h.threads h0 hstart fun _ _ hp _ _ => hp.next _

end Machine

end Conc
