import BrokerBridge.Conc.Protocol

/-!
# Assertions for the phases of a protocol

The method of Owicki and Gries. Every phase of a protocol gets an assertion
about the state and the requests made so far, there is an invariant beside
them, and three things are to be shown: a call starts in a phase whose assertion
holds, a thread's own requests lead from assertion to assertion, and the requests
of the others leave the assertions of a thread alone. `Annotation.sound` is the
induction over runs.

An assertion may speak of what the thread has left to do, and it may look back:
the trace of a run only grows, so what it says of the past stays true.
-/

namespace Conc

variable {σ Req : Type} {Ans : Req → Type} {Ph E C V R : Type}

/-- The state, and the requests that led to it. -/
abbrev Past (σ Req : Type) : Type := σ × List (Nat × Req × σ)

def Pool.past (s : Pool σ Req Ans R) : Past σ Req := (s.world, s.trace)

/-- The past once thread `i` has made request `r`. -/
def Machine.after (M : Machine σ Req Ans E C V R) (h : Past σ Req) (i : Nat) (r : Req) (e : E) :
    Past σ Req :=
  ((M.handle r e h.1).2, (i, r, h.1) :: h.2)

/-- Every thread is in a phase whose assertion holds. -/
def Pool.Located (P : Protocol Req Ans Ph) (F : R → Ph → Prop)
    (holds : Nat → Ph → Prog Req Ans R → Past σ Req → Prop) (s : Pool σ Req Ans R) : Prop :=
  ∀ i p, s.prog? i = some p → ∃ ph, p.Follows P F ph ∧ holds i ph p s.past

/-- What an argument by assertions shows. -/
structure Annotation (M : Machine σ Req Ans E C V R) (P : Protocol Req Ans Ph)
    (F : R → Ph → Prop) (init : Pool σ Req Ans R → Prop)
    (Cond : Pool σ Req Ans R → Event E C V → Prop) where
  inv : Past σ Req → Prop
  holds : Nat → Ph → Prog Req Ans R → Past σ Req → Prop
  start : ∀ {s c}, M.Reach init Cond s → Cond s (.start c) → inv s.past →
    ∃ ph, (M.prog c).Follows P F ph ∧ holds s.threads.length ph (M.prog c) s.past
  own : ∀ {s : Pool σ Req Ans R} {i e r k ph}, M.Reach init Cond s → Cond s (.step i e) →
    s.prog? i = some (.call r k) → (Prog.call r k).Follows P F ph → inv s.past →
    holds i ph (.call r k) s.past → s.Located P F holds →
    inv (M.after s.past i r e) ∧
    holds i (P.advance ph r (M.handle r e s.world).1) (k (M.handle r e s.world).1)
      (M.after s.past i r e)
  other : ∀ {s : Pool σ Req Ans R} {i j e r k p ph ph'}, Cond s (.step i e) →
    s.prog? i = some (.call r k) → s.prog? j = some p → j ≠ i →
    (Prog.call r k).Follows P F ph → p.Follows P F ph' → inv s.past →
    holds i ph (.call r k) s.past → holds j ph' p s.past → holds j ph' p (M.after s.past i r e)
  tick : ∀ {s v}, Cond s (.tick v) → inv s.past → inv (M.tick v s.world, s.trace)
  tick_holds : ∀ {s v j ph p}, Cond s (.tick v) → s.prog? j = some p → inv s.past →
    holds j ph p s.past → holds j ph p (M.tick v s.world, s.trace)

namespace Annotation

variable {M : Machine σ Req Ans E C V R} {P : Protocol Req Ans Ph} {F : R → Ph → Prop}
  {Cond : Pool σ Req Ans R → Event E C V → Prop} {init : Pool σ Req Ans R → Prop}
  {s : Pool σ Req Ans R}

theorem located_start (A : Annotation M P F init Cond) {c : C} (hreach : M.Reach init Cond s)
    (hc : Cond s (.start c)) (hinv : A.inv s.past) (h : s.Located P F A.holds) :
    (M.next s (.start c)).Located P F A.holds := by
  intro i p hp
  rw [Machine.next, Pool.prog?_append] at hp
  split at hp
  · next hi =>
      cases hp
      rw [hi]
      exact A.start hreach hc hinv
  · exact h i p hp

theorem located_step (A : Annotation M P F init Cond) {i : Nat} {e : E}
    (hreach : M.Reach init Cond s) (hc : Cond s (.step i e)) (hinv : A.inv s.past)
    (h : s.Located P F A.holds) :
    A.inv (M.next s (.step i e)).past ∧ (M.next s (.step i e)).Located P F A.holds := by
  rcases Machine.step_cases (M := M) s i e with ⟨r, k, hk, heq⟩ | heq
  · obtain ⟨ph, hfollows, hholds⟩ := h i _ hk
    obtain ⟨hinv', hown⟩ := A.own hreach hc hk hfollows hinv hholds h
    rw [heq]
    refine ⟨hinv', fun j p hp => ?_⟩
    rw [Pool.prog?_set _ _ _ (Pool.prog?_some_lt hk)] at hp
    split at hp
    · next hj =>
        cases hp
        rw [hj]
        exact ⟨_, hfollows.next _, hown⟩
    · next hj =>
        obtain ⟨ph', hfollows', hholds'⟩ := h j p hp
        exact ⟨ph', hfollows', A.other hc hk hp hj hfollows hfollows' hinv hholds hholds'⟩
  · rw [heq]
    exact ⟨hinv, h⟩

/-- In every run the invariant holds, and every thread is in a phase whose
assertion holds. -/
theorem sound (A : Annotation M P F init Cond)
    (hinit : ∀ s, init s → A.inv s.past ∧ s.threads = []) (h : M.Reach init Cond s) :
    A.inv s.past ∧ s.Located P F A.holds := by
  induction h with
  | init h =>
      obtain ⟨hinv, hnone⟩ := hinit _ h
      refine ⟨hinv, fun i p hp => ?_⟩
      rw [Pool.prog?, hnone] at hp
      cases hp
  | @step s hreach ev hc ih =>
      obtain ⟨hinv, hloc⟩ := ih
      cases ev with
      | start c => exact ⟨hinv, A.located_start hreach hc hinv hloc⟩
      | step i e => exact A.located_step hreach hc hinv hloc
      | crash j => exact ⟨hinv, fun i p hp => hloc i p (Pool.prog?_kill _ _ hp)⟩
      | tick v =>
          refine ⟨A.tick hc hinv, fun i p hp => ?_⟩
          obtain ⟨ph, hfollows, hholds⟩ := hloc i p hp
          exact ⟨ph, hfollows, A.tick_holds hc hp hinv hholds⟩

end Annotation

end Conc
