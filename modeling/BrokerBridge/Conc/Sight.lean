import BrokerBridge.Conc.Pool
import BrokerBridge.Conc.Protocol

/-!
# What a program has seen

A program looks at the world, and later acts on what it saw. In between others may have
changed it. The phases of a protocol record what the answers have shown; a phase is sure
when the last look has shown something good. It still is good when nothing has been asked
since that may spoil it, by any thread, and the trace says what has been asked.

`Sight.informed` is the theorem: every thread of every run is in such a phase.
-/

namespace Conc

variable {σ Req : Type} {Ans : Req → Type} {E C V R Ph : Type}

/-- What was asked since thread `i` last looked, newest first. -/
def sinceLook (looks : Req → Bool) (i : Nat) (trace : List (Nat × Req × σ)) :
    List (Nat × Req × σ) :=
  trace.takeWhile fun x => !(x.1 == i && looks x.2.1)

theorem sinceLook_cons {looks : Req → Bool} {i : Nat} {trace : List (Nat × Req × σ)}
    {x : Nat × Req × σ} (h : x.1 = i → looks x.2.1 = false) :
    sinceLook looks i (x :: trace) = x :: sinceLook looks i trace := by
  rw [sinceLook, List.takeWhile_cons_of_pos]
  · rfl
  · by_cases hi : x.1 = i
    · simp [hi, h hi]
    · simp [hi]

/-- Looks, what they show, and which requests may spoil it. -/
structure Sight (M : Machine σ Req Ans E C V R) (P : Protocol Req Ans Ph) where
  looks : Req → Bool
  spoils : Req → Prop
  good : σ → Prop
  sure : Ph → Prop
  kept : ∀ {r}, ¬ spoils r → ∀ e w, good w → good (M.handle r e w).2
  ticked : ∀ v w, good w → good (M.tick v w)
  /-- A look that makes sure has shown it. -/
  shown : ∀ {ph r}, looks r = true → ∀ e w, sure (P.advance ph r (M.handle r e w).1) →
    good (M.handle r e w).2
  /-- Nothing else makes sure. -/
  unshown : ∀ {ph r}, looks r = false → ∀ e w, sure (P.advance ph r (M.handle r e w).1) → sure ph

namespace Sight

variable {M : Machine σ Req Ans E C V R} {P : Protocol Req Ans Ph} (S : Sight M P)
  {F : R → Ph → Prop}

/-- Nothing that spoils what thread `i` saw has been asked since it looked. -/
def Unspoilt (i : Nat) (trace : List (Nat × Req × σ)) : Prop :=
  ∀ x ∈ sinceLook S.looks i trace, ¬ S.spoils x.2.1

/-- The thread follows the protocol, in a phase that says the truth unless that was spoilt. -/
def Informed (F : R → Ph → Prop) (s : Pool σ Req Ans R) (i : Nat) (p : Prog Req Ans R) : Prop :=
  ∃ ph, p.Follows P F ph ∧ (S.sure ph → S.Unspoilt i s.trace → S.good s.world)

variable {S} {s : Pool σ Req Ans R} {i j : Nat} {p : Prog Req Ans R}

/-- The thread that asks. -/
theorem Informed.asks {r : Req} {k : Ans r → Prog Req Ans R}
    (h : S.Informed F s i (.call r k)) (e : E) (ts : List (Option (Prog Req Ans R))) :
    S.Informed F { world := (M.handle r e s.world).2, threads := ts,
                   trace := (i, r, s.world) :: s.trace }
      i (k (M.handle r e s.world).1) := by
  obtain ⟨ph, hfollows, htrue⟩ := h
  refine ⟨_, hfollows.next _, fun hsure hun => ?_⟩
  cases hlook : S.looks r with
  | true => exact S.shown hlook e s.world hsure
  | false =>
      have hsince : sinceLook S.looks i ((i, r, s.world) :: s.trace) =
          (i, r, s.world) :: sinceLook S.looks i s.trace := sinceLook_cons fun _ => hlook
      have hrest : S.Unspoilt i s.trace := fun x hx => hun x (hsince ▸ List.mem_cons_of_mem _ hx)
      have hspoils : ¬ S.spoils r := hun (i, r, s.world) (hsince ▸ List.mem_cons_self)
      exact S.kept hspoils e s.world (htrue (S.unshown hlook e s.world hsure) hrest)

/-- The others. -/
theorem Informed.other (h : S.Informed F s i p) (hij : j ≠ i) (r : Req) (e : E)
    (ts : List (Option (Prog Req Ans R))) :
    S.Informed F { world := (M.handle r e s.world).2, threads := ts,
                   trace := (j, r, s.world) :: s.trace }
      i p := by
  obtain ⟨ph, hfollows, htrue⟩ := h
  refine ⟨ph, hfollows, fun hsure hun => ?_⟩
  have hsince : sinceLook S.looks i ((j, r, s.world) :: s.trace) =
      (j, r, s.world) :: sinceLook S.looks i s.trace := sinceLook_cons fun h => absurd h hij
  have hrest : S.Unspoilt i s.trace := fun x hx => hun x (hsince ▸ List.mem_cons_of_mem _ hx)
  have hspoils : ¬ S.spoils r := hun (j, r, s.world) (hsince ▸ List.mem_cons_self)
  exact S.kept hspoils e s.world (htrue hsure hrest)

theorem informed (ph0 : Ph) (hph0 : ¬ S.sure ph0) {init : Pool σ Req Ans R → Prop}
    {Cond : Pool σ Req Ans R → Event E C V → Prop} (hinit : ∀ s, init s → s.threads = [])
    (hstart : ∀ s c, Cond s (.start c) → (M.prog c).Follows P F ph0)
    {s : Pool σ Req Ans R} (h : M.Reach init Cond s) :
    ∀ i p, s.prog? i = some p → S.Informed F s i p := by
  induction h with
  | init h =>
      intro i p hp
      have hlt := Pool.prog?_some_lt hp
      rw [hinit _ h] at hlt
      exact absurd hlt (Nat.not_lt_zero i)
  | @step s _ ev hc ih =>
      cases ev with
      | start c =>
          intro i p hp
          rw [Machine.next, Pool.prog?_append] at hp
          split at hp
          · cases hp
            exact ⟨ph0, hstart s c hc, fun hsure => absurd hsure hph0⟩
          · exact ih i p hp
      | step j e =>
          rcases Machine.step_cases (M := M) s j e with ⟨r, k, hk, heq⟩ | heq
          · intro i p hp
            rw [heq, Pool.prog?_set _ _ _ (Pool.prog?_some_lt hk)] at hp
            rw [heq]
            split at hp
            · next hij =>
                cases hp
                subst hij
                exact (ih i _ hk).asks e _
            · next hij => exact (ih i p hp).other (Ne.symm hij) r e _
          · rw [heq]
            exact ih
      | crash j =>
          intro i p hp
          exact ih i p (Pool.prog?_kill _ _ hp)
      | tick v =>
          intro i p hp
          obtain ⟨ph, hfollows, htrue⟩ := ih i p hp
          exact ⟨ph, hfollows, fun hsure hun => S.ticked v _ (htrue hsure hun)⟩

/-- What a thread is about to ask is allowed in such a phase. -/
theorem informed_asks (ph0 : Ph) (hph0 : ¬ S.sure ph0) {init : Pool σ Req Ans R → Prop}
    {Cond : Pool σ Req Ans R → Event E C V → Prop} (hinit : ∀ s, init s → s.threads = [])
    (hstart : ∀ s c, Cond s (.start c) → (M.prog c).Follows P F ph0)
    {s : Pool σ Req Ans R} (h : M.Reach init Cond s) {r : Req} (hasks : s.Asks i r) :
    ∃ ph, P.allows ph r ∧ (S.sure ph → S.Unspoilt i s.trace → S.good s.world) := by
  obtain ⟨k, hk⟩ := hasks
  obtain ⟨ph, hfollows, htrue⟩ := informed (S := S) ph0 hph0 hinit hstart h i _ hk
  exact ⟨ph, hfollows.allows, htrue⟩

end Sight

end Conc
