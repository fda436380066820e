import BrokerBridge.Conc.Pool
import BrokerBridge.Conc.Task

/-!
# Holding a key, and why it makes a schedule sequential

The world is cut into slices, one a key. A call takes a key up with a request
of its own, works on the slice, and lets go of it without saying so: it
simply never touches the slice again. `Holds` says that exactly, by looking
at what the rest of the program may still do: it can come to a request that
touches the slice before it takes the key up again. Requests that change the
slice only as `interfere` allows do not count as touching, so calls that may
interfere need not take the key up at all.

If every take-up happens when no other thread holds the key, then between its
take-up and its last touch a thread sees the slice as it left it, up to
`interfere`, and can be reasoned about as if it ran alone. `Ok` is that
reasoning, a fold with two modes: in mode `some sl` the thread has the key in
hand and last saw the slice at `sl`; in mode `none` nothing is known, every
answer is possible, and only the take-ups still to come carry an obligation.
`kept_of_reach` is the theorem: the invariant of the slice holds in every
pool of every run with exclusive take-ups, and the slice only ever evolves.
-/

namespace Conc

/-- Slices of a world with what others may do to them, the invariant they
keep, how they may evolve, and what must hold when a key is taken up. -/
structure Discipline (σ Req K S : Type) where
  slice : K → σ → S
  takeUp : K → Req → Prop
  ready : Req → S → Prop
  interfere : S → S → Prop
  inv : S → Prop
  evolve : S → S → Prop
  interfere_refl : ∀ s, interfere s s
  interfere_trans : ∀ {a b c}, interfere a b → interfere b c → interfere a c
  inv_interfere : ∀ {a b}, inv a → interfere a b → inv b
  evolve_trans : ∀ {a b c}, evolve a b → evolve b c → evolve a c
  evolve_interfere : ∀ {a b}, inv a → interfere a b → evolve a b

namespace Discipline

variable {σ Req : Type} {Ans : Req → Type} {E C V R K S α : Type}
variable (D : Discipline σ Req K S) (M : Machine σ Req Ans E C V R)

theorem evolve_refl {s : S} (h : D.inv s) : D.evolve s s :=
  D.evolve_interfere h (D.interfere_refl s)

/-- The request can change slice `k` by more than interference. -/
def Touches (k : K) (r : Req) : Prop :=
  ∃ e w, ¬ D.interfere (D.slice k w) (D.slice k (M.handle r e w).2)

/-- The program can still touch slice `k` without taking it up again. -/
def Holds (k : K) (p : Prog Req Ans α) : Prop :=
  p.Before (D.takeUp k) (D.Touches M k)

/-- What a request means for slice `k`, in each mode. -/
def slicewise (k : K) (r : Req) (next : Ans r → Option S → Prop) : Option S → Prop
  | none =>
      (D.takeUp k r → ∀ e w, D.inv (D.slice k w) → D.ready r (D.slice k w) →
        D.inv (D.slice k (M.handle r e w).2) ∧
        D.evolve (D.slice k w) (D.slice k (M.handle r e w).2) ∧
        next (M.handle r e w).1 (some (D.slice k (M.handle r e w).2))) ∧
      ∀ x, next x none
  | some sl =>
      D.takeUp k r ∨ ∀ e w, D.interfere sl (D.slice k w) → D.inv (D.slice k w) →
        D.inv (D.slice k (M.handle r e w).2) ∧
        D.evolve (D.slice k w) (D.slice k (M.handle r e w).2) ∧
        next (M.handle r e w).1 (some (D.slice k (M.handle r e w).2))

/-- The judgment: the program keeps slice `k` right, from the given mode. -/
def Ok (k : K) (p : Prog Req Ans α) (mode : Option S) : Prop :=
  p.fold (D.slicewise M k) (fun _ _ => True) mode

/-- Every take-up happens on a ready slice that no other thread holds. -/
def Exclusive (s : Pool σ Req Ans R) : Event E C V → Prop
  | .step i _ => ∀ k r, s.Asks i r → D.takeUp k r →
      D.ready r (D.slice k s.world) ∧
      ∀ j q, j ≠ i → s.prog? j = some q → ¬ D.Holds M k q
  | _ => True

variable {D M}

theorem not_touches {k : K} {r : Req} (h : ¬ D.Touches M k r) (e : E) (w : σ) :
    D.interfere (D.slice k w) (D.slice k (M.handle r e w).2) := by
  by_contra hn
  exact h ⟨e, w, hn⟩

/-- A finished program holds nothing. -/
theorem not_holds_of_done {k : K} {p : Prog Req Ans α} (h : ∀ r c, p ≠ .call r c) :
    ¬ D.Holds M k p := by
  cases p with
  | ret a => exact Prog.not_before_ret
  | call r c => exact absurd rfl (h r c)

/-! ## The invariant of a run -/

/-- What holds of slice `k` at every moment: its invariant, the judgment of
every thread in mode `none`, and for the thread that holds the key, of which
there is at most one, the judgment in hand. -/
def Kept (D : Discipline σ Req K S) (M : Machine σ Req Ans E C V R) (k : K)
    (s : Pool σ Req Ans R) : Prop :=
  D.inv (D.slice k s.world) ∧
  (∀ i p, s.prog? i = some p → D.Ok M k p none) ∧
  ∀ i p, s.prog? i = some p → D.Holds M k p →
    (∃ sl, D.Ok M k p (some sl) ∧ D.interfere sl (D.slice k s.world)) ∧
    ∀ j q, s.prog? j = some q → D.Holds M k q → j = i

/-- The step lemma, for the thread that makes the request. -/
theorem kept_ask {k : K} {s : Pool σ Req Ans R} {i : Nat} {r : Req}
    {c : Ans r → Prog Req Ans R} (h : D.Kept M k s)
    (hp : s.prog? i = some (.call r c)) (e : E)
    (hx : D.Exclusive M s (.step i e : Event E C V)) :
    D.inv (D.slice k (M.handle r e s.world).2) ∧
    D.evolve (D.slice k s.world) (D.slice k (M.handle r e s.world).2) ∧
    (D.Holds M k (c (M.handle r e s.world).1) →
      D.Ok M k (c (M.handle r e s.world).1)
        (some (D.slice k (M.handle r e s.world).2)) ∧
      ∀ j q, j ≠ i → s.prog? j = some q → ¬ D.Holds M k q) ∧
    (D.Holds M k (.call r c) ∨ D.takeUp k r ∨
      D.interfere (D.slice k s.world) (D.slice k (M.handle r e s.world).2)) := by
  obtain ⟨hinv, hnone, hhold⟩ := h
  by_cases ht : D.takeUp k r
  · -- A take-up: the condition of the run gives a ready slice nobody holds.
    obtain ⟨hready, hfree⟩ := hx k r ⟨c, hp⟩ ht
    obtain ⟨h1, h2, h3⟩ := (hnone i _ hp).1 ht e s.world hinv hready
    exact ⟨h1, h2, fun _ => ⟨h3, hfree⟩, .inr (.inl ht)⟩
  · by_cases hh : D.Holds M k (.call r c)
    · -- In hand: the slice is where this thread left it, up to interference.
      obtain ⟨⟨sl, hok, hsl⟩, huniq⟩ := hhold i _ hp hh
      obtain ⟨h1, h2, h3⟩ := hok.resolve_left ht e s.world hsl hinv
      exact ⟨h1, h2, fun _ => ⟨h3, fun j q hj hq hhq => hj (huniq j q hq hhq)⟩, .inl hh⟩
    · -- Not in hand: the request does not touch the slice, and neither will the rest.
      have hi := not_touches (fun hr => hh (Prog.Before.of_head ht hr)) e s.world
      exact ⟨D.inv_interfere hinv hi, D.evolve_interfere hinv hi,
        fun hn => absurd (Prog.Before.of_next ht hn) hh, .inr (.inr hi)⟩

theorem kept_step {k : K} {s : Pool σ Req Ans R} {i : Nat} (e : E)
    (h : D.Kept M k s) (hx : D.Exclusive M s (.step i e : Event E C V)) :
    D.Kept M k (M.next s (.step i e)) ∧
    D.evolve (D.slice k s.world) (D.slice k (M.next s (.step i e)).world) := by
  rcases Machine.step_cases (M := M) s i e with ⟨r, c, hp, heq⟩ | heq
  · obtain ⟨h1, h2, h3, h4⟩ := kept_ask h hp e hx
    obtain ⟨hinv, hnone, hhold⟩ := h
    rw [heq]
    refine ⟨⟨h1, ?_, ?_⟩, h2⟩
    · intro j q hq
      rw [Pool.prog?_set _ _ _ (Pool.prog?_some_lt hp)] at hq
      split at hq
      · cases hq; exact (hnone i _ hp).2 _
      · exact hnone j q hq
    · intro j q hq hhq
      rw [Pool.prog?_set _ _ _ (Pool.prog?_some_lt hp)] at hq
      split at hq
      · next hj =>
          subst hj
          cases hq
          obtain ⟨hok, hfree⟩ := h3 hhq
          refine ⟨⟨_, hok, D.interfere_refl _⟩, fun j' q' hq' hh' => ?_⟩
          rw [Pool.prog?_set _ _ _ (Pool.prog?_some_lt hp)] at hq'
          by_contra hne
          rw [if_neg hne] at hq'
          exact hfree j' q' hne hq' hh'
      · next hj =>
          -- Another thread holds the key, so this request was only interference.
          obtain ⟨⟨sl, hok, hsl⟩, huniq⟩ := hhold j q hq hhq
          have hi : D.interfere (D.slice k s.world)
              (D.slice k (M.handle r e s.world).2) := by
            rcases h4 with hh | ht | hi
            · exact absurd (huniq i _ hp hh).symm hj
            · exact absurd hhq ((hx k r ⟨c, hp⟩ ht).2 j q hj hq)
            · exact hi
          refine ⟨⟨sl, hok, D.interfere_trans hsl hi⟩, fun j' q' hq' hh' => ?_⟩
          rw [Pool.prog?_set _ _ _ (Pool.prog?_some_lt hp)] at hq'
          split at hq'
          · cases hq'
            exact absurd hhq ((h3 hh').2 j q hj hq)
          · exact huniq j' q' hq' hh'
  · rw [heq]
    exact ⟨h, D.evolve_refl h.1⟩

/-- The run lemma: with exclusive take-ups every slice keeps its invariant,
and one more event only lets it evolve. -/
theorem kept_next {k : K} {s : Pool σ Req Ans R} {ev : Event E C V}
    (hprog : ∀ c, D.Ok M k (M.prog c) none ∧ ¬ D.Holds M k (M.prog c))
    (htick : ∀ v w, D.interfere (D.slice k w) (D.slice k (M.tick v w)))
    (h : D.Kept M k s) (hx : D.Exclusive M s ev) :
    D.Kept M k (M.next s ev) ∧
    D.evolve (D.slice k s.world) (D.slice k (M.next s ev).world) := by
  cases ev with
  | step i e => exact kept_step e h hx
  | start c =>
      obtain ⟨hinv, hnone, hhold⟩ := h
      refine ⟨⟨hinv, ?_, ?_⟩, D.evolve_refl hinv⟩
      · intro j q hq
        rw [Machine.next, Pool.prog?_append] at hq
        split at hq
        · cases hq; exact (hprog c).1
        · exact hnone j q hq
      · intro j q hq hhq
        rw [Machine.next, Pool.prog?_append] at hq
        split at hq
        · cases hq; exact absurd hhq (hprog c).2
        · obtain ⟨hsl, huniq⟩ := hhold j q hq hhq
          refine ⟨hsl, fun j' q' hq' hh' => ?_⟩
          rw [Machine.next, Pool.prog?_append] at hq'
          split at hq'
          · cases hq'; exact absurd hh' (hprog c).2
          · exact huniq j' q' hq' hh'
  | crash i =>
      obtain ⟨hinv, hnone, hhold⟩ := h
      refine ⟨⟨hinv, fun j q hq => hnone j q (Pool.prog?_kill _ _ hq), ?_⟩,
        D.evolve_refl hinv⟩
      intro j q hq hhq
      obtain ⟨hsl, huniq⟩ := hhold j q (Pool.prog?_kill _ _ hq) hhq
      exact ⟨hsl, fun j' q' hq' => huniq j' q' (Pool.prog?_kill _ _ hq')⟩
  | tick v =>
      obtain ⟨hinv, hnone, hhold⟩ := h
      have hi := htick v s.world
      refine ⟨⟨D.inv_interfere hinv hi, hnone, fun j q hq hhq => ?_⟩,
        D.evolve_interfere hinv hi⟩
      obtain ⟨⟨sl, hok, hsl⟩, huniq⟩ := hhold j q hq hhq
      exact ⟨⟨sl, hok, D.interfere_trans hsl hi⟩, huniq⟩

/-- The pool a run starts from: no thread yet, and a slice that is right. -/
theorem kept_init {k : K} {s : Pool σ Req Ans R} (ht : s.threads = [])
    (hinv : D.inv (D.slice k s.world)) : D.Kept M k s := by
  have hno : ∀ i p, s.prog? i ≠ some p := by
    intro i p hp
    have := Pool.prog?_some_lt hp
    rw [ht] at this
    exact absurd this (Nat.not_lt_zero _)
  exact ⟨hinv, fun i p hp => absurd hp (hno i p), fun i p hp => absurd hp (hno i p)⟩

theorem kept_of_reach {init : Pool σ Req Ans R → Prop} {k : K}
    (hprog : ∀ c, D.Ok M k (M.prog c) none ∧ ¬ D.Holds M k (M.prog c))
    (htick : ∀ v w, D.interfere (D.slice k w) (D.slice k (M.tick v w)))
    (h0 : ∀ s, init s → s.threads = [] ∧ D.inv (D.slice k s.world))
    {s : Pool σ Req Ans R} (h : M.Reach init (D.Exclusive M) s) : D.Kept M k s :=
  h.invariant (fun s hs => kept_init (h0 s hs).1 (h0 s hs).2)
    fun _ _ hk hx => (kept_next hprog htick hk hx).1

/-- What is kept stays kept, and over any number of further events the slice
only evolves. -/
theorem kept_evolves {k : K}
    (hprog : ∀ c, D.Ok M k (M.prog c) none ∧ ¬ D.Holds M k (M.prog c))
    (htick : ∀ v w, D.interfere (D.slice k w) (D.slice k (M.tick v w)))
    {s s' : Pool σ Req Ans R} (h : D.Kept M k s) (h' : M.ReachFrom (D.Exclusive M) s s') :
    D.Kept M k s' ∧ D.evolve (D.slice k s.world) (D.slice k s'.world) := by
  refine Machine.Reach.invariant (P := fun x => D.Kept M k x ∧
    D.evolve (D.slice k s.world) (D.slice k x.world)) ?_ ?_ h'
  · rintro _ rfl
    exact ⟨h, D.evolve_refl h.1⟩
  · intro x ev hx hcond
    obtain ⟨hk, he⟩ := kept_next hprog htick hx.1 hcond
    exact ⟨hk, D.evolve_trans hx.2 he⟩

end Discipline

end Conc
