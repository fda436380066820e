import BrokerBridge.Conc.Holding
import BrokerBridge.Conc.Task

/-!
# Protocols

A protocol is an automaton over requests and their answers: in each phase it
allows some requests, and an answer moves it to the next phase. A program
follows it when every request it can come to, whatever the answers, is allowed
in the phase the answers so far have led to.

This is where a program is left behind. What a run of many programs can do is
argued about the phases alone, of which there are few, and the programs enter
only through the proof that they follow. That proof goes through the program
once, with `Task.wp`; a stretch of it that makes only requests the protocol
does not care about is skipped with `wp_quiet`, whatever it computes.

`Outline.ok_of_follows` discharges the judgment of a discipline, when every key
has phases in which it is in hand.
-/

namespace Conc

structure Protocol (Req : Type) (Ans : Req → Type) (Ph : Type) where
  allows : Ph → Req → Prop
  advance : Ph → (r : Req) → Ans r → Ph

variable {Req : Type} {Ans : Req → Type} {Ph α β ε τ : Type}

namespace Protocol

variable (P : Protocol Req Ans Ph)

/-- One request, for the fold. -/
def step (r : Req) (next : Ans r → Ph → Prop) (ph : Ph) : Prop :=
  P.allows ph r ∧ ∀ x, next x (P.advance ph r x)

end Protocol

namespace Prog

/-- The program follows `P` from phase `ph` on, and ends as `F` says. -/
def Follows (P : Protocol Req Ans Ph) (F : α → Ph → Prop) (p : Prog Req Ans α)
    (ph : Ph) : Prop :=
  p.fold P.step F ph

variable {P : Protocol Req Ans Ph} {F : α → Ph → Prop} {r : Req}
  {k : Ans r → Prog Req Ans α} {ph : Ph}

theorem Follows.allows (h : (Prog.call r k).Follows P F ph) : P.allows ph r := h.1

theorem Follows.next (h : (Prog.call r k).Follows P F ph) (x : Ans r) :
    (k x).Follows P F (P.advance ph r x) := h.2 x

end Prog

/-! ## Stretches a protocol does not care about -/

/-- One request of a stretch that makes only requests in `N`. -/
def only (N : Req → Prop) (r : Req) (next : Ans r → Prop) : Prop :=
  N r ∧ ∀ x, next x

theorem Prog.only_mono {N N' : Req → Prop} (hN : ∀ r, N r → N' r) {F F' : α → Prop}
    (hF : ∀ a, F a → F' a) {p : Prog Req Ans α} (h : p.fold (only N) F) :
    p.fold (only N') F' := by
  induction p with
  | ret a => exact hF a h
  | call r k ih => exact ⟨hN r h.1, fun x => ih x (h.2 x)⟩

theorem Prog.step_mono {P : Protocol Req Ans Ph} {F F' : α → Ph → Prop}
    (hF : ∀ a ph, F a ph → F' a ph) {p : Prog Req Ans α} {ph : Ph}
    (h : p.fold P.step F ph) : p.fold P.step F' ph := by
  induction p generalizing ph with
  | ret a => exact hF a ph h
  | call r k ih => exact ⟨h.1, fun x => ih x (h.2 x)⟩

theorem Prog.step_and_only {N : Req → Prop} {P : Protocol Req Ans Ph} {F : α → Ph → Prop}
    {G : α → Prop} {p : Prog Req Ans α} {ph : Ph} (h : p.fold P.step F ph)
    (h' : p.fold (only N) G) : p.fold P.step (fun a ph => F a ph ∧ G a) ph := by
  induction p generalizing ph with
  | ret a => exact ⟨h, h'⟩
  | call r k ih => exact ⟨h.1, fun x => ih x (h.2 x) (h'.2 x)⟩

theorem Prog.step_of_only {N : Req → Prop} {P : Protocol Req Ans Ph} {ph : Ph}
    (hN : ∀ r, N r → P.allows ph r ∧ ∀ x, P.advance ph r x = ph) {F : α → Ph → Prop}
    {p : Prog Req Ans α} (h : p.fold (only N) fun a => F a ph) : p.fold P.step F ph := by
  induction p with
  | ret a => exact h
  | call r k ih =>
      obtain ⟨hallow, hadv⟩ := hN r h.1
      refine ⟨hallow, fun x => ?_⟩
      rw [hadv]
      exact ih x (h.2 x)

theorem Prog.step_of_allowed {N : Req → Prop} {P : Protocol Req Ans Ph} {I : Ph → Prop}
    (hN : ∀ ph r, I ph → N r → P.allows ph r ∧ ∀ x, I (P.advance ph r x)) {F : α → Prop}
    {p : Prog Req Ans α} (h : p.fold (only N) F) {ph : Ph} (hI : I ph) :
    p.fold P.step (fun a ph => F a ∧ I ph) ph := by
  induction p generalizing ph with
  | ret a => exact ⟨h, hI⟩
  | call r k ih =>
      obtain ⟨hallow, hadv⟩ := hN ph r hI h.1
      exact ⟨hallow, fun x => ih x (h.2 x) (hadv x)⟩

namespace Task

variable {N N' : Req → Prop} {P : Protocol Req Ans Ph} {t : Task Req Ans ε τ α}
  {s : τ} {ph : Ph}

/-- A stretch of requests that leave the phase where it is. -/
theorem wp_quiet (hN : ∀ r, N r → P.allows ph r ∧ ∀ x, P.advance ph r x = ph)
    {Q : α → τ → Ph → Prop} {E : ε → τ → Ph → Prop}
    (h : wp (only N) t (fun a s' => Q a s' ph) (fun e s' => E e s' ph) s) :
    wp P.step t Q E s ph := by
  refine Prog.step_of_only hN (Prog.only_mono (fun _ => id) ?_ h)
  rintro ⟨a | a, s'⟩ <;> exact id

/-- A stretch of requests that some phases allow and do not leave. -/
theorem wp_staying_in {I : Ph → Prop}
    (hN : ∀ ph r, I ph → N r → P.allows ph r ∧ ∀ x, I (P.advance ph r x)) (hI : I ph)
    {Q : α → τ → Prop} {E : ε → τ → Prop} (h : wp (only N) t Q E s) :
    wp P.step t (fun a s' ph' => Q a s' ∧ I ph') (fun e s' ph' => E e s' ∧ I ph') s ph := by
  refine Prog.step_mono ?_ (Prog.step_of_allowed hN h hI)
  rintro ⟨a | a, s'⟩ _ <;> exact id

/-- The same, when which of them they lead to does not matter. -/
theorem wp_allowed_in {I : Ph → Prop}
    (hN : ∀ ph r, I ph → N r → P.allows ph r ∧ ∀ x, I (P.advance ph r x)) (hI : I ph)
    {Q : α → τ → Prop} {E : ε → τ → Prop} (h : wp (only N) t Q E s) :
    wp P.step t (fun a s' _ => Q a s') (fun e s' _ => E e s') s ph := by
  refine Prog.step_mono ?_ (wp_staying_in hN hI h)
  rintro ⟨a | a, s'⟩ _ h' <;> exact h'.1

/-- The same, when every phase allows them. -/
theorem wp_allowed (hN : ∀ ph r, N r → P.allows ph r) {Q : α → τ → Prop} {E : ε → τ → Prop}
    (h : wp (only N) t Q E s) :
    wp P.step t (fun a s' _ => Q a s') (fun e s' _ => E e s') s ph :=
  wp_allowed_in (I := fun _ => True) (fun ph r _ hr => ⟨hN ph r hr, fun _ => trivial⟩)
    trivial h

/-- The consequence rule. -/
theorem wp_step_mono {Q Q' : α → τ → Ph → Prop} {E E' : ε → τ → Ph → Prop}
    (h : wp P.step t Q E s ph) (hQ : ∀ a s ph, Q a s ph → Q' a s ph)
    (hE : ∀ e s ph, E e s ph → E' e s ph) : wp P.step t Q' E' s ph := by
  refine Prog.step_mono ?_ h
  rintro ⟨a | a, s'⟩ ph
  · exact hE a s' ph
  · exact hQ a s' ph

/-- What a protocol says of a stretch, and what else is known of it. -/
theorem wp_step_and {Q : α → τ → Ph → Prop} {E : ε → τ → Ph → Prop} {Q' : α → τ → Prop}
    {E' : ε → τ → Prop} (h : wp P.step t Q E s ph) (h' : wp (only N) t Q' E' s) :
    wp P.step t (fun a s ph => Q a s ph ∧ Q' a s) (fun e s ph => E e s ph ∧ E' e s) s ph := by
  refine Prog.step_mono ?_ (Prog.step_and_only h h')
  rintro ⟨a | a, s'⟩ _ <;> exact id

/-- The consequence rule for a stretch. -/
theorem wp_only_mono (hN : ∀ r, N r → N' r) {Q Q' : α → τ → Prop} {E E' : ε → τ → Prop}
    (h : wp (only N) t Q E s) (hQ : ∀ a s, Q a s → Q' a s)
    (hE : ∀ e s, E e s → E' e s) : wp (only N') t Q' E' s := by
  refine Prog.only_mono hN ?_ h
  rintro ⟨a | a, s'⟩
  · exact hE a s'
  · exact hQ a s'

end Task

/-! ## Disciplines from protocols -/

namespace Discipline

variable {σ E C V R K S : Type} {D : Discipline σ Req K S}
  {M : Machine σ Req Ans E C V R} {P : Protocol Req Ans Ph} {k : K}

/-- What a protocol has to say about key `k`: the phases in which the key is
in hand, an assertion on the slice for each, and why the requests allowed in
the others do not touch the slice. -/
structure Outline (D : Discipline σ Req K S) (M : Machine σ Req Ans E C V R)
    (P : Protocol Req Ans Ph) (k : K) where
  own : Ph → Prop
  assert : Ph → S → Prop
  stable : ∀ {ph a b}, assert ph a → D.interfere a b → assert ph b
  /-- A take-up, on a ready slice. -/
  taken : ∀ {ph r}, P.allows ph r → D.takeUp k r → ∀ e w, D.inv (D.slice k w) →
    D.ready r (D.slice k w) →
    D.inv (D.slice k (M.handle r e w).2) ∧
    D.evolve (D.slice k w) (D.slice k (M.handle r e w).2) ∧
    (own (P.advance ph r (M.handle r e w).1) →
      assert (P.advance ph r (M.handle r e w).1) (D.slice k (M.handle r e w).2))
  /-- A request with the key in hand. -/
  kept : ∀ {ph r}, P.allows ph r → ¬ D.takeUp k r → own ph → ∀ e w,
    assert ph (D.slice k w) → D.inv (D.slice k w) →
    D.inv (D.slice k (M.handle r e w).2) ∧
    D.evolve (D.slice k w) (D.slice k (M.handle r e w).2) ∧
    (own (P.advance ph r (M.handle r e w).1) →
      assert (P.advance ph r (M.handle r e w).1) (D.slice k (M.handle r e w).2))
  /-- A request without it. -/
  away : ∀ {ph r}, P.allows ph r → ¬ D.takeUp k r → ¬ own ph →
    ¬ D.Touches M k r ∧ ∀ x, ¬ own (P.advance ph r x)

variable {O : Outline D M P k} {F : R → Ph → Prop} {p : Prog Req Ans R} {ph : Ph}

theorem Outline.ok_none (O : Outline D M P k) (h : p.Follows P F ph) : D.Ok M k p none ∧
    ∀ sl, (O.own ph → O.assert ph sl) → D.Ok M k p (some sl) := by
  induction p generalizing ph with
  | ret a => exact ⟨trivial, fun _ _ => trivial⟩
  | call r c ih =>
      refine ⟨⟨fun ht e w hinv hready => ?_, fun x => (ih x (h.next x)).1⟩, fun sl hsl => ?_⟩
      · obtain ⟨h1, h2, h3⟩ := O.taken h.allows ht e w hinv hready
        exact ⟨h1, h2, (ih _ (h.next _)).2 _ h3⟩
      · by_cases ht : D.takeUp k r
        · exact .inl ht
        refine .inr fun e w hi hinv => ?_
        by_cases ho : O.own ph
        · obtain ⟨h1, h2, h3⟩ := O.kept h.allows ht ho e w (O.stable (hsl ho) hi) hinv
          exact ⟨h1, h2, (ih _ (h.next _)).2 _ h3⟩
        · obtain ⟨hnt, hadv⟩ := O.away h.allows ht ho
          have hi' := not_touches hnt e w
          exact ⟨D.inv_interfere hinv hi', D.evolve_interfere hinv hi',
            (ih _ (h.next _)).2 _ fun ho' => absurd ho' (hadv _)⟩

/-- Without the key in hand, a program does not hold it. -/
theorem Outline.not_holds (O : Outline D M P k) (h : p.Follows P F ph)
    (ho : ¬ O.own ph) : ¬ D.Holds M k p := by
  induction p generalizing ph with
  | ret a => exact Prog.not_before_ret
  | call r c ih =>
      rintro ⟨hnt, ht | ⟨x, hx⟩⟩
      · exact (O.away h.allows hnt ho).1 ht
      · exact ih x (h.next x) ((O.away h.allows hnt ho).2 x) hx

/-- Calls that follow the protocol from a phase without the key keep the
discipline. -/
theorem Outline.ok_of_follows (O : Outline D M P k) (h : p.Follows P F ph)
    (ho : ¬ O.own ph) : D.Ok M k p none ∧ ¬ D.Holds M k p :=
  ⟨(O.ok_none h).1, O.not_holds h ho⟩

end Discipline

end Conc
