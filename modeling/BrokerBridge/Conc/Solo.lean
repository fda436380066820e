import BrokerBridge.Conc.Pool
import BrokerBridge.Conc.Protocol

/-!
# One program alone

The run of a program with nothing between its requests: the n-th request is
answered by the n-th environment value. Such runs are the sequential ones; what
holds of all of them is a fold again, over predicates of the world, so `Task.wp`
is a Hoare logic for them. The environment values may be restricted, to runs in
which nothing fails for example.

A solo run is a run of the pool in which only that program's thread moves.

Two answers built from another make more of these runs. `amid` lets something
else change the state before each request, so a fold over it speaks of a program
among others it does not know. `tracked` moves a phase by every answer, so a fold
may speak of what the program has been told. `turn` restricts the environments by
the request they answer, where some requests may fail and others not.
-/

namespace Conc

variable {σ Req : Type} {Ans : Req → Type} {E C V R α : Type}

/-- The program run alone: what it returns and the world it leaves. -/
def Prog.solo (handle : (r : Req) → E → σ → Ans r × σ) :
    Prog Req Ans α → (Nat → E) → σ → α × σ
  | .ret a, _, w => (a, w)
  | .call r k, env, w =>
      (k (handle r (env 0) w).1).solo handle (fun n => env (n + 1)) (handle r (env 0) w).2

/-- The requests of that run, each with its answer. -/
def Prog.heard (handle : (r : Req) → E → σ → Ans r × σ) :
    Prog Req Ans α → (Nat → E) → σ → List ((r : Req) × Ans r)
  | .ret _, _, _ => []
  | .call r k, env, w =>
      ⟨r, (handle r (env 0) w).1⟩ ::
        (k (handle r (env 0) w).1).heard handle (fun n => env (n + 1)) (handle r (env 0) w).2

/-- The first environment value, and the others. -/
def follow (e : E) (env : Nat → E) : Nat → E
  | 0 => e
  | n + 1 => env n

/-- The state after the first `n` requests of that run. -/
def Prog.partway (handle : (r : Req) → E → σ → Ans r × σ) :
    Prog Req Ans α → Nat → (Nat → E) → σ → σ
  | .ret _, _, _, w => w
  | .call _ _, 0, _, w => w
  | .call r k, n + 1, env, w =>
      (k (handle r (env 0) w).1).partway handle n (fun n => env (n + 1)) (handle r (env 0) w).2

/-- The answer, when the state has been changed by `x.1` before the request. -/
def amid (handle : (r : Req) → E → σ → Ans r × σ) (r : Req) (x : (σ → σ) × E) (w : σ) :
    Ans r × σ :=
  handle r x.2 (x.1 w)

/-- The answer, with a phase beside the state. -/
def tracked {Ph : Type} (handle : (r : Req) → E → σ → Ans r × σ)
    (advance : Ph → (r : Req) → Ans r → Ph) (r : Req) (e : E) (s : σ × Ph) : Ans r × (σ × Ph) :=
  ((handle r e s.1).1, (handle r e s.1).2, advance s.2 r (handle r e s.1).1)

/-- The phase that keeps every answer. -/
def listening (l : List ((r : Req) × Ans r)) (r : Req) (x : Ans r) : List ((r : Req) × Ans r) :=
  l ++ [⟨r, x⟩]

theorem foldl_listening (heard l : List ((r : Req) × Ans r)) :
    heard.foldl (fun l x => listening l x.1 x.2) l = l ++ heard := by
  induction heard generalizing l with
  | nil => exact (List.append_nil l).symm
  | cons x heard ih => exact (ih _).trans (List.append_assoc ..)

/-- Tracking a phase changes nothing, and ends in the phase the answers lead to. -/
theorem Prog.solo_tracked {Ph : Type} (handle : (r : Req) → E → σ → Ans r × σ)
    (advance : Ph → (r : Req) → Ans r → Ph) (p : Prog Req Ans α) (env : Nat → E) (w : σ)
    (ph : Ph) :
    p.solo (tracked handle advance) env (w, ph) =
      ((p.solo handle env w).1, (p.solo handle env w).2,
        (p.heard handle env w).foldl (fun ph x => advance ph x.1 x.2) ph) := by
  induction p generalizing env w ph with
  | ret a => rfl
  | call r k ih => exact ih _ _ _ _

/-- One request, whatever environment value in `A` answers it. -/
def alone (handle : (r : Req) → E → σ → Ans r × σ) (A : E → Prop) (r : Req)
    (next : Ans r → σ → Prop) (w : σ) : Prop :=
  ∀ e, A e → next (handle r e w).1 (handle r e w).2

section Runs

variable {handle : (r : Req) → E → σ → Ans r × σ} {A : E → Prop} {Q : α → σ → Prop}

theorem Prog.solo_of_alone {p : Prog Req Ans α} {w : σ} (h : p.fold (alone handle A) Q w)
    {env : Nat → E} (henv : ∀ n, A (env n)) :
    Q (p.solo handle env w).1 (p.solo handle env w).2 := by
  induction p generalizing env w with
  | ret a => exact h
  | call r k ih => exact ih _ (h (env 0) (henv 0)) fun n => henv (n + 1)

theorem Prog.alone_mono {Q' : α → σ → Prop} (hQ : ∀ a w, Q a w → Q' a w) {p : Prog Req Ans α}
    {w : σ} (h : p.fold (alone handle A) Q w) : p.fold (alone handle A) Q' w := by
  induction p generalizing w with
  | ret a => exact hQ a w h
  | call r k ih => exact fun e he => ih _ (h e he)

/-- A stretch of requests each of which keeps `J`. -/
theorem Prog.alone_of_only {N : Req → Prop} {J : σ → Prop} {F : α → Prop}
    (hN : ∀ r, N r → ∀ e, A e → ∀ w, J w → J (handle r e w).2) {p : Prog Req Ans α} {w : σ}
    (h : p.fold (only N) F) (hw : J w) : p.fold (alone handle A) (fun a w' => F a ∧ J w') w := by
  induction p generalizing w with
  | ret a => exact ⟨h, hw⟩
  | call r k ih => exact fun e he => ih _ (h.2 _) (hN r h.1 e he w hw)

/-- What holds whatever is answered holds there too. -/
theorem Prog.alone_and_only {N : Req → Prop} {F : α → Prop} {p : Prog Req Ans α} {w : σ}
    (h : p.fold (alone handle A) Q w) (h' : p.fold (only N) F) :
    p.fold (alone handle A) (fun a w => Q a w ∧ F a) w := by
  induction p generalizing w with
  | ret a => exact ⟨h, h'⟩
  | call r k ih => exact fun e he => ih _ (h e he) (h'.2 _)

/-- A program that follows a protocol, alone: what every allowed request keeps, of the
state and the phase, holds at its end. -/
theorem Prog.alone_of_step {Ph : Type} {P : Protocol Req Ans Ph} {J : σ → Ph → Prop}
    {F : α → Ph → Prop}
    (hJ : ∀ ph r, P.allows ph r → ∀ e, A e → ∀ w, J w ph →
      J (handle r e w).2 (P.advance ph r (handle r e w).1))
    {p : Prog Req Ans α} {w : σ} {ph : Ph} (h : p.fold P.step F ph) (hw : J w ph) :
    p.fold (alone (tracked handle P.advance) A) (fun a s => F a s.2 ∧ J s.1 s.2) (w, ph) := by
  induction p generalizing w ph with
  | ret a => exact ⟨h, hw⟩
  | call r k ih => exact fun e he => ih _ (h.2 _) (hJ ph r h.1 e he w hw)

theorem Prog.alone_and {Q' : α → σ → Prop} {p : Prog Req Ans α} {w : σ}
    (h : p.fold (alone handle A) Q w) (h' : p.fold (alone handle A) Q' w) :
    p.fold (alone handle A) (fun a w => Q a w ∧ Q' a w) w := by
  induction p generalizing w with
  | ret a => exact ⟨h, h'⟩
  | call r k ih => exact fun e he => ih _ (h e he) (h' e he)

/-- What is proved with a phase holds of the phase that the answers lead to. -/
theorem Prog.alone_listened {Ph : Type} {advance : Ph → (r : Req) → Ans r → Ph}
    {Q : α → σ × Ph → Prop} {p : Prog Req Ans α} {w : σ} {ph : Ph}
    (h : p.fold (alone (tracked handle advance) A) Q (w, ph)) (l : List ((r : Req) × Ans r)) :
    p.fold (alone (tracked handle listening) A) (fun a y => ∃ seg, y.2 = l ++ seg ∧
      Q a (y.1, seg.foldl (fun ph x => advance ph x.1 x.2) ph)) (w, l) := by
  induction p generalizing w ph l with
  | ret a => exact ⟨[], (List.append_nil l).symm, h⟩
  | call r k ih =>
      intro e he
      have hrest := ih _ (h e he) (l ++ [⟨r, (handle r e w).1⟩])
      refine Prog.alone_mono (Q := fun a y => ∃ seg, _) ?_ hrest
      rintro a y ⟨seg, hseg, hQ⟩
      exact ⟨⟨r, (handle r e w).1⟩ :: seg, by rw [hseg, List.append_assoc]; rfl, hQ⟩

/-- A stretch of requests in `N` adds those, with their answers. -/
theorem Prog.listened_of_only {N : Req → Prop} {F : α → Prop} {p : Prog Req Ans α} {w : σ}
    (h : p.fold (only N) F) (l : List ((r : Req) × Ans r)) :
    p.fold (alone (tracked handle listening) A)
      (fun a y => F a ∧ ∃ seg, y.2 = l ++ seg ∧ ∀ x ∈ seg, N x.1) (w, l) := by
  induction p generalizing w l with
  | ret a => exact ⟨h, [], (List.append_nil l).symm, List.forall_mem_nil _⟩
  | call r k ih =>
      intro e he
      have hrest := ih (handle r e w).1 (w := (handle r e w).2) (h.2 _)
        (l ++ [⟨r, (handle r e w).1⟩])
      refine Prog.alone_mono (Q := fun a y => F a ∧ ∃ seg, _) ?_ hrest
      rintro a y ⟨ha, seg, hseg, hN⟩
      exact ⟨ha, ⟨r, (handle r e w).1⟩ :: seg, by rw [hseg, List.append_assoc]; rfl,
        List.forall_mem_cons.mpr ⟨h.1, hN⟩⟩

/-- Fewer environments. -/
theorem Prog.alone_of_fewer {A' : E → Prop} (hA : ∀ e, A' e → A e) {p : Prog Req Ans α} {w : σ}
    (h : p.fold (alone handle A) Q w) : p.fold (alone handle A') Q w := by
  induction p generalizing w with
  | ret a => exact h
  | call r k ih => exact fun e he => ih _ (h e (hA e he))

end Runs

/-- One request, answered by the first of the environment values that are left. -/
def nextUp (handle : (r : Req) → E → σ → Ans r × σ) (r : Req)
    (next : Ans r → (Nat → E) → σ → Prop) (env : Nat → E) (w : σ) : Prop :=
  next (handle r (env 0) w).1 (fun n => env (n + 1)) (handle r (env 0) w).2

section Counted

variable {handle : (r : Req) → E → σ → Ans r × σ} {Q : α → σ → Prop} {p : Prog Req Ans α}
  {env : Nat → E} {w : σ}

/-- What comes of a run, when what is claimed may speak of its n-th answer. -/
theorem Prog.solo_iff_nextUp :
    Q (p.solo handle env w).1 (p.solo handle env w).2 ↔
      p.fold (nextUp handle) (fun a _ w => Q a w) env w := by
  induction p generalizing env w with
  | ret a => rfl
  | call r k ih => exact ih _

end Counted

/-- One request that is in `N`, in any environment. -/
def guarded (N : Req → Prop) (handle : (r : Req) → E → σ → Ans r × σ) (r : Req)
    (next : Ans r → σ → Prop) (w : σ) : Prop :=
  N r ∧ ∀ e, next (handle r e w).1 (handle r e w).2

section Guarded

variable {handle : (r : Req) → E → σ → Ans r × σ} {N : Req → Prop} {Q : α → σ → Prop}
  {p : Prog Req Ans α} {w : σ}

/-- What a run asks. -/
theorem Prog.heard_of_guarded (h : p.fold (guarded N handle) Q w) (env : Nat → E) :
    ∀ x ∈ p.heard handle env w, N x.1 := by
  induction p generalizing env w with
  | ret a => exact List.forall_mem_nil _
  | call r k ih =>
      intro x hx
      rcases List.mem_cons.mp hx with rfl | hx
      · exact h.1
      · exact ih _ (h.2 (env 0)) _ x hx

theorem Prog.guarded_mono {Q' : α → σ → Prop} (hQ : ∀ a w, Q a w → Q' a w)
    (h : p.fold (guarded N handle) Q w) : p.fold (guarded N handle) Q' w := by
  induction p generalizing w with
  | ret a => exact hQ a w h
  | call r k ih => exact ⟨h.1, fun e => ih _ (h.2 e)⟩

theorem Prog.guarded_of_only {F : α → Prop} (h : p.fold (only N) F) :
    p.fold (guarded N handle) (fun a _ => F a) w := by
  induction p generalizing w with
  | ret a => exact h
  | call r k ih => exact ⟨h.1, fun e => ih _ (h.2 _)⟩

end Guarded

/-! ## Environments that depend on the request -/

/-- One request, answered in any environment that suits it. -/
def turn (handle : (r : Req) → E → σ → Ans r × σ) (A : Req → E → Prop) (r : Req)
    (next : Ans r → σ → Prop) (w : σ) : Prop :=
  ∀ e, A r e → next (handle r e w).1 (handle r e w).2

/-- Every request of the solo run meets an environment that suits it. -/
def Prog.Suits (handle : (r : Req) → E → σ → Ans r × σ) (A : Req → E → Prop) :
    Prog Req Ans α → (Nat → E) → σ → Prop
  | .ret _, _, _ => True
  | .call r k, env, w =>
      A r (env 0) ∧ (k (handle r (env 0) w).1).Suits handle A (fun n => env (n + 1))
        (handle r (env 0) w).2

/-- `Suits`, computed. -/
def Prog.suitsCheck (handle : (r : Req) → E → σ → Ans r × σ) (A : Req → E → Bool) :
    Prog Req Ans α → (Nat → E) → σ → Bool
  | .ret _, _, _ => true
  | .call r k, env, w =>
      A r (env 0) && (k (handle r (env 0) w).1).suitsCheck handle A (fun n => env (n + 1))
        (handle r (env 0) w).2

section Turns

variable {handle : (r : Req) → E → σ → Ans r × σ} {A : Req → E → Prop} {Q : α → σ → Prop}

theorem Prog.solo_of_turn {p : Prog Req Ans α} {env : Nat → E} {w : σ}
    (h : p.fold (turn handle A) Q w) (henv : p.Suits handle A env w) :
    Q (p.solo handle env w).1 (p.solo handle env w).2 := by
  induction p generalizing env w with
  | ret a => exact h
  | call r k ih => exact ih _ (h (env 0) henv.1) henv.2

theorem Prog.turn_mono {Q' : α → σ → Prop} (hQ : ∀ a w, Q a w → Q' a w) {p : Prog Req Ans α}
    {w : σ} (h : p.fold (turn handle A) Q w) : p.fold (turn handle A) Q' w := by
  induction p generalizing w with
  | ret a => exact hQ a w h
  | call r k ih => exact fun e he => ih _ (h e he)

/-- A stretch of requests each of which keeps `J`. -/
theorem Prog.turn_of_only {N : Req → Prop} {J : σ → Prop} {F : α → Prop}
    (hN : ∀ r, N r → ∀ e, A r e → ∀ w, J w → J (handle r e w).2) {p : Prog Req Ans α} {w : σ}
    (h : p.fold (only N) F) (hw : J w) : p.fold (turn handle A) (fun a w' => F a ∧ J w') w := by
  induction p generalizing w with
  | ret a => exact ⟨h, hw⟩
  | call r k ih => exact fun e he => ih _ (h.2 _) (hN r h.1 e he w hw)

theorem Prog.turn_and {Q' : α → σ → Prop} {p : Prog Req Ans α} {w : σ}
    (h : p.fold (turn handle A) Q w) (h' : p.fold (turn handle A) Q' w) :
    p.fold (turn handle A) (fun a w => Q a w ∧ Q' a w) w := by
  induction p generalizing w with
  | ret a => exact ⟨h, h'⟩
  | call r k ih => exact fun e he => ih _ (h e he) (h' e he)

/-- Where every answer moves the state along `Rel`, a stretch of them does. -/
theorem Prog.turn_along {Rel : σ → σ → Prop} (hrefl : ∀ w, Rel w w)
    (htrans : ∀ {u v w}, Rel u v → Rel v w → Rel u w) (hstep : ∀ r e w, Rel w (handle r e w).2)
    {p : Prog Req Ans α} {w : σ} (h : p.fold (turn handle A) Q w) :
    p.fold (turn handle A) (fun a w' => Q a w' ∧ Rel w w') w := by
  induction p generalizing w with
  | ret a => exact ⟨h, hrefl w⟩
  | call r k ih =>
      intro e he
      refine Prog.turn_mono ?_ (ih _ (h e he))
      exact fun a w' hend => ⟨hend.1, htrans (hstep r e w) hend.2⟩

theorem Prog.solo_along {Rel : σ → σ → Prop} (hrefl : ∀ w, Rel w w)
    (htrans : ∀ {u v w}, Rel u v → Rel v w → Rel u w) (hstep : ∀ r e w, Rel w (handle r e w).2)
    (p : Prog Req Ans α) (env : Nat → E) (w : σ) : Rel w (p.solo handle env w).2 := by
  induction p generalizing env w with
  | ret a => exact hrefl w
  | call r k ih => exact htrans (hstep r (env 0) w) (ih _ _ _)

/-- What is proved without a phase holds with one. -/
theorem Prog.turn_tracked {Ph : Type} (advance : Ph → (r : Req) → Ans r → Ph) {p : Prog Req Ans α}
    {w : σ} (h : p.fold (turn handle A) Q w) (ph : Ph) :
    p.fold (turn (tracked handle advance) A) (fun a s => Q a s.1) (w, ph) := by
  induction p generalizing w ph with
  | ret a => exact h
  | call r k ih => exact fun e he => ih _ (h e he) _

theorem Prog.suits_of_forall {env : Nat → E} (h : ∀ r n, A r (env n)) (p : Prog Req Ans α) (w : σ) :
    p.Suits handle A env w := by
  induction p generalizing env w with
  | ret a => trivial
  | call r k ih => exact ⟨h r 0, ih _ (fun r n => h r (n + 1)) _⟩

theorem Prog.suits_of_check {B : Req → E → Bool} (hB : ∀ r e, B r e = true → A r e)
    {p : Prog Req Ans α} {env : Nat → E} {w : σ} (h : p.suitsCheck handle B env w = true) :
    p.Suits handle A env w := by
  induction p generalizing env w with
  | ret a => trivial
  | call r k ih =>
      obtain ⟨hr, hrest⟩ := Bool.and_eq_true_iff.mp h
      exact ⟨hB r _ hr, ih _ hrest⟩

/-- Tracking a phase changes nothing there either. -/
theorem Prog.suits_tracked {Ph : Type} (advance : Ph → (r : Req) → Ans r → Ph)
    {p : Prog Req Ans α} {env : Nat → E} {w : σ} (h : p.Suits handle A env w) (ph : Ph) :
    p.Suits (tracked handle advance) A env (w, ph) := by
  induction p generalizing env w ph with
  | ret a => trivial
  | call r k ih => exact ⟨h.1, ih _ h.2 _⟩

end Turns

namespace Task

variable {ε τ β : Type} {handle : (r : Req) → E → σ → Ans r × σ} {A : E → Prop}
  {t : Task Req Ans ε τ α} {s : τ} {w : σ}

/-- The consequence rule. -/
theorem wp_alone_mono {Q Q' : α → τ → σ → Prop} {X X' : ε → τ → σ → Prop}
    (h : wp (alone handle A) t Q X s w) (hQ : ∀ a s w, Q a s w → Q' a s w)
    (hX : ∀ e s w, X e s w → X' e s w) : wp (alone handle A) t Q' X' s w := by
  refine Prog.alone_mono ?_ h
  rintro ⟨a | a, s'⟩ w
  · exact hX a s' w
  · exact hQ a s' w

/-- A stretch of requests each of which keeps `J`. -/
theorem wp_alone_of_only {N : Req → Prop} {J : σ → Prop} {Q : α → τ → Prop} {X : ε → τ → Prop}
    (hN : ∀ r, N r → ∀ e, A e → ∀ w, J w → J (handle r e w).2) (h : wp (only N) t Q X s)
    (hw : J w) :
    wp (alone handle A) t (fun a s w => Q a s ∧ J w) (fun e s w => X e s ∧ J w) s w := by
  refine Prog.alone_mono ?_ (Prog.alone_of_only hN h hw)
  rintro ⟨a | a, s'⟩ w' <;> exact id

/-- What holds whatever is answered holds there too. -/
theorem wp_alone_and_only {N : Req → Prop} {Q : α → τ → σ → Prop} {X : ε → τ → σ → Prop}
    {Q' : α → τ → Prop} {X' : ε → τ → Prop} (h : wp (alone handle A) t Q X s w)
    (h' : wp (only N) t Q' X' s) :
    wp (alone handle A) t (fun a s w => Q a s w ∧ Q' a s) (fun e s w => X e s w ∧ X' e s) s w := by
  refine Prog.alone_mono ?_ (Prog.alone_and_only h h')
  rintro ⟨a | a, s'⟩ w' <;> exact id

/-- Two things that hold of the same runs. -/
theorem wp_alone_and {Q Q' : α → τ → σ → Prop} {X X' : ε → τ → σ → Prop}
    (h : wp (alone handle A) t Q X s w) (h' : wp (alone handle A) t Q' X' s w) :
    wp (alone handle A) t (fun a s w => Q a s w ∧ Q' a s w) (fun e s w => X e s w ∧ X' e s w)
      s w := by
  refine Prog.alone_mono ?_ (Prog.alone_and h h')
  rintro ⟨a | a, s'⟩ w' <;> exact id

/-- What is proved with a phase holds of the phase that the answers lead to. -/
theorem wp_alone_listened {Ph : Type} {advance : Ph → (r : Req) → Ans r → Ph}
    {Q : α → τ → σ × Ph → Prop} {X : ε → τ → σ × Ph → Prop} {ph : Ph}
    (h : wp (alone (tracked handle advance) A) t Q X s (w, ph)) (l : List ((r : Req) × Ans r)) :
    wp (alone (tracked handle listening) A) t
      (fun a s y => ∃ seg, y.2 = l ++ seg ∧
        Q a s (y.1, seg.foldl (fun ph x => advance ph x.1 x.2) ph))
      (fun e s y => ∃ seg, y.2 = l ++ seg ∧
        X e s (y.1, seg.foldl (fun ph x => advance ph x.1 x.2) ph)) s (w, l) := by
  refine Prog.alone_mono ?_ (Prog.alone_listened h l)
  rintro ⟨a | a, s'⟩ y <;> exact id

/-- A stretch of requests in `N` adds those, with their answers. -/
theorem wp_listened_of_only {N : Req → Prop} {Q : α → τ → Prop} {X : ε → τ → Prop}
    (h : wp (only N) t Q X s) (l : List ((r : Req) × Ans r)) :
    wp (alone (tracked handle listening) A) t
      (fun a s y => Q a s ∧ ∃ seg, y.2 = l ++ seg ∧ ∀ x ∈ seg, N x.1)
      (fun e s y => X e s ∧ ∃ seg, y.2 = l ++ seg ∧ ∀ x ∈ seg, N x.1) s (w, l) := by
  refine Prog.alone_mono ?_ (Prog.listened_of_only h l)
  rintro ⟨a | a, s'⟩ y <;> exact id

/-- Fewer environments. -/
theorem wp_alone_of_fewer {A' : E → Prop} (hA : ∀ e, A' e → A e) {Q : α → τ → σ → Prop}
    {X : ε → τ → σ → Prop} (h : wp (alone handle A) t Q X s w) : wp (alone handle A') t Q X s w :=
  Prog.alone_of_fewer hA h

/-- A stretch that follows a protocol, alone. -/
theorem wp_alone_of_step {Ph : Type} {P : Protocol Req Ans Ph} {J : σ → Ph → Prop}
    {Q : α → τ → Ph → Prop} {X : ε → τ → Ph → Prop} {ph : Ph}
    (hJ : ∀ ph r, P.allows ph r → ∀ e, A e → ∀ w, J w ph →
      J (handle r e w).2 (P.advance ph r (handle r e w).1))
    (h : wp P.step t Q X s ph) (hw : J w ph) :
    wp (alone (tracked handle P.advance) A) t (fun a s y => Q a s y.2 ∧ J y.1 y.2)
      (fun e s y => X e s y.2 ∧ J y.1 y.2) s (w, ph) := by
  refine Prog.alone_mono ?_ (Prog.alone_of_step hJ h hw)
  rintro ⟨a | a, s'⟩ y <;> exact id

/-- The consequence rule, where the environments depend on the request. -/
theorem wp_turn_mono {B : Req → E → Prop} {Q Q' : α → τ → σ → Prop} {X X' : ε → τ → σ → Prop}
    (h : wp (turn handle B) t Q X s w) (hQ : ∀ a s w, Q a s w → Q' a s w)
    (hX : ∀ e s w, X e s w → X' e s w) : wp (turn handle B) t Q' X' s w := by
  refine Prog.turn_mono ?_ h
  rintro ⟨a | a, s'⟩ w
  · exact hX a s' w
  · exact hQ a s' w

/-- What comes of a run, however it ends. -/
theorem solo_iff_nextUp {P : σ → Prop} {env : Nat → E} :
    P ((t s).solo handle env w).2 ↔
      wp (nextUp handle) t (fun _ _ _ w => P w) (fun _ _ _ w => P w) s env w := by
  rw [Prog.solo_iff_nextUp (Q := fun _ w => P w), wp]
  refine iff_of_eq (congrFun (congrFun (congrArg _ (funext fun r => ?_)) env) w)
  obtain ⟨r | r, s'⟩ := r <;> rfl

/-- The consequence rule, where the requests are in `N`. -/
theorem wp_guarded_mono {N : Req → Prop} {Q Q' : α → τ → σ → Prop} {X X' : ε → τ → σ → Prop}
    (h : wp (guarded N handle) t Q X s w) (hQ : ∀ a s w, Q a s w → Q' a s w)
    (hX : ∀ e s w, X e s w → X' e s w) : wp (guarded N handle) t Q' X' s w := by
  refine Prog.guarded_mono ?_ h
  rintro ⟨a | a, s'⟩ w
  · exact hX a s' w
  · exact hQ a s' w

/-- A stretch of requests in `N`, whatever is answered. -/
theorem wp_guarded_of_only {N : Req → Prop} {Q : α → τ → Prop} {X : ε → τ → Prop}
    (h : wp (only N) t Q X s) :
    wp (guarded N handle) t (fun a s _ => Q a s) (fun e s _ => X e s) s w := by
  refine Prog.guarded_mono ?_ (Prog.guarded_of_only h)
  rintro ⟨a | a, s'⟩ w' <;> exact id

end Task

end Conc
