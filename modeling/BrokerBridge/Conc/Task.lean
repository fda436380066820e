import BrokerBridge.Conc.Prog

/-!
# Tasks: programs with exceptions and a local state

The coroutines of the code raise and catch exceptions, and each carries a
local state of its own that an exception does not undo. `Task` adds both to
`Prog`. Its judgment is `wp`, the fold of the underlying program with one
postcondition for returning and one for raising; the lemmas below push it
through the combinators of `do` notation, whatever the interpretation of the
requests is, so that a program is stepped through in the same way for a
sequential run, for an invariant, and for a schedule.
-/

namespace Conc

/-- A coroutine that returns an `α` or raises an `ε`, over a local state `τ`. -/
def Task (Req : Type) (Ans : Req → Type) (ε τ α : Type) : Type :=
  τ → Prog Req Ans (Except ε α × τ)

namespace Task

variable {Req : Type} {Ans : Req → Type} {ε τ α β : Type} {X : Type*}

protected def pure (a : α) : Task Req Ans ε τ α := fun s => .ret (.ok a, s)

protected def bind (t : Task Req Ans ε τ α) (f : α → Task Req Ans ε τ β) :
    Task Req Ans ε τ β := fun s =>
  (t s).bind fun r =>
    match r.1 with
    | .ok a => f a r.2
    | .error e => .ret (.error e, r.2)

instance : Monad (Task Req Ans ε τ) where
  pure := Task.pure
  bind := Task.bind

/-- Raise an exception. -/
def raise (e : ε) : Task Req Ans ε τ α := fun s => .ret (.error e, s)

/-- Run `handler` on an exception of `t`; what `t` did to the local state stays. -/
def catching (t : Task Req Ans ε τ α) (handler : ε → Task Req Ans ε τ α) :
    Task Req Ans ε τ α := fun s =>
  (t s).bind fun r =>
    match r.1 with
    | .ok a => .ret (.ok a, r.2)
    | .error e => handler e r.2

/-- Run `last` however `t` ends; an exception of `last` replaces its result. -/
def finally' (t : Task Req Ans ε τ α) (last : Task Req Ans ε τ Unit) :
    Task Req Ans ε τ α := fun s =>
  (t s).bind fun r =>
    (last r.2).bind fun r' =>
      match r'.1 with
      | .ok _ => .ret (r.1, r'.2)
      | .error e => .ret (.error e, r'.2)

/-- Make a request and return its answer. -/
def ask (r : Req) : Task Req Ans ε τ (Ans r) := fun s =>
  .call r fun x => .ret (.ok x, s)

/-- The local state. -/
def local' : Task Req Ans ε τ τ := fun s => .ret (.ok s, s)

/-- Change the local state. -/
def modifyLocal (f : τ → τ) : Task Req Ans ε τ Unit := fun s => .ret (.ok (), f s)

/-- The judgment: the fold of the program from local state `s`, with `Q` for
returning and `E` for raising. -/
def wp (g : (r : Req) → (Ans r → X) → X) (t : Task Req Ans ε τ α)
    (Q : α → τ → X) (E : ε → τ → X) (s : τ) : X :=
  (t s).fold g fun r =>
    match r.1 with
    | .ok a => Q a r.2
    | .error e => E e r.2

section Rules

variable {g : (r : Req) → (Ans r → X) → X} {E : ε → τ → X} {s : τ}

@[simp] theorem wp_pure {a : α} {Q : α → τ → X} :
    wp g (pure a : Task Req Ans ε τ α) Q E s = Q a s := rfl

@[simp] theorem wp_bind {t : Task Req Ans ε τ α} {f : α → Task Req Ans ε τ β}
    {Q : β → τ → X} :
    wp g (t >>= f) Q E s = wp g t (fun a s' => wp g (f a) Q E s') E s := by
  show Prog.fold g ((t s).bind _) _ = _
  rw [Prog.fold_bind]
  refine congrArg _ (funext fun r => ?_)
  obtain ⟨r | r, s'⟩ := r <;> rfl

@[simp] theorem wp_raise {e : ε} {Q : α → τ → X} :
    wp g (raise e : Task Req Ans ε τ α) Q E s = E e s := rfl

@[simp] theorem wp_catching {t : Task Req Ans ε τ α}
    {handler : ε → Task Req Ans ε τ α} {Q : α → τ → X} :
    wp g (catching t handler) Q E s =
      wp g t Q (fun e s' => wp g (handler e) Q E s') s := by
  show Prog.fold g ((t s).bind _) _ = _
  rw [Prog.fold_bind]
  refine congrArg _ (funext fun r => ?_)
  obtain ⟨r | r, s'⟩ := r <;> rfl

@[simp] theorem wp_finally' {t : Task Req Ans ε τ α} {last : Task Req Ans ε τ Unit}
    {Q : α → τ → X} :
    wp g (finally' t last) Q E s =
      wp g t (fun a s' => wp g last (fun _ s'' => Q a s'') E s')
        (fun e s' => wp g last (fun _ s'' => E e s'') E s') s := by
  show Prog.fold g ((t s).bind _) _ = _
  rw [Prog.fold_bind]
  refine congrArg _ (funext fun r => ?_)
  obtain ⟨r | r, s'⟩ := r
  all_goals
    show Prog.fold g ((last s').bind _) _ = _
    rw [Prog.fold_bind]
    refine congrArg _ (funext fun r' => ?_)
    obtain ⟨r' | r', s''⟩ := r' <;> rfl

@[simp] theorem wp_ask {r : Req} {Q : Ans r → τ → X} :
    wp g (ask r : Task Req Ans ε τ (Ans r)) Q E s = g r fun x => Q x s := rfl

@[simp] theorem wp_local' {Q : τ → τ → X} :
    wp g (local' : Task Req Ans ε τ τ) Q E s = Q s s := rfl

@[simp] theorem wp_modifyLocal {f : τ → τ} {Q : Unit → τ → X} :
    wp g (modifyLocal f : Task Req Ans ε τ Unit) Q E s = Q () (f s) := rfl

theorem wp_ite {c : Prop} [Decidable c] {t u : Task Req Ans ε τ α} {Q : α → τ → X} :
    wp g (if c then t else u) Q E s = if c then wp g t Q E s else wp g u Q E s := by
  split <;> rfl

end Rules

end Task

end Conc
