import Mathlib.Order.Basic

/-!
# Programs as trees of requests

A coroutine runs on its own between two awaits and hands a request to the
outside at each one. `Prog` is that shape and nothing else: a finished
program carries its result, an unfinished one carries the request it waits
on and what it does with any answer. Loops over data are recursions of the
host language, so every program is a well-founded tree, and everything a
program can do is read off by folding over it.

`fold` is the one recursion principle. An interpretation gives each request
a meaning in some domain, as a function of the meanings of the continuations;
the sequential runs, the schedules, the invariants and the rely-guarantee
judgments of the other modules are all folds, and `fold_bind` is the one
lemma that makes them compositional.
-/

namespace Conc

/-- A program that has finished, or that waits for the answer to a request. -/
inductive Prog (Req : Type) (Ans : Req → Type) (α : Type) : Type where
  | ret (a : α)
  | call (r : Req) (k : Ans r → Prog Req Ans α)

namespace Prog

variable {Req : Type} {Ans : Req → Type} {α β : Type} {X : Type*}

/-- Sequencing: the second program starts where the first one finishes. -/
def bind (p : Prog Req Ans α) (f : α → Prog Req Ans β) : Prog Req Ans β :=
  match p with
  | .ret a => f a
  | .call r k => .call r fun x => (k x).bind f

/-- Interpret a program in `X`: `g` gives each request its meaning, `Q` the
meaning of finishing. -/
def fold (g : (r : Req) → (Ans r → X) → X) (p : Prog Req Ans α) (Q : α → X) : X :=
  match p with
  | .ret a => Q a
  | .call r k => g r fun x => (k x).fold g Q

@[simp] theorem fold_ret {g : (r : Req) → (Ans r → X) → X} {a : α} {Q : α → X} :
    (Prog.ret a : Prog Req Ans α).fold g Q = Q a := rfl

@[simp] theorem fold_call {g : (r : Req) → (Ans r → X) → X} {r : Req}
    {k : Ans r → Prog Req Ans α} {Q : α → X} :
    (Prog.call r k).fold g Q = g r fun x => (k x).fold g Q := rfl

theorem fold_bind {g : (r : Req) → (Ans r → X) → X} (p : Prog Req Ans α)
    (f : α → Prog Req Ans β) (Q : β → X) :
    (p.bind f).fold g Q = p.fold g fun a => (f a).fold g Q := by
  induction p with
  | ret a => rfl
  | call r k ih =>
      simp only [bind, fold_call]
      exact congrArg (g r) (funext ih)

/-! ## What a program may ever ask for -/

/-- Every request the program can come to, under any answers, satisfies `P`. -/
def All (P : Req → Prop) (p : Prog Req Ans α) : Prop :=
  p.fold (fun r k => P r ∧ ∀ x, k x) fun _ => True

theorem All.head {P : Req → Prop} {r : Req} {k : Ans r → Prog Req Ans α}
    (h : (Prog.call r k).All P) : P r := h.1

theorem All.next {P : Req → Prop} {r : Req} {k : Ans r → Prog Req Ans α}
    (h : (Prog.call r k).All P) (x : Ans r) : (k x).All P := h.2 x

/-- The program can come to a request in `P` before it makes any request in
`T`: it still carries what `T` gave it, and has not used it up. -/
def Before (T P : Req → Prop) (p : Prog Req Ans α) : Prop :=
  p.fold (fun r k => ¬ T r ∧ (P r ∨ ∃ x, k x)) fun _ => False

theorem Before.of_next {T P : Req → Prop} {r : Req} {k : Ans r → Prog Req Ans α}
    (hT : ¬ T r) {x : Ans r} (h : (k x).Before T P) : (Prog.call r k).Before T P :=
  ⟨hT, .inr ⟨x, h⟩⟩

theorem Before.of_head {T P : Req → Prop} {r : Req} {k : Ans r → Prog Req Ans α}
    (hT : ¬ T r) (hP : P r) : (Prog.call r k).Before T P :=
  ⟨hT, .inl hP⟩

theorem not_before_ret {T P : Req → Prop} {a : α} :
    ¬ (Prog.ret a : Prog Req Ans α).Before T P := fun h => h

end Prog

end Conc
