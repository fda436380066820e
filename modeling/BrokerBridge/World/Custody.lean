import BrokerBridge.Code.Keeps
import BrokerBridge.World.Locks

/-!
# Which locks a call holds

`custody` is the protocol of a call that takes locks only under tokens it has drawn: its phase
is the list of the locks it has been granted and has not given back. Three things end the
account: a cancellation, a release that fails, and a lock that raises while the call holds
another under the same token.

`Keyring h t q e` goes through a coroutine: begun holding `h`, it returns holding `q` and raises
holding `e`.
-/

namespace BrokerBridge

open Conc

/-- The exception of an answer. -/
def Req.exn? : (r : Req) → r.Ans → Option Exn
  | .query _ _, .error e | .commit _, .error e | .flush _, .error e | .rollback, .error e => some e
  | .acquire _ _ _, .error e | .release _ _, .error e | .semAcquire _, .error e => some e
  | .rateCheck _ _, .error e | .rateConsume _ _, .error e | .cacheSession _, .error e => some e
  | .authenticate _, .error e | .refreshSession _, .error e => some e
  | .placeOrder _ _, .error e | .cancelOrder _ _, .error e | .fetchWhitelist _, .error e => some e
  | .infra _, .error e | .sleep, .error e => some e
  | _, _ => none

inductive Custody where
  /-- cancelled, or a release has failed -/
  | void
  /-- a lock has raised under token `t`, under which others were held -/
  | leaked (t : Nat) (held : List (LockKey × Nat))
  | has (drawn : List Nat) (held : List (LockKey × Nat))

namespace Custody

def allows : Custody → Req → Prop
  | void, _ => True
  | leaked _ _, _ => False
  | has drawn _, r =>
      match r with
      | .acquire _ _ t | .release _ t => t ∈ drawn
      | _ => True

/-- The phase after a request that was not cancelled. -/
def granted (drawn : List Nat) (held : List (LockKey × Nat)) : (r : Req) → r.Ans → Custody
  | .newId, t => if t ∈ drawn then void else has (t :: drawn) held
  | .acquire k _ t, .ok true => has drawn ((k, t) :: held)
  | .acquire _ _ t, .error _ => if held.any (·.2 == t) then leaked t held else has drawn held
  | .release k t, .ok _ => has drawn (held.filter (· ≠ (k, t)))
  | .release _ _, .error _ => void
  | _, _ => has drawn held

def advance : Custody → (r : Req) → r.Ans → Custody
  | has drawn held, r, x =>
      if r.exn? x = some .cancelled then void else granted drawn held r x
  | ph, _, _ => ph

end Custody

def custody : Protocol Req Req.Ans Custody := ⟨Custody.allows, Custody.advance⟩

/-- The call holds these locks, unless the account has ended. -/
def Custody.At (held : List (LockKey × Nat)) (ph : Custody) : Prop :=
  ph = void ∨ ∃ drawn, ph = has drawn held ∧ ∀ x ∈ held, x.2 ∈ drawn

/-! ## The triple -/

def Keyring {α : Type} (h : List (LockKey × Nat)) (t : Coro α) (q e : List (LockKey × Nat)) :
    Prop :=
  ∀ s ph, Custody.At h ph →
    Task.wp custody.step t (fun _ _ ph => Custody.At q ph) (fun _ _ ph => Custody.At e ph) s ph

/-- A request that is about no lock. -/
def Req.keyless : Req → Prop
  | .acquire _ _ _ | .release _ _ => False
  | _ => True

section Rules

variable {h q e q' e' : List (LockKey × Nat)} {α β : Type}

theorem Keyring.pure {a : α} : Keyring h (pure a : Coro α) h e := fun _ _ hph => hph

theorem Keyring.raise {x : Exn} : Keyring h (Task.raise x : Coro α) q h := fun _ _ hph => hph

theorem Keyring.bind {t : Coro α} {f : α → Coro β} (ht : Keyring h t q e)
    (hf : ∀ a, Keyring q (f a) q' e) : Keyring h (t >>= f) q' e := by
  intro s ph hph
  rw [Task.wp_bind]
  exact Task.wp_step_mono (ht s ph hph) (fun a s' ph' h' => hf a s' ph' h') fun _ _ _ => id

theorem Keyring.catching {t : Coro α} {handler : Exn → Coro α} (ht : Keyring h t q e)
    (hh : ∀ x, Keyring e (handler x) q e') : Keyring h (Task.catching t handler) q e' := by
  intro s ph hph
  rw [Task.wp_catching]
  exact Task.wp_step_mono (ht s ph hph) (fun _ _ _ => id) fun x s' ph' h' => hh x s' ph' h'

theorem Keyring.finally' {t : Coro α} {last : Coro Unit} (ht : Keyring h t q e)
    (hl : Keyring q last q' e') (hl' : Keyring e last e' e') :
    Keyring h (Task.finally' t last) q' e' := by
  intro s ph hph
  rw [Task.wp_finally']
  exact Task.wp_step_mono (ht s ph hph) (fun a s' ph' h' => hl s' ph' h')
    fun x s' ph' h' => hl' s' ph' h'

theorem Keyring.ite {c : Prop} [Decidable c] {t u : Coro α} (ht : Keyring h t q e)
    (hu : Keyring h u q e) : Keyring h (if c then t else u) q e := by
  split
  · exact ht
  · exact hu

theorem Keyring.onError {t : Coro α} {handler : Coro Unit} (ht : Keyring h t q e)
    (hh : Keyring e handler e' e') : Keyring h (onError t handler) q e' :=
  Keyring.catching ht fun _ => Keyring.bind hh fun _ => Keyring.raise

theorem allows_keyless {r : Req} (hr : r.keyless) {ph : Custody} (hph : Custody.At h ph) :
    custody.allows ph r := by
  rcases hph with rfl | ⟨drawn, rfl, _⟩
  · trivial
  cases r with
  | acquire | release => exact hr.elim
  | _ => trivial

theorem advance_keyless {r : Req} (hr : r.keyless) {ph : Custody} (hph : Custody.At h ph)
    (x : r.Ans) : Custody.At h (custody.advance ph r x) := by
  rcases hph with rfl | ⟨drawn, rfl, hdrawn⟩
  · exact .inl rfl
  show Custody.At h (if r.exn? x = some .cancelled then .void else Custody.granted drawn h r x)
  split
  · exact .inl rfl
  · cases r with
    | acquire | release => exact hr.elim
    | newId =>
        show Custody.At h (if x ∈ drawn then .void else .has (x :: drawn) h)
        split
        · exact .inl rfl
        · exact .inr ⟨_, rfl, fun y hy => List.mem_cons_of_mem _ (hdrawn y hy)⟩
    | _ => exact .inr ⟨drawn, rfl, hdrawn⟩

theorem advance_cancelled {r : Req} {ph : Custody} (hph : Custody.At h ph) {x : r.Ans}
    (hx : r.exn? x = some .cancelled) : custody.advance ph r x = .void := by
  rcases hph with rfl | ⟨drawn, rfl, _⟩
  · rfl
  · exact if_pos hx

/-- A stretch that asks for no lock and gives none back. -/
theorem Keyring.keyless {t : Coro α} (ht : Keeps Req.keyless (fun _ => True) t) :
    Keyring h t h h := by
  intro s ph hph
  refine Task.wp_step_mono (Task.wp_staying_in (P := custody) (I := Custody.At h)
    (fun ph r hph hr => ⟨allows_keyless hr hph, advance_keyless hr hph⟩) hph (ht s trivial))
    (fun _ _ _ h' => h'.2) fun _ _ _ h' => h'.2

/-! A `succeeds` passes nothing on but a cancellation. -/

/-- A stretch without locks that raises a cancellation only if it was cancelled. -/
def Passing (h : List (LockKey × Nat)) (t : Coro α) : Prop :=
  ∀ s ph, Custody.At h ph → Task.wp custody.step t (fun _ _ ph => Custody.At h ph)
    (fun x _ ph => Custody.At h ph ∧ (x = .cancelled → ph = .void)) s ph

theorem Passing.pure {a : α} : Passing h (pure a : Coro α) := fun _ _ hph => hph

theorem Passing.raise {x : Exn} (hx : x ≠ .cancelled) : Passing h (Task.raise x : Coro α) :=
  fun _ _ hph => ⟨hph, fun he => absurd he hx⟩

theorem Passing.bind {t : Coro α} {f : α → Coro β} (ht : Passing h t) (hf : ∀ a, Passing h (f a)) :
    Passing h (t >>= f) := by
  intro s ph hph
  rw [Task.wp_bind]
  exact Task.wp_step_mono (ht s ph hph) (fun a s' ph' h' => hf a s' ph' h') fun _ _ _ => id

theorem Passing.ite {c : Prop} [Decidable c] {t u : Coro α} (ht : Passing h t) (hu : Passing h u) :
    Passing h (if c then t else u) := by
  split
  · exact ht
  · exact hu

theorem Passing.stage (w : Write) : Passing h (stage w) := fun _ _ hph => hph

theorem Passing.assign {α F : Type} [Stored α F] [DecidableEq α] (r : α) (f : F) :
    Passing h (assign r f) :=
  Passing.ite Passing.pure (Passing.bind (Passing.stage _) fun _ => Passing.pure)

theorem Passing.execute (q : Query) : Passing h (execute q) := by
  intro s ph hph
  rw [wp_execute]
  split
  · exact ⟨hph, nofun⟩
  · refine ⟨allows_keyless (r := .query s.pending q) trivial hph, fun x => ?_⟩
    have hat := advance_keyless (r := .query s.pending q) trivial hph x
    cases x with
    | error x => exact ⟨hat, fun he => advance_cancelled hph (congrArg some he)⟩
    | ok _ => exact hat

theorem Passing.commit : Passing h commit := by
  intro s ph hph
  rw [wp_commit]
  split
  · exact ⟨hph, nofun⟩
  · refine ⟨allows_keyless (r := .commit s.pending) trivial hph, fun x => ?_⟩
    have hat := advance_keyless (r := .commit s.pending) trivial hph x
    cases x with
    | error x => exact ⟨hat, fun he => advance_cancelled hph (congrArg some he)⟩
    | ok _ => exact hat

theorem Passing.infra (c : InfraCall) : Passing h (infra c) := by
  intro s ph hph
  unfold BrokerBridge.infra
  rw [Task.wp_bind, wp_await]
  refine ⟨allows_keyless (r := .infra c) trivial hph, fun x => ?_⟩
  have hat := advance_keyless (r := .infra c) trivial hph x
  cases x with
  | error x => exact ⟨hat, fun he => advance_cancelled hph (congrArg some he)⟩
  | ok _ => exact hat

theorem wp_succeeds {t : Coro Unit} (ht : Passing h t) {s : Session} {ph : Custody}
    (hph : Custody.At h ph) : Task.wp custody.step (succeeds t) (fun _ _ ph => Custody.At h ph)
      (fun _ _ ph => ph = .void) s ph := by
  unfold succeeds
  rw [Task.wp_catching]
  refine Task.wp_step_mono (Passing.bind ht (fun _ => Passing.pure) s ph hph) (fun _ _ _ => id) ?_
  rintro x s' ph' ⟨hat, hvoid⟩
  cases x with
  | cancelled => exact hvoid rfl
  | _ => exact hat

theorem Passing.succeeds {t : Coro Unit} (ht : Passing h t) : Passing h (succeeds t) :=
  fun _ _ hph => Task.wp_step_mono (wp_succeeds ht hph) (fun _ _ _ => id)
    fun _ _ _ hvoid => ⟨.inl hvoid, fun _ => hvoid⟩

/-- Whatever is held when it raises: the account has ended. -/
theorem Keyring.succeeds {t : Coro Unit} (ht : Passing h t) : Keyring h (succeeds t) h e :=
  fun _ _ hph => Task.wp_step_mono (wp_succeeds ht hph) (fun _ _ _ => id) fun _ _ _ => .inl

/-- What `release_lock` makes of the provider's answer. -/
abbrev releaseAnswer : Except Exn Unit → Coro Unit
  | .error .redisUnavailable => pure ()
  | x => ofAnswer x

/-- The lock given back; a release that raises ends the account. -/
theorem Keyring.unlock {k : LockKey} {t : Nat} (hnew : (k, t) ∉ h) :
    Keyring ((k, t) :: h) (releaseLock k t) h e := by
  intro s ph hph
  unfold releaseLock
  rw [Task.wp_bind, wp_await]
  -- What `release_lock` makes of an exception of the provider, the account being over.
  have hover : ∀ x : Exn, Task.wp custody.step (releaseAnswer (.error x))
      (fun _ _ ph => Custody.At h ph) (fun _ _ ph => Custody.At e ph) s .void := by
    intro x
    cases x <;> exact .inl rfl
  rcases hph with rfl | ⟨drawn, rfl, hdrawn⟩
  · refine ⟨trivial, fun x => ?_⟩
    cases x with
    | error x => exact hover x
    | ok _ => exact .inl rfl
  refine ⟨hdrawn _ List.mem_cons_self, fun x => ?_⟩
  cases x with
  | error x =>
      have hvoid : custody.advance (.has drawn ((k, t) :: h)) (.release k t)
        (.error x) = .void := by
        show (if _ then Custody.void else Custody.void) = _
        split <;> rfl
      rw [hvoid]
      exact hover x
  | ok _ =>
      have hkept : ((k, t) :: h).filter (· ≠ (k, t)) = h := by
        rw [List.filter_cons_of_neg (by simp)]
        exact List.filter_eq_self.mpr fun x hx => decide_eq_true fun he => hnew (he ▸ hx)
      refine .inr ⟨drawn, ?_, fun x hx => hdrawn x (List.mem_cons_of_mem _ hx)⟩
      show Custody.has drawn (((k, t) :: h).filter (· ≠ (k, t))) = _
      rw [hkept]

/-- Where the account has ended, it stays so. -/
theorem wp_void (t : Coro α) (s : Session) : Task.wp custody.step t (fun _ _ ph => Custody.At q ph)
    (fun _ _ ph => Custody.At e ph) s .void := by
  unfold Task.wp
  generalize t s = p
  induction p with
  | ret a =>
      obtain ⟨a | a, s'⟩ := a
      · exact .inl rfl
      · exact .inl rfl
  | call r k ih => exact ⟨trivial, fun x => ih x⟩

/-- A lock asked for, under a token under which none is held. -/
theorem wp_acquireLock {k : LockKey} {ttl : Int} {op : String} {t : Nat} {f : Bool → Coro α}
    {drawn : List Nat} {s : Session} {Q : α → Session → Custody → Prop}
    {E : Exn → Session → Custody → Prop} (ht : t ∈ drawn) (hnew : ∀ x ∈ h, x.2 ≠ t)
    (hgot : Task.wp custody.step (f true) Q E s (.has drawn ((k, t) :: h)))
    (hnot : Task.wp custody.step (f false) Q E s (.has drawn h))
    (hraised : ∀ x ph, ph = .void ∨ ph = .has drawn h → E x s ph) :
    Task.wp custody.step (acquireLock k ttl t op >>= f) Q E s (.has drawn h) := by
  rw [Task.wp_bind]
  unfold acquireLock
  rw [Task.wp_bind, wp_await]
  refine ⟨ht, fun x => ?_⟩
  have hnone : h.any (·.2 == t) = false := List.any_eq_false.mpr fun x hx => by
    simpa using hnew x hx
  rcases x with x | _ | _
  · have hat : custody.advance (.has drawn h) (.acquire k ttl t) (.error x) = .void ∨
        custody.advance (.has drawn h) (.acquire k ttl t) (.error x) = .has drawn h := by
      by_cases hx : x = .cancelled
      · exact .inl (if_pos (congrArg some hx))
      · refine .inr ((if_neg fun he => hx (Option.some_inj.mp he)).trans ?_)
        show (if h.any (·.2 == t) = true then Custody.leaked t h else .has drawn h) = _
        rw [hnone]
        rfl
    cases x <;> exact hraised _ _ hat
  · exact hnot
  · exact hgot

/-- A lock under a token drawn for it, and what follows. -/
theorem Keyring.locked {k : LockKey} {ttl : Int} {op : String} {f : Nat → Bool → Coro α}
    (hgot : ∀ t, (∀ x ∈ h, x.2 ≠ t) → Keyring ((k, t) :: h) (f t true) q h)
    (hnot : ∀ t, Keyring h (f t false) q h) :
    Keyring h (newId >>= fun t => acquireLock k ttl t op >>= f t) q h := by
  intro s ph hph
  rw [Task.wp_bind, wp_newId]
  rcases hph with rfl | ⟨drawn, rfl, hdrawn⟩
  · exact ⟨trivial, fun t => wp_void _ s⟩
  refine ⟨trivial, fun t => ?_⟩
  show Task.wp custody.step _ _ _ s (if t ∈ drawn then .void else .has (t :: drawn) h)
  split
  · exact wp_void _ s
  · next hfresh =>
      have hnew : ∀ x ∈ h, x.2 ≠ t := fun x hx he => hfresh (he ▸ hdrawn x hx)
      have hold : ∀ x ∈ h, x.2 ∈ t :: drawn := fun x hx => List.mem_cons_of_mem _ (hdrawn x hx)
      refine wp_acquireLock List.mem_cons_self hnew (hgot t hnew s _ (.inr ⟨_, rfl, ?_⟩))
        (hnot t s _ (.inr ⟨_, rfl, hold⟩)) fun x ph' hat => hat.imp_right fun he => ⟨_, he, hold⟩
      exact List.forall_mem_cons.mpr ⟨List.mem_cons_self, hold⟩

end Rules

end BrokerBridge
