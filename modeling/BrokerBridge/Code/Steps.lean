import BrokerBridge.Code.Coro
import BrokerBridge.Conc.Protocol

/-!
# Stepping through coroutines

The rules that push `Task.wp` through the primitives of a coroutine, and a
triple for the stretches that a protocol does not care about.

`Steps N U V t` says that `t`, begun with only writes in `U` pending, makes
only requests in `N`, ends with only writes in `V` pending, and raises with
none pending. A broken session counts as having none: nothing it holds will
reach the database. Most stretches are `Steps N ⊥ ⊥`, and `Calm N` for short.
-/

namespace BrokerBridge

open Conc

variable {X : Type} {g : (r : Req) → (r.Ans → X) → X} {α β : Type}
  {E : Exn → Session → X} {s : Session}

/-! ## The primitives -/

@[simp] theorem wp_await {r : Req} {Q : r.Ans → Session → X} :
    Task.wp g (await r) Q E s = g r fun x => Q x s := rfl

@[simp] theorem wp_ofAnswer_ok {a : α} {Q : α → Session → X} :
    Task.wp g (ofAnswer (.ok a)) Q E s = Q a s := rfl

@[simp] theorem wp_ofAnswer_error {e : Exn} {Q : α → Session → X} :
    Task.wp g (ofAnswer (.error e)) Q E s = E e s := rfl

@[simp] theorem wp_ofDbAnswer_ok {a : α} {Q : α → Session → X} :
    Task.wp g (ofDbAnswer (.ok a)) Q E s = Q a s := rfl

@[simp] theorem wp_ofDbAnswer_error {e : Exn} {Q : α → Session → X} :
    Task.wp g (ofDbAnswer (.error e)) Q E s = E e { s with broken := true } := rfl

/-- A database answer, by cases. -/
def dbCases {α : Type} (Q : α → Session → X) (E : Exn → Session → X) (s : Session) :
    Except Exn α → X
  | .ok a => Q a s
  | .error e => E e { s with broken := true }

@[simp] theorem dbCases_ok {a : α} {Q : α → Session → X} :
    dbCases Q E s (.ok a) = Q a s := rfl

@[simp] theorem dbCases_error {e : Exn} {Q : α → Session → X} :
    dbCases Q E s (.error e : Except Exn α) = E e { s with broken := true } := rfl

theorem wp_execute {q : Query} {Q : q.Res → Session → X} :
    Task.wp g (execute q) Q E s =
      if s.broken then E brokenSession s
      else g (.query s.pending q) (dbCases Q E s) := by
  unfold execute
  simp only [Task.wp_bind, Task.wp_local']
  split
  · rfl
  · refine congrArg (g _) (funext fun x => ?_)
    cases x <;> rfl

theorem wp_commit {Q : Unit → Session → X} :
    Task.wp g commit Q E s =
      if s.broken then E brokenSession s
      else g (.commit s.pending)
        (dbCases (fun _ s' => Q () { s' with pending := [] }) E s) := by
  unfold commit
  simp only [Task.wp_bind, Task.wp_local']
  split
  · rfl
  · refine congrArg (g _) (funext fun x => ?_)
    cases x <;> rfl

theorem wp_flush {Q : Unit → Session → X} :
    Task.wp g flush Q E s =
      if s.broken then E brokenSession s
      else g (.flush s.pending) (dbCases Q E s) := by
  unfold flush
  simp only [Task.wp_bind, Task.wp_local']
  split
  · rfl
  · refine congrArg (g _) (funext fun x => ?_)
    cases x <;> rfl

theorem wp_rollback {Q : Unit → Session → X} :
    Task.wp g rollback Q E s =
      g .rollback (dbCases (fun _ _ => Q () {}) E s) := by
  unfold rollback
  refine congrArg (g _) (funext fun x => ?_)
  cases x <;> rfl

@[simp] theorem wp_stage {w : Write} {Q : Unit → Session → X} :
    Task.wp g (stage w) Q E s = Q () { s with pending := s.pending ++ [w] } := rfl

@[simp] theorem wp_enqueueOutbox {p : EventPayload} {Q : Unit → Session → X} :
    Task.wp g (enqueueOutbox p) Q E s =
      Q () { s with pending := s.pending ++ [.enqueue p] } := rfl

theorem wp_assign {F : Type} [Stored α F] [DecidableEq α] {r : α} {f : F}
    {Q : α → Session → X} :
    Task.wp g (assign r f) Q E s =
      if Stored.set f r = r then Q r s
      else Q (Stored.set f r) { s with pending := s.pending ++ [Stored.write r f] } := by
  unfold assign
  split <;> rfl

/-- Either way the object is the one with the attribute set. -/
theorem wp_assign_cases {F : Type} [Stored α F] [DecidableEq α] (r : α) (f : F)
    (Q : α → Session → X) (E : Exn → Session → X) (s : Session) :
    Task.wp g (assign r f) Q E s = Q (Stored.set f r) s ∨
    Task.wp g (assign r f) Q E s =
      Q (Stored.set f r) { s with pending := s.pending ++ [Stored.write r f] } := by
  rw [wp_assign]
  split
  · next heq => exact .inl (congrArg (Q · s) heq.symm)
  · exact .inr rfl

theorem wp_assign_of {F : Type} [Stored α F] [DecidableEq α] {r : α} {f : F}
    {g : (r : Req) → (r.Ans → Prop) → Prop} {Q : α → Session → Prop}
    {E : Exn → Session → Prop} (h : Q (Stored.set f r) s)
    (h' : Q (Stored.set f r) { s with pending := s.pending ++ [Stored.write r f] }) :
    Task.wp g (assign r f) Q E s := by
  rcases wp_assign_cases (g := g) r f Q E s with heq | heq
  · exact heq ▸ h
  · exact heq ▸ h'

@[simp] theorem wp_newId {Q : Nat → Session → X} :
    Task.wp g newId Q E s = g .newId fun x => Q x s := rfl

@[simp] theorem wp_now {Q : Instant → Session → X} :
    Task.wp g now Q E s = g .now fun x => Q x s := rfl

@[simp] theorem wp_mark {m : Mark} {Q : Unit → Session → X} :
    Task.wp g (mark m) Q E s = g (.mark m) fun x => Q x s := rfl

/-! ## Pending writes -/

/-- Only writes in `U` can reach the database from this session. -/
def Session.Staged (s : Session) (U : Write → Prop) : Prop :=
  s.broken = true ∨ ∀ w ∈ s.pending, U w

/-- No write can. -/
abbrev Session.Clean (s : Session) : Prop := s.Staged fun _ => False

theorem Session.Staged.mono {U V : Write → Prop} (h : s.Staged U) (hUV : ∀ w, U w → V w) :
    s.Staged V :=
  h.imp_right fun h w hw => hUV w (h w hw)

theorem Session.Clean.staged {U : Write → Prop} (h : s.Clean) : s.Staged U :=
  Session.Staged.mono h fun _ h => h.elim

theorem Session.clean_new : ({} : Session).Clean := .inr fun _ h => by cases h

theorem Session.clean_broken : ({ s with broken := true } : Session).Clean := .inl rfl

theorem Session.Clean.pending (h : s.Clean) (hb : ¬ s.broken = true) : s.pending = [] := by
  rcases h with h | h
  · exact absurd h hb
  · exact List.eq_nil_iff_forall_not_mem.mpr h

theorem Session.Staged.stage {U : Write → Prop} (h : s.Staged U) {w : Write} (hw : U w) :
    ({ s with pending := s.pending ++ [w] } : Session).Staged U := by
  refine h.imp_right fun h w' hw' => ?_
  rcases List.mem_append.mp hw' with hw' | hw'
  · exact h w' hw'
  · exact List.mem_singleton.mp hw' ▸ hw

/-! ## The triple -/

def Steps (N : Req → Prop) (U V : Write → Prop) (t : Coro α) : Prop :=
  ∀ s : Session, s.Staged U →
    Task.wp (only N) t (fun _ s' => s'.Staged V) (fun _ s' => s'.Clean) s

/-- The triple of a stretch that leaves nothing pending. -/
abbrev Calm (N : Req → Prop) (t : Coro α) : Prop :=
  Steps N (fun _ => False) (fun _ => False) t

section Rules

variable {N : Req → Prop} {U V W : Write → Prop}

theorem Steps.pure (a : α) : Steps N U U (pure a : Coro α) := fun _ h => h

theorem Steps.bind {t : Coro α} {f : α → Coro β} (ht : Steps N U V t)
    (hf : ∀ a, Steps N V W (f a)) : Steps N U W (t >>= f) := by
  intro s h
  rw [Task.wp_bind]
  exact Task.wp_only_mono (fun _ => id) (ht s h) (fun a s' h' => hf a s' h') fun _ _ => id

theorem Steps.raise (e : Exn) : Steps N (fun _ => False) V (Task.raise e : Coro α) :=
  fun _ h => h

theorem Steps.catching {t : Coro α} {handler : Exn → Coro α} (ht : Steps N U V t)
    (hh : ∀ e, Steps N (fun _ => False) V (handler e)) :
    Steps N U V (Task.catching t handler) := by
  intro s h
  rw [Task.wp_catching]
  exact Task.wp_only_mono (fun _ => id) (ht s h) (fun _ _ => id) fun e s' h' => hh e s' h'

theorem Calm.finally' {t : Coro α} {last : Coro Unit} (ht : Calm N t) (hl : Calm N last) :
    Calm N (Task.finally' t last) := by
  intro s h
  rw [Task.wp_finally']
  exact Task.wp_only_mono (fun _ => id) (ht s h) (fun _ s' h' => hl s' h')
    fun _ s' h' => hl s' h'

theorem Steps.ite {c : Prop} [Decidable c] {t u : Coro α} (ht : Steps N U V t)
    (hu : Steps N U V u) : Steps N U V (if c then t else u) := by
  split
  · exact ht
  · exact hu

theorem Steps.weaken {t : Coro α} (h : Steps N U V t) {U' V' : Write → Prop}
    (hU : ∀ w, U' w → U w) (hV : ∀ w, V w → V' w) : Steps N U' V' t := fun s hs =>
  Task.wp_only_mono (fun _ => id) (h s (hs.mono hU)) (fun _ _ h' => h'.mono hV)
    fun _ _ => id

theorem Steps.mono {N' : Req → Prop} {t : Coro α} (hN : ∀ r, N r → N' r)
    (h : Steps N U V t) : Steps N' U V t := fun s hs =>
  Task.wp_only_mono hN (h s hs) (fun _ _ => id) fun _ _ => id

theorem Steps.await {r : Req} (hr : N r) : Steps N U U (await r) :=
  fun _ h => ⟨hr, fun _ => h⟩

theorem Steps.ofAnswer (x : Except Exn α) : Calm N (ofAnswer x) := by
  intro s h
  cases x <;> exact h

theorem Steps.execute {q : Query} (hq : ∀ ws, (∀ w ∈ ws, U w) → N (.query ws q)) :
    Steps N U U (execute q) := by
  intro s h
  rw [wp_execute]
  split
  · next hb => exact .inl hb
  · next hb =>
      refine ⟨hq _ (h.resolve_left hb), fun x => ?_⟩
      cases x with
      | ok a => exact h
      | error e => exact Session.clean_broken

theorem Steps.commit (hc : ∀ ws, (∀ w ∈ ws, U w) → N (.commit ws)) :
    Steps N U (fun _ => False) commit := by
  intro s h
  rw [wp_commit]
  split
  · next hb => exact .inl hb
  · next hb =>
      refine ⟨hc _ (h.resolve_left hb), fun x => ?_⟩
      cases x with
      | ok a => exact .inr fun _ h => by cases h
      | error e => exact Session.clean_broken

theorem Steps.rollback (hr : N .rollback) : Steps N U (fun _ => False) rollback := by
  intro s h
  rw [wp_rollback]
  refine ⟨hr, fun x => ?_⟩
  cases x with
  | ok a => exact Session.clean_new
  | error e => exact Session.clean_broken

theorem Steps.stage {w : Write} (hw : U w) : Steps N U U (stage w) := fun _ h => h.stage hw

theorem Steps.assign {F : Type} [Stored α F] [DecidableEq α] {r : α} {f : F}
    (hw : U (Stored.write r f)) : Steps N U U (assign r f) := by
  intro s h
  rw [wp_assign]
  split
  · exact h
  · exact h.stage hw

/-- After setting an attribute, with the object that has it. -/
theorem Steps.assignThen {F : Type} [Stored α F] [DecidableEq α] {r : α} {f : F}
    {k : α → Coro β} (hw : U (Stored.write r f)) (hk : Steps N U V (k (Stored.set f r))) :
    Steps N U V (BrokerBridge.assign r f >>= k) := by
  intro s h
  rw [Task.wp_bind]
  exact wp_assign_of (hk s h) (hk _ (h.stage hw))

theorem Steps.refreshed (x : Option α) : Calm N (refreshed x) := by
  cases x
  · exact Steps.raise _
  · exact Steps.pure _

theorem Steps.ofRedisAnswer (op : String) (x : Except Exn α) :
    Calm N (ofRedisAnswer op x) := by
  cases x with
  | ok a => exact Steps.pure _
  | error e => cases e <;> exact Steps.raise _

theorem Steps.newId (h : N .newId) : Steps N U U newId := Steps.await h

theorem Steps.now (h : N .now) : Steps N U U now := Steps.await h

theorem Steps.mark {m : Mark} (h : N (.mark m)) : Steps N U U (mark m) := Steps.await h

theorem Steps.acquireLock {k : LockKey} {ttl : Int} {t : Nat} {op : String}
    (h : N (.acquire k ttl t)) :
    Calm N (acquireLock k ttl t op) :=
  (Steps.await h).bind fun _ => Steps.ofRedisAnswer _ _

theorem Steps.releaseLock {k : LockKey} {t : Nat} (h : N (.release k t)) :
    Calm N (releaseLock k t) := by
  refine (Steps.await h).bind fun x => ?_
  cases x with
  | ok a => exact Steps.pure _
  | error e =>
      cases e with
      | redisUnavailable => exact Steps.pure _
      | _ => exact Steps.raise _

end Rules

/-! ## Which exceptions break the session -/

theorem Prog.only_true {γ : Type} {F : γ → Prop} (hF : ∀ a, F a)
    (p : Prog Req Req.Ans γ) : p.fold (only fun _ => True) F := by
  induction p with
  | ret a => exact hF a
  | call r k ih => exact ⟨trivial, ih⟩

/-- Every exception that leaves `t` leaves its session broken. -/
def Breaks (t : Coro α) : Prop :=
  ∀ s, Task.wp (only fun _ => True) t (fun _ _ => True) (fun _ s' => s'.broken = true) s

section Breaking

theorem Breaks.bind {t : Coro α} {f : α → Coro β} (ht : Breaks t)
    (hf : ∀ a, Breaks (f a)) : Breaks (t >>= f) := by
  intro s
  rw [Task.wp_bind]
  exact Task.wp_only_mono (fun _ => id) (ht s) (fun a s' _ => hf a s') fun _ _ => id

theorem Breaks.assign {F : Type} [Stored α F] [DecidableEq α] {r : α} {f : F} :
    Breaks (assign r f) := fun _ => wp_assign_of trivial trivial

theorem Breaks.stage (w : Write) : Breaks (stage w) := fun _ => trivial

theorem Breaks.commit : Breaks commit := by
  intro s
  rw [wp_commit]
  split
  · next hb => exact hb
  · exact ⟨trivial, fun x => by cases x <;> trivial⟩

end Breaking

/-- A session that is not broken is not broken when `t` returns. -/
def Alive (t : Coro α) : Prop :=
  ∀ s : Session, s.broken = false →
    Task.wp (only fun _ => True) t (fun _ s' => s'.broken = false) (fun _ _ => True) s

section Living

theorem Alive.pure (a : α) : Alive (pure a : Coro α) := fun _ h => h

theorem Alive.raise (e : Exn) : Alive (Task.raise e : Coro α) := fun _ _ => trivial

theorem Alive.bind {t : Coro α} {f : α → Coro β} (ht : Alive t) (hf : ∀ a, Alive (f a)) :
    Alive (t >>= f) := by
  intro s hs
  rw [Task.wp_bind]
  exact Task.wp_only_mono (fun _ => id) (ht s hs) (fun a s' h => hf a s' h) fun _ _ => id

theorem Alive.ite {c : Prop} [Decidable c] {t u : Coro α} (ht : Alive t) (hu : Alive u) :
    Alive (if c then t else u) := by
  split
  · exact ht
  · exact hu

theorem Alive.await {r : Req} : Alive (await r) := fun _ hs => ⟨trivial, fun _ => hs⟩

theorem Alive.ofAnswer (x : Except Exn α) : Alive (ofAnswer x) := by
  cases x with
  | ok a => exact Alive.pure a
  | error e => exact Alive.raise e

theorem Alive.ofRedisAnswer (op : String) (x : Except Exn α) : Alive (ofRedisAnswer op x) := by
  cases x with
  | ok a => exact Alive.pure a
  | error e => cases e <;> exact Alive.raise _

theorem Alive.refreshed (x : Option α) : Alive (refreshed x) := by
  cases x with
  | some a => exact Alive.pure a
  | none => exact Alive.raise _

theorem Alive.execute {q : Query} : Alive (execute q) := by
  intro s hs
  rw [wp_execute, hs]
  refine ⟨trivial, fun x => ?_⟩
  cases x with
  | ok a => exact hs
  | error e => trivial

theorem Alive.commit : Alive commit := by
  intro s hs
  rw [wp_commit, hs]
  refine ⟨trivial, fun x => ?_⟩
  cases x with
  | ok a => exact hs
  | error e => trivial

theorem Alive.stage (w : Write) : Alive (stage w) := fun _ hs => hs

theorem Alive.assign {F : Type} [Stored α F] [DecidableEq α] {r : α} {f : F} :
    Alive (assign r f) := fun _ hs => wp_assign_of hs hs

/-- The last part is not asked about when the first one raises. -/
theorem Alive.finally' {t : Coro α} {last : Coro Unit} (ht : Alive t) (hl : Alive last) :
    Alive (Task.finally' t last) := by
  intro s hs
  rw [Task.wp_finally']
  refine Task.wp_only_mono (fun _ => id) (ht s hs) (fun a s' h => hl s' h) fun e s' _ => ?_
  refine Prog.only_true ?_ (last s')
  rintro ⟨x | x, _⟩ <;> trivial

end Living

/-! ## What a coroutine returns -/

/-- Whatever the answers, `t` raises or returns something that satisfies `R`. -/
def Returns (R : α → Prop) (t : Coro α) : Prop :=
  ∀ s, Task.wp (only fun _ => True) t (fun a _ => R a) (fun _ _ => True) s

section Results

variable {R : α → Prop} {R' : β → Prop}

theorem Returns.pure {a : α} (h : R a) : Returns R (pure a : Coro α) := fun _ => h

theorem Returns.raise (e : Exn) : Returns R (Task.raise e : Coro α) := fun _ => trivial

theorem Returns.bind {t : Coro α} {f : α → Coro β} (ht : Returns R t)
    (hf : ∀ a, R a → Returns R' (f a)) : Returns R' (t >>= f) := by
  intro s
  rw [Task.wp_bind]
  exact Task.wp_only_mono (fun _ => id) (ht s) (fun a s' h => hf a h s') fun _ _ => id

theorem returns_any (t : Coro α) : Returns (fun _ => True) t := by
  intro s
  refine Prog.only_true ?_ (t s)
  rintro ⟨a | a, _⟩ <;> trivial

/-- What went before does not matter. -/
theorem Returns.after {t : Coro β} {f : β → Coro α} (hf : ∀ b, Returns R (f b)) :
    Returns R (t >>= f) := (returns_any t).bind fun b _ => hf b

theorem Returns.assign {F : Type} [Stored α F] [DecidableEq α] {r : α} {f : F}
    (h : R (Stored.set f r)) : Returns R (assign r f) := fun _ => wp_assign_of h h

theorem Returns.catching {t : Coro α} {handler : Exn → Coro α} (ht : Returns R t)
    (hh : ∀ e, Returns R (handler e)) : Returns R (Task.catching t handler) := by
  intro s
  rw [Task.wp_catching]
  exact Task.wp_only_mono (fun _ => id) (ht s) (fun _ _ => id) fun e s' _ => hh e s'

theorem Prog.only_and {γ : Type} {N : Req → Prop} {F F' : γ → Prop}
    {p : Prog Req Req.Ans γ} (h : p.fold (only N) F)
    (h' : p.fold (only fun _ => True) F') : p.fold (only N) fun a => F a ∧ F' a := by
  induction p with
  | ret a => exact ⟨h, h'⟩
  | call r k ih => exact ⟨h.1, fun x => ih x (h.2 x) (h'.2 x)⟩

/-- The triple, when exceptions break the session. -/
theorem Steps.breaking {N : Req → Prop} {U V : Write → Prop} {t : Coro α}
    (h : Steps N U V t) (hb : Breaks t) {s : Session} (hs : s.Staged U) :
    Task.wp (only N) t (fun _ s' => s'.Staged V) (fun _ s' => s'.broken = true) s := by
  refine Prog.only_mono (fun _ => id) ?_ (Prog.only_and (h s hs) (hb s))
  rintro ⟨a | a, s'⟩ ⟨h1, h2⟩
  · exact h2
  · exact h1

/-- The triple, with what is returned. -/
theorem Steps.returning {N : Req → Prop} {U V : Write → Prop} {t : Coro α}
    (h : Steps N U V t) (hr : Returns R t) {s : Session} (hs : s.Staged U) :
    Task.wp (only N) t (fun a s' => R a ∧ s'.Staged V) (fun _ s' => s'.Clean) s := by
  refine Prog.only_mono (fun _ => id) ?_ (Prog.only_and (h s hs) (hr s))
  rintro ⟨a | a, s'⟩ ⟨h1, h2⟩
  · exact h1
  · exact ⟨h2, h1⟩

/-- The rule of sequence, with what the first part returns. -/
theorem Steps.bindOf {N : Req → Prop} {U V W : Write → Prop} {t : Coro β} {f : β → Coro α}
    {R : β → Prop} (ht : Steps N U V t) (hr : Returns R t)
    (hf : ∀ b, R b → Steps N V W (f b)) : Steps N U W (t >>= f) := by
  intro s hs
  rw [Task.wp_bind]
  exact Task.wp_only_mono (fun _ => id) (ht.returning hr hs)
    (fun b s' h => hf b h.1 s' h.2) fun _ _ => id

end Results

end BrokerBridge
