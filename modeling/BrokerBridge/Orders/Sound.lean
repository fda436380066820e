import BrokerBridge.Orders.Standing
import BrokerBridge.Conc.Solo

/-!
# Sessions that stay usable

While the database answers and nobody else writes to it, only its own commits could break a
session, by a conflict. `Sound U V t` says that `t`, begun with an unbroken session in which
only writes in `U` are pending, never breaks it: it returns with only writes in `V` pending,
or raises what `except Exception` catches, with nothing pending.

Sets never conflict, a new attempt has a new id, and a session row is added only when there
was none, so submitting an order is sound, whatever the brokers, the routing, the sessions
and Redis answer.
-/

namespace BrokerBridge

open Conc

def Req.database : Req → Bool
  | .query _ _ | .commit _ | .flush _ | .rollback => true
  | _ => false

/-- Others leave the database alone, it does not fail, and the task is not cancelled. -/
structure Unfailing (r : Req) (x : Turn) : Prop where
  others : ∀ w, (x.1 w).db = w.db
  going : x.2.fault ≠ some .cancelled
  database : r.database = true → x.2.fault = none

/-- The write runs into no constraint, whatever the rows are. -/
def Write.harmless (v : Write) : Prop := ∀ d : Db, v.conflicts d = false

/-- The session is not broken, and only writes in `U` are pending. -/
structure Session.Sound (s : Session) (U : Write → Prop) : Prop where
  unbroken : s.broken = false
  pending : ∀ v ∈ s.pending, U v

/-- Nothing is pending. -/
abbrev Nothing (_ : Write) : Prop := False

/-- One request of a sound stretch. -/
abbrev unfailing : (r : Req) → (r.Ans → World → Prop) → World → Prop :=
  Conc.turn (amid handle) Unfailing

def Sound {α : Type} (U V : Write → Prop) (t : Coro α) : Prop :=
  ∀ s w, s.Sound U → Task.wp unfailing t (fun _ s' _ => s'.Sound V)
    (fun e s' _ => e.isException = true ∧ s'.Sound Nothing) s w

section Rules

variable {α β : Type} {U V W : Write → Prop} {s : Session} {w : World}

theorem Session.Sound.none_pending (h : s.Sound Nothing) : s.pending = [] :=
  List.eq_nil_iff_forall_not_mem.mpr h.pending

theorem Session.Sound.stage (h : s.Sound U) {v : Write} (hv : U v) :
    ({ s with pending := s.pending ++ [v] } : Session).Sound U := by
  refine ⟨h.unbroken, fun v' hv' => ?_⟩
  rcases List.mem_append.mp hv' with hv' | hv'
  · exact h.pending v' hv'
  · exact List.mem_singleton.mp hv' ▸ hv

theorem Session.sound_new : ({} : Session).Sound U := ⟨rfl, List.forall_mem_nil _⟩

theorem Session.Sound.mono (h : s.Sound U) (hUV : ∀ v, U v → V v) : s.Sound V :=
  ⟨h.unbroken, fun v hv => hUV v (h.pending v hv)⟩

theorem Sound.pure (a : α) : Sound U U (pure a : Coro α) := fun _ _ h => h

theorem Sound.raise {e : Exn} (he : e.isException = true) :
    Sound Nothing V (Task.raise e : Coro α) :=
  fun _ _ h => ⟨he, h⟩

theorem Sound.bind {t : Coro α} {f : α → Coro β} (ht : Sound U V t) (hf : ∀ a, Sound V W (f a)) :
    Sound U W (t >>= f) := by
  intro s w h
  rw [Task.wp_bind]
  exact Task.wp_turn_mono (ht s w h) (fun a s' w' h' => hf a s' w' h') fun _ _ _ => id

theorem Sound.catching {t : Coro α} {handler : Exn → Coro α} (ht : Sound U V t)
    (hh : ∀ e, e.isException = true → Sound Nothing V (handler e)) :
    Sound U V (Task.catching t handler) := by
  intro s w h
  rw [Task.wp_catching]
  exact Task.wp_turn_mono (ht s w h) (fun _ _ _ => id) fun e s' w' h' => hh e h'.1 s' w' h'.2

theorem Sound.finally' {t : Coro α} {last : Coro Unit} (ht : Sound Nothing Nothing t)
    (hl : Sound Nothing Nothing last) : Sound Nothing Nothing (Task.finally' t last) := by
  intro s w h
  rw [Task.wp_finally']
  refine Task.wp_turn_mono (ht s w h) (fun a s' w' h' => hl s' w' h') fun e s' w' h' => ?_
  exact Task.wp_turn_mono (hl s' w' h'.2) (fun _ _ _ h2 => ⟨h'.1, h2⟩) fun _ _ _ => id

theorem Sound.ite {c : Prop} [Decidable c] {t u : Coro α} (ht : Sound U V t) (hu : Sound U V u) :
    Sound U V (if c then t else u) := by
  split
  · exact ht
  · exact hu

theorem Sound.weaken {t : Coro α} (h : Sound U V t) {U' V' : Write → Prop} (hU : ∀ v, U' v → U v)
    (hV : ∀ v, V v → V' v) : Sound U' V' t := fun s w hs =>
  Task.wp_turn_mono (h s w (hs.mono hU)) (fun _ _ _ h' => h'.mono hV) fun _ _ _ => id

theorem Sound.await (r : Req) : Sound U U (await r) := fun _ _ h _ _ => h

theorem Sound.stage {v : Write} (hv : U v) : Sound U U (stage v) := fun _ _ h => h.stage hv

theorem Sound.assign {F : Type} [Stored α F] [DecidableEq α] {r : α} {f : F}
    (hw : U (Stored.write r f)) : Sound U U (assign r f) := by
  intro s w h
  rw [wp_assign]
  split
  · exact h
  · exact h.stage hw

/-- An answer that is awaited and raised as it is. -/
theorem Sound.asks {r : Req} {β : Type} {k : r.Ans → Coro β}
    (hk : ∀ x w, Unfailing r x → Sound U V (k (amid handle r x w).1)) :
    Sound U V (BrokerBridge.await r >>= k) := by
  intro s w h x hx
  exact hk x w hx s _ h

theorem Env.answer_isException {e : Env} {documented f : Exn} {w' : World} {x : α}
    (he : e.fault ≠ some .cancelled) (hdoc : documented.isException = true)
    (hf : (e.answer documented w x w').1 = .error f) : f.isException = true := by
  unfold Env.answer at hf
  split at hf
  · next fault hfault =>
      cases hf
      cases fault with
      | failed => exact hdoc
      | failedOtherwise => rfl
      | cancelled => exact absurd hfault he
  · cases hf

theorem Sound.ofAnswer {x : Except Exn α} (hx : ∀ e, x = .error e → e.isException = true) :
    Sound Nothing Nothing (ofAnswer x) := by
  cases x with
  | ok a => exact Sound.pure a
  | error e => exact Sound.raise (hx e rfl)

theorem Sound.ofRedisAnswer {op : String} {x : Except Exn α}
    (hx : ∀ e, x = .error e → e.isException = true) :
    Sound Nothing Nothing (ofRedisAnswer op x) := by
  cases x with
  | ok a => exact Sound.pure a
  | error e =>
      have he := hx e rfl
      cases e with
      | redisUnavailable => exact Sound.raise rfl
      | _ => exact Sound.raise he

theorem Sound.execute {q : Query} : Sound U U (execute q) := by
  intro s w h
  rw [wp_execute, h.unbroken]
  intro x hx
  have hanswer : amid handle (.query s.pending q) x w =
      (.ok (q.eval x.2 (x.1 w).clock ((x.1 w).db.view (x.1 w).clock s.pending)), x.1 w) := by
    show x.2.answer _ _ _ _ = _
    rw [Env.answer, hx.database rfl]
  rw [hanswer]
  exact h

/-- Writes that conflict with nothing are committed. -/
theorem write?_harmless {now : Instant} {ws : List Write} (h : ∀ v ∈ ws, v.harmless) (d : Db) :
    ∃ d', d.write? now ws = some d' := by
  induction ws generalizing d with
  | nil => exact ⟨d, rfl⟩
  | cons v ws ih =>
      obtain ⟨d', hd'⟩ := ih (fun v' hv' => h v' (List.mem_cons_of_mem _ hv')) (v.apply now d)
      exact ⟨d', Db.write?_cons.mpr ⟨h v List.mem_cons_self d, hd'⟩⟩

/-- A commit whose writes go through. -/
theorem wp_commit_sound {Q : Unit → Session → World → Prop} {E : Exn → Session → World → Prop}
    (hs : s.broken = false) (hws : ∀ now, ∃ d', w.db.write? now s.pending = some d')
    (hQ : ∀ now w', w.db.write? now s.pending = some w'.db → Q () { s with pending := [] } w') :
    Task.wp unfailing commit Q E s w := by
  rw [wp_commit, hs]
  intro x hx
  obtain ⟨d', hd'⟩ := hws (x.1 w).clock
  have hanswer : amid handle (.commit s.pending) x w = (.ok (), { x.1 w with db := d' }) := by
    simp only [amid, handle, hx.others w, hd', Env.answer, hx.database rfl]
  rw [hanswer]
  exact hQ (x.1 w).clock _ hd'

theorem Sound.commit (hU : ∀ v, U v → v.harmless) : Sound U Nothing commit := fun _ w h =>
  wp_commit_sound h.unbroken (fun _ => write?_harmless (fun v hv => hU v (h.pending v hv)) w.db)
    fun _ _ _ => ⟨h.unbroken, List.forall_mem_nil _⟩

theorem Sound.refreshed (x : Option α) : Sound Nothing Nothing (refreshed x) := by
  cases x with
  | none => exact Sound.raise rfl
  | some a => exact Sound.pure a

/-- A stretch that stages harmless writes and commits them. -/
theorem Sound.stretch {t : Coro α} (ht : Sound Write.harmless Nothing t) :
    Sound Nothing Nothing t :=
  ht.weaken (fun _ h => h.elim) fun _ => id

end Rules

/-! ## Routing -/

section Routing

theorem exceedPolicy_sound : Sound Nothing Nothing exceedPolicy :=
  Sound.execute.bind fun _ => Sound.pure _

theorem rateCheck_sound (b : BrokerId) (limit : Rat) : Sound Nothing Nothing (rateCheck b limit) :=
  Sound.asks fun _ _ hx => Sound.ofRedisAnswer fun _ hf => Env.answer_isException hx.going rfl hf

theorem rateConsume_sound (b : BrokerId) (limit : Rat) :
    Sound Nothing Nothing (rateConsume b limit) :=
  Sound.asks fun _ _ hx => Sound.ofRedisAnswer fun _ hf => Env.answer_isException hx.going rfl hf

theorem considerBroker_sound (q : RouteQuery) (c : RouteContext) (b : BrokerAccount) :
    Sound Nothing Nothing (considerBroker q c b) := by
  refine Sound.execute.bind fun assignment => ?_
  split
  · exact Sound.pure _
  split
  · exact Sound.pure _
  refine Sound.bind (V := Nothing) ?_ fun rl => Sound.ite (Sound.pure _) (Sound.pure _)
  exact Sound.ite (rateConsume_sound _ _) (rateCheck_sound _ _)

theorem considerBrokers_sound (q : RouteQuery) (c : RouteContext) (bs : List BrokerAccount) :
    Sound Nothing Nothing (considerBrokers q c bs) := by
  induction bs with
  | nil => exact Sound.pure _
  | cons b bs ih =>
      refine (considerBroker_sound q c b).bind fun x => ih.bind fun y => ?_
      cases x <;> exact Sound.pure _

theorem selectOrRaise_sound (q : RouteQuery) : Sound Nothing Nothing (selectOrRaise q) := by
  refine Sound.bind (V := Nothing) ?_ fun _ => Sound.ite (Sound.raise rfl) (Sound.pure _)
  refine Sound.execute.bind fun config => Sound.bind (V := Nothing) ?_ fun degradedMin => ?_
  · unfold degradedMinOf
    split
    · exact Sound.pure _
    · exact Sound.raise rfl
    · exact Sound.pure _
  refine Sound.execute.bind fun config => exceedPolicy_sound.bind fun policy => ?_
  refine Sound.execute.bind fun brokers => Sound.execute.bind fun health => ?_
  exact (considerBrokers_sound _ _ _).bind fun _ => Sound.pure _

end Routing

/-! ## Sessions -/

section Sessions

/-- The pending writes run into no constraint. -/
def Session.Commits (s : Session) (d : Db) : Prop :=
  s.broken = false ∧ ∀ now, ∃ d', d.write? now s.pending = some d'

theorem Session.Sound.commits {s : Session} (h : s.Sound Write.harmless) (d : Db) : s.Commits d :=
  ⟨h.unbroken, fun _ => write?_harmless h.pending d⟩

theorem commit_sound {s : Session} {w : World} (h : s.Commits w.db) :
    Task.wp unfailing commit (fun _ s' _ => s'.Sound Nothing)
      (fun e s' _ => e.isException = true ∧ s'.Sound Nothing) s w :=
  wp_commit_sound h.1 h.2 fun _ _ _ => ⟨h.1, List.forall_mem_nil _⟩

/-- The row is added only when the session that was read is missing. -/
theorem storeTokens_sound (b : BrokerId) (t : Tokens) (now : Instant) {s : Session} {w : World}
    (hs : s.Sound Nothing) :
    Task.wp unfailing (storeTokens b (w.db.sessions.get? b) t now) (fun _ s' w' => s'.Commits w'.db)
      (fun e s' _ => e.isException = true ∧ s'.Sound Nothing) s w := by
  cases hrow : w.db.sessions.get? b with
  | none =>
      have hfree : (w.db.sessions.get? b).isSome = false := by rw [hrow]; rfl
      refine ⟨hs.unbroken, fun now' => ?_⟩
      show ∃ d', w.db.write? now' (s.pending ++ [_]) = some d'
      rw [hs.none_pending, List.nil_append]
      exact ⟨_, Db.write?_singleton.mpr ⟨hfree, rfl⟩⟩
  | some row =>
      have hset : Sound Write.harmless Write.harmless (storeTokens b (some row) t now) :=
        Sound.bind (Sound.assign fun _ => rfl) fun _ =>
          Sound.bind (Sound.assign fun _ => rfl) fun _ =>
          Sound.bind (Sound.assign fun _ => rfl) fun _ => Sound.pure _
      exact Task.wp_turn_mono (hset s w (hs.mono fun _ h => h.elim))
        (fun _ s' w' h => h.commits w'.db)
        fun _ _ _ => id

/-- The broker is asked, and the database stays as it is. -/
theorem fetchTokens_sound (b : BrokerId) (existing : Option BrokerSession) (force : Bool)
    {s : Session}
    {w : World} (hs : s.Sound Nothing) :
    Task.wp unfailing (fetchTokens b existing force)
      (fun _ s' w' => s'.Sound Nothing ∧ w'.db = w.db)
      (fun e s' _ => e.isException = true ∧ s'.Sound Nothing) s w := by
  have hanswer : ∀ (x : Turn) (documented : Exn) (y : Tokens), x.2.fault ≠ some .cancelled →
      documented.isException = true → (x.1 w).db = w.db →
      Task.wp unfailing (ofAnswer (x.2.answer documented (x.1 w) y (x.1 w)).1)
        (fun _ s' w' => s'.Sound Nothing ∧ w'.db = w.db)
        (fun e s' _ => e.isException = true ∧ s'.Sound Nothing) s
        (x.2.answer documented (x.1 w) y (x.1 w)).2 := by
    intro x documented y hx hdoc hdb
    rcases Env.answer_cases x.2 documented (x.1 w) y (x.1 w) with ⟨f, hf⟩ | hok
    · rw [hf]
      exact ⟨Env.answer_isException hx hdoc (congrArg Prod.fst hf), hs⟩
    · rw [hok]
      exact ⟨hs, hdb⟩
  unfold fetchTokens
  rw [Task.wp_ite]
  split
  · rw [Task.wp_bind, wp_await]
    exact fun x hx => hanswer x _ _ hx.going rfl (hx.others w)
  · rw [Task.wp_bind, wp_await]
    exact fun x hx => hanswer x _ _ hx.going rfl (hx.others w)

/-- A query answers from the database, and leaves it alone. -/
theorem execute_sound {q : Query} {Q : q.Res → Session → World → Prop}
    {E : Exn → Session → World → Prop} {s : Session} {w : World} (hs : s.Sound Nothing)
    (hQ : ∀ e w', w'.db = w.db → Q (q.eval e w'.clock w.db) s w') :
    Task.wp unfailing (execute q) Q E s w := by
  rw [wp_execute, hs.unbroken]
  intro x hx
  have hanswer : amid handle (.query s.pending q) x w =
      (.ok (q.eval x.2 (x.1 w).clock w.db), x.1 w) := by
    show x.2.answer _ _ _ _ = _
    rw [Env.answer, hx.database rfl, hs.none_pending, Db.view_nil, hx.others w]
  rw [hanswer]
  exact hQ x.2 _ (hx.others w)

theorem ensureLocked_sound (b : BrokerId) (force : Bool) :
    Sound Nothing Nothing (ensureLocked b force) := by
  intro s w hs
  unfold ensureLocked
  rw [Task.wp_bind]
  refine execute_sound hs fun _ w1 hw1 => ?_
  rw [Task.wp_bind, wp_now]
  intro x hx
  have hdb : (amid handle .now x w1).2.db = w.db := (hx.others w1).trans hw1
  revert hdb
  generalize (amid handle .now x w1).1 = now
  generalize (amid handle .now x w1).2 = w2
  intro hdb
  split
  · exact hs
  rw [Task.wp_bind]
  refine execute_sound hs fun _ w3 hw3 => ?_
  rw [Task.wp_bind]
  refine Task.wp_turn_mono (fetchTokens_sound b _ force hs) ?_ fun _ _ _ => id
  rintro tokens s4 w4 ⟨hs4, hw4⟩
  have hsame : w.db.sessions.get? b = w4.db.sessions.get? b := by
    rw [hw4, hw3, hdb]
  show Task.wp unfailing (storeTokens b (w.db.sessions.get? b) tokens now >>= _) _ _ s4 w4
  rw [hsame, Task.wp_bind]
  refine Task.wp_turn_mono (storeTokens_sound b tokens now hs4) (fun _ s5 w5 hcommits => ?_)
    fun _ _ _ => id
  rw [Task.wp_bind]
  refine Task.wp_turn_mono (commit_sound hcommits) (fun _ s6 w6 hs6 => ?_) fun _ _ _ => id
  refine Sound.bind Sound.execute (fun row => ?_) s6 w6 hs6
  refine Sound.bind (Sound.refreshed row) fun session => ?_
  refine Sound.asks fun x w hx => Sound.bind (Sound.ofRedisAnswer fun _ hf => ?_) fun _ =>
    Sound.pure _
  exact Env.answer_isException hx.going rfl hf

theorem acquireLock_sound (k : LockKey) (ttl : Int) (t : Nat) (op : String) :
    Sound Nothing Nothing (acquireLock k ttl t op) := by
  refine Sound.asks fun x w hx => Sound.ofRedisAnswer fun f hf => ?_
  simp only [amid, handle] at hf
  split at hf <;> exact Env.answer_isException hx.going rfl hf

theorem releaseLock_sound (k : LockKey) (t : Nat) : Sound Nothing Nothing (releaseLock k t) := by
  refine Sound.asks fun x w hx => ?_
  have hexn : ∀ f, (amid handle (.release k t) x w).1 = .error f →
    f.isException = true := fun f hf =>
    Env.answer_isException hx.going rfl hf
  revert hexn
  generalize (amid handle (.release k t) x w).1 = y
  intro hexn
  cases y with
  | ok _ => exact Sound.pure _
  | error f =>
      have hf := hexn f rfl
      cases f with
      | redisUnavailable => exact Sound.pure _
      | _ => exact Sound.raise hf

theorem ensure_sound (held : List BrokerAccount) (b : BrokerId) (force : Bool) :
    Sound Nothing Nothing (ensure held b force) := by
  refine Sound.execute.bind fun row => ?_
  split
  · exact Sound.raise rfl
  refine Sound.ite (Sound.raise rfl) ((Sound.await _).bind fun token => ?_)
  refine (acquireLock_sound _ _ _ _).bind fun got => Sound.ite (Sound.raise rfl) ?_
  exact Sound.finally' (ensureLocked_sound b force) (releaseLock_sound _ _)

end Sessions

/-! ## Submitting -/

section Submitting

/-- The attempt to add, and writes that conflict with nothing. -/
structure Session.Opens (s : Session) (r : OrderAttempt) : Prop where
  unbroken : s.broken = false
  pending : ∃ vs, s.pending = .addAttempt r :: vs ∧ ∀ v ∈ vs, v.harmless

theorem Session.Opens.stage {s : Session} {r : OrderAttempt} (h : s.Opens r) {v : Write}
    (hv : v.harmless) : ({ s with pending := s.pending ++ [v] } : Session).Opens r := by
  obtain ⟨vs, hvs, hharmless⟩ := h.pending
  refine ⟨h.unbroken, vs ++ [v], by rw [hvs, List.cons_append], fun v' hv' => ?_⟩
  rcases List.mem_append.mp hv' with hv' | hv'
  · exact hharmless v' hv'
  · exact List.mem_singleton.mp hv' ▸ hv

theorem Session.Opens.commits {s : Session} {r : OrderAttempt} (h : s.Opens r) {d : Db}
    (hfree : d.attempts.get? r.id = none) : s.Commits d := by
  obtain ⟨vs, hvs, hharmless⟩ := h.pending
  refine ⟨h.unbroken, fun now => ?_⟩
  obtain ⟨d', hd'⟩ := write?_harmless hharmless ((Write.addAttempt r).apply now d)
  refine ⟨d', hvs ▸ Db.write?_cons.mpr ⟨?_, hd'⟩⟩
  show (d.attempts.get? r.id).isSome = false
  rw [hfree]
  rfl

theorem assign_opens {a : OrderAttempt} {row : Order} {f : OrderField} {s : Session} {w : World}
    {Q : Order → Session → World → Prop} {E : Exn → Session → World → Prop} (hs : s.Opens a)
    (hQ : ∀ s', s'.Opens a → Q (Stored.set f row) s' w) :
    Task.wp unfailing (assign row f) Q E s w := by
  rcases wp_assign_cases (g := unfailing) row f Q E s with heq | heq
  · rw [heq]
    exact hQ s hs
  · rw [heq]
    exact hQ _ (hs.stage fun _ => rfl)

/-- A new id is nobody's. -/
theorem freshId_attempt (w : World) : w.db.attempts.get? w.freshId = none := by
  refine get?_none_of_fresh fun a ha heq => ?_
  have hmem : a.id ∈ w.db.ids := by
    simp only [Db.ids, List.mem_append, List.mem_map]
    exact .inl (.inr ⟨a, ha, rfl⟩)
  exact absurd heq (Nat.ne_of_lt (lt_freshId (mem_ids_of_db hmem)))

theorem openAttempt_sound (order : Order) (c : RouteCandidate) (n : Nat) :
    Sound Nothing Nothing (openAttempt order c n) := by
  intro s w hs
  unfold openAttempt
  rw [Task.wp_bind, wp_newId]
  intro x hx
  have hdb : (x.1 w).db = w.db := hx.others w
  have hfree := freshId_attempt (x.1 w)
  rw [hdb] at hfree
  show Task.wp unfailing _ _ _ s { x.1 w with nextId := (x.1 w).freshId + 1 }
  rw [Task.wp_bind, wp_stage, Task.wp_bind]
  have hopens : ∀ r : OrderAttempt, ({ s with pending := s.pending ++ [.addAttempt r] } :
      Session).Opens r :=
    fun r => ⟨hs.unbroken, [], by rw [hs.none_pending]; rfl, List.forall_mem_nil _⟩
  refine assign_opens (hopens _) fun s1 hs1 => ?_
  rw [Task.wp_bind]
  refine assign_opens hs1 fun s2 hs2 => ?_
  rw [Task.wp_bind]
  refine assign_opens hs2 fun s3 hs3 => ?_
  rw [Task.wp_bind]
  refine Task.wp_turn_mono (commit_sound (hs3.commits (hdb ▸ hfree))) (fun _ s4 w4 hs4 => ?_)
    fun _ _ _ => id
  refine Sound.bind Sound.execute (fun row => ?_) s4 w4 hs4
  exact Sound.bind (Sound.refreshed row) fun attempt => Sound.pure _

theorem set_sound {α F : Type} [Stored α F] [DecidableEq α] {r : α} {f : F}
    (h : (Stored.write r f).harmless) : Sound Write.harmless Write.harmless (assign r f) :=
      Sound.assign h

theorem harmless_commit : Sound Write.harmless Nothing commit := Sound.commit fun _ h => h

theorem recordSubmitted_sound (order : Order) (a : OrderAttempt) (c : RouteCandidate)
    (bo : BrokerOrderId) :
    Sound Nothing Nothing (recordSubmitted order a c bo) := by
  refine Sound.stretch ((set_sound fun _ => rfl).bind fun a =>
    (set_sound fun _ => rfl).bind fun a => ?_)
  refine (set_sound fun _ => rfl).bind fun order => (set_sound fun _ => rfl).bind fun order => ?_
  refine (set_sound fun _ => rfl).bind fun order => ?_
  exact (Sound.stage fun _ => rfl).bind fun _ => harmless_commit

theorem failAttempt_sound (a : OrderAttempt) (error : String) :
    Sound Nothing Nothing (failAttempt a error) :=
  Sound.stretch ((set_sound fun _ => rfl).bind fun _ => (set_sound fun _ => rfl).bind fun _ =>
    harmless_commit)

theorem failOrder_sound (order : Order) (code : String) :
    Sound Nothing Nothing (failOrder order code) :=
  Sound.stretch ((set_sound fun _ => rfl).bind fun _ => (set_sound fun _ => rfl).bind fun _ =>
    harmless_commit)

theorem recordFailover_sound (order : Order) (c : RouteCandidate) (reason : String)
    (rest : List RouteCandidate) : Sound Nothing Nothing (recordFailover order c reason rest) := by
  cases rest with
  | nil => exact Sound.pure _
  | cons next _ => exact Sound.stretch ((Sound.stage fun _ => rfl).bind fun _ => harmless_commit)

theorem rateLimited_sound (order : Order) (c : RouteCandidate) (rest : List RouteCandidate) :
    Sound Nothing Nothing (rateLimited order c rest) := by
  refine exceedPolicy_sound.bind fun policy => Sound.ite ?_ ?_
  · exact (failOrder_sound order _).bind fun _ => Sound.raise rfl
  · exact (recordFailover_sound order _ _ _).bind fun _ => Sound.pure _

theorem submitHandler_sound (order : Order) (attempt : OrderAttempt) {e : Exn}
    (he : e.isException = true) :
    Sound Nothing Nothing (submitHandler order attempt e) := by
  cases e with
  | broker code message status retryable =>
      refine (failAttempt_sound attempt message).bind fun _ => Sound.ite (Sound.pure _) ?_
      exact (failOrder_sound order code).bind fun _ => Sound.raise rfl
  | cancelled => cases he
  | _ => exact (failAttempt_sound attempt _).bind fun _ => Sound.pure _

theorem trySubmit_sound (order : Order) (attempt : OrderAttempt) (c : RouteCandidate) :
    Sound Nothing Nothing (trySubmit order attempt c) := by
  refine Sound.catching (Sound.asks fun x w hx => ?_) fun e he =>
    submitHandler_sound order attempt he
  refine Sound.bind (Sound.ofAnswer fun f hf => ?_) fun bo =>
    (recordSubmitted_sound order attempt c bo).bind fun _ => Sound.pure _
  simp only [amid, handle] at hf
  split at hf <;> cases hf <;> rfl

theorem submitChain_sound (held : List BrokerAccount) (chain : List RouteCandidate) :
    ∀ (order : Order) (n : Nat) (last : Option LastError),
      Sound Nothing Nothing (submitChain held order n last chain) := by
  induction chain with
  | nil => exact fun order n last => (failOrder_sound order _).bind fun _ => Sound.raise rfl
  | cons c rest ih =>
      intro order n last
      rw [submitChain]
      refine (rateConsume_sound _ _).bind fun rl => Sound.ite ?_ ?_
      · exact (rateLimited_sound order c rest).bind fun why => ih order _ _
      refine (ensure_sound held c.broker.id false).bind fun _ => ?_
      refine (openAttempt_sound order c n).bind fun x => ?_
      refine (trySubmit_sound x.1 x.2 c).bind fun why => ?_
      cases why with
      | none => exact Sound.pure _
      | some why => exact (recordFailover_sound x.1 c why.code rest).bind fun _ => ih x.1 _ _

theorem submitInline_sound (by_ : Actor) (order : Order) (chain : List RouteCandidate) :
    Sound Nothing Nothing (submitInline by_ order chain) :=
  (Sound.await _).bind fun _ => Sound.execute.bind fun _ => submitChain_sound _ _ _ _ _

end Submitting

/-! ## Replaying -/

section Replaying

theorem reopen_sound (order : Order) : Sound Nothing Nothing (reopen order) := by
  refine Sound.ite (Sound.stretch ?_) (Sound.pure _)
  exact (set_sound fun _ => rfl).bind fun order => harmless_commit.bind fun _ => Sound.pure _

theorem resubmitFailed_sound (order : Order) {e : Exn} (he : e.isException = true) :
    Sound Nothing Nothing (resubmitFailed order e) :=
  Sound.ite (Sound.execute.bind fun row => (Sound.refreshed row).bind fun _ => Sound.pure _)
    (Sound.raise he)

theorem resubmit_sound (order : Order) (chain : List RouteCandidate) :
    Sound Nothing Nothing (resubmit order chain) := by
  refine Sound.catching ((submitInline_sound .replay order chain).bind fun _ => ?_)
    fun e he => resubmitFailed_sound order he
  exact Sound.execute.bind fun row => (Sound.refreshed row).bind fun _ =>
    Sound.ite (Sound.pure _) (Sound.pure _)

/-- Everything that recovering an open order without an adoptable attempt does. -/
theorem resubmission_sound (order : Order) : Sound Nothing Nothing (do
    let order ← reopen order
    let decision ← selectOrRaise order.route
    resubmit order decision.chain) :=
  (reopen_sound order).bind fun order => (selectOrRaise_sound _).bind fun d =>
    resubmit_sound order d.chain

end Replaying

end BrokerBridge
