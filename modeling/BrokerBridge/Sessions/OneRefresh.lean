import BrokerBridge.Code.System
import BrokerBridge.Sessions.Refresh

/-!
# One refresh per expiry

The session is read again under the lock, and the tokens are committed before the lock is
given back. So whoever asks the broker for tokens has seen the committed session, and knows
it to be of no use; and tokens that a call has got are in the committed session when another
call reads it, until they expire.
-/

namespace BrokerBridge

open Conc

/-- The tokens are valid, and expire later. -/
def Tokens.Fresh (now : Instant) (t : Tokens) : Prop :=
  t.status = .valid ∧ ∃ x, t.expiresAt = some x ∧ now < x

/-- A request to the broker for tokens. -/
def Req.fetches (b : BrokerId) : Req → Prop
  | .authenticate b' | .refreshSession b' => b' = b
  | _ => False

/-- Only sessions of the broker are ensured, without force; its lock does not expire, commits
succeed, and its tokens are fresh. -/
def Refreshing (b : BrokerId) (s : Pools) : Happening → Prop
  | .start c => c = .ensure b false
  | .step i e => (∀ ws, s.Asks i (.commit ws) → e.fault = none) ∧
      ∀ r, s.Asks i r → r.fetches b → e.fault = none → e.tokens.Fresh s.world.clock
  | .tick (.expireLock k) => k ≠ .session b
  | _ => True

/-- Call `i` has drawn the token that holds the lock. -/
structure OwnsLock (i : Nat) (k : LockKey) (t : Nat) (h : Past World Req) : Prop where
  drew : Drew i t h.2
  lock : h.1.locks k = some t

/-- Call `i` has read the clock. -/
def ReadClock (i : Nat) (now : Instant) (tr : List (Nat × Req × World)) : Prop :=
  ∃ w, (i, .now, w) ∈ tr ∧ w.clock = now

/-- The session was usable when the clock was read. -/
def Found (i : Nat) (found : Option (BrokerSession × Instant)) (h : Past World Req) : Prop :=
  ∀ row now, found = some (row, now) → row.usable now = true ∧ ReadClock i now h.2

/-- The committed session is the one that was read, and was of no use then. -/
structure Stale (b : BrokerId) (i : Nat) (existing : Option BrokerSession) (now : Instant)
    (h : Past World Req) : Prop where
  row : h.1.db.sessions.get? b = existing
  unusable : existing.any (·.usable now) = false
  clock : ReadClock i now h.2
  past : now ≤ h.1.clock

/-- What holds where a call is. -/
def Refresh.At (b : BrokerId) (i : Nat) : Refresh → Past World Req → Prop
  | .out, _ => True
  | .drawn t, h => Drew i t h.2
  | .held t, h => OwnsLock i (.session b) t h
  | .read t existing, h => OwnsLock i (.session b) t h ∧ h.1.db.sessions.get? b = existing
  | .stale t existing now, h => OwnsLock i (.session b) t h ∧ Stale b i existing now h
  | .fetched t existing now tokens, h =>
      OwnsLock i (.session b) t h ∧ Stale b i existing now h ∧ tokens.Fresh now
  | .stored t now, h => OwnsLock i (.session b) t h ∧ ReadClock i now h.2 ∧
      ∃ row, h.1.db.sessions.get? b = some row ∧ row.usable now = true
  | .leaving t found, h => OwnsLock i (.session b) t h ∧ Found i found h
  | .finished found, h => Found i found h

section Steps

variable {b : BrokerId} {i j t : Nat} {k : LockKey} {h : Past World Req}
    {ph ph' : Refresh} {r : Req}

theorem ReadClock.mono {now : Instant} {tr tr' : List (Nat × Req × World)} (h : ReadClock i now tr)
    (htr : ∀ x ∈ tr, x ∈ tr') : ReadClock i now tr' := by
  obtain ⟨w, hw, hclock⟩ := h
  exact ⟨w, htr _ hw, hclock⟩

theorem usable_iff {s : BrokerSession} {now : Instant} :
    s.usable now = true ↔ s.status = .valid ∧ ∃ x, s.expiresAt = some x ∧ now < x := by
  unfold BrokerSession.usable
  rw [Bool.and_eq_true, decide_eq_true_iff, Option.any_eq_true]
  simp only [decide_eq_true_iff]

/-- What is of no use stays so. -/
theorem unusable_later {existing : Option BrokerSession} {now later : Instant} (hle : now ≤ later)
    (h : existing.any (·.usable now) = false) : existing.any (·.usable later) = false := by
  rw [Bool.eq_false_iff] at h ⊢
  intro hlater
  obtain ⟨s, hs, husable⟩ := (Option.any_eq_true _ _).mp hlater
  obtain ⟨hvalid, x, hx, hlt⟩ := usable_iff.mp husable
  exact h ((Option.any_eq_true _ _).mpr ⟨s, hs,
    usable_iff.mpr ⟨hvalid, x, hx, lt_of_le_of_lt hle hlt⟩⟩)

/-- Two calls do not own one lock. -/
theorem same_owner (ht : TokensApart h) {t' : Nat} (hi : OwnsLock i k t h)
    (hj : OwnsLock j k t' h) : i = j := by
  have hsame : t = t' := Option.some_inj.mp (hi.lock.symm.trans hj.lock)
  subst hsame
  exact ht.unique i j t hi.drew hj.drew

/-- The lock of the session is not asked for. -/
theorem OwnsLock.unasked (hi : OwnsLock i k t h) (hr : ¬ r.locks k) (e : Env) :
    OwnsLock i k t ((handle r e h.1).2, (j, r, h.1) :: h.2) :=
  ⟨hi.drew.cons _, (handle_locks hr e h.1).trans hi.lock⟩

/-- What the others ask leaves a lock with its owner. -/
theorem OwnsLock.other (hj : OwnsLock j (.session b) t h) (ht : TokensApart h) (hij : j ≠ i)
    (hat : ph.At b i h)
    (hr : ph.admits b r) (e : Env) :
    OwnsLock j (.session b) t ((handle r e h.1).2, (i, r, h.1) :: h.2) := by
  by_cases hlocks : r.locks (.session b)
  · refine ⟨hj.drew.cons _, ?_⟩
    cases r with
    | acquire k ttl t' => exact acquire_held hj.lock e
    | release k t' =>
        refine release_held hj.lock ?_ e
        rintro rfl
        cases ph with
        | leaving t'' found =>
            obtain ⟨rfl, rfl⟩ := hr
            exact hij (same_owner ht hj hat.1)
        | _ => exact hr.elim
    | _ => exact hlocks.elim
  · exact hj.unasked hlocks e

/-- A commit is made under the lock. -/
theorem owns_of_commit (hat : ph.At b i h) {ws : List Write} (hr : ph.admits b (.commit ws)) :
    ∃ t, OwnsLock i (.session b) t h := by
  cases ph with
  | fetched t existing now tokens => exact ⟨t, hat.1⟩
  | _ => exact hr.elim

/-- What others do keeps the assertion of a call: they leave its lock with it, and the session
as it is while it has the lock. -/
theorem Refresh.At.kept {h' : Past World Req} (hat : ph.At b j h)
    (howns : ∀ t, OwnsLock j (.session b) t h → OwnsLock j (.session b) t h' ∧
      h'.1.db.sessions.get? b = h.1.db.sessions.get? b)
    (hclock : h.1.clock ≤ h'.1.clock) (htr : ∀ x ∈ h.2, x ∈ h'.2) : ph.At b j h' := by
  have hfound : ∀ found, Found j found h → Found j found h' := fun found hf row now heq =>
    ⟨(hf row now heq).1, (hf row now heq).2.mono htr⟩
  have hstale : ∀ t existing now, OwnsLock j (.session b) t h → Stale b j existing now h →
      Stale b j existing now h' := fun t existing now ho hs =>
    ⟨(howns t ho).2.trans hs.row, hs.unusable, hs.clock.mono htr, hs.past.trans hclock⟩
  cases ph with
  | out => trivial
  | drawn t =>
      obtain ⟨w, hw, hfresh⟩ := hat
      exact ⟨w, htr _ hw, hfresh⟩
  | held t => exact (howns t hat).1
  | read t existing => exact ⟨(howns t hat.1).1, (howns t hat.1).2.trans hat.2⟩
  | stale t existing now => exact ⟨(howns t hat.1).1, hstale t _ _ hat.1 hat.2⟩
  | fetched t existing now tokens =>
      exact ⟨(howns t hat.1).1, hstale t _ _ hat.1 hat.2.1, hat.2.2⟩
  | stored t now =>
      obtain ⟨ho, hread, row, hrow, husable⟩ := hat
      exact ⟨(howns t ho).1, hread.mono htr, row, (howns t ho).2.trans hrow, husable⟩
  | leaving t found => exact ⟨(howns t hat.1).1, hfound found hat.2⟩
  | finished found => exact hfound found hat

/-- What another call asks leaves everything where it is. -/
theorem Refresh.At.other (hat' : ph'.At b j h) (ht : TokensApart h) (hij : j ≠ i)
    (hat : ph.At b i h)
    (hr : ph.admits b r) (e : Env) : ph'.At b j ((handle r e h.1).2, (i, r, h.1) :: h.2) := by
  refine hat'.kept (fun t ho => ⟨ho.other ht hij hat hr e, ?_⟩) (handle_clock r e h.1).ge
    fun _ => List.mem_cons_of_mem _
  have hcommit : ∀ ws, r ≠ .commit ws := by
    rintro ws rfl
    obtain ⟨t', ho'⟩ := owns_of_commit hat hr
    exact hij (same_owner ht ho ho')
  show (handle r e h.1).2.db.sessions.get? b = _
  rw [handle_db hcommit]

theorem ReadClock.cons {now : Instant} (h' : ReadClock i now h.2) (x : Nat × Req × World) :
    ReadClock i now (x :: h.2) := h'.mono fun _ => List.mem_cons_of_mem _

theorem Found.cons {found : Option (BrokerSession × Instant)} (hf : Found i found h)
    (x : Nat × Req × World) (w : World) : Found i found (w, x :: h.2) := fun row now heq =>
  ⟨(hf row now heq).1, (hf row now heq).2.cons x⟩

theorem found_none : Found i none h := fun _ _ heq => nomatch heq

/-- A request that leaves the session and the clock as they are. -/
theorem Stale.cons {existing : Option BrokerSession} {now : Instant} (hs : Stale b i existing now h)
    (hr : ∀ ws, r ≠ .commit ws) (e : Env) :
    Stale b i existing now ((handle r e h.1).2, (j, r, h.1) :: h.2) := by
  refine ⟨?_, hs.unusable, hs.clock.cons _, (handle_clock r e h.1).symm ▸ hs.past⟩
  show (handle r e h.1).2.db.sessions.get? b = existing
  rw [handle_db hr]
  exact hs.row

/-- The session is read under the lock. -/
theorem at_read (ho : OwnsLock i (.session b) t h) (e : Env) :
    ((refreshing b).advance (.held t) (.query [] (.brokerSession b))
      (handle (.query [] (.brokerSession b)) e h.1).1).At b i
      ((handle (.query [] (.brokerSession b)) e h.1).2,
        (i, .query [] (.brokerSession b), h.1) :: h.2) := by
  have ho' := ho.unasked (j := i) (r := .query [] (.brokerSession b)) (fun hlocks => hlocks) e
  rcases query_cases [] (.brokerSession b) e h.1 with ⟨f, hf⟩ | hf
  · rw [hf] at ho' ⊢
    exact ⟨ho', found_none⟩
  · rw [hf] at ho' ⊢
    exact ⟨ho', (congrArg (fun d : Db => d.sessions.get? b) Db.view_nil).symm⟩

theorem at_check {existing : Option BrokerSession} (ho : OwnsLock i (.session b) t h)
    (hrow : h.1.db.sessions.get? b = existing) :
    (Refresh.check t existing h.1.clock).At b i (h.1, (i, .now, h.1) :: h.2) := by
  have ho' : OwnsLock i (.session b) t (h.1, (i, .now, h.1) :: h.2) := ⟨ho.drew.cons _, ho.lock⟩
  have hread : ReadClock i h.1.clock ((i, .now, h.1) :: h.2) := ⟨h.1, List.mem_cons_self, rfl⟩
  unfold Refresh.check
  cases hfilter : existing.filter (·.usable h.1.clock) with
  | some row =>
      refine ⟨ho', fun row' now heq => ?_⟩
      cases heq
      exact ⟨(Option.filter_eq_some_iff.mp hfilter).2, hread⟩
  | none =>
      refine ⟨ho', hrow, ?_, hread, le_refl _⟩
      cases existing with
      | none => rfl
      | some row =>
          rw [Option.filter_eq_none_iff] at hfilter
          exact Bool.eq_false_iff.mpr (hfilter row rfl)

/-- The broker is asked for tokens. -/
theorem at_fetched {existing : Option BrokerSession} {now : Instant} {documented : Exn}
    (hat : Refresh.At b i (.stale t existing now) h) (hr : r.fetches b) (e : Env)
    (hfresh : e.fault = none → e.tokens.Fresh h.1.clock) :
    Refresh.At b i (.asked t existing now (e.answer documented h.1 e.tokens h.1).1)
      ((handle r e h.1).2, (i, r, h.1) :: h.2) := by
  have hnot : ¬ r.locks (.session b) ∧ ∀ ws, r ≠ .commit ws := by
    cases r with
    | authenticate | refreshSession => exact ⟨fun hlocks => hlocks, fun _ heq => nomatch heq⟩
    | _ => exact hr.elim
  have ho' := hat.1.unasked (j := i) hnot.1 e
  unfold Env.answer
  cases hfault : e.fault with
  | some f => exact ⟨ho', found_none⟩
  | none =>
      obtain ⟨hvalid, x, hx, hlt⟩ := hfresh hfault
      exact ⟨ho', hat.2.cons hnot.2 e, hvalid, x, hx, lt_of_le_of_lt hat.2.past hlt⟩

/-- The tokens are committed, and the session is of use then. -/
theorem at_stored {existing : Option BrokerSession} {now : Instant} {tokens : Tokens}
    {ws : List Write}
    (hat : Refresh.At b i (.fetched t existing now tokens) h)
    (hws : Stores b existing tokens now ws)
    {e : Env} (he : e.fault = none) :
    Refresh.At b i ((refreshing b).advance (.fetched t existing now tokens) (.commit ws)
      (handle (.commit ws) e h.1).1) ((handle (.commit ws) e h.1).2,
        (i, .commit ws, h.1) :: h.2) := by
  obtain ⟨ho, hs, hvalid, x, hx, hlt⟩ := hat
  obtain ⟨d, row, hd, hrow, hstatus, hexpires⟩ := hws h.1.db h.1.clock hs.row
  have ho' := ho.unasked (j := i) (r := .commit ws) (fun hlocks => hlocks) e
  have hanswer : handle (.commit ws) e h.1 = (.ok (), { h.1 with db := d }) := by
    simp only [handle, hd, Env.answer, he]
  rw [hanswer] at ho' ⊢
  refine ⟨ho', hs.clock.cons _, row, hrow, usable_iff.mpr ⟨hstatus.trans hvalid, x, ?_, hlt⟩⟩
  rw [hexpires, hx]
  rfl

/-- The session that was stored is read back. -/
theorem at_leaving {now : Instant} (hat : Refresh.At b i (.stored t now) h) (e : Env) :
    ((refreshing b).advance (.stored t now) (.query [] (.brokerSession b))
      (handle (.query [] (.brokerSession b)) e h.1).1).At b i
      ((handle (.query [] (.brokerSession b)) e h.1).2,
        (i, .query [] (.brokerSession b), h.1) :: h.2) := by
  obtain ⟨ho, hread, row, hrow, husable⟩ := hat
  have ho' := ho.unasked (j := i) (r := .query [] (.brokerSession b)) (fun hlocks => hlocks) e
  rcases query_cases [] (.brokerSession b) e h.1 with ⟨f, hf⟩ | hf
  · rw [hf] at ho' ⊢
    exact ⟨ho', found_none⟩
  · rw [hf] at ho' ⊢
    refine ⟨ho', fun row' now' heq => ?_⟩
    rw [Db.view_nil] at heq
    have hmap : (h.1.db.sessions.get? b).map (fun s => (s, now)) = some (row', now') := heq
    rw [hrow] at hmap
    cases hmap
    exact ⟨husable, hread.cons _⟩

/-- A call's own request leads to a phase whose assertion holds. -/
theorem Refresh.At.own (hat : ph.At b i h) (hr : ph.admits b r) (e : Env)
    (hcommit : ∀ ws, r = .commit ws → e.fault = none)
    (hfresh : r.fetches b → e.fault = none → e.tokens.Fresh h.1.clock) :
    ((refreshing b).advance ph r (handle r e h.1).1).At b i
      ((handle r e h.1).2, (i, r, h.1) :: h.2) := by
  cases ph with
  | out =>
      cases r with
      | query => trivial
      | newId => exact drew_newId i h
      | _ => exact hr.elim
  | drawn t =>
      cases r with
      | acquire k ttl t' =>
          obtain ⟨rfl, rfl⟩ := hr
          cases hx : (handle (.acquire (.session b) ttl t') e h.1).1 with
          | error f => exact found_none
          | ok got =>
              cases got with
              | false => exact found_none
              | true => exact ⟨hat.cons _, acquired hx⟩
      | _ => exact hr.elim
  | held t =>
      cases r with
      | query ws q =>
          cases ws <;> cases q <;> first | exact hr.elim | skip
          cases hr
          exact at_read hat e
      | _ => exact hr.elim
  | read t existing =>
      cases r with
      | now => exact at_check hat.1 hat.2
      | _ => exact hr.elim
  | stale t existing now =>
      cases r with
      | query ws q =>
          cases ws <;> cases q <;> first | exact hr.elim | skip
          have ho' := hat.1.unasked (j := i) (r := .query [] .providerRow) (fun hlocks => hlocks) e
          have hs' := hat.2.cons (j := i) (r := .query [] .providerRow) (fun _ heq => nomatch heq) e
          cases (handle (.query [] .providerRow) e h.1).1 with
          | error f => exact ⟨ho', found_none⟩
          | ok _ => exact ⟨ho', hs'⟩
      | authenticate b' => exact at_fetched (r := .authenticate b') hat hr e (hfresh hr)
      | refreshSession b' => exact at_fetched (r := .refreshSession b') hat hr e (hfresh hr)
      | _ => exact hr.elim
  | fetched t existing now tokens =>
      cases r with
      | commit ws => exact at_stored hat hr (hcommit ws rfl)
      | _ => exact hr.elim
  | stored t now =>
      cases r with
      | query ws q =>
          cases ws <;> cases q <;> first | exact hr.elim | skip
          cases hr
          exact at_leaving hat e
      | _ => exact hr.elim
  | leaving t found =>
      cases r with
      | cacheSession b' =>
          exact ⟨hat.1.unasked (r := .cacheSession b') (fun hlocks => hlocks) e, hat.2.cons _ _⟩
      | release k t' => exact hat.2.cons _ _
      | _ => exact hr.elim
  | finished found => cases r <;> exact hr.elim

end Steps

/-! ## The runs -/

/-- What a call returns was found under the lock. -/
def ReturnsFound (x : Except Exn Reply) (ph : Refresh) : Prop :=
  ∀ y, x = .ok y → ∃ row now, y = .session row ∧ ph = .finished (some (row, now))

section Ticks

variable {b : BrokerId} {s : Pools} {j : Nat} {ph : Refresh} {v : Tick}

theorem tick_clock_le (v : Tick) (w : World) : w.clock ≤ (tick v w).clock := by
  cases v with
  | advance n => exact Int.le_add_of_nonneg_right (Int.natCast_nonneg n)
  | _ => exact le_refl _

theorem OwnsLock.tick {k : LockKey} {t : Nat} (ho : OwnsLock j k t s.past)
    (hv : ∀ k', v = .expireLock k' → k' ≠ k) :
    OwnsLock j k t (BrokerBridge.tick v s.world, s.trace) := by
  refine ⟨ho.drew, ?_⟩
  cases v with
  | expireLock k' => exact (setLock_ne (hv k' rfl).symm).trans ho.lock
  | _ => exact ho.lock

theorem Refresh.At.tick (hat : ph.At b j s.past) (hc : Refreshing b s (.tick v)) :
    ph.At b j (BrokerBridge.tick v s.world, s.trace) := by
  refine hat.kept (fun t ho => ⟨ho.tick fun k hk => ?_, ?_⟩) (tick_clock_le v s.world) fun _ => id
  · subst hk
    exact hc
  · cases v <;> rfl

end Ticks

/-- Every call is in a phase whose assertion holds. -/
def refreshes (settings : Settings) (w : World) (b : BrokerId) :
    Annotation (system settings) (refreshing b) ReturnsFound (Idle w) (Refreshing b) where
  inv := TokensApart
  holds i ph _ h := ph.At b i h
  start {s c} _ hc _ := by
    cases hc
    refine ⟨.out, Coro.program_ends (F := ReturnsFound) (ensure_refreshes b) ?_ ?_, trivial⟩
    · rintro row _ ph ⟨now, rfl⟩ y hy
      cases hy
      exact ⟨row, now, rfl, rfl⟩
    · intro e _ ph _ y hy
      cases hy
  own {s i e r k ph} _ hc hk hf hinv hat _ := by
    refine ⟨hinv.after _ _ _, hat.own hf.allows e (fun ws heq => ?_) fun hr => hc.2 r ⟨k, hk⟩ hr⟩
    subst heq
    exact hc.1 ws ⟨k, hk⟩
  other {s i j e r k p ph ph'} _ _ _ hij hf _ hinv hat hat' := hat'.other hinv hij hat hf.allows e
  tick {s v} _ hinv := by
    cases v <;> exact ⟨hinv.lt, hinv.unique⟩
  tick_holds {s v j ph p} hc _ _ hat := hat.tick hc

section Runs

variable {settings : Settings} {b : BrokerId} {w : World} {s s' : Pools} {i j : Nat} {r : Req}

theorem refreshes_sound (h : (system settings).Reach (Idle w) (Refreshing b) s) :
    TokensApart s.past ∧ s.Located (refreshing b) ReturnsFound fun i ph _ h => ph.At b i h :=
  (refreshes settings w b).sound (fun s hs => by
    cases hs
    exact ⟨tokens_nil w, rfl⟩) h

/-- Who asks the broker for tokens knows the session to be of no use. -/
theorem stale_of_fetches {ph : Refresh} {h : Past World Req} (hat : ph.At b i h)
    (hr : ph.admits b r)
    (hfetch : r.fetches b) : ∃ t existing now, ph = .stale t existing now ∧
      OwnsLock i (.session b) t h ∧ Stale b i existing now h := by
  cases ph with
  | stale t existing now => exact ⟨t, existing, now, rfl, hat⟩
  | _ => cases r <;> first | exact hfetch.elim | exact hr.elim

/-- Tokens that expire at `x`, got by call `i`: they are in the session, or `i` still has the lock
and has them to commit, unless they have expired. -/
def Granted (b : BrokerId) (x : Instant) (i : Nat) (s : Pools) : Prop :=
  x ≤ s.world.clock ∨
  (∃ row, s.world.db.sessions.get? b = some row ∧ row.status = .valid ∧ row.expiresAt = some x) ∨
  i < s.threads.length ∧ ∃ t, OwnsLock i (.session b) t s.past ∧
    ∀ p, s.prog? i = some p → ∃ existing now tokens,
      p.Follows (refreshing b) ReturnsFound (.fetched t existing now tokens) ∧
      (Refresh.fetched t existing now tokens).At b i s.past ∧
      tokens.status = .valid ∧ tokens.expiresAt = some x

/-- A session that is of no use does not have them, unless they have expired. -/
theorem expired_of_stale {existing : Option BrokerSession} {now x : Instant} {h : Past World Req}
    (hs : Stale b j existing now h) {row : BrokerSession} (hrow : h.1.db.sessions.get? b = some row)
    (hvalid : row.status = .valid) (hx : row.expiresAt = some x) : x ≤ h.1.clock := by
  have hunusable := hs.unusable
  rw [← hs.row, hrow] at hunusable
  by_contra hlt
  have husable : row.usable now = true :=
    usable_iff.mpr ⟨hvalid, x, hx, lt_of_le_of_lt hs.past (not_le.mp hlt)⟩
  exact Bool.false_ne_true (hunusable.symm.trans husable)

theorem granted_step {x : Instant} {e : Env} (h : (system settings).Reach (Idle w) (Refreshing b) s)
    (hc : Refreshing b s (.step j e)) (hg : Granted b x i s) :
    Granted b x i ((system settings).next s (.step j e)) := by
  obtain ⟨hinv, hloc⟩ := refreshes_sound h
  rcases Machine.step_cases (M := system settings) s j e with ⟨r, k, hk, heq⟩ | heq
  · rw [heq]
    obtain ⟨ph, hf, hat⟩ := hloc j _ hk
    have hclock : (handle r e s.world).2.clock = s.world.clock := handle_clock r e s.world
    rcases hg with hover | ⟨row, hrow, hvalid, hx⟩ | ⟨hi, t, ho, hheld⟩
    · exact .inl (hclock.symm ▸ hover)
    · by_cases hcommit : ∃ ws, r = .commit ws
      · -- another commit means that the session is of no use any more
        obtain ⟨ws, rfl⟩ := hcommit
        refine .inl (hclock.symm ▸ ?_)
        cases ph with
        | fetched t existing now tokens => exact expired_of_stale hat.2.1 hrow hvalid hx
        | _ => exact hf.allows.elim
      · refine .inr (.inl ⟨row, ?_, hvalid, hx⟩)
        show (handle r e s.world).2.db.sessions.get? b = _
        rw [handle_db fun ws heq => hcommit ⟨ws, heq⟩]
        exact hrow
    · by_cases hij : i = j
      · subst hij
        obtain ⟨existing, now, tokens, hf', hat', hvalid, hx⟩ := hheld _ hk
        cases r with
        | commit ws =>
            obtain ⟨d, row, hd, hrow, hstatus, hexpires⟩ :=
              hf'.allows s.world.db s.world.clock hat'.2.1.row
            have hanswer : handle (.commit ws) e s.world = (.ok (), { s.world with db := d }) := by
              simp only [handle, hd, Env.answer, hc.1 ws ⟨k, hk⟩]
            refine .inr (.inl ⟨row, ?_, hstatus.trans hvalid, ?_⟩)
            · show (handle (.commit ws) e s.world).2.db.sessions.get? b = _
              rw [hanswer]
              exact hrow
            · rw [hexpires, hx]
              rfl
        | _ => exact hf'.allows.elim
      · refine .inr (.inr ⟨?_, t, ho.other hinv hij hat hf.allows e, fun p hp => ?_⟩)
        · show i < (s.threads.set j _).length
          rw [List.length_set]
          exact hi
        · rw [Pool.prog?_set _ _ _ (Pool.prog?_some_lt hk), if_neg hij] at hp
          obtain ⟨existing, now, tokens, hf', hat', hrest⟩ := hheld p hp
          exact ⟨existing, now, tokens, hf', hat'.other hinv hij hat hf.allows e, hrest⟩
  · rw [heq]
    exact hg

/-- Whatever happens next. -/
theorem granted_next {x : Instant} {ev : Happening}
    (h : (system settings).Reach (Idle w) (Refreshing b) s)
    (hc : Refreshing b s ev) (hg : Granted b x i s) :
    Granted b x i ((system settings).next s ev) := by
  cases ev with
  | step j e => exact granted_step h hc hg
  | start c =>
      rcases hg with hover | hrow | ⟨hi, t, ho, hheld⟩
      · exact .inl hover
      · exact .inr (.inl hrow)
      · refine .inr (.inr ⟨?_, t, ho, fun p hp => ?_⟩)
        · show i < (s.threads ++ [_]).length
          rw [List.length_append]
          exact Nat.lt_of_lt_of_le hi (Nat.le_add_right _ _)
        · rw [Machine.next, Pool.prog?_append, if_neg (Nat.ne_of_lt hi)] at hp
          exact hheld p hp
  | crash j =>
      rcases hg with hover | hrow | ⟨hi, t, ho, hheld⟩
      · exact .inl hover
      · exact .inr (.inl hrow)
      · refine .inr (.inr ⟨?_, t, ho, fun p hp => hheld p (Pool.prog?_kill _ _ hp)⟩)
        show i < (s.threads.set j none).length
        rw [List.length_set]
        exact hi
  | tick v =>
      rcases hg with hover | ⟨row, hrow, hx⟩ | ⟨hi, t, ho, hheld⟩
      · exact .inl (hover.trans (tick_clock_le v s.world))
      · refine .inr (.inl ⟨row, ?_, hx⟩)
        cases v <;> exact hrow
      · refine .inr (.inr ⟨hi, t, ho.tick fun k hk => ?_, fun p hp => ?_⟩)
        · subst hk
          exact hc
        · obtain ⟨existing, now, tokens, hf, hat, hrest⟩ := hheld p hp
          exact ⟨existing, now, tokens, hf, hat.tick hc, hrest⟩

theorem granted_from {x : Instant} (h : (system settings).Reach (Idle w) (Refreshing b) s)
    (hg : Granted b x i s) (h' : (system settings).ReachFrom (Refreshing b) s s') :
    Granted b x i s' := by
  induction h' with
  | init hs =>
      subst hs
      exact hg
  | step hreach hc ih => exact granted_next (h.trans hreach) hc ih

/-- The broker has answered with tokens. -/
theorem granted_of_fetched {e : Env} (h : (system settings).Reach (Idle w) (Refreshing b) s)
    (hasks : s.Asks i r) (hfetch : r.fetches b) (hc : Refreshing b s (.step i e))
    (he : e.fault = none) :
    ∃ x, e.tokens.expiresAt = some x ∧ Granted b x i ((system settings).next s (.step i e)) := by
  obtain ⟨_, hloc⟩ := refreshes_sound h
  obtain ⟨k, hk⟩ := hasks
  obtain ⟨ph, hf, hat⟩ := hloc i _ hk
  obtain ⟨t, existing, now, rfl, _, _⟩ := stale_of_fetches hat hf.allows hfetch
  obtain ⟨hvalid, x, hx, _⟩ := hc.2 r ⟨k, hk⟩ hfetch he
  refine ⟨x, hx, .inr (.inr ?_)⟩
  have hanswer : (refreshing b).advance (.stale t existing now) r (handle r e s.world).1 =
      .fetched t existing now e.tokens := by
    cases r with
    | authenticate | refreshSession =>
        show Refresh.asked t existing now (e.answer _ s.world e.tokens s.world).1 = _
        rw [Env.answer, he]
        rfl
    | _ => exact hfetch.elim
  have hnext : (Refresh.fetched t existing now e.tokens).At b i
      ((handle r e s.world).2, (i, r, s.world) :: s.trace) := by
    rw [← hanswer]
    refine hat.own hf.allows e (fun ws heq => ?_) fun hr => hc.2 r ⟨k, hk⟩ hr
    subst heq
    exact hfetch.elim
  rw [Machine.next_step_of_asks e hk]
  refine ⟨?_, t, hnext.1, fun p hp => ?_⟩
  · show i < (s.threads.set i _).length
    rw [List.length_set]
    exact Pool.prog?_some_lt hk
  · rw [Pool.prog?_set _ _ _ (Pool.prog?_some_lt hk), if_pos rfl] at hp
    cases hp
    exact ⟨existing, now, e.tokens, hanswer ▸ hf.next _, hnext, hvalid, hx⟩

/-- Until they have expired, no call asks for others. -/
theorem expired_of_fetches {x : Instant} (h : (system settings).Reach (Idle w) (Refreshing b) s)
    (hg : Granted b x i s) (hasks : s.Asks j r) (hfetch : r.fetches b) : x ≤ s.world.clock := by
  obtain ⟨hinv, hloc⟩ := refreshes_sound h
  obtain ⟨k, hk⟩ := hasks
  obtain ⟨ph, hf, hat⟩ := hloc j _ hk
  obtain ⟨t, existing, now, rfl, ho, hs⟩ := stale_of_fetches hat hf.allows hfetch
  rcases hg with hover | ⟨row, hrow, hvalid, hx⟩ | ⟨_, t', ho', hheld⟩
  · exact hover
  · exact expired_of_stale hs hrow hvalid hx
  · cases same_owner hinv ho ho'
    obtain ⟨existing', now', tokens, hf', _⟩ := hheld _ hk
    cases r with
    | authenticate | refreshSession => exact hf'.allows.elim
    | _ => exact hfetch.elim

end Runs

/-- What is claimed of a moment in a run. -/
structure OneRefresh (settings : Settings) (b : BrokerId) (s : Pools) : Prop where
  /-- A call raises, or returns a session that was usable when it read the clock. -/
  returns : ∀ i x, s.Returned i x → (∃ e, x = .error e) ∨
    ∃ row w, x = .ok (.session row) ∧ (i, .now, w) ∈ s.trace ∧ row.usable w.clock = true
  /-- The broker is asked for tokens when the committed session is of no use. -/
  stale : ∀ i r, s.Asks i r → r.fetches b →
    (∃ w, (i, .now, w) ∈ s.trace ∧ (s.world.db.sessions.get? b).any (·.usable w.clock) = false) ∧
      (s.world.db.sessions.get? b).any (·.usable s.world.clock) = false
  /-- Tokens that it answers with are the last until they expire. -/
  once : ∀ i r e s' j r', s.Asks i r → r.fetches b → Refreshing b s (.step i e) → e.fault = none →
    (system settings).ReachFrom (Refreshing b) ((system settings).next s (.step i e)) s' →
    s'.Asks j r' → r'.fetches b → ∃ x, e.tokens.expiresAt = some x ∧ x ≤ s'.world.clock
  single : (s.world.db.sessions.rows.filter (·.brokerAccountId == b)).length ≤ 1
  /-- No commit runs into a constraint. -/
  commits : ∀ i ws, s.Asks i (.commit ws) → ∃ d, s.world.db.write? s.world.clock ws = some d

/-- In every run of `ensure` calls for one broker. -/
theorem ensure_refreshes_once (settings : Settings) (b : BrokerId) (w : World) {s : Pools}
    (h : (system settings).Reach (Idle w) (Refreshing b) s) : OneRefresh settings b s := by
  obtain ⟨hinv, hloc⟩ := refreshes_sound h
  refine ⟨fun i x hx => ?_, fun i r hasks hfetch =>
    ?_, fun i r e s' j r' hasks hfetch hc he hreach hasks' hfetch' => ?_,
    ?_, fun i ws hasks => ?_⟩
  · obtain ⟨ph, hf, hat⟩ := hloc i _ hx
    cases x with
    | error e => exact .inl ⟨e, rfl⟩
    | ok y =>
        obtain ⟨row, now, rfl, rfl⟩ := hf y rfl
        obtain ⟨husable, w', hw', rfl⟩ := hat row now rfl
        exact .inr ⟨row, w', rfl, hw', husable⟩
  · obtain ⟨k, hk⟩ := hasks
    obtain ⟨ph, hf, hat⟩ := hloc i _ hk
    obtain ⟨t, existing, now, rfl, _, hs⟩ := stale_of_fetches hat hf.allows hfetch
    have hunusable : (s.world.db.sessions.get? b).any (·.usable now) = false := hs.row ▸ hs.unusable
    obtain ⟨w', hw', rfl⟩ := hs.clock
    exact ⟨⟨w', hw', hunusable⟩, unusable_later hs.past hunusable⟩
  · obtain ⟨x, hx, hg⟩ := granted_of_fetched h hasks hfetch hc he
    have hnext := Machine.Reach.step h hc
    exact ⟨x, hx, expired_of_fetches (hnext.trans hreach)
      (granted_from hnext hg hreach) hasks' hfetch'⟩
  · exact Table.length_filter_key
  · obtain ⟨k, hk⟩ := hasks
    obtain ⟨ph, hf, hat⟩ := hloc i _ hk
    cases ph with
    | fetched t existing now tokens =>
        obtain ⟨d, _, hd, _⟩ := hf.allows s.world.db s.world.clock hat.2.1.row
        exact ⟨d, hd⟩
    | _ => exact hf.allows.elim

/-- `Refreshing`, computed. -/
def refreshingCheck (b : BrokerId) (s : Pools) : Happening → Bool
  | .start (.ensure b' force) => b' == b && !force
  | .start _ => false
  | .step _ e => e.fault == none && e.tokens.status == .valid &&
      e.tokens.expiresAt.any (s.world.clock < ·)
  | .tick (.expireLock k) => k != .session b
  | _ => true

theorem refreshing_of_check {b : BrokerId} (s : Pools) (ev : Happening)
    (h : refreshingCheck b s ev = true) : Refreshing b s ev := by
  cases ev with
  | start c =>
      cases c with
      | ensure b' force =>
          simp only [refreshingCheck, Bool.and_eq_true, beq_iff_eq, Bool.not_eq_true'] at h
          rw [h.1, h.2]
          rfl
      | _ => cases h
  | step i e =>
      simp only [refreshingCheck, Bool.and_eq_true, beq_iff_eq, Option.any_eq_true,
        decide_eq_true_iff] at h
      exact ⟨fun _ _ => h.1.1, fun _ _ _ _ => ⟨h.1.2, h.2⟩⟩
  | tick v =>
      cases v with
      | expireLock k => exact bne_iff_ne.mp h
      | _ => trivial
  | crash i => trivial

/-- A broker without a session. -/
def loggedOut : World where
  db := { brokers := .of [{ id := 2, clientId := 1 }] }

/-- Two calls one after the other, the second while the tokens are valid. -/
def ensuredTwice : List Happening :=
  .start (.ensure 2 false) :: List.replicate 11 (.step 0 { tokens := ⟨.valid, some 60⟩ }) ++
  .tick (.advance 30) :: .start (.ensure 2 false) ::
    List.replicate 6 (.step 1 { tokens := ⟨.valid, some 90⟩ })

/-- One of the requests for tokens. -/
def isFetch (x : Nat × Req × World) : Bool :=
  match x.2.1 with
  | .authenticate _ | .refreshSession _ => true
  | _ => false

/-- Both calls return, and the broker is asked once. -/
theorem ensure_refreshes_once_twice :
    let s := (system {}).run { world := loggedOut } ensuredTwice
    s.alone 2 = true ∧ (s.trace.filter isFetch).length = 1 ∧ OneRefresh {} 2 s := by
  have hrun : (system {}).Reach (Idle loggedOut) (Refreshing 2)
      ((system {}).run { world := loggedOut } ensuredTwice) :=
    Machine.reach_run_of_check refreshing_of_check (reach_idle loggedOut) _ (by decide +kernel)
  exact ⟨by decide +kernel, by decide +kernel, ensure_refreshes_once {} 2 loggedOut hrun⟩

end BrokerBridge
