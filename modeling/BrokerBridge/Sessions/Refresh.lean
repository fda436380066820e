import BrokerBridge.Code.Sessions
import BrokerBridge.World.Locks

/-!
# Where a call is with a session

`ensure` reads the session and the clock under the session lock. If the session is valid
and has not expired, that is its answer; otherwise it asks the broker for tokens, puts them
into the session, commits, and answers with the row that it reads back. The phases of the
protocol are these steps, with what has been read.
-/

namespace BrokerBridge

open Conc

inductive Refresh where
  | out
  | drawn (t : Nat)
  | held (t : Nat)
  | read (t : Nat) (existing : Option BrokerSession)
  /-- What was read is missing, not valid or expired. -/
  | stale (t : Nat) (existing : Option BrokerSession) (now : Instant)
  | fetched (t : Nat) (existing : Option BrokerSession) (now : Instant) (tokens : Tokens)
  | stored (t : Nat) (now : Instant)
  /-- The lock is still to be given back; the session found, and when the clock was read. -/
  | leaving (t : Nat) (found : Option (BrokerSession × Instant))
  | finished (found : Option (BrokerSession × Instant))

/-- Where the session is still the one that was read, the commit goes through and puts the
tokens into it. -/
def Stores (b : BrokerId) (existing : Option BrokerSession) (tokens : Tokens) (now : Instant)
    (ws : List Write) : Prop :=
  ∀ (d : Db) clock, d.sessions.get? b = existing → ∃ d' row, d.write? clock ws = some d' ∧
    d'.sessions.get? b = some row ∧ row.status = tokens.status ∧
    row.expiresAt = some (tokens.expiresAt.getD now)

def Refresh.admits (b : BrokerId) : Refresh → Req → Prop
  | .out, .query [] (.broker _) => True
  | .out, .newId => True
  | .drawn t, .acquire k _ t' => k = .session b ∧ t' = t
  | .held _, .query [] (.brokerSession b') => b' = b
  | .read _ _, .now => True
  | .stale _ _ _, .query [] .providerRow => True
  | .stale _ _ _, .authenticate b' => b' = b
  | .stale _ _ _, .refreshSession b' => b' = b
  | .fetched _ existing now tokens, .commit ws => Stores b existing tokens now ws
  | .stored _ _, .query [] (.brokerSession b') => b' = b
  | .leaving _ _, .cacheSession _ => True
  | .leaving t _, .release k t' => k = .session b ∧ t' = t
  | _, _ => False

/-- The session and the clock have been read. -/
def Refresh.check (t : Nat) (existing : Option BrokerSession) (now : Instant) : Refresh :=
  match existing.filter (·.usable now) with
  | some s => .leaving t (some (s, now))
  | none => .stale t existing now

/-- The broker has been asked for tokens. -/
def Refresh.asked (t : Nat) (existing : Option BrokerSession) (now : Instant) :
    Except Exn Tokens → Refresh
  | .ok tokens => .fetched t existing now tokens
  | .error _ => .leaving t none

def refreshing (b : BrokerId) : Protocol Req Req.Ans Refresh where
  allows := Refresh.admits b
  advance
    | .out, .newId, t => .drawn t
    | .drawn t, .acquire _ _ _, .ok true => .held t
    | .drawn _, .acquire _ _ _, _ => .finished none
    | .held t, .query _ (.brokerSession _), .ok existing => .read t existing
    | .held t, .query _ (.brokerSession _), .error _ => .leaving t none
    | .read t existing, .now, now => .check t existing now
    | .stale t _ _, .query _ .providerRow, .error _ => .leaving t none
    | .stale t existing now, .authenticate _, x => .asked t existing now x
    | .stale t existing now, .refreshSession _, x => .asked t existing now x
    | .fetched t _ now _, .commit _, .ok _ => .stored t now
    | .fetched t _ _ _, .commit _, .error _ => .leaving t none
    | .stored t now, .query _ (.brokerSession _), .ok row => .leaving t (row.map fun s => (s, now))
    | .stored t _, .query _ (.brokerSession _), .error _ => .leaving t none
    | .leaving _ found, .release _ _, _ => .finished found
    | ph, _, _ => ph

/-! ## What is staged -/

/-- The pending writes make `row` of the session that was read. -/
structure Session.Brings (s : Session) (b : BrokerId) (existing : Option BrokerSession)
    (row : BrokerSession) : Prop where
  unbroken : s.broken = false
  writes : ∀ (d : Db) clock, d.sessions.get? b = existing →
    ∃ d', d.write? clock s.pending = some d' ∧ d'.sessions.get? b = some row

section Storing

variable {b : BrokerId} {existing : Option BrokerSession} {s : Session} {row : BrokerSession}

theorem Session.Brings.stage (h : s.Brings b existing row) (f : BrokerSessionField) :
    ({ s with pending := s.pending ++ [Stored.write row f] } : Session).Brings b existing
      (f.set row) := by
  refine ⟨h.unbroken, fun d clock hd => ?_⟩
  obtain ⟨d', hd', hrow⟩ := h.writes d clock hd
  have hkey : row.brokerAccountId = b := Table.get?_key hrow
  refine ⟨(Stored.write row f).apply clock d', ?_, ?_⟩
  · rw [Db.write?_append, hd']
    exact Db.write?_singleton.mpr ⟨rfl, rfl⟩
  · show (d'.sessions.update row.brokerAccountId f).get? b = _
    rw [hkey, Table.get?_update_self, hrow]
    rfl

theorem assign_brings {f : BrokerSessionField}
    {g : (r : Req) → (r.Ans → Refresh → Prop) → Refresh → Prop}
    {Q : BrokerSession → Session → Refresh → Prop} {E : Exn → Session → Refresh → Prop}
    {ph : Refresh}
    (hs : s.Brings b existing row) (hQ : ∀ s', s'.Brings b existing (f.set row) →
      Q (f.set row) s' ph) :
    Task.wp g (assign row f) Q E s ph := by
  rw [wp_assign]
  split
  · next heq =>
      have hset : f.set row = row := heq
      rw [hset] at hQ
      exact hQ s hs
  · exact hQ _ (hs.stage f)

theorem storeTokens_brings {g : (r : Req) → (r.Ans → Refresh → Prop) → Refresh → Prop}
    {tokens : Tokens}
    {now : Instant} {Q : Unit → Session → Refresh → Prop} {E : Exn → Session → Refresh → Prop}
    {ph : Refresh} (hQ : ∀ s, s.broken = false → Stores b existing tokens now s.pending →
      Q () s ph) :
    Task.wp g (storeTokens b existing tokens now) Q E {} ph := by
  have hend : ∀ {s : Session} {row : BrokerSession}, s.Brings b existing row →
    row.status = tokens.status →
      row.expiresAt = some (tokens.expiresAt.getD now) → Q () s ph := by
    intro s row hs hstatus hexpires
    refine hQ s hs.unbroken fun d clock hd => ?_
    obtain ⟨d', hd', hrow⟩ := hs.writes d clock hd
    exact ⟨d', row, hd', hrow, hstatus, hexpires⟩
  cases existing with
  | none =>
      refine hQ _ rfl fun d clock hd => ?_
      have hfree : (d.sessions.get? b).isSome = false := by rw [hd]; rfl
      exact ⟨_, _, Db.write?_singleton.mpr ⟨hfree, rfl⟩, Table.get?_insert_self hd, rfl, rfl⟩
  | some row =>
      have hs : ({} : Session).Brings b (some row) row := ⟨rfl, fun d _ hd => ⟨d, rfl, hd⟩⟩
      unfold storeTokens
      rw [Task.wp_bind]
      refine assign_brings hs fun s1 hs1 => ?_
      rw [Task.wp_bind]
      refine assign_brings hs1 fun s2 hs2 => ?_
      rw [Task.wp_bind]
      exact assign_brings hs2 fun s3 hs3 => hend hs3 rfl rfl

end Storing

/-! ## The walk -/

section Walk

variable {b : BrokerId}

/-- A query of a session in which nothing is pending. -/
theorem wp_execute_new {g : (r : Req) → (r.Ans → Refresh → Prop) → Refresh → Prop} {q : Query}
    {Q : q.Res → Session → Refresh → Prop} {E : Exn → Session → Refresh → Prop} {ph : Refresh}
    (h : g (.query [] q) (dbCases Q E {}) ph) : Task.wp g (execute q) Q E {} ph := by
  rw [wp_execute]
  exact h

theorem fetchTokens_refreshes {t : Nat} {existing : Option BrokerSession} {now : Instant}
    {Q : Tokens → Session → Refresh → Prop} {E : Exn → Session → Refresh → Prop}
    (hQ : ∀ tokens, Q tokens {} (.fetched t existing now tokens))
    (hE : ∀ e, E e {} (.leaving t none)) :
    Task.wp (refreshing b).step (fetchTokens b existing false) Q E {} (.stale t existing now) := by
  have hanswer : ∀ x : Except Exn Tokens,
      Task.wp (refreshing b).step (ofAnswer x) Q E {} (.asked t existing now x) := by
    intro x
    cases x with
    | ok tokens => exact hQ tokens
    | error e => exact hE e
  unfold fetchTokens
  rw [Task.wp_ite]
  split
  · rw [Task.wp_bind, wp_await]
    exact ⟨rfl, hanswer⟩
  · rw [Task.wp_bind, wp_await]
    exact ⟨rfl, hanswer⟩

theorem ensureLocked_refreshes (t : Nat) :
    Task.wp (refreshing b).step (ensureLocked b false)
      (fun row _ ph => ∃ n, ph = .leaving t (some (row, n)))
      (fun _ _ ph => ∃ found, ph = .leaving t found) {} (.held t) := by
  unfold ensureLocked
  rw [Task.wp_bind]
  refine wp_execute_new ⟨rfl, fun x => ?_⟩
  cases x with
  | error e => exact ⟨none, rfl⟩
  | ok existing =>
      rw [dbCases_ok, Task.wp_bind, wp_now]
      refine ⟨trivial, fun n => ?_⟩
      show Task.wp (refreshing b).step (match existing.filter fun s => !false && s.usable n with
        | some s => pure s | none => _) _ _ ({} : Session) (.check t existing n)
      have hsame : (existing.filter fun s => !false && s.usable n) = existing.filter
        (·.usable n) := rfl
      rw [hsame]
      unfold Refresh.check
      cases existing.filter (·.usable n) with
      | some s => exact ⟨n, rfl⟩
      | none =>
          show Task.wp (refreshing b).step (getProvider >>= _) _ _ ({} : Session)
            (.stale t existing n)
          rw [Task.wp_bind]
          refine wp_execute_new ⟨trivial, fun x => ?_⟩
          cases x with
          | error e => exact ⟨none, rfl⟩
          | ok _ =>
              rw [dbCases_ok, Task.wp_bind]
              refine fetchTokens_refreshes (fun tokens => ?_) fun e => ⟨none, rfl⟩
              rw [Task.wp_bind]
              refine storeTokens_brings fun s hs hstores => ?_
              obtain ⟨pending, broken⟩ := s
              cases hs
              rw [Task.wp_bind, wp_commit]
              refine ⟨hstores, fun x => ?_⟩
              cases x with
              | error e => exact ⟨none, rfl⟩
              | ok _ =>
                  rw [dbCases_ok, Task.wp_bind]
                  refine wp_execute_new ⟨rfl, fun x => ?_⟩
                  cases x with
                  | error e => exact ⟨none, rfl⟩
                  | ok row =>
                      rw [dbCases_ok, Task.wp_bind]
                      cases row with
                      | none => exact ⟨none, rfl⟩
                      | some row =>
                          simp only [refreshed, Task.wp_pure]
                          rw [Task.wp_bind, wp_await]
                          refine ⟨trivial, fun x => ?_⟩
                          cases x with
                          | ok _ => exact ⟨n, rfl⟩
                          | error e => cases e <;> exact ⟨_, rfl⟩

/-- The lock, asked for with the token that was drawn. -/
theorem acquireLock_refreshes {t : Nat} {ttl : Int} {op : String}
    {Q : Bool → Session → Refresh → Prop}
    {E : Exn → Session → Refresh → Prop} {s : Session} (hgot : Q true s (.held t))
    (hnot : Q false s (.finished none)) (hE : ∀ e, E e s (.finished none)) :
    Task.wp (refreshing b).step (acquireLock (.session b) ttl t op) Q E s (.drawn t) := by
  unfold acquireLock
  rw [Task.wp_bind, wp_await]
  refine ⟨⟨rfl, rfl⟩, fun x => ?_⟩
  match x with
  | .ok true => exact hgot
  | .ok false => exact hnot
  | .error e => cases e <;> exact hE _

/-- The lock given back. -/
theorem releaseLock_refreshes {t : Nat} {found : Option (BrokerSession × Instant)}
    {Q : Unit → Session → Refresh → Prop} {E : Exn → Session → Refresh → Prop} {s : Session}
    (hQ : Q () s (.finished found)) (hE : ∀ e, E e s (.finished found)) :
    Task.wp (refreshing b).step (releaseLock (.session b) t) Q E s (.leaving t found) := by
  unfold releaseLock
  rw [Task.wp_bind, wp_await]
  refine ⟨⟨rfl, rfl⟩, fun x => ?_⟩
  match x with
  | .ok _ => exact hQ
  | .error e =>
      cases e with
      | redisUnavailable => exact hQ
      | _ => exact hE _

theorem ensure_refreshes (b : BrokerId) :
    Task.wp (refreshing b).step (ensure [] b false)
      (fun row _ ph => ∃ n, ph = .finished (some (row, n)))
      (fun _ _ _ => True) {} .out := by
  unfold ensure
  rw [Task.wp_bind]
  refine wp_execute_new ⟨trivial, fun x => ?_⟩
  cases x with
  | error e => trivial
  | ok row =>
      cases row with
      | none => trivial
      | some broker =>
          rw [dbCases_ok]
          dsimp only
          rw [Task.wp_ite]
          split
          · trivial
          rw [Task.wp_bind, wp_newId]
          refine ⟨trivial, fun t => ?_⟩
          show Task.wp (refreshing b).step (acquireLock _ _ _ _ >>= _) _ _ ({} : Session) (.drawn t)
          rw [Task.wp_bind]
          refine acquireLock_refreshes ?_ trivial fun _ => trivial
          rw [Task.wp_ite, if_neg (by decide), Task.wp_finally']
          refine Task.wp_step_mono (ensureLocked_refreshes t) ?_ ?_
          · rintro row s ph ⟨n, rfl⟩
            exact releaseLock_refreshes ⟨n, rfl⟩ fun _ => trivial
          · rintro e s ph ⟨found, rfl⟩
            exact releaseLock_refreshes trivial fun _ => trivial

end Walk

end BrokerBridge
