import BrokerBridge.World.Locks
import Mathlib.Data.Rat.Floor

/-!
# The world's locks are either adapter

`MemoryLock` keeps the token of each key that is held. `RedisLock` keeps it at a server,
where the key expires: the server looks at the expiry of a key when it is asked for it.

The world answers as `MemoryLock` does, and, when each key lapses that the server finds
expired, as `RedisLock` does. The world has no reply that gets lost on the way back; what
is left of the exclusion then is said of the server alone.
-/

namespace BrokerBridge.Locks

/-! ## The adapters -/

/-- `MemoryLock` -/
structure MemoryLock where
  locks : LockKey → Option Nat := fun _ => none

namespace MemoryLock

def put (l : MemoryLock) (k : LockKey) (t : Option Nat) : MemoryLock :=
  { locks := Function.update l.locks k t }

/-- `acquire` -/
def acquire (l : MemoryLock) (k : LockKey) (t : Nat) : Bool × MemoryLock :=
  match l.locks k with
  | some t' => if t' ≠ t then (false, l) else (true, l.put k (some t))
  | none => (true, l.put k (some t))

/-- `release` -/
def release (l : MemoryLock) (k : LockKey) (t : Nat) : Bool × MemoryLock :=
  if l.locks k ≠ some t then (false, l) else (true, l.put k none)

end MemoryLock

structure RedisEntry where
  token : Nat
  /-- in milliseconds -/
  expiresAt : Int
  deriving DecidableEq

/-- The keys of the server. -/
structure Redis where
  data : LockKey → Option RedisEntry := fun _ => none

/-- `ttl_ms` -/
def ttlMs (ttlSeconds : Rat) : Int := max 1 ⌊ttlSeconds * 1000⌋

namespace Redis

def put (r : Redis) (k : LockKey) (e : Option RedisEntry) : Redis :=
  { data := Function.update r.data k e }

def expired (r : Redis) (now : Int) (k : LockKey) : Bool :=
  (r.data k).any fun e => decide (e.expiresAt ≤ now)

/-- A key that is asked for is deleted if it has expired. -/
def touch (r : Redis) (now : Int) (k : LockKey) : Redis :=
  if r.expired now k then r.put k none else r

/-- `SET key token NX PX ttl_ms` -/
def setNx (r : Redis) (now : Int) (k : LockKey) (ttlSeconds : Rat) (t : Nat) : Bool × Redis :=
  let r := r.touch now k
  match r.data k with
  | some _ => (false, r)
  | none => (true, r.put k (some ⟨t, now + ttlMs ttlSeconds⟩))

/-- The script of `release`. -/
def compareAndDelete (r : Redis) (now : Int) (k : LockKey) (t : Nat) : Bool × Redis :=
  let r := r.touch now k
  if (r.data k).map (·.token) = some t then (true, r.put k none) else (false, r)

end Redis

inductive Command where
  | acquire (k : LockKey) (ttlSeconds : Rat) (t : Nat)
  | release (k : LockKey) (t : Nat)

def Command.key : Command → LockKey
  | .acquire k _ _ => k
  | .release k _ => k

/-- What becomes of a command on its way to the server and back. -/
inductive Fate where
  | answered
  | lost
  | unsent
  deriving DecidableEq

/-- A command, the server's time when it comes, and its fate. -/
structure Asked where
  command : Command
  now : Int
  fate : Fate := .answered

def Redis.exec (r : Redis) (now : Int) : Command → Bool × Redis
  | .acquire k ttl t => r.setNx now k ttl t
  | .release k t => r.compareAndDelete now k t

/-- The server once it has been asked. -/
def Redis.asked (r : Redis) (a : Asked) : Redis :=
  if a.fate = .unsent then r else (r.exec a.now a.command).2

def Redis.askedAll (r : Redis) (as : List Asked) : Redis := as.foldl Redis.asked r

/-- What a call of `RedisLock` comes to: its result, or `RedisUnavailableError`. -/
def Redis.reply (r : Redis) (a : Asked) : Except Exn Bool :=
  if a.fate = .answered then .ok (r.exec a.now a.command).1 else .error .redisUnavailable

/-! ## Exclusion at the server -/

section Exclusion

variable {r : Redis} {k : LockKey} {t : Nat} {now : Int} {e : RedisEntry} {a : Asked}

theorem put_self (r : Redis) (k : LockKey) (x : Option RedisEntry) : (r.put k x).data k = x :=
  Function.update_self ..

theorem put_of_ne {k' : LockKey} (h : k ≠ k') (x : Option RedisEntry) :
    (r.put k' x).data k = r.data k := Function.update_of_ne h ..

theorem touch_of_ne {k' : LockKey} (h : k ≠ k') : (r.touch now k').data k = r.data k := by
  unfold Redis.touch
  split
  · exact put_of_ne h none
  · rfl

theorem touch_live (h : r.data k = some e) (hlive : now < e.expiresAt) :
    (r.touch now k).data k = some e := by
  have hnot : r.expired now k = false := by
    simp only [Redis.expired, h, Option.any_some, decide_eq_false_iff_not, not_le]
    exact hlive
  unfold Redis.touch
  rw [hnot]
  exact h

theorem setNx_of_ne {k' : LockKey} (h : k ≠ k') (ttl : Rat) :
    (r.setNx now k' ttl t).2.data k = r.data k := by
  unfold Redis.setNx
  dsimp only
  split
  · exact touch_of_ne h
  · exact (put_of_ne h _).trans (touch_of_ne h)

theorem compareAndDelete_of_ne {k' : LockKey} (h : k ≠ k') :
    (r.compareAndDelete now k' t).2.data k = r.data k := by
  unfold Redis.compareAndDelete
  dsimp only
  split
  · exact (put_of_ne h none).trans (touch_of_ne h)
  · exact touch_of_ne h

/-- The command gives the key back. -/
def Asked.Releases (k : LockKey) (t : Nat) (a : Asked) : Prop :=
  a.fate ≠ .unsent ∧ a.command = .release k t

/-- A live key stays with its token until that token gives it back. -/
theorem asked_live (h : r.data k = some ⟨t, now⟩) (hlive : a.now < now)
    (hrel : ¬ a.Releases k t) : (r.asked a).data k = some ⟨t, now⟩ := by
  obtain ⟨command, now', fate⟩ := a
  unfold Redis.asked
  split
  · exact h
  · next hsent =>
      cases command with
      | acquire k' ttl t' =>
          show (r.setNx now' k' ttl t').2.data k = _
          by_cases hk : k = k'
          · subst hk
            have htouch := touch_live h hlive
            unfold Redis.setNx
            dsimp only
            rw [htouch]
            exact htouch
          · rw [setNx_of_ne hk, h]
      | release k' t' =>
          show (r.compareAndDelete now' k' t').2.data k = _
          by_cases hk : k = k'
          · subst hk
            have htouch := touch_live h hlive
            have hne : t ≠ t' := fun heq => hrel ⟨hsent, by rw [heq]⟩
            unfold Redis.compareAndDelete
            dsimp only
            rw [htouch, if_neg (by simpa using hne)]
            exact htouch
          · rw [compareAndDelete_of_ne hk, h]

theorem askedAll_live {as : List Asked} (h : r.data k = some ⟨t, now⟩)
    (hlive : ∀ a ∈ as, a.now < now) (hrel : ∀ a ∈ as, ¬ a.Releases k t) :
    (r.askedAll as).data k = some ⟨t, now⟩ := by
  induction as generalizing r with
  | nil => exact h
  | cons a as ih =>
    refine ih (asked_live h (hlive a List.mem_cons_self) (hrel a List.mem_cons_self)) ?_ ?_
    · exact fun b hb => hlive b (List.mem_cons_of_mem a hb)
    · exact fun b hb => hrel b (List.mem_cons_of_mem a hb)

theorem setNx_granted {ttl : Rat} (h : (r.setNx now k ttl t).1 = true) :
    (r.setNx now k ttl t).2.data k = some ⟨t, now + ttlMs ttl⟩ := by
  unfold Redis.setNx at h ⊢
  dsimp only at h ⊢
  split at h
  · cases h
  · exact put_self ..

theorem setNx_live {ttl : Rat} (h : r.data k = some e) (hlive : now < e.expiresAt) :
    (r.setNx now k ttl t).1 = false := by
  unfold Redis.setNx
  dsimp only
  rw [touch_live h hlive]

end Exclusion

/-- Whatever else the server is asked, and whichever replies get lost: a key that has been
granted is granted again only after its time, or after a release with the token it was
granted to. -/
theorem granted_apart (r : Redis) (k : LockKey) (ttl ttl' : Rat) (t t' : Nat) (now now' : Int)
    (between : List Asked) (htime : ∀ a ∈ between, a.now ≤ now')
    (h : (r.setNx now k ttl t).1 = true)
    (h' : (((r.setNx now k ttl t).2.askedAll between).setNx now' k ttl' t').1 = true) :
    now + ttlMs ttl ≤ now' ∨ ∃ a ∈ between, a.Releases k t := by
  by_contra hcon
  obtain ⟨hearly, hkept⟩ := not_or.mp hcon
  have hlive : now' < now + ttlMs ttl := not_le.mp hearly
  have hheld := askedAll_live (setNx_granted h)
    (fun a ha => lt_of_le_of_lt (htime a ha) hlive) fun a ha hrel => hkept ⟨a, ha, hrel⟩
  rw [setNx_live hheld hlive] at h'
  cases h'

/-- The reply to the first request for the key is lost, and a second call gets it when the
30 seconds are over. -/
theorem granted_apart_lost :
    (0 : Int) + ttlMs 30 ≤ 30000 ∨
      ∃ a ∈ [(⟨.release (.session 7) 2, 100, .answered⟩ : Asked)], a.Releases (.session 7) 1 := by
  refine granted_apart {} (.session 7) 30 30 1 2 0 30000 _ ?_ ?_ ?_
  · intro a ha
    obtain rfl := List.mem_singleton.mp ha
    decide
  · decide +kernel
  · decide +kernel

/-! ## The world beside the adapters -/

/-- The world's request; a time to live is a whole number of seconds there. -/
@[reducible] def Command.req : Command → Req
  | .acquire k ttl t => .acquire k ⌊ttl⌋ t
  | .release k t => .release k t

/-- The world's answer is the adapter's; the caller of `release` does not look at it. -/
def Command.Agrees : (c : Command) → Except Exn Bool → c.req.Ans → Prop
  | .acquire _ _ _, x, y => y = x
  | .release _ _, x, y => y = x.map fun _ => ()

def MemoryLock.exec (l : MemoryLock) : Command → Bool × MemoryLock
  | .acquire k _ t => l.acquire k t
  | .release k t => l.release k t

/-- The world answers each command as `MemoryLock` does. -/
def FollowsMemory : List Command → MemoryLock → World → Prop
  | [], _, _ => True
  | c :: cs, l, w =>
      c.Agrees (.ok (l.exec c).1) (handle c.req {} w).1 ∧
        FollowsMemory cs (l.exec c).2 (handle c.req {} w).2

def Asked.env (a : Asked) : Env :=
  if a.fate = .answered then {} else { fault := some .failed }

/-- The key lapses that the server finds expired. -/
def lapsed (r : Redis) (a : Asked) (w : World) : World :=
  if a.fate = .answered ∧ r.expired a.now a.command.key then tick (.expireLock a.command.key) w
  else w

/-- The world answers each command as `RedisLock` does. -/
def FollowsRedis : List Asked → Redis → World → Prop
  | [], _, _ => True
  | a :: as, r, w =>
      a.command.Agrees (r.reply a) (handle a.command.req a.env (lapsed r a w)).1 ∧
        FollowsRedis as (r.asked a) (handle a.command.req a.env (lapsed r a w)).2

/-! ### The lock that all of them are -/

/-- Who holds which key. -/
abbrev Holders : Type := LockKey → Option Nat

def Holders.grant (m : Holders) (k : LockKey) (t : Nat) : Bool × Holders :=
  match m k with
  | some t' => (t' == t, m)
  | none => (true, Function.update m k (some t))

def Holders.giveBack (m : Holders) (k : LockKey) (t : Nat) : Holders :=
  if m k = some t then Function.update m k none else m

def Redis.holders (r : Redis) : Holders := fun k => (r.data k).map (·.token)

section Follows

variable {l : MemoryLock} {r : Redis} {w : World} {m : Holders} {k : LockKey} {t : Nat} {now : Int}

theorem grant_free (h : m k = none) : m.grant k t = (true, Function.update m k (some t)) := by
  unfold Holders.grant
  rw [h]

theorem grant_held {t' : Nat} (h : m k = some t') : m.grant k t = (t' == t, m) := by
  unfold Holders.grant
  rw [h]

theorem setLock_locks (w : World) (k : LockKey) (x : Option Nat) :
    (w.setLock k x).locks = Function.update w.locks k x := by
  funext k'
  rw [Function.update_apply]
  rfl

theorem handle_acquire (w : World) (k : LockKey) (ttl : Int) (t : Nat) :
    (handle (.acquire k ttl t) {} w).1 = .ok (Holders.grant w.locks k t).1 ∧
      (handle (.acquire k ttl t) {} w).2.locks = (Holders.grant w.locks k t).2 := by
  cases hk : w.locks k with
  | none =>
    rw [grant_free hk]
    simp only [handle, hk]
    exact ⟨rfl, setLock_locks ..⟩
  | some t' =>
    rw [grant_held hk]
    simp only [handle, hk]
    exact ⟨rfl, rfl⟩

theorem handle_release (w : World) (k : LockKey) (t : Nat) :
    (handle (.release k t) {} w).1 = .ok () ∧
      (handle (.release k t) {} w).2.locks = Holders.giveBack w.locks k t := by
  refine ⟨rfl, ?_⟩
  show (if w.locks k = some t then w.setLock k none else w).locks = _
  unfold Holders.giveBack
  split
  · exact setLock_locks ..
  · rfl

theorem memory_acquire (l : MemoryLock) (k : LockKey) (t : Nat) :
    (l.acquire k t).1 = (Holders.grant l.locks k t).1 ∧
      (l.acquire k t).2.locks = (Holders.grant l.locks k t).2 := by
  cases hk : l.locks k with
  | none =>
    rw [grant_free hk]
    simp only [MemoryLock.acquire, hk]
    exact ⟨trivial, rfl⟩
  | some t' =>
    rw [grant_held hk]
    simp only [MemoryLock.acquire, hk]
    by_cases ht : t' = t
    · subst ht
      rw [if_neg (not_not.mpr rfl)]
      refine ⟨(beq_self_eq_true t').symm, ?_⟩
      show Function.update l.locks k (some t') = l.locks
      rw [← hk, Function.update_eq_self]
    · rw [if_pos ht]
      exact ⟨(beq_eq_false_iff_ne.mpr ht).symm, rfl⟩

theorem memory_release (l : MemoryLock) (k : LockKey) (t : Nat) :
    (l.release k t).2.locks = Holders.giveBack l.locks k t := by
  unfold MemoryLock.release Holders.giveBack
  by_cases hk : l.locks k = some t
  · rw [if_neg (not_not.mpr hk), if_pos hk]
    rfl
  · rw [if_pos hk, if_neg hk]

theorem holders_put (r : Redis) (k : LockKey) (e : Option RedisEntry) :
    (r.put k e).holders = Function.update r.holders k (e.map (·.token)) := by
  funext k'
  unfold Redis.holders
  by_cases hk : k' = k
  · subst hk
    rw [put_self, Function.update_self]
  · rw [put_of_ne hk, Function.update_of_ne hk]

theorem redis_acquire {ttl : Rat} (hfresh : r.holders k ≠ some t) :
    (r.setNx now k ttl t).1 = (Holders.grant (r.touch now k).holders k t).1 ∧
      (r.setNx now k ttl t).2.holders = (Holders.grant (r.touch now k).holders k t).2 := by
  have htouched : (r.touch now k).holders k ≠ some t := by
    unfold Redis.touch
    split
    · rw [holders_put, Function.update_self]
      exact fun h => by cases h
    · exact hfresh
  unfold Redis.setNx
  dsimp only
  cases hk : (r.touch now k).data k with
  | none =>
    have hfree : (r.touch now k).holders k = none := by rw [Redis.holders, hk]; rfl
    rw [grant_free hfree]
    exact ⟨rfl, holders_put ..⟩
  | some e =>
    have hheld : (r.touch now k).holders k = some e.token := by rw [Redis.holders, hk]; rfl
    have hne : e.token ≠ t := fun heq => htouched (by rw [hheld, heq])
    rw [grant_held hheld]
    exact ⟨(beq_eq_false_iff_ne.mpr hne).symm, rfl⟩

theorem redis_release :
    (r.compareAndDelete now k t).2.holders = Holders.giveBack (r.touch now k).holders k t := by
  unfold Redis.compareAndDelete Holders.giveBack
  dsimp only
  show _ = if ((r.touch now k).data k).map (·.token) = some t then _ else _
  split
  · exact holders_put ..
  · rfl

theorem follows_memory (cs : List Command) (h : w.locks = l.locks) : FollowsMemory cs l w := by
  induction cs generalizing l w with
  | nil => trivial
  | cons c cs ih =>
    cases c with
    | acquire k ttl t =>
      obtain ⟨hans, hlocks⟩ := handle_acquire w k ⌊ttl⌋ t
      obtain ⟨hans', hlocks'⟩ := memory_acquire l k t
      refine ⟨?_, ih ?_⟩
      · exact hans.trans (by rw [h]; exact congrArg Except.ok hans'.symm)
      · exact hlocks.trans (by rw [h]; exact hlocks'.symm)
    | release k t =>
      obtain ⟨hans, hlocks⟩ := handle_release w k t
      refine ⟨hans, ih ?_⟩
      exact hlocks.trans (by rw [h]; exact (memory_release l k t).symm)

theorem lapsed_locks {a : Asked} (h : w.locks = r.holders) (ha : a.fate = .answered) :
    (lapsed r a w).locks = (r.touch a.now a.command.key).holders := by
  unfold lapsed Redis.touch
  by_cases hexp : r.expired a.now a.command.key = true
  · rw [if_pos ⟨ha, hexp⟩, if_pos hexp, holders_put, ← h]
    exact setLock_locks ..
  · rw [if_neg fun hboth => hexp hboth.2, if_neg hexp, h]

/-! ### Tokens -/

/-- The key and the token of a request for a lock. -/
def Command.claim : Command → Option (LockKey × Nat)
  | .acquire k _ t => some (k, t)
  | .release _ _ => none

/-- No request to come has the token of a held key. -/
def Unclaimed (r : Redis) (as : List Asked) : Prop :=
  ∀ k t, r.holders k = some t → (k, t) ∉ as.filterMap (·.command.claim)

theorem touch_holders {k' : LockKey} (h : (r.touch now k').holders k = some t) :
    r.holders k = some t := by
  unfold Redis.touch at h
  split at h
  · rw [holders_put] at h
    by_cases hk : k = k'
    · subst hk
      rw [Function.update_self] at h
      cases h
    · rwa [Function.update_of_ne hk] at h
  · exact h

theorem grant_origin {k' : LockKey} {t' : Nat} (h : (m.grant k' t').2 k = some t) :
    m k = some t ∨ (k = k' ∧ t = t') := by
  cases hk : m k' with
  | none =>
    rw [grant_free hk] at h
    by_cases heq : k = k'
    · subst heq
      have hval : some t' = some t := by simpa using h
      cases hval
      exact .inr ⟨rfl, rfl⟩
    · left
      simpa [heq] using h
  | some t'' =>
    rw [grant_held hk] at h
    exact .inl h

theorem giveBack_origin {k' : LockKey} {t' : Nat} (h : m.giveBack k' t' k = some t) :
    m k = some t := by
  unfold Holders.giveBack at h
  split at h
  · by_cases heq : k = k'
    · subst heq
      simp at h
    · simpa [heq] using h
  · exact h

theorem asked_origin {a : Asked} {as : List Asked} (hun : Unclaimed r (a :: as))
    (h : (r.asked a).holders k = some t) :
    r.holders k = some t ∨ a.command.claim = some (k, t) := by
  obtain ⟨command, now', fate⟩ := a
  unfold Redis.asked at h
  split at h
  · exact .inl h
  · cases command with
    | acquire k' ttl t' =>
      have hfresh : r.holders k' ≠ some t' := fun heq => hun k' t' heq List.mem_cons_self
      have hlocks : (r.setNx now' k' ttl t').2.holders k = some t := h
      rw [(redis_acquire hfresh).2] at hlocks
      obtain hbefore | ⟨rfl, rfl⟩ := grant_origin hlocks
      · exact .inl (touch_holders hbefore)
      · exact .inr rfl
    | release k' t' =>
      have hlocks : (r.compareAndDelete now' k' t').2.holders k = some t := h
      rw [redis_release] at hlocks
      exact .inl (touch_holders (giveBack_origin hlocks))

theorem unclaimed_asked {a : Asked} {as : List Asked} (hun : Unclaimed r (a :: as))
    (hnew : ((a :: as).filterMap (·.command.claim)).Nodup) : Unclaimed (r.asked a) as := by
  intro k t hheld hmem
  obtain hbefore | hclaim := asked_origin hun hheld
  · refine hun k t hbefore ?_
    rw [List.filterMap_cons]
    split
    · exact hmem
    · exact List.mem_cons_of_mem _ hmem
  · rw [List.filterMap_cons, hclaim] at hnew
    exact (List.nodup_cons.mp hnew).1 hmem

theorem nodup_rest {a : Asked} {as : List Asked}
    (hnew : ((a :: as).filterMap (·.command.claim)).Nodup) :
    (as.filterMap (·.command.claim)).Nodup := by
  rw [List.filterMap_cons] at hnew
  split at hnew
  · exact hnew
  · exact (List.nodup_cons.mp hnew).2

/-! ### One command and all of them -/

/-- A command that did not get out leaves both as they were. -/
theorem follows_unsent {a : Asked} (ha : a.fate = .unsent) :
    a.command.Agrees (r.reply a) (handle a.command.req a.env (lapsed r a w)).1 ∧
      (handle a.command.req a.env (lapsed r a w)).2 = w ∧ r.asked a = r := by
  obtain ⟨command, now', fate⟩ := a
  cases ha
  cases command with
  | acquire k' ttl t' =>
    have hhandle : handle (.acquire k' ⌊ttl⌋ t') { fault := some .failed } w
        = (.error .redisUnavailable, w) := by
      cases hk : w.locks k' <;> simp [handle, hk, Env.answer, Fault.exn]
    exact ⟨congrArg Prod.fst hhandle, congrArg Prod.snd hhandle, rfl⟩
  | release k' t' => exact ⟨rfl, rfl, rfl⟩

theorem follows_answered {a : Asked} {as : List Asked} (ha : a.fate = .answered)
    (h : w.locks = r.holders) (hun : Unclaimed r (a :: as)) :
    a.command.Agrees (r.reply a) (handle a.command.req a.env (lapsed r a w)).1 ∧
      (handle a.command.req a.env (lapsed r a w)).2.locks = (r.asked a).holders := by
  have hlapsed := lapsed_locks h ha
  obtain ⟨command, now', fate⟩ := a
  cases ha
  cases command with
  | acquire k' ttl t' =>
    have hfresh : r.holders k' ≠ some t' := fun heq => hun k' t' heq List.mem_cons_self
    obtain ⟨hans, hlocks⟩ := handle_acquire (lapsed r ⟨.acquire k' ttl t', now', .answered⟩ w)
      k' ⌊ttl⌋ t'
    obtain ⟨hans', hlocks'⟩ := redis_acquire hfresh
    rw [hlapsed] at hans hlocks
    exact ⟨hans.trans (congrArg Except.ok hans'.symm), hlocks.trans hlocks'.symm⟩
  | release k' t' =>
    obtain ⟨hans, hlocks⟩ := handle_release (lapsed r ⟨.release k' t', now', .answered⟩ w) k' t'
    rw [hlapsed] at hlocks
    exact ⟨hans, hlocks.trans redis_release.symm⟩

theorem follows_redis (as : List Asked) (h : w.locks = r.holders)
    (hreply : ∀ a ∈ as, a.fate ≠ .lost) (hun : Unclaimed r as)
    (hnew : (as.filterMap (·.command.claim)).Nodup) : FollowsRedis as r w := by
  induction as generalizing r w with
  | nil => trivial
  | cons a as ih =>
    have hrest : ∀ b ∈ as, b.fate ≠ .lost := fun b hb => hreply b (List.mem_cons_of_mem a hb)
    have hun' := unclaimed_asked hun hnew
    cases ha : a.fate with
    | lost => exact absurd ha (hreply a List.mem_cons_self)
    | unsent =>
      obtain ⟨hans, hworld, hserver⟩ := follows_unsent (r := r) (w := w) ha
      refine ⟨hans, ih ?_ hrest hun' (nodup_rest hnew)⟩
      rw [hworld, hserver, h]
    | answered =>
      obtain ⟨hans, hlocks⟩ := follows_answered ha h hun
      exact ⟨hans, ih hlocks hrest hun' (nodup_rest hnew)⟩

end Follows

/-- From a world and adapters without a held key, over the same commands: the world answers as
`MemoryLock` does; and with the keys lapsing that the server finds expired it answers as
`RedisLock` does, when no reply gets lost and each request has a token of its own. -/
theorem locks_follow (as : List Asked) (w : World) (hfree : ∀ k, w.locks k = none) :
    FollowsMemory (as.map (·.command)) {} w ∧
    ((∀ a ∈ as, a.fate ≠ .lost) → (as.filterMap (·.command.claim)).Nodup →
      FollowsRedis as {} w) := by
  have hlocks : w.locks = fun _ => none := funext hfree
  refine ⟨follows_memory _ hlocks, fun hreply hnew => follows_redis as hlocks hreply ?_ hnew⟩
  intro k t hheld
  cases hheld

def twoSessions : List Asked :=
  [⟨.acquire (.session 7) 30 1, 0, .answered⟩, ⟨.acquire (.session 7) 30 2, 100, .answered⟩,
   ⟨.release (.session 7) 1, 200, .unsent⟩, ⟨.acquire (.session 7) 30 3, 30000, .answered⟩]

theorem locks_follow_twoSessions :
    FollowsMemory (twoSessions.map (·.command)) {} {} ∧ FollowsRedis twoSessions {} {} := by
  obtain ⟨hmemory, hredis⟩ := locks_follow twoSessions {} fun _ => rfl
  refine ⟨hmemory, hredis ?_ (by decide)⟩
  intro a ha
  simp only [twoSessions, List.mem_cons, List.not_mem_nil, or_false] at ha
  rcases ha with rfl | rfl | rfl | rfl <;> decide

end BrokerBridge.Locks
