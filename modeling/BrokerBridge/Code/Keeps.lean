import BrokerBridge.Code.Rotation
import BrokerBridge.Code.Steps

/-!
# Stretches that keep to some requests and some sessions

`Keeps N S t` says that `t`, begun with a session in `S`, makes only requests in `N`
and leaves its session in `S`, however it ends. It is weaker than `Steps` where that
asks that an exception leaves nothing pending: the clean-up of a rotation commits
what the body has left.

Most of what the IP services do leaves the assignments in force alone. What such a
stretch asks and writes is housekeeping, and each of these functions is gone through
once, for any `N` and `S` that admit the housekeeping it does: reading, staging
writes, or committing them.
-/

namespace BrokerBridge

open Conc

def Keeps {α : Type} (N : Req → Prop) (S : Session → Prop) (t : Coro α) : Prop :=
  ∀ s : Session, S s → Task.wp (only N) t (fun _ s' => S s') (fun _ s' => S s') s

section Rules

variable {N : Req → Prop} {S : Session → Prop} {α β : Type}

theorem Keeps.pure (x : α) : Keeps N S (pure x : Coro α) := fun _ h => h

theorem Keeps.raise (e : Exn) : Keeps N S (Task.raise e : Coro α) := fun _ h => h

theorem Keeps.bind {t : Coro α} {f : α → Coro β} (ht : Keeps N S t)
    (hf : ∀ x, Keeps N S (f x)) : Keeps N S (t >>= f) := by
  intro s h
  rw [Task.wp_bind]
  exact Task.wp_only_mono (fun _ => id) (ht s h) (fun x s' h' => hf x s' h') fun _ _ => id

theorem Keeps.catching {t : Coro α} {handler : Exn → Coro α} (ht : Keeps N S t)
    (hh : ∀ e, Keeps N S (handler e)) : Keeps N S (Task.catching t handler) := by
  intro s h
  rw [Task.wp_catching]
  exact Task.wp_only_mono (fun _ => id) (ht s h) (fun _ _ => id) fun e s' h' => hh e s' h'

theorem Keeps.finally' {t : Coro α} {last : Coro Unit} (ht : Keeps N S t)
    (hl : Keeps N S last) : Keeps N S (Task.finally' t last) := by
  intro s h
  rw [Task.wp_finally']
  exact Task.wp_only_mono (fun _ => id) (ht s h) (fun _ s' h' => hl s' h')
    fun _ s' h' => hl s' h'

theorem Keeps.ite {c : Prop} [Decidable c] {t u : Coro α} (ht : Keeps N S t)
    (hu : Keeps N S u) : Keeps N S (if c then t else u) := by
  split
  · exact ht
  · exact hu

theorem Keeps.await {r : Req} (h : N r) : Keeps N S (await r) := fun _ hs => ⟨h, fun _ => hs⟩

theorem Keeps.ofAnswer (x : Except Exn α) : Keeps N S (ofAnswer x) := by
  cases x
  · exact Keeps.raise _
  · exact Keeps.pure _

theorem Keeps.execute {q : Query} (hb : ∀ s, S s → S { s with broken := true })
    (hq : ∀ s, S s → ¬ s.broken = true → N (.query s.pending q)) : Keeps N S (execute q) := by
  intro s h
  rw [wp_execute]
  split
  · exact h
  · next hbroken =>
      refine ⟨hq s h hbroken, fun x => ?_⟩
      cases x
      · exact hb s h
      · exact h

theorem Keeps.commit (hb : ∀ s, S s → S { s with broken := true })
    (hc : ∀ s, S s → ¬ s.broken = true → N (.commit s.pending))
    (hdone : ∀ s, S s → S { s with pending := [] }) : Keeps N S commit := by
  intro s h
  rw [wp_commit]
  split
  · exact h
  · next hbroken =>
      refine ⟨hc s h hbroken, fun x => ?_⟩
      cases x
      · exact hb s h
      · exact hdone s h

theorem Keeps.flush (hb : ∀ s, S s → S { s with broken := true })
    (hc : ∀ s, S s → ¬ s.broken = true → N (.flush s.pending)) : Keeps N S flush := by
  intro s h
  rw [wp_flush]
  split
  · exact h
  · next hbroken =>
      refine ⟨hc s h hbroken, fun x => ?_⟩
      cases x
      · exact hb s h
      · exact h

theorem Keeps.rollback (hb : ∀ s, S s → S { s with broken := true }) (hr : N .rollback)
    (hnew : S {}) : Keeps N S rollback := by
  intro s h
  rw [wp_rollback]
  refine ⟨hr, fun x => ?_⟩
  cases x
  · exact hb s h
  · exact hnew

theorem Keeps.stage {w : Write}
    (hw : ∀ s, S s → S { s with pending := s.pending ++ [w] }) : Keeps N S (stage w) :=
  fun s h => hw s h

theorem Keeps.assign {F : Type} [Stored α F] [DecidableEq α] {r : α} {f : F}
    (hw : ∀ s, S s → S { s with pending := s.pending ++ [Stored.write r f] }) :
    Keeps N S (assign r f) := fun s h => wp_assign_of h (hw s h)

/-- After setting an attribute, with the object that has it. -/
theorem Keeps.assignThen {F : Type} [Stored α F] [DecidableEq α] {r : α} {f : F} {k : α → Coro β}
    (hw : ∀ s, S s → S { s with pending := s.pending ++ [Stored.write r f] })
    (hk : Keeps N S (k (Stored.set f r))) : Keeps N S (BrokerBridge.assign r f >>= k) := by
  intro s h
  rw [Task.wp_bind]
  exact wp_assign_of (hk s h) (hk _ (hw s h))

theorem Keeps.refreshed (x : Option α) : Keeps N S (refreshed x) := by
  cases x
  · exact Keeps.raise _
  · exact Keeps.pure _

theorem Keeps.scalarOneOrNone (xs : List α) : Keeps N S (scalarOneOrNone xs) := by
  match xs with
  | [] => exact Keeps.pure _
  | [_] => exact Keeps.pure _
  | _ :: _ :: _ => exact Keeps.raise _

theorem Keeps.infra {c : InfraCall} (h : N (.infra c)) : Keeps N S (infra c) :=
  Keeps.bind (Keeps.await h) fun _ => Keeps.ofAnswer _

theorem Keeps.acquireLock {k : LockKey} {ttl : Int} {t : Nat} {op : String}
    (h : N (.acquire k ttl t)) :
    Keeps N S (acquireLock k ttl t op) := by
  refine Keeps.bind (Keeps.await h) fun x => ?_
  cases x with
  | ok x => exact Keeps.pure _
  | error e => cases e <;> exact Keeps.raise _

theorem Keeps.releaseLock {k : LockKey} {t : Nat} (h : N (.release k t)) :
    Keeps N S (releaseLock k t) := by
  refine Keeps.bind (Keeps.await h) fun x => ?_
  cases x with
  | ok x => exact Keeps.pure _
  | error e => cases e <;> first | exact Keeps.pure _ | exact Keeps.raise _

end Rules

/-! ## Housekeeping -/

/-- The reads of the IP services, but for those that look for an assignment of a
broker, or for one by its id. -/
def Query.keepsHouse : Query → Prop
  | activeAssignment _ | activeAssignmentsOfBroker _ | assignment _ => False
  | _ => True

/-- The requests of housekeeping that reach no table, and no lock but an IP's. -/
def Req.keepsHouse : Req → Prop
  | .acquire k _ _ | .release k _ => ∃ x, k = .ip x
  | .rollback | .newId | .now | .infra _ | .fetchWhitelist _ | .drainPolls _ | .sleep => True
  | _ => False

/-- The writes of housekeeping: an assignment may end, and no other change of one. -/
def Write.keepsHouse : Write → Prop
  | .addIp _ | .setIp _ _ | .setHistory _ _ => True
  | .setAssignment _ (.status x) => x = .released
  | .setAssignment _ (.releasedAt _) => True
  | .enqueue p => match p with
      | .ipAllocated .. | .ipReleased .. => True
      | _ => False
  | _ => False

/-- Housekeeping may read. -/
structure Reading (N : Req → Prop) (S : Session → Prop) : Prop where
  request : ∀ {r : Req}, r.keepsHouse → N r
  query : ∀ {s q}, S s → ¬ s.broken = true → Query.keepsHouse q → N (.query s.pending q)
  broken : ∀ {s}, S s → S { s with broken := true }

/-- It may write, too. -/
structure Staging (N : Req → Prop) (S : Session → Prop) : Prop extends Reading N S where
  write : ∀ {s w}, S s → Write.keepsHouse w → S { s with pending := s.pending ++ [w] }

/-- And it may commit. -/
structure Housekeeping (N : Req → Prop) (S : Session → Prop) : Prop extends Staging N S where
  commit : ∀ {s}, S s → ¬ s.broken = true → N (.commit s.pending)
  flush : ∀ {s}, S s → ¬ s.broken = true → N (.flush s.pending)
  settled : ∀ {s}, S s → S { s with pending := [] }
  new : S {}

/-- Housekeeping on sessions in which only some writes are pending. -/
theorem housekeeping_staged {N : Req → Prop} {U : Write → Prop}
    (request : ∀ {r : Req}, r.keepsHouse → N r)
    (query : ∀ {ws q}, (∀ w ∈ ws, U w) → Query.keepsHouse q → N (.query ws q))
    (commit : ∀ {ws}, (∀ w ∈ ws, U w) → N (.commit ws))
    (flush : ∀ {ws}, (∀ w ∈ ws, U w) → N (.flush ws))
    (write : ∀ {w : Write}, w.keepsHouse → U w) : Housekeeping N (·.Staged U) where
  request := request
  query hs hb hq := query (hs.resolve_left hb) hq
  broken _ := .inl rfl
  write hs hw := hs.stage (write hw)
  commit hs hb := commit (hs.resolve_left hb)
  flush hs hb := flush (hs.resolve_left hb)
  settled _ := .inr (List.forall_mem_nil _)
  new := .inr (List.forall_mem_nil _)

/-! ## Housekeeping without the locks -/

/-- The requests of housekeeping that reach no table and no lock. -/
def Req.lockless : Req → Prop
  | .rollback | .newId | .now | .infra _ | .fetchWhitelist _ | .drainPolls _ | .sleep => True
  | _ => False

/-- Reading, but for the locks. -/
structure Reads (N : Req → Prop) (S : Session → Prop) : Prop where
  request : ∀ {r : Req}, r.lockless → N r
  query : ∀ {s q}, S s → ¬ s.broken = true → Query.keepsHouse q → N (.query s.pending q)
  broken : ∀ {s}, S s → S { s with broken := true }

structure Stages (N : Req → Prop) (S : Session → Prop) : Prop extends Reads N S where
  write : ∀ {s w}, S s → Write.keepsHouse w → S { s with pending := s.pending ++ [w] }

structure Commits (N : Req → Prop) (S : Session → Prop) : Prop extends Stages N S where
  commit : ∀ {s}, S s → ¬ s.broken = true → N (.commit s.pending)
  flush : ∀ {s}, S s → ¬ s.broken = true → N (.flush s.pending)
  settled : ∀ {s}, S s → S { s with pending := [] }
  new : S {}

section House

variable {N : Req → Prop} {S : Session → Prop}

theorem keepsHouse_of_lockless {r : Req} (h : r.lockless) : r.keepsHouse := by
  cases r <;> trivial

theorem Reading.reads (h : Reading N S) : Reads N S :=
  ⟨fun hr => h.request (keepsHouse_of_lockless hr), h.query, h.broken⟩

theorem Staging.stages (h : Staging N S) : Stages N S := ⟨h.reads, h.write⟩

theorem Housekeeping.able (h : Housekeeping N S) : Commits N S :=
  ⟨h.stages, h.commit, h.flush, h.settled, h.new⟩

theorem Reads.execute (h : Reads N S) {q : Query} (hq : q.keepsHouse) :
    Keeps N S (execute q) :=
  Keeps.execute (fun _ => h.broken) fun _ hs hb => h.query hs hb hq

theorem Stages.stage (h : Stages N S) {w : Write} (hw : w.keepsHouse) : Keeps N S (stage w) :=
  Keeps.stage fun _ hs => h.write hs hw

theorem Stages.assign (h : Stages N S) {α F : Type} [Stored α F] [DecidableEq α] {r : α} {f : F}
    (hw : (Stored.write r f).keepsHouse) : Keeps N S (assign r f) :=
  Keeps.assign fun _ hs => h.write hs hw

theorem Commits.commits (h : Commits N S) : Keeps N S BrokerBridge.commit :=
  Keeps.commit (fun _ => h.broken) (fun _ => h.commit) fun _ => h.settled

theorem Commits.flushes (h : Commits N S) : Keeps N S BrokerBridge.flush :=
  Keeps.flush (fun _ => h.broken) fun _ => h.flush

theorem Commits.rollbacks (h : Commits N S) : Keeps N S rollback :=
  Keeps.rollback (fun _ => h.broken) (h.request trivial) h.new

theorem settingInt_keeps (x : Setting Int) : Keeps N S (settingInt x) := by
  cases x
  · exact Keeps.pure _
  · exact Keeps.raise _

theorem cooldownHours_keeps (h : Reads N S) (s : Settings) : Keeps N S (cooldownHours s) := by
  refine Keeps.bind (h.execute trivial) fun config => ?_
  split
  · exact settingInt_keeps _
  · exact Keeps.pure _

theorem tryAllocate_keeps (h : Commits N S) (region : Region) : Keeps N S (tryAllocate region) := by
  refine Keeps.bind (Keeps.catching (Keeps.infra (h.request trivial)) fun e => ?_) fun x => ?_
  · cases e <;> exact Keeps.raise _
  refine Keeps.bind (Keeps.await (h.request trivial)) fun id => Keeps.catching ?_ fun e => ?_
  · refine Keeps.bind (h.stage trivial) fun _ => ?_
    refine Keeps.bind (h.flushes) fun _ => ?_
    refine Keeps.bind (h.stage trivial) fun _ => Keeps.bind h.commits fun _ => ?_
    exact Keeps.bind (h.execute trivial) fun row => Keeps.bind (Keeps.refreshed row) fun _ =>
      Keeps.pure _
  · cases e with
    | integrity => exact Keeps.bind h.rollbacks fun _ => Keeps.pure _
    | _ => exact Keeps.raise _

theorem allocateIp_keeps (h : Commits N S) (region : Region) : Keeps N S (allocateIp region) := by
  refine Keeps.bind (h.execute trivial) fun _ => ?_
  generalize 8 = n
  induction n with
  | zero => exact Keeps.raise _
  | succ n ih =>
      refine Keeps.bind (tryAllocate_keeps h region) fun row => ?_
      cases row
      · exact ih
      · exact Keeps.pure _

theorem getIp_keeps (h : Reads N S) (x : IpId) : Keeps N S (getIp x) := by
  refine Keeps.bind (h.execute trivial) fun ip => ?_
  cases ip
  · exact Keeps.raise _
  · exact Keeps.pure _

theorem assertReuseAllowed_keeps (h : Reads N S) (b : BrokerId) (x : IpId) :
    Keeps N S (assertReuseAllowed b x) :=
  Keeps.bind (Keeps.await (h.request trivial)) fun _ => Keeps.bind (h.execute trivial) fun _ =>
    Keeps.ite (Keeps.raise _) (Keeps.pure _)

theorem underIpLock_keeps (h : Reading N S) {α : Type} {x : IpId} {body : Coro α}
    (hbody : Keeps N S body) :
    Keeps N S (underIpLock x body) := by
  refine Keeps.bind (Keeps.await (h.request trivial)) fun token => ?_
  refine Keeps.bind (Keeps.acquireLock (h.request ⟨x, rfl⟩)) fun got =>
    Keeps.ite ?_ (Keeps.raise _)
  exact Keeps.finally' hbody (Keeps.releaseLock (h.request ⟨x, rfl⟩))

theorem attachLocked_keeps (h : Commits N S) (x : IpId) (i : InstanceId) :
    Keeps N S (attachLocked x i) := by
  refine Keeps.bind (getIp_keeps h.toReads x) fun ip =>
    Keeps.bind (h.execute trivial) fun inst => ?_
  split
  · exact Keeps.raise _
  refine Keeps.ite (Keeps.raise _) (Keeps.bind (h.execute trivial) fun _ => ?_)
  refine Keeps.bind (Keeps.infra (h.request trivial)) fun _ => ?_
  refine Keeps.bind (h.assign trivial) fun ip => ?_
  refine Keeps.bind (h.assign trivial) fun _ => Keeps.bind h.commits fun _ => ?_
  exact Keeps.bind (h.execute trivial) fun row => Keeps.refreshed row

theorem attachIp_keeps (h : Housekeeping N S) (x : IpId) (i : InstanceId) :
    Keeps N S (attachIp x i) :=
  underIpLock_keeps h.toReading (attachLocked_keeps h.able x i)

theorem detachLocked_keeps (h : Commits N S) (x : IpId) : Keeps N S (detachLocked x) := by
  refine Keeps.bind (getIp_keeps h.toReads x) fun ip => Keeps.bind (h.execute trivial) fun _ => ?_
  refine Keeps.bind (Keeps.infra (h.request trivial)) fun _ => ?_
  refine Keeps.bind (h.assign trivial) fun ip => ?_
  refine Keeps.bind (h.assign trivial) fun _ => Keeps.bind h.commits fun _ => ?_
  exact Keeps.bind (h.execute trivial) fun row => Keeps.refreshed row

theorem detachIp_keeps (h : Housekeeping N S) (x : IpId) : Keeps N S (detachIp x) :=
  underIpLock_keeps h.toReading (detachLocked_keeps h.able x)

theorem closeHistory_keeps (h : Stages N S) (now eligible : Instant)
    (hist : List BrokerIpUsageHistory) :
    Keeps N S (closeHistory now eligible hist) := by
  induction hist with
  | nil => exact Keeps.pure _
  | cons x xs ih =>
      exact Keeps.bind (h.assign trivial) fun _ =>
        Keeps.bind (h.assign trivial) fun _ => ih

theorem releaseAssignments_keeps (h : Stages N S) (now eligible : Instant)
    (as : List IpAssignment) :
    Keeps N S (releaseAssignments now eligible as) := by
  induction as with
  | nil => exact Keeps.pure _
  | cons a as ih =>
      refine Keeps.bind ?_ fun _ => ih
      refine Keeps.bind (h.assign rfl) fun a => ?_
      refine Keeps.bind (h.assign trivial) fun _ => ?_
      exact Keeps.bind (h.execute trivial) fun hist => closeHistory_keeps h _ _ hist

theorem releaseLocked_keeps (h : Commits N S) (s : Settings) (x : IpId) :
    Keeps N S (releaseLocked s x) := by
  refine Keeps.bind (getIp_keeps h.toReads x) fun ip => Keeps.ite (Keeps.raise _) ?_
  refine Keeps.bind (cooldownHours_keeps h.toReads s) fun cooldown => ?_
  refine Keeps.bind (Keeps.await (h.request trivial)) fun now => ?_
  refine Keeps.bind (h.execute trivial) fun active => ?_
  refine Keeps.bind (releaseAssignments_keeps h.toStages _ _ active) fun _ => ?_
  refine Keeps.bind (h.execute trivial) fun _ => ?_
  refine Keeps.bind (Keeps.infra (h.request trivial)) fun _ => ?_
  refine Keeps.bind (h.assign trivial) fun ip => ?_
  refine Keeps.bind (h.stage trivial) fun _ => Keeps.bind h.commits fun _ => ?_
  exact Keeps.bind (h.execute trivial) fun row => Keeps.refreshed row

theorem releaseIp_keeps (h : Housekeeping N S) (s : Settings) (x : IpId) :
    Keeps N S (releaseIp s x) :=
  underIpLock_keeps h.toReading (releaseLocked_keeps h.able s x)

theorem succeeds_keeps {t : Coro Unit} (ht : Keeps N S t) : Keeps N S (succeeds t) :=
  Keeps.catching (Keeps.bind ht fun _ => Keeps.pure _) fun _ =>
    Keeps.ite (Keeps.pure _) (Keeps.raise _)

theorem whitelistSync_keeps (h : Commits N S) (b : BrokerId) : Keeps N S (whitelistSync b) := by
  refine Keeps.bind (h.execute trivial) fun broker => ?_
  split
  · exact Keeps.raise _
  refine Keeps.bind (h.execute trivial) fun _ => ?_
  refine Keeps.bind (Keeps.await (h.request trivial)) fun x => ?_
  refine Keeps.bind (Keeps.ofAnswer x) fun _ => Keeps.bind (h.execute trivial) fun _ => ?_
  exact Keeps.bind h.commits fun _ => h.execute trivial

theorem cleanupNewIp_keeps (h : Stages N S) (ip : StaticIp) : Keeps N S (cleanupNewIp ip) := by
  refine Keeps.bind (h.execute trivial) fun _ => Keeps.bind (succeeds_keeps ?_) fun _ =>
    Keeps.bind (h.assign trivial) fun _ => Keeps.pure _
  refine Keeps.bind (Keeps.ite ?_ (Keeps.pure _)) fun _ => Keeps.infra (h.request trivial)
  exact Keeps.bind (Keeps.infra (h.request trivial)) fun _ =>
    Keeps.bind (h.assign trivial) fun _ => Keeps.pure _

theorem finalCleanup_keeps (h : Commits N S) (x : IpId) : Keeps N S (finalCleanup x) := by
  refine Keeps.bind (succeeds_keeps ?_) fun _ => Keeps.pure _
  refine Keeps.bind (h.execute trivial) fun rows => ?_
  refine Keeps.bind (Keeps.scalarOneOrNone rows) fun active => Keeps.ite ?_ (Keeps.pure _)
  refine Keeps.bind (h.execute trivial) fun row => ?_
  split
  · exact Keeps.ite (Keeps.bind (cleanupNewIp_keeps h.toStages _) fun _ => h.commits) (Keeps.pure _)
  · exact Keeps.pure _

theorem attachToOld_keeps (h : Housekeeping N S) (ip : StaticIp) (i : Option InstanceId) :
    Keeps N S (attachToOld ip i) := by
  cases i with
  | none => exact Keeps.pure _
  | some i =>
      refine Keeps.bind (h.reads.execute trivial) fun inst => ?_
      split
      · exact Keeps.ite (attachIp_keeps h _ _) (Keeps.pure _)
      · exact Keeps.pure _

theorem drainLoop_keeps (h : Reads N S) (x : IpId) (polls : Nat) :
    Keeps N S (drainLoop x polls) := by
  induction polls with
  | zero => exact Keeps.bind (h.execute trivial) fun _ => Keeps.pure _
  | succ n ih =>
      refine Keeps.bind (h.execute trivial) fun _ => Keeps.ite (Keeps.pure _) ?_
      exact Keeps.bind (Keeps.await (h.request trivial)) fun y =>
        Keeps.bind (Keeps.ofAnswer y) fun _ => ih

theorem detachOld_keeps (h : Stages N S) (ip : StaticIp) : Keeps N S (detachOld ip) := by
  refine Keeps.ite (Keeps.bind (h.execute trivial) fun _ => ?_) (Keeps.pure _)
  exact Keeps.bind (succeeds_keeps (Keeps.infra (h.request trivial))) fun _ =>
    h.assign trivial

end House

end BrokerBridge
