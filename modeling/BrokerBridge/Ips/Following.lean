import BrokerBridge.Ips.Tenure

/-!
# The IP calls follow their protocol

`assign` and `rotate`, step by step. The commits that matter are the last of `assign`,
which installs the new row, the cutover, which ends the old one in the same commit,
and the abort, which puts the old one back. Between them, and in the clean-up that an
exception leads to, nothing is pending that would activate an assignment.
-/

namespace BrokerBridge

open Conc

/-- The lock is held, or the phase is lost. -/
def Tenure.Under (b : BrokerId) (t : Nat) (ph : Tenure) : Prop :=
  ph = .lost ∨ ph.lock = some (b, t)

section Follows

variable {b : BrokerId} {t : Nat} {s : Session} {ph : Tenure}

/-- Nothing is pending in a session that only reads. -/
theorem clean_broken {s : Session} (_ : s.Clean) : ({ s with broken := true } : Session).Clean :=
  Session.clean_broken

theorem reading_clean : Reading Still Session.Clean := still_reading fun _ => clean_broken

theorem wp_unlock (h : ph.Under b t) {Q : Unit → Session → Tenure → Prop}
    {E : Exn → Session → Tenure → Prop} (hQ : ∀ ph, Q () s ph) (hE : ∀ e s ph, E e s ph)
    (hlost : ∀ s, Q () s .lost) :
    Task.wp tenure.step (releaseLock (.brokerIp b) t) Q E s ph := by
  rcases h with rfl | h
  · exact wp_lost (fun _ s => hlost s) fun e s => hE e s _
  · exact wp_giveLock h (hQ _) fun e => hE e _ _

/-- An assignment read under the lock, by its id. -/
theorem wp_reread {a : AssignmentId} {α : Type} {f : Option IpAssignment → Coro α}
    (hph : ph.lock = some (b, t))
    (hf : ∀ y, Task.wp tenure.step (f y) (fun _ _ ph => ph.Under b t) (fun _ _ ph => ph.Under b t)
      s ph) :
    Task.wp tenure.step (execute (.assignment a) >>= f)
      (fun _ _ ph => ph.Under b t) (fun _ _ ph => ph.Under b t) s ph := by
  have hlocked : ph.lock.isSome := by rw [hph]; rfl
  rw [Task.wp_bind]
  refine wp_assignment hlocked (fun y => ?_) (fun y _ => hf y) (fun _ => .inr hph) fun _ => .inr hph
  exact wp_lost (fun _ _ => .inl rfl) fun _ _ => .inl rfl

theorem wp_refreshed {α : Type} {y : Option α} {Q : α → Session → Tenure → Prop}
    {E : Exn → Session → Tenure → Prop} (hQ : ∀ r, y = some r → Q r s ph) (hE : ∀ e, E e s ph) :
    Task.wp tenure.step (refreshed y) Q E s ph := by
  cases y with
  | none => exact hE _
  | some r => exact hQ r rfl

theorem lock_of_commit {ws : List Write} {x : Except Exn Unit} (h : ph.lock = some (b, t)) :
    (tenure.advance ph (.commit ws) x).lock = some (b, t) := by
  cases ph with
  | clear b' t' =>
      cases x with
      | error e => exact h
      | ok _ =>
          show (if Quiet ws then Tenure.clear b' t' else Tenure.held b' t').lock = some (b, t)
          split <;> exact h
  | found b' t' a =>
      cases x with
      | error e => exact h
      | ok _ =>
          show (if Quiet ws then Tenure.found b' t' a else Tenure.held b' t').lock = some (b, t)
          split <;> exact h
  | held b' t' => exact h
  | out | drawn | refused | lost => cases h

theorem still_newId (x : Nat) (h : ph.lock.isSome) : tenure.advance ph .newId x = ph := by
  cases ph with
  | out | drawn | refused | lost => cases h
  | _ => rfl

theorem wp_addAssignment {clientId : ClientId} {x : IpId} {now : Instant}
    {Q : AssignmentId → Session → Tenure → Prop} {E : Exn → Session → Tenure → Prop}
    (hph : ph.lock.isSome)
    (hQ : ∀ i j, Q i
      { s with pending := s.pending ++
        [.addAssignment { id := i, clientId := clientId, brokerAccountId := b, staticIpId := x }] ++
        [.addHistory { id := j, brokerAccountId := b, staticIpId := x, usedAt := now }] } ph) :
    Task.wp tenure.step (addAssignment clientId b x now) Q E s ph := by
  unfold addAssignment
  rw [Task.wp_bind, wp_newId]
  refine ⟨⟨not_refused_of_lock hph, trivial⟩, fun i => ?_⟩
  beta_reduce
  rw [still_newId i hph, Task.wp_bind, wp_stage, Task.wp_bind, wp_newId]
  refine ⟨⟨not_refused_of_lock hph, trivial⟩, fun j => ?_⟩
  beta_reduce
  rw [still_newId j hph, Task.wp_bind, wp_stage]
  exact hQ i j

/-- The commit of a new assignment: nothing else in it activates one. -/
theorem installs_of_append {r : IpAssignment} (hr : r.brokerAccountId = b) {l l' : List Write}
    (hl : Quiet l) (hl' : Quiet l') : Installs b (l ++ [.addAssignment r] ++ l') :=
  ⟨l, r, l', by simp, hl, hl', hr⟩

/-- `assign`, once it has found no active assignment. -/
theorem assignFound_follows {x : IpId} {ip : StaticIp} {clientId : ClientId} (hs : s.pending = []) :
    Task.wp tenure.step
      (do
        let id ← addAssignment clientId b x (← now)
        reviveIp ip
        commit
        refreshed (← execute (.assignment id)))
      (fun _ _ ph => ph.Under b t) (fun _ _ ph => ph.Under b t) s (.clear b t) := by
  rw [Task.wp_bind, wp_now]
  refine ⟨⟨nofun, trivial⟩, fun time => ?_⟩
  beta_reduce
  rw [Task.wp_bind]
  refine wp_addAssignment rfl fun i j => ?_
  -- What is pending at the commit: the two rows, and the status of a revived IP.
  have hcommit : ∀ l : List Write, Quiet l →
      Task.wp tenure.step (do commit; refreshed (← execute (.assignment i)))
        (fun _ _ ph => ph.Under b t) (fun _ _ ph => ph.Under b t)
        { s with pending := s.pending ++
          [.addAssignment
            { id := i, clientId := clientId, brokerAccountId := b, staticIpId := x }] ++
          [.addHistory { id := j, brokerAccountId := b, staticIpId := x, usedAt := time }] ++ l }
        (.clear b t) := by
    intro l hl
    rw [Task.wp_bind, wp_commit]
    split
    · exact .inr rfl
    refine ⟨⟨nofun, .inr ?_⟩, fun y => ?_⟩
    · rw [hs, List.append_assoc]
      refine installs_of_append rfl (List.forall_mem_nil _) fun w hw => ?_
      rcases List.mem_append.mp hw with hw | hw
      · cases List.mem_singleton.mp hw
        rfl
      · exact hl w hw
    · cases y with
      | error e => exact .inr rfl
      | ok _ =>
          have hlock : ∀ ws, (tenure.advance (.clear b t) (.commit ws) (.ok ())).lock =
              some (b, t) := fun ws => lock_of_commit rfl
          exact wp_reread (hlock _) fun row =>
            wp_refreshed (fun _ _ => .inr (hlock _)) fun _ => .inr (hlock _)
  unfold reviveIp
  rw [Task.wp_bind]
  split
  · rw [Task.wp_bind]
    refine wp_assignTo ?_ ?_
    · have hnone := hcommit [] (List.forall_mem_nil _)
      rw [List.append_nil] at hnone
      exact hnone
    · exact hcommit [.setIp ip.id (.status .allocated)] fun w hw => by
        cases List.mem_singleton.mp hw
        rfl
  · have hnone := hcommit [] (List.forall_mem_nil _)
    rw [List.append_nil] at hnone
    exact hnone

theorem assignLocked_follows (x : IpId) (clientId : Option ClientId) (hs : s.Clean) :
    Task.wp tenure.step (assignLocked x b clientId) (fun _ _ ph => ph.Under b t)
      (fun _ _ ph => ph.Under b t) s (.held b t) := by
  have hheld : (Tenure.held b t).Under b t := .inr rfl
  unfold assignLocked
  rw [Task.wp_bind]
  refine wp_still (getIp_keeps reading_clean.reads x) rfl hs (fun ip s hs => ?_) fun _ _ _ => hheld
  rw [Task.wp_bind]
  have hcheck : Keeps Still Session.Clean (checkAssignable ip) :=
    Keeps.ite (Keeps.raise _) (Keeps.ite (Keeps.raise _) (Keeps.pure _))
  refine wp_still hcheck rfl hs (fun _ s hs => ?_) fun _ _ _ => hheld
  rw [Task.wp_bind]
  refine wp_still (reading_clean.reads.execute trivial) rfl hs (fun broker s hs =>
    ?_) fun _ _ _ => hheld
  cases broker with
  | none => exact hheld
  | some broker =>
      rw [Task.wp_bind]
      refine wp_still (assertReuseAllowed_keeps reading_clean.reads b x) rfl hs (fun _ s hs => ?_)
        fun _ _ _ => hheld
      rw [Task.wp_bind, wp_execute]
      split
      · exact hheld
      next hb =>
      have hpending : s.pending = [] := hs.pending hb
      refine ⟨⟨nofun, trivial⟩, fun y => ?_⟩
      rw [hpending]
      match y with
      | .error e => exact hheld
      | .ok [] =>
          have hclear : tenure.advance (.held b t) (.query [] (.activeAssignmentsOfBroker b))
              (.ok []) = .clear b t := if_pos rfl
          rw [hclear]
          exact assignFound_follows hpending
      | .ok [_] => exact hheld
      | .ok (_ :: _ :: _) => exact hheld

theorem assignIp_follows (x : IpId) (clientId : Option ClientId) :
    Task.wp tenure.step (assignIp x b clientId) (fun _ _ _ => True) (fun _ _ _ => True) {}
      .out := by
  unfold assignIp
  rw [Task.wp_bind, wp_newId]
  refine ⟨⟨nofun, trivial⟩, fun token => ?_⟩
  beta_reduce
  rw [Task.wp_bind]
  refine wp_takeLock (by decide) ?_ trivial fun _ => trivial
  have hipLock : Keeps Still Session.Clean (acquireLock (.ip x) 30 token "IP lock") :=
    Keeps.acquireLock (still_ipLock x 30 token).1
  have hrelease : ∀ ph s, ph.Under b token → Task.wp tenure.step
      (do
        releaseLock (.ip x) token
        releaseLock (.brokerIp b) token)
      (fun _ _ _ => True) (fun _ _ _ => True) s ph := by
    intro ph s hph
    rcases hph with rfl | hph
    · exact wp_lost (fun _ _ => trivial) fun _ _ => trivial
    have hlocked : ph.lock.isSome := by rw [hph]; rfl
    have hip : Keeps Still (fun _ => True) (releaseLock (.ip x) token) :=
      Keeps.releaseLock (still_ipLock x 30 token).2
    rw [Task.wp_bind]
    refine wp_still hip hlocked trivial (fun _ s _ => ?_) fun _ _ _ => trivial
    exact wp_giveLock hph trivial fun _ => trivial
  rw [if_pos rfl, Task.wp_bind]
  unfold withIpLock
  rw [Task.wp_bind]
  refine wp_still hipLock rfl Session.clean_new (fun got s hs => ?_) fun _ _ _ => trivial
  cases got with
  | true =>
      rw [if_pos rfl, Task.wp_pure, Task.wp_finally']
      exact Task.wp_step_mono (assignLocked_follows x clientId hs)
        (fun _ s ph hph => hrelease ph s hph) fun _ s ph hph => hrelease ph s hph
  | false =>
      show Task.wp tenure.step (releaseLock (.brokerIp b) token >>= _) _ _ s (.held b token)
      rw [Task.wp_bind]
      exact wp_giveLock rfl trivial fun _ => trivial

/-! ### Rotation -/

variable {a : AssignmentId}

/-- Where an exception finds the body of `rotate`: under the lock, with nothing pending
that would activate an assignment. -/
def Loose (b : BrokerId) (t : Nat) (s : Session) (ph : Tenure) : Prop :=
  ph = .lost ∨ s.Staged Idles ∧ ph.lock = some (b, t)

/-- The rotation knows the assignment it found. -/
structure Rotating (b : BrokerId) (t : Nat) (a : AssignmentId) (r : Rotation) (s : Session)
    (ph : Tenure) : Prop where
  staged : s.Staged Idles
  broker : r.broker = b
  old : r.oldAssignment.id = a
  phase : ph = .found b t a

theorem loose_found (h : s.Staged Idles) : Loose b t s (.found b t a) := .inr ⟨h, rfl⟩

theorem idles_draining (a : IpAssignment) : Idles (Stored.write a (.status .draining)) := rfl

theorem beginRotation_follows (force : Bool) (hs : s.Clean) :
    Task.wp tenure.step (beginRotation b force)
      (fun r s ph => ∃ a, Rotating b t a r s ph) (fun _ _ ph => ph.Under b t) s (.held b t) := by
  have hheld : (Tenure.held b t).Under b t := .inr rfl
  unfold beginRotation
  rw [Task.wp_bind]
  refine wp_still (reading_clean.reads.execute trivial) rfl hs (fun broker s hs =>
    ?_) fun _ _ _ => hheld
  cases broker with
  | none => exact hheld
  | some broker =>
      rw [Task.wp_bind, wp_execute]
      split
      · exact hheld
      next hb =>
      have hpending : s.pending = [] := hs.pending hb
      refine ⟨⟨nofun, trivial⟩, fun y => ?_⟩
      rw [hpending]
      match y with
      | .error e => exact hheld
      | .ok none => exact hheld
      | .ok (some (old, oldIp)) =>
          have hfound : tenure.advance (.held b t) (.query [] (.activeAssignment b))
              (.ok (some (old, oldIp))) = .found b t old.id := if_pos rfl
          rw [hfound, dbCases_ok, Task.wp_bind]
          refine wp_still (allocateIp_keeps still_housekeeping.able oldIp.region) rfl hs.staged
            (fun newIp s hs => ?_) fun _ _ _ => .inr rfl
          exact ⟨old.id, hs, rfl, rfl, rfl⟩

theorem startDraining_follows {r : Rotation} (h : Rotating b t a r s ph) :
    Task.wp tenure.step (startDraining r)
      (fun x s ph => ph = .lost ∨ Rotating b t a x.1 s ph ∧ x.1.oldAssignment.status = .draining)
      (fun _ s ph => Loose b t s ph) s ph := by
  obtain ⟨hs, hbroker, hold, rfl⟩ := h
  unfold startDraining
  rw [Task.wp_bind]
  refine wp_still (assertReuseAllowed_keeps still_housekeeping.reads _ _) rfl hs
    (fun _ s hs => ?_) fun _ _ => loose_found
  rw [Task.wp_bind]
  refine wp_assignment rfl (fun y => ?_) (fun y hy => ?_) (fun _ => loose_found hs)
    fun _ => loose_found (.inl rfl)
  · exact wp_lost (fun _ _ => .inl rfl) fun _ _ => .inl rfl
  rw [Task.wp_bind]
  refine wp_refreshed (fun old hsome => ?_) fun _ => loose_found hs
  have hold' : old.id = a := (hy b t a rfl old hsome).trans hold
  rw [Task.wp_bind]
  refine wp_still (still_housekeeping.reads.execute trivial) rfl hs (fun row s hs => ?_)
    fun _ _ => loose_found
  rw [Task.wp_bind]
  refine wp_still (Keeps.refreshed row) rfl hs (fun oldIp s hs => ?_) fun _ _ => loose_found
  rw [Task.wp_bind]
  refine wp_still (attachToOld_keeps still_housekeeping _ _) rfl hs (fun newIp s hs => ?_)
    fun _ _ => loose_found
  rw [Task.wp_bind]
  refine wp_still (succeeds_keeps (whitelistSync_keeps still_housekeeping.able _)) rfl hs
    (fun ok s hs => ?_) fun _ _ => loose_found
  rw [Task.wp_bind]
  unfold reselect
  rw [Task.wp_bind]
  refine wp_assignment rfl (fun y => ?_) (fun y _ => ?_) (fun _ => loose_found hs)
    fun _ => loose_found (.inl rfl)
  · exact wp_lost (fun _ _ => wp_lost (fun _ _ => .inl rfl) fun _ _ => .inl rfl)
      fun _ _ => .inl rfl
  cases y with
  | none => exact loose_found hs
  | some _ =>
      rw [Task.wp_pure, Task.wp_bind]
      have hassigned : ∀ s : Session, s.Staged Idles →
          Task.wp tenure.step
            (do
              commit
              pure ({ r with
                oldAssignment := Stored.set (IpAssignmentField.status .draining) old, oldIp,
                newIp }, ok))
            (fun x s ph => ph = .lost ∨ Rotating b t a x.1 s ph ∧
              x.1.oldAssignment.status = .draining)
            (fun _ s ph => Loose b t s ph) s (.found b t a) := by
        intro s hs
        rw [Task.wp_bind]
        refine wp_still still_housekeeping.able.commits rfl hs (fun _ s hs => ?_)
          fun _ _ => loose_found
        exact .inr ⟨⟨hs, hbroker, hold', rfl⟩, rfl⟩
      exact wp_assignTo (hassigned s hs) (hassigned _ (hs.stage (idles_draining old)))

/-- The drain timeout puts the old assignment back in force, alone. -/
theorem abortRotation_follows {r : Rotation} (h : Rotating b t a r s ph)
    (hdraining : r.oldAssignment.status = .draining) :
    Task.wp tenure.step (abortRotation r) (fun _ _ _ => False) (fun _ s ph => Loose b t s ph)
      s ph := by
  obtain ⟨hs, _, hold, rfl⟩ := h
  unfold abortRotation
  rw [Task.wp_bind]
  refine wp_still (cleanupNewIp_keeps still_housekeeping.stages _) rfl hs (fun _ s hs => ?_)
    fun _ _ => loose_found
  have hchanged : ¬ Stored.set (IpAssignmentField.status .active) r.oldAssignment =
      r.oldAssignment := by
    intro heq
    have hactive : AssignmentStatus.active = r.oldAssignment.status :=
      congrArg IpAssignment.status heq
    rw [hdraining] at hactive
    cases hactive
  rw [Task.wp_bind, wp_assign, if_neg hchanged, Task.wp_bind, wp_commit]
  split
  · next hb => exact loose_found (.inl hb)
  next hb =>
  have hquiet : Quiet s.pending := hs.resolve_left hb
  refine ⟨⟨nofun, .inr (.inr ⟨s.pending, [], ?_, hquiet, List.forall_mem_nil _⟩)⟩, fun y => ?_⟩
  · rw [← hold]
    rfl
  cases y with
  | error e => exact loose_found (.inl rfl)
  | ok _ =>
      have hlock : ∀ ws, (tenure.advance (.found b t a) (.commit ws) (.ok ())).lock =
          some (b, t) := fun ws => lock_of_commit rfl
      have hlocked : ∀ ws, (tenure.advance (.found b t a) (.commit ws) (.ok ())).lock.isSome :=
        fun ws => by rw [hlock]; rfl
      rw [dbCases_ok, Task.wp_bind]
      refine wp_still (S := (·.Staged Idles)) (still_housekeeping.reads.execute trivial) (hlocked _)
        (.inr (List.forall_mem_nil _)) (fun _ s hs => ?_) fun _ s hs => ?_
      · exact .inr ⟨hs, hlock _⟩
      · exact .inr ⟨hs, hlock _⟩

theorem drain_follows {r : Rotation} (h : Rotating b t a r s ph)
    (hdraining : r.oldAssignment.status = .draining) :
    Task.wp tenure.step (drain r) (fun _ s ph => Rotating b t a r s ph)
      (fun _ s ph => Loose b t s ph) s ph := by
  obtain ⟨hs, hbroker, hold, rfl⟩ := h
  unfold drain
  have htimeout : Keeps Still (·.Staged Idles) drainTimeout := by
    refine Keeps.bind (still_housekeeping.reads.execute trivial) fun config => ?_
    split
    · exact settingInt_keeps _
    · exact Keeps.pure _
  rw [Task.wp_bind]
  refine wp_still htimeout rfl hs (fun timeout s hs => ?_) fun _ _ => loose_found
  rw [Task.wp_bind]
  refine wp_still (Keeps.bind (still_housekeeping.reads.execute trivial) fun _ =>
    Keeps.pure _) rfl hs
    (fun policy s hs => ?_) fun _ _ => loose_found
  rw [Task.wp_bind]
  refine wp_still (S := (·.Staged Idles)) (Keeps.await (still_housekeeping.request trivial)) rfl hs
    (fun polls s hs => ?_) fun _ _ => loose_found
  rw [Task.wp_bind]
  refine wp_still (drainLoop_keeps still_housekeeping.reads _ _) rfl hs
    (fun drained s hs => ?_) fun _ _ => loose_found
  have hrotating : Rotating b t a r s (.found b t a) := ⟨hs, hbroker, hold, rfl⟩
  rw [Task.wp_ite]
  split
  · rw [Task.wp_bind]
    exact Task.wp_step_mono (abortRotation_follows hrotating hdraining) (fun _ _ _ h => h.elim)
      fun _ _ _ h => h
  · exact hrotating

/-- What is pending while the cutover is prepared: the end of the old assignment, and
nothing that would activate one. -/
def Ending (a : AssignmentId) (s : Session) : Prop :=
  s.broken = true ∨ Quiet s.pending ∧ Write.setAssignment a (.status .released) ∈ s.pending

theorem Ending.staged (h : Ending a s) : s.Staged Idles := h.imp_right And.left

theorem Ending.stage (h : Ending a s) {w : Write} (hw : Idles w) :
    Ending a { s with pending := s.pending ++ [w] } := by
  refine h.imp_right fun h => ⟨fun w' hw' => ?_, List.mem_append_left _ h.2⟩
  rcases List.mem_append.mp hw' with hw' | hw'
  · exact h.1 w' hw'
  · exact List.mem_singleton.mp hw' ▸ hw

theorem staging_ending : Staging Still (Ending a) where
  request := still_request
  query _ _ := still_query
  broken _ := .inl rfl
  write hs hw := hs.stage (idles_of_keepsHouse hw)

theorem loose_ending (h : Ending a s) : Loose b t s (.found b t a) := loose_found h.staged

/-- The commit of the cutover: the old assignment ends, and the new one comes. -/
theorem replaces_of_ending {r : IpAssignment} (hr : r.brokerAccountId = b) {l l' : List Write}
    (hl : Quiet l) (hmem : Write.setAssignment a (.status .released) ∈ l) (hl' : Quiet l') :
    Replaces b a (l ++ [.addAssignment r] ++ l') :=
  ⟨l, r, l', by simp, hl, hl', hr, hmem⟩

theorem cutover_follows (settings : Settings) {r : Rotation} (drained ok : Bool)
    (h : Rotating b t a r s ph) (hdraining : r.oldAssignment.status = .draining) :
    Task.wp tenure.step (cutover settings r drained ok) (fun _ _ ph => ph.lock = some (b, t))
      (fun _ s ph => Loose b t s ph) s ph := by
  obtain ⟨hs, hbroker, hold, rfl⟩ := h
  unfold cutover
  rw [Task.wp_bind]
  refine wp_still (S := (·.Staged Idles)) (Keeps.await (still_housekeeping.request trivial)) rfl hs
    (fun time s hs => ?_) fun _ _ => loose_found
  rw [Task.wp_bind]
  refine wp_still (cooldownHours_keeps still_housekeeping.reads settings) rfl hs
    (fun cooldown s hs => ?_) fun _ _ => loose_found
  have hchanged : ¬ Stored.set (IpAssignmentField.status .released) r.oldAssignment =
      r.oldAssignment := by
    intro heq
    have hreleased : AssignmentStatus.released = r.oldAssignment.status :=
      congrArg IpAssignment.status heq
    rw [hdraining] at hreleased
    cases hreleased
  rw [Task.wp_bind, wp_assign, if_neg hchanged]
  -- From here on the end of the old assignment is pending.
  have hending : Ending a { s with
      pending := s.pending ++ [Stored.write r.oldAssignment (.status .released)] } := by
    refine hs.imp_right fun hs => ⟨fun w hw => ?_, List.mem_append_right _ ?_⟩
    · rcases List.mem_append.mp hw with hw | hw
      · exact hs w hw
      · cases List.mem_singleton.mp hw
        rfl
    · rw [← hold]
      exact List.mem_singleton_self _
  generalize ({ s with
    pending := s.pending ++ [Stored.write r.oldAssignment (.status .released)] } : Session) = s'
    at hending
  rw [Task.wp_bind]
  refine wp_still (staging_ending.stages.assign trivial) rfl hending (fun old s hs => ?_)
    fun _ _ => loose_ending
  rw [Task.wp_bind]
  refine wp_still (staging_ending.reads.execute trivial) rfl hs (fun hist s hs => ?_)
    fun _ _ => loose_ending
  rw [Task.wp_bind]
  refine wp_still (closeHistory_keeps staging_ending.stages _ _ hist) rfl hs (fun _ s hs => ?_)
    fun _ _ => loose_ending
  rw [Task.wp_bind]
  refine wp_still (staging_ending.reads.execute trivial) rfl hs (fun row s hs => ?_)
    fun _ _ => loose_ending
  rw [Task.wp_bind]
  refine wp_still (Keeps.refreshed row) rfl hs (fun oldIp s hs => ?_) fun _ _ => loose_ending
  rw [Task.wp_bind]
  refine wp_still (detachOld_keeps staging_ending.stages oldIp) rfl hs (fun oldIp s hs => ?_)
    fun _ _ => loose_ending
  rw [Task.wp_bind]
  refine wp_still (staging_ending.stages.assign trivial) rfl hs (fun oldIp s hs => ?_)
    fun _ _ => loose_ending
  rw [hbroker, Task.wp_bind]
  refine wp_addAssignment rfl fun i j => ?_
  rw [Task.wp_bind, wp_enqueueOutbox, Task.wp_bind, wp_commit]
  split
  · next hb => exact loose_found (.inl hb)
  next hb =>
  obtain ⟨hquiet, hmem⟩ := hs.resolve_left hb
  refine ⟨⟨nofun, .inr (.inl ?_)⟩, fun y => ?_⟩
  · rw [List.append_assoc]
    refine replaces_of_ending rfl hquiet hmem fun w hw => ?_
    simp only [List.cons_append, List.nil_append, List.mem_cons, List.not_mem_nil, or_false] at hw
    rcases hw with rfl | rfl <;> rfl
  cases y with
  | error e => exact loose_found (.inl rfl)
  | ok _ => exact lock_of_commit rfl

theorem moveOver_follows (settings : Settings) {r : Rotation} (h : Rotating b t a r s ph) :
    Task.wp tenure.step (moveOver settings r) (fun _ _ ph => ph.Under b t)
      (fun _ s ph => Loose b t s ph) s ph := by
  unfold moveOver
  rw [Task.wp_bind]
  refine Task.wp_step_mono (startDraining_follows h) (fun x s ph hx => ?_) fun _ _ _ => id
  rcases hx with rfl | ⟨hrotating, hdraining⟩
  · exact wp_lost (fun _ _ => .inl rfl) fun _ _ => .inl rfl
  rw [Task.wp_bind]
  refine Task.wp_step_mono (drain_follows hrotating hdraining) (fun drained s ph hrotating => ?_)
    fun _ _ _ => id
  rw [Task.wp_bind]
  exact Task.wp_step_mono (cutover_follows settings drained x.2 hrotating hdraining)
    (fun _ _ _ hlock => .inr hlock) fun _ _ _ => id

theorem rotateLocked_follows (settings : Settings) (force : Bool) (hs : s.Clean) :
    Task.wp tenure.step (rotateLocked settings b force (releaseLock (.brokerIp b) t))
      (fun _ _ _ => True) (fun _ _ _ => True) s (.held b t) := by
  have hunlock : ∀ {Q : Unit → Session → Tenure → Prop} {s : Session} {ph : Tenure},
      ph.Under b t → (∀ s ph, Q () s ph) →
      Task.wp tenure.step (releaseLock (.brokerIp b) t) Q (fun _ _ _ => True) s ph := by
    intro Q s ph hph hQ
    exact wp_unlock hph (fun _ => hQ _ _) (fun _ _ _ => trivial) fun _ => hQ _ _
  unfold rotateLocked onError
  rw [Task.wp_bind, Task.wp_catching]
  refine Task.wp_step_mono (beginRotation_follows force hs) (fun r s ph hr => ?_)
    fun e s ph hph => ?_
  · obtain ⟨a, hr⟩ := hr
    rw [Task.wp_bind, Task.wp_catching]
    refine Task.wp_step_mono (moveOver_follows settings hr) (fun x s ph hph => ?_)
      fun e s ph hloose => ?_
    · rw [Task.wp_finally']
      have hrotated : Task.wp tenure.step (rotated x.1 x.2.1 x.2.2.1 x.2.2.2)
          (fun _ _ ph => ph.Under b t) (fun _ _ ph => ph.Under b t) s ph := by
        rcases hph with rfl | hph
        · exact wp_lost (fun _ _ => .inl rfl) fun _ _ => .inl rfl
        have hlocked : ph.lock.isSome := by rw [hph]; rfl
        unfold rotated
        refine wp_reread hph fun row => ?_
        rw [Task.wp_bind]
        refine wp_refreshed (fun new _ => ?_) fun _ => .inr hph
        rw [Task.wp_bind]
        have hread : Reading Still fun _ => True := still_reading fun _ _ => trivial
        refine wp_still (hread.reads.execute trivial) hlocked trivial (fun row s _ => ?_)
          fun _ _ _ => .inr hph
        rw [Task.wp_bind]
        exact wp_refreshed (fun _ _ => .inr hph) fun _ => .inr hph
      exact Task.wp_step_mono hrotated (fun _ _ _ hph => hunlock hph fun _ _ => trivial)
        fun _ _ _ hph => hunlock hph fun _ _ => trivial
    · rw [Task.wp_bind, Task.wp_bind]
      rcases hloose with rfl | ⟨hs, hph⟩
      · exact wp_lost (fun _ _ => hunlock (.inl rfl) fun _ _ => trivial) fun _ _ => trivial
      · have hlocked : ph.lock.isSome := by rw [hph]; rfl
        exact wp_still (finalCleanup_keeps still_housekeeping.able _) hlocked hs
          (fun _ _ _ => hunlock (.inr hph) fun _ _ => trivial) fun _ _ _ => trivial
  · rw [Task.wp_bind]
    exact hunlock hph fun _ _ => trivial

theorem rotate_follows (settings : Settings) (b : BrokerId) (force : Bool) :
    Task.wp tenure.step (rotate settings b force) (fun _ _ _ => True) (fun _ _ _ => True) {}
      .out := by
  unfold rotate
  rw [Task.wp_bind, wp_newId]
  refine ⟨⟨nofun, trivial⟩, fun token => ?_⟩
  beta_reduce
  rw [Task.wp_bind]
  refine wp_takeLock (by decide) ?_ trivial fun _ => trivial
  exact rotateLocked_follows settings force Session.clean_new

/-- The calls of the IP services. -/
def Call.ofIps : Call → Bool
  | .allocateIp _ | .assign _ _ _ | .attach _ _ | .detach _ | .release _ | .rotate _ _ => true
  | _ => false

theorem programOf_tenure (settings : Settings) {c : Call} (h : c.ofIps) :
    (programOf settings c).Follows tenure (fun _ _ => True) .out := by
  have hprogram : ∀ {α : Type} {t : Coro α} {reply : α → Reply},
      Task.wp tenure.step t (fun _ _ _ => True) (fun _ _ _ => True) {} .out →
      (t.program reply).Follows tenure (fun _ _ => True) .out :=
    fun h => Coro.program_ends h (fun _ _ _ => id) fun _ _ _ => id
  have hfree : ∀ {α : Type} {t : Coro α} {reply : α → Reply}, Keeps Free (·.Staged Idles) t →
      (t.program reply).Follows tenure (fun _ _ => True) .out := by
    intro α t reply h
    refine hprogram (Task.wp_step_mono
      (Task.wp_allowed_in (fun ph r hph hr => hr ph hph) nofun (h {} ?_))
      (fun _ _ _ _ => trivial) fun _ _ _ _ => trivial)
    exact .inr (List.forall_mem_nil _)
  cases c with
  | allocateIp region => exact hfree (allocateIp_keeps free_housekeeping.able region)
  | assign x b c => exact hprogram (assignIp_follows x c)
  | attach x i => exact hfree (attachIp_keeps free_housekeeping x i)
  | detach x => exact hfree (detachIp_keeps free_housekeeping x)
  | release x => exact hfree (releaseIp_keeps free_housekeeping settings x)
  | rotate b f => exact hprogram (rotate_follows settings b f)
  | _ => cases h

end Follows

end BrokerBridge
