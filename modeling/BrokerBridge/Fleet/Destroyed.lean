import BrokerBridge.Fleet.Heeding

/-!
# Destroyed instances

Once a commit has stored that an instance is destroyed, a call that read the row before may
still store that it runs, or is suspended: nothing keeps the row between the read and the
commit. `destroyed_final` says that this is the only way: where no commit revives an
instance that was destroyed since the call read it, destroyed is final.
-/

namespace BrokerBridge

open Conc

/-- There is a row of the instance, and it is not destroyed. -/
def Db.Standing (d : Db) (i : InstanceId) : Prop :=
  ∃ r, d.instances.get? i = some r ∧ r.status ≠ .destroyed

def Db.Destroyed (d : Db) (i : InstanceId) : Prop :=
  ∃ r, d.instances.get? i = some r ∧ r.status = .destroyed

/-! ## Writes and one instance -/

section Writes

variable {i : InstanceId} {now : Instant} {d : Db} {w : Write}

/-- A write about other things leaves the row alone. -/
theorem apply_instance_of_not_concerns (h : w.concerns i = false) :
    (w.apply now d).instances.get? i = d.instances.get? i := by
  cases w with
  | addInstance r =>
      have hne : i ≠ r.id := fun he => absurd h (by simp [Write.concerns, he])
      exact Table.get?_insert_of_ne hne
  | setInstance j f =>
      have hne : i ≠ j := fun he => absurd h (by simp [Write.concerns, he])
      show (d.instances.update j f).get? i = _
      rw [Table.get?_update, if_neg hne]
  | setAttempt o j f =>
      simp only [Write.apply]
      split <;> rfl
  | _ => rfl

/-- A row that is there stays, with the status that is set. -/
theorem apply_instance {r : Instance} (hr : d.instances.get? i = some r) :
    ∃ r', (w.apply now d).instances.get? i = some r' ∧
      (r'.status = r.status ∨ w.revives i = true ∧ r'.status ≠ .destroyed ∨
        w.destroys i = true ∧ r'.status = .destroyed) := by
  by_cases hc : w.concerns i = true
  · cases w with
    | addInstance r' =>
        have hkept : (d.instances.insert r').get? i = some r := Table.get?_insert_of_some hr
        exact ⟨r, hkept, .inl rfl⟩
    | setInstance j f =>
        obtain rfl : j = i := of_decide_eq_true hc
        refine ⟨f.set r, ?_, ?_⟩
        · show (d.instances.update j f).get? j = _
          rw [Table.get?_update_self, hr]
          rfl
        · cases f with
          | autoRenew x => exact .inl rfl
          | status x =>
              by_cases hx : x = .destroyed
              · exact .inr (.inr ⟨by simp [Write.destroys, hx], hx⟩)
              · exact .inr (.inl ⟨by simp [Write.revives, hx], hx⟩)
    | _ => cases hc
  · rw [Bool.not_eq_true] at hc
    exact ⟨r, (apply_instance_of_not_concerns hc).trans hr, .inl rfl⟩

theorem Db.Standing.apply (h : d.Standing i) (hw : w.destroys i = false) :
    (w.apply now d).Standing i := by
  obtain ⟨r, hr, hs⟩ := h
  obtain ⟨r', hr', hstatus | ⟨_, hstatus⟩ | ⟨hd, _⟩⟩ := apply_instance (w := w) hr
  · exact ⟨r', hr', hstatus ▸ hs⟩
  · exact ⟨r', hr', hstatus⟩
  · rw [hw] at hd
    cases hd

theorem Db.Destroyed.apply (h : d.Destroyed i) (hw : w.revives i = false) :
    (w.apply now d).Destroyed i := by
  obtain ⟨r, hr, hs⟩ := h
  obtain ⟨r', hr', hstatus | ⟨hrev, _⟩ | ⟨_, hstatus⟩⟩ := apply_instance (w := w) hr
  · exact ⟨r', hr', hstatus.trans hs⟩
  · rw [hw] at hrev
    cases hrev
  · exact ⟨r', hr', hstatus⟩

/-- What a session sees of an instance that it has not changed is the committed row. -/
theorem view_instance {ws : List Write} (h : ws.any (·.concerns i) = false) :
    (d.view now ws).instances.get? i = d.instances.get? i := by
  rw [Db.view]
  cases hd : d.write? now ws with
  | none => rfl
  | some d' =>
      have hws : ∀ w ∈ ws, w.concerns i = false := by
        intro w hw
        rw [List.any_eq_false] at h
        exact Bool.eq_false_iff.mpr (h w hw)
      exact Db.write?_eq (f := fun d => d.instances.get? i)
        (fun w hw _ => apply_instance_of_not_concerns (hws w hw)) hd

end Writes

/-! ## What a call has seen -/

section Seen

variable {i : InstanceId}

/-- The instance stays standing unless a commit destroys it. -/
theorem standing_kept {r : Req} (h : ¬ r.destroys i = true) (e : Env) (w : World)
    (hw : w.db.Standing i) : (handle r e w).2.db.Standing i := by
  by_cases hr : ∃ ws, r = .commit ws
  · obtain ⟨ws, rfl⟩ := hr
    rcases commit_cases ws e w with ⟨f, hf⟩ | ⟨d, hd, hf⟩
    · rw [hf]
      exact hw
    · rw [hf]
      refine Db.write?_preserves (P := (·.Standing i)) (fun v hv d' _ hd' => ?_) hd hw
      exact hd'.apply (Bool.eq_false_iff.mpr fun hdes => h (List.any_eq_true.mpr ⟨v, hv, hdes⟩))
  · rw [handle_db (fun ws h' => hr ⟨ws, h'⟩) e w]
    exact hw

/-- Answers to a query of instances that show this one. -/
theorem standing_of_shows {q : Query} {e : Env} {now : Instant} {d : Db}
    (h : q.shows i (q.eval e now d)) : d.Standing i := by
  cases q with
  | instanceById j =>
      obtain ⟨r, hr, hid, hs⟩ := h
      have hj : r.id = j := Table.get?_key hr
      rw [← hj, hid] at hr
      exact ⟨r, hr, hs⟩
  | liveInstances c =>
      obtain ⟨r, hr, hid⟩ := h
      obtain ⟨hmem, hlive⟩ := List.mem_filter.mp hr
      refine ⟨r, hid ▸ Table.get?_of_mem hmem, fun hd => ?_⟩
      rw [hd] at hlive
      simp at hlive
  | _ => exact h.elim

/-- What the reads of an instance show, and which commits spoil it. -/
def sight (s : Settings) (i : InstanceId) : Sight (fleet s) (heeding i) where
  looks := Req.looksFor i
  spoils r := r.destroys i = true
  good w := w.db.Standing i
  sure ph := ph
  kept h e w hw := standing_kept h e w hw
  ticked v w hw := by cases v <;> exact hw
  shown {ph r} hlook e w hsure := by
    cases r with
    | query ws q =>
        have hshown : ∃ a, (handle (.query ws q) e w).1 = .ok a ∧ q.shows i a := by
          change showing i ph (.query ws q) _ at hsure
          rw [showing, if_pos hlook] at hsure
          exact hsure
        obtain ⟨a, ha, hshows⟩ := hshown
        have hnone : ws.any (·.concerns i) = false := by
          rw [Req.looksFor, Bool.and_eq_true, Bool.not_eq_true'] at hlook
          exact hlook.2
        rcases query_cases ws q e w with ⟨f, hf⟩ | hf
        · rw [hf] at ha
          cases ha
        · rw [hf] at ha
          cases ha
          obtain ⟨r, hr, hs⟩ := standing_of_shows hshows
          show (handle (.query ws q) e w).2.db.Standing i
          rw [hf]
          exact ⟨r, (view_instance hnone).symm.trans hr, hs⟩
    | _ => cases hlook
  unshown {ph r} hlook e w hsure := by
    cases r with
    | query ws q =>
        change showing i ph (.query ws q) _ at hsure
        rw [showing, hlook, if_neg Bool.false_ne_true] at hsure
        exact hsure
    | _ => exact hsure

end Seen

/-! ## Every call looks first -/

section Follows

variable {i : InstanceId}

theorem Heeds.follows {α : Type} {t : Coro α} {q : α → Prop} (h : Heeds i False t q)
    (reply : α → FleetReply) : (t.fleet reply).Follows (heeding i) (fun _ _ => True) False := by
  unfold Prog.Follows Coro.fleet
  rw [Prog.fold_bind]
  refine Prog.step_mono ?_ (h {} False (.inr fun ⟨_, h, _⟩ => nomatch h) id)
  rintro ⟨a | a, s⟩ ph _ <;> trivial

theorem harmless_fleet {α : Type} {t : Coro α}
    (h : (t {}).fold (only (Req.harmless i)) fun _ => True)
    (reply : α → FleetReply) : (t.fleet reply).Follows (heeding i) (fun _ _ => True) False := by
  unfold Prog.Follows Coro.fleet
  rw [Prog.fold_bind]
  exact harmless_follows (fun _ _ => trivial) h False

/-- A stretch that revives nothing. -/
abbrev Spares {α : Type} (i : InstanceId) (t : Coro α) : Prop :=
  Keeps (Req.harmless i) (·.Staged fun w => w.revives i = false) t

theorem Spares.follows {α : Type} {t : Coro α} (h : Spares i t) (reply : α → FleetReply) :
    (t.fleet reply).Follows (heeding i) (fun _ _ => True) False :=
  harmless_fleet (Prog.only_mono (fun _ => id) (fun _ _ => trivial)
    (h {} (.inr fun _ h => nomatch h))) reply

theorem execute_spares (q : Query) : Spares i (execute q) :=
  Keeps.execute (fun _ _ => .inl rfl) fun _ _ _ => trivial

theorem commit_spares : Spares i commit :=
  Keeps.commit (fun _ _ => .inl rfl) (fun _ hs hb => hs.resolve_left hb)
    fun _ _ => .inr fun _ h => nomatch h

theorem infraOrApp_spares (c : InfraCall) : Spares i (infraOrApp c) := by
  refine Keeps.catching (Keeps.infra trivial) fun e => ?_
  cases e <;> exact Keeps.raise _

theorem getInstance_spares (j : InstanceId) : Spares i (getInstance j) := by
  refine Keeps.bind (execute_spares _) fun x => ?_
  cases x
  · exact Keeps.raise _
  · exact Keeps.pure _

theorem createInstance_spares (c : ClientId) (region : Region) (status : InstanceStatus)
    (autoRenew : Bool) : Spares i (createInstance c region status autoRenew) := by
  refine Keeps.bind (execute_spares _) fun _ => Keeps.bind (infraOrApp_spares _) fun ext => ?_
  refine Keeps.bind (Keeps.await trivial) fun id =>
    Keeps.bind (Keeps.stage fun _ h => h.stage rfl) fun _ => ?_
  exact Keeps.bind commit_spares fun _ => Keeps.bind (execute_spares _) fun x => Keeps.refreshed x

theorem destroyInstance_spares (j : InstanceId) : Spares i (destroyInstance j) := by
  refine Keeps.bind (getInstance_spares j) fun row => Keeps.bind (execute_spares _) fun _ => ?_
  refine Keeps.bind (infraOrApp_spares _) fun _ =>
    Keeps.bind (Keeps.assign fun _ h => h.stage ?_) fun _ =>
    commit_spares
  show (decide (row.id = i) && decide (InstanceStatus.destroyed ≠ .destroyed)) = false
  rw [decide_eq_false (p := InstanceStatus.destroyed ≠ .destroyed) (fun h => h rfl), Bool.and_false]

theorem setAutoRenew_spares (j : InstanceId) (enabled : Bool) :
    Spares i (setAutoRenew j enabled) := by
  refine Keeps.bind (getInstance_spares j) fun row => Keeps.bind (execute_spares _) fun _ => ?_
  refine Keeps.bind (Keeps.infra trivial) fun _ => ?_
  refine Keeps.bind (Keeps.assign fun _ h => h.stage rfl) fun _ =>
    Keeps.bind commit_spares fun _ => ?_
  exact Keeps.bind (execute_spares _) fun x => Keeps.refreshed x

/-- A call of the other services, in the fleet. -/
theorem Prog.Follows.reply {p : Running} (h : p.Follows (heeding i) (fun _ _ => True) False) :
    (p.bind fun r => Prog.ret (r.map FleetReply.reply)).Follows (heeding i)
      (fun _ _ => True) False := by
  unfold Prog.Follows
  rw [Prog.fold_bind]
  exact Prog.step_mono (fun _ _ _ => trivial) h

theorem Heeds.program {α : Type} {t : Coro α} {q : α → Prop} (h : Heeds i False t q)
    (reply : α → Reply) : (t.program reply).Follows (heeding i) (fun _ _ => True) False := by
  unfold Prog.Follows Coro.program
  rw [Prog.fold_bind]
  refine Prog.step_mono ?_ (h {} False (.inr fun ⟨_, h, _⟩ => nomatch h) id)
  rintro ⟨a | a, s⟩ ph _ <;> trivial

theorem within_program {α : Type} {t : Coro α} (h : Within .ips t) (reply : α → Reply) :
    (t.program reply).Follows (heeding i) (fun _ _ => True) False := by
  unfold Prog.Follows Coro.program
  rw [Prog.fold_bind]
  exact harmless_follows (fun _ _ => trivial) (harmless_of_within h) False

theorem fleet_follows (s : Settings) {c : FleetCall} (hc : c.inScope = true) :
    (fleetProgram s c).Follows (heeding i) (fun _ _ => True) False := by
  cases c with
  | createInstance c region status renew =>
      exact (createInstance_spares c region status renew).follows _
  | destroyInstance j => exact (destroyInstance_spares j).follows _
  | suspendInstance j =>
      exact (setStatus_heeds j .suspended fun _ _ => infraOrApp_heeds _).follows _
  | startInstance j => exact (setStatus_heeds j .running fun _ _ => infraOrApp_heeds _).follows _
  | setAutoRenew j enabled => exact (setAutoRenew_spares j enabled).follows _
  | call c =>
      refine Prog.Follows.reply ?_
      cases c with
      | enforceExpiry t => exact (enforceExpiry_heeds t).program _
      | expireNow id => exact (expireNow_heeds id).program _
      | allocateIp region => exact within_program (allocateIp_within region) _
      | assign x b c => exact within_program (assignIp_within x b c) _
      | attach x j => exact within_program (attachIp_within x j) _
      | detach x => exact within_program (detachIp_within x) _
      | release x => exact within_program (releaseIp_within s x) _
      | rotate b force => exact within_program (rotate_within s b force) _
      | _ => cases hc

end Follows

/-! ## Destroyed is final -/

/-- The calls are those on instances and static IPs, and no commit revives an instance that
another commit has destroyed since this call read it. -/
def UpToDate (s : Fleet) : FleetEvent → Prop
  | .start c => c.inScope = true
  | .step t _ => ∀ ws i, s.Asks t (.commit ws) → ws.any (·.revives i) = true →
      ∀ x ∈ sinceLook (Req.looksFor i) t s.trace, x.2.1.destroys i = false
  | _ => True

/-- A commit of the run keeps a destroyed instance destroyed. -/
theorem destroyed_next (set : Settings) {w : World} {s : Fleet} {i : InstanceId} {ev : FleetEvent}
    (h : (fleet set).Reach (· = { world := w }) UpToDate s) (hev : UpToDate s ev)
    (hd : s.world.db.Destroyed i) : ((fleet set).next s ev).world.db.Destroyed i := by
  cases ev with
  | start c => exact hd
  | crash t => exact hd
  | tick v => cases v <;> exact hd
  | step t e =>
      rcases Machine.step_cases (M := fleet set) s t e with ⟨r, k, hk, heq⟩ | heq
      · rw [heq]
        show (handle r e s.world).2.db.Destroyed i
        by_cases hr : ∃ ws, r = .commit ws
        · obtain ⟨ws, rfl⟩ := hr
          rcases commit_cases ws e s.world with ⟨f, hf⟩ | ⟨d, hdb, hf⟩
          · rw [hf]
            exact hd
          · rw [hf]
            refine Db.write?_preserves (P := (·.Destroyed i)) (fun v hv d' _ hd' => ?_) hdb hd
            refine hd'.apply (Bool.eq_false_iff.mpr fun hrev => ?_)
            -- The call has read the row, and nothing has destroyed the instance since.
            have hrevs : ws.any (·.revives i) = true := List.any_eq_true.mpr ⟨v, hv, hrev⟩
            obtain ⟨ph, hallows, htrue⟩ := Sight.informed_asks (S := sight set i) False id
              (by rintro _ rfl; rfl) (fun _ _ hc => fleet_follows set hc) h ⟨k, hk⟩
            obtain ⟨r, hr, hs⟩ := htrue (hallows ws rfl ⟨v, hv, hrev⟩) fun x hx =>
              Bool.eq_false_iff.mp (hev ws i ⟨k, hk⟩ hrevs x hx)
            obtain ⟨r', hr', hs'⟩ := hd
            cases hr.symm.trans hr'
            exact hs hs'
        · rw [handle_db (fun ws h' => hr ⟨ws, h'⟩) e s.world]
          exact hd
      · rw [heq]
        exact hd

/-- In every run in which no commit revives an instance that was destroyed since the call read
it, an instance that is destroyed stays so. -/
theorem destroyed_final (set : Settings) (w : World) {s s' : Fleet} {i : InstanceId}
    (h : (fleet set).Reach (· = { world := w }) UpToDate s)
    (h' : (fleet set).ReachFrom UpToDate s s') (hd : s.world.db.Destroyed i) :
    s'.world.db.Destroyed i := by
  induction h' with
  | init heq =>
      rw [heq]
      exact hd
  | step hreach hev ih => exact destroyed_next set (h.trans hreach) hev ih

/-- The same, computed: which instance a write revives is in the write. -/
def revivesUnseen (s : Fleet) (t : Nat) : Write → Bool
  | .setInstance i (.status x) => x ≠ .destroyed &&
      (sinceLook (Req.looksFor i) t s.trace).any (·.2.1.destroys i)
  | _ => false

def upToDateCheck (s : Fleet) : FleetEvent → Bool
  | .start c => c.inScope
  | .step t _ =>
      match s.prog? t with
      | some (.call (.commit ws) _) => !ws.any (revivesUnseen s t)
      | _ => true
  | _ => true

theorem upToDate_of_check (s : Fleet) (ev : FleetEvent) (h : upToDateCheck s ev = true) :
    UpToDate s ev := by
  cases ev with
  | start c => exact h
  | step t e =>
      rintro ws i ⟨k, hk⟩ hrev x hx
      simp only [upToDateCheck, hk, Bool.not_eq_true'] at h
      obtain ⟨w, hw, hrev⟩ := List.any_eq_true.mp hrev
      rw [List.any_eq_false] at h
      cases w with
      | setInstance j f =>
          cases f with
          | autoRenew y => cases hrev
          | status y =>
              rw [Write.revives, Bool.and_eq_true] at hrev
              obtain rfl : j = i := of_decide_eq_true hrev.1
              have hno := h _ hw
              rw [revivesUnseen, hrev.2, Bool.true_and, List.any_eq_true] at hno
              exact Bool.eq_false_iff.mpr fun hdes => hno ⟨x, hx, hdes⟩
      | _ => cases hrev
  | _ => trivial

/-- A client's suspended instance. -/
def oneInstance : World where
  db :=
    { instances := .of
        [{ id := 1, clientId := 2, externalId := 3, region := "a", status := .suspended }] }

/-- It is started, and destroyed. -/
def startedDestroyed : List FleetEvent :=
  .start (.startInstance 1) :: List.replicate 5 (.step 0 {}) ++
    .start (.destroyInstance 1) :: List.replicate 4 (.step 1 {})

/-- It is started once more; the call is refused. -/
theorem destroyed_final_startedAgain :
    ((fleet {}).run ((fleet {}).run { world := oneInstance } startedDestroyed)
      (.start (.startInstance 1) :: List.replicate 5 (.step 2 {}))).world.db.Destroyed 1 := by
  have hfirst : (fleet {}).Reach (· = { world := oneInstance }) UpToDate
      ((fleet {}).run { world := oneInstance } startedDestroyed) :=
    Machine.reach_run_of_check upToDate_of_check (Machine.reachFrom_self { world := oneInstance })
      startedDestroyed (by decide +kernel)
  have hsecond : (fleet {}).ReachFrom UpToDate
      ((fleet {}).run { world := oneInstance } startedDestroyed)
      ((fleet {}).run ((fleet {}).run { world := oneInstance } startedDestroyed)
        (.start (.startInstance 1) :: List.replicate 5 (.step 2 {}))) :=
    Machine.reach_run_of_check upToDate_of_check
      (Machine.reachFrom_self ((fleet {}).run { world := oneInstance } startedDestroyed))
      (.start (.startInstance 1) :: List.replicate 5 (.step 2 {})) (by decide +kernel)
  have hdestroyed :
      (((fleet {}).run { world := oneInstance } startedDestroyed).world.db.instances.get?
      1).map (·.status) = some .destroyed := by decide +kernel
  obtain ⟨r, hr, hs⟩ := Option.map_eq_some_iff.mp hdestroyed
  exact destroyed_final {} oneInstance hfirst hsecond ⟨r, hr, hs⟩

/-- It is destroyed after `start_instance` has read the row and called the provider. -/
def destroyedMeanwhile : List FleetEvent :=
  .start (.startInstance 1) :: List.replicate 3 (.step 0 {}) ++
    .start (.destroyInstance 1) :: List.replicate 4 (.step 1 {})

/-- Whatever happens, as long as the calls are those on instances and static IPs. -/
def InScope (_ : Fleet) : FleetEvent → Prop
  | .start c => c.inScope = true
  | _ => True

def inScopeCheck (_ : Fleet) : FleetEvent → Bool
  | .start c => c.inScope
  | _ => true

theorem inScope_of_check (s : Fleet) (ev : FleetEvent) (h : inScopeCheck s ev = true) :
    InScope s ev := by
  cases ev with
  | start c => exact h
  | _ => trivial

/-- Then `start_instance` commits. -/
theorem not_destroyed_final : ¬ ∀ (set : Settings) (w : World) (s s' : Fleet) (i : InstanceId),
    (fleet set).Reach (· = { world := w }) InScope s → (fleet set).ReachFrom InScope s s' →
    s.world.db.Destroyed i → ∀ r, s'.world.db.instances.get? i = some r →
      r.status ≠ .running ∧ r.status ≠ .suspended := by
  intro h
  have hfirst : (fleet {}).Reach (· = { world := oneInstance }) InScope
      ((fleet {}).run { world := oneInstance } destroyedMeanwhile) :=
    Machine.reach_run_of_check inScope_of_check (Machine.reachFrom_self { world := oneInstance })
      destroyedMeanwhile (by decide +kernel)
  have hsecond : (fleet {}).ReachFrom InScope
      ((fleet {}).run { world := oneInstance } destroyedMeanwhile)
      ((fleet {}).run ((fleet {}).run { world := oneInstance } destroyedMeanwhile) [.step 0 {}]) :=
    Machine.reach_run_of_check inScope_of_check
      (Machine.reachFrom_self ((fleet {}).run { world := oneInstance } destroyedMeanwhile))
      [.step 0 {}] (by decide +kernel)
  have hdestroyed :
      (((fleet {}).run { world := oneInstance } destroyedMeanwhile).world.db.instances.get?
      1).map (·.status) = some .destroyed := by decide +kernel
  have hruns : (((fleet {}).run ((fleet {}).run { world := oneInstance } destroyedMeanwhile)
      [.step 0 {}]).world.db.instances.get? 1).map (·.status) = some .running := by decide +kernel
  obtain ⟨r, hr, hs⟩ := Option.map_eq_some_iff.mp hdestroyed
  obtain ⟨r', hr', hs'⟩ := Option.map_eq_some_iff.mp hruns
  exact (h {} oneInstance _ _ 1 hfirst hsecond ⟨r, hr, hs⟩ r' hr').1 hs'

end BrokerBridge
