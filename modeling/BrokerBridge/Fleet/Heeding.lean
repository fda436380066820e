import BrokerBridge.Code.Areas
import BrokerBridge.Code.Keeps
import BrokerBridge.Code.Instances
import BrokerBridge.Conc.Sight

/-!
# Who looks before it revives

A call sets an instance to running or suspended only after it has read the row and found
it not destroyed. `heeding i` is the protocol that says so for one instance: its phase is
whether the last read has shown that. A read in a session that has changes of the instance
pending shows nothing of the database and leaves the phase as it is.

`Heeds i p t q` goes through a coroutine: begun in a phase in which `p` implies what was
shown, it follows the protocol and returns in one in which `q` does.
-/

namespace BrokerBridge

open Conc

namespace Write

/-- The write is about this instance. -/
def concerns (i : InstanceId) : Write → Bool
  | addInstance r => r.id = i
  | setInstance j _ => j = i
  | _ => false

/-- It sets a status of the instance other than destroyed. -/
def revives (i : InstanceId) : Write → Bool
  | setInstance j (.status x) => j = i && x ≠ .destroyed
  | _ => false

def destroys (i : InstanceId) : Write → Bool
  | setInstance j (.status x) => j = i && x = .destroyed
  | _ => false

theorem concerns_of_revives {i : InstanceId} {w : Write} (h : w.revives i = true) :
    w.concerns i = true := by
  cases w with
  | setInstance j f =>
      cases f with
      | status x =>
          rw [revives, Bool.and_eq_true] at h
          exact h.1
      | autoRenew x => cases h
  | _ => cases h

end Write

/-- The query reads instances. -/
def Query.looks : Query → Bool
  | .instanceById _ | .liveInstances _ => true
  | _ => false

/-- The answer shows the instance, and not destroyed. -/
def Query.shows (i : InstanceId) : (q : Query) → q.Res → Prop
  | .instanceById _, x => ∃ r, x = some r ∧ r.id = i ∧ r.status ≠ .destroyed
  | .liveInstances _, rows => ∃ r ∈ rows, r.id = i
  | _, _ => False

/-- A read of instances by a session that has not changed this one. -/
def Req.looksFor (i : InstanceId) : Req → Bool
  | .query ws q => q.looks && !ws.any (·.concerns i)
  | _ => false

/-- A commit that stores that the instance is destroyed. -/
def Req.destroys (i : InstanceId) : Req → Bool
  | .commit ws => ws.any (·.destroys i)
  | _ => false

/-- What the answer has shown, after what was shown before. -/
def showing (i : InstanceId) (ph : Prop) : (r : Req) → r.Ans → Prop
  | .query ws q, x =>
      if Req.looksFor i (.query ws q) then ∃ a, x = .ok a ∧ q.shows i a else ph
  | _, _ => ph

def heeding (i : InstanceId) : Protocol Req Req.Ans Prop where
  allows ph r := ∀ ws, r = .commit ws → (∃ w ∈ ws, w.revives i = true) → ph
  advance := showing i

/-! ## The triple -/

/-- Whatever the session has changed of the instance, it was shown before. -/
def Session.Heeding (i : InstanceId) (s : Session) (ph : Prop) : Prop :=
  s.broken = true ∨ ((∃ w ∈ s.pending, w.concerns i = true) → ph)

def Heeds {α : Type} (i : InstanceId) (p : Prop) (t : Coro α) (q : α → Prop) : Prop :=
  ∀ s ph, s.Heeding i ph → (p → ph) →
    Task.wp (heeding i).step t (fun a s' ph' => s'.Heeding i ph' ∧ (q a → ph'))
      (fun _ s' ph' => s'.Heeding i ph') s ph

section Rules

variable {i : InstanceId} {p : Prop} {α β : Type} {q : α → Prop}

theorem Heeds.pure {a : α} (h : q a → p) : Heeds i p (pure a) q :=
  fun _ _ hs hp => ⟨hs, fun ha => hp (h ha)⟩

theorem Heeds.raise {e : Exn} : Heeds i p (Task.raise e : Coro α) q := fun _ _ hs _ => hs

theorem Heeds.bind {t : Coro α} {f : α → Coro β} {q' : β → Prop} (ht : Heeds i p t q)
    (hf : ∀ a, Heeds i (q a) (f a) q') : Heeds i p (t >>= f) q' := by
  intro s ph hs hp
  rw [Task.wp_bind]
  exact Task.wp_step_mono (ht s ph hs hp) (fun a s' ph' h => hf a s' ph' h.1 h.2)
    fun _ _ _ => id

theorem Heeds.pre {t : Coro α} {p' : Prop} (h : Heeds i p t q) (hp : p → p') : Heeds i p' t q :=
  fun s ph hs hp' => h s ph hs fun hpp => hp' (hp hpp)

/-- Nothing is said of what was shown. -/
theorem Heeds.forget {t : Coro α} (h : Heeds i p t q) : Heeds i p t fun _ => False :=
  fun s ph hs hp => Task.wp_step_mono (h s ph hs hp) (fun _ _ _ h => ⟨h.1, False.elim⟩)
    fun _ _ _ => id

theorem Heeds.catching {t : Coro α} {handler : Exn → Coro α} (ht : Heeds i p t q)
    (hh : ∀ e, Heeds i False (handler e) q) : Heeds i p (Task.catching t handler) q := by
  intro s ph hs hp
  rw [Task.wp_catching]
  exact Task.wp_step_mono (ht s ph hs hp) (fun _ _ _ => id) fun e s' ph' h =>
    hh e s' ph' h False.elim

theorem Heeds.await {r : Req} (hr : ∀ ws, r ≠ .commit ws) (hr' : ∀ ws q, r ≠ .query ws q) :
    Heeds i p (await r) fun _ => p := by
  intro s ph hs hp
  refine ⟨fun ws h => absurd h (hr ws), fun x => ?_⟩
  have hph : showing i ph r x = ph := by
    cases r with
    | query ws q => exact absurd rfl (hr' ws q)
    | _ => rfl
  show s.Heeding i (showing i ph r x) ∧ (p → showing i ph r x)
  rw [hph]
  exact ⟨hs, hp⟩

theorem Heeds.ofAnswer (x : Except Exn α) : Heeds i p (ofAnswer x) fun _ => p := by
  cases x with
  | ok a => exact Heeds.pure id
  | error e => exact Heeds.raise

theorem Heeds.infra {c : InfraCall} : Heeds i p (infra c) fun _ => p :=
  Heeds.bind (Heeds.await (fun _ => nofun) fun _ _ => nofun) fun x => Heeds.ofAnswer x

/-- A query that does not read instances. -/
theorem Heeds.execute {x : Query} (hx : x.looks = false) : Heeds i p (execute x) fun _ => p := by
  intro s ph hs hp
  rw [wp_execute]
  split
  · exact hs
  · refine ⟨fun _ h => (nomatch h), fun y => ?_⟩
    have hph : (heeding i).advance ph (.query s.pending x) y = ph := by
      simp only [heeding, showing, Req.looksFor, hx, Bool.false_and, Bool.false_eq_true, if_false]
    rw [hph]
    cases y with
    | ok a => exact ⟨hs, hp⟩
    | error e => exact .inl rfl

/-- A query that does. -/
theorem Heeds.look {x : Query} : Heeds i p (BrokerBridge.execute x) fun a => x.shows i a := by
  intro s ph hs hp
  rw [wp_execute]
  split
  · exact hs
  · next hb =>
    refine ⟨fun _ h => (nomatch h), fun y => ?_⟩
    cases y with
    | error e => exact .inl rfl
    | ok a =>
        rw [dbCases_ok]
        have hmine := hs.resolve_left hb
        simp only [heeding, showing, Req.looksFor]
        by_cases hc : s.pending.any (·.concerns i) = true
        · -- The session has changed the instance, so it was shown before.
          have hph : ph := hmine (List.any_eq_true.mp hc)
          simp only [hc, Bool.not_true, Bool.and_false, Bool.false_eq_true, if_false]
          exact ⟨.inr fun _ => hph, fun _ => hph⟩
        · rw [Bool.not_eq_true] at hc
          have hnone : ¬ ∃ w ∈ s.pending, w.concerns i = true := fun h => by
            rw [List.any_eq_true.mpr h] at hc
            cases hc
          refine ⟨.inr fun h => absurd h hnone, fun hshows => ?_⟩
          have hlooks : x.looks = true := by
            cases x with
            | instanceById | liveInstances => rfl
            | _ => exact hshows.elim
          simp only [hc, hlooks, Bool.not_false, Bool.and_self, if_true]
          exact ⟨a, rfl, hshows⟩

theorem Heeds.commit : Heeds i p commit fun _ => p := by
  intro s ph hs hp
  rw [wp_commit]
  split
  · exact hs
  · next hb =>
    refine ⟨fun ws h hrev => ?_, fun y => ?_⟩
    · obtain ⟨w, hw, hrev⟩ := hrev
      cases h
      exact hs.resolve_left hb ⟨w, hw, Write.concerns_of_revives hrev⟩
    · cases y with
      | ok a => exact ⟨.inr fun ⟨_, h, _⟩ => (nomatch h), hp⟩
      | error e => exact .inl rfl

theorem Session.Heeding.stage {s : Session} {ph : Prop} (h : s.Heeding i ph) {w : Write}
    (hw : w.concerns i = true → ph) :
    ({ s with pending := s.pending ++ [w] } : Session).Heeding i ph := by
  refine h.imp_right fun h => ?_
  rintro ⟨w', hw', hc⟩
  rcases List.mem_append.mp hw' with hw' | hw'
  · exact h ⟨w', hw', hc⟩
  · rw [List.mem_singleton.mp hw'] at hc
    exact hw hc

theorem Heeds.stage {w : Write} (hw : w.concerns i = true → p) :
    Heeds i p (stage w) fun _ => p :=
  fun _ _ hs hp => ⟨hs.stage fun hc => hp (hw hc), hp⟩

/-- After setting an attribute, with the object that has it. -/
theorem Heeds.assignThen {F : Type} [Stored α F] [DecidableEq α] {r : α} {f : F} {k : α → Coro β}
    {q : β → Prop} (hw : (Stored.write r f).concerns i = true → p)
    (hk : Heeds i p (k (Stored.set f r)) q) : Heeds i p (BrokerBridge.assign r f >>= k) q := by
  intro s ph hs hp
  rw [Task.wp_bind, wp_assign]
  split
  · next heq =>
      rw [heq] at hk
      exact hk s ph hs hp
  · exact hk _ ph (hs.stage fun hc => hp (hw hc)) hp

/-- A stretch that only calls the provider. -/
theorem Heeds.quiet {t : Coro α}
    (h : ∀ ph : Prop, (p → ph) → Keeps (fun r => ∃ c, r = .infra c) (·.Heeding i ph) t) :
    Heeds i p t fun _ => p := by
  intro s ph hs hp
  refine Task.wp_quiet (N := fun r => ∃ c, r = .infra c) ?_ ?_
  · rintro _ ⟨c, rfl⟩
    exact ⟨fun _ h => (nomatch h), fun _ => rfl⟩
  · exact Task.wp_only_mono (fun _ => id) (h ph hp s hs) (fun _ _ h => ⟨h, hp⟩) fun _ _ => id

theorem Heeds.refreshed (x : Option α) : Heeds i p (refreshed x) fun _ => p := by
  cases x with
  | some a => exact Heeds.pure id
  | none => exact Heeds.raise

theorem Heeds.ite {c : Prop} [Decidable c] {t u : Coro α} (ht : c → Heeds i p t q)
    (hu : ¬ c → Heeds i p u q) : Heeds i p (if c then t else u) q := by
  split
  · next h => exact ht h
  · next h => exact hu h

end Rules

/-! ## The calls -/

section Calls

variable {i : InstanceId}

theorem getInstance_heeds (j : InstanceId) :
    Heeds i False (getInstance j) fun row => row.id = i ∧ row.status ≠ .destroyed := by
  refine Heeds.bind Heeds.look fun x => ?_
  cases x with
  | none => exact Heeds.raise
  | some row => exact Heeds.pure fun h => ⟨row, rfl, h⟩

theorem infraOrApp_heeds {p : Prop} (c : InfraCall) : Heeds i p (infraOrApp c) fun _ => p := by
  refine Heeds.catching Heeds.infra fun e => ?_
  cases e <;> exact Heeds.raise

theorem setStatus_heeds (j : InstanceId) {call : ExternalId → Coro Unit} (status : InstanceStatus)
    (hcall : ∀ p ext, Heeds i p (call ext) fun _ => p) :
    Heeds i False (setStatus j call status) fun _ => False := by
  refine Heeds.bind (getInstance_heeds j) fun row => Heeds.ite (fun _ => Heeds.raise) fun hrow => ?_
  refine Heeds.pre (p := row.id = i) ?_ fun h => ⟨h, hrow⟩
  refine Heeds.bind (Heeds.execute rfl) fun _ => Heeds.bind (hcall _ _) fun _ => ?_
  refine Heeds.assignThen (fun hc => of_decide_eq_true hc) ?_
  refine Heeds.bind Heeds.commit fun _ => Heeds.bind (Heeds.look (x := .instanceById j)) fun x => ?_
  exact (Heeds.refreshed x).forget

theorem tearDownInstance_keeps {ph : Prop} {mode : TeardownMode} {inst : Instance}
    (hinst : inst.id = i → ph) :
    Keeps (fun r => ∃ c, r = .infra c) (·.Heeding i ph) (tearDownInstance mode inst) := by
  have hmine : ∀ (f : InstanceField) (s : Session), s.Heeding i ph →
      ({ s with pending := s.pending ++ [.setInstance inst.id f] } : Session).Heeding i ph :=
    fun _ _ hs => hs.stage fun hc => hinst (of_decide_eq_true hc)
  refine Keeps.catching ?_ fun e => Keeps.ite (Keeps.pure _) (Keeps.raise _)
  refine Keeps.bind (Keeps.infra ⟨_, rfl⟩) fun _ => Keeps.assignThen (hmine _) ?_
  refine Keeps.bind ?_ fun _ => Keeps.pure _
  cases mode
  all_goals
    refine Keeps.bind (Keeps.infra ⟨_, rfl⟩) fun _ => Keeps.assignThen (hmine _) (Keeps.pure _)

theorem tearDownInstances_keeps {ph : Prop} {mode : TeardownMode} {insts : List Instance}
    (hinsts : ∀ inst ∈ insts, inst.id = i → ph) :
    Keeps (fun r => ∃ c, r = .infra c) (·.Heeding i ph) (tearDownInstances mode insts) := by
  induction insts with
  | nil => exact Keeps.pure _
  | cons inst rest ih =>
      refine Keeps.bind (tearDownInstance_keeps (hinsts inst List.mem_cons_self)) fun _ => ?_
      exact Keeps.bind (ih fun x hx => hinsts x (List.mem_cons_of_mem _ hx)) fun _ => Keeps.pure _

theorem expireOne_heeds (now : Instant) (sub : Subscription) :
    Heeds i False (expireOne now sub) fun _ => False := by
  refine Heeds.assignThen (fun h => nomatch h) ?_
  refine Heeds.bind (q := fun _ => False) ?_ fun _ => ?_
  · refine Heeds.bind (Heeds.execute rfl) fun client => ?_
    cases client with
    | none => exact Heeds.pure id
    | some r => exact Heeds.assignThen (fun h => nomatch h) (Heeds.pure id)
  refine Heeds.bind (Heeds.look (x := .liveInstances _)) fun insts => ?_
  refine Heeds.bind (Heeds.quiet fun ph hp => tearDownInstances_keeps fun inst hinst hid =>
    hp ⟨inst, hinst, hid⟩) fun _ => ?_
  refine Heeds.assignThen (fun h => nomatch h) ?_
  exact Heeds.bind (Heeds.stage fun h => nomatch h) fun _ => Heeds.pure False.elim

theorem expireEach_heeds (now : Instant) (subs : List Subscription) :
    Heeds i False (expireEach now subs) fun _ => False := by
  induction subs with
  | nil => exact Heeds.pure id
  | cons sub rest ih =>
      exact Heeds.bind (expireOne_heeds now sub) fun _ => Heeds.bind ih fun _ => Heeds.pure id

theorem enforceExpiry_heeds (at? : Option Instant) :
    Heeds i False (enforceExpiry at?) fun _ => False := by
  refine Heeds.bind (q := fun _ => False) ?_ fun now => Heeds.bind (Heeds.execute rfl) fun due => ?_
  · cases at? with
    | none => exact Heeds.await (fun _ => nofun) fun _ _ => nofun
    | some now => exact Heeds.pure id
  refine Heeds.bind (Heeds.execute rfl) fun _ => Heeds.bind (expireEach_heeds now due) fun _ => ?_
  refine Heeds.bind (q := fun _ => False) ?_ fun _ => Heeds.pure id
  exact Heeds.ite (fun _ => Heeds.commit) fun _ => Heeds.pure id

theorem expireNow_heeds (id : SubscriptionId) : Heeds i False (expireNow id) fun _ => False := by
  refine Heeds.bind (Heeds.execute rfl) fun sub => ?_
  cases sub with
  | none => exact Heeds.raise
  | some sub =>
      refine Heeds.bind (Heeds.await (fun _ => nofun) fun _ _ => nofun) fun now => ?_
      refine Heeds.assignThen (fun h => nomatch h) (Heeds.ite (fun _ => ?_) fun _ =>
        Heeds.pure False.elim)
      refine Heeds.bind Heeds.commit fun _ => Heeds.bind (enforceExpiry_heeds none) fun _ => ?_
      exact Heeds.bind (Heeds.execute rfl) fun row => (Heeds.refreshed row).forget

/-! ## Calls that revive nothing -/

/-- No commit of the call revives an instance. -/
def Req.harmless (i : InstanceId) : Req → Prop
  | .commit ws => ∀ w ∈ ws, w.revives i = false
  | _ => True

theorem harmless_follows {α : Type} {F : α → Prop → Prop} (hF : ∀ a ph, F a ph)
    {p : Prog Req Req.Ans α} (h : p.fold (only (Req.harmless i)) fun _ => True) (ph : Prop) :
    p.Follows (heeding i) F ph := by
  refine Prog.step_mono (fun a ph _ => hF a ph)
    (Prog.step_of_allowed (I := fun _ => True) ?_ h trivial)
  intro ph r _ hr
  refine ⟨?_, fun _ => trivial⟩
  rintro ws rfl ⟨w, hw, hrev⟩
  rw [hr w hw] at hrev
  cases hrev

/-- Writes to other tables revive nothing. -/
theorem harmless_of_within {α : Type} {t : Coro α} (h : Within .ips t) :
    (t {}).fold (only (Req.harmless i)) fun _ => True := by
  refine Prog.only_mono (fun r hr => ?_) (fun _ _ => trivial) (h {} (.inr fun _ h => nomatch h))
  cases r with
  | commit ws =>
      intro w hw
      have harea := hr w hw
      cases w with
      | setInstance j f => cases harea
      | _ => rfl
  | _ => trivial

end Calls

end BrokerBridge
