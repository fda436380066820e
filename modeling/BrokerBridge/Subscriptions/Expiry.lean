import BrokerBridge.Subscriptions.Teardown
import BrokerBridge.Code.System

/-!
# Whom the expiry teardown punishes

The trading gate says that any covering subscription wins. The teardown does not
ask it: it looks at the due row alone, so a client that holds another covering
subscription is suspended all the same, and its instances are torn down.

`sparesCovered_iff` says exactly when that cannot happen.
-/

namespace BrokerBridge

open Conc

section Run

variable {A : Env → Prop}

/-- `enforce_expiry` alone: it ends with one commit, or it raises and has
committed nothing. -/
theorem enforceExpiry_solo (at? : Option Instant) (w : World) :
    Task.wp (alone handle A) (enforceExpiry at?)
      (fun _ _ w' => Teardown A w.db (at?.getD w.clock) (w.db.due (at?.getD w.clock)) w'.db)
      (fun _ _ w' => Faulty A ∧ w'.db = w.db) {} w := by
  have hnow : ∀ now, Task.wp (alone handle A)
      (do
        let due ← execute (.dueSubscriptions now)
        getProvider
        let tornDown ← expireEach now due
        commitIf !due.isEmpty
        pure (due.length, tornDown))
      (fun _ _ w' => Teardown A w.db now (w.db.due now) w'.db)
      (fun _ _ w' => Faulty A ∧ w'.db = w.db) {} w := by
    intro now
    have hsees := Session.sees_new w
    rw [Task.wp_bind]
    refine solo_execute hsees (fun e _ => ?_) fun hA _ => ⟨hA, rfl⟩
    rw [Task.wp_bind]
    refine solo_execute hsees (fun _ _ => ?_) fun hA _ => ⟨hA, rfl⟩
    rw [Task.wp_bind]
    have hstart : Teardown A w.db now [] w.db :=
      ⟨Db.tornDown_refl _ _, fun _ _ h => nomatch h⟩
    refine Task.wp_alone_mono
      (expireEach_draft (w.db.due now) (fun _ => id) {} w w.db hsees rfl hstart) ?_ ?_
    · rintro n s' w' ⟨hdb, _, d', hs', hd'⟩
      rw [List.nil_append] at hd'
      rw [Task.wp_bind, commitIf, Task.wp_ite]
      split
      · exact solo_commit hs' hd' fun hA _ => ⟨hA, hdb⟩
      · next hempty =>
          have hnil : w.db.due now = [] := by simpa [Db.due, Query.eval] using hempty
          show Teardown A w.db now (w.db.due now) w'.db
          rw [hdb, hnil]
          exact hstart
    · rintro e s' w' ⟨hdb, _, ⟨hA, _⟩ | ⟨_, _, hA⟩⟩
      · exact ⟨hA, hdb⟩
      · exact ⟨hA, hdb⟩
  unfold enforceExpiry
  rw [Task.wp_bind]
  cases at? with
  | none => exact fun e _ => hnow w.clock
  | some now => exact hnow now

end Run

/-! ## Who is punished -/

/-- What the teardown takes from an instance: it runs no more, or will not renew. -/
def Instance.stopped (r r' : Instance) : Prop :=
  r'.status ≠ r.status ∧ (r'.status = .suspended ∨ r'.status = .destroyed) ∨
    r.autoRenew = true ∧ r'.autoRenew = false

/-- Between `d` and `d'` the client was suspended, or an instance of it stopped. -/
def Db.Punished (d d' : Db) (c : ClientId) : Prop :=
  (∃ r r', d.clients.get? c = some r ∧ d'.clients.get? c = some r' ∧
    r.status = .active ∧ r'.status = .suspended) ∨
  ∃ i r r', d.instances.get? i = some r ∧ d'.instances.get? i = some r' ∧
    r.clientId = c ∧ r.stopped r'

/-- There is something to take from the instance. -/
def Instance.stoppable (destroying : Prop) (r : Instance) : Prop :=
  r.status = .running ∨ r.status = .pending ∨
    r.status = .suspended ∧ (r.autoRenew = true ∨ destroying)

/-- There is something to take from the client. -/
def Db.Exposed (d : Db) (now : Instant) (c : ClientId) : Prop :=
  (∃ r, d.clients.get? c = some r ∧ r.status = .active) ∨
  ∃ i r, d.instances.get? i = some r ∧ r.clientId = c ∧ r.stoppable (d.Destroying now c)

section Exact

variable {d d' : Db} {now : Instant} {c : ClientId}

theorem Db.TornInstance.stoppable {r r' : Instance} (h : d.TornInstance now r r')
    (hs : r.stopped r') : r.stoppable (d.Destroying now r.clientId) := by
  obtain ⟨_, rfl | ⟨hlive, _, hstatus⟩⟩ := h
  · rcases hs with ⟨hne, _⟩ | ⟨h1, h2⟩
    · exact absurd rfl hne
    · exact nomatch h1.symm.trans h2
  · cases hr : r.status with
    | running => exact .inl hr
    | pending => exact .inr (.inl hr)
    | suspended =>
        refine .inr (.inr ⟨hr, ?_⟩)
        rcases hs with ⟨hne, _⟩ | ⟨h1, _⟩
        · rcases hstatus with h | h | ⟨_, h⟩
          · exact absurd h hne
          · exact absurd (h.trans hr.symm) hne
          · exact .inr h
        · exact .inl h1
    | destroyed => rw [Instance.live, hr] at hlive; cases hlive
    | other => rw [Instance.live, hr] at hlive; cases hlive

theorem Db.TornInstance.destroyed {r r' : Instance} (h : d.TornInstance now r r')
    (hl : r.live) (hl' : ¬ r'.live) : r'.status = .destroyed := by
  have hcongr : ∀ {x y : Instance}, x.status = y.status → x.live = y.live := fun h => by
    simp only [Instance.live, h]
  obtain ⟨_, rfl | ⟨_, _, hs | hs | ⟨hs, _⟩⟩⟩ := h
  · exact absurd hl hl'
  · exact absurd (hcongr hs ▸ hl) hl'
  · rw [Instance.live, hs] at hl'
    exact absurd rfl hl'
  · exact hs

theorem Instance.stoppable.live {r : Instance} {p : Prop} (h : r.stoppable p) : r.live := by
  rcases h with h | h | ⟨h, _⟩ <;> rw [Instance.live, h] <;> rfl

/-- Only a client with a due subscription is punished, for what it has. -/
theorem Db.TornDown.exposed (h : d.TornDown now d') (hp : d.Punished d' c) :
    d.Expiring now c ∧ d.Exposed now c := by
  rcases hp with ⟨r, r', hr, hr', hactive, hsus⟩ | ⟨i, r, r', hr, hr', rfl, hstop⟩
  · obtain ⟨r0, hr0, htorn⟩ := h.clients hr'
    cases hr.symm.trans hr0
    rcases htorn with rfl | ⟨_, hexp⟩
    · exact nomatch hactive.symm.trans hsus
    · exact ⟨hexp, .inl ⟨r, hr, hactive⟩⟩
  · obtain ⟨r0, hr0, htorn⟩ := h.instances hr'
    cases hr.symm.trans hr0
    refine ⟨?_, .inr ⟨i, r, hr, rfl, htorn.stoppable hstop⟩⟩
    obtain ⟨_, rfl | ⟨_, hexp, _⟩⟩ := htorn
    · rcases hstop with ⟨hne, _⟩ | ⟨h1, h2⟩
      · exact absurd rfl hne
      · exact nomatch h1.symm.trans h2
    · exact hexp

/-- When nothing fails, a client with a due subscription and something to take
is punished. -/
theorem Db.Exposed.punished (h : d.TornDown now d') {sub : Subscription}
    (hsub : sub ∈ d.due now) (hswept : ∀ sub ∈ d.due now, Db.Swept sub d')
    (hexp : d.Exposed now sub.clientId) : d.Punished d' sub.clientId := by
  rcases hexp with ⟨r, hr, hactive⟩ | ⟨i, r, hr, hc, hstop⟩
  · have hsome := h.client_kept sub.clientId
    rw [hr] at hsome
    obtain ⟨r', hr'⟩ := Option.isSome_iff_exists.mp hsome
    exact .inl ⟨r, r', hr, hr', hactive, (hswept sub hsub).client hr'⟩
  · have hsome := h.instance_kept i
    rw [hr] at hsome
    obtain ⟨r', hr'⟩ := Option.isSome_iff_exists.mp hsome
    obtain ⟨r0, hr0, htorn⟩ := h.instances hr'
    cases hr.symm.trans hr0
    have hc' := htorn.1
    refine .inr ⟨i, r, r', hr, hr', hc, ?_⟩
    have hdone := (hswept sub hsub).instances hr' (hc'.trans hc)
    by_cases hl : r'.live
    · obtain ⟨hsus, hrenew, _⟩ := hdone hl
      rcases hstop with h | h | ⟨_, h | ⟨sub', hsub', hcl, hm⟩⟩
      · exact .inl ⟨by rw [hsus, h]; exact nofun, .inl hsus⟩
      · exact .inl ⟨by rw [hsus, h]; exact nofun, .inl hsus⟩
      · exact .inr ⟨h, hrenew⟩
      · have hc'' : r'.clientId = sub'.clientId := (hc'.trans hc).trans hcl.symm
        exact absurd hm ((hswept sub' hsub').instances hr' hc'' hl).2.2
    · have hdead := htorn.destroyed hstop.live hl
      refine .inl ⟨fun he => ?_, .inr hdead⟩
      rw [hdead] at he
      rcases hstop with h | h | ⟨h, _⟩ <;> exact nomatch he.trans h

end Exact

/-! ## The coverage of a client -/

/-- `enforce_expiry(now)`, alone in world `w` and whatever fails, punishes a
client only if none of its due subscriptions has another one beside it that
covers `now`. -/
def SparesCovered (s : Settings) (now : Instant) (w : World) : Prop :=
  ∀ env c, w.db.Punished ((Call.enforceExpiry (some now)).runAlone s env w).2.db c →
    ∀ sub ∈ w.db.due now, sub.clientId = c →
      ∀ other ∈ w.db.subscriptions.rows, other.clientId = c → other.id ≠ sub.id →
        other.covering now = false

/-- A client with something to take holds a due subscription and another one
that covers `now`. -/
def CoveredAndDue (now : Instant) (d : Db) : Prop :=
  ∃ sub ∈ d.due now, ∃ other ∈ d.subscriptions.rows, other.clientId = sub.clientId ∧
    other.id ≠ sub.id ∧ other.covering now = true ∧ d.Exposed now sub.clientId

/-- The teardown spares covered clients exactly when there is none to punish. -/
theorem sparesCovered_iff (s : Settings) (now : Instant) (w : World) :
    SparesCovered s now w ↔ ¬ CoveredAndDue now w.db := by
  constructor
  · rintro h ⟨sub, hsub, other, hother, hc, hne, hcov, hexp⟩
    have hrun := Coro.program_solo (fun x => Reply.expired x.1 x.2)
      (enforceExpiry_solo (A := Faultless) (some now) w) (fun _ => {}) fun _ => rfl
    obtain ⟨_, _, htear, _⟩ | ⟨_, _, ⟨hA, _⟩, _⟩ := hrun
    · have hpun := Db.Exposed.punished htear.1 hsub (htear.2 not_faulty_faultless) hexp
      have hno := h (fun _ => {}) sub.clientId hpun sub hsub rfl other hother hc hne
      exact nomatch hno.symm.trans hcov
    · exact absurd hA not_faulty_faultless
  · intro h env c hpun sub hsub hc other hother hoc hne
    have hrun := Coro.program_solo (fun x => Reply.expired x.1 x.2)
      (enforceExpiry_solo (A := fun _ => True) (some now) w) env fun _ => trivial
    have htorn : w.db.TornDown now ((Call.enforceExpiry (some now)).runAlone s env w).2.db := by
      obtain ⟨_, _, htear, _⟩ | ⟨_, _, ⟨_, hdb⟩, _⟩ := hrun
      · exact htear.1
      · show w.db.TornDown now ((Coro.program _ _).solo handle env w).2.db
        rw [hdb]
        exact Db.tornDown_refl _ _
    obtain ⟨_, hexp⟩ := htorn.exposed hpun
    by_contra hcov
    rw [Bool.not_eq_false] at hcov
    exact h ⟨sub, hsub, other, hother, hoc.trans hc.symm, hne, hcov, hc ▸ hexp⟩

/-- A client with one subscription that has just ended and a renewal. -/
def renewed : World where
  clock := 10
  db :=
    { clients := .of [{ id := 1 }]
      subscriptions := .of
        [{ id := 2, clientId := 1, status := .active, startsAt := 0, endsAt := 10
           teardownMode := .suspend },
         { id := 3, clientId := 1, status := .active, startsAt := 5, endsAt := 20
           teardownMode := .suspend }] }

/-- The client is suspended although the renewal covers it. -/
theorem not_sparesCovered : ¬ ∀ now w, SparesCovered {} now w := by
  intro h
  have hactive : renewed.db.Exposed 10 1 := .inl ⟨_, rfl, rfl⟩
  exact (sparesCovered_iff {} 10 renewed).mp (h 10 renewed)
    ⟨_, .head _, _, .tail _ (.head _), rfl, by decide, by decide, hactive⟩

end BrokerBridge
