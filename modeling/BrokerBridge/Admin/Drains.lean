import BrokerBridge.Admin.Parts
import BrokerBridge.Conc.Annotation

/-!
# Drains that overlap

A drain selects pending rows, publishes them one by one, and marks them all in one
commit at the end. The rows are not locked, so another drain may select them in the
meantime, and publish them again.

A drain has a row in hand from its selection to its commit. In every run in which no
drain selects a row that another has in hand, and none is stopped between a
publication and its commit, every row is published at most once, and a row that was
published never gets the status error. The trace tells who has a row in hand, so the
assertions can say that the rows of a drain are its own.
-/

namespace BrokerBridge.Admin

open Conc

/-! ## Rows in hand -/

/-- The request, made in world `w`, selects the row. -/
def Req.selects (x : OutboxId) (w : World) : Req → Bool
  | .query ws (.pendingOutbox limit) =>
      (((Query.pendingOutbox limit).eval (w.db.view w.clock ws)).map (·.id)).contains x
  | _ => false

def Req.isCommit : Req → Bool
  | .commit _ => true
  | _ => false

/-- The thread that has the row in hand: it has selected it, and not committed since. -/
def inHand (x : OutboxId) : List (Nat × Req × World) → Option Nat
  | [] => none
  | (i, r, w) :: tr =>
      if r.selects x w then some i
      else if r.isCommit ∧ inHand x tr = some i then none
      else inHand x tr

/-- No drain selects a row that another one, still running, has in hand, and none is
stopped between a publication and its commit. -/
def Undisturbed (s : Pools) : Happening → Prop
  | .crash _ => False
  | .step i e =>
      (∀ r x j q, s.Asks i r → r.selects x s.world → inHand x s.trace = some j →
        s.prog? j = some q → ∀ r' k, q ≠ .call r' k) ∧
      (∀ p, s.Asks i (.publish p) → e.fault ≠ some .cancelled) ∧
      (∀ ws x f, s.Asks i (.commit ws) → Write.setOutbox x f ∈ ws → e.fault = none)
  | _ => True

/-! ## The protocol -/

/-- Where a call is: before its selection, with rows in hand (still to publish, sent
and failed), or past its drain. -/
inductive Draining where
  | out
  | hand (todo sent failed : List OutboxId)
  | done

/-- The marks of a drain that has sent and failed these rows. -/
structure Marks (sent failed : List OutboxId) (ws : List Write) : Prop where
  only : ∀ w ∈ ws, ∃ x f, w = .setOutbox x f ∧ (x ∈ sent ∨ x ∈ failed) ∧
    ∀ st, f = .status st → st = .sent ∧ x ∈ sent ∨ st = .error ∧ x ∈ failed
  sent : ∀ x ∈ sent, Write.setOutbox x (.status .sent) ∈ ws

def draining : Protocol Req Req.Ans Draining where
  allows
    | .out, r => r.within (· ≠ .marks) ∨ ∃ limit, r = .query [] (.pendingOutbox limit)
    | .hand _ sent failed, .query [] (.activeRows _) => sent = [] ∧ failed = []
    | .hand _ sent failed, .connect => sent = [] ∧ failed = []
    | .hand _ _ _, .now => True
    | .hand todo _ _, .publish p => ∃ rest, todo = p.eventId :: rest
    | .hand todo sent failed, .commit ws => todo = [] ∧ Marks sent failed ws
    | _, _ => False
  advance
    | .out, .query _ (.pendingOutbox _), .ok rows =>
        if rows.isEmpty then .done else .hand (rows.map (·.id)) [] []
    | .out, .query _ (.pendingOutbox _), .error _ => .done
    | .hand _ _ _, .query _ _, .error _ => .done
    | .hand _ _ _, .connect, .error _ => .done
    | .hand todo sent failed, .publish p, .ok _ => .hand todo.tail (p.eventId :: sent) failed
    | .hand todo sent failed, .publish p, .error e =>
        if e.isException then .hand todo.tail sent (p.eventId :: failed) else .done
    | .hand _ _ _, .commit _, _ => .done
    | ph, _, _ => ph

/-- A finished call has no rows in hand. -/
def Draining.over : Draining → Prop
  | .hand _ _ _ => False
  | _ => True

theorem draining_quiet {r : Req} (h : r.within (· ≠ .marks)) :
    draining.allows .out r ∧ ∀ x, draining.advance .out r x = .out := by
  refine ⟨.inl h, fun x => ?_⟩
  cases r with
  | query ws q =>
      cases q with
      | pendingOutbox limit => exact absurd rfl h
      | _ => rfl
  | _ => rfl

/-! ## The calls follow it -/

section Follows

variable {A : Part → Prop} {α : Type} {t : Job α} {ws : List Write}

/-- A stretch that leaves the marks alone. -/
theorem wp_unmarked {Q : α → List Write → Draining → Prop} {E : Exn → List Write → Draining → Prop}
    (hA : ∀ p, A p → p ≠ .marks) (ht : Within A t) (hws : ∀ w ∈ ws, A w.part)
    (hQ : ∀ a ws', (∀ w ∈ ws', A w.part) → Q a ws' .out) (hE : ∀ e ws', E e ws' .out) :
    Task.wp draining.step t Q E ws .out :=
  Task.wp_quiet (fun _ hr => draining_quiet (Req.within_mono hA hr))
    (Task.wp_only_mono (fun _ => id) (ht ws hws) hQ fun e ws' _ => hE e ws')

theorem Marks.add_sent {sent failed : List OutboxId} (h : Marks sent failed ws) (x : OutboxId)
    (t : Option Instant) :
    Marks (x :: sent) failed
      (ws ++ [.setOutbox x (.status .sent)] ++ [.setOutbox x (.sentAt t)]) := by
  constructor
  · intro w hw
    simp only [List.mem_append, List.mem_singleton] at hw
    rcases hw with (hw | rfl) | rfl
    · obtain ⟨y, f, rfl, hy, hf⟩ := h.only w hw
      refine ⟨y, f, rfl, hy.imp_left (List.mem_cons_of_mem _), fun st hst => ?_⟩
      exact (hf st hst).imp_left fun hs => ⟨hs.1, List.mem_cons_of_mem _ hs.2⟩
    · refine ⟨x, _, rfl, .inl List.mem_cons_self, fun st hst => ?_⟩
      cases hst
      exact .inl ⟨rfl, List.mem_cons_self⟩
    · exact ⟨x, _, rfl, .inl List.mem_cons_self, fun st hst => nomatch hst⟩
  · intro y hy
    simp only [List.mem_append, List.mem_singleton]
    rcases List.mem_cons.mp hy with rfl | hy
    · exact .inl (.inr rfl)
    · exact .inl (.inl (h.sent y hy))

theorem Marks.add_failed {sent failed : List OutboxId} (h : Marks sent failed ws) (x : OutboxId)
    (t : Option String) :
    Marks sent (x :: failed)
      (ws ++ [.setOutbox x (.status .error)] ++ [.setOutbox x (.error t)]) := by
  constructor
  · intro w hw
    simp only [List.mem_append, List.mem_singleton] at hw
    rcases hw with (hw | rfl) | rfl
    · obtain ⟨y, f, rfl, hy, hf⟩ := h.only w hw
      refine ⟨y, f, rfl, hy.imp_right (List.mem_cons_of_mem _), fun st hst => ?_⟩
      exact (hf st hst).imp_right fun hs => ⟨hs.1, List.mem_cons_of_mem _ hs.2⟩
    · refine ⟨x, _, rfl, .inr List.mem_cons_self, fun st hst => ?_⟩
      cases hst
      exact .inr ⟨rfl, List.mem_cons_self⟩
    · exact ⟨x, _, rfl, .inr List.mem_cons_self, fun st hst => nomatch hst⟩
  · intro y hy
    simp only [List.mem_append, List.mem_singleton]
    exact .inl (.inl (h.sent y hy))

theorem publishOne_follows (bus : EventBus) (producer : String) (row : OutboxRow)
    {rest sent failed : List OutboxId} (hws : Marks sent failed ws)
    {Q : Bool → List Write → Draining → Prop} {E : Exn → List Write → Draining → Prop}
    (hsent : ∀ ws', Marks (row.id :: sent) failed ws' →
      Q true ws' (.hand rest (row.id :: sent) failed))
    (hfailed : ∀ ws', Marks sent (row.id :: failed) ws' →
      Q false ws' (.hand rest sent (row.id :: failed)))
    (hstop : ∀ e ws', E e ws' .done) :
    Task.wp draining.step (publishOne bus producer row) Q E ws
      (.hand (row.id :: rest) sent failed) := by
  unfold publishOne
  rw [Task.wp_catching, Task.wp_bind, Task.wp_ask]
  refine ⟨⟨rest, rfl⟩, fun x => ?_⟩
  beta_reduce
  rw [Task.wp_bind, wp_ofAnswer]
  cases x with
  | ok _ =>
      rw [cases_ok, Task.wp_bind, wp_setOutbox, Task.wp_bind, wp_now]
      refine ⟨trivial, fun t => ?_⟩
      beta_reduce
      rw [Task.wp_bind, wp_setOutbox]
      exact hsent _ (hws.add_sent row.id (some t))
  | error e =>
      rw [cases_error, Task.wp_ite]
      split
      · next he =>
          have hnext : draining.advance (.hand (row.id :: rest) sent failed)
              (.publish (publication bus producer row)) (.error e) =
                .hand rest sent (row.id :: failed) := if_pos he
          rw [hnext, Task.wp_bind, wp_setOutbox, Task.wp_bind, wp_setOutbox]
          exact hfailed _ (hws.add_failed row.id _)
      · next he =>
          have hnext : draining.advance (.hand (row.id :: rest) sent failed)
              (.publish (publication bus producer row)) (.error e) = .done := if_neg he
          rw [hnext]
          exact hstop _ _

theorem publishEach_follows (bus : EventBus) (producer : String) (rows : List OutboxRow)
    (stats : DrainStats) {sent failed : List OutboxId} (hws : Marks sent failed ws)
    {Q : DrainStats → List Write → Draining → Prop} {E : Exn → List Write → Draining → Prop}
    (hQ : ∀ stats ws' sent' failed', Marks sent' failed' ws' → Q stats ws' (.hand [] sent' failed'))
    (hstop : ∀ e ws', E e ws' .done) :
    Task.wp draining.step (publishEach bus producer rows stats) Q E ws
      (.hand (rows.map (·.id)) sent failed) := by
  induction rows generalizing stats ws sent failed with
  | nil => exact hQ _ _ _ _ hws
  | cons row rows ih =>
      unfold publishEach
      rw [Task.wp_bind, List.map_cons]
      exact publishOne_follows bus producer row hws (fun ws' h => ih _ h)
        (fun ws' h => ih _ h) hstop

theorem drainOutbox_follows (limit : Nat) (producer : String)
    {Q : DrainStats → List Write → Draining → Prop} {E : Exn → List Write → Draining → Prop}
    (hQ : ∀ stats ws', Q stats ws' .done) (hE : ∀ e ws', E e ws' .done) :
    Task.wp draining.step (drainOutbox limit producer) Q E [] .out := by
  unfold drainOutbox
  rw [Task.wp_bind, wp_execute]
  refine ⟨.inr ⟨limit, rfl⟩, fun x => ?_⟩
  cases x with
  | error e => exact hE _ _
  | ok rows =>
      rw [cases_ok, Task.wp_ite]
      split
      · next hempty =>
          have hnext : draining.advance .out (.query [] (.pendingOutbox limit))
            (.ok rows) = .done :=
            if_pos hempty
          rw [hnext]
          exact hQ _ _
      · next hsome =>
          have hnext : draining.advance .out (.query [] (.pendingOutbox limit)) (.ok rows) =
              .hand (rows.map (·.id)) [] [] := if_neg hsome
          rw [hnext, Task.wp_bind]
          unfold getEventProvider
          rw [Task.wp_bind, wp_execute]
          refine ⟨⟨rfl, rfl⟩, fun y => ?_⟩
          cases y with
          | error e => exact hE _ _
          | ok _ =>
              refine ⟨⟨rfl, rfl⟩, fun y => ?_⟩
              cases y with
              | error e => exact hE _ _
              | ok bus =>
                  have hmarks : Marks [] [] [] :=
                    ⟨List.forall_mem_nil _, List.forall_mem_nil _⟩
                  show Task.wp draining.step (publishEach bus producer rows {} >>= _) Q E []
                    (.hand (rows.map (·.id)) [] [])
                  rw [Task.wp_bind]
                  refine publishEach_follows bus producer rows {} hmarks
                    (fun stats ws' sent failed h => ?_) hE
                  rw [Task.wp_bind, wp_commit]
                  refine ⟨⟨rfl, h⟩, fun y => ?_⟩
                  cases y with
                  | error e => exact hE _ _
                  | ok _ => exact hQ _ _

theorem programOf_drains (s : ConsoleSettings) (c : Call) :
    (programOf s c).Follows draining (fun _ ph => ph.over) .out := by
  have hprogram : ∀ {α : Type} {t : Job α} {reply : α → Reply},
      Task.wp draining.step t (fun _ _ ph => ph.over) (fun _ _ ph => ph.over) [] .out →
      (t.program reply).Follows draining (fun _ ph => ph.over) .out := by
    intro α t reply h
    show (Prog.bind (t []) _).fold draining.step _ .out
    rw [Prog.fold_bind]
    refine Prog.step_mono ?_ h
    rintro ⟨a | a, _⟩ _ h <;> exact h
  have hquiet : ∀ {α : Type} {t : Job α}, Within (· ≠ .marks) t →
      Task.wp draining.step t (fun _ _ ph => ph.over) (fun _ _ ph => ph.over) [] .out := by
    intro α t ht
    exact wp_unmarked (fun _ => id) ht (List.forall_mem_nil _) (fun _ _ _ => trivial)
      fun _ _ => trivial
  cases c with
  | activate kind body =>
      exact hprogram (hquiet (activateProvider_within nofun nofun s kind body))
  | putConfig key value user =>
      exact hprogram (hquiet (putConfig_within nofun nofun key value user))
  | drain limit =>
      exact hprogram (drainOutbox_follows limit _ (fun _ _ => trivial) fun _ _ => trivial)
  | publisherRound last =>
      refine hprogram ?_
      unfold publisherRound
      rw [Task.wp_catching]
      have hcaught : ∀ (e : Exn) (ws : List Write) (ph : Draining), ph.over →
          Task.wp draining.step
            (if e.isException then (pure {} : Job DrainStats) else Task.raise e)
            (fun _ _ ph => ph.over) (fun _ _ ph => ph.over) ws ph := by
        intro e ws ph hph
        rw [Task.wp_ite]
        split <;> exact hph
      have hdrain : ∀ ws : List Write, (∀ w ∈ ws, False) →
          Task.wp draining.step (drainOutbox 50 "brokerbridge-worker") (fun _ _ ph => ph.over)
            (fun e ws ph => Task.wp draining.step
              (if e.isException then (pure {} : Job DrainStats) else Task.raise e)
              (fun _ _ ph => ph.over) (fun _ _ ph => ph.over) ws ph) ws .out := by
        intro ws hws
        have hnil : ws = [] := List.eq_nil_iff_forall_not_mem.mpr hws
        subst hnil
        exact drainOutbox_follows 50 _ (fun _ _ => trivial) fun e ws => hcaught e ws .done trivial
      rw [Task.wp_bind]
      refine wp_unmarked (A := fun _ => False) (fun _ h => h.elim) (Within.execute fun _ => trivial)
        (List.forall_mem_nil _) (fun rows ws hws => ?_) fun e ws => hcaught e ws .out trivial
      rw [Task.wp_ite]
      split
      · rw [Task.wp_bind]
        exact wp_unmarked (A := fun _ => False) (fun _ h => h.elim) getEventProvider_within hws
          (fun _ ws hws => hdrain ws hws) fun e ws => hcaught e ws .out trivial
      · exact hdrain ws hws
  | emitSimEvent t p =>
      refine hprogram ?_
      unfold emitSimEvent
      rw [Task.wp_bind]
      refine wp_unmarked (A := (· = .events)) (fun p h => h ▸ nofun) (Within.enqueueOutbox rfl)
        (List.forall_mem_nil _) (fun _ ws hws => ?_) fun _ _ => trivial
      rw [Task.wp_bind, wp_commit]
      refine ⟨.inl fun w hw => (hws w hw) ▸ nofun, fun x => ?_⟩
      cases x with
      | error e => trivial
      | ok _ =>
          exact drainOutbox_follows (Q := fun _ _ ph => ph.over) (E := fun _ _ ph => ph.over) 20 _
            (fun _ _ => trivial) fun _ _ => trivial

end Follows

/-! ## Statuses -/

def Tables.statusOf (d : Tables) (x : OutboxId) : Option OutboxStatus :=
  (d.outbox.get? x).map (·.status)

/-- The ids of the rows that were published, newest first. -/
def World.publishedIds (w : World) : List OutboxId := w.published.map (·.eventId)

theorem mem_selected {limit : Nat} {x : OutboxId} {d : Tables}
    (h : x ∈ ((Query.pendingOutbox limit).eval d).map (·.id)) : d.statusOf x = some .pending := by
  obtain ⟨row, hrow, rfl⟩ := List.mem_map.mp h
  have hmem := List.mem_of_mem_take hrow
  rw [List.mem_insertionSort] at hmem
  obtain ⟨hrows, hstatus⟩ := List.mem_filter.mp hmem
  have hget : d.outbox.get? row.id = some row := Table.get?_of_mem hrows
  rw [Tables.statusOf, hget, Option.map_some, of_decide_eq_true hstatus]

theorem nodup_selected (limit : Nat) (d : Tables) :
    (((Query.pendingOutbox limit).eval d).map (·.id)).Nodup := by
  have hall : (d.outbox.rows.map (·.id)).Nodup := d.outbox.nodup
  have hsorted : (((d.outbox.rows.filter fun r => r.status = .pending).insertionSort
      fun a b => a.createdAt ≤ b.createdAt).map (·.id)).Nodup := by
    have hperm := List.perm_insertionSort (fun a b : OutboxRow => a.createdAt ≤ b.createdAt)
      (d.outbox.rows.filter fun r => r.status = .pending)
    exact (hperm.map (·.id)).nodup_iff.mpr (hall.sublist (List.filter_sublist.map _))
  exact hsorted.sublist ((List.take_sublist _ _).map _)

section Writes

variable {now : Instant} {d d' : Tables} {ws : List Write} {x : OutboxId}

/-- Writes of the other parts leave the status of a row alone. -/
theorem statusOf_of_unmarked (hws : ∀ w ∈ ws, w.part ≠ .marks)
    (h : d.write? now ws = some d') {st : OutboxStatus} (hst : d.statusOf x = some st) :
    d'.statusOf x = some st := by
  induction ws generalizing d with
  | nil =>
      cases h
      exact hst
  | cons w ws ih =>
      obtain ⟨_, h⟩ := Tables.write?_cons.mp h
      refine ih (fun w' hw' => hws w' (List.mem_cons_of_mem _ hw')) h ?_
      have hw := hws w List.mem_cons_self
      cases w with
      | setOutbox => exact absurd rfl hw
      | addOutbox row =>
          obtain ⟨r, hr, hrst⟩ := Option.map_eq_some_iff.mp hst
          have hget : (d.outbox.insert { row with createdAt := now }).get? x = some r :=
            Table.get?_insert_of_some hr
          show ((d.outbox.insert { row with createdAt := now }).get? x).map (·.status) = some st
          rw [hget]
          exact congrArg some hrst
      | _ => exact hst

/-- Marks of other rows do too. -/
theorem statusOf_of_marks_ne (hws : ∀ w ∈ ws, ∃ y f, w = .setOutbox y f ∧ y ≠ x)
    (h : d.write? now ws = some d') : d'.statusOf x = d.statusOf x := by
  induction ws generalizing d with
  | nil =>
      cases h
      rfl
  | cons w ws ih =>
      obtain ⟨_, h⟩ := Tables.write?_cons.mp h
      refine (ih (fun w' hw' => hws w' (List.mem_cons_of_mem _ hw')) h).trans ?_
      obtain ⟨y, f, rfl, hy⟩ := hws w List.mem_cons_self
      show ((d.outbox.update y f).get? x).map (·.status) = (d.outbox.get? x).map (·.status)
      rw [Table.get?_update_of_ne _ (Ne.symm hy)]

/-- What setting a field makes of the status. -/
def OutboxRowField.toStatus : OutboxRowField → OutboxStatus → OutboxStatus
  | .status st, _ => st
  | _, st => st

theorem statusOf_setOutbox (y : OutboxId) (f : OutboxRowField) :
    ((Write.setOutbox y f).apply now d).statusOf x =
      if x = y then (d.statusOf x).map f.toStatus else d.statusOf x := by
  show ((d.outbox.update y f).get? x).map (·.status) = _
  rw [Table.get?_update]
  split
  · next heq =>
      rw [heq, Tables.statusOf, Option.map_map, Option.map_map]
      refine congrArg (Option.map · _) (funext fun r => ?_)
      cases f <;> rfl
  · rfl

/-- A row that is marked sent, and not otherwise, ends sent. -/
theorem statusOf_of_sent
    (hws : ∀ w ∈ ws, ∃ y f, w = .setOutbox y f ∧ (y = x → ∀ st, f = .status st → st = .sent))
    {st : OutboxStatus} (hrow : d.statusOf x = some st)
    (hsent : Write.setOutbox x (.status .sent) ∈ ws ∨ st = .sent)
    (h : d.write? now ws = some d') : d'.statusOf x = some .sent := by
  induction ws generalizing d st with
  | nil =>
      cases h
      rcases hsent with hsent | rfl
      · cases hsent
      · exact hrow
  | cons w ws ih =>
      obtain ⟨_, h⟩ := Tables.write?_cons.mp h
      obtain ⟨y, f, rfl, hy⟩ := hws _ List.mem_cons_self
      have hws' := fun w' hw' => hws w' (List.mem_cons_of_mem _ hw')
      have hupdate := @statusOf_setOutbox now d x y f
      rw [hrow] at hupdate
      by_cases hxy : x = y
      · rw [if_pos hxy] at hupdate
        refine ih hws' hupdate ?_ h
        cases f with
        | status st' => exact .inr (hy hxy.symm st' rfl)
        | _ =>
            rcases hsent with hsent | hsent
            · rcases List.mem_cons.mp hsent with heq | hsent
              · cases heq
              · exact .inl hsent
            · exact .inr hsent
      · rw [if_neg hxy] at hupdate
        refine ih hws' hupdate ?_ h
        rcases hsent with hsent | hsent
        · rcases List.mem_cons.mp hsent with heq | hsent
          · cases heq
            exact absurd rfl hxy
          · exact .inl hsent
        · exact .inr hsent

/-- Marks never run into a constraint. -/
theorem write?_of_marks (hws : ∀ w ∈ ws, ∃ y f, w = .setOutbox y f) :
    ∃ d', d.write? now ws = some d' := by
  induction ws generalizing d with
  | nil => exact ⟨d, rfl⟩
  | cons w ws ih =>
      obtain ⟨y, f, rfl⟩ := hws w List.mem_cons_self
      obtain ⟨d', hd'⟩ := ih (d := (Write.setOutbox y f).apply now d)
        fun w' hw' => hws w' (List.mem_cons_of_mem _ hw')
      exact ⟨d', Tables.write?_cons.mpr ⟨rfl, hd'⟩⟩

end Writes

/-! ## Who has a row in hand -/

section InHand

variable {x : OutboxId} {i j : Nat} {r : Req} {w : World} {tr : List (Nat × Req × World)}

theorem inHand_of_selects (h : r.selects x w = true) : inHand x ((i, r, w) :: tr) = some i :=
  if_pos h

theorem inHand_of_quiet (hs : r.selects x w = false) (hc : r.isCommit = false) :
    inHand x ((i, r, w) :: tr) = inHand x tr := by
  rw [inHand, if_neg (by simp [hs]), if_neg (by simp [hc])]

theorem inHand_commit_self {ws : List Write} (h : inHand x tr = some i) :
    inHand x ((i, .commit ws, w) :: tr) = none := by
  rw [inHand, if_neg (by simp [Req.selects]), if_pos ⟨rfl, h⟩]

theorem inHand_commit_ne {ws : List Write} (h : inHand x tr ≠ some i) :
    inHand x ((i, .commit ws, w) :: tr) = inHand x tr := by
  rw [inHand, if_neg (by simp [Req.selects]), if_neg (fun hc => h hc.2)]

/-- Whoever has a row in hand has asked something. -/
theorem inHand_traced (h : inHand x tr = some j) : ∃ e ∈ tr, e.1 = j := by
  induction tr with
  | nil => cases h
  | cons e tr ih =>
      obtain ⟨i, r, w⟩ := e
      rw [inHand] at h
      split at h
      · cases h
        exact ⟨_, List.mem_cons_self, rfl⟩
      · split at h
        · cases h
        · obtain ⟨e, he, hj⟩ := ih h
          exact ⟨e, List.mem_cons_of_mem _ he, hj⟩

end InHand

/-! ## The assertions -/

/-- What is so of every row that was published. -/
structure Once (h : Past World Req) : Prop where
  nodup : h.1.publishedIds.Nodup
  marked : ∀ x ∈ h.1.publishedIds, h.1.db.statusOf x = some .sent ∨
    h.1.db.statusOf x = some .pending ∧ ∃ j, inHand x h.2 = some j

/-- The rows of a drain are its own, and it has published only those it says. -/
structure Holding (i : Nat) (todo sent failed : List OutboxId) (h : Past World Req) : Prop where
  owned : ∀ x, inHand x h.2 = some i ↔ x ∈ todo ∨ x ∈ sent ∨ x ∈ failed
  nodup : todo.Nodup
  apart : ∀ x ∈ todo, x ∉ sent ∧ x ∉ failed
  either : ∀ x ∈ sent, x ∉ failed
  pending : ∀ x, inHand x h.2 = some i → h.1.db.statusOf x = some .pending
  unpublished : ∀ x, x ∈ todo ∨ x ∈ failed → x ∉ h.1.publishedIds

/-- The assertion of a phase, for thread `i`. -/
def Stands (i : Nat) : Draining → Past World Req → Prop
  | .out, h => ∀ x, inHand x h.2 ≠ some i
  | .hand todo sent failed, h => Holding i todo sent failed h
  | .done, h => ∀ x, inHand x h.2 = some i → x ∉ h.1.publishedIds

/-- An assertion stays true while nothing happens to the rows in hand. -/
theorem Stands.keep {i : Nat} {ph : Draining} {h h' : Past World Req} (hst : Stands i ph h)
    (hhand : ∀ x, inHand x h'.2 = some i ↔ inHand x h.2 = some i)
    (hpublished : ∀ x, inHand x h.2 = some i → (x ∈ h'.1.publishedIds ↔ x ∈ h.1.publishedIds))
    (hstatus : ∀ x, inHand x h.2 = some i → h.1.db.statusOf x = some .pending →
      h'.1.db.statusOf x = some .pending) : Stands i ph h' := by
  cases ph with
  | out => exact fun x hx => hst x ((hhand x).mp hx)
  | done =>
      intro x hx hmem
      have hx' := (hhand x).mp hx
      exact hst x hx' ((hpublished x hx').mp hmem)
  | hand todo sent failed =>
      exact
        { owned := fun x => (hhand x).trans (hst.owned x)
          nodup := hst.nodup
          apart := hst.apart
          either := hst.either
          pending := fun x hx => by
            have hx' := (hhand x).mp hx
            exact hstatus x hx' (hst.pending x hx')
          unpublished := fun x hx hmem => by
            have hx' := (hst.owned x).mpr (hx.imp_right .inr)
            exact hst.unpublished x hx ((hpublished x hx').mp hmem) }

/-- Nothing that matters has happened. -/
structure Same (h h' : Past World Req) : Prop where
  hand : ∀ x, inHand x h'.2 = inHand x h.2
  published : h'.1.publishedIds = h.1.publishedIds
  status : ∀ x st, h.1.db.statusOf x = some st → h'.1.db.statusOf x = some st

theorem Stands.same {i : Nat} {ph : Draining} {h h' : Past World Req} (hst : Stands i ph h)
    (hs : Same h h') : Stands i ph h' :=
  hst.keep (fun x => by rw [hs.hand x]) (fun x _ => by rw [hs.published])
    fun x _ hx => hs.status x _ hx

theorem Once.same {h h' : Past World Req} (ho : Once h) (hs : Same h h') : Once h' := by
  refine ⟨hs.published ▸ ho.nodup, fun x hx => ?_⟩
  rw [hs.published] at hx
  rcases ho.marked x hx with hsent | ⟨hpending, j, hj⟩
  · exact .inl (hs.status x _ hsent)
  · exact .inr ⟨hs.status x _ hpending, j, (hs.hand x).trans hj⟩

/-- A request that neither selects, nor publishes, nor commits marks. -/
theorem same_of_within {i : Nat} {h : Past World Req} {r : Req} (hr : r.within (· ≠ .marks))
    (hst : Stands i .out h) (e : Env) :
    Same h ((handle r e h.1).2, (i, r, h.1) :: h.2) := by
  have hselects : ∀ x, r.selects x h.1 = false := by
    intro x
    cases r with
    | query ws q =>
        cases q with
        | pendingOutbox limit => exact absurd rfl hr
        | _ => rfl
    | _ => rfl
  have hpublished : (handle r e h.1).2.published = h.1.published :=
    handle_published (fun p heq => by subst heq; exact absurd rfl hr) e h.1
  refine ⟨fun x => ?_, congrArg (List.map _) hpublished, fun x st hx => ?_⟩
  · cases hc : r.isCommit with
    | false => exact inHand_of_quiet (hselects x) hc
    | true =>
        cases r with
        | commit ws => exact inHand_commit_ne (hst x)
        | _ => cases hc
  · by_cases hc : ∃ ws, r = .commit ws
    · obtain ⟨ws, rfl⟩ := hc
      rcases commit_cases ws e h.1 with ⟨f, hf⟩ | ⟨d, hd, hf⟩
      · rw [hf]
        exact hx
      · rw [hf]
        exact statusOf_of_unmarked hr hd hx
    · rw [handle_db (fun ws heq => hc ⟨ws, heq⟩)]
      exact hx

/-- Requests that change nothing, of a drain with rows in hand. -/
theorem same_of_read {i : Nat} {h : Past World Req} {r : Req} {e : Env}
    (hw : (handle r e h.1).2 = h.1) (hselects : ∀ x, r.selects x h.1 = false)
    (hcommit : r.isCommit = false) : Same h ((handle r e h.1).2, (i, r, h.1) :: h.2) := by
  rw [hw]
  exact ⟨fun x => inHand_of_quiet (hselects x) hcommit, rfl, fun _ _ => id⟩

/-! ## The selection -/

section Select

variable {i j : Nat} {limit : Nat} {h : Past World Req} {e : Env} {x : OutboxId}

/-- The request that selects. -/
abbrev selection (limit : Nat) : Req := .query [] (.pendingOutbox limit)

theorem selects_selection {w : World} : (selection limit).selects x w = true ↔
    x ∈ ((Query.pendingOutbox limit).eval w.db).map (·.id) :=
  List.contains_iff_mem

theorem selection_world (w : World) : (handle (selection limit) e w).2 = w := by
  rcases query_cases [] (.pendingOutbox limit) e w with ⟨f, hf⟩ | hf <;> rw [hf]

/-- Nobody who is running loses a row to a selection. -/
theorem Stands.of_selection {ph : Draining} (hst : Stands j ph h) (hij : j ≠ i)
    (hfree : ∀ x, (selection limit).selects x h.1 = true → inHand x h.2 = some j → ph.over) :
    Stands j ph ((handle (selection limit) e h.1).2, (i, selection limit, h.1) :: h.2) := by
  rw [selection_world]
  have hback : ∀ x, inHand x ((i, selection limit, h.1) :: h.2) = some j →
      inHand x h.2 = some j := by
    intro x hx
    cases hs : (selection limit).selects x h.1 with
    | true =>
        rw [inHand_of_selects hs] at hx
        exact absurd (Option.some_inj.mp hx).symm hij
    | false => rwa [inHand_of_quiet hs rfl] at hx
  cases ph with
  | out => exact fun x hx => hst x (hback x hx)
  | done => exact fun x hx => hst x (hback x hx)
  | hand todo sent failed =>
      refine Stands.keep hst (fun x => ⟨hback x, fun hx => ?_⟩) (fun _ _ => Iff.rfl) fun _ _ => id
      cases hs : (selection limit).selects x h.1 with
      | true => exact (hfree x hs hx).elim
      | false => exact (inHand_of_quiet hs rfl).trans hx

/-- A selection of rows that were not published. -/
theorem stands_selection (ho : Once h) (hst : Stands i .out h)
    (hnew : ∀ x, (selection limit).selects x h.1 = true → x ∉ h.1.publishedIds) :
    Once ((handle (selection limit) e h.1).2, (i, selection limit, h.1) :: h.2) ∧
    Stands i (draining.advance .out (selection limit) (handle (selection limit) e h.1).1)
      ((handle (selection limit) e h.1).2, (i, selection limit, h.1) :: h.2) := by
  have hhand : ∀ x, inHand x ((i, selection limit, h.1) :: h.2) = some i →
      (selection limit).selects x h.1 = true := by
    intro x hx
    cases hs : (selection limit).selects x h.1 with
    | true => rfl
    | false =>
        rw [inHand_of_quiet hs rfl] at hx
        exact absurd hx (hst x)
  have hdone : Stands i .done (h.1, (i, selection limit, h.1) :: h.2) :=
    fun x hx => hnew x (hhand x hx)
  constructor
  · rw [selection_world]
    refine ⟨ho.nodup, fun x hx => ?_⟩
    have hs : (selection limit).selects x h.1 = false := by
      cases hs : (selection limit).selects x h.1 with
      | true => exact absurd hx (hnew x hs)
      | false => rfl
    rw [inHand_of_quiet hs rfl]
    exact ho.marked x hx
  · rcases query_cases [] (.pendingOutbox limit) e h.1 with ⟨f, hf⟩ | hf
    · rw [hf]
      exact hdone
    · rw [hf]
      rw [Tables.view_nil]
      generalize hrows : (Query.pendingOutbox limit).eval h.1.db = rows
      by_cases hempty : rows.isEmpty = true
      · have hnext : draining.advance .out (selection limit) (.ok rows) = .done := if_pos hempty
        rw [hnext]
        exact hdone
      · have hnext : draining.advance .out (selection limit) (.ok rows) =
            .hand (rows.map (·.id)) [] [] := if_neg hempty
        rw [hnext]
        have hmem : ∀ x, (selection limit).selects x h.1 = true ↔ x ∈ rows.map (·.id) := by
          intro x
          rw [selects_selection, hrows]
        exact
          { owned := fun x => by
              constructor
              · exact fun hx => .inl ((hmem x).mp (hhand x hx))
              · rintro (hx | hx | hx)
                · exact inHand_of_selects ((hmem x).mpr hx)
                · cases hx
                · cases hx
            nodup := hrows ▸ nodup_selected limit h.1.db
            apart := fun _ _ => ⟨List.not_mem_nil, List.not_mem_nil⟩
            either := List.forall_mem_nil _
            pending := fun x hx => by
              have hx' := selects_selection.mp (hhand x hx)
              exact mem_selected hx'
            unpublished := fun x hx => by
              rcases hx with hx | hx
              · exact hnew x ((hmem x).mpr hx)
              · cases hx }

end Select

/-! ## A publication -/

section Publish

variable {i j : Nat} {h : Past World Req} {e : Env} {todo sent failed : List OutboxId}
  {p : Publication}

theorem isException_of_fault {f : Exn} (hf : (handle (.publish p) e h.1).1 = .error f)
    (he : e.fault ≠ some .cancelled) : f.isException = true := by
  simp only [handle, Env.answer] at hf
  cases hfault : e.fault with
  | none =>
      rw [hfault] at hf
      cases hf
  | some fault =>
      rw [hfault] at hf he
      cases hf
      cases fault with
      | cancelled => exact absurd rfl he
      | _ => rfl

/-- A publication leaves the rows in hand alone. -/
theorem inHand_publish (x : OutboxId) (w : World) :
    inHand x ((i, .publish p, w) :: h.2) = inHand x h.2 := inHand_of_quiet rfl rfl

theorem Stands.of_publish {ph : Draining} {rest : List OutboxId} (hst : Stands j ph h) (hij : j ≠ i)
    (hi : Holding i (p.eventId :: rest) sent failed h) :
    Stands j ph ((handle (.publish p) e h.1).2, (i, .publish p, h.1) :: h.2) := by
  have howner : inHand p.eventId h.2 = some i := (hi.owned _).mpr (.inl List.mem_cons_self)
  rcases publish_cases p e h.1 with ⟨f, hf⟩ | hf
  · rw [hf]
    exact hst.same ⟨fun x => inHand_publish x _, rfl, fun _ _ => id⟩
  · rw [hf]
    refine hst.keep (fun x => by rw [inHand_publish]) (fun x hx => ?_) fun _ _ => id
    show x ∈ p.eventId :: h.1.publishedIds ↔ x ∈ h.1.publishedIds
    rw [List.mem_cons, or_iff_right]
    rintro rfl
    exact hij (Option.some_inj.mp (hx.symm.trans howner))

theorem stands_publish {rest : List OutboxId} (ho : Once h)
    (hi : Holding i (p.eventId :: rest) sent failed h) (he : e.fault ≠ some .cancelled) :
    Once ((handle (.publish p) e h.1).2, (i, .publish p, h.1) :: h.2) ∧
    Stands i (draining.advance (.hand (p.eventId :: rest) sent failed) (.publish p)
        (handle (.publish p) e h.1).1)
      ((handle (.publish p) e h.1).2, (i, .publish p, h.1) :: h.2) := by
  have howner : inHand p.eventId h.2 = some i := (hi.owned _).mpr (.inl List.mem_cons_self)
  have hnew : p.eventId ∉ h.1.publishedIds := hi.unpublished _ (.inl List.mem_cons_self)
  obtain ⟨hnot, hnodup⟩ := List.nodup_cons.mp hi.nodup
  have hne : ∀ x ∈ rest, x ≠ p.eventId := fun x hx heq => hnot (heq ▸ hx)
  rcases publish_cases p e h.1 with ⟨f, hf⟩ | hf
  · have hexn : f.isException = true := isException_of_fault (congrArg Prod.fst hf) he
    have hnext : draining.advance (.hand (p.eventId :: rest) sent failed) (.publish p) (.error f) =
        .hand rest sent (p.eventId :: failed) := if_pos hexn
    rw [hf]
    refine ⟨ho.same ⟨fun x => inHand_publish x _, rfl, fun _ _ => id⟩, ?_⟩
    rw [hnext]
    exact
      { owned := fun x => by
          rw [inHand_publish, hi.owned, List.mem_cons, List.mem_cons]
          tauto
        nodup := hnodup
        apart := fun x hx => by
          obtain ⟨h1, h2⟩ := hi.apart x (List.mem_cons_of_mem _ hx)
          exact ⟨h1, fun hmem => (List.mem_cons.mp hmem).elim (hne x hx) h2⟩
        either := fun x hx hmem => by
          rcases List.mem_cons.mp hmem with rfl | hmem
          · exact (hi.apart _ List.mem_cons_self).1 hx
          · exact hi.either x hx hmem
        pending := fun x hx => hi.pending x ((inHand_publish x _).symm.trans hx)
        unpublished := fun x hx => by
          rcases hx with hx | hx
          · exact hi.unpublished x (.inl (List.mem_cons_of_mem _ hx))
          · rcases List.mem_cons.mp hx with rfl | hx
            · exact hnew
            · exact hi.unpublished x (.inr hx) }
  · rw [hf]
    constructor
    · refine ⟨List.nodup_cons.mpr ⟨hnew, ho.nodup⟩, fun x hx => ?_⟩
      rw [inHand_publish]
      rcases List.mem_cons.mp hx with rfl | hx
      · exact .inr ⟨hi.pending _ howner, i, howner⟩
      · exact ho.marked x hx
    · exact
        { owned := fun x => by
            rw [inHand_publish, hi.owned, List.mem_cons]
            show _ ↔ x ∈ rest ∨ x ∈ p.eventId :: sent ∨ x ∈ failed
            rw [List.mem_cons]
            tauto
          nodup := hnodup
          apart := fun x hx => by
            obtain ⟨h1, h2⟩ := hi.apart x (List.mem_cons_of_mem _ hx)
            exact ⟨fun hmem => (List.mem_cons.mp hmem).elim (hne x hx) h1, h2⟩
          either := fun x hx hmem => by
            rcases List.mem_cons.mp hx with rfl | hx
            · exact (hi.apart _ List.mem_cons_self).2 hmem
            · exact hi.either x hx hmem
          pending := fun x hx => hi.pending x ((inHand_publish x _).symm.trans hx)
          unpublished := fun x hx hmem => by
            rcases List.mem_cons.mp hmem with rfl | hmem
            · rcases hx with hx | hx
              · exact hnot hx
              · exact (hi.apart _ List.mem_cons_self).2 hx
            · exact hi.unpublished x (hx.imp_left (List.mem_cons_of_mem _)) hmem }

end Publish

/-! ## The commit of the marks -/

section Commit

variable {i j : Nat} {h : Past World Req} {e : Env} {sent failed : List OutboxId}
  {ws : List Write}

/-- Marks leave the rows of others alone. -/
theorem statusOf_others {d' : Tables} (hi : Holding i [] sent failed h) (hws : Marks sent failed ws)
    (hd : h.1.db.write? h.1.clock ws = some d') {x : OutboxId} (hx : inHand x h.2 ≠ some i) :
    d'.statusOf x = h.1.db.statusOf x := by
  refine statusOf_of_marks_ne (fun w hw => ?_) hd
  obtain ⟨y, f, rfl, hy, _⟩ := hws.only w hw
  refine ⟨y, f, rfl, ?_⟩
  rintro rfl
  exact hx ((hi.owned y).mpr (.inr hy))

theorem Stands.of_commit {ph : Draining} (hst : Stands j ph h) (hij : j ≠ i)
    (hi : Holding i [] sent failed h) (hws : Marks sent failed ws) :
    Stands j ph ((handle (.commit ws) e h.1).2, (i, .commit ws, h.1) :: h.2) := by
  have hhand : ∀ x, inHand x ((i, .commit ws, h.1) :: h.2) = some j ↔ inHand x h.2 = some j := by
    intro x
    by_cases hx : inHand x h.2 = some i
    · rw [inHand_commit_self hx, hx]
      exact ⟨nofun, fun heq => absurd (Option.some_inj.mp heq).symm hij⟩
    · rw [inHand_commit_ne hx]
  rcases commit_cases ws e h.1 with ⟨f, hf⟩ | ⟨d, hd, hf⟩
  · rw [hf]
    exact hst.keep hhand (fun _ _ => Iff.rfl) fun _ _ => id
  · rw [hf]
    refine hst.keep hhand (fun _ _ => Iff.rfl) fun x hx hpending => ?_
    have hne : inHand x h.2 ≠ some i := fun heq =>
      hij (Option.some_inj.mp (hx.symm.trans heq))
    exact (statusOf_others hi hws hd hne).trans hpending

theorem stands_commit (ho : Once h) (hi : Holding i [] sent failed h) (hws : Marks sent failed ws)
    (he : ∀ x f, Write.setOutbox x f ∈ ws → e.fault = none) :
    Once ((handle (.commit ws) e h.1).2, (i, .commit ws, h.1) :: h.2) ∧
    Stands i .done ((handle (.commit ws) e h.1).2, (i, .commit ws, h.1) :: h.2) := by
  have hnone : ∀ x, inHand x ((i, .commit ws, h.1) :: h.2) ≠ some i := by
    intro x hx
    by_cases hown : inHand x h.2 = some i
    · rw [inHand_commit_self hown] at hx
      cases hx
    · rw [inHand_commit_ne hown] at hx
      exact hown hx
  refine ⟨?_, fun x hx => absurd hx (hnone x)⟩
  have hsentOf : ∀ x ∈ h.1.publishedIds, inHand x h.2 = some i → x ∈ sent := by
    intro x hx hown
    rcases (hi.owned x).mp hown with hmem | hmem | hmem
    · cases hmem
    · exact hmem
    · exact absurd hx (hi.unpublished x (.inr hmem))
  rcases commit_cases ws e h.1 with ⟨f, hf⟩ | ⟨d, hd, hf⟩
  · -- Only a commit without marks can fail, and then no row that was published is in hand.
    obtain ⟨d, hd⟩ := @write?_of_marks h.1.clock h.1.db ws fun w hw => by
      obtain ⟨x, f, rfl, _⟩ := hws.only w hw
      exact ⟨x, f, rfl⟩
    have hfault : e.fault ≠ none := by
      intro hfault
      simp only [handle, hd, Env.answer, hfault] at hf
      cases hf
    rw [hf]
    refine ⟨ho.nodup, fun x hx => ?_⟩
    have hne : inHand x h.2 ≠ some i := fun hown =>
      hfault (he _ _ (hws.sent x (hsentOf x hx hown)))
    rw [inHand_commit_ne hne]
    exact ho.marked x hx
  · rw [hf]
    refine ⟨ho.nodup, fun x hx => ?_⟩
    by_cases hown : inHand x h.2 = some i
    · have hsent := hsentOf x hx hown
      refine .inl (statusOf_of_sent (fun w hw => ?_) (hi.pending x hown)
        (.inl (hws.sent x hsent)) hd)
      obtain ⟨y, f, rfl, hy, hst⟩ := hws.only w hw
      refine ⟨y, f, rfl, ?_⟩
      rintro rfl st hf'
      rcases hst st hf' with ⟨rfl, _⟩ | ⟨_, hfailed⟩
      · rfl
      · exact absurd hfailed (hi.either y hsent)
    · rw [inHand_commit_ne hown]
      rcases ho.marked x hx with hsent | ⟨hpending, hj⟩
      · exact .inl ((statusOf_others hi hws hd hown).trans hsent)
      · exact .inr ⟨(statusOf_others hi hws hd hown).trans hpending, hj⟩

end Commit

/-! ## The runs -/

/-- What a drain with rows in hand reads changes nothing. -/
theorem reads_nothing {todo sent failed : List OutboxId} {r : Req} {w : World}
    (hr : draining.allows (.hand todo sent failed) r) :
    (∃ p rest, r = .publish p ∧ todo = p.eventId :: rest) ∨
    (∃ ws, r = .commit ws ∧ todo = [] ∧ Marks sent failed ws) ∨
    (∀ e, (handle r e w).2 = w) ∧ (∀ x, r.selects x w = false) ∧ r.isCommit = false ∧
      ∀ x, draining.advance (.hand todo sent failed) r x = .hand todo sent failed ∨
        draining.advance (.hand todo sent failed) r x = .done ∧ sent = [] ∧ failed = [] := by
  cases r with
  | publish p =>
      obtain ⟨rest, hrest⟩ := hr
      exact .inl ⟨p, rest, rfl, hrest⟩
  | commit ws => exact .inr (.inl ⟨ws, rfl, hr.1, hr.2⟩)
  | now => exact .inr (.inr ⟨fun _ => rfl, fun _ => rfl, rfl, fun _ => .inl rfl⟩)
  | connect =>
      refine .inr (.inr ⟨fun e => ?_, fun _ => rfl, rfl, fun x => ?_⟩)
      · rcases Env.answer_cases e (.other "event provider unavailable") w e.bus w
          with ⟨f, hf⟩ | hf <;> simp only [handle, hf]
      · cases x with
        | ok _ => exact .inl rfl
        | error _ => exact .inr ⟨rfl, hr⟩
  | query ws q =>
      cases ws with
      | cons w ws => exact hr.elim
      | nil =>
          cases q with
          | activeRows k =>
              refine .inr (.inr ⟨fun e => ?_, fun _ => rfl, rfl, fun x => ?_⟩)
              · rcases query_cases [] (.activeRows k) e w with ⟨f, hf⟩ | hf <;> rw [hf]
              · cases x with
                | ok _ => exact .inl rfl
                | error _ => exact .inr ⟨rfl, hr⟩
          | _ => exact hr.elim
  | newId => exact hr.elim
  | probe => exact hr.elim
  | retire => exact hr.elim

/-- A thread with rows in hand is running. -/
theorem over_of_done {q : Running} {ph : Draining}
    (hq : q.Follows draining (fun _ ph => ph.over) ph) (hdone : ∀ r k, q ≠ .call r k) :
    ph.over := by
  cases q with
  | ret a => exact hq
  | call r k => exact absurd rfl (hdone r k)

section Drained

variable {s : ConsoleSettings} {w : World} {p : Pools} {i : Nat} {e : Env}

/-- What a selection finds was not published: whoever had published it would still
have it in hand. -/
theorem unpublished_of_selects {limit : Nat}
    (hreach : (console s).Reach (Fresh w) Undisturbed p) (hc : Undisturbed p (.step i e))
    (hasks : p.Asks i (selection limit)) (ho : Once p.past)
    (hlocated : p.Located draining (fun _ ph => ph.over) fun i ph _ h => Stands i ph h)
    {x : OutboxId} (hx : (selection limit).selects x p.world = true) :
    x ∉ p.world.publishedIds := by
  intro hpublished
  have hpending : p.world.db.statusOf x = some .pending := mem_selected (selects_selection.mp hx)
  rcases ho.marked x hpublished with hsent | ⟨_, j, hj⟩
  · rw [show p.past.1.db.statusOf x = _ from hpending] at hsent
    cases hsent
  · obtain ⟨entry, hentry, rfl⟩ := inHand_traced hj
    obtain ⟨q, hq⟩ := hreach.traced (fun p hp => by cases hp; rfl) (fun _ _ hc => hc) entry hentry
    have hdone := hc.1 _ x _ q hasks hx hj hq
    obtain ⟨ph, hfollows, hst⟩ := hlocated _ q hq
    have hover := over_of_done hfollows hdone
    cases ph with
    | out => exact hst x hj
    | hand todo sent failed => exact hover
    | done => exact hst x hj hpublished

theorem own_draining {r : Req} {k : r.Ans → Running} {ph : Draining}
    (hreach : (console s).Reach (Fresh w) Undisturbed p) (hc : Undisturbed p (.step i e))
    (hp : p.prog? i = some (.call r k)) (hr : draining.allows ph r) (ho : Once p.past)
    (hst : Stands i ph p.past)
    (hlocated : p.Located draining (fun _ ph => ph.over) fun i ph _ h => Stands i ph h) :
    Once ((handle r e p.world).2, (i, r, p.world) :: p.trace) ∧
    Stands i (draining.advance ph r (handle r e p.world).1)
      ((handle r e p.world).2, (i, r, p.world) :: p.trace) := by
  cases ph with
  | out =>
      rcases hr with hr | ⟨limit, rfl⟩
      · have hsame := same_of_within hr hst e
        rw [(draining_quiet hr).2]
        exact ⟨ho.same hsame, hst.same hsame⟩
      · exact stands_selection ho hst fun x hx =>
          unpublished_of_selects hreach hc ⟨k, hp⟩ ho hlocated hx
  | hand todo sent failed =>
      rcases reads_nothing (w := p.world) hr with ⟨pub, rest, rfl, rfl⟩ | ⟨ws, rfl, rfl, hws⟩ |
        ⟨hsame, hselects, hcommit, hadvance⟩
      · exact stands_publish ho hst (hc.2.1 pub ⟨k, hp⟩)
      · exact stands_commit ho hst hws fun x f hmem => hc.2.2 ws x f ⟨k, hp⟩ hmem
      · have hs : Same p.past ((handle r e p.past.1).2, (i, r, p.past.1) :: p.past.2) :=
          same_of_read (hsame e) hselects hcommit
        refine ⟨ho.same hs, ?_⟩
        rcases hadvance (handle r e p.world).1 with heq | ⟨heq, rfl, rfl⟩
        · rw [heq]
          exact hst.same hs
        · rw [heq]
          refine Stands.same (fun x hx => ?_) hs
          rcases (hst.owned x).mp hx with hmem | hmem | hmem
          · exact hst.unpublished x (.inl hmem)
          · cases hmem
          · cases hmem
  | done => exact hr.elim

theorem other_draining {j : Nat} {r : Req} {k : r.Ans → Running} {q : Running} {ph ph' : Draining}
    (hc : Undisturbed p (.step i e)) (hp : p.prog? i = some (.call r k))
    (hq : p.prog? j = some q) (hij : j ≠ i) (hr : draining.allows ph r)
    (hfollows : q.Follows draining (fun _ ph => ph.over) ph') (hst : Stands i ph p.past)
    (hst' : Stands j ph' p.past) :
    Stands j ph' ((handle r e p.world).2, (i, r, p.world) :: p.trace) := by
  cases ph with
  | out =>
      rcases hr with hr | ⟨limit, rfl⟩
      · exact hst'.same (same_of_within hr hst e)
      · exact hst'.of_selection hij fun x hx hj =>
          over_of_done hfollows (hc.1 _ x j q ⟨k, hp⟩ hx hj hq)
  | hand todo sent failed =>
      rcases reads_nothing (w := p.world) hr with ⟨pub, rest, rfl, rfl⟩ | ⟨ws, rfl, rfl, hws⟩ |
        ⟨hsame, hselects, hcommit, _⟩
      · exact hst'.of_publish hij hst
      · exact hst'.of_commit hij hst hws
      · exact hst'.same (h := p.past) (same_of_read (hsame e) hselects hcommit)
  | done => exact hr.elim

/-- A tick leaves the marks, the publications and the rows in hand alone. -/
theorem same_of_tick (v : Tick) : Same p.past (tick v p.world, p.trace) := by
  cases v with
  | advance n => exact ⟨fun _ => rfl, rfl, fun _ _ => id⟩
  | announce t topic payload =>
      refine ⟨fun _ => rfl, rfl, fun x st hx => ?_⟩
      obtain ⟨row, hrow, hst⟩ := Option.map_eq_some_iff.mp hx
      exact (congrArg (Option.map (·.status)) (Table.get?_insert_of_some hrow)).trans
        (congrArg some hst)

end Drained

def drains (s : ConsoleSettings) (w : World) :
    Annotation (console s) draining (fun _ ph => ph.over) (Fresh w) Undisturbed where
  inv := Once
  holds i ph _ h := Stands i ph h
  start {p c} hreach _ _ := by
    refine ⟨.out, programOf_drains s c, fun x hx => ?_⟩
    obtain ⟨entry, hentry, hi⟩ := inHand_traced hx
    obtain ⟨q, hq⟩ := hreach.traced (fun p hp => by cases hp; rfl) (fun _ _ hc => hc) entry hentry
    have hlt := Pool.prog?_some_lt hq
    omega
  own hreach hc hp hf ho hst hlocated := own_draining hreach hc hp hf.allows ho hst hlocated
  other hc hp hq hij hf hf' _ hst hst' := other_draining hc hp hq hij hf.allows hf' hst hst'
  tick _ ho := ho.same (same_of_tick _)
  tick_holds _ _ _ hst := hst.same (same_of_tick _)

/-- The publications of a world are those of rows that are marked sent. -/
structure Settled (w : World) : Prop where
  nodup : w.publishedIds.Nodup
  sent : ∀ x ∈ w.publishedIds, w.db.statusOf x = some .sent

/-- In every run in which no drain selects rows that another has in hand, and none is
stopped between a publication and its commit, no row is published twice, and none that
was published has the status error. -/
theorem published_once (s : ConsoleSettings) {w : World} (hw : Settled w) {p : Pools}
    (h : (console s).Reach (Fresh w) Undisturbed p) :
    p.world.publishedIds.Nodup ∧
      ∀ x ∈ p.world.publishedIds, p.world.db.statusOf x ≠ some .error := by
  have ho : Once p.past := ((drains s w).sound (fun p hp => by
    cases hp
    exact ⟨⟨hw.nodup, fun x hx => .inl (hw.sent x hx)⟩, rfl⟩) h).1
  refine ⟨ho.nodup, fun x hx herror => ?_⟩
  rcases ho.marked x hx with hsent | ⟨hpending, _⟩
  · cases hsent.symm.trans herror
  · cases hpending.symm.trans herror

/-! ## Two drains -/

/-- The rows that the request selects in this world. -/
def Req.selection? (w : World) : Req → List OutboxId
  | .query ws (.pendingOutbox limit) =>
      ((Query.pendingOutbox limit).eval (w.db.view w.clock ws)).map (·.id)
  | _ => []

theorem mem_selection?_of_selects {x : OutboxId} {w : World} {r : Req}
    (h : r.selects x w = true) : x ∈ r.selection? w := by
  cases r with
  | query ws q =>
      cases q with
      | pendingOutbox limit => exact List.contains_iff_mem.mp h
      | _ => exact nomatch h
  | _ => exact nomatch h

/-- The thread asks for nothing more. -/
def Running.stopped : Option Running → Bool
  | some (.call _ _) => false
  | _ => true

/-- No publication is cancelled, and no commit of marks refused. -/
def Req.uninterrupted (e : Env) : Req → Bool
  | .publish _ => e.fault != some .cancelled
  | .commit ws =>
      e.fault.isNone || ws.all fun
        | .setOutbox _ _ => false
        | _ => true
  | _ => true

/-- `Undisturbed`, computed. -/
def undisturbedCheck (s : Pools) : Happening → Bool
  | .crash _ => false
  | .step i e =>
      match s.prog? i with
      | some (.call r _) =>
          ((r.selection? s.world).all fun x =>
            ((inHand x s.trace).map fun j => Running.stopped (s.prog? j)).getD true) &&
          r.uninterrupted e
      | _ => true
  | _ => true

theorem undisturbed_of_check (s : Pools) (ev : Happening) (h : undisturbedCheck s ev = true) :
    Undisturbed s ev := by
  cases ev with
  | step i e =>
      have hcheck : ∀ r, s.Asks i r →
          (∀ x ∈ r.selection? s.world, ((inHand x s.trace).map fun j =>
            Running.stopped (s.prog? j)).getD true = true) ∧
          r.uninterrupted e = true := by
        rintro r ⟨k, hk⟩
        simp only [undisturbedCheck, hk, Bool.and_eq_true, List.all_eq_true] at h
        exact h
      refine ⟨fun r x j q hasks hx hj hq r' k hcall => ?_, fun p hasks => ?_,
        fun ws x f hasks hmem => ?_⟩
      · have hstopped := (hcheck r hasks).1 x (mem_selection?_of_selects hx)
        rw [hj, Option.map_some, Option.getD_some, hq, hcall] at hstopped
        cases hstopped
      · have hpublish := (hcheck _ hasks).2
        exact bne_iff_ne.mp hpublish
      · have hcommit := (hcheck _ hasks).2
        rcases Bool.or_eq_true_iff.mp hcommit with hnone | hall
        · exact Option.isNone_iff_eq_none.mp hnone
        · cases List.all_eq_true.mp hall _ hmem
  | start c => trivial
  | crash i => exact nomatch h
  | tick v => trivial

theorem settled_empty : Settled {} := ⟨List.nodup_nil, List.forall_mem_nil _⟩

/-- A row of another service, and a drain of it: selection, provider row, bus,
publication, clock, commit. -/
def drainedOnce : List Happening :=
  [.tick (.announce "ip.allocated" "ip" (.other "")), .start (.drain 50)] ++
    List.replicate 6 (.step 0 {})

theorem published_once_drained :
    ((console {}).run { world := {} } drainedOnce).world.publishedIds.Nodup ∧
      ∀ x ∈ ((console {}).run { world := {} } drainedOnce).world.publishedIds,
        ((console {}).run { world := {} } drainedOnce).world.db.statusOf x ≠ some .error :=
  published_once {} settled_empty
    (Machine.reach_run_of_check undisturbed_of_check (reach_fresh {}) drainedOnce (by decide))

/-- Both drains select before either publishes. -/
def drainedTwice : List Happening :=
  [.tick (.announce "ip.allocated" "ip" (.other "")), .start (.drain 50),
    .start (.drain 50), .step 0 {}, .step 1 {}] ++
    List.replicate 5 (.step 0 {}) ++ List.replicate 5 (.step 1 {})

/-- Only drains are called, by whichever of their callers, and none is cancelled or dies. -/
def onlyDrains : Happening → Bool
  | .start (.activate _ _) => false
  | .start (.putConfig _ _ _) => false
  | .start _ => true
  | .step _ e => e.fault != some .cancelled
  | .crash _ => false
  | .tick _ => true

/-- Two drains select the same row before either commits, and both publish it. -/
theorem not_published_once :
    ¬ ∀ (s : ConsoleSettings) (w : World), Settled w → ∀ p : Pools,
      (console s).Reach (Fresh w) (fun _ ev => onlyDrains ev = true) p →
      p.world.publishedIds.Nodup ∧
        ∀ x ∈ p.world.publishedIds, p.world.db.statusOf x ≠ some .error := by
  intro h
  have honce := h {} {} settled_empty _
    (Machine.reach_run_of_check (fun _ _ hev => hev) (reach_fresh {}) drainedTwice (by decide))
  have htwice : ¬ ((console {}).run { world := {} } drainedTwice).world.publishedIds.Nodup := by
    decide
  exact htwice honce.1

end BrokerBridge.Admin
