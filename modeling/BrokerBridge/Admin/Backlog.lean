import BrokerBridge.Admin.Jobs
import BrokerBridge.Conc.Batches
import Mathlib.Algebra.Order.Floor.Div

/-!
# One worker drains the outbox

One drain hands the oldest pending rows to the event provider, in order and each once,
and marks each by the answer. Only a publication may fail here. Over consecutive drains
no row is handed over twice, and whatever is pending at some point is handed over within
as many drains as its batches need, because what comes in later has a later `created_at`.
-/

namespace BrokerBridge.Admin

open Conc

/-! ## What a drain does -/

/-- Only a publication fails, and it fails with an exception. -/
def OnlyPublishFails : Req → Env → Prop
  | .publish _, e => e.fault ≠ some .cancelled
  | _, e => e.fault = none

/-- A row handed to the event provider, and what came back. -/
structure Attempt where
  publication : Publication
  answer : Except Exn Unit

def Attempt.sent (a : Attempt) : Bool :=
  match a.answer with
  | .ok _ => true
  | .error _ => false

/-- The publication among the requests of a drain. -/
def attempt? : ((r : Req) × r.Ans) → Option Attempt
  | ⟨.publish p, x⟩ => some ⟨p, x⟩
  | _ => none

def Tables.pending (d : Tables) : List OutboxRow := d.outbox.rows.filter fun r =>
    r.status = .pending

/-- The row once its publication was answered so. -/
def OutboxRow.marked (now : Instant) (r : OutboxRow) : Except Exn Unit → OutboxRow
  | .ok _ => { r with status := .sent, sentAt := some now }
  | .error e => { r with status := .error, error := some (e.str.take 2000).toString }

/-- A drain of `rows` has made `attempts`, returned `stats` and left `w'`. -/
structure Drained (producer : String) (w : World) (rows : List OutboxRow) (attempts : List Attempt)
    (stats : DrainStats) (w' : World) : Prop where
  handed : ∃ bus, attempts.map (·.publication) = rows.map (publication bus producer)
  marked : ∀ x ∈ rows.zip attempts, w'.db.outbox.get? x.1.id = some (x.1.marked w.clock x.2.answer)
  others : ∀ i, i ∉ rows.map (·.id) → w'.db.outbox.get? i = w.db.outbox.get? i
  counts : stats = { sent := attempts.countP Attempt.sent,
                     error := attempts.countP fun a => !a.sent }
  providers : w'.db.providers = w.db.providers
  items : w'.db.items = w.db.items

/-! ## The walk through it -/

/-- The requests so far, as far as they are publications. -/
def hear (as : List Attempt) (r : Req) (x : r.Ans) : List Attempt := as ++ (attempt? ⟨r, x⟩).toList

theorem foldl_hear_attempts (heard : List ((r : Req) × r.Ans)) (as : List Attempt) :
    heard.foldl (fun as x => hear as x.1 x.2) as = as ++ heard.filterMap attempt? := by
  induction heard generalizing as with
  | nil => exact (List.append_nil _).symm
  | cons x heard ih =>
      rw [List.foldl_cons, ih, List.filterMap_cons]
      show as ++ (attempt? x).toList ++ _ = _
      cases attempt? x with
      | none => rw [Option.toList_none, List.append_nil]
      | some a => rw [Option.toList_some, List.append_assoc, List.singleton_append]

/-- One answer of a solo drain, with the attempts so far. -/
abbrev hearing : (r : Req) → (r.Ans → World × List Attempt → Prop) → World × List Attempt → Prop :=
  turn (tracked handle hear) OnlyPublishFails

/-- The writes that mark a row. -/
def marks (now : Instant) (x : OutboxRow × Attempt) : List Write :=
  match x.2.answer with
  | .ok _ => [.setOutbox x.1.id (.status .sent), .setOutbox x.1.id (.sentAt (some now))]
  | .error e =>
      [.setOutbox x.1.id (.status .error), .setOutbox x.1.id
        (.error (some (e.str.take 2000).toString))]

def DrainStats.add (stats : DrainStats) (sent : Bool) : DrainStats :=
  if sent then { stats with sent := stats.sent + 1 } else { stats with error := stats.error + 1 }

section Walk

variable {ws : List Write} {bus : EventBus} {producer : String} {w : World} {as : List Attempt}
  {E : Exn → List Write → World × List Attempt → Prop}

theorem isException_of_answer {p : Publication} {e : Env} {f : Exn} (he : e.fault ≠ some .cancelled)
    (hf : e.answer (.other "publish failed") w () { w with published := p :: w.published } =
      (.error f, w)) : f.isException = true := by
  unfold Env.answer at hf
  split at hf
  · next fault hfault =>
      cases fault with
      | cancelled => exact absurd hfault he
      | failed => cases hf; rfl
      | failedOtherwise => cases hf; rfl
  · cases hf

theorem publishOne_hears {row : OutboxRow} {Q : Bool → List Write → World × List Attempt → Prop}
    (h : ∀ (x : Except Exn Unit) (w' : World), w'.db = w.db → w'.clock = w.clock →
      Q (Attempt.sent ⟨publication bus producer row, x⟩)
        (ws ++ marks w.clock (row, ⟨publication bus producer row, x⟩))
        (w', as ++ [⟨publication bus producer row, x⟩])) :
    Task.wp hearing (publishOne bus producer row) Q E ws (w, as) := by
  unfold publishOne
  rw [Task.wp_catching, Task.wp_bind, Task.wp_ask]
  intro e he
  rw [Task.wp_bind, wp_ofAnswer]
  rcases publish_cases (publication bus producer row) e w with ⟨f, hf⟩ | hf
  · have hexn : f.isException = true := isException_of_answer he hf
    simp only [tracked, hf, cases_error, Task.wp_ite, hexn, if_true, Task.wp_bind, wp_setOutbox]
    have hend := h (.error f) w rfl rfl
    simpa [marks, hear, attempt?, Attempt.sent, OutboxRowField.set] using hend
  · simp only [tracked, hf, cases_ok, Task.wp_bind, wp_setOutbox, wp_now]
    intro e' _
    have hend := h (.ok ()) { w with published := publication bus producer row ::
                              w.published } rfl rfl
    simpa [marks, hear, attempt?, Attempt.sent, tracked, handle, OutboxRowField.set] using hend

theorem publishEach_hears {rows : List OutboxRow} {stats : DrainStats}
    {Q : DrainStats → List Write → World × List Attempt → Prop}
    (h : ∀ (new : List Attempt) (w' : World), new.map (·.publication) = rows.map
      (publication bus producer) →
      w'.db = w.db → w'.clock = w.clock →
      Q ((new.map Attempt.sent).foldl DrainStats.add stats)
        (ws ++ (rows.zip new).flatMap (marks w.clock)) (w', as ++ new)) :
    Task.wp hearing (publishEach bus producer rows stats) Q E ws (w, as) := by
  induction rows generalizing stats ws w as with
  | nil =>
      have hend := h [] w rfl rfl rfl
      rw [List.zip_nil_left, List.flatMap_nil, List.append_nil, List.append_nil] at hend
      exact hend
  | cons row rows ih =>
      unfold publishEach
      rw [Task.wp_bind]
      refine publishOne_hears fun x w1 hdb1 hclock1 => ih fun new w2 hnew hdb2 hclock2 => ?_
      have hend := h (⟨publication bus producer row, x⟩ :: new) w2
        (by rw [List.map_cons, List.map_cons, hnew]) (hdb2.trans hdb1) (hclock2.trans hclock1)
      rw [hclock1]
      simpa [DrainStats.add, List.append_assoc] using hend

end Walk

section Reads

variable {ws : List Write} {w : World} {as : List Attempt}
  {E : Exn → List Write → World × List Attempt → Prop}

theorem execute_hears {q : Query} {Q : q.Res → List Write → World × List Attempt → Prop}
    (h : Q (q.eval (w.db.view w.clock ws)) ws (w, as)) :
    Task.wp hearing (execute q) Q E ws (w, as) := by
  rw [wp_execute]
  intro e he
  have hanswer : handle (.query ws q) e w = (.ok (q.eval (w.db.view w.clock ws)), w) := by
    show e.answer _ _ _ _ = _
    rw [Env.answer, show e.fault = none from he]
  simp only [tracked, hanswer, cases_ok, hear, attempt?, Option.toList_none, List.append_nil]
  exact h

theorem getEventProvider_hears {Q : EventBus → List Write → World × List Attempt → Prop}
    (h : ∀ bus, Q bus ws (w, as)) : Task.wp hearing getEventProvider Q E ws (w, as) := by
  unfold getEventProvider
  rw [Task.wp_bind]
  refine execute_hears ?_
  rw [Task.wp_bind, Task.wp_ask]
  intro e he
  have hanswer : handle .connect e w = (.ok e.bus, w) := by
    show e.answer _ _ _ _ = _
    rw [Env.answer, show e.fault = none from he]
  simp only [tracked, hanswer, wp_ofAnswer, cases_ok, hear, attempt?, Option.toList_none,
    List.append_nil]
  exact h e.bus

theorem commit_hears {Q : Unit → List Write → World × List Attempt → Prop} {d : Tables}
    (hd : w.db.write? w.clock ws = some d) (h : Q () [] ({ w with db := d }, as)) :
    Task.wp hearing commit Q E ws (w, as) := by
  rw [wp_commit]
  intro e he
  have hanswer : handle (.commit ws) e w = (.ok (), { w with db := d }) := by
    simp only [handle, hd, Env.answer, show e.fault = none from he]
  simp only [tracked, hanswer, cases_ok, hear, attempt?, Option.toList_none, List.append_nil]
  exact h

end Reads

/-! ## The marks -/

section Marks

variable {now : Instant} {d : Tables}

theorem apply_marks (x : OutboxRow × Attempt) (hx : d.outbox.get? x.1.id = some x.1) :
    ∃ d', d.write? now (marks now x) = some d' ∧
      d'.outbox.get? x.1.id = some (x.1.marked now x.2.answer) ∧
      (∀ i, i ≠ x.1.id → d'.outbox.get? i = d.outbox.get? i) ∧
      d'.providers = d.providers ∧ d'.items = d.items := by
  obtain ⟨row, publication, answer⟩ := x
  cases answer with
  | ok _ =>
      refine ⟨_, rfl, ?_, fun i hi => ?_, rfl, rfl⟩
      · show ((d.outbox.update row.id _).update row.id _).get? row.id = _
        rw [Table.get?_update_self, Table.get?_update_self, hx]
        rfl
      · show ((d.outbox.update row.id _).update row.id _).get? i = _
        rw [Table.get?_update_of_ne _ hi, Table.get?_update_of_ne _ hi]
  | error e =>
      refine ⟨_, rfl, ?_, fun i hi => ?_, rfl, rfl⟩
      · show ((d.outbox.update row.id _).update row.id _).get? row.id = _
        rw [Table.get?_update_self, Table.get?_update_self, hx]
        rfl
      · show ((d.outbox.update row.id _).update row.id _).get? i = _
        rw [Table.get?_update_of_ne _ hi, Table.get?_update_of_ne _ hi]

theorem write?_marks (xs : List (OutboxRow × Attempt)) (hids : (xs.map fun x => x.1.id).Nodup)
    (hxs : ∀ x ∈ xs, d.outbox.get? x.1.id = some x.1) :
    ∃ d', d.write? now (xs.flatMap (marks now)) = some d' ∧
      (∀ x ∈ xs, d'.outbox.get? x.1.id = some (x.1.marked now x.2.answer)) ∧
      (∀ i, i ∉ xs.map (fun x => x.1.id) → d'.outbox.get? i = d.outbox.get? i) ∧
      d'.providers = d.providers ∧ d'.items = d.items := by
  induction xs generalizing d with
  | nil => exact ⟨d, rfl, List.forall_mem_nil _, fun _ _ => rfl, rfl, rfl⟩
  | cons x xs ih =>
      rw [List.map_cons, List.nodup_cons] at hids
      obtain ⟨d1, hwrite1, hx1, hother1, hp1, hi1⟩ := apply_marks x (hxs x List.mem_cons_self)
      have hne : ∀ y ∈ xs, y.1.id ≠ x.1.id := fun y hy heq =>
        hids.1 (List.mem_map.mpr ⟨y, hy, heq⟩)
      have hxs1 : ∀ y ∈ xs, d1.outbox.get? y.1.id = some y.1 := fun y hy =>
        (hother1 _ (hne y hy)).trans (hxs y (List.mem_cons_of_mem _ hy))
      obtain ⟨d2, hwrite2, hx2, hother2, hp2, hi2⟩ := ih hids.2 hxs1
      refine ⟨d2, Tables.write?_append.mpr ⟨d1, hwrite1, hwrite2⟩, fun y hy => ?_, fun i hi => ?_,
        hp2.trans hp1, hi2.trans hi1⟩
      · rcases List.mem_cons.mp hy with rfl | hy
        · exact (hother2 _ hids.1).trans hx1
        · exact hx2 y hy
      · rw [List.map_cons, List.mem_cons, not_or] at hi
        exact (hother2 i hi.2).trans (hother1 i hi.1)

theorem foldl_add (sents : List Bool) (stats : DrainStats) :
    sents.foldl DrainStats.add stats =
      { stats with
        sent := stats.sent + sents.count true
        error := stats.error + sents.count false } := by
  induction sents generalizing stats with
  | nil => rfl
  | cons sent sents ih =>
      rw [List.foldl_cons, ih]
      cases sent <;> simp [DrainStats.add] <;> omega

end Marks

/-! ## One drain -/

section One

variable {w : World}

theorem pendingOutbox_eval {d : Tables} {limit : Nat} :
    (Query.pendingOutbox limit).eval d = oldest OutboxRow.createdAt limit d.pending := rfl

theorem nodup_ids {d : Tables} {limit : Nat} :
    ((oldest OutboxRow.createdAt limit d.pending).map (·.id)).Nodup := by
  have hpending : (d.pending.map (·.id)).Nodup := d.outbox.nodup.sublist (List.filter_sublist.map _)
  have hsorted :=
    (List.perm_insertionSort (fun a b : OutboxRow => a.createdAt ≤ b.createdAt) d.pending)
  exact ((hsorted.map (·.id)).nodup_iff.mpr hpending).sublist ((List.take_sublist _ _).map _)

theorem drainOutbox_hears (limit : Nat) (producer : String) (w : World) :
    Task.wp hearing (drainOutbox limit producer)
      (fun stats _ s => Drained producer w (oldest OutboxRow.createdAt limit w.db.pending)
        s.2 stats s.1)
      (fun _ _ _ => False) [] (w, []) := by
  unfold drainOutbox
  rw [Task.wp_bind]
  refine execute_hears ?_
  rw [Tables.view_nil, pendingOutbox_eval, Task.wp_ite]
  split
  · next hempty =>
      rw [List.isEmpty_iff.mp hempty]
      exact ⟨⟨{}, rfl⟩, List.forall_mem_nil _, fun _ _ => rfl, rfl, rfl, rfl⟩
  rw [Task.wp_bind]
  refine getEventProvider_hears fun bus => ?_
  rw [Task.wp_bind]
  refine publishEach_hears fun new w1 hnew hdb hclock => ?_
  have hlen : (oldest OutboxRow.createdAt limit w.db.pending).length = new.length := by
    have := congrArg List.length hnew
    rwa [List.length_map, List.length_map, eq_comm] at this
  -- The rows that were handed over are as they were selected.
  have hfst : ((oldest OutboxRow.createdAt limit w.db.pending).zip new).map (·.1) =
      oldest OutboxRow.createdAt limit w.db.pending := List.map_fst_zip hlen.le
  have hids : ((oldest OutboxRow.createdAt limit w.db.pending).zip new).map (fun x => x.1.id) =
      (oldest OutboxRow.createdAt limit w.db.pending).map (·.id) := by
    rw [← hfst, List.map_map, hfst]
    rfl
  have hget : ∀ x ∈ (oldest OutboxRow.createdAt limit w.db.pending).zip new,
      w.db.outbox.get? x.1.id = some x.1 := by
    intro x hx
    have hmem := mem_of_mem_oldest (List.of_mem_zip hx).1
    exact Table.get?_of_mem (List.mem_filter.mp hmem).1
  obtain ⟨d, hwrite, hmarked, hother, hp, hi⟩ := write?_marks (d := w.db)
    ((oldest OutboxRow.createdAt limit w.db.pending).zip new) (hids ▸ nodup_ids) hget
  rw [Task.wp_bind]
  refine commit_hears (d := d) ?_ ?_
  · rw [hdb, hclock]
    exact hwrite
  · refine ⟨⟨bus, hnew⟩, hmarked, fun i hout => hother i (hids ▸ hout), ?_, hp, hi⟩
    rw [foldl_add, List.nil_append]
    simp only [Nat.zero_add, List.count_eq_countP, List.countP_map]
    congr 2
    · funext a
      cases h : a.sent <;> simp [h]
    · funext a
      cases h : a.sent <;> simp [h]

end One

/-! ## Consecutive drains -/

/-- The world some time later: the rows are as they were, and every new one is pending
and has a later `created_at`. -/
structure Enqueued (w w' : World) : Prop where
  kept : ∀ r ∈ w.db.outbox.rows, r ∈ w'.db.outbox.rows
  new : ∀ r ∈ w'.db.outbox.rows, r ∈ w.db.outbox.rows ∨
    r.status = .pending ∧ ∀ r' ∈ w.db.outbox.rows, r'.createdAt < r.createdAt
  distinct : (w'.db.outbox.rows.map (·.createdAt)).Nodup

/-- The limit of a drain, and what it handed to the event provider. -/
structure Drain where
  limit : Nat
  attempts : List Attempt

/-- The rows handed over, in order. -/
def Drain.handed (d : Drain) : List OutboxId := d.attempts.map (·.publication.eventId)

/-- What a solo drain hands to the event provider. -/
def attemptsOf (limit : Nat) (producer : String) (env : Nat → Env) (w : World) : List Attempt :=
  (((drainOutbox limit producer).program .drained).heard handle env w).filterMap attempt?

/-- Drains one after another, with new rows before each. -/
inductive Drains : World → List Drain → World → Prop
  | nil (w : World) : Drains w [] w
  | cons {w w1 w2 : World} {ds : List Drain} (limit : Nat) (producer : String) (env : Nat → Env) :
      Enqueued w w1 →
      ((drainOutbox limit producer).program .drained).Suits handle OnlyPublishFails env w1 →
      Drains (((drainOutbox limit producer).program .drained).solo handle env w1).2 ds w2 →
      Drains w (⟨limit, attemptsOf limit producer env w1⟩ :: ds) w2

/-- The `limit` oldest pending rows, or all of them, in the order of `created_at`. -/
structure OldestPending (limit : Nat) (d : Tables) (rows : List OutboxRow) : Prop where
  pending : ∀ r ∈ rows, r ∈ d.pending
  length : rows.length = min limit d.pending.length
  ordered : rows.Pairwise fun a b => a.createdAt < b.createdAt
  oldest : ∀ a ∈ rows, ∀ b ∈ d.pending, b ∉ rows → a.createdAt < b.createdAt

section Runs

variable {w w1 w2 : World} {limit : Nat} {producer : String} {rows : List OutboxRow}
  {attempts : List Attempt} {stats : DrainStats} {ds : List Drain}

theorem drainOutbox_solo (limit : Nat) (producer : String) {env : Nat → Env} {w : World}
    (henv : ((drainOutbox limit producer).program .drained).Suits handle OnlyPublishFails env w) :
    ∃ stats, (((drainOutbox limit producer).program .drained).solo handle env w).1 = .ok
      (.drained stats) ∧
      Drained producer w (oldest OutboxRow.createdAt limit w.db.pending)
        (attemptsOf limit producer env w) stats
        (((drainOutbox limit producer).program .drained).solo handle env w).2 := by
  have hfold : ((drainOutbox limit producer).program .drained).fold hearing
      (fun x s => ∃ stats, x = .ok (.drained stats) ∧
        Drained producer w (oldest OutboxRow.createdAt limit w.db.pending) s.2 stats s.1)
          (w, []) := by
    rw [Job.program, Prog.fold_bind]
    refine Prog.turn_mono ?_ (drainOutbox_hears limit producer w)
    rintro ⟨x | stats, ws⟩ s h
    · exact h.elim
    · exact ⟨stats, rfl, h⟩
  have hend := Prog.solo_of_turn hfold (Prog.suits_tracked hear henv [])
  rw [Prog.solo_tracked, foldl_hear_attempts, List.nil_append] at hend
  exact hend

theorem nodup_createdAt_inj {d : Tables} (h : (d.outbox.rows.map (·.createdAt)).Nodup)
    {a b : OutboxRow} (ha : a ∈ d.outbox.rows) (hb : b ∈ d.outbox.rows)
    (heq : a.createdAt = b.createdAt) : a = b :=
  List.inj_on_of_nodup_map h ha hb heq

theorem oldestPending_oldest {d : Tables} (h : (d.outbox.rows.map (·.createdAt)).Nodup) :
    OldestPending limit d (oldest OutboxRow.createdAt limit d.pending) := by
  have hrow : ∀ r ∈ d.pending, r ∈ d.outbox.rows := fun r hr => (List.mem_filter.mp hr).1
  have hnodup : d.pending.Nodup := (List.Nodup.of_map _ d.outbox.nodup).filter _
  refine ⟨fun r => mem_of_mem_oldest, length_oldest, ?_, fun a ha b hb hleft => ?_⟩
  · refine ((sorted_oldest.and (nodup_oldest hnodup)).imp_of_mem ?_)
    rintro a b ha hb ⟨hle, hne⟩
    refine lt_of_le_of_ne hle fun heq => hne ?_
    exact nodup_createdAt_inj h (hrow a (mem_of_mem_oldest ha)) (hrow b (mem_of_mem_oldest hb)) heq
  · refine lt_of_le_of_ne (oldest_le ha hb hleft) fun heq => hleft ?_
    exact nodup_createdAt_inj h (hrow a (mem_of_mem_oldest ha)) (hrow b hb) heq ▸ ha

theorem mem_pending_iff {d : Tables} {r : OutboxRow} :
    r ∈ d.pending ↔ d.outbox.get? r.id = some r ∧ r.status = .pending := by
  rw [Tables.pending, List.mem_filter, decide_eq_true_eq]
  exact and_congr_left fun _ => ⟨Table.get?_of_mem, fun h => (Table.get?_eq_some.mp h).1⟩

theorem Drained.handed_ids (h : Drained producer w rows attempts stats w2) :
    attempts.map (·.publication.eventId) = rows.map (·.id) := by
  obtain ⟨bus, hbus⟩ := h.handed
  have hids := congrArg (List.map (·.eventId)) hbus
  rwa [List.map_map, List.map_map] at hids

/-- Every row that was handed over has left the pending ones. -/
theorem Drained.settled (h : Drained producer w rows attempts stats w2) {r : OutboxRow}
    (hr : r ∈ rows) :
    ∃ r', w2.db.outbox.get? r.id = some r' ∧ r'.status ≠ .pending := by
  have hlen : rows.length = attempts.length := by
    have := congrArg List.length h.handed_ids
    rwa [List.length_map, List.length_map, eq_comm] at this
  have hzip : r ∈ (rows.zip attempts).map (·.1) := by
    rwa [List.map_fst_zip hlen.le]
  obtain ⟨⟨r', a⟩, hx, rfl⟩ := List.mem_map.mp hzip
  refine ⟨_, h.marked _ hx, ?_⟩
  cases a.answer <;> simp [OutboxRow.marked]

/-- A row that is no longer pending stays as it is, and is not handed over. -/
theorem Drains.settled_stays (h : Drains w ds w2) {i : OutboxId} {r : OutboxRow}
    (hr : w.db.outbox.get? i = some r) (hsettled : r.status ≠ .pending) :
    w2.db.outbox.get? i = some r ∧ ∀ d ∈ ds, i ∉ d.handed := by
  induction h with
  | nil w => exact ⟨hr, List.forall_mem_nil _⟩
  | @cons w w1 w2 ds limit producer env henqueued henv _ ih =>
      have hid : r.id = i := Table.get?_key hr
      have hr1 : w1.db.outbox.get? i = some r :=
        Table.get?_eq_some.mpr ⟨henqueued.kept r (Table.get?_eq_some.mp hr).1, hid⟩
      obtain ⟨stats, _, hdrained⟩ := drainOutbox_solo limit producer henv
      have hout : i ∉ (oldest OutboxRow.createdAt limit w1.db.pending).map (·.id) := by
        intro hmem
        obtain ⟨r', hr', hid'⟩ := List.mem_map.mp hmem
        obtain ⟨hget, hpending⟩ := mem_pending_iff.mp (mem_of_mem_oldest hr')
        rw [hid', hr1] at hget
        cases hget
        exact hsettled hpending
      obtain ⟨hend, hrest⟩ := ih ((hdrained.others i hout).trans hr1)
      refine ⟨hend, List.forall_mem_cons.mpr ⟨?_, hrest⟩⟩
      rw [Drain.handed, hdrained.handed_ids]
      exact hout

/-- No row is handed over twice. -/
theorem Drains.handed_once (h : Drains w ds w2) : (ds.flatMap Drain.handed).Nodup := by
  induction h with
  | nil w => exact List.nodup_nil
  | cons limit producer env _ henv hrest ih =>
      obtain ⟨stats, _, hdrained⟩ := drainOutbox_solo limit producer henv
      rw [List.flatMap_cons, List.nodup_append]
      have hids : Drain.handed ⟨limit, attemptsOf limit producer env _⟩ = _ := hdrained.handed_ids
      refine ⟨hids ▸ nodup_ids, ih, ?_⟩
      rintro i hi j hj rfl
      obtain ⟨d, hd, hjd⟩ := List.mem_flatMap.mp hj
      rw [hids] at hi
      obtain ⟨r, hr, rfl⟩ := List.mem_map.mp hi
      obtain ⟨r', hr', hsettled⟩ := hdrained.settled hr
      exact (hrest.settled_stays hr' hsettled).2 d hd hjd

theorem Enqueued.ahead {waiting : List OutboxRow} (h : Enqueued w w1)
    (hahead : Ahead OutboxRow.createdAt w.db.pending waiting) :
    Ahead OutboxRow.createdAt w1.db.pending waiting := by
  refine ⟨fun a ha => ?_, fun a ha b hb hout => ?_⟩
  · obtain ⟨hrow, hpending⟩ := List.mem_filter.mp (hahead.mem a ha)
    exact List.mem_filter.mpr ⟨h.kept a hrow, hpending⟩
  · obtain ⟨hrow, hpending⟩ := List.mem_filter.mp hb
    rcases h.new b hrow with hold | ⟨_, hlater⟩
    · exact hahead.older a ha b (List.mem_filter.mpr ⟨hold, hpending⟩) hout
    · exact hlater a (List.mem_filter.mp (hahead.mem a ha)).1

theorem Drained.ahead {waiting : List OutboxRow}
    (h : Drained producer w1 (oldest OutboxRow.createdAt limit w1.db.pending) attempts stats w2)
    (hahead : Ahead OutboxRow.createdAt w1.db.pending waiting) :
    Ahead OutboxRow.createdAt w2.db.pending
      (waiting.filter fun a => a ∉ oldest OutboxRow.createdAt limit w1.db.pending) := by
  refine ⟨fun a ha => ?_, fun a ha b hb hout => ?_⟩
  · obtain ⟨ha, hleft⟩ := List.mem_filter.mp ha
    obtain ⟨hget, hpending⟩ := mem_pending_iff.mp (hahead.mem a ha)
    refine mem_pending_iff.mpr ⟨(h.others a.id fun hmem => ?_).trans hget, hpending⟩
    obtain ⟨r, hr, hid⟩ := List.mem_map.mp hmem
    have hgetr := (mem_pending_iff.mp (mem_of_mem_oldest hr)).1
    rw [hid, hget] at hgetr
    cases hgetr
    exact of_decide_eq_true hleft hr
  · -- What is pending after the drain was pending before it, and was left by it.
    obtain ⟨hget, hpending⟩ := mem_pending_iff.mp hb
    have hkept : b.id ∉ (oldest OutboxRow.createdAt limit w1.db.pending).map (·.id) := by
      intro hmem
      obtain ⟨r, hr, hid⟩ := List.mem_map.mp hmem
      obtain ⟨r', hr', hsettled⟩ := h.settled hr
      rw [hid, hget] at hr'
      cases hr'
      exact hsettled hpending
    rw [h.others b.id hkept] at hget
    have hleft : b ∉ oldest OutboxRow.createdAt limit w1.db.pending := fun hmem =>
      hkept (List.mem_map.mpr ⟨b, hmem, rfl⟩)
    refine hahead.older a (List.mem_filter.mp ha).1 b (mem_pending_iff.mpr ⟨hget, hpending⟩)
      fun hmem => ?_
    exact hout (List.mem_filter.mpr ⟨hmem, decide_eq_true hleft⟩)

/-- The batches of a run, for rows that are ahead of all others. -/
theorem Drains.queued (h : Drains w ds w2) {waiting : List OutboxRow}
    (hahead : Ahead OutboxRow.createdAt w.db.pending waiting) :
    ∃ rounds, rounds.map (·.1) = ds.map Drain.limit ∧ Queued OutboxRow.createdAt waiting rounds ∧
      ∀ round ∈ rounds, ∀ r ∈ oldest OutboxRow.createdAt round.1 round.2,
        (∃ d ∈ ds, r.id ∈ d.handed) ∧
        ∃ r', w2.db.outbox.get? r.id = some r' ∧ r'.status ≠ .pending := by
  induction h generalizing waiting with
  | nil w => exact ⟨[], rfl, trivial, List.forall_mem_nil _⟩
  | @cons w w1 w2 ds limit producer env henqueued henv hrest ih =>
      obtain ⟨stats, _, hdrained⟩ := drainOutbox_solo limit producer henv
      have hahead1 := henqueued.ahead hahead
      obtain ⟨rounds, hlimits, hqueued, hserved⟩ := ih (hdrained.ahead hahead1)
      have hnodup : w1.db.pending.Nodup := (List.Nodup.of_map _ w1.db.outbox.nodup).filter _
      refine ⟨(limit, w1.db.pending) :: rounds, ?_, ⟨hnodup, hahead1, hqueued⟩,
        List.forall_mem_cons.mpr ⟨fun r hr => ⟨?_, ?_⟩, fun round hround r hr => ?_⟩⟩
      · rw [List.map_cons, List.map_cons, hlimits]
      · refine ⟨_, List.mem_cons_self, ?_⟩
        rw [Drain.handed, hdrained.handed_ids]
        exact List.mem_map.mpr ⟨r, hr, rfl⟩
      · obtain ⟨r', hr', hsettled⟩ := hdrained.settled hr
        exact ⟨r', (hrest.settled_stays hr' hsettled).1, hsettled⟩
      · obtain ⟨⟨d, hd, hmem⟩, hend⟩ := hserved round hround r hr
        exact ⟨⟨d, List.mem_cons_of_mem _ hd, hmem⟩, hend⟩

/-- Everything pending is handed over, by as many drains as it has batches. -/
theorem Drains.served (h : Drains w ds w2) (hfew : w.db.pending.length ≤ (ds.map Drain.limit).sum) :
    ∀ r ∈ w.db.pending, (∃ d ∈ ds, r.id ∈ d.handed) ∧
      ∃ r', w2.db.outbox.get? r.id = some r' ∧ r'.status ≠ .pending := by
  obtain ⟨rounds, hlimits, hqueued, hserved⟩ := h.queued
    ⟨fun _ => id, fun a _ b hb hout => absurd hb hout⟩
  have hnodup : w.db.pending.Nodup := (List.Nodup.of_map _ w.db.outbox.nodup).filter _
  intro r hr
  obtain ⟨round, hround, hmem⟩ := hqueued.served hnodup (hlimits ▸ hfew) r hr
  exact hserved round hround r hmem

end Runs

/-- Whichever publications fail, one drain hands over the oldest pending rows, marks them
by the answers and counts them; no sequence of drains hands a row over twice, and `n`
pending rows are all handed over, and no longer pending, after `⌈n / limit⌉` of them. -/
theorem drainOutbox_backlog :
    (∀ (limit : Nat) (producer : String) (env : Nat → Env) (w : World),
      (w.db.outbox.rows.map (·.createdAt)).Nodup →
      ((drainOutbox limit producer).program .drained).Suits handle OnlyPublishFails env w →
      ∃ rows stats, OldestPending limit w.db rows ∧
        (((drainOutbox limit producer).program .drained).solo handle env w).1 = .ok
          (.drained stats) ∧
        Drained producer w rows (attemptsOf limit producer env w) stats
          (((drainOutbox limit producer).program .drained).solo handle env w).2) ∧
    ∀ (w w' : World) (ds : List Drain), Drains w ds w' →
      (ds.flatMap Drain.handed).Nodup ∧
      ∀ limit, 0 < limit → (∀ d ∈ ds, d.limit = limit) → w.db.pending.length ⌈/⌉ limit ≤ ds.length →
        ∀ r ∈ w.db.pending, (∃ d ∈ ds, r.id ∈ d.handed) ∧
          ∃ r', w'.db.outbox.get? r.id = some r' ∧ r'.status ≠ .pending := by
  refine ⟨fun limit producer env w hdistinct henv => ?_, fun w w' ds h => ⟨h.handed_once, ?_⟩⟩
  · obtain ⟨stats, hreply, hdrained⟩ := drainOutbox_solo limit producer henv
    exact ⟨_, stats, oldestPending_oldest hdistinct, hreply, hdrained⟩
  · intro limit hlimit hsame henough
    refine h.served ?_
    have hsum : (ds.map Drain.limit).sum = ds.length * limit := by
      rw [List.map_congr_left hsame, List.map_const', List.sum_replicate, smul_eq_mul]
    rw [hsum, Nat.mul_comm]
    exact (ceilDiv_le_iff_le_mul hlimit).mp henough

theorem Enqueued.refl {w : World} (h : (w.db.outbox.rows.map (·.createdAt)).Nodup) : Enqueued w w :=
  ⟨fun _ => id, fun _ hr => .inl hr, h⟩

def threeEvents : World where
  db :=
    { outbox := .of
        [{ id := 1, eventType := "ip.allocated", payload := .other "", createdAt := 3 },
         { id := 2, eventType := "ip.released", payload := .other "", createdAt := 1 },
         { id := 3, eventType := "ip.rotated", payload := .other "", createdAt := 2 }] }

/-- The second publication of the first drain fails. -/
def secondFails (n : Nat) : Env := if n = 5 then { fault := some .failed } else {}

def onlyPublishFailsCheck : Req → Env → Bool
  | .publish _, e => e.fault != some .cancelled
  | _, e => e.fault.isNone

theorem onlyPublishFails_of_check (r : Req) (e : Env) (h : onlyPublishFailsCheck r e = true) :
    OnlyPublishFails r e := by
  cases r with
  | publish p => exact bne_iff_ne.mp h
  | _ => exact Option.isNone_iff_eq_none.mp h

/-- Two drains of two rows at most: the first hands over the events 2 and 3, the second event 1. -/
theorem drainOutbox_backlog_threeEvents :
    (∃ rows stats, OldestPending 2 threeEvents.db rows ∧
      (((drainOutbox 2 "worker").program .drained).solo handle secondFails threeEvents).1 =
        .ok (.drained stats) ∧
      Drained "worker" threeEvents rows (attemptsOf 2 "worker" secondFails threeEvents) stats
        (((drainOutbox 2 "worker").program .drained).solo handle secondFails threeEvents).2) ∧
    ∃ ds w', Drains threeEvents ds w' ∧ ds.map Drain.handed = [[2, 3], [1]] ∧
      ∀ r ∈ threeEvents.db.pending, (∃ d ∈ ds, r.id ∈ d.handed) ∧
        ∃ r', w'.db.outbox.get? r.id = some r' ∧ r'.status ≠ .pending := by
  have hfirst : ((drainOutbox 2 "worker").program .drained).Suits handle OnlyPublishFails
      secondFails threeEvents :=
    Prog.suits_of_check onlyPublishFails_of_check (by decide)
  have hruns := Drains.cons 2 "worker" secondFails (Enqueued.refl (by decide)) hfirst
    (.cons 2 "worker" (fun _ => {}) (Enqueued.refl (by decide))
      (Prog.suits_of_check onlyPublishFails_of_check (by decide)) (.nil _))
  refine ⟨drainOutbox_backlog.1 2 "worker" secondFails threeEvents (by decide) hfirst,
    _, _, hruns, by decide, ?_⟩
  exact (drainOutbox_backlog.2 _ _ _ hruns).2 2 (by decide) (by simp) (by decide)

end BrokerBridge.Admin
