import BrokerBridge.Admin.Drains

/-!
# Sent means published

Drains overlap, stop half-way and repeat each other's work, but none marks a row sent that
it has not published, and what it publishes is the event of a row that is in the table. So
whatever is interrupted, an event leaves the backlog only once it is out.
-/

namespace BrokerBridge.Admin

open Conc

/-! ## The protocol -/

/-- The rows a call has selected, and the ids of those it has published. -/
structure Delivery where
  rows : List OutboxRow := []
  published : List OutboxId := []

/-- The publication is of this row. -/
def Publication.Carries (p : Publication) (row : OutboxRow) : Prop :=
  ∃ bus producer, p = publication bus producer row

/-- A new row is pending, and a row is marked sent only if it was published. -/
def Write.Honest (ids : List OutboxId) : Write → Prop
  | addOutbox row => row.status = .pending
  | setOutbox x (.status .sent) => x ∈ ids
  | _ => True

/-- The pending writes are honest. -/
def Delivery.Honours (ph : Delivery) (ws : List Write) : Prop := ∀ w ∈ ws, w.Honest ph.published

def delivery : Protocol Req Req.Ans Delivery where
  allows
    | ph, .publish p => ∃ row ∈ ph.rows, p.Carries row
    | _, .query ws (.pendingOutbox _) => ws = []
    | ph, .commit ws => ph.Honours ws
    | _, _ => True
  advance
    | ph, .query _ (.pendingOutbox _), .ok rows => { ph with rows := ph.rows ++ rows }
    | ph, .publish p, .ok _ => { ph with published := p.eventId :: ph.published }
    | ph, _, _ => ph

/-- The requests that every phase allows, and none is changed by. -/
def Req.plain : Req → Prop
  | .publish _ | .query _ (.pendingOutbox _) | .commit _ => False
  | _ => True

theorem delivery_plain {r : Req} (h : r.plain) (ph : Delivery) :
    delivery.allows ph r ∧ ∀ x, delivery.advance ph r x = ph := by
  cases r with
  | publish p => exact h.elim
  | commit ws => exact h.elim
  | query ws q =>
      cases q with
      | pendingOutbox limit => exact h.elim
      | _ => exact ⟨trivial, fun _ => rfl⟩
  | _ => exact ⟨trivial, fun _ => rfl⟩

theorem Write.Honest.mono {ids ids' : List OutboxId} {w : Write} (h : w.Honest ids)
    (hids : ∀ x ∈ ids, x ∈ ids') : w.Honest ids' := by
  cases w with
  | setOutbox x f =>
      cases f with
      | status st =>
          cases st with
          | sent => exact hids x h
          | _ => trivial
      | _ => trivial
  | addOutbox row => exact h
  | _ => trivial

theorem Delivery.Honours.stage {ph : Delivery} {ws : List Write} {w : Write} (h : ph.Honours ws)
    (hw : w.Honest ph.published) : ph.Honours (ws ++ [w]) := by
  intro w' hw'
  rcases List.mem_append.mp hw' with hw' | hw'
  · exact h w' hw'
  · exact List.mem_singleton.mp hw' ▸ hw

/-! ## Jobs that keep their writes honest -/

/-- However the job ends, its pending writes are honest if they were before. -/
def Honestly {α : Type} (t : Job α) : Prop :=
  ∀ (ws : List Write) (ph : Delivery), ph.Honours ws →
    Task.wp delivery.step t (fun _ ws' ph' => ph'.Honours ws') (fun _ ws' ph' =>
      ph'.Honours ws') ws ph

section Rules

variable {α β : Type}

theorem Honestly.pure (x : α) : Honestly (pure x : Job α) := fun _ _ h => h

theorem Honestly.raise (e : Exn) : Honestly (Task.raise e : Job α) := fun _ _ h => h

theorem Honestly.bind {t : Job α} {f : α → Job β} (ht : Honestly t) (hf : ∀ x, Honestly (f x)) :
    Honestly (t >>= f) := by
  intro ws ph h
  rw [Task.wp_bind]
  exact Task.wp_step_mono (ht ws ph h) (fun x ws' ph' h' => hf x ws' ph' h') fun _ _ _ => id

theorem Honestly.ite {c : Prop} [Decidable c] {t u : Job α} (ht : Honestly t) (hu : Honestly u) :
    Honestly (if c then t else u) := by
  split
  · exact ht
  · exact hu

theorem Honestly.ask {r : Req} (h : r.plain) : Honestly (Task.ask r : Job r.Ans) := by
  intro ws ph hws
  obtain ⟨hallows, hstays⟩ := delivery_plain h ph
  refine ⟨hallows, fun x => ?_⟩
  rw [hstays x]
  exact hws

theorem Honestly.ofAnswer (x : Except Exn α) : Honestly (ofAnswer x) := by
  cases x
  · exact Honestly.raise _
  · exact Honestly.pure _

theorem Honestly.execute {q : Query} (h : ∀ ws, (Req.query ws q).plain) : Honestly (execute q) := by
  intro ws ph hws
  rw [wp_execute]
  obtain ⟨hallows, hstays⟩ := delivery_plain (h ws) ph
  refine ⟨hallows, fun x => ?_⟩
  rw [hstays x]
  cases x <;> exact hws

theorem Honestly.commit : Honestly commit := by
  intro ws ph hws
  rw [wp_commit]
  refine ⟨hws, fun x => ?_⟩
  cases x
  · exact hws
  · exact List.forall_mem_nil _

theorem Honestly.stage {w : Write} (hw : ∀ ids, w.Honest ids) : Honestly (stage w) :=
  fun _ _ h => h.stage (hw _)

theorem Honestly.refreshed (x : Option α) : Honestly (refreshed x) := by
  cases x
  · exact Honestly.raise _
  · exact Honestly.pure _

theorem Honestly.enqueueOutbox (eventType topic : String) (p : Payload) :
    Honestly (enqueueOutbox eventType topic p) :=
  Honestly.bind (Honestly.ask trivial) fun _ => Honestly.stage fun _ => rfl

end Rules

section Jobs

theorem validateBody_honest (s : ConsoleSettings) (k : ProviderKind) (body : ActivateRequest) :
    Honestly (validateBody s k body) := by
  refine Honestly.bind (Honestly.ofAnswer _) fun config => Honestly.ite ?_ (Honestly.pure _)
  refine Honestly.bind (Honestly.ofAnswer _) fun checked => ?_
  obtain ⟨config, message⟩ := checked
  cases message with
  | none => exact Honestly.pure _
  | some message =>
      refine Honestly.bind ?_ fun _ => Honestly.pure _
      refine Honestly.bind (Honestly.ask trivial) fun x => ?_
      refine Honestly.bind (Honestly.ofAnswer x) fun probe => ?_
      exact Honestly.ite (Honestly.pure _) (Honestly.raise _)

theorem retireActive_honest (k : ProviderKind) : Honestly (retireActive k) := by
  intro ws ph hws
  refine ⟨trivial, fun x => ?_⟩
  cases x with
  | error e => exact hws
  | ok ids =>
      intro w hmem
      rcases List.mem_append.mp hmem with hmem | hmem
      · exact hws w hmem
      · obtain ⟨i, _, rfl⟩ := List.mem_map.mp hmem
        trivial

theorem activateProvider_honest (s : ConsoleSettings) (kind : String) (body : ActivateRequest) :
    Honestly (activateProvider s kind body) := by
  unfold activateProvider
  split
  · exact Honestly.raise _
  refine Honestly.bind (validateBody_honest s _ body) fun config => ?_
  refine Honestly.bind (Honestly.execute fun _ => trivial) fun latest => ?_
  refine Honestly.bind (retireActive_honest _) fun _ =>
    Honestly.bind (Honestly.ask trivial) fun id => ?_
  refine Honestly.bind ?_ fun t => Honestly.bind (Honestly.stage fun _ => trivial) fun _ => ?_
  · exact Honestly.ite (Honestly.bind (Honestly.ask trivial) fun _ => Honestly.pure _)
      (Honestly.pure _)
  refine Honestly.bind (Honestly.ite (Honestly.enqueueOutbox _ _ _) (Honestly.pure _)) fun _ => ?_
  exact Honestly.bind Honestly.commit fun _ => Honestly.bind (Honestly.execute fun _ => trivial)
    fun row => Honestly.refreshed row

theorem putConfig_honest (key value : String) (user : UserId) :
    Honestly (putConfig key value user) := by
  have hread : ∀ i, Honestly (BrokerBridge.Admin.execute (.itemById i) >>= refreshed) := fun i =>
    Honestly.bind (Honestly.execute fun _ => trivial) fun row => Honestly.refreshed row
  have hset : ∀ i f, Honestly (BrokerBridge.Admin.stage (.setItem i f)) := fun _ _ =>
    Honestly.stage fun _ => trivial
  refine Honestly.bind (Honestly.bind (Honestly.execute fun _ => trivial) fun item => ?_)
    fun item => ?_
  · cases item with
    | none =>
        refine Honestly.bind (Honestly.ask trivial) fun id => ?_
        refine Honestly.bind (Honestly.stage fun _ => trivial) fun _ => ?_
        exact Honestly.bind Honestly.commit fun _ => hread _
    | some item =>
        refine Honestly.bind (hset _ _) fun _ => Honestly.bind (hset _ _) fun _ => ?_
        exact Honestly.bind (hset _ _) fun _ => Honestly.bind Honestly.commit fun _ => hread _
  refine Honestly.ite (Honestly.bind (Honestly.enqueueOutbox _ _ _) fun _ => ?_) (Honestly.pure _)
  exact Honestly.bind Honestly.commit fun _ => hread _

end Jobs

/-! ## Drains -/

section Drains

variable {ws : List Write} {ph : Delivery}

theorem publishOne_delivers (bus : EventBus) (producer : String) {row : OutboxRow}
    (hrow : row ∈ ph.rows) (hws : ph.Honours ws) {Q : Bool → List Write → Delivery → Prop}
    {E : Exn → List Write → Delivery → Prop}
    (hQ : ∀ b ws' ph', ph'.Honours ws' → ph'.rows = ph.rows → Q b ws' ph')
    (hE : ∀ e ws' ph', ph'.Honours ws' → E e ws' ph') :
    Task.wp delivery.step (publishOne bus producer row) Q E ws ph := by
  unfold publishOne
  rw [Task.wp_catching, Task.wp_bind, Task.wp_ask]
  refine ⟨⟨row, hrow, bus, producer, rfl⟩, fun x => ?_⟩
  beta_reduce
  rw [Task.wp_bind, wp_ofAnswer]
  cases x with
  | ok _ =>
      rw [cases_ok, Task.wp_bind, wp_setOutbox, Task.wp_bind, wp_now]
      refine ⟨trivial, fun t => ?_⟩
      beta_reduce
      rw [Task.wp_bind, wp_setOutbox]
      -- It was published just now.
      have hpublished : Delivery.Honours { ph with published := row.id :: ph.published } ws :=
        fun w hw => (hws w hw).mono fun x hx => List.mem_cons_of_mem _ hx
      have hsent : Delivery.Honours { ph with published := row.id :: ph.published }
          (ws ++ [.setOutbox row.id (.status .sent)]) := hpublished.stage List.mem_cons_self
      exact hQ _ _ _ (hsent.stage trivial) rfl
  | error e =>
      rw [cases_error, Task.wp_ite]
      split
      · rw [Task.wp_bind, wp_setOutbox, Task.wp_bind, wp_setOutbox]
        have herror : ph.Honours (ws ++ [.setOutbox row.id (.status .error)]) := hws.stage trivial
        exact hQ _ _ _ (herror.stage trivial) rfl
      · exact hE _ _ _ hws

theorem publishEach_delivers (bus : EventBus) (producer : String) (rows : List OutboxRow)
    (stats : DrainStats) (hrows : ∀ row ∈ rows, row ∈ ph.rows) (hws : ph.Honours ws) :
    Task.wp delivery.step (publishEach bus producer rows stats)
      (fun _ ws' ph' => ph'.Honours ws') (fun _ ws' ph' => ph'.Honours ws') ws ph := by
  induction rows generalizing stats ws ph with
  | nil => exact hws
  | cons row rows ih =>
      unfold publishEach
      rw [Task.wp_bind]
      refine publishOne_delivers bus producer (hrows row List.mem_cons_self) hws
        (fun b ws' ph' hws' hkept => ih _ (fun row' hrow' => ?_) hws') fun _ _ _ => id
      rw [hkept]
      exact hrows row' (List.mem_cons_of_mem _ hrow')

theorem getEventProvider_delivers {Q : EventBus → List Write → Delivery → Prop}
    {E : Exn → List Write → Delivery → Prop} (hQ : ∀ bus, Q bus ws ph) (hE : ∀ e, E e ws ph) :
    Task.wp delivery.step getEventProvider Q E ws ph := by
  unfold getEventProvider
  rw [Task.wp_bind, wp_execute]
  refine ⟨trivial, fun x => ?_⟩
  cases x with
  | error e => exact hE e
  | ok _ =>
      refine ⟨trivial, fun y => ?_⟩
      cases y with
      | error e => exact hE e
      | ok bus => exact hQ bus

theorem drainOutbox_delivers (limit : Nat) (producer : String) :
    Task.wp delivery.step (drainOutbox limit producer) (fun _ ws' ph' => ph'.Honours ws')
      (fun _ ws' ph' => ph'.Honours ws') [] ph := by
  have hnil : ∀ ph : Delivery, ph.Honours [] := fun _ => List.forall_mem_nil _
  unfold drainOutbox
  rw [Task.wp_bind, wp_execute]
  refine ⟨rfl, fun x => ?_⟩
  cases x with
  | error e => exact hnil _
  | ok rows =>
      rw [cases_ok, Task.wp_ite]
      split
      · exact hnil _
      · rw [Task.wp_bind]
        refine getEventProvider_delivers (fun bus => ?_) fun e => hnil _
        rw [Task.wp_bind]
        refine Task.wp_step_mono (publishEach_delivers bus producer rows {} ?_ (hnil _))
          (fun stats ws' ph' hws' => ?_) fun _ _ _ => id
        · exact fun row hrow => List.mem_append_right _ hrow
        · exact Honestly.bind Honestly.commit (fun _ => Honestly.pure stats) ws' ph' hws'

theorem programOf_delivers (s : ConsoleSettings) (c : Call) :
    (programOf s c).Follows delivery (fun _ _ => True) {} := by
  have hnil : ∀ ph : Delivery, ph.Honours [] := fun _ => List.forall_mem_nil _
  have hprogram : ∀ {α : Type} {t : Job α} {reply : α → Reply},
      Task.wp delivery.step t (fun _ ws ph => ph.Honours ws) (fun _ ws ph => ph.Honours ws) [] {} →
      (t.program reply).Follows delivery (fun _ _ => True) {} := by
    intro α t reply h
    show (Prog.bind (t []) _).fold delivery.step _ {}
    rw [Prog.fold_bind]
    exact Prog.step_mono (fun _ _ _ => trivial) h
  cases c with
  | activate kind body => exact hprogram (activateProvider_honest s kind body [] {} (hnil _))
  | putConfig key value user => exact hprogram (putConfig_honest key value user [] {} (hnil _))
  | drain limit => exact hprogram (drainOutbox_delivers limit _)
  | publisherRound last =>
      refine hprogram ?_
      unfold publisherRound
      rw [Task.wp_catching]
      have hcaught : ∀ (e : Exn) (ws : List Write) (ph : Delivery), ph.Honours ws →
          Task.wp delivery.step
            (if e.isException then (pure {} : Job DrainStats) else Task.raise e)
            (fun _ ws' ph' => ph'.Honours ws') (fun _ ws' ph' => ph'.Honours ws') ws ph :=
        fun e => Honestly.ite (Honestly.pure _) (Honestly.raise _)
      have hdrain : ∀ ph : Delivery,
          Task.wp delivery.step (drainOutbox 50 "brokerbridge-worker")
            (fun _ ws' ph' => ph'.Honours ws')
            (fun e ws' ph' => Task.wp delivery.step
              (if e.isException then (pure {} : Job DrainStats) else Task.raise e)
              (fun _ ws' ph' => ph'.Honours ws') (fun _ ws' ph' => ph'.Honours ws') ws' ph') []
            ph :=
        fun ph => Task.wp_step_mono (drainOutbox_delivers 50 _) (fun _ _ _ => id) hcaught
      rw [Task.wp_bind, wp_execute]
      refine ⟨trivial, fun x => ?_⟩
      cases x with
      | error e => exact hcaught e [] _ (hnil _)
      | ok rows =>
          rw [cases_ok, Task.wp_ite]
          split
          · rw [Task.wp_bind]
            exact getEventProvider_delivers (fun _ => hdrain _) fun e => hcaught e [] _ (hnil _)
          · exact hdrain _
  | emitSimEvent t p =>
      refine hprogram ?_
      unfold emitSimEvent
      rw [Task.wp_bind]
      refine Task.wp_step_mono (Honestly.enqueueOutbox t "config" p [] {} (hnil _))
        (fun _ ws ph hws => ?_) fun _ _ _ => id
      rw [Task.wp_bind, wp_commit]
      refine ⟨hws, fun x => ?_⟩
      cases x with
      | error e => exact hws
      | ok _ => exact drainOutbox_delivers 20 _

end Drains

/-! ## Rows -/

/-- The row is in the table, whatever its marks are by now. -/
def Tables.Has (d : Tables) (row : OutboxRow) : Prop :=
  ∃ row', d.outbox.get? row.id = some row' ∧
    ∀ p : Publication, p.Carries row ↔ p.Carries row'

theorem Tables.has_self {d : Tables} {row : OutboxRow} (h : d.outbox.get? row.id = some row) :
    d.Has row := ⟨row, h, fun _ => Iff.rfl⟩

theorem carries_set (p : Publication) (f : OutboxRowField) (row : OutboxRow) :
    p.Carries row ↔ p.Carries (f.set row) := by
  cases f <;> exact Iff.rfl

section Writes

variable {now : Instant} {d d' : Tables} {ws : List Write} {row : OutboxRow}

/-- No write takes a row away or changes its event. -/
theorem Tables.Has.write (h : d.Has row) (hd : d.write? now ws = some d') : d'.Has row := by
  induction ws generalizing d with
  | nil =>
      cases hd
      exact h
  | cons w ws ih =>
      obtain ⟨_, hd⟩ := Tables.write?_cons.mp hd
      refine ih ?_ hd
      obtain ⟨row', hrow, hevent⟩ := h
      cases w with
      | addOutbox r => exact ⟨row', Table.get?_insert_of_some hrow, hevent⟩
      | setOutbox x f =>
          by_cases hx : row.id = x
          · refine ⟨f.set row', ?_, fun p => (hevent p).trans (carries_set p f row')⟩
            show (d.outbox.update x f).get? row.id = _
            rw [Table.get?_update, if_pos hx, ← hx, hrow]
            rfl
          · refine ⟨row', ?_, hevent⟩
            show (d.outbox.update x f).get? row.id = _
            rw [Table.get?_update, if_neg hx, hrow]
      | _ => exact ⟨row', hrow, hevent⟩

/-- A new row is pending, and no other changes. -/
theorem sent_of_insert {r : OutboxRow} (hr : r.status = .pending) {x : OutboxId}
    (hx : ((Write.addOutbox r).apply now d).statusOf x = some .sent) :
    d.statusOf x = some .sent := by
  obtain ⟨row, hrow, hsent⟩ := Option.map_eq_some_iff.mp hx
  have hins : (d.outbox.insert { r with createdAt := now }).get? x = some row := hrow
  have hold : d.outbox.get? x = some row := by
    by_cases hid : x = r.id
    · subst hid
      cases htaken : d.outbox.get? r.id with
      | some b => exact (Table.get?_insert_of_some htaken).symm.trans hins
      | none =>
          have hnew : (d.outbox.insert { r with createdAt := now }).get? r.id = some _ :=
            Table.get?_insert_self htaken
          rw [← Option.some_inj.mp (hnew.symm.trans hins)] at hsent
          cases hr.symm.trans hsent
    · have hkept : (d.outbox.insert { r with createdAt := now }).get? x = d.outbox.get? x :=
        Table.get?_insert_of_ne hid
      exact hkept.symm.trans hins
  exact Option.map_eq_some_iff.mpr ⟨row, hold, hsent⟩

/-- Honest writes mark no row sent but those that were published. -/
theorem sent_of_write {ids : List OutboxId} (hws : ∀ w ∈ ws, w.Honest ids)
    (hd : d.write? now ws = some d') {x : OutboxId} (hx : d'.statusOf x = some .sent) :
    d.statusOf x = some .sent ∨ x ∈ ids := by
  induction ws generalizing d with
  | nil =>
      cases hd
      exact .inl hx
  | cons w ws ih =>
      obtain ⟨_, hd⟩ := Tables.write?_cons.mp hd
      rcases ih (fun w' hw' => hws w' (List.mem_cons_of_mem _ hw')) hd with hsent | hmem
      · have hw := hws w List.mem_cons_self
        cases w with
        | addOutbox r => exact .inl (sent_of_insert hw hsent)
        | setOutbox y f =>
            rw [statusOf_setOutbox] at hsent
            split at hsent
            · next hy =>
                cases f with
                | status st =>
                    obtain ⟨_, _, rfl⟩ := Option.map_eq_some_iff.mp hsent
                    exact .inr (hy ▸ hw)
                | _ =>
                    obtain ⟨st, hst, rfl⟩ := Option.map_eq_some_iff.mp hsent
                    exact .inl hst
            · exact .inl hsent
        | _ => exact .inl hsent
      · exact .inr hmem

end Writes

/-! ## Runs -/

/-- A row that is marked sent was published, and what was published is the event of a row. -/
structure Honoured (w : World) : Prop where
  sent : ∀ x, w.db.statusOf x = some .sent → x ∈ w.publishedIds
  carried : ∀ p ∈ w.published, ∃ row, w.db.outbox.get? p.eventId = some row ∧ p.Carries row

/-- What a call has selected is in the table, and what it has published is out. -/
structure Delivery.Stands (ph : Delivery) (w : World) : Prop where
  rows : ∀ row ∈ ph.rows, w.db.Has row
  published : ∀ x ∈ ph.published, x ∈ w.publishedIds

/-- Nothing is lost. -/
structure World.Grows (w w' : World) : Prop where
  has : ∀ row, w.db.Has row → w'.db.Has row
  published : ∀ x ∈ w.publishedIds, x ∈ w'.publishedIds

theorem Delivery.Stands.grows {ph : Delivery} {w w' : World} (h : ph.Stands w) (hw : w.Grows w') :
    ph.Stands w' :=
  ⟨fun row hrow => hw.has row (h.rows row hrow), fun x hx => hw.published x (h.published x hx)⟩

/-- The publications so far are still of rows in the table. -/
theorem Honoured.carried_of_grows {w w' : World} (h : Honoured w) (hw : w.Grows w')
    (hp : w'.published = w.published) :
    ∀ p ∈ w'.published, ∃ row, w'.db.outbox.get? p.eventId = some row ∧ p.Carries row := by
  intro p hmem
  obtain ⟨row, hrow, hcarries⟩ := h.carried p (hp ▸ hmem)
  have hid : row.id = p.eventId := (Table.get?_eq_some.mp hrow).2
  obtain ⟨row', hrow', hevent⟩ := hw.has row (Tables.has_self (hid ▸ hrow))
  exact ⟨row', hid ▸ hrow', (hevent p).mp hcarries⟩

section Delivered

variable {ph : Delivery} {r : Req} {e : Env} {w : World}

theorem grows_handle : w.Grows (handle r e w).2 := by
  by_cases hc : ∃ ws, r = .commit ws
  · obtain ⟨ws, rfl⟩ := hc
    have hp : (handle (.commit ws) e w).2.published = w.published :=
      handle_published (fun _ h => by cases h) e w
    refine ⟨fun row hrow => ?_, fun x hx => ?_⟩
    · rcases commit_cases ws e w with ⟨f, hf⟩ | ⟨d, hd, hf⟩
      · rw [hf]
        exact hrow
      · rw [hf]
        exact hrow.write hd
    · rw [World.publishedIds, hp]
      exact hx
  · refine ⟨fun row hrow => ?_, fun x hx => ?_⟩
    · rw [handle_db fun ws h => hc ⟨ws, h⟩]
      exact hrow
    · by_cases hpub : ∃ p, r = .publish p
      · obtain ⟨p, rfl⟩ := hpub
        rcases publish_cases p e w with ⟨f, hf⟩ | hf
        · rw [hf]
          exact hx
        · rw [hf]
          exact List.mem_cons_of_mem _ hx
      · rw [World.publishedIds, handle_published fun p h => hpub ⟨p, h⟩]
        exact hx

theorem Honoured.congr {w' : World} (hw : Honoured w) (hdb : w'.db = w.db)
    (hp : w'.published = w.published) : Honoured w' := by
  refine ⟨fun x hx => ?_, ?_⟩
  · rw [hdb] at hx
    rw [World.publishedIds, hp]
    exact hw.sent x hx
  · rw [hdb, hp]
    exact hw.carried

theorem mem_of_selected {limit : Nat} {d : Tables} {row : OutboxRow}
    (h : row ∈ (Query.pendingOutbox limit).eval d) : d.Has row := by
  have hmem := List.mem_of_mem_take h
  rw [List.mem_insertionSort] at hmem
  exact Tables.has_self (Table.get?_of_mem (List.mem_filter.mp hmem).1)

/-- A request that the protocol allows keeps both. -/
theorem honoured_handle (hw : Honoured w) (hst : ph.Stands w) (hr : delivery.allows ph r) :
    Honoured (handle r e w).2 ∧
      (delivery.advance ph r (handle r e w).1).Stands (handle r e w).2 := by
  have hgrows : w.Grows (handle r e w).2 := grows_handle
  by_cases hplain : r.plain
  · have hdb : (handle r e w).2.db = w.db := handle_db (fun ws h => by subst h; exact hplain) e w
    have hp : (handle r e w).2.published = w.published :=
      handle_published (fun p h => by subst h; exact hplain) e w
    rw [(delivery_plain hplain ph).2]
    exact ⟨hw.congr hdb hp, hst.grows hgrows⟩
  cases r with
  | publish p =>
      obtain ⟨row, hrow, hcarries⟩ := hr
      rcases publish_cases p e w with ⟨f, hf⟩ | hf
      · rw [hf]
        exact ⟨hw, hst⟩
      · rw [hf]
        obtain ⟨row', hrow', hevent⟩ := hst.rows row hrow
        have hid : p.eventId = row.id := by
          obtain ⟨bus, producer, rfl⟩ := hcarries
          rfl
        refine ⟨⟨fun x hx => List.mem_cons_of_mem _ (hw.sent x hx), fun q hq => ?_⟩, hst.rows, ?_⟩
        · rcases List.mem_cons.mp hq with rfl | hq
          · exact ⟨row', hid ▸ hrow', (hevent q).mp hcarries⟩
          · exact hw.carried q hq
        · intro x hx
          rcases List.mem_cons.mp hx with rfl | hx
          · exact List.mem_cons_self
          · exact List.mem_cons_of_mem _ (hst.published x hx)
  | commit ws =>
      rcases commit_cases ws e w with ⟨f, hf⟩ | ⟨d, hd, hf⟩
      · rw [hf]
        exact ⟨hw, hst⟩
      · rw [hf] at hgrows ⊢
        refine ⟨⟨fun x hx => ?_, hw.carried_of_grows hgrows rfl⟩, hst.grows hgrows⟩
        rcases sent_of_write hr hd hx with hsent | hmem
        · exact hw.sent x hsent
        · exact hst.published x hmem
  | query ws q =>
      cases q with
      | pendingOutbox limit =>
          obtain rfl : ws = [] := hr
          rcases query_cases [] (.pendingOutbox limit) e w with ⟨f, hf⟩ | hf
          · rw [hf]
            exact ⟨hw, hst⟩
          · rw [hf]
            refine ⟨hw, fun row hrow => ?_, hst.published⟩
            rcases List.mem_append.mp hrow with hrow | hrow
            · exact hst.rows row hrow
            · exact mem_of_selected hrow
      | _ => exact absurd trivial hplain
  | _ => exact absurd trivial hplain

end Delivered

theorem grows_tick (v : Tick) (w : World) : w.Grows (tick v w) := by
  cases v with
  | advance n => exact ⟨fun _ => id, fun _ => id⟩
  | announce t topic payload =>
      refine ⟨fun row ⟨row', hrow, hevent⟩ => ?_, fun _ => id⟩
      exact ⟨row', Table.get?_insert_of_some hrow, hevent⟩

/-- Another service's event is pending. -/
theorem honoured_tick (v : Tick) {w : World} (hw : Honoured w) : Honoured (tick v w) := by
  have hgrows : w.Grows (tick v w) := grows_tick v w
  cases v with
  | advance n => exact hw.congr rfl rfl
  | announce t topic payload =>
      refine ⟨fun x hx => ?_, hw.carried_of_grows hgrows rfl⟩
      exact hw.sent x
        (sent_of_insert (r := { id := w.freshId, eventType := t, topic, payload }) rfl hx)

def deliveries (s : ConsoleSettings) (w : World) :
    Annotation (console s) delivery (fun _ _ => True) (Fresh w) Machine.anyEvent where
  inv h := Honoured h.1
  holds _ ph _ h := ph.Stands h.1
  start _ _ _ := ⟨{}, programOf_delivers s _, List.forall_mem_nil _, List.forall_mem_nil _⟩
  own _ _ _ hf hw hst _ := honoured_handle hw hst hf.allows
  other _ _ _ _ _ _ _ _ hst' := hst'.grows grows_handle
  tick _ hw := honoured_tick _ hw
  tick_holds _ _ _ hst := hst.grows (grows_tick _ _)

/-- In every run, whatever fails and wherever a drain stops: a row that is marked sent was
published, and every publication carries the event of its row. -/
theorem sent_published (s : ConsoleSettings) {w : World} (hw : Honoured w) {p : Pools}
    (h : (console s).Reach (Fresh w) Machine.anyEvent p) : Honoured p.world :=
  ((deliveries s w).sound (fun p hp => by
    cases hp
    exact ⟨hw, rfl⟩) h).1

/-- The first drain publishes the row and dies; the second begins again and gets to its commit. -/
def drainedAgain : List Happening :=
  [.tick (.announce "ip.allocated" "ip" (.other "")), .start (.drain 50), .start (.drain 50)] ++
    List.replicate 4 (.step 0 {}) ++ [.crash 0] ++ List.replicate 6 (.step 1 {})

theorem sent_published_drained : Honoured ((console {}).run { world := {} } drainedAgain).world :=
  sent_published {} ⟨(fun _ h => by cases h), List.forall_mem_nil _⟩
    (Machine.reach_run (reach_fresh {}) drainedAgain)

end BrokerBridge.Admin
