import BrokerBridge.Events.Memory

/-!
# What the buffer counts

Any calls of `append` keep the buffer's invariant. A drain through a provider in memory
makes two calls for each event that it sends, one by way of the subscription and one
itself, with nothing in between: the second meets the row of the first at the head of the
buffer and is ignored, whatever had to leave the buffer for it.
-/

namespace BrokerBridge.Events

open Conc

namespace EventBusBuffer

variable {b : EventBusBuffer} {a a' : Append} {past : List BusRow} {id : String}

/-- A row with this id is in the buffer. -/
def Buffers (b : EventBusBuffer) (id : String) : Prop := id ∈ b.rows.map BusRow.id

theorem eventId_of_given (h : a.event.eventId = some id) (hne : id ≠ "") : b.eventId a = id := by
  simp only [eventId, h, textOr, if_neg hne]

theorem ignores_eq_of_given (h : a.event.eventId = some id) (hne : id ≠ "") :
    b.ignores a = true ↔ b.Buffers id := by
  rw [ignores_iff, eventId_of_given h hne, Buffers, List.mem_map]

theorem buffers_append (h : (b.append a).Buffers id) : b.Buffers id ∨ id = b.eventId a := by
  cases hignores : b.ignores a with
  | true =>
      rw [append_of_ignores hignores] at h
      exact .inl h
  | false =>
      rw [append_of_accepts hignores] at h
      obtain ⟨row, hrow, rfl⟩ := List.mem_map.mp h
      rcases List.mem_cons.mp (List.mem_of_mem_take hrow) with rfl | hrow
      · exact .inr rfl
      · exact .inl (List.mem_map.mpr ⟨row, hrow, rfl⟩)

/-- An event that has just been taken is buffered, if anything is. -/
theorem buffers_self (hlen : 1 ≤ b.maxlen) (h : a.event.eventId = some id) (hne : id ≠ "") :
    (b.append a).Buffers id := by
  cases hignores : b.ignores a with
  | true =>
      rw [append_of_ignores hignores]
      exact (ignores_eq_of_given h hne).mp hignores
  | false =>
      obtain ⟨n, hn⟩ : ∃ n, b.maxlen = n + 1 := ⟨b.maxlen - 1, by omega⟩
      rw [append_of_accepts hignores, Buffers, hn, List.take_succ_cons, List.map_cons]
      exact List.mem_cons.mpr (.inl (eventId_of_given h hne).symm)

/-- The second call with an event does nothing. -/
theorem append_twice (hlen : 1 ≤ b.maxlen) (h : a.event.eventId = some id)
    (h' : a'.event.eventId = some id) (hne : id ≠ "") : (b.append a).append a' = b.append a :=
  append_of_ignores ((ignores_eq_of_given h' hne).mpr (buffers_self hlen h hne))

/-- From one buffer to another, events with these ids and types were handed over, oldest
first: each was taken at most once, and once if it was not buffered. -/
structure Takes (new : List (String × String)) (b b' : EventBusBuffer) : Prop where
  maxlen : b'.maxlen = b.maxlen
  holds : ∀ past, b.Holds past → ∃ counted, b'.Holds (counted ++ past) ∧
    (counted.map fun r => (r.id, r.eventType)).Sublist new.reverse ∧
    ∀ p ∈ new, ¬ b.Buffers p.1 → p ∈ counted.map fun r => (r.id, r.eventType)
  buffers : ∀ id, b'.Buffers id → b.Buffers id ∨ id ∈ new.map Prod.fst

theorem Takes.refl (b : EventBusBuffer) : Takes [] b b where
  maxlen := rfl
  holds _ h := ⟨[], h, List.Sublist.refl _, fun _ hp => absurd hp List.not_mem_nil⟩
  buffers _ h := .inl h

theorem Takes.trans {new new' : List (String × String)} {b b' b'' : EventBusBuffer}
    (h : Takes new b b') (h' : Takes new' b' b'')
    (hapart : ∀ p ∈ new', p.1 ∉ new.map Prod.fst) : Takes (new ++ new') b b'' where
  maxlen := h'.maxlen.trans h.maxlen
  holds past hpast := by
    obtain ⟨counted, hcounted, hsub, hall⟩ := h.holds past hpast
    obtain ⟨counted', hcounted', hsub', hall'⟩ := h'.holds _ hcounted
    rw [← List.append_assoc] at hcounted'
    refine ⟨counted' ++ counted, hcounted', ?_, fun p hp hnot => ?_⟩
    · rw [List.map_append, List.reverse_append]
      exact hsub'.append hsub
    · rw [List.map_append, List.mem_append]
      rcases List.mem_append.mp hp with hp | hp
      · exact .inr (hall p hp hnot)
      · -- what was handed over before is another event
        have hnot' : ¬ b'.Buffers p.1 := fun hbuf =>
          (h.buffers _ hbuf).elim hnot (hapart p hp)
        exact .inl (hall' p hp hnot')
  buffers id hid := by
    rw [List.map_append, List.mem_append]
    rcases h'.buffers id hid with hid | hid
    · exact (h.buffers id hid).imp_right .inl
    · exact .inr (.inr hid)

theorem takes_append (h : a.event.eventId = some id) (hne : id ≠ "") :
    Takes [(id, eventType a)] b (b.append a) where
  maxlen := append_maxlen
  holds past hpast := by
    have hholds := hpast.append a
    have hignores := ignores_eq_of_given (b := b) h hne
    cases hi : b.ignores a with
    | true =>
        rw [hi] at hholds hignores
        refine ⟨[], hholds, List.nil_sublist _, fun p hp hnot => ?_⟩
        rw [List.mem_singleton.mp hp] at hnot
        exact absurd (hignores.mp rfl) hnot
    | false =>
        rw [hi] at hholds
        have hrow : [((b.row a).id, (b.row a).eventType)] = [(id, eventType a)] := by
          show [(b.eventId a, eventType a)] = _
          rw [eventId_of_given h hne]
        refine ⟨[b.row a], hholds, ?_, fun p hp _ => ?_⟩
        · rw [List.map_singleton, hrow]
          exact List.Sublist.refl _
        · rw [List.map_singleton, hrow]
          exact hp
  buffers id' hid' := by
    rw [List.map_singleton, List.mem_singleton, ← eventId_of_given (b := b) h hne]
    exact buffers_append hid'

end EventBusBuffer

/-! ## Draining -/

section Drain

variable {uuid : Admin.OutboxId → String} {producer : String} {bus : Admin.EventBus}
  {row : Admin.OutboxRow} {topics : Option (List String)} {w w' : World}

/-- The id and the type under which a sent row is counted. -/
def tally (uuid : Admin.OutboxId → String) (row : Admin.OutboxRow) : String × String :=
  (uuid row.id, textOr (some row.eventType) "unknown")

/-- The provider as `subscribe` has left it, for the consumer. -/
structure Subscribed (topics : Option (List String)) (w w' : World) : Prop where
  handlers : w'.provider.handlers = [⟨topics, .consumer⟩]
  closed : w'.provider.closed = w.provider.closed

/-- Both calls that a sent event makes, or the one of them if the topic is not subscribed
to. -/
theorem takes_fed (hlen : 1 ≤ w.buffer.maxlen) (hne : uuid row.id ≠ "")
    (topic now : String) (twice : Bool) (n n' : String) :
    EventBusBuffer.Takes [tally uuid row] w.buffer
      (if twice then
        (w.buffer.append ⟨topic, buildEnvelope uuid producer row now, "consumed", n⟩).append
          ⟨topic, buildEnvelope uuid producer row now, "consumed", n'⟩
      else w.buffer.append ⟨topic, buildEnvelope uuid producer row now, "consumed", n'⟩) := by
  split
  · rw [EventBusBuffer.append_twice hlen rfl rfl hne]
    exact EventBusBuffer.takes_append
      (a := ⟨topic, buildEnvelope uuid producer row now, "consumed", n⟩) rfl hne
  · exact EventBusBuffer.takes_append
      (a := ⟨topic, buildEnvelope uuid producer row now, "consumed", n'⟩) rfl hne

theorem drainRow_takes (hlen : 1 ≤ w.buffer.maxlen) (hne : uuid row.id ≠ "")
    (hhandlers : w.provider.handlers = [⟨topics, .consumer⟩]) :
    Task.wp (alone handle fun _ => True) (drainRow uuid producer bus row)
      (fun sent _ w' => Subscribed topics w w' ∧ sent = !w.provider.closed ∧
        EventBusBuffer.Takes (if sent then [tally uuid row] else []) w.buffer w'.buffer)
      (fun _ _ _ => False) () w := by
  simp only [drainRow, Task.wp_bind, Task.wp_ask, Task.wp_catching, wp_publish]
  intro e _ e' _
  have hnow : handle .now e w = (e.now, w) := rfl
  rw [hnow]
  cases hclosed : w.provider.closed with
  | true =>
      rw [handle_publish_closed e' hclosed]
      exact ⟨⟨hhandlers, rfl⟩, rfl, .refl _⟩
  | false =>
      rw [handle_publish_open e' hclosed, hhandlers]
      simp only [cases, wp_fanOut_cons]
      split
      · intro e₁ _ e₂ _
        exact ⟨⟨hhandlers, rfl⟩, rfl, takes_fed hlen hne _ _ true _ _⟩
      · intro e₂ _
        exact ⟨⟨hhandlers, rfl⟩, rfl, takes_fed hlen hne _ _ false "" _⟩

/-- Any rows with different ids. -/
theorem drainRows_takes {rows : List Admin.OutboxRow} (hlen : 1 ≤ w.buffer.maxlen)
    (hne : ∀ row ∈ rows, uuid row.id ≠ "") (hids : (rows.map fun row => uuid row.id).Nodup)
    (hhandlers : w.provider.handlers = [⟨topics, .consumer⟩]) :
    Task.wp (alone handle fun _ => True) (drainRows uuid producer bus rows)
      (fun sent _ w' => sent = (if w.provider.closed then [] else rows) ∧
        EventBusBuffer.Takes (sent.map (tally uuid)) w.buffer w'.buffer)
      (fun _ _ _ => False) () w := by
  induction rows generalizing w with
  | nil => exact ⟨by split <;> rfl, .refl _⟩
  | cons row rows ih =>
      rw [List.map_cons, List.nodup_cons] at hids
      obtain ⟨hfirst, hids⟩ := hids
      simp only [drainRows, Task.wp_bind]
      refine Task.wp_alone_mono (drainRow_takes hlen (hne row List.mem_cons_self) hhandlers)
        ?_ (fun _ _ _ h => h)
      rintro sent _ w' ⟨hsub, rfl, htakes⟩
      have hlen' : 1 ≤ w'.buffer.maxlen := htakes.maxlen.symm ▸ hlen
      have hrest := ih hlen' (fun r hr => hne r (List.mem_cons_of_mem _ hr)) hids hsub.handlers
      refine Task.wp_alone_mono hrest ?_ (fun _ _ _ h => h)
      rintro rest _ w'' ⟨hsent, htakes'⟩
      rw [hsub.closed] at hsent
      have hapart : ∀ p ∈ rest.map (tally uuid), p.1 ∉ [uuid row.id] := by
        intro p hp hmem
        obtain ⟨r, hr, rfl⟩ := List.mem_map.mp hp
        have hr' : r ∈ rows := by
          rw [hsent] at hr
          split at hr
          · cases hr
          · exact hr
        have heq : uuid r.id = uuid row.id := List.mem_singleton.mp hmem
        exact hfirst (heq ▸ List.mem_map_of_mem hr')
      cases hclosed : w.provider.closed with
      | true =>
          rw [hclosed] at hsent htakes
          exact ⟨hsent, htakes.trans htakes' fun _ _ => List.not_mem_nil⟩
      | false =>
          rw [hclosed] at hsent htakes
          exact ⟨congrArg (row :: ·) hsent, htakes.trans htakes' hapart⟩

/-- Beside what was counted before, the buffer has counted sent events, in their order.
One that was not buffered already has been counted once; if none was, each of them has. -/
def Counts (uuid : Admin.OutboxId → String) (sent : List Admin.OutboxRow) (past : List BusRow)
    (b b' : EventBusBuffer) : Prop :=
  ∃ counted, b'.Holds (counted ++ past) ∧
    (counted.map fun r => (r.id, r.eventType)).Sublist (sent.map (tally uuid)).reverse ∧
    (∀ row ∈ sent, ¬ b.Buffers (uuid row.id) →
      (counted.map fun r => (r.id, r.eventType)).count (tally uuid row) = 1) ∧
    ((∀ row ∈ sent, ¬ b.Buffers (uuid row.id)) →
      (counted.map fun r => (r.id, r.eventType)) = (sent.map (tally uuid)).reverse)

theorem counts_of_takes {sent : List Admin.OutboxRow} {past : List BusRow} {b b' : EventBusBuffer}
    (h : EventBusBuffer.Takes (sent.map (tally uuid)) b b') (hpast : b.Holds past)
    (hids : (sent.map fun row => uuid row.id).Nodup) : Counts uuid sent past b b' := by
  obtain ⟨counted, hholds, hsub, hall⟩ := h.holds past hpast
  have hnodup : (sent.map (tally uuid)).reverse.Nodup := by
    rw [List.nodup_reverse]
    refine List.Nodup.of_map Prod.fst ?_
    rw [List.map_map]
    exact hids
  refine ⟨counted, hholds, hsub, fun row hrow hnot => ?_, fun hnone => ?_⟩
  · have hmem := hall _ (List.mem_map_of_mem (f := tally uuid) hrow) hnot
    exact List.count_eq_one_of_mem (hnodup.sublist hsub) hmem
  · have hsubset : (sent.map (tally uuid)).reverse ⊆ counted.map fun r => (r.id, r.eventType) := by
      intro p hp
      obtain ⟨row, hrow, rfl⟩ := List.mem_map.mp (List.mem_reverse.mp hp)
      exact hall _ (List.mem_map_of_mem hrow) (hnone row hrow)
    exact hsub.eq_of_length_le (List.subperm_of_subset hnodup hsubset).length_le

end Drain

/-- The buffer is what its calls say, and a drain through a subscribed provider counts
each event that it sends once. -/
theorem appends_and_drains_count (uuid : Admin.OutboxId → String) (hinj : Function.Injective uuid)
    (hne : ∀ i, uuid i ≠ "") :
    (∀ (maxlen : Nat) (calls : List Append) (a : Append),
      let b : EventBusBuffer := { maxlen := maxlen }
      (b.appendAll calls).Holds (b.accepted calls) ∧ (b.appendAll calls).maxlen = maxlen ∧
        ((b.appendAll calls).append a = b.appendAll calls ↔
          ∃ row ∈ (b.appendAll calls).rows, row.id = (b.appendAll calls).eventId a)) ∧
    ∀ (producer : String) (bus : Admin.EventBus) (rows : List Admin.OutboxRow)
      (topics : Option (List String)) (w : World) (past : List BusRow) (env : Nat → Env),
      (rows.map fun row => row.id).Nodup → 1 ≤ w.buffer.maxlen → w.buffer.Holds past →
      w.provider.handlers = [⟨topics, .consumer⟩] →
      let run := (drainRows uuid producer bus rows ()).solo handle env w
      run.1.1 = .ok (if w.provider.closed then [] else rows) ∧
        Counts uuid (if w.provider.closed then [] else rows) past w.buffer run.2.buffer := by
  refine ⟨fun maxlen calls a => ⟨?_, ?_, EventBusBuffer.append_eq_self_iff⟩, ?_⟩
  · have h := (EventBusBuffer.holds_new maxlen).appendAll calls
    rw [List.append_nil] at h
    exact h
  · exact EventBusBuffer.appendAll_maxlen
  · intro producer bus rows topics w past env hids hlen hpast hhandlers
    have hids' : (rows.map fun row => uuid row.id).Nodup := by
      have := hids.map hinj
      rwa [List.map_map] at this
    have hwp : Task.wp (alone handle fun _ => True) (drainRows uuid producer bus rows) _ _ () w :=
      drainRows_takes hlen (fun _ _ => hne _) hids' hhandlers
    have hrun := @Prog.solo_of_alone _ _ _ _ _ _ _ _ _ _ hwp env fun _ => trivial
    generalize Prog.solo handle _ env w = run at hrun ⊢
    obtain ⟨⟨r | sent, u⟩, w'⟩ := run
    · exact hrun.elim
    · obtain ⟨rfl, htakes⟩ := hrun
      refine ⟨rfl, counts_of_takes htakes hpast ?_⟩
      split
      · exact List.nodup_nil
      · exact hids'

/-- Ids as texts, one letter for each unit. -/
def tallyMarks (i : Admin.OutboxId) : String := String.ofList (List.replicate (i + 1) '|')

theorem tallyMarks_injective : Function.Injective tallyMarks := by
  intro i j h
  have hlen := congrArg List.length (String.ofList_injective h)
  rw [List.length_replicate, List.length_replicate] at hlen
  exact Nat.succ_injective hlen

theorem tallyMarks_ne (i : Admin.OutboxId) : tallyMarks i ≠ "" := by
  intro h
  have hlen := congrArg String.toList h
  rw [tallyMarks, String.toList_ofList] at hlen
  cases hlen

/-- Two rows through a buffer with room for one: the first has to leave it for the second. -/
theorem appends_and_drains_count_two :
    let rows : List Admin.OutboxRow :=
      [{ id := 1, eventType := "order.submitted", payload := .other "{}" },
        { id := 2, eventType := "order.filled", payload := .other "{}" }]
    let w : World :=
      { buffer := { maxlen := 1 }, provider := { handlers := [⟨none, .consumer⟩] } }
    let run := (drainRows tallyMarks "worker" {} rows ()).solo handle (fun _ => {}) w
    run.1.1 = .ok rows ∧ Counts tallyMarks rows [] w.buffer run.2.buffer :=
  (appends_and_drains_count tallyMarks tallyMarks_injective tallyMarks_ne).2 "worker" {} _ none _ []
    (fun _ => {}) (by decide) (Nat.le_refl 1) (EventBusBuffer.holds_new 1) rfl

end BrokerBridge.Events
