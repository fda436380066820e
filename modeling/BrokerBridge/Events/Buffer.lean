import BrokerBridge.Admin.Tables
import Mathlib.Algebra.BigOperators.Group.List.Basic
import Mathlib.Data.List.Count

/-!
# The event buffer

`EventBusBuffer`: the last events that were consumed, newest first, in a `deque` of bounded
length, with three counters. An event whose id is in the buffer is not taken again; an
event without an id gets one made of the counter.

The rows ever accepted are not kept anywhere. They are a function of the calls, and the
buffer is a prefix of them: that is the invariant, and the counters are counts of it.
-/

namespace BrokerBridge.Events

/-- The event dictionary, by the keys that are read; a `payload` that is no dictionary
counts as missing. -/
structure BusEvent where
  eventId : Option String := none
  eventType : Option String := none
  occurredAt : Option String := none
  producer : Option String := none
  correlationId : Option String := none
  payload : Option Admin.Payload := none
  deriving DecidableEq

/-- The payload of an event, or else the event itself. -/
inductive BusPayload where
  | payload (p : Admin.Payload)
  | event (e : BusEvent)
  deriving DecidableEq

structure BusEnvelope where
  eventId : Option String
  producer : Option String
  occurredAt : String
  deriving DecidableEq

structure BusRow where
  id : String
  eventType : String
  topic : String
  payload : BusPayload
  status : String := "consumed"
  error : Option String := none
  correlationId : Option String
  createdAt : String
  sentAt : String
  source : String
  envelope : BusEnvelope
  deriving DecidableEq

structure EventBusBuffer where
  maxlen : Nat := 500
  /-- newest first -/
  rows : List BusRow := []
  totalSeen : Nat := 0
  lastEventAt : Option String := none
  byType : List (String × Nat) := []
  source : String := "empty"
  deriving DecidableEq

/-- The arguments of a call of `append`, and the time it reads. -/
structure Append where
  topic : String
  event : BusEvent
  source : String := "consumed"
  now : String
  deriving DecidableEq

/-- `str(value or default)` -/
def textOr (value : Option String) (default : String) : String :=
  match value with
  | some s => if s = "" then default else s
  | none => default

/-- `d[key] = d.get(key, 0) + 1` -/
def bump (key : String) : List (String × Nat) → List (String × Nat)
  | [] => [(key, 1)]
  | (k, n) :: rest => if k = key then (k, n + 1) :: rest else (k, n) :: bump key rest

namespace EventBusBuffer

variable (b : EventBusBuffer) (a : Append)

def eventId : String := textOr a.event.eventId s!"consumed-{b.totalSeen}"

def eventType : String := textOr a.event.eventType "unknown"

/-- The row made of an event. -/
def row : BusRow :=
  let occurred := textOr a.event.occurredAt a.now
  { id := b.eventId a
    eventType := eventType a
    topic := a.topic
    payload := (a.event.payload.map .payload).getD (.event a.event)
    correlationId := a.event.correlationId
    createdAt := occurred
    sentAt := occurred
    source := a.source
    envelope := ⟨a.event.eventId, a.event.producer, occurred⟩ }

/-- A row with the id of the event is buffered. -/
def ignores : Bool := b.rows.any fun existing => existing.id == b.eventId a

/-- `append`; the `deque` drops what is beyond its length. -/
def append : EventBusBuffer :=
  if b.ignores a then b
  else
    let row := b.row a
    { b with
      rows := (row :: b.rows).take b.maxlen
      totalSeen := b.totalSeen + 1
      lastEventAt := some row.createdAt
      byType := bump row.eventType b.byType
      source := a.source }

/-- `list` -/
def list (limit offset : Nat) : List BusRow × Nat :=
  ((b.rows.drop offset).take limit, b.rows.length)

/-- `clear` -/
def clear : EventBusBuffer := { maxlen := b.maxlen }

/-- A sequence of calls. -/
def appendAll (calls : List Append) : EventBusBuffer := calls.foldl append b

/-- The rows that the calls have had accepted, newest first. -/
def accepted : EventBusBuffer → List Append → List BusRow
  | _, [] => []
  | b, a :: calls =>
      accepted (b.append a) calls ++ if b.ignores a then [] else [b.row a]

end EventBusBuffer

/-! ## The counters -/

theorem sum_bump (key : String) (d : List (String × Nat)) :
    ((bump key d).map Prod.snd).sum = (d.map Prod.snd).sum + 1 := by
  induction d with
  | nil => rfl
  | cons e rest ih =>
      obtain ⟨k, n⟩ := e
      rw [bump]
      split
      · simp only [List.map_cons, List.sum_cons]
        omega
      · simp only [List.map_cons, List.sum_cons, ih]
        omega

theorem lookup_bump (key k : String) (d : List (String × Nat)) :
    ((bump key d).lookup k).getD 0 = (d.lookup k).getD 0 + if k = key then 1 else 0 := by
  induction d with
  | nil =>
      by_cases h : k = key
      · simp [bump, h]
      · simp [bump, h, List.lookup_cons, beq_false_of_ne h]
  | cons e rest ih =>
      obtain ⟨k', n⟩ := e
      rw [bump]
      by_cases h' : k' = key
      · rw [if_pos h', List.lookup_cons, List.lookup_cons]
        by_cases h : k = k'
        · simp [h, h']
        · simp [beq_false_of_ne h, h' ▸ h]
      · rw [if_neg h', List.lookup_cons, List.lookup_cons]
        by_cases h : k = k'
        · simp [h, h']
        · rw [beq_false_of_ne h]
          exact ih

/-! ## The invariant -/

namespace EventBusBuffer

variable {b : EventBusBuffer} {a : Append} {past : List BusRow}

/-- The buffer after rows `past` have been accepted, newest first. -/
structure Holds (b : EventBusBuffer) (past : List BusRow) : Prop where
  rows : b.rows = past.take b.maxlen
  distinct : (b.rows.map BusRow.id).Nodup
  total : b.totalSeen = past.length
  byType : (b.byType.map Prod.snd).sum = past.length
  ofType : ∀ t, (b.byType.lookup t).getD 0 = past.countP fun r => r.eventType = t

theorem ignores_iff : b.ignores a = true ↔ ∃ row ∈ b.rows, row.id = b.eventId a := by
  rw [ignores, List.any_eq_true]
  simp only [beq_iff_eq]

theorem append_of_ignores (h : b.ignores a = true) : b.append a = b := if_pos h

theorem append_of_accepts (h : b.ignores a = false) :
    b.append a =
      { b with
        rows := (b.row a :: b.rows).take b.maxlen
        totalSeen := b.totalSeen + 1
        lastEventAt := some (b.row a).createdAt
        byType := bump (b.row a).eventType b.byType
        source := a.source } := by
  rw [append, h]
  rfl

@[simp] theorem append_maxlen : (b.append a).maxlen = b.maxlen := by
  unfold append
  split <;> rfl

theorem appendAll_maxlen {calls : List Append} : (b.appendAll calls).maxlen = b.maxlen := by
  induction calls generalizing b with
  | nil => rfl
  | cons a calls ih => exact ih.trans append_maxlen

/-- A call does nothing exactly when a row with the id of its event is buffered. -/
theorem append_eq_self_iff : b.append a = b ↔ ∃ row ∈ b.rows, row.id = b.eventId a := by
  rw [← ignores_iff]
  cases h : b.ignores a with
  | true => exact iff_of_true (append_of_ignores h) rfl
  | false =>
      refine iff_of_false (fun heq => ?_) Bool.false_ne_true
      have htotal := congrArg totalSeen heq
      rw [append_of_accepts h] at htotal
      exact Nat.succ_ne_self _ htotal

theorem holds_new (maxlen : Nat) : Holds { maxlen := maxlen } [] where
  rows := List.take_nil.symm
  distinct := List.nodup_nil
  total := rfl
  byType := rfl
  ofType _ := rfl

/-- One call. -/
theorem Holds.append (h : Holds b past) (a : Append) :
    Holds (b.append a) ((if b.ignores a then [] else [b.row a]) ++ past) := by
  cases hignores : b.ignores a with
  | true =>
      rw [append_of_ignores hignores]
      exact h
  | false =>
      have hnew : (b.row a).id ∉ b.rows.map BusRow.id := by
        intro hmem
        obtain ⟨row, hrow, hid⟩ := List.mem_map.mp hmem
        have := ignores_iff.mpr ⟨row, hrow, hid⟩
        rw [hignores] at this
        cases this
      rw [append_of_accepts hignores]
      refine ⟨?_, ?_, ?_, ?_, fun t => ?_⟩
      · -- what `take` dropped of the past stays dropped
        show (b.row a :: b.rows).take b.maxlen = (b.row a :: past).take b.maxlen
        cases hlen : b.maxlen with
        | zero => rfl
        | succ n =>
            rw [h.rows, hlen, List.take_succ_cons, List.take_succ_cons, List.take_take,
              Nat.min_eq_left (Nat.le_succ n)]
      · rw [List.map_take]
        exact (List.nodup_cons.mpr ⟨hnew, h.distinct⟩).sublist (List.take_sublist _ _)
      · exact congrArg (· + 1) h.total
      · show ((bump _ b.byType).map Prod.snd).sum = (past.length + 1)
        rw [sum_bump, h.byType]
      · show ((bump _ b.byType).lookup t).getD 0 = (b.row a :: past).countP _
        rw [lookup_bump, h.ofType, List.countP_cons]
        by_cases ht : (b.row a).eventType = t
        · simp [ht]
        · simp [ht, Ne.symm ht]

/-- Any calls. -/
theorem Holds.appendAll (h : Holds b past) (calls : List Append) :
    Holds (b.appendAll calls) (b.accepted calls ++ past) := by
  induction calls generalizing b past with
  | nil => exact h
  | cons a calls ih =>
      have hnext := ih (h.append a)
      rw [accepted, List.append_assoc]
      exact hnext

end EventBusBuffer

end BrokerBridge.Events
