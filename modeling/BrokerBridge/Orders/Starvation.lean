import BrokerBridge.Orders.Rescue
import Mathlib.Algebra.Order.Floor.Div

/-!
# Replay and starvation

A replay selects by `updated_at`, and only a write moves an order's `updated_at`. When every
order that a replay takes up can be recovered, the orders that were not selected come first
the next time, so no stuck order waits longer than its batch. An order whose recovery ends
before any write, as one without a route does, is selected again and again instead; that
matters only where a batch does not hold all the stuck orders.
-/

namespace BrokerBridge

open Conc

/-- Replays one after another. -/
def replays (limit : Nat) : List (Nat → Turn) → World → World
  | [], w => w
  | turns :: rounds, w => replays limit rounds (replayed limit turns w).2

/-- The orders they pass to `_recover_one`. -/
def passedBy (limit : Nat) : List (Nat → Turn) → World → List OrderId
  | [], _ => []
  | turns :: rounds, w => passedIn limit turns w ++ passedBy limit rounds (replayed limit turns w).2

/-- Every replay meets the condition, in the world it begins in. -/
def EachReplay (limit : Nat) (C : (Nat → Turn) → World → Prop) : List (Nat → Turn) → World → Prop
  | [], _ => True
  | turns :: rounds, w => C turns w ∧ EachReplay limit C rounds (replayed limit turns w).2

/-- Nobody else touches the orders or deletes anything, the replay returns, and what it selects
from was last written before it selects. -/
structure Regular (limit : Nat) (turns : Nat → Turn) (w : World) : Prop where
  spares : ∀ n, (turns n).considerate
  past : ∀ r ∈ ((turns 0).1 w).db.stuck, r.updatedAt < ((turns 0).1 w).clock
  returns : ∃ y, (replayed limit turns w).1 = .ok y

/-- The batch holds all the stuck orders, or each order in it can be recovered by the answers
that are about it. -/
def Progresses (limit : Nat) (turns : Nat → Turn) (w : World) : Prop :=
  w.db.stuck.length ≤ limit ∨
    ∀ r ∈ oldest Order.updatedAt limit w.db.stuck,
      Recoverable r (toldIn r.id none (replayHears limit turns w))

/-- After enough replays, each of which meets the condition, every order that was stuck has
been passed to `_recover_one`. -/
def NoStarvation (C : Nat → (Nat → Turn) → World → Prop) : Prop :=
  ∀ (limit : Nat), 0 < limit → ∀ (rounds : List (Nat → Turn)) (w : World),
    EachReplay limit (C limit) rounds w → w.db.stuck.length ⌈/⌉ limit ≤ rounds.length →
    ∀ r ∈ w.db.stuck, r.id ∈ passedBy limit rounds w

section Rounds

variable {limit : Nat} {turns : Nat → Turn} {w : World} {waiting : List Order}

theorem mem_stuck_iff {d : Db} {r : Order} :
    r ∈ d.stuck ↔ d.orders.get? r.id = some r ∧ r.status.stuck = true := by
  rw [Db.stuck, List.mem_filter]
  exact and_congr_left fun _ => ⟨Table.get?_of_mem, fun h => (Table.get?_eq_some.mp h).1⟩

theorem nodup_stuck {d : Db} : d.stuck.Nodup := (List.Nodup.of_map _ d.orders.nodup).filter _

/-- A row that is selected is the only one with its id. -/
theorem mem_selected_iff {d : Db} {r : Order} (hr : r ∈ d.stuck) :
    r.id ∈ (oldest Order.updatedAt limit d.stuck).map (·.id) ↔
      r ∈ oldest Order.updatedAt limit d.stuck := by
  refine ⟨fun h => ?_, fun h => List.mem_map.mpr ⟨r, h, rfl⟩⟩
  obtain ⟨r', hr', hid⟩ := List.mem_map.mp h
  have hget := (mem_stuck_iff.mp (mem_of_mem_oldest hr')).1
  rw [hid, (mem_stuck_iff.mp hr).1] at hget
  cases hget
  exact hr'

theorem Regular.selection (h : Regular limit turns w) : ((turns 0).1 w).db.stuck = w.db.stuck := by
  unfold Db.stuck
  rw [((h.spares 0).1 w).1]

/-- It passes what it selects. -/
theorem Regular.passed (h : Regular limit turns w) :
    passedIn limit turns w = (oldest Order.updatedAt limit w.db.stuck).map (·.id) := by
  obtain ⟨y, hy⟩ := h.returns
  rw [(replayed_scan limit turns w fun n => (h.spares n).1).all y hy, h.selection]

/-- A batch that holds all the stuck orders is all of them. -/
theorem mem_oldest_of_length {rows : List Order} {r : Order} (hr : r ∈ rows)
    (h : rows.length ≤ limit) : r ∈ oldest Order.updatedAt limit rows := by
  rw [oldest, List.take_of_length_le (by rwa [List.length_insertionSort])]
  exact (List.mem_insertionSort _).mpr hr

/-- What a replay has not selected is ahead of all other stuck orders after it. -/
theorem ahead_replayed (hreg : Regular limit turns w) (hprog : Progresses limit turns w)
    (hahead : Ahead Order.updatedAt w.db.stuck waiting) :
    Ahead Order.updatedAt (replayed limit turns w).2.db.stuck
      (waiting.filter fun r => r ∉ oldest Order.updatedAt limit w.db.stuck) := by
  have hscan := replayed_scan limit turns w fun n => (hreg.spares n).1
  have hpassed := hreg.passed
  have hpast := hreg.past
  rw [hreg.selection] at hpast
  rcases hprog with hall | hrecoverable
  · have hnone : (waiting.filter fun r => r ∉ oldest Order.updatedAt limit w.db.stuck) = [] := by
      refine List.filter_eq_nil_iff.mpr fun r hr hout => ?_
      exact of_decide_eq_true hout (mem_oldest_of_length (hahead.mem r hr) hall)
    rw [hnone]
    exact ⟨List.forall_mem_nil _, List.forall_mem_nil _⟩
  refine ⟨fun a ha => ?_, fun a ha b hb hout => ?_⟩
  · obtain ⟨ha, hleft⟩ := List.mem_filter.mp ha
    obtain ⟨hget, hstuck⟩ := mem_stuck_iff.mp (hahead.mem a ha)
    refine mem_stuck_iff.mpr ⟨(hscan.others a.id fun hmem => ?_).trans hget, hstuck⟩
    rw [hpassed, mem_selected_iff (hahead.mem a ha)] at hmem
    exact of_decide_eq_true hleft hmem
  · have ha' := (List.mem_filter.mp ha).1
    obtain ⟨hget, hstuck⟩ := mem_stuck_iff.mp hb
    by_cases hmem : b.id ∈ passedIn limit turns w
    · rw [hpassed] at hmem
      obtain ⟨r, hr, hid⟩ := List.mem_map.mp hmem
      obtain ⟨y, hy⟩ := hreg.returns
      have hr' : r ∈ oldest Order.updatedAt limit ((turns 0).1 w).db.stuck := by
        rwa [hreg.selection]
      -- It was written since the selection, and what waits was not.
      rcases replayed_tends hreg.spares hy r hr' (hrecoverable r hr) with hwritten | hunstuck
      · have hstamped := hscan.stamped b.id (hid ▸ hwritten) b hget
        exact lt_of_lt_of_le (hpast a (hahead.mem a ha')) hstamped
      · rw [hunstuck b (hid ▸ hget)] at hstuck
        cases hstuck
    · rw [hscan.others b.id hmem] at hget
      have hb' := mem_stuck_iff.mpr ⟨hget, hstuck⟩
      rw [hpassed, mem_selected_iff hb'] at hmem
      refine hahead.older a ha' b hb' fun hwaits => ?_
      exact hout (List.mem_filter.mpr ⟨hwaits, decide_eq_true hmem⟩)

/-- The batches of a run, for rows that are ahead of all others. -/
theorem queued_replays {rounds : List (Nat → Turn)}
    (h : EachReplay limit (fun turns w => Regular limit turns w ∧
      Progresses limit turns w) rounds w)
    (hahead : Ahead Order.updatedAt w.db.stuck waiting) :
    ∃ batches, batches.map (·.1) = rounds.map (fun _ => limit) ∧
      Queued Order.updatedAt waiting batches ∧
      ∀ batch ∈ batches, ∀ r ∈ oldest Order.updatedAt batch.1 batch.2,
        r.id ∈ passedBy limit rounds w := by
  induction rounds generalizing w waiting with
  | nil => exact ⟨[], rfl, trivial, List.forall_mem_nil _⟩
  | cons turns rounds ih =>
      obtain ⟨⟨hreg, hprog⟩, hrest⟩ := h
      obtain ⟨batches, hlimits, hqueued, hserved⟩ := ih hrest (ahead_replayed hreg hprog hahead)
      refine ⟨(limit, w.db.stuck) :: batches, congrArg (limit :: ·) hlimits,
        ⟨nodup_stuck, hahead, hqueued⟩, List.forall_mem_cons.mpr
          ⟨fun r hr => ?_, fun batch hb r hr => ?_⟩⟩
      · exact List.mem_append_left _ (hreg.passed ▸ List.mem_map.mpr ⟨r, hr, rfl⟩)
      · exact List.mem_append_right _ (hserved batch hb r hr)

end Rounds

/-- Replays that can recover what they take up, or take up everything, starve none. -/
theorem replays_starve_none (limit : Nat) (hlimit : 0 < limit)
    (rounds : List (Nat → Turn)) (w : World)
    (heach : EachReplay limit (fun turns w => Regular limit turns w ∧
      Progresses limit turns w) rounds w)
    (henough : w.db.stuck.length ⌈/⌉ limit ≤ rounds.length) :
    ∀ r ∈ w.db.stuck, r.id ∈ passedBy limit rounds w := by
  intro r hr
  obtain ⟨batches, hlimits, hqueued, hserved⟩ := queued_replays heach
    ⟨fun _ => id, fun a _ b hb hout => absurd hb hout⟩
  have hlen : w.db.stuck.length ≤ (batches.map (·.1)).sum := by
    rw [hlimits, List.map_const', List.sum_replicate, smul_eq_mul, Nat.mul_comm]
    exact (ceilDiv_le_iff_le_mul hlimit).mp henough
  obtain ⟨batch, hbatch, hmem⟩ := hqueued.served nodup_stuck hlen r hr
  exact hserved batch hbatch r hmem

/-! ## Two stuck orders -/

theorem returns_of_failed {x : Except Exn Reply} (h : failed x = false) : ∃ y, x = .ok y := by
  cases x with
  | ok y => exact ⟨y, rfl⟩
  | error e => cases h

theorem considerate_id (e : Env) : Turn.considerate (id, e) :=
  ⟨fun _ => ⟨rfl, le_refl _⟩, fun o => spares_id o e⟩

/-- Nothing fails, and nobody else does anything. -/
def undisturbed (_ : Nat) : Turn := (id, {})

def stuckOrder (id : OrderId) (key : String) (updatedAt : Instant) : Order where
  id := id
  clientId := 1
  clientOrderId := key
  side := "BUY"
  symbol := "ACME"
  quantity := 1
  updatedAt := updatedAt

/-- Two stuck orders, no attempts and no brokers. -/
def twoUnrouted : World where
  clock := 10
  db := { orders := .of [stuckOrder 1 "first" 1, stuckOrder 2 "second" 2] }

def acceptedAttempt (id : AttemptId) (o : OrderId) (brokerOrder : BrokerOrderId) :
    OrderAttempt where
  id := id
  orderId := o
  attemptNo := 1
  brokerAccountId := 3
  staticIpId := none
  status := .submitted
  brokerOrderId := some brokerOrder
  requestPayload := ⟨"order", "BUY", "ACME", 1, "MARKET", "DAY", 3, none⟩
  idempotencyKey := ⟨1, "order", 3⟩

/-- The same orders, each accepted by a broker. -/
def twoAccepted : World :=
  { twoUnrouted with
    db := { twoUnrouted.db with
      attempts := .of [acceptedAttempt 5 1 8, acceptedAttempt 6 2 9] } }

/-- The condition on undisturbed replays, computed. -/
theorem regular_undisturbed {limit : Nat} {w : World}
    (hpast : ∀ r ∈ w.db.stuck, r.updatedAt < w.clock)
    (hreturns : failed (replayed limit undisturbed w).1 = false) : Regular limit undisturbed w :=
  ⟨fun _ => considerate_id {}, hpast, returns_of_failed hreturns⟩

/-- Where every order has an attempt to adopt, computed. -/
theorem progresses_of_attempts {limit : Nat} {turns : Nat → Turn} {w : World}
    (h : ∀ r ∈ oldest Order.updatedAt limit w.db.stuck,
      Harmless (toldIn r.id none (replayHears limit turns w)) ∧
        AttemptFound (toldIn r.id none (replayHears limit turns w))) : Progresses limit turns w :=
  .inr fun r hr => recoverable_of_attempt (h r hr)

/-- One order at a time, the second replay takes up the second order; and one replay is enough
where it takes up both, though nobody routes them. -/
theorem replays_starve_none_twoAccepted :
    (1 ∈ passedBy 1 [undisturbed, undisturbed] twoAccepted ∧
      2 ∈ passedBy 1 [undisturbed, undisturbed] twoAccepted) ∧
    2 ∈ passedBy 50 [undisturbed] twoUnrouted := by
  have hpassed := replays_starve_none 1 (by decide) [undisturbed, undisturbed] twoAccepted
    ⟨⟨regular_undisturbed (by decide) (by decide +kernel),
        progresses_of_attempts (by decide +kernel)⟩,
      ⟨regular_undisturbed (by decide +kernel) (by decide +kernel),
        progresses_of_attempts (by decide +kernel)⟩, trivial⟩
    (by decide)
  have hboth := replays_starve_none 50 (by decide) [undisturbed] twoUnrouted
    ⟨⟨regular_undisturbed (by decide) (by decide +kernel), .inl (by decide)⟩, trivial⟩ (by decide)
  exact ⟨⟨hpassed (stuckOrder 1 "first" 1) (by decide),
    hpassed (stuckOrder 2 "second" 2) (by decide)⟩,
    hboth (stuckOrder 2 "second" 2) (by decide)⟩

/-- Nobody routes the first order, and every replay takes it up again. -/
theorem not_noStarvation : ¬ NoStarvation Regular := by
  intro h
  have hpassed := h 1 (by decide) [undisturbed, undisturbed] twoUnrouted
    ⟨regular_undisturbed (by decide) (by decide +kernel),
      regular_undisturbed (by decide +kernel) (by decide +kernel), trivial⟩
    (by decide) (stuckOrder 2 "second" 2) (by decide)
  exact absurd hpassed (by decide +kernel)

end BrokerBridge
