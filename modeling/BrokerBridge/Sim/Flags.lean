import BrokerBridge.Admin.Manager
import Mathlib.Data.List.Induction

/-!
# The fault flags

Three faults can be injected, two of them into the mock broker, of which one at most is
enabled. What was switched is recorded, and the last 200 records are kept.

Switching one of the broker's faults on switches the other off without a record of its
own, so a record of the one decides the other too. The flags are what all the records say,
read in order; and what is left of them still says it for every fault that one of them
decides.
-/

namespace BrokerBridge.Sim

open Admin

/-! ## Faults -/

inductive FaultId where
  | brokerUnavailable | brokerReject | infraProbeFail
  deriving DecidableEq

/-- A row of `_faults`, but for its flag. -/
structure Profile where
  id : String
  label : String
  target : String
  code : String
  status : Int
  retryable : Option Bool
  affects : String

def FaultId.profile : FaultId → Profile
  | brokerUnavailable =>
      { id := "broker_unavailable"
        label := "Mock broker unavailable (retryable)"
        target := "broker"
        code := "BROKER_UNAVAILABLE"
        status := 503
        retryable := some true
        affects := "place_order, probe → Broker Health / routing failover" }
  | brokerReject =>
      { id := "broker_reject"
        label := "Mock broker hard reject (non-retryable)"
        target := "broker"
        code := "BROKER_REJECT"
        status := 400
        retryable := some false
        affects := "place_order (non-retryable) + probe → Orders fail, Health degrades" }
  | infraProbeFail =>
      { id := "infra_probe_fail"
        label := "Infrastructure probe failure"
        target := "infra"
        code := "INFRA_UNAVAILABLE"
        status := 503
        retryable := none
        affects := "infra.probe, create_ip / allocate → Static IP allocation fails" }

/-- The keys of `_faults`, in order. -/
def faultIds : List FaultId := [.brokerUnavailable, .brokerReject, .infraProbeFail]

def FaultId.ofName? (name : String) : Option FaultId := faultIds.find? (·.profile.id = name)

/-- The faults that exclude each other. -/
def FaultId.ofBroker : FaultId → Bool
  | brokerUnavailable => true
  | brokerReject => true
  | infraProbeFail => false

/-! ## Flags and history -/

inductive Action where
  | enable | disable
  deriving DecidableEq

/-- An entry of `_history`. -/
structure Record where
  at_ : Instant
  action : Action
  fault : FaultId
  deriving DecidableEq

structure Flags where
  enabled : FaultId → Bool := fun _ => false
  history : List Record := []

/-- The flags after one of them is set, and with it the one it excludes. -/
def switched (f : FaultId) (on : Bool) (enabled : FaultId → Bool) : FaultId → Bool := fun g =>
  if g = f then on else if on && f.ofBroker && g.ofBroker then false else enabled g

/-- `del _history[:-200]` -/
def lastRecords (history : List Record) : List Record := history.drop (history.length - 200)

namespace Flags

variable (s : Flags)

/-- `active_broker_fault` -/
def activeBrokerFault : Option BrokerFault :=
  ([.brokerUnavailable, .brokerReject].find? s.enabled).map fun f =>
    { code := f.profile.code
      status := f.profile.status
      retryable := f.profile.retryable.getD true }

def infraFaultEnabled : Bool := s.enabled .infraProbeFail

def record (now : Instant) (action : Action) (f : FaultId) : Flags :=
  { s with history := lastRecords (s.history ++ [⟨now, action, f⟩]) }

/-- `set_enabled`; none is the `KeyError`. -/
def setEnabled (now : Instant) (name : String) (on : Bool) : Option Flags :=
  (FaultId.ofName? name).map fun f =>
    record { s with enabled := switched f on s.enabled } now (if on then .enable else .disable) f

/-- The flags that `clear_all` finds set. -/
def allEnabled : List FaultId := faultIds.filter s.enabled

def clearAll (now : Instant) : Flags where
  enabled := fun _ => false
  history := lastRecords (s.history ++ s.allEnabled.map (⟨now, .disable, ·⟩))

end Flags

/-! ## What a record says -/

namespace Record

/-- What the switch that it records did to the flags. -/
def replay (r : Record) (enabled : FaultId → Bool) : FaultId → Bool :=
  switched r.fault (r.action = .enable) enabled

/-- After it the flag is settled, whatever it was. -/
def decides (f : FaultId) (r : Record) : Bool :=
  r.fault = f || (r.action = .enable && r.fault.ofBroker && f.ofBroker)

/-- What the flag is then, if the record decides it. -/
def tells (f : FaultId) (r : Record) : Bool := r.fault = f && r.action = .enable

end Record

/-- The flags after these records, from none set. -/
def replayed (log : List Record) : FaultId → Bool :=
  log.foldl (fun enabled r => r.replay enabled) fun _ => false

theorem replay_of_decides {f : FaultId} {r : Record} {enabled : FaultId → Bool}
    (h : r.decides f) : r.replay enabled f = r.tells f := by
  obtain ⟨now, action, g⟩ := r
  unfold Record.replay switched Record.tells
  by_cases hf : f = g
  · subst hf
    simp
  · have hne : g ≠ f := fun heq => hf heq.symm
    have hexcl : (action = .enable && g.ofBroker && f.ofBroker) = true := by
      simpa [Record.decides, hne] using h
    rw [if_neg hf, if_pos hexcl]
    simp [hne]

theorem replay_of_not_decides {f : FaultId} {r : Record} {enabled : FaultId → Bool}
    (h : r.decides f = false) : r.replay enabled f = enabled f := by
  obtain ⟨now, action, g⟩ := r
  have hne : g ≠ f := by
    rintro rfl
    simp [Record.decides] at h
  have hexcl : (action = .enable && g.ofBroker && f.ofBroker) = false := by
    simpa [Record.decides, hne] using h
  unfold Record.replay switched
  rw [if_neg fun heq => hne heq.symm, hexcl]
  rfl

/-- The last record that decides a fault settles it. -/
theorem replayed_of_last {log : List Record} {f : FaultId} {r : Record}
    (h : (log.filter (·.decides f)).getLast? = some r) : replayed log f = r.tells f := by
  induction log using List.reverseRecOn with
  | nil => cases h
  | append_singleton log last ih =>
      rw [List.filter_append] at h
      simp only [replayed, List.foldl_append, List.foldl_cons, List.foldl_nil]
      cases hlast : last.decides f with
      | true =>
          rw [List.filter_cons_of_pos hlast, List.filter_nil, List.getLast?_concat] at h
          cases h
          exact replay_of_decides hlast
      | false =>
          rw [List.filter_cons_of_neg (by simp [hlast]), List.filter_nil, List.append_nil] at h
          rw [replay_of_not_decides hlast]
          exact ih h

/-! ## What is kept of the records -/

theorem length_lastRecords (log : List Record) : (lastRecords log).length ≤ 200 := by
  rw [lastRecords, List.length_drop]
  omega

/-- Dropping the oldest early makes no difference. -/
theorem lastRecords_append (log new : List Record) :
    lastRecords (lastRecords log ++ new) = lastRecords (log ++ new) := by
  have hjoin : lastRecords log ++ new = (log ++ new).drop (log.length - 200) :=
    (List.drop_append_of_le_length (Nat.sub_le _ _)).symm
  have hsum : log.length - 200 + (log.length + new.length - (log.length - 200) - 200) =
      log.length + new.length - 200 := by omega
  rw [hjoin, lastRecords, lastRecords, List.drop_drop, List.length_drop, List.length_append, hsum]

theorem suffix_lastRecords (log : List Record) : lastRecords log <:+ log := List.drop_suffix _ _

/-- The last record of a kind is the last of that kind that is kept, if one is. -/
theorem getLast?_filter_of_suffix {log kept : List Record} (h : kept <:+ log) {p : Record → Bool}
    {r : Record} (hr : (kept.filter p).getLast? = some r) : (log.filter p).getLast? = some r := by
  obtain ⟨dropped, rfl⟩ := h
  rw [List.filter_append, List.getLast?_append, hr]
  rfl

/-! ## The flags are what the records say -/

/-- All that was ever recorded, and what is kept of it. -/
structure Flags.Logged (s : Flags) (log : List Record) : Prop where
  enabled : s.enabled = replayed log
  history : s.history = lastRecords log

theorem logged_new : ({} : Flags).Logged [] where
  enabled := rfl
  history := rfl

section Logged

variable {s : Flags} {log : List Record}

theorem Flags.Logged.record {f : FaultId} {now : Instant} {on : Bool} (h : s.Logged log) :
    (Flags.record { s with enabled := switched f on s.enabled } now
      (if on then .enable else .disable) f).Logged
      (log ++ [⟨now, if on then .enable else .disable, f⟩]) where
  enabled := by
    simp only [Flags.record, replayed, List.foldl_append, List.foldl_cons, List.foldl_nil,
      Record.replay]
    rw [h.enabled]
    cases on <;> rfl
  history := by
    simp only [Flags.record]
    rw [h.history, lastRecords_append]

theorem Flags.Logged.setEnabled {s' : Flags} {now : Instant} {name : String} {on : Bool}
    (h : s.Logged log) (hset : s.setEnabled now name on = some s') : ∃ log, s'.Logged log := by
  obtain ⟨f, _, rfl⟩ := Option.map_eq_some_iff.mp hset
  exact ⟨_, h.record⟩

/-- Switching faults off one by one switches off those and no others. -/
theorem foldl_disable (now : Instant) (fs : List FaultId) (enabled : FaultId → Bool) (f : FaultId) :
    (fs.map (⟨now, .disable, ·⟩)).foldl (fun enabled r => Record.replay r enabled) enabled f =
      (enabled f && !(fs.contains f)) := by
  induction fs generalizing enabled with
  | nil => simp
  | cons g fs ih =>
      rw [List.map_cons, List.foldl_cons, ih]
      by_cases hf : f = g
      · subst hf
        simp [Record.replay, switched]
      · simp [Record.replay, switched, hf]

theorem Flags.Logged.clearAll {now : Instant} (h : s.Logged log) :
    (s.clearAll now).Logged (log ++ s.allEnabled.map (⟨now, .disable, ·⟩)) where
  enabled := by
    funext f
    have hf : f ∈ faultIds := by cases f <;> decide
    have hon : s.enabled f = true → f ∈ s.allEnabled := fun h => List.mem_filter.mpr ⟨hf, h⟩
    rw [replayed, List.foldl_append, foldl_disable]
    show false = (replayed log f && _)
    rw [← h.enabled]
    cases hen : s.enabled f with
    | false => rfl
    | true => simp [hon hen]
  history := by
    simp only [Flags.clearAll]
    rw [h.history, lastRecords_append]

/-- What is kept tells the state of each fault that it decides. -/
theorem Flags.Logged.told (h : s.Logged log) {f : FaultId} {r : Record}
    (hr : (s.history.filter (·.decides f)).getLast? = some r) : s.enabled f = r.tells f := by
  rw [h.history] at hr
  rw [h.enabled]
  exact replayed_of_last (getLast?_filter_of_suffix (suffix_lastRecords log) hr)

end Logged

/-! ## One fault of the broker at most -/

def Flags.Exclusive (s : Flags) : Prop :=
  ∀ f g, f.ofBroker → g.ofBroker → s.enabled f → s.enabled g → f = g

theorem exclusive_switched {s : Flags} (h : s.Exclusive) (f : FaultId) (on : Bool)
    (history : List Record) :
    Flags.Exclusive { enabled := switched f on s.enabled, history := history } := by
  intro g g' hg hg' hong hong'
  simp only [switched] at hong hong'
  split at hong
  · next heq =>
      subst heq
      rw [hong, hg, hg'] at hong'
      split at hong'
      · next heq => exact heq.symm
      · cases hong'
  · split at hong'
    · next heq =>
        subst heq
        rw [hong', hg, hg'] at hong
        cases hong
    · split at hong
      · cases hong
      · split at hong'
        · cases hong'
        · exact h g g' hg hg' hong hong'

theorem Flags.Exclusive.setEnabled {s s' : Flags} {now : Instant} {name : String} {on : Bool}
    (h : s.Exclusive) (hset : s.setEnabled now name on = some s') : s'.Exclusive := by
  obtain ⟨f, _, rfl⟩ := Option.map_eq_some_iff.mp hset
  exact exclusive_switched h f on _

end BrokerBridge.Sim
