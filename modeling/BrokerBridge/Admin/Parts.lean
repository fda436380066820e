import BrokerBridge.Admin.Jobs
import BrokerBridge.Conc.Protocol

/-!
# Which part of the tables a job works on

Provider rows, configuration items, new events, and the marks of events that
were drained. `Within A t` says that `t` asks and writes only what belongs to
the parts in `A`, however it ends.
-/

namespace BrokerBridge.Admin

open Conc

inductive Part where
  | providers | items | events | marks
  deriving DecidableEq

def Write.part : Write → Part
  | addProvider _ | setProvider _ _ => .providers
  | addItem _ | setItem _ _ => .items
  | addOutbox _ => .events
  | setOutbox _ _ => .marks

/-- The request belongs to these parts, or to none in particular. -/
def Req.within (A : Part → Prop) : Req → Prop
  | .commit ws => ∀ w ∈ ws, A w.part
  | .query _ (.latest _) | .retire _ _ => A .providers
  | .query _ (.pendingOutbox _) | .publish _ => A .marks
  | _ => True

theorem Req.within_mono {A B : Part → Prop} (h : ∀ p, A p → B p) {r : Req} (hr : r.within A) :
    r.within B := by
  cases r with
  | commit ws => exact fun w hw => h _ (hr w hw)
  | query ws q =>
      cases q with
      | latest k => exact h _ hr
      | pendingOutbox n => exact h _ hr
      | _ => trivial
  | retire ws k => exact h _ hr
  | publish p => exact h _ hr
  | _ => trivial

def Within {α : Type} (A : Part → Prop) (t : Job α) : Prop :=
  ∀ ws : List Write, (∀ w ∈ ws, A w.part) →
    Task.wp (only (Req.within A)) t (fun _ ws' => ∀ w ∈ ws', A w.part)
      (fun _ ws' => ∀ w ∈ ws', A w.part) ws

section Rules

variable {A : Part → Prop} {α β : Type}

theorem Within.pure (x : α) : Within A (pure x : Job α) := fun _ h => h

theorem Within.raise (e : Exn) : Within A (Task.raise e : Job α) := fun _ h => h

theorem Within.bind {t : Job α} {f : α → Job β} (ht : Within A t) (hf : ∀ x, Within A (f x)) :
    Within A (t >>= f) := by
  intro ws h
  rw [Task.wp_bind]
  exact Task.wp_only_mono (fun _ => id) (ht ws h) (fun x ws' h' => hf x ws' h') fun _ _ => id

theorem Within.catching {t : Job α} {handler : Exn → Job α} (ht : Within A t)
    (hh : ∀ e, Within A (handler e)) : Within A (Task.catching t handler) := by
  intro ws h
  rw [Task.wp_catching]
  exact Task.wp_only_mono (fun _ => id) (ht ws h) (fun _ _ => id) fun e ws' h' => hh e ws' h'

theorem Within.ite {c : Prop} [Decidable c] {t u : Job α} (ht : Within A t) (hu : Within A u) :
    Within A (if c then t else u) := by
  split
  · exact ht
  · exact hu

theorem Within.ask {r : Req} (h : r.within A) : Within A (Task.ask r : Job r.Ans) :=
  fun _ hw => ⟨h, fun _ => hw⟩

theorem Within.ofAnswer (x : Except Exn α) : Within A (ofAnswer x) := by
  cases x
  · exact Within.raise _
  · exact Within.pure _

theorem Within.execute {q : Query} (h : ∀ ws, (Req.query ws q).within A) :
    Within A (execute q) := by
  intro ws hw
  rw [wp_execute]
  refine ⟨h ws, fun x => ?_⟩
  cases x <;> exact hw

theorem Within.commit : Within A commit := by
  intro ws hw
  rw [wp_commit]
  refine ⟨hw, fun x => ?_⟩
  cases x
  · exact hw
  · exact List.forall_mem_nil _

theorem Within.stage {w : Write} (hw : A w.part) : Within A (stage w) := by
  intro ws h w' hw'
  rcases List.mem_append.mp hw' with hw' | hw'
  · exact h w' hw'
  · exact List.mem_singleton.mp hw' ▸ hw

theorem Within.refreshed (x : Option α) : Within A (refreshed x) := by
  cases x
  · exact Within.raise _
  · exact Within.pure _

theorem Within.setOutbox {row : OutboxRow} {f : OutboxRowField} (h : A .marks) :
    Within A (setOutbox row f) :=
  Within.bind (Within.stage h) fun _ => Within.pure _

theorem Within.enqueueOutbox {eventType topic : String} {p : Payload} (h : A .events) :
    Within A (enqueueOutbox eventType topic p) :=
  Within.bind (Within.ask trivial) fun _ => Within.stage h

end Rules

section Jobs

variable {A : Part → Prop}

theorem validateBody_within (s : ConsoleSettings) (k : ProviderKind) (body : ActivateRequest) :
    Within A (validateBody s k body) := by
  refine Within.bind (Within.ofAnswer _) fun config => Within.ite ?_ (Within.pure _)
  refine Within.bind (Within.ofAnswer _) fun checked => ?_
  obtain ⟨config, message⟩ := checked
  cases message with
  | none => exact Within.pure _
  | some message =>
      refine Within.bind ?_ fun _ => Within.pure _
      refine Within.bind (Within.ask trivial) fun x =>
        Within.bind (Within.ofAnswer x) fun probe => ?_
      exact Within.ite (Within.pure _) (Within.raise _)

theorem activationTime_within (activate : Bool) : Within A (activationTime activate) :=
  Within.ite (Within.bind (Within.ask trivial) fun _ => Within.pure _) (Within.pure _)

theorem announceActivation_within (h : A .events) (k : ProviderKind) (body : ActivateRequest)
    (version : Nat) : Within A (announceActivation k body version) :=
  Within.ite (Within.enqueueOutbox h) (Within.pure _)

theorem activateProvider_within (hp : A .providers) (he : A .events) (s : ConsoleSettings)
    (kind : String) (body : ActivateRequest) : Within A (activateProvider s kind body) := by
  unfold activateProvider
  split
  · exact Within.raise _
  refine Within.bind (validateBody_within s _ body) fun config => ?_
  refine Within.bind (Within.execute fun _ => hp) fun latest => Within.bind ?_ fun _ => ?_
  · intro ws hw
    refine ⟨hp, fun x => ?_⟩
    cases x with
    | error e => exact hw
    | ok ids =>
        intro w hmem
        rcases List.mem_append.mp hmem with hmem | hmem
        · exact hw w hmem
        · obtain ⟨i, _, rfl⟩ := List.mem_map.mp hmem
          exact hp
  refine Within.bind (Within.ask trivial) fun id => ?_
  refine Within.bind (activationTime_within _) fun t => Within.bind (Within.stage hp) fun _ => ?_
  refine Within.bind (announceActivation_within he _ body _) fun _ => ?_
  exact Within.bind Within.commit fun _ => Within.bind (Within.execute fun _ => trivial) fun row =>
    Within.refreshed row

theorem putConfig_within (hi : A .items) (he : A .events) (key value : String) (user : UserId) :
    Within A (putConfig key value user) := by
  refine Within.bind (Within.bind (Within.execute fun _ => trivial) fun item => ?_) fun item => ?_
  · cases item with
    | none =>
        refine Within.bind (Within.ask trivial) fun id => Within.bind (Within.stage hi) fun _ => ?_
        exact Within.bind Within.commit fun _ => Within.bind (Within.execute fun _ => trivial)
          fun row => Within.refreshed row
    | some item =>
        refine Within.bind (Within.stage hi) fun _ => Within.bind (Within.stage hi) fun _ => ?_
        refine Within.bind (Within.stage hi) fun _ => Within.bind Within.commit fun _ => ?_
        exact Within.bind (Within.execute fun _ => trivial) fun row => Within.refreshed row
  refine Within.ite (Within.bind (Within.enqueueOutbox he) fun _ => ?_) (Within.pure _)
  exact Within.bind Within.commit fun _ => Within.bind (Within.execute fun _ => trivial)
    fun row => Within.refreshed row

theorem getEventProvider_within : Within A getEventProvider :=
  Within.bind (Within.execute fun _ => trivial) fun _ => Within.bind (Within.ask trivial) fun x =>
    Within.ofAnswer x

theorem publishOne_within (h : A .marks) (bus : EventBus) (producer : String) (row : OutboxRow) :
    Within A (publishOne bus producer row) := by
  refine Within.catching ?_ fun e => Within.ite ?_ (Within.raise _)
  · refine Within.bind (Within.ask h) fun x => Within.bind (Within.ofAnswer x) fun _ => ?_
    refine Within.bind (Within.setOutbox h) fun row => Within.bind (Within.ask trivial) fun t => ?_
    exact Within.bind (Within.setOutbox h) fun _ => Within.pure _
  · exact Within.bind (Within.setOutbox h) fun row => Within.bind (Within.setOutbox h) fun _ =>
      Within.pure _

theorem publishEach_within (h : A .marks) (bus : EventBus) (producer : String)
    (rows : List OutboxRow) (stats : DrainStats) :
    Within A (publishEach bus producer rows stats) := by
  induction rows generalizing stats with
  | nil => exact Within.pure _
  | cons row rows ih => exact Within.bind (publishOne_within h bus producer row) fun _ => ih _

theorem drainOutbox_within (h : A .marks) (limit : Nat) (producer : String) :
    Within A (drainOutbox limit producer) := by
  refine Within.bind (Within.execute fun _ => h) fun rows => Within.ite (Within.pure _) ?_
  refine Within.bind getEventProvider_within fun bus => ?_
  exact Within.bind (publishEach_within h bus producer rows {}) fun _ =>
    Within.bind Within.commit fun _ => Within.pure _

theorem publisherRound_within (h : A .marks) (last : Option Nat) :
    Within A (publisherRound last) := by
  refine Within.catching ?_ fun e => Within.ite (Within.pure _) (Within.raise _)
  refine Within.bind (Within.execute fun _ => trivial) fun rows => ?_
  have hdrain := drainOutbox_within h 50 "brokerbridge-worker"
  exact Within.ite (Within.bind getEventProvider_within fun _ => hdrain) hdrain

theorem emitSimEvent_within (he : A .events) (hm : A .marks) (t : String) (p : Payload) :
    Within A (emitSimEvent t p) :=
  Within.bind (Within.enqueueOutbox he) fun _ => Within.bind Within.commit fun _ =>
    drainOutbox_within hm 20 _

end Jobs

end BrokerBridge.Admin
