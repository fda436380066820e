import BrokerBridge.Admin.Tables
import BrokerBridge.Conc.Solo

/-!
# The administration's requests

What the endpoints and workers of the administration await, how the world
answers, and their sessions. Nothing here calls the database again after one of
its calls has raised, so a session is only the list of its pending writes.

The event provider is the world's: what it has published is its log, and whether
a publication goes through is an answer of the environment. Probes of a provider
configuration are answers too.
-/

namespace BrokerBridge.Admin

open Conc

/-- A topic and the envelope published to it; the instant in it is left out. -/
structure Publication where
  topic : String
  eventId : OutboxId
  eventType : String
  producer : String
  correlationId : Option String
  payload : Payload
  deriving DecidableEq

/-- What drains read of the event provider. -/
structure EventBus where
  topicPrefix : Option String := none
  topicMap : List (String × String) := []

/-- What a probe reports. -/
structure Probe where
  ok : Bool := true
  message : Option String := none
  hint : Option String := none
  error : Option String := none

structure World where
  db : Tables := {}
  clock : Instant := 0
  /-- The publications that went through, newest first. -/
  published : List Publication := []
  nextId : Nat := 0

inductive Query where
  | latest (k : ProviderKind)
  | activeRows (k : ProviderKind)
  | providerConfig (i : ProviderConfigId)
  | item (key : String)
  | itemById (i : ItemId)
  | pendingOutbox (limit : Nat)

@[reducible] def Query.Res : Query → Type
  | latest _ => Option ProviderConfig
  | activeRows _ => List ProviderConfig
  | providerConfig _ => Option ProviderConfig
  | item _ => Option ConfigurationItem
  | itemById _ => Option ConfigurationItem
  | pendingOutbox _ => List OutboxRow

inductive Req where
  | query (pending : List Write) (q : Query)
  /-- The bulk update that retires the active rows of a kind. -/
  | retire (pending : List Write) (k : ProviderKind)
  | commit (pending : List Write)
  | newId
  | now
  | probe (k : ProviderKind) (providerType : String) (config : ProviderBody)
  /-- The event provider is built, or closed and built again. -/
  | connect
  | publish (p : Publication)

@[reducible] def Req.Ans : Req → Type
  | query _ q => Except Exn q.Res
  | retire _ _ => Except Exn (List ProviderConfigId)
  | commit _ => Except Exn Unit
  | newId => Nat
  | now => Instant
  | probe _ _ _ => Except Exn Probe
  | connect => Except Exn EventBus
  | publish _ => Except Exn Unit

structure Env where
  fault : Option Fault := none
  probe : Probe := {}
  bus : EventBus := {}

/-! ## Answers -/

def World.ids (w : World) : List Nat :=
  w.db.providers.rows.map (·.id) ++ w.db.items.rows.map (·.id) ++ w.db.outbox.rows.map (·.id) ++
  w.published.map (·.eventId)

/-- The next `uuid4`. -/
def World.freshId (w : World) : Nat :=
  max w.nextId (w.ids.foldr max 0 + 1)

/-- The rows of a kind, in the order they were inserted. -/
def Tables.ofKind (d : Tables) (k : ProviderKind) : List ProviderConfig :=
  d.providers.rows.filter fun r => r.kind = k

def Query.eval (d : Tables) : (q : Query) → q.Res
  | latest k => ((d.ofKind k).insertionSort fun a b => b.version ≤ a.version).head?
  | activeRows k => (d.ofKind k).filter fun r => r.status = .active
  | providerConfig i => d.providers.get? i
  | item key => d.items.rows.find? fun r => r.key == key
  | itemById i => d.items.get? i
  | pendingOutbox limit =>
      ((d.outbox.rows.filter fun r => r.status = .pending).insertionSort
        fun a b => a.createdAt ≤ b.createdAt).take limit

/-- Answer `x`, unless the await is faulty. -/
def Env.answer {α : Type} (e : Env) (documented : Exn) (w : World) (x : α) (w' : World) :
    Except Exn α × World :=
  match e.fault with
  | some f => (.error (f.exn documented), w)
  | none => (.ok x, w')

def handle (r : Req) (e : Env) (w : World) : r.Ans × World :=
  match r with
  | .query ws q => e.answer dbError w (q.eval (w.db.view w.clock ws)) w
  | .retire ws k =>
      e.answer dbError w (((Query.activeRows k).eval (w.db.view w.clock ws)).map (·.id)) w
  | .commit ws =>
      match w.db.write? w.clock ws with
      | none => (.error .integrity, w)
      | some d => e.answer dbError w () { w with db := d }
  | .newId => (w.freshId, { w with nextId := w.freshId + 1 })
  | .now => (w.clock, w)
  | .probe _ _ _ => e.answer (.other "probe failed") w e.probe w
  | .connect => e.answer (.other "event provider unavailable") w e.bus w
  | .publish p =>
      e.answer (.other "publish failed") w () { w with published := p :: w.published }

/-! ## Sessions -/

abbrev Job (α : Type) : Type := Task Req Req.Ans Exn (List Write) α

def ofAnswer {α : Type} : Except Exn α → Job α
  | .ok a => pure a
  | .error e => Task.raise e

def execute (q : Query) : Job q.Res := do
  let ws ← Task.local'
  let x : Except Exn q.Res ← Task.ask (Req.query ws q)
  ofAnswer x

def commit : Job Unit := do
  let ws ← Task.local'
  let x : Except Exn Unit ← Task.ask (Req.commit ws)
  ofAnswer x
  Task.modifyLocal fun _ => []

def stage (w : Write) : Job Unit := Task.modifyLocal fun ws => ws ++ [w]

def newId : Job Nat := Task.ask Req.newId

def now : Job Instant := Task.ask Req.now

/-- `db.refresh` -/
def refreshed {α : Type} : Option α → Job α
  | some r => pure r
  | none => Task.raise (.other "could not refresh instance")

/-- Set an attribute of a row that has another value. -/
def setOutbox (row : OutboxRow) (f : OutboxRowField) : Job OutboxRow := do
  stage (.setOutbox row.id f)
  pure (f.set row)

/-- `enqueue_outbox` -/
def enqueueOutbox (eventType topic : String) (payload : Payload) : Job Unit := do
  let id ← newId
  stage (.addOutbox { id := id, eventType := eventType, topic := topic, payload := payload })

section Rules

variable {X : Type} {g : (r : Req) → (r.Ans → X) → X} {α : Type} {E : Exn → List Write → X}
  {ws : List Write}

/-- An answer, by cases. -/
def cases {α : Type} (Q : α → List Write → X) (E : Exn → List Write → X) (ws : List Write) :
    Except Exn α → X
  | .ok a => Q a ws
  | .error e => E e ws

@[simp] theorem cases_ok {a : α} {Q : α → List Write → X} : cases Q E ws (.ok a) = Q a ws := rfl

@[simp] theorem cases_error {e : Exn} {Q : α → List Write → X} :
    cases Q E ws (.error e) = E e ws := rfl

theorem wp_ofAnswer {x : Except Exn α} {Q : α → List Write → X} :
    Task.wp g (ofAnswer x) Q E ws = cases Q E ws x := by
  cases x <;> rfl

@[simp] theorem wp_execute {q : Query} {Q : q.Res → List Write → X} :
    Task.wp g (execute q) Q E ws = g (.query ws q) (cases Q E ws) :=
  congrArg (g (.query ws q)) (funext fun _ => wp_ofAnswer)

@[simp] theorem wp_commit {Q : Unit → List Write → X} :
    Task.wp g commit Q E ws = g (.commit ws) (cases (fun _ _ => Q () []) E ws) := by
  unfold commit
  simp only [Task.wp_bind, Task.wp_local']
  refine congrArg (g _) (funext fun x => ?_)
  cases x <;> rfl

@[simp] theorem wp_stage {w : Write} {Q : Unit → List Write → X} :
    Task.wp g (stage w) Q E ws = Q () (ws ++ [w]) := rfl

@[simp] theorem wp_newId {Q : Nat → List Write → X} :
    Task.wp g newId Q E ws = g .newId fun x => Q x ws := rfl

@[simp] theorem wp_now {Q : Instant → List Write → X} :
    Task.wp g now Q E ws = g .now fun x => Q x ws := rfl

@[simp] theorem wp_setOutbox {row : OutboxRow} {f : OutboxRowField}
    {Q : OutboxRow → List Write → X} :
    Task.wp g (setOutbox row f) Q E ws = Q (f.set row) (ws ++ [.setOutbox row.id f]) := rfl

end Rules

/-! ## What an answer changes -/

/-- An answer either fails and changes nothing, or it succeeds. -/
theorem Env.answer_cases {α : Type} (e : Env) (documented : Exn) (w : World) (x : α) (w' : World) :
    (∃ f, e.answer documented w x w' = (.error f, w)) ∨
    e.answer documented w x w' = (.ok x, w') := by
  unfold Env.answer
  split
  · exact .inl ⟨_, rfl⟩
  · exact .inr rfl

theorem query_cases (ws : List Write) (q : Query) (e : Env) (w : World) :
    (∃ f, handle (.query ws q) e w = (.error f, w)) ∨
    handle (.query ws q) e w = (.ok (q.eval (w.db.view w.clock ws)), w) :=
  Env.answer_cases e dbError w _ w

theorem retire_cases (ws : List Write) (k : ProviderKind) (e : Env) (w : World) :
    (∃ f, handle (.retire ws k) e w = (.error f, w)) ∨
    handle (.retire ws k) e w =
      (.ok (((Query.activeRows k).eval (w.db.view w.clock ws)).map (·.id)), w) :=
  Env.answer_cases e dbError w _ w

/-- A commit fails and changes nothing, or it does its writes. -/
theorem commit_cases (ws : List Write) (e : Env) (w : World) :
    (∃ f, handle (.commit ws) e w = (.error f, w)) ∨
    ∃ d, w.db.write? w.clock ws = some d ∧
      handle (.commit ws) e w = (.ok (), { w with db := d }) := by
  simp only [handle]
  cases hd : w.db.write? w.clock ws with
  | none => exact .inl ⟨_, rfl⟩
  | some d =>
      refine (Env.answer_cases e dbError w () { w with db := d }).imp id fun h => ?_
      exact ⟨d, rfl, h⟩

theorem publish_cases (p : Publication) (e : Env) (w : World) :
    (∃ f, handle (.publish p) e w = (.error f, w)) ∨
    handle (.publish p) e w = (.ok (), { w with published := p :: w.published }) :=
  Env.answer_cases e _ w _ _

/-- Every request but a commit leaves the tables alone. -/
theorem handle_db {r : Req} (h : ∀ ws, r ≠ .commit ws) (e : Env) (w : World) :
    (handle r e w).2.db = w.db := by
  cases r with
  | commit ws => exact absurd rfl (h ws)
  | query ws q => rcases query_cases ws q e w with ⟨f, hf⟩ | hf <;> rw [hf]
  | retire ws k => rcases retire_cases ws k e w with ⟨f, hf⟩ | hf <;> rw [hf]
  | publish p => rcases publish_cases p e w with ⟨f, hf⟩ | hf <;> rw [hf]
  | probe => rcases Env.answer_cases e (.other "probe failed") w e.probe w with ⟨f, hf⟩ | hf <;>
      simp only [handle, hf]
  | connect => rcases Env.answer_cases e (.other "event provider unavailable") w e.bus w
      with ⟨f, hf⟩ | hf <;> simp only [handle, hf]
  | newId => rfl
  | now => rfl

/-- Every request but a publication leaves the log alone. -/
theorem handle_published {r : Req} (h : ∀ p, r ≠ .publish p) (e : Env) (w : World) :
    (handle r e w).2.published = w.published := by
  cases r with
  | publish p => exact absurd rfl (h p)
  | commit ws => rcases commit_cases ws e w with ⟨f, hf⟩ | ⟨d, _, hf⟩ <;> rw [hf]
  | query ws q => rcases query_cases ws q e w with ⟨f, hf⟩ | hf <;> rw [hf]
  | retire ws k => rcases retire_cases ws k e w with ⟨f, hf⟩ | hf <;> rw [hf]
  | probe => rcases Env.answer_cases e (.other "probe failed") w e.probe w with ⟨f, hf⟩ | hf <;>
      simp only [handle, hf]
  | connect => rcases Env.answer_cases e (.other "event provider unavailable") w e.bus w
      with ⟨f, hf⟩ | hf <;> simp only [handle, hf]
  | newId => rfl
  | now => rfl

end BrokerBridge.Admin
