import BrokerBridge.Admin.Jobs
import BrokerBridge.Events.Buffer

/-!
# The event provider in memory

`MemoryEventProvider`: `publish` hands an event to the handlers there are, `subscribe`
replaces the handlers and replays what was published before. What each of the two does up
to its first await is one request, and so is every await of a handler. A handler is known
by a name; `consumer` is `on_consumed_event`, which feeds the event buffer and has no await
in it, and what another one does is not modelled, except that it may raise.

A drain publishes the rows it has read and hands each event that was sent to
`on_consumed_event` itself. The rows it marks and commits are those of `drain_outbox`.
-/

namespace BrokerBridge.Events

open Conc

inductive Handler where
  | consumer
  | other (n : Nat)
  deriving DecidableEq

/-- The topics of a subscription, `none` for all of them, and its handler. -/
structure Registration where
  topics : Option (List String)
  handler : Handler
  deriving DecidableEq

/-- `topics is None or topic in topics` -/
def Registration.takes (r : Registration) (topic : String) : Bool :=
  r.topics.all fun topics => topic ∈ topics

structure MemoryEventProvider where
  published : List (String × BusEvent) := []
  bus : Admin.EventBus := {}
  closed : Bool := false
  handlers : List Registration := []

structure World where
  provider : MemoryEventProvider := {}
  buffer : EventBusBuffer := {}
  /-- The awaits of handlers, oldest first. -/
  deliveries : List (Handler × String × BusEvent) := []

/-- What nobody here controls: whether another handler raises, and the time. -/
structure Env where
  raises : Bool := false
  now : String := ""

inductive Req where
  /-- `publish`, up to its first await: the handlers it is going to call -/
  | publish (topic : String) (event : BusEvent)
  /-- `subscribe`, up to its first await: the events it is going to replay -/
  | subscribe (topics : List String) (handler : Handler)
  | deliver (handler : Handler) (topic : String) (event : BusEvent)
  /-- `on_consumed_event`, called by a drain -/
  | consume (topic : String) (event : BusEvent)
  | now

@[reducible] def Req.Ans : Req → Type
  | publish _ _ => Except Exn (List Registration)
  | subscribe _ _ => Except Exn (List (String × BusEvent))
  | deliver _ _ _ => Except Exn Unit
  | consume _ _ => Unit
  | now => String

def closedError : Exn := .other "MemoryEventProvider is closed"

/-- `set(topics) if topics else None` -/
def topicSet (topics : List String) : Option (List String) :=
  if topics = [] then none else some topics

/-- `on_consumed_event` -/
def onConsumedEvent (topic : String) (event : BusEvent) (now : String) (w : World) : World :=
  { w with buffer := w.buffer.append { topic := topic, event := event, now := now } }

def handle (r : Req) (e : Env) (w : World) : r.Ans × World :=
  match r with
  | .publish topic event =>
      if w.provider.closed then (.error closedError, w)
      else
        (.ok w.provider.handlers,
          { w with
            provider :=
              { w.provider with published := w.provider.published ++ [(topic, event)] } })
  | .subscribe topics handler =>
      if w.provider.closed then (.error closedError, w)
      else
        (.ok w.provider.published,
          { w with provider := { w.provider with handlers := [⟨topicSet topics, handler⟩] } })
  | .deliver handler topic event =>
      let w := { w with deliveries := w.deliveries ++ [(handler, topic, event)] }
      match handler with
      | .consumer => (.ok (), onConsumedEvent topic event e.now w)
      | .other _ => (if e.raises then .error (.other "handler failed") else .ok (), w)
  | .consume topic event => ((), onConsumedEvent topic event e.now w)
  | .now => (e.now, w)

theorem handle_publish_closed {topic : String} {event : BusEvent} {w : World} (e : Env)
    (h : w.provider.closed = true) :
    handle (.publish topic event) e w = (.error closedError, w) := by
  simp only [handle, h, if_true]

theorem handle_publish_open {topic : String} {event : BusEvent} {w : World} (e : Env)
    (h : w.provider.closed = false) :
    handle (.publish topic event) e w =
      (.ok w.provider.handlers,
        { w with
          provider :=
            { w.provider with published := w.provider.published ++ [(topic, event)] } }) := by
  simp only [handle, h, Bool.false_eq_true, if_false]

/-! ## The methods -/

abbrev Job (α : Type) : Type := Task Req Req.Ans Exn Unit α

def ofAnswer {α : Type} : Except Exn α → Job α
  | .ok a => pure a
  | .error e => Task.raise e

/-- `await handler(topic, event)` -/
def deliver (handler : Handler) (topic : String) (event : BusEvent) : Job Unit := do
  let x : Except Exn Unit ← Task.ask (Req.deliver handler topic event)
  ofAnswer x

/-- The loop of `publish`. -/
def fanOut (topic : String) (event : BusEvent) : List Registration → Job Unit
  | [] => pure ()
  | r :: rest =>
      if r.takes topic then do
        deliver r.handler topic event
        fanOut topic event rest
      else fanOut topic event rest

/-- `publish` -/
def publish (topic : String) (event : BusEvent) : Job Unit := do
  let x : Except Exn (List Registration) ← Task.ask (Req.publish topic event)
  let handlers ← ofAnswer x
  fanOut topic event handlers

/-- The loop of `subscribe`. -/
def replay (r : Registration) : List (String × BusEvent) → Job Unit
  | [] => pure ()
  | (topic, event) :: rest =>
      if r.takes topic then do
        deliver r.handler topic event
        replay r rest
      else replay r rest

/-- `subscribe` -/
def subscribe (topics : List String) (handler : Handler) : Job Unit := do
  let x : Except Exn (List (String × BusEvent)) ← Task.ask (Req.subscribe topics handler)
  let published ← ofAnswer x
  replay ⟨topicSet topics, handler⟩ published

/-! ## Draining -/

section Drain

variable (uuid : Admin.OutboxId → String) (producer : String)

/-- `build_envelope`; `uuid` is the text of an id. -/
def buildEnvelope (row : Admin.OutboxRow) (now : String) : BusEvent where
  eventId := some (uuid row.id)
  eventType := some row.eventType
  occurredAt := some now
  producer := some producer
  correlationId := row.correlationId
  payload := some row.payload

/-- One row of the loop of `drain_outbox`; whether it was sent. -/
def drainRow (bus : Admin.EventBus) (row : Admin.OutboxRow) : Job Bool := do
  let now : String ← Task.ask Req.now
  let envelope := buildEnvelope uuid producer row now
  let physical := Admin.resolvePhysicalTopic row.topic bus
  Task.catching
    (do
      publish physical envelope
      Task.ask (Req.consume physical envelope)
      pure true)
    fun e => if e.isException then pure false else Task.raise e

/-- The loop of `drain_outbox`: the rows that were sent. -/
def drainRows (bus : Admin.EventBus) : List Admin.OutboxRow → Job (List Admin.OutboxRow)
  | [] => pure []
  | row :: rows => do
      let sent ← drainRow uuid producer bus row
      let rest ← drainRows bus rows
      pure (if sent then row :: rest else rest)

end Drain

/-! ## Rules -/

section Rules

variable {X : Type} {g : (r : Req) → (r.Ans → X) → X} {α : Type} {E : Exn → Unit → X} {u : Unit}

/-- An answer, by cases. -/
def cases {α : Type} (Q : α → Unit → X) (E : Exn → Unit → X) (u : Unit) : Except Exn α → X
  | .ok a => Q a u
  | .error e => E e u

@[simp] theorem wp_ofAnswer {x : Except Exn α} {Q : α → Unit → X} :
    Task.wp g (ofAnswer x) Q E u = cases Q E u x := by
  cases x <;> rfl

@[simp] theorem wp_deliver {h : Handler} {topic : String} {event : BusEvent}
    {Q : Unit → Unit → X} :
    Task.wp g (deliver h topic event) Q E u = g (.deliver h topic event) (cases Q E u) := by
  unfold deliver
  simp only [Task.wp_bind, Task.wp_ask, wp_ofAnswer]

@[simp] theorem wp_publish {topic : String} {event : BusEvent} {Q : Unit → Unit → X} :
    Task.wp g (publish topic event) Q E u =
      g (.publish topic event)
        (cases (fun regs => Task.wp g (fanOut topic event regs) Q E) E u) := by
  unfold publish
  simp only [Task.wp_bind, Task.wp_ask, wp_ofAnswer]

theorem wp_fanOut_cons {topic : String} {event : BusEvent} {r : Registration}
    {rest : List Registration} {Q : Unit → Unit → X} :
    Task.wp g (fanOut topic event (r :: rest)) Q E u =
      if r.takes topic then
        g (.deliver r.handler topic event)
          (cases (fun _ => Task.wp g (fanOut topic event rest) Q E) E u)
      else Task.wp g (fanOut topic event rest) Q E u := by
  rw [fanOut]
  split
  · rw [Task.wp_bind, wp_deliver]
  · rfl

end Rules

end BrokerBridge.Events
