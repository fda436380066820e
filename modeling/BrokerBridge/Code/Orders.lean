import BrokerBridge.Code.Routing
import BrokerBridge.Code.Sessions
import BrokerBridge.Code.Subscriptions

/-!
# Orders

`OrderService`: placing an order, the submission loop over a failover chain,
and cancelling.
-/

namespace BrokerBridge

open Conc

/-! ## The submission loop -/

def orderPayload (order : Order) (candidate : RouteCandidate) : OrderPayload where
  clientOrderId := order.clientOrderId
  side := order.side
  symbol := order.symbol
  quantity := order.quantity
  orderType := order.orderType
  timeInForce := order.timeInForce
  brokerAccountId := candidate.broker.id
  staticIpId := candidate.staticIpId

/-- `_idem_key` -/
def idemKey (order : Order) (broker : BrokerId) : IdemKey :=
  ⟨order.clientId, order.clientOrderId, broker⟩

/-- The attempt row, and the order moved to SUBMITTING, in one commit. -/
def openAttempt (order : Order) (candidate : RouteCandidate) (attemptNo : Nat) :
    Coro (Order × OrderAttempt) := do
  let id ← newId
  stage (.addAttempt
    { id := id
      orderId := order.id
      attemptNo := attemptNo
      brokerAccountId := candidate.broker.id
      staticIpId := candidate.staticIpId
      requestPayload := orderPayload order candidate
      idempotencyKey := idemKey order candidate.broker.id })
  let order ← assign order (.status .submitting)
  let order ← assign order (.brokerAccountId (some candidate.broker.id))
  let order ← assign order (.staticIpId candidate.staticIpId)
  commit
  let ⟨attempt, _⟩ ← refreshed (← execute (.attempt order.id id))
  pure (order, attempt)

/-- What follows an accepted `place_order`. -/
def recordSubmitted (order : Order) (attempt : OrderAttempt) (candidate : RouteCandidate)
    (brokerOrder : BrokerOrderId) : Coro Unit := do
  let attempt ← assign attempt (.status .submitted)
  let attempt ← assign attempt (.brokerOrderId (some brokerOrder))
  let order ← assign order (.status .submitted)
  let order ← assign order (.brokerOrderId attempt.brokerOrderId)
  let order ← assign order (.errorCode none)
  enqueueOutbox (.orderSubmitted order.id order.clientId order.clientOrderId
    candidate.broker.id candidate.staticIpId order.side order.symbol order.quantity
    order.brokerOrderId)
  commit

def failAttempt (attempt : OrderAttempt) (error : String) : Coro Unit := do
  let attempt ← assign attempt (.status .failed)
  let _ ← assign attempt (.error (some error))
  commit

def failOrder (order : Order) (errorCode : String) : Coro Unit := do
  let order ← assign order (.status .failed)
  let _ ← assign order (.errorCode (some errorCode))
  commit

/-- The failover row, when there is a broker to fail over to. -/
def recordFailover (order : Order) (candidate : RouteCandidate) (reason : String) :
    List RouteCandidate → Coro Unit
  | [] => pure ()
  | next :: _ => do
      stage (.addFailover
        { orderId := order.id
          fromBrokerId := candidate.broker.id
          toBrokerId := next.broker.id
          reason := reason })
      commit

/-- Why the loop goes on to the next broker. -/
structure LastError where
  error : String
  code : String

/-- The `except` clauses of the loop. -/
def submitHandler (order : Order) (attempt : OrderAttempt) : Exn → Coro (Option LastError)
  | .broker code message _ retryable => do
      failAttempt attempt message
      if retryable then pure (some ⟨message, code⟩)
      else
        failOrder order code
        Task.raise (.app code message 400)
  | .cancelled => Task.raise .cancelled
  | e => do
      failAttempt attempt e.str
      pure (some ⟨e.str, "BROKER_ERROR"⟩)

/-- The `try` of the loop: `none` when the order was submitted. When the commit
raises, the handler runs on a broken session, so it does not matter that its
objects are not those the `try` had set. -/
def trySubmit (order : Order) (attempt : OrderAttempt) (candidate : RouteCandidate) :
    Coro (Option LastError) :=
  Task.catching
    (do
      let x : Except Exn BrokerOrderId ←
        await (.placeOrder order.id (orderPayload order candidate))
      let brokerOrder ← ofAnswer x
      recordSubmitted order attempt candidate brokerOrder
      pure none)
    (submitHandler order attempt)

/-- The end of the chain. -/
def failoverExhausted (order : Order) (last : Option LastError) : Coro Unit := do
  failOrder order (orDefault (last.map (·.code)) "FAILOVER_EXHAUSTED")
  Task.raise (.app "FAILOVER_EXHAUSTED"
    (orDefault (last.map (·.error)) "All brokers in failover chain failed") 502)

/-- A broker over its rate limit: reject the order, or go on to the next. -/
def rateLimited (order : Order) (candidate : RouteCandidate)
    (rest : List RouteCandidate) : Coro LastError := do
  if (← exceedPolicy) = "REJECT" then
    failOrder order "RATE_LIMITED"
    Task.raise (.app "RATE_LIMITED" "Broker rate limit exceeded" 429)
  else
    recordFailover order candidate "RATE_LIMITED" rest
    pure ⟨"rate limited", "RATE_LIMITED"⟩

/-- The loop over the chain. `held` are the brokers of the whole chain. -/
def submitChain (held : List BrokerAccount) (order : Order) (attemptNo : Nat)
    (last : Option LastError) : List RouteCandidate → Coro Unit
  | [] => failoverExhausted order last
  | candidate :: rest => do
      let rl ← rateConsume candidate.broker.id candidate.broker.limit
      if !rl.allowed then
        let why ← rateLimited order candidate rest
        submitChain held order (attemptNo + 1) (some why) rest
      else
        let _ ← ensure held candidate.broker.id false
        let (order, attempt) ← openAttempt order candidate attemptNo
        match ← trySubmit order attempt candidate with
        | none => pure ()
        | some why =>
            recordFailover order candidate why.code rest
            submitChain held order (attemptNo + 1) (some why) rest

/-- `_submit_inline`. The faults it pushes to the mock providers are part of
what the environment replies. -/
def submitInline (by_ : Actor) (order : Order) (chain : List RouteCandidate) :
    Coro Unit := do
  mark (.submitInline by_ order chain)
  getProvider
  submitChain (chain.map (·.broker)) order 1 none chain

/-! ## Placing -/

structure PlaceRequest where
  clientId : ClientId
  clientOrderId : String
  side : String
  symbol : String
  quantity : Rat
  orderType : String := "MARKET"
  timeInForce : String := "DAY"
  preferredBrokerId : Option BrokerId := none
  regionPreference : Option Region := none

def executionMode : Coro String := do
  let config ← execute .config
  pure (Text.lower (config.executionMode.getD "inline"))

/-- The order row of a request. -/
def PlaceRequest.order (r : PlaceRequest) (id : OrderId) : Order where
  id := id
  clientId := r.clientId
  clientOrderId := r.clientOrderId
  side := Text.upper r.side
  symbol := Text.upper r.symbol
  quantity := r.quantity
  orderType := Text.upper r.orderType
  timeInForce := Text.upper r.timeInForce
  status := .created
  preferredBrokerId := r.preferredBrokerId
  regionPreference := r.regionPreference

def Order.route (o : Order) : RouteQuery where
  clientId := o.clientId
  preferredBrokerId := o.preferredBrokerId
  regionPreference := o.regionPreference

/-- The key of the order is taken: the order that has it is returned. -/
def insertHandler (order : Order) : Exn → Coro (Except Order Order)
  | .integrity => do
      rollback
      match ← execute (.orderWithKey order.clientId order.clientOrderId) with
      | some prior => pure (.error prior)
      | none => Task.raise .integrity
  | e => Task.raise e

/-- The row inserted, or the order another call inserted under the same key. -/
def insertOrder (order : Order) : Coro (Except Order Order) :=
  Task.catching
    (do
      stage (.addOrder order)
      commit
      let ⟨order, _⟩ ← refreshed (← execute (.order order.id))
      pure (.ok order))
    (insertHandler order)

/-- The part of `place` that runs with the semaphore held. -/
def placeNew (id : OrderId) (r : PlaceRequest) : Coro (Order × Bool) := do
  match ← insertOrder (r.order id) with
  | .error prior => pure (prior, false)
  | .ok order =>
      let decision ← selectOrRaise
        { clientId := r.clientId
          preferredBrokerId := r.preferredBrokerId
          regionPreference := r.regionPreference }
      submitInline .place order decision.chain
      let ⟨order, _⟩ ← refreshed (← execute (.order order.id))
      pure (order, true)

/-- `sem.acquire()` with its timeout. -/
def acquireInflight (holder : Nat) : Coro Unit := do
  let x : Except Exn Bool ← await (.semAcquire holder)
  let acquired ← ofAnswer x
  if acquired then pure ()
  else Task.raise (.app "QUEUE_FULL" "Order engine saturated — try again shortly" 503)

/-- `place`: the order, and whether it was created by this call. -/
def place (r : PlaceRequest) : Coro (Order × Bool) := do
  assertTradingAllowed r.clientId
  match ← execute (.orderWithKey r.clientId r.clientOrderId) with
  | some prior => pure (prior, false)
  | none =>
      let mode ← executionMode
      if mode ≠ "inline" then
        Task.raise (.app "UNSUPPORTED_MODE"
          s!"Order execution mode '{mode}' is not available in this wave (inline only)" 501)
      else
        let id ← newId
        acquireInflight id
        Task.finally'
          (do
            await .inflightUp
            Task.finally' (placeNew id r) (await .inflightDown))
          (await (.semRelease id))

/-! ## Cancelling -/

def OrderStatus.cancelable : OrderStatus → Bool
  | .submitted | .submitting | .created => true
  | _ => false

/-- The order marked cancelled, and announced. -/
def markCancelled (order : Order) : Coro Order := do
  let order ← assign order (.status .cancelled)
  enqueueOutbox (.orderCancelled order.id order.clientId order.clientOrderId
    order.brokerOrderId)
  commit
  let ⟨order, _⟩ ← refreshed (← execute (.order order.id))
  pure order

/-- `cancel_order` at the broker. -/
def cancelAtBroker (order : Order) (brokerOrder : BrokerOrderId) : Coro Unit :=
  Task.catching
    (do
      let x : Except Exn Unit ← await (.cancelOrder order.id brokerOrder)
      ofAnswer x)
    fun
    | .broker _ message _ _ => Task.raise (.app "ORDER_NOT_CANCELABLE" message 409)
    | e => Task.raise e

def cancel (id : OrderId) : Coro Order := do
  mark (.cancel id)
  match ← execute (.order id) with
  | none => Task.raise (.app "NOT_FOUND" "Order not found" 404)
  | some ⟨order, _⟩ =>
      if !order.status.cancelable then
        Task.raise (.app "ORDER_NOT_CANCELABLE"
          ("Order status " ++ order.status.toString ++ " cannot be cancelled") 409)
      else
        match order.brokerOrderId with
        | none => markCancelled order
        | some brokerOrder =>
            getProvider
            cancelAtBroker order brokerOrder
            markCancelled order

/-! ## What working on an order asks -/

/-- A write of a call that has order `o` in hand, other than inserting it or
cancelling it; or a write that concerns no order. -/
def Write.working (o : OrderId) : Write → Prop
  | .addOrder _ => False
  | .addAttempt r => r.orderId = o
  | .setOrder o' f => o' = o ∧ f ≠ .status .cancelled
  | .setAttempt o' _ _ => o' = o
  | .enqueue (.orderSubmitted o' ..) => o' = o
  | .enqueue (.orderCancelled ..) => False
  | _ => True

/-- A request of such a call that is not itself a submission. -/
def Req.busy (o : OrderId) : Req → Prop
  | .commit ws | .flush ws => ∀ w ∈ ws, w.working o
  | .placeOrder _ _ | .cancelOrder _ _ => False
  | .mark (.recover _) | .mark (.cancel _) => False
  | _ => True

theorem routing_busy (o : OrderId) (r : Req) (h : r.routing) : r.busy o := by
  cases r <;> trivial

theorem ensuring_busy {b : BrokerId} (o : OrderId) (r : Req) (h : r.ensuring b) :
    r.busy o := by
  cases r with
  | commit ws =>
      intro w hw
      have := h w hw
      cases w <;> trivial
  | _ => trivial

/-- Inserting commits the row, and reads it, or another order with its key after a rollback. -/
theorem insertOrder_calm {N : Req → Prop} (order : Order)
    (hcommit : ∀ ws, (∀ w ∈ ws, w = .addOrder order) → N (.commit ws))
    (hrow : N (.query [] (.order order.id))) (hrollback : N .rollback)
    (hkey : N (.query [] (.orderWithKey order.clientId order.clientOrderId))) :
    Calm N (insertOrder order) := by
  refine Steps.catching ?_ fun e => ?_
  · refine Steps.weaken (U := (· = .addOrder order)) (V := fun _ => False) ?_ (fun _ h => h.elim)
      fun _ => id
    refine Steps.bind (Steps.stage rfl) fun _ => Steps.bind (Steps.commit hcommit) fun _ => ?_
    exact Steps.bind (calm_read hrow) fun row => Steps.bind (Steps.refreshed row) fun _ =>
      Steps.pure _
  · cases e with
    | integrity =>
        refine Steps.bind (Steps.rollback hrollback) fun _ =>
          Steps.bind (calm_read hkey) fun prior => ?_
        cases prior with
        | some prior => exact Steps.pure _
        | none => exact Steps.raise _
    | _ => exact Steps.raise _

/-- `N` admits what working on an order asks. -/
structure Working (N : Req → Prop) (o : OrderId) : Prop where
  newId : N .newId
  query : ∀ ws q, N (.query ws q)
  commit : ∀ {ws}, (∀ w ∈ ws, w.working o) → N (.commit ws)
  routing : ∀ r, r.routing → N r

theorem busy_working (o : OrderId) : Working (Req.busy o) o :=
  ⟨trivial, fun _ _ => trivial, fun h => h, routing_busy o⟩

section Work

variable {N : Req → Prop} {o : OrderId}

theorem Working.read (h : Working N o) {U : Write → Prop} {q : Query} : Steps N U U (execute q) :=
  Steps.execute fun ws _ => h.query ws q

theorem Working.commits (h : Working N o) : Steps N (Write.working o)
    (fun _ => False) BrokerBridge.commit :=
  Steps.commit fun _ => h.commit

/-- A stretch that stages only working writes and commits them. -/
theorem Working.stretch (_ : Working N o) {α : Type} {t : Coro α}
    (ht : Steps N (Write.working o) (fun _ => False) t) : Calm N t :=
  ht.weaken (fun _ h => h.elim) fun _ => id

theorem openAttempt_calm (order : Order) (h : Working N order.id) (c : RouteCandidate) (n : Nat) :
    Calm N (openAttempt order c n) := by
  refine Steps.bind (Steps.newId h.newId) fun id => h.stretch ?_
  refine Steps.bind (Steps.stage rfl) fun _ => ?_
  refine Steps.assignThen ⟨rfl, nofun⟩ (Steps.assignThen ⟨rfl, nofun⟩ ?_)
  refine Steps.assignThen ⟨rfl, nofun⟩ (Steps.bind h.commits fun _ => ?_)
  refine Steps.bind h.read fun row => Steps.bind (Steps.refreshed _) fun attempt => ?_
  exact Steps.pure _

/-- The objects an attempt is opened with are those of the order. -/
theorem openAttempt_returns (order : Order) (c : RouteCandidate) (n : Nat) :
    Returns (fun x => x.1.id = order.id ∧ x.2.orderId = order.id)
      (openAttempt order c n) := by
  refine Returns.after fun id => Returns.after fun _ => ?_
  refine Returns.bind (Returns.assign (R := fun o => o.id = order.id) rfl) fun o1 h1 => ?_
  refine Returns.bind (Returns.assign (R := fun o => o.id = order.id) h1) fun o2 h2 => ?_
  refine Returns.bind (Returns.assign (R := fun o => o.id = order.id) h2) fun o3 h3 => ?_
  refine Returns.after fun _ => Returns.after fun row => Returns.after fun x => ?_
  obtain ⟨attempt, ha⟩ := x
  exact Returns.pure ⟨h3, ha.2.trans h3⟩

theorem recordSubmitted_calm (order : Order) (h : Working N order.id) (a : OrderAttempt)
    (c : RouteCandidate) (bo : BrokerOrderId) (ha : a.orderId = order.id) :
    Calm N (recordSubmitted order a c bo) := by
  refine h.stretch ?_
  refine Steps.assignThen ha (Steps.assignThen ha ?_)
  refine Steps.assignThen ⟨rfl, nofun⟩ (Steps.assignThen ⟨rfl, nofun⟩ ?_)
  refine Steps.assignThen ⟨rfl, nofun⟩ (Steps.bind (Steps.stage rfl) fun _ => ?_)
  exact h.commits

theorem recordSubmitted_breaks (order : Order) (a : OrderAttempt) (c : RouteCandidate)
    (bo : BrokerOrderId) : Breaks (recordSubmitted order a c bo) :=
  Breaks.assign.bind fun _ => Breaks.assign.bind fun _ => Breaks.assign.bind fun _ =>
    Breaks.assign.bind fun _ => Breaks.assign.bind fun _ =>
      (Breaks.stage _).bind fun _ => Breaks.commit

/-- On a broken session the attempt is not even marked failed. -/
theorem wp_failAttempt_broken {X : Type} {g : (r : Req) → (r.Ans → X) → X}
    {Q : Unit → Session → X} {E : Exn → Session → X} {s : Session} (a : OrderAttempt)
    (error : String) (hb : s.broken = true) :
    ∃ s', s'.broken = true ∧
      Task.wp g (failAttempt a error) Q E s = E brokenSession s' := by
  simp only [failAttempt, Task.wp_bind]
  rcases wp_assign_cases (g := g) a (.status .failed) _ E s with heq | heq
  all_goals
    rw [heq]
    rcases wp_assign_cases (g := g) (Stored.set (.status .failed) a : OrderAttempt)
      (.error (some error)) (fun _ => Task.wp g commit Q E) E _ with heq | heq
    all_goals
      rw [heq, wp_commit, if_pos hb]
      refine ⟨_, ?_, rfl⟩
      exact hb

theorem failAttempt_calm (h : Working N o) (a : OrderAttempt) (error : String)
    (ha : a.orderId = o) : Calm N (failAttempt a error) := by
  refine h.stretch (Steps.assignThen ha (Steps.assignThen ha ?_))
  exact h.commits

theorem failOrder_calm (order : Order) (h : Working N order.id) (code : String) :
    Calm N (failOrder order code) := by
  refine h.stretch (Steps.assignThen ⟨rfl, nofun⟩ (Steps.assignThen ⟨rfl, nofun⟩ ?_))
  exact h.commits

theorem recordFailover_calm (order : Order) (h : Working N order.id) (c : RouteCandidate)
    (reason : String) (rest : List RouteCandidate) :
    Calm N (recordFailover order c reason rest) := by
  cases rest with
  | nil => exact Steps.pure _
  | cons next _ =>
      exact h.stretch (Steps.bind (Steps.stage trivial) fun _ => h.commits)

theorem rateLimited_calm (order : Order) (h : Working N order.id) (c : RouteCandidate)
    (rest : List RouteCandidate) : Calm N (rateLimited order c rest) := by
  refine Steps.bind (exceedPolicy_calm.mono h.routing) fun policy => Steps.ite ?_ ?_
  · exact Steps.bind (failOrder_calm order h _) fun _ => Steps.raise _
  · exact Steps.bind (recordFailover_calm order h _ _ _) fun _ => Steps.pure _

theorem failoverExhausted_calm (order : Order) (h : Working N order.id) (last : Option LastError) :
    Calm N (failoverExhausted order last) :=
  Steps.bind (failOrder_calm order h _) fun _ => Steps.raise _

theorem submitHandler_calm (order : Order) (h : Working N order.id) (attempt : OrderAttempt)
    (ha : attempt.orderId = order.id) (e : Exn) : Calm N (submitHandler order attempt e) := by
  cases e with
  | broker code message status retryable =>
      refine Steps.bind (failAttempt_calm h attempt message ha) fun _ => Steps.ite ?_ ?_
      · exact Steps.pure _
      · exact Steps.bind (failOrder_calm order h code) fun _ => Steps.raise _
  | cancelled => exact Steps.raise _
  | _ => exact Steps.bind (failAttempt_calm h attempt _ ha) fun _ => Steps.pure _

end Work

/-! ## What submitting one asks -/

/-- What submitting an order asks. -/
def Req.submits (o : OrderId) (r : Req) : Prop := r.busy o ∨ ∃ payload, r = .placeOrder o payload

/-- `N` admits what submitting an order asks. -/
structure Submitting (N : Req → Prop) (o : OrderId) : Prop extends Working N o where
  place : ∀ payload, N (.placeOrder o payload)
  ensuring : ∀ b r, Req.ensuring b r → N r
  mark : ∀ by_ order chain, N (.mark (.submitInline by_ order chain))

theorem submits_submitting (o : OrderId) : Submitting (Req.submits o) o where
  newId := .inl trivial
  query _ _ := .inl trivial
  commit h := .inl h
  routing r h := .inl (routing_busy o r h)
  place payload := .inr ⟨payload, rfl⟩
  ensuring _ r h := .inl (ensuring_busy o r h)
  mark _ _ _ := .inl trivial

section Submit

variable {N : Req → Prop} {o : OrderId}

theorem trySubmit_calm (order : Order) (h : Working N order.id)
    (hplace : ∀ payload, N (.placeOrder order.id payload)) (attempt : OrderAttempt)
    (c : RouteCandidate) (ha : attempt.orderId = order.id) :
    Calm N (trySubmit order attempt c) := by
  refine Steps.catching ?_ fun e => submitHandler_calm order h attempt ha e
  refine Steps.bind (Steps.await (hplace _)) fun x => Steps.bind (Steps.ofAnswer x) fun bo => ?_
  exact Steps.bind (recordSubmitted_calm order h attempt c bo ha) fun _ => Steps.pure _

theorem submitChain_calm (h : Submitting N o) (held : List BrokerAccount)
    (chain : List RouteCandidate) :
    ∀ (order : Order) (n : Nat) (last : Option LastError), order.id = o →
      Calm N (submitChain held order n last chain) := by
  induction chain with
  | nil =>
      rintro order n last rfl
      exact failoverExhausted_calm order h.toWorking last
  | cons c rest ih =>
      rintro order n last rfl
      rw [submitChain]
      refine Steps.bind ((rateConsume_calm _ _).mono h.routing) fun rl => Steps.ite ?_ ?_
      · exact Steps.bind (rateLimited_calm order h.toWorking c rest) fun why => ih order _ _ rfl
      refine Steps.bind ((ensure_calm held c.broker.id false).mono (h.ensuring _)) fun _ => ?_
      refine Steps.bindOf (openAttempt_calm order h.toWorking c n)
        (openAttempt_returns order c n) fun x hx => ?_
      obtain ⟨order', attempt⟩ := x
      have ho' : order'.id = order.id := hx.1
      have ha : attempt.orderId = order.id := hx.2
      rw [← ho'] at h
      refine Steps.bind (trySubmit_calm order' h.toWorking h.place attempt c (ha.trans ho'.symm))
        fun why => ?_
      cases why with
      | none => exact Steps.pure _
      | some why =>
          exact Steps.bind (recordFailover_calm order' h.toWorking c why.code rest) fun _ =>
            ih order' _ _ ho'

theorem submitInline_calm (by_ : Actor) (order : Order) (h : Submitting N order.id)
    (chain : List RouteCandidate) : Calm N (submitInline by_ order chain) :=
  Steps.bind (Steps.mark (h.mark _ _ _)) fun _ => Steps.bind h.read fun _ =>
    submitChain_calm h _ _ _ _ _ rfl

end Submit

end BrokerBridge
