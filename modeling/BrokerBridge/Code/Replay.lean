import BrokerBridge.Code.Orders

/-!
# Replay

`ReplayService`: the scanner that recovers stuck orders, one session for the
whole run.
-/

namespace BrokerBridge

open Conc

/-- `TERMINAL` -/
def OrderStatus.terminal : OrderStatus → Bool
  | .submitted | .failed | .cancelled => true
  | _ => false

theorem OrderStatus.terminal_of_stuck {status : OrderStatus} (h : status.stuck = true) :
    status.terminal = false := by
  cases status <;> first | rfl | cases h

/-- An attempt the broker is known to have accepted, with its order id. -/
def OrderAttempt.adoptable (a : OrderAttempt) : Option (OrderAttempt × BrokerOrderId) :=
  if a.status = .submitted then a.brokerOrderId.map fun b => (a, b) else none

/-- What became of one stuck order. -/
structure Outcome where
  orderId : OrderId
  result : String
  reason : String
  /-- It is a `failed` that `run` made of an exception. -/
  raised : Bool := false

def adoptAttempt (order : Order) (attempt : OrderAttempt) (brokerOrder : BrokerOrderId) :
    Coro Outcome := do
  let order ← assign order (.status .submitted)
  let order ← assign order (.brokerOrderId (some brokerOrder))
  let order ← assign order (.brokerAccountId (some attempt.brokerAccountId))
  let order ← assign order (.staticIpId attempt.staticIpId)
  let order ← assign order (.errorCode none)
  commit
  pure ⟨order.id, "recovered", "adopt_existing_broker_order", false⟩

/-- INDOUBT is moved back to CREATED before the order is routed. -/
def reopen (order : Order) : Coro Order :=
  if order.status = .indoubt then do
    let order ← assign order (.status .created)
    commit
    pure order
  else pure order

/-- The `except Exception` of a resubmission: it counts as a failure. -/
def resubmitFailed (order : Order) (e : Exn) : Coro Outcome :=
  if e.isException then do
    let ⟨order, _⟩ ← refreshed (← execute (.order order.id))
    pure ⟨order.id, "failed", (e.str.take 300).toString, false⟩
  else Task.raise e

/-- `_submit_inline` for a stuck order, with its exceptions counted. -/
def resubmit (order : Order) (chain : List RouteCandidate) : Coro Outcome :=
  Task.catching
    (do
      submitInline .replay order chain
      let ⟨order, _⟩ ← refreshed (← execute (.order order.id))
      if order.status = .submitted then pure ⟨order.id, "recovered", "resubmit", false⟩
      else pure ⟨order.id, "failed", "resubmit_non_terminal", false⟩)
    (resubmitFailed order)

/-- `_recover_one`, once the order is known not to be terminal. -/
def recoverOpen (order : Order) : Coro Outcome := do
  let attempts ← execute (.attemptsOf order.id)
  match attempts.findSome? (·.adoptable) with
  | some (attempt, brokerOrder) => adoptAttempt order attempt brokerOrder
  | none =>
      let order ← reopen order
      let decision ← selectOrRaise order.route
      resubmit order decision.chain

/-- `_recover_one` -/
def recoverOne (stale : Order) : Coro Outcome := do
  mark (.recover stale.id)
  let ⟨order, _⟩ ← refreshed (← execute (.order stale.id))
  if order.status.terminal then pure ⟨order.id, "skipped", "already_terminal", false⟩
  else recoverOpen order

/-- One pass of the loop of `run`: an exception counts as a failure. -/
def recoverStep (order : Order) : Coro Outcome :=
  Task.catching (recoverOne order) fun e =>
    if e.isException then pure ⟨order.id, "failed", (e.str.take 500).toString, true⟩
    else Task.raise e

def recoverEach : List Order → Coro (List Outcome)
  | [] => pure []
  | o :: os => do
      let x ← recoverStep o
      let xs ← recoverEach os
      pure (x :: xs)

def listStuck (limit : Nat) : Coro (List Order) := execute (.stuckOrders limit)

/-- The counts that `run` returns, with the details. -/
structure ReplaySummary where
  scanned : Nat
  retried : Nat
  recovered : Nat
  skipped : Nat
  failed : Nat
  details : List Outcome

def summarize (scanned : Nat) (details : List Outcome) : ReplaySummary where
  scanned := scanned
  retried := details.countP fun x =>
    x.result == "recovered" || x.result == "failed" && !x.raised
  recovered := details.countP (·.result == "recovered")
  skipped := details.countP fun x => x.result != "recovered" && x.result != "failed"
  failed := details.countP (·.result == "failed")
  details := details

/-- `run` -/
def replayRun (limit : Nat) : Coro ReplaySummary := do
  let stuck ← listStuck limit
  let details ← recoverEach stuck
  pure (summarize stuck.length details)

/-! ## What recovering one asks -/

section Recover

variable {N : Req → Prop}

theorem adoptAttempt_calm (order : Order) (h : Working N order.id) (a : OrderAttempt)
    (bo : BrokerOrderId) : Calm N (adoptAttempt order a bo) := by
  refine h.stretch (Steps.assignThen ⟨rfl, nofun⟩ ?_)
  refine Steps.assignThen ⟨rfl, nofun⟩ (Steps.assignThen ⟨rfl, nofun⟩ ?_)
  refine Steps.assignThen ⟨rfl, nofun⟩ (Steps.assignThen ⟨rfl, nofun⟩ ?_)
  exact Steps.bind h.commits fun _ => Steps.pure _

theorem reopen_calm (order : Order) (h : Working N order.id) : Calm N (reopen order) := by
  refine Steps.ite (h.stretch ?_) (Steps.pure _)
  exact Steps.assignThen ⟨rfl, nofun⟩ (Steps.bind h.commits fun _ => Steps.pure _)

theorem reopen_returns (order : Order) :
    Returns (fun x => x.id = order.id) (reopen order) := by
  unfold reopen
  split
  · exact Returns.bind (Returns.assign (R := fun x => x.id = order.id) rfl) fun _ h =>
      Returns.after fun _ => Returns.pure h
  · exact Returns.pure rfl

theorem resubmitFailed_calm (order : Order) (hread : ∀ ws q, N (.query ws q)) (e : Exn) :
    Calm N (resubmitFailed order e) :=
  Steps.ite (Steps.bind (Steps.execute fun ws _ => hread ws _) fun _ =>
    Steps.bind (Steps.refreshed _) fun _ => Steps.pure _) (Steps.raise _)

theorem resubmit_calm (order : Order) (h : Submitting N order.id) (chain : List RouteCandidate) :
    Calm N (resubmit order chain) := by
  refine Steps.catching (Steps.bind (submitInline_calm .replay order h chain) fun _ => ?_)
    fun e => resubmitFailed_calm order h.query e
  exact Steps.bind h.read fun _ => Steps.bind (Steps.refreshed _) fun _ =>
    Steps.ite (Steps.pure _) (Steps.pure _)

/-- What recovering an open order does when no attempt of it can be adopted. -/
theorem resubmission_calm (order : Order) (h : Submitting N order.id) : Calm N (do
    let order ← reopen order
    let decision ← selectOrRaise order.route
    resubmit order decision.chain) := by
  refine Steps.bindOf (reopen_calm order h.toWorking) (reopen_returns order) fun order' ho => ?_
  rw [← ho] at h
  exact Steps.bind ((selectOrRaise_calm _).mono h.routing) fun decision =>
    resubmit_calm order' h decision.chain

theorem recoverOpen_calm (order : Order) (h : Submitting N order.id) :
    Calm N (recoverOpen order) := by
  refine Steps.bind h.read fun attempts => ?_
  cases attempts.findSome? (·.adoptable) with
  | some x => exact adoptAttempt_calm order h.toWorking x.1 x.2
  | none => exact resubmission_calm order h

end Recover

end BrokerBridge
