import BrokerBridge.Code.Routing

/-!
# Subscriptions

`SubscriptionService`: the trading gate, the creation of a subscription, and
the expiry teardown.
-/

namespace BrokerBridge

open Conc

/-- The predicate of `_covering_active` for one row. -/
def Subscription.covering (now : Instant) (r : Subscription) : Bool :=
  r.status = .active && r.startsAt ≤ now && now ≤ r.endsAt && r.teardownCompletedAt.isNone

def coveringActive (now : Instant) (rows : List Subscription) : List Subscription :=
  rows.filter (·.covering now)

def clientTradingAllowed (clientId : ClientId) : Coro Bool := do
  match ← execute (.client clientId) with
  | none => pure false
  | some client =>
      let (rows, now) ← execute (.subscriptionsOf clientId)
      if rows.isEmpty then pure (client.status ≠ .suspended)
      else pure !(coveringActive now rows).isEmpty

def tradingBlockedHint (client : Option Client) (now : Instant)
    (rows : List Subscription) : String :=
  if client.any (·.status = .suspended) ∧ (coveringActive now rows).isEmpty then
    "Client is suspended after expiry — create a new ACTIVE subscription " ++
      "window on Clients to restore trading (BR-G07)."
  else if rows.any fun r => r.status = .active && r.teardownCompletedAt.isNone then
    "Subscription status is active but outside starts_at/ends_at — " ++
      "run Enforce expiry or create a new window (BR-G07)."
  else "Create or extend a subscription on Clients, then retry."

def assertTradingAllowed (clientId : ClientId) : Coro Unit := do
  if ← clientTradingAllowed clientId then
    match ← execute (.client clientId) with
    | some client =>
        if client.status = .suspended then
          let _ ← assign client (.status .active)
          commit
    | none => pure ()
  else
    let client ← execute (.client clientId)
    let (rows, now) ← execute (.subscriptionsOf clientId)
    Task.raise (.app "SUBSCRIPTION_EXPIRED"
      ("Client subscription expired — trading blocked (BR-G07). " ++
        tradingBlockedHint client now rows) 403)

def TeardownMode.ofString? (s : String) : Option TeardownMode :=
  if s = "SUSPEND" then some .suspend
  else if s = "DESTROY" then some .destroy
  else none

def TeardownMode.toString : TeardownMode → String
  | .suspend => "SUSPEND"
  | .destroy => "DESTROY"

/-- `_default_teardown_mode` -/
def defaultTeardownMode : Coro String := do
  let config ← execute .config
  match config.teardownMode with
  | some mode =>
      match TeardownMode.ofString? (Text.upper mode) with
      | some m => pure m.toString
      | none => pure "SUSPEND"
  | none => pure "SUSPEND"

/-- `teardown_mode or await self._default_teardown_mode()` -/
def givenTeardownMode : Option String → Coro String
  | some m => if m = "" then defaultTeardownMode else pure m
  | none => defaultTeardownMode

/-- BR-G07 expiry suspends the client; a new valid window restores trading. -/
def restoreTrading (client : Client) (startsAt endsAt now : Instant) : Coro Unit :=
  if startsAt ≤ now ∧ now ≤ endsAt ∧ client.status = .suspended then do
    let _ ← assign client (.status .active)
  else pure ()

/-- `create` -/
def createSubscription (clientId : ClientId) (startsAt endsAt : Instant)
    (teardownMode : Option String) : Coro Subscription := do
  match ← execute (.client clientId) with
  | none => Task.raise (.app "NOT_FOUND" "Client not found" 404)
  | some client =>
      if endsAt ≤ startsAt then
        Task.raise (.app "INVALID_ARGUMENT" "ends_at must be after starts_at" 422)
      else
        let given ← givenTeardownMode teardownMode
        match TeardownMode.ofString? (Text.upper given) with
        | none =>
            Task.raise (.app "INVALID_ARGUMENT" "teardown_mode must be SUSPEND or DESTROY" 422)
        | some mode =>
            let id ← newId
            let row : Subscription :=
              { id, clientId, status := .active, startsAt, endsAt, teardownMode := mode }
            stage (.addSubscription row)
            restoreTrading client startsAt endsAt (← now)
            commit
            refreshed (← execute (.subscription id))

/-- What the teardown mode asks for. -/
def stopInstance (inst : Instance) : TeardownMode → Coro Unit
  | .destroy => do
      infra (.destroyInstance inst.externalId)
      let _ ← assign inst (.status .destroyed)
  | .suspend => do
      infra (.suspendInstance inst.externalId)
      let _ ← assign inst (.status .suspended)

/-- One instance torn down: how many were, none if a provider call raised. What
was set before the call that raised stays set. -/
def tearDownInstance (mode : TeardownMode) (inst : Instance) : Coro Nat :=
  Task.catching
    (do
      infra (.setAutoRenew inst.externalId false)
      let inst ← assign inst (.autoRenew false)
      stopInstance inst mode
      pure 1)
    fun e => if e.isException then pure 0 else Task.raise e

def tearDownInstances (mode : TeardownMode) : List Instance → Coro Nat
  | [] => pure 0
  | inst :: rest => do
      let n ← tearDownInstance mode inst
      let m ← tearDownInstances mode rest
      pure (n + m)

/-- The client of an expired subscription, unless the row is gone. -/
def suspendClient (clientId : ClientId) : Coro Unit := do
  match ← execute (.client clientId) with
  | some client =>
      let _ ← assign client (.status .suspended)
  | none => pure ()

/-- The body of the loop over the due subscriptions. -/
def expireOne (now : Instant) (sub : Subscription) : Coro Nat := do
  let sub ← assign sub (.status .expired)
  suspendClient sub.clientId
  let insts ← execute (.liveInstances sub.clientId)
  let tornDown ← tearDownInstances sub.teardownMode insts
  let sub ← assign sub (.teardownCompletedAt (some now))
  enqueueOutbox (.subscriptionExpired sub.id sub.clientId sub.teardownMode sub.endsAt)
  pure tornDown

def expireEach (now : Instant) : List Subscription → Coro Nat
  | [] => pure 0
  | sub :: rest => do
      let n ← expireOne now sub
      let m ← expireEach now rest
      pure (n + m)

def commitIf (c : Bool) : Coro Unit := if c then commit else pure ()

/-- `enforce_expiry`: how many subscriptions expired, and how many instances
were torn down. -/
def enforceExpiry (at? : Option Instant) : Coro (Nat × Nat) := do
  let now ← at?.elim now pure
  let due ← execute (.dueSubscriptions now)
  getProvider
  let tornDown ← expireEach now due
  commitIf !due.isEmpty
  pure (due.length, tornDown)

/-- `expire_now` -/
def expireNow (id : SubscriptionId) : Coro Subscription := do
  match ← execute (.subscription id) with
  | none => Task.raise (.app "NOT_FOUND" "Subscription not found" 404)
  | some sub =>
      let sub ← assign sub (.endsAt (← now))
      if sub.status = .active then
        commit
        let _ ← enforceExpiry none
        refreshed (← execute (.subscription id))
      else pure sub

/-! ## What the gate asks -/

/-- The stale suspension of a client cleared. -/
def Write.activates : Write → Prop
  | .setClient _ f => f = .status .active
  | _ => False

def Query.gating (c : ClientId) : Query → Prop
  | client c' | subscriptionsOf c' => c' = c
  | _ => False

def Req.gating (c : ClientId) : Req → Prop
  | .query ws q => ws = [] ∧ q.gating c
  | .commit ws => ∀ w ∈ ws, w.activates
  | _ => False

theorem gating_read {c : ClientId} {q : Query} (h : q.gating c) :
    Calm (Req.gating c) (execute q) :=
  calm_read ⟨rfl, h⟩

theorem clientTradingAllowed_calm (c : ClientId) :
    Calm (Req.gating c) (clientTradingAllowed c) := by
  refine Steps.bind (gating_read rfl) fun client => ?_
  split
  · exact Steps.pure _
  · exact Steps.bind (gating_read rfl) fun _ => Steps.ite (Steps.pure _) (Steps.pure _)

theorem clearSuspension_calm {c : ClientId} (client : Client) :
    Calm (Req.gating c) (do
      let _ ← assign client (.status .active)
      commit) := by
  refine Steps.weaken (U := Write.activates) (V := fun _ => False) ?_
    (fun _ h => h.elim) fun _ => id
  exact Steps.bind (Steps.assign rfl) fun _ => Steps.commit fun _ h => h

theorem assertTradingAllowed_calm (c : ClientId) :
    Calm (Req.gating c) (assertTradingAllowed c) := by
  refine Steps.bind (clientTradingAllowed_calm c) fun allowed => Steps.ite ?_ ?_
  · refine Steps.bind (gating_read rfl) fun client => ?_
    split
    · exact Steps.ite (clearSuspension_calm _) (Steps.pure _)
    · exact Steps.pure _
  · exact Steps.bind (gating_read rfl) fun _ => Steps.bind (gating_read rfl) fun _ => Steps.raise _

end BrokerBridge
