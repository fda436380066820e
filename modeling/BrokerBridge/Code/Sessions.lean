import BrokerBridge.Code.Routing

/-!
# Broker sessions

`SessionService.ensure`, under the per-broker session lock.
-/

namespace BrokerBridge

open Conc

/-- The session the broker's tokens are stored in. -/
def storeTokens (brokerId : BrokerId) (existing : Option BrokerSession) (tokens : Tokens)
    (now : Instant) : Coro Unit :=
  let expiresAt := some (tokens.expiresAt.getD now)
  match existing with
  | none =>
      stage (.addSession
        { brokerAccountId := brokerId
          status := tokens.status
          expiresAt := expiresAt
          hasRefreshToken := true })
  | some s => do
      let s ← assign s (.hasRefreshToken true)
      let s ← assign s (.expiresAt expiresAt)
      let _ ← assign s (.status tokens.status)

/-- The tokens, refreshed when there is a refresh token and no force. -/
def fetchTokens (brokerId : BrokerId) (existing : Option BrokerSession)
    (forceRefresh : Bool) : Coro Tokens := do
  if existing.any (·.hasRefreshToken) ∧ !forceRefresh then
    let x : Except Exn Tokens ← await (.refreshSession brokerId)
    ofAnswer x
  else
    let x : Except Exn Tokens ← await (.authenticate brokerId)
    ofAnswer x

def BrokerSession.usable (now : Instant) (s : BrokerSession) : Bool :=
  s.status = .valid && s.expiresAt.any (now < ·)

/-- The body of `ensure` under the lock. -/
def ensureLocked (brokerId : BrokerId) (forceRefresh : Bool) : Coro BrokerSession := do
  let existing ← execute (.brokerSession brokerId)
  let now ← now
  match existing.filter fun s => !forceRefresh && s.usable now with
  | some s => pure s
  | none =>
      getProvider
      let tokens ← fetchTokens brokerId existing forceRefresh
      storeTokens brokerId existing tokens now
      commit
      let s ← refreshed (← execute (.brokerSession brokerId))
      let x : Except Exn Unit ← await (.cacheSession brokerId)
      ofRedisAnswer "session cache" x
      pure s

/-- `ensure`. The brokers `held` are objects of the session already: selecting
one again returns the object, with the values it was loaded with. -/
def ensure (held : List BrokerAccount) (brokerId : BrokerId) (forceRefresh : Bool) :
    Coro BrokerSession := do
  match ← execute (.broker brokerId) with
  | none => Task.raise (.app "NOT_FOUND" s!"Broker {brokerId} not found" 404)
  | some row =>
      let broker := (held.find? (·.id == brokerId)).getD row
      if !broker.enabled then
        Task.raise (.app "BROKER_DISABLED" "Broker is disabled" 409)
      else
        let token ← newId
        let acquired ← acquireLock (.session brokerId) 30 token "session lock"
        if !acquired then
          Task.raise (.app "LOCK_CONTENTION" "Session refresh already in progress" 409)
        else
          Task.finally' (ensureLocked brokerId forceRefresh)
            (releaseLock (.session brokerId) token)

/-! ## What ensuring a session asks -/

/-- A write of a broker session. -/
def Write.ofSession : Write → Prop
  | .addSession _ | .setSession _ _ => True
  | _ => False

def Query.ensuring : Query → Prop
  | broker _ | brokerSession _ | providerRow => True
  | _ => False

def Req.ensuring (b : BrokerId) : Req → Prop
  | .query ws q => ws = [] ∧ q.ensuring
  | .commit ws => ∀ w ∈ ws, w.ofSession
  | .newId | .now => True
  | .acquire k _ _ | .release k _ => k = .session b
  | .authenticate b' | .refreshSession b' | .cacheSession b' => b' = b
  | _ => False

theorem ensuring_read {b : BrokerId} {q : Query} (h : q.ensuring) :
    Calm (Req.ensuring b) (execute q) :=
  calm_read ⟨rfl, h⟩

theorem fetchTokens_calm (b : BrokerId) (existing : Option BrokerSession) (force : Bool) :
    Calm (Req.ensuring b) (fetchTokens b existing force) :=
  Steps.ite (Steps.bind (Steps.await rfl) fun _ => Steps.ofAnswer _)
    (Steps.bind (Steps.await rfl) fun _ => Steps.ofAnswer _)

theorem storeTokens_steps {b b' : BrokerId} (existing : Option BrokerSession) (t : Tokens)
    (now : Instant) :
    Steps (Req.ensuring b') (fun _ => False) Write.ofSession (storeTokens b existing t now) := by
  refine Steps.weaken (U := Write.ofSession) (V := Write.ofSession) ?_
    (fun _ h => h.elim) fun _ => id
  unfold storeTokens
  split
  · exact Steps.stage trivial
  · exact Steps.bind (Steps.assign trivial) fun _ => Steps.bind (Steps.assign trivial) fun _ =>
      Steps.bind (Steps.assign trivial) fun _ => Steps.pure _

theorem ensureLocked_calm (b : BrokerId) (force : Bool) :
    Calm (Req.ensuring b) (ensureLocked b force) := by
  refine Steps.bind (ensuring_read trivial) fun existing =>
    Steps.bind (Steps.now trivial) fun now => ?_
  split
  · exact Steps.pure _
  refine Steps.bind (ensuring_read trivial) fun _ =>
    Steps.bind (fetchTokens_calm _ _ _) fun tokens => ?_
  refine Steps.bind (storeTokens_steps existing tokens now) fun _ => ?_
  refine Steps.bind (Steps.commit fun _ h => h) fun _ =>
    Steps.bind (ensuring_read trivial) fun row => ?_
  refine Steps.bind (Steps.refreshed row) fun s => Steps.bind (Steps.await rfl) fun x => ?_
  exact Steps.bind (Steps.ofRedisAnswer _ _) fun _ => Steps.pure _

theorem ensure_calm (held : List BrokerAccount) (b : BrokerId) (force : Bool) :
    Calm (Req.ensuring b) (ensure held b force) := by
  refine Steps.bind (ensuring_read trivial) fun row => ?_
  split
  · exact Steps.raise _
  refine Steps.ite (Steps.raise _) ?_
  refine Steps.bind (Steps.newId trivial) fun token =>
    Steps.bind (Steps.acquireLock rfl) fun got => ?_
  refine Steps.ite (Steps.raise _) ?_
  exact Calm.finally' (ensureLocked_calm b force) (Steps.releaseLock rfl)

theorem storeTokens_alive (b : BrokerId) (existing : Option BrokerSession) (t : Tokens)
    (now : Instant) : Alive (storeTokens b existing t now) := by
  unfold storeTokens
  split
  · exact Alive.stage _
  · exact Alive.assign.bind fun _ => Alive.assign.bind fun _ => Alive.assign.bind fun _ =>
      Alive.pure _

theorem ensureLocked_alive (b : BrokerId) (force : Bool) : Alive (ensureLocked b force) := by
  refine Alive.execute.bind fun existing => Alive.await.bind fun now => ?_
  split
  · exact Alive.pure _
  refine Alive.execute.bind fun _ => Alive.bind ?_ fun tokens => ?_
  · exact Alive.ite (Alive.await.bind fun x => Alive.ofAnswer x)
      (Alive.await.bind fun x => Alive.ofAnswer x)
  refine (storeTokens_alive b existing tokens now).bind fun _ => Alive.commit.bind fun _ => ?_
  refine Alive.execute.bind fun row => (Alive.refreshed row).bind fun s => ?_
  exact Alive.await.bind fun x => (Alive.ofRedisAnswer _ x).bind fun _ => Alive.pure _

theorem ensure_alive (held : List BrokerAccount) (b : BrokerId) (force : Bool) :
    Alive (ensure held b force) := by
  refine Alive.execute.bind fun row => ?_
  split
  · exact Alive.raise _
  refine Alive.ite (Alive.raise _) (Alive.await.bind fun token => Alive.bind ?_ fun got => ?_)
  · exact Alive.await.bind fun x => Alive.ofRedisAnswer _ x
  refine Alive.ite (Alive.raise _) (Alive.finally' (ensureLocked_alive b force) ?_)
  refine Alive.await.bind fun x => ?_
  split
  · exact Alive.pure _
  · exact Alive.ofAnswer _

end BrokerBridge
