import BrokerBridge.Code.Steps
import BrokerBridge.Binary64.Double

/-!
# Rate limits and routing

`RateLimitService` and `RoutingEngine`. The health rows that routing reads are
an answer of the environment: `latest_for_brokers` probes brokers that have
none, and what a probe measures is not modelled.

A health score, a threshold and a pressure are doubles, and `route_score` is their sum as
doubles add up: `double` rounds after each operation.
-/

namespace BrokerBridge

open Conc Binary64

/-- `s or default`, for a string that may be missing or empty. -/
def orDefault (s : Option String) (default : String) : String :=
  match s with
  | some s => if s = "" then default else s
  | none => default

def exceedPolicy : Coro String := do
  let config ← execute .config
  pure (Text.upper (config.exceedPolicy.getD "REROUTE"))

/-- `float(broker.rate_limit_rps or 50)` -/
def BrokerAccount.limit (b : BrokerAccount) : Rat :=
  match b.rateLimitRps with
  | some r => if r = 0 then 50 else r
  | none => 50

/-- `RateLimitService.check` -/
def rateCheck (b : BrokerId) (limit : Rat) : Coro RateSnapshot := do
  let x : Except Exn RateSnapshot ← await (.rateCheck b limit)
  ofRedisAnswer "rate limits" x

/-- `RateLimitService.consume` -/
def rateConsume (b : BrokerId) (limit : Rat) : Coro RateSnapshot := do
  let x : Except Exn RateSnapshot ← await (.rateConsume b limit)
  ofRedisAnswer "rate limits" x

/-- A broker that is not routed to. -/
structure Excluded where
  brokerAccountId : BrokerId
  brokerDisplayName : String
  reason : String
  ipRegion : Option Region := none
  score : Option Rat := none

structure RouteDecision where
  primary : Option RouteCandidate
  chain : List RouteCandidate
  excluded : List Excluded
  requireAssignedIp : Bool

/-- The arguments of `select`. -/
structure RouteQuery where
  clientId : ClientId
  preferredBrokerId : Option BrokerId := none
  regionPreference : Option Region := none
  consumeRateLimit : Bool := false

/-- What `select` reads once, before it looks at the brokers. -/
structure RouteContext where
  degradedMin : Rat
  requireIp : Bool
  exceedPolicy : String
  health : List Health

/-- `if region_preference` -/
def RouteQuery.region? (q : RouteQuery) : Option Region :=
  q.regionPreference.filter (· ≠ "")

def Excluded.of (broker : BrokerAccount) (reason : String) : Excluded :=
  { brokerAccountId := broker.id, brokerDisplayName := broker.displayName, reason }

/-- The checks on the broker's assigned IP and region. -/
def excludedByIp (q : RouteQuery) (c : RouteContext) (broker : BrokerAccount)
    (assignment : Option (IpAssignment × StaticIp)) : Option Excluded :=
  if c.requireIp ∧ assignment.isNone then some (.of broker "NO_ASSIGNED_IP")
  else
    match q.region? with
    | none => none
    | some region =>
        if broker.allowedRegions ≠ [] ∧ region ∉ broker.allowedRegions then
          some (.of broker "REGION_MISMATCH")
        else
          match assignment with
          | some (_, ip) =>
              if ip.region ≠ region then
                some { Excluded.of broker "REGION_IP_MISMATCH" with ipRegion := some ip.region }
              else none
          | none => none

/-- The broker's health row; a later row of the same broker replaces an earlier. -/
def healthOf (c : RouteContext) (b : BrokerId) : Rat × String :=
  match c.health.reverse.find? (·.brokerAccountId == b) with
  | some h => (h.score, h.status)
  | none => (0, "unhealthy")

def excludedByHealth (c : RouteContext) (broker : BrokerAccount) : Option Excluded :=
  let (score, status) := healthOf c broker.id
  if status = "unhealthy" ∨ score < c.degradedMin then
    some { Excluded.of broker "UNHEALTHY" with score := some score }
  else none

/-- The candidate a broker makes, given the rate limiter's answer. -/
def candidateOf (q : RouteQuery) (c : RouteContext) (broker : BrokerAccount)
    (assignment : Option (IpAssignment × StaticIp)) (rl : RateSnapshot) : RouteCandidate :=
  let (score, status) := healthOf c broker.id
  let ratePressure := if rl.allowed then rl.pressure else max rl.pressure 20
  let sticky : Bool := q.preferredBrokerId = some broker.id
  { broker
    staticIpId := assignment.map (·.1.staticIpId)
    healthScore := score
    healthStatus := status
    ratePressure
    routeScore := double (double (double (double (score + double (double broker.priority * 2)) -
      ratePressure) + (if sticky then 15 else 0)) + (if q.region?.isSome then 10 else 0))
    reasons := (if q.region?.isSome then ["region_match"] else []) ++
      (if rl.allowed then [] else ["rate_limited"]) ++
      (if sticky then ["preferred_sticky"] else []) }

def rateSnapshot (q : RouteQuery) (broker : BrokerAccount) : Coro RateSnapshot :=
  if q.consumeRateLimit then rateConsume broker.id broker.limit
  else rateCheck broker.id broker.limit

/-- The body of the loop over the brokers: a candidate or an exclusion. -/
def considerBroker (q : RouteQuery) (c : RouteContext) (broker : BrokerAccount) :
    Coro (Except Excluded RouteCandidate) := do
  let assignment ← execute (.activeAssignment broker.id)
  match excludedByIp q c broker assignment with
  | some x => pure (.error x)
  | none =>
      match excludedByHealth c broker with
      | some x => pure (.error x)
      | none =>
          let rl ← rateSnapshot q broker
          if !rl.allowed ∧ c.exceedPolicy = "REJECT" then
            pure (.error (.of broker "RATE_LIMITED"))
          else pure (.ok (candidateOf q c broker assignment rl))

def considerBrokers (q : RouteQuery) (c : RouteContext) :
    List BrokerAccount → Coro (List RouteCandidate × List Excluded)
  | [] => pure ([], [])
  | b :: bs => do
      let x ← considerBroker q c b
      let (cs, xs) ← considerBrokers q c bs
      match x with
      | .ok cand => pure (cand :: cs, xs)
      | .error ex => pure (cs, ex :: xs)

/-- `candidates.sort(key=route_score, reverse=True)`, which is stable. -/
def sortCandidates (cs : List RouteCandidate) : List RouteCandidate :=
  cs.insertionSort fun a b => b.routeScore ≤ a.routeScore

/-- The preferred broker when it is eligible, else the best. -/
def primaryOf (q : RouteQuery) (cs : List RouteCandidate) : Option RouteCandidate :=
  (q.preferredBrokerId.bind fun b => cs.find? (·.broker.id == b)).or cs.head?

def chainOf (primary : Option RouteCandidate) (cs : List RouteCandidate) :
    List RouteCandidate :=
  match primary with
  | some p => p :: cs.filter (·.broker.id ≠ p.broker.id)
  | none => []

/-- `float(thresholds.get("degraded_min", 50))` -/
def degradedMinOf (config : Config) : Coro Rat :=
  match config.degradedMin with
  | some (.value q) => pure q
  | some .bad => Task.raise (.other "could not convert string to float")
  | none => pure 50

def select (q : RouteQuery) : Coro RouteDecision := do
  let degradedMin ← degradedMinOf (← execute .config)
  let config ← execute .config
  let requireIp := config.requireAssignedIp.getD true
  let policy ← exceedPolicy
  let brokers ← execute (.enabledBrokers q.clientId)
  let health ← execute .latestHealth
  let (cs, excluded) ←
    considerBrokers q ⟨degradedMin, requireIp, policy, health⟩ brokers
  let sorted := sortCandidates cs
  let primary := primaryOf q sorted
  pure { primary, chain := chainOf primary sorted, excluded, requireAssignedIp := requireIp }

def noRoute : Exn :=
  .app "NO_ROUTE" "No eligible broker route (check assigned IP, health, and rate limits)" 409

def selectOrRaise (q : RouteQuery) : Coro RouteDecision := do
  let decision ← select q
  if decision.primary.isNone then Task.raise noRoute
  else pure decision

/-! ## What routing asks -/

def Query.routing : Query → Prop
  | config | enabledBrokers _ | latestHealth | activeAssignment _ => True
  | _ => False

/-- Reads, and the rate limiter. -/
def Req.routing : Req → Prop
  | .query ws q => ws = [] ∧ q.routing
  | .rateCheck _ _ | .rateConsume _ _ => True
  | _ => False

theorem calm_read {N : Req → Prop} {q : Query} (h : N (.query [] q)) :
    Calm N (execute q) :=
  Steps.execute fun ws hws => by
    rw [List.eq_nil_iff_forall_not_mem.mpr hws]
    exact h

theorem routing_read {q : Query} (h : q.routing) : Calm Req.routing (execute q) :=
  calm_read ⟨rfl, h⟩

theorem exceedPolicy_calm : Calm Req.routing exceedPolicy :=
  Steps.bind (routing_read trivial) fun _ => Steps.pure _

theorem rateCheck_calm (b : BrokerId) (limit : Rat) :
    Calm Req.routing (rateCheck b limit) :=
  Steps.bind (Steps.await trivial) fun _ => Steps.ofRedisAnswer _ _

theorem rateConsume_calm (b : BrokerId) (limit : Rat) :
    Calm Req.routing (rateConsume b limit) :=
  Steps.bind (Steps.await trivial) fun _ => Steps.ofRedisAnswer _ _

theorem considerBroker_calm (q : RouteQuery) (c : RouteContext) (b : BrokerAccount) :
    Calm Req.routing (considerBroker q c b) := by
  refine Steps.bind (routing_read trivial) fun assignment => ?_
  split
  · exact Steps.pure _
  split
  · exact Steps.pure _
  refine Steps.bind (V := fun _ => False) ?_ fun rl => Steps.ite (Steps.pure _) (Steps.pure _)
  exact Steps.ite (rateConsume_calm _ _) (rateCheck_calm _ _)

theorem considerBrokers_calm (q : RouteQuery) (c : RouteContext)
    (bs : List BrokerAccount) : Calm Req.routing (considerBrokers q c bs) := by
  induction bs with
  | nil => exact Steps.pure _
  | cons b bs ih =>
      refine Steps.bind (considerBroker_calm q c b) fun x => Steps.bind ih fun y => ?_
      cases x <;> exact Steps.pure _

theorem select_calm (q : RouteQuery) : Calm Req.routing (select q) := by
  refine Steps.bind (routing_read trivial) fun config => ?_
  refine Steps.bind (V := fun _ => False) ?_ fun degradedMin => ?_
  · unfold degradedMinOf
    split
    · exact Steps.pure _
    · exact Steps.raise _
    · exact Steps.pure _
  refine Steps.bind (routing_read trivial) fun config =>
    Steps.bind exceedPolicy_calm fun policy => ?_
  refine Steps.bind (routing_read trivial) fun brokers =>
    Steps.bind (routing_read trivial) fun health => ?_
  exact Steps.bind (considerBrokers_calm _ _ _) fun _ => Steps.pure _

theorem selectOrRaise_calm (q : RouteQuery) : Calm Req.routing (selectOrRaise q) :=
  Steps.bind (select_calm q) fun _ => Steps.ite (Steps.raise _) (Steps.pure _)

end BrokerBridge
