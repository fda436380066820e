import BrokerBridge.Conc.Solo
import BrokerBridge.Binary64.Double

/-!
# The rate limiters

`MemoryRateLimit` and `RedisRateLimit`, with the part of Redis that the second one
uses: sorted sets whose keys expire. Times and limits are rational numbers; a limit is
a `Decimal` of the broker's row, which is neither infinite nor a NaN.

The code computes with doubles. `fl` is what becomes of the exact result of an operation:
`double` in the code, and `id` where exact numbers are meant.

Redis is asked in pipelines, and each of them is one request: its commands are executed with
nothing in between. The clock is read before a pipeline is sent, and that is a request of its
own: time may pass until the pipeline is executed.
-/

namespace BrokerBridge

open Conc Binary64

/-- The answer of `check` and `consume`. -/
structure RateAnswer where
  allowed : Bool
  limit : Rat
  used : Rat
  remaining : Rat
  pressure : Rat
  windowSeconds : Rat
  deriving DecidableEq

def ratePressure (fl : Rat → Rat) (limit used : Rat) : Rat :=
  if limit ≤ 0 then 0 else min 20 (fl (20 * fl (used / limit)))

/-- The dictionary that the limiters build where they answer. -/
def rateAnswer (fl : Rat → Rat) (allowed : Bool) (limit window : Rat) (count : Nat) : RateAnswer :=
  let used : Rat := count
  { allowed := allowed
    limit := limit
    used := used
    remaining := max 0 (fl (limit - used))
    pressure := ratePressure fl limit used
    windowSeconds := window }

/-! ## In memory -/

structure MemoryRateLimit where
  hits : String → List Rat := fun _ => []

namespace MemoryRateLimit

variable (fl : Rat → Rat) (m : MemoryRateLimit) (key : String) (limit window now : Rat)

/-- `_prune`: the hits of the key that are younger than the window, and the limiter that
keeps only these. -/
def prune : List Rat × MemoryRateLimit :=
  let hits := (m.hits key).filter fun t => fl (now - t) < window
  (hits, { hits := fun k => if k = key then hits else m.hits k })

def check : RateAnswer × MemoryRateLimit :=
  let (hits, m) := m.prune fl key window now
  (rateAnswer fl ((hits.length : Rat) < limit) limit window hits.length, m)

def consume : RateAnswer × MemoryRateLimit :=
  let (hits, m) := m.prune fl key window now
  if limit ≤ (hits.length : Rat) then
    ({ rateAnswer fl false limit window hits.length with remaining := 0 }, m)
  else
    let hits := hits ++ [now]
    (rateAnswer fl true limit window hits.length,
     { hits := fun k => if k = key then hits else m.hits k })

end MemoryRateLimit

/-! ## Redis -/

/-- `f"{now}:{id(self)}:{now}"`, up to the time and the object that are in it. -/
structure Member where
  now : Rat
  self : Nat
  deriving DecidableEq

/-- A sorted set, member by member with its score, and when its key expires. -/
structure SortedSet where
  members : List (Member × Rat) := []
  expiresAt : Option Rat := none

namespace SortedSet

/-- A key that has expired is gone. -/
def asOf (z : SortedSet) (now : Rat) : SortedSet :=
  if z.expiresAt.any (· ≤ now) then {} else z

/-- A key goes, with its expiry, when its last member does. -/
def zremrangebyscore (z : SortedSet) (low high : Rat) : SortedSet :=
  let members := z.members.filter fun x => !(low ≤ x.2 && x.2 ≤ high)
  { members := members, expiresAt := if members.isEmpty then none else z.expiresAt }

def zcard (z : SortedSet) : Nat := z.members.length

/-- A member that is there already gets the score. -/
def zadd (z : SortedSet) (member : Member) (score : Rat) : SortedSet :=
  { z with members := z.members.filter (·.1 ≠ member) ++ [(member, score)] }

def expire (z : SortedSet) (now seconds : Rat) : SortedSet :=
  { z with expiresAt := some (now + seconds) }

end SortedSet

/-- The server, and the clock it shares with its callers. -/
structure Redis where
  sets : String → SortedSet := fun _ => {}
  clock : Rat := 0

namespace Redis

/-- The sorted set of a key, as the server finds it now. -/
def get (r : Redis) (key : String) : SortedSet := (r.sets key).asOf r.clock

def put (r : Redis) (key : String) (z : SortedSet) : Redis :=
  { r with sets := fun k => if k = key then z else r.sets k }

end Redis

/-- What a call of `RedisRateLimit` asks: the clock, and its two pipelines, the one of
`_snapshot` and the one that adds a member. -/
inductive Pipeline where
  /-- `time.time()` -/
  | time
  | count (key : String) (windowStart : Rat)
  | add (key : String) (member : Member) (expiry : Int)

/-- The reading, or what `zcard` answers. -/
@[reducible] def Pipeline.Ans : Pipeline → Type
  | .time => Rat
  | .count _ _ | .add _ _ _ => Nat

/-- `int(x)` -/
def intOf (x : Rat) : Int := if 0 ≤ x then ⌊x⌋ else ⌈x⌉

/-- `max(1, int(window_seconds) + 1)` -/
def expiryOf (window : Rat) : Int := max 1 (intOf window + 1)

namespace Redis

def execute (p : Pipeline) (_ : Unit) (r : Redis) : p.Ans × Redis :=
  match p with
  | .time => (r.clock, r)
  | .count key windowStart =>
      let z := (r.get key).zremrangebyscore 0 windowStart
      (z.zcard, r.put key z)
  | .add key member expiry =>
      let z := ((r.get key).zadd member member.now).expire r.clock expiry
      (z.zcard, r.put key z)

end Redis

namespace RedisRateLimit

variable (self : Nat) (key : String) (limit window : Rat)

/-- `_snapshot` -/
def snapshot : Prog Pipeline Pipeline.Ans RateAnswer :=
  .call .time fun (now : Rat) => .call (.count key (double (now - window))) fun (used : Nat) =>
    .ret (rateAnswer double ((used : Rat) < limit) limit window used)

def check : Prog Pipeline Pipeline.Ans RateAnswer := snapshot key limit window

def consume : Prog Pipeline Pipeline.Ans RateAnswer :=
  (snapshot key limit window).bind fun snap =>
    if !snap.allowed then .ret snap
    else .call .time fun (now : Rat) =>
      .call (.add key ⟨now, self⟩ (expiryOf window)) fun (used : Nat) =>
        .ret (rateAnswer double true limit window used)

end RedisRateLimit

end BrokerBridge
