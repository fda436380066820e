import BrokerBridge.Code.Keeps
import BrokerBridge.Code.Subscriptions
import BrokerBridge.Code.Sessions

/-!
# Who writes what

The tables fall into four areas, and every service but one writes to its own
area only: the order service also stores broker sessions and clears stale
suspensions. So a call that works in one area cannot disturb an invariant of
another, whatever it computes.

`Within a t` says that `t`, begun with only writes to area `a` pending, commits
only such writes, and keeps only such writes pending, also when it raises. Each
function is gone through once, for any requests and sessions that admit what a
service of the area does; the locks are apart.
-/

namespace BrokerBridge

open Conc

inductive Area where
  | subscriptions | sessions | ips | orders
  deriving DecidableEq

def EventPayload.area : EventPayload → Area
  | orderSubmitted .. | orderCancelled .. => .orders
  | ipAllocated .. | ipReleased .. | ipRotated .. => .ips
  | subscriptionExpired .. => .subscriptions

def Write.area : Write → Area
  | addSubscription _ | setClient _ _ | setSubscription _ _ => .subscriptions
  | addInstance _ | setInstance _ _ => .subscriptions
  | addSession _ | setSession _ _ => .sessions
  | addIp _ | addAssignment _ | addHistory _ => .ips
  | setIp _ _ | setAssignment _ _ | setHistory _ _ => .ips
  | addOrder _ | addAttempt _ | addFailover _ | setOrder _ _ | setAttempt _ _ _ => .orders
  | enqueue p => p.area

/-- A request that changes the tables of area `a` at most, and asks nothing of
a broker about an order unless that is the area. -/
def Req.inArea (a : Area) : Req → Prop
  | .commit ws | .flush ws => ∀ w ∈ ws, w.area = a
  | .placeOrder _ _ | .cancelOrder _ _ | .mark _ => a = .orders
  | _ => True

/-- Only writes to area `a` can reach the database from this session. -/
abbrev Session.In (a : Area) (s : Session) : Prop := s.Staged (·.area = a)

def Within {α : Type} (a : Area) (t : Coro α) : Prop :=
  ∀ s : Session, s.In a →
    Task.wp (only (Req.inArea a)) t (fun _ s' => s'.In a) (fun _ s' => s'.In a) s

/-- `N` and `S` admit what a service of area `a` does, but for the locks. -/
structure Serving (a : Area) (N : Req → Prop) (S : Session → Prop) : Prop where
  request : ∀ {r : Req}, r.lockless → N r
  query : ∀ {s} (q : Query), S s → ¬ s.broken = true → N (.query s.pending q)
  broken : ∀ {s}, S s → S { s with broken := true }
  write : ∀ {s w}, S s → Write.area w = a → S { s with pending := s.pending ++ [w] }
  commit : ∀ {s}, S s → ¬ s.broken = true → N (.commit s.pending)
  flush : ∀ {s}, S s → ¬ s.broken = true → N (.flush s.pending)
  settled : ∀ {s}, S s → S { s with pending := [] }
  new : S {}

/-- `N` admits the locks. -/
structure Locking (N : Req → Prop) : Prop where
  acquire : ∀ k ttl t, N (.acquire k ttl t)
  release : ∀ k t, N (.release k t)

theorem within_serving (a : Area) : Serving a (Req.inArea a) (Session.In a) where
  request {r} h := by
    cases r with
    | commit | flush | placeOrder | cancelOrder | mark => exact h.elim
    | _ => trivial
  query _ _ _ := trivial
  broken _ := .inl rfl
  write hs hw := hs.stage hw
  commit hs hb := hs.resolve_left hb
  flush hs hb := hs.resolve_left hb
  settled _ := .inr (List.forall_mem_nil _)
  new := .inr (List.forall_mem_nil _)

theorem within_locking (a : Area) : Locking (Req.inArea a) :=
  ⟨fun _ _ _ => trivial, fun _ _ => trivial⟩

section Serve

variable {a : Area} {N : Req → Prop} {S : Session → Prop}

theorem Serving.execute (h : Serving a N S) (q : Query) : Keeps N S (execute q) :=
  Keeps.execute (fun _ => h.broken) fun _ => h.query q

theorem Serving.stage (h : Serving a N S) {w : Write} (hw : w.area = a) : Keeps N S (stage w) :=
  Keeps.stage fun _ hs => h.write hs hw

theorem Serving.assign (h : Serving a N S) {α F : Type} [Stored α F] [DecidableEq α] {r : α} {f : F}
    (hw : (Stored.write r f).area = a) : Keeps N S (assign r f) :=
  Keeps.assign fun _ hs => h.write hs hw

theorem Serving.commits (h : Serving a N S) : Keeps N S BrokerBridge.commit :=
  Keeps.commit (fun _ => h.broken) (fun _ => h.commit) fun _ => h.settled

/-- Housekeeping is what a service of the IPs does. -/
theorem Serving.house (h : Serving .ips N S) : Commits N S where
  request := h.request
  query hs hb _ := h.query _ hs hb
  broken := h.broken
  write {s w} hs hw := by
    refine h.write hs ?_
    cases w with
    | enqueue p => cases p <;> first | rfl | exact hw.elim
    | addIp | setIp | setHistory | setAssignment => rfl
    | _ => exact hw.elim
  commit := h.commit
  flush := h.flush
  settled := h.settled
  new := h.new

/-! ## Subscriptions -/

theorem defaultTeardownMode_serves (h : Serving a N S) : Keeps N S defaultTeardownMode := by
  refine Keeps.bind (h.execute _) fun config => ?_
  split
  · split
    · exact Keeps.pure _
    · exact Keeps.pure _
  · exact Keeps.pure _

theorem createSubscription_serves (h : Serving .subscriptions N S) (c : ClientId)
    (startsAt endsAt : Instant) (mode : Option String) :
    Keeps N S (createSubscription c startsAt endsAt mode) := by
  refine Keeps.bind (h.execute _) fun client => ?_
  split
  · exact Keeps.raise _
  refine Keeps.ite (Keeps.raise _) (Keeps.bind ?_ fun given => ?_)
  · cases mode with
    | none => exact defaultTeardownMode_serves h
    | some m => exact Keeps.ite (defaultTeardownMode_serves h) (Keeps.pure _)
  split
  · exact Keeps.raise _
  refine Keeps.bind (Keeps.await (h.request trivial)) fun id => Keeps.bind (h.stage rfl) fun _ => ?_
  refine Keeps.bind (Keeps.await (h.request trivial)) fun now => Keeps.bind ?_ fun _ => ?_
  · exact Keeps.ite (Keeps.bind (h.assign rfl) fun _ => Keeps.pure _) (Keeps.pure _)
  exact Keeps.bind h.commits fun _ => Keeps.bind (h.execute _) fun row => Keeps.refreshed row

theorem tearDownInstance_serves (h : Serving .subscriptions N S) (mode : TeardownMode)
    (inst : Instance) : Keeps N S (tearDownInstance mode inst) := by
  refine Keeps.catching ?_ fun e => Keeps.ite (Keeps.pure _) (Keeps.raise _)
  refine Keeps.bind (Keeps.infra (h.request trivial)) fun _ =>
    Keeps.bind (h.assign rfl) fun inst => ?_
  refine Keeps.bind ?_ fun _ => Keeps.pure _
  cases mode
  all_goals
    exact Keeps.bind (Keeps.infra (h.request trivial)) fun _ => Keeps.bind (h.assign rfl) fun _ =>
      Keeps.pure _

theorem tearDownInstances_serves (h : Serving .subscriptions N S) (mode : TeardownMode)
    (insts : List Instance) : Keeps N S (tearDownInstances mode insts) := by
  induction insts with
  | nil => exact Keeps.pure _
  | cons inst insts ih =>
      exact Keeps.bind (tearDownInstance_serves h mode inst) fun _ => Keeps.bind ih fun _ =>
        Keeps.pure _

theorem expireOne_serves (h : Serving .subscriptions N S) (now : Instant) (sub : Subscription) :
    Keeps N S (expireOne now sub) := by
  refine Keeps.bind (h.assign rfl) fun sub => Keeps.bind ?_ fun _ => ?_
  · refine Keeps.bind (h.execute _) fun client => ?_
    cases client
    · exact Keeps.pure _
    · exact Keeps.bind (h.assign rfl) fun _ => Keeps.pure _
  refine Keeps.bind (h.execute _) fun insts => ?_
  refine Keeps.bind (tearDownInstances_serves h _ _) fun n => ?_
  refine Keeps.bind (h.assign rfl) fun sub => ?_
  exact Keeps.bind (h.stage rfl) fun _ => Keeps.pure _

theorem expireEach_serves (h : Serving .subscriptions N S) (now : Instant)
    (subs : List Subscription) : Keeps N S (expireEach now subs) := by
  induction subs with
  | nil => exact Keeps.pure _
  | cons sub subs ih =>
      exact Keeps.bind (expireOne_serves h now sub) fun _ => Keeps.bind ih fun _ => Keeps.pure _

theorem enforceExpiry_serves (h : Serving .subscriptions N S) (at? : Option Instant) :
    Keeps N S (enforceExpiry at?) := by
  refine Keeps.bind ?_ fun now => Keeps.bind (h.execute _) fun due => ?_
  · cases at?
    · exact Keeps.await (h.request trivial)
    · exact Keeps.pure _
  refine Keeps.bind (h.execute _) fun _ => Keeps.bind (expireEach_serves h _ _) fun n => ?_
  exact Keeps.bind (Keeps.ite h.commits (Keeps.pure _)) fun _ => Keeps.pure _

theorem expireNow_serves (h : Serving .subscriptions N S) (id : SubscriptionId) :
    Keeps N S (expireNow id) := by
  refine Keeps.bind (h.execute _) fun sub => ?_
  split
  · exact Keeps.raise _
  refine Keeps.bind (Keeps.await (h.request trivial)) fun now =>
    Keeps.bind (h.assign rfl) fun sub => ?_
  refine Keeps.ite (Keeps.bind h.commits fun _ => ?_) (Keeps.pure _)
  exact Keeps.bind (enforceExpiry_serves h none) fun _ => Keeps.bind (h.execute _) fun row =>
    Keeps.refreshed row

/-! ## Static IPs -/

theorem addAssignment_serves (h : Serving .ips N S) (c : ClientId) (b : BrokerId) (x : IpId)
    (now : Instant) : Keeps N S (addAssignment c b x now) :=
  Keeps.bind (Keeps.await (h.request trivial)) fun _ => Keeps.bind (h.stage rfl) fun _ =>
    Keeps.bind (Keeps.await (h.request trivial)) fun _ => Keeps.bind (h.stage rfl) fun _ =>
      Keeps.pure _

theorem assignLocked_serves (h : Serving .ips N S) (x : IpId) (b : BrokerId) (c : Option ClientId) :
    Keeps N S (assignLocked x b c) := by
  refine Keeps.bind (getIp_keeps h.house.toReads x) fun ip => Keeps.bind ?_ fun _ => ?_
  · exact Keeps.ite (Keeps.raise _) (Keeps.ite (Keeps.raise _) (Keeps.pure _))
  refine Keeps.bind (h.execute _) fun broker => ?_
  split
  · exact Keeps.raise _
  refine Keeps.bind (assertReuseAllowed_keeps h.house.toReads b x) fun _ => ?_
  refine Keeps.bind (h.execute _) fun rows => ?_
  refine Keeps.bind (Keeps.scalarOneOrNone rows) fun active => Keeps.ite (Keeps.raise _) ?_
  refine Keeps.bind (Keeps.await (h.request trivial)) fun now => ?_
  refine Keeps.bind (addAssignment_serves h _ b x now) fun id => Keeps.bind ?_ fun _ => ?_
  · exact Keeps.ite (Keeps.bind (h.assign rfl) fun _ => Keeps.pure _) (Keeps.pure _)
  exact Keeps.bind h.commits fun _ => Keeps.bind (h.execute _) fun row => Keeps.refreshed row

theorem assignIp_serves (h : Serving .ips N S) (hl : Locking N) (x : IpId) (b : BrokerId)
    (c : Option ClientId) : Keeps N S (assignIp x b c) := by
  have hunlock : ∀ k t, Keeps N S (releaseLock k t) := fun _ _ => Keeps.releaseLock (hl.release _ _)
  refine Keeps.bind (Keeps.await (h.request trivial)) fun token => ?_
  refine Keeps.bind (Keeps.acquireLock (hl.acquire _ _ _)) fun got => Keeps.ite ?_ (Keeps.raise _)
  refine Keeps.bind ?_ fun _ => Keeps.finally' (assignLocked_serves h x b c) ?_
  · exact Keeps.bind (Keeps.acquireLock (hl.acquire _ _ _)) fun got => Keeps.ite (Keeps.pure _)
      (Keeps.bind (hunlock _ _) fun _ => Keeps.raise _)
  · exact Keeps.bind (hunlock _ _) fun _ => hunlock _ _

theorem underIpLock_serves (h : Serving .ips N S) (hl : Locking N) {α : Type} {x : IpId}
    {body : Coro α} (hbody : Keeps N S body) : Keeps N S (underIpLock x body) := by
  refine Keeps.bind (Keeps.await (h.request trivial)) fun token => ?_
  refine Keeps.bind (Keeps.acquireLock (hl.acquire _ _ _)) fun got => Keeps.ite ?_ (Keeps.raise _)
  exact Keeps.finally' hbody (Keeps.releaseLock (hl.release _ _))

/-! ## Rotation -/

theorem beginRotation_serves (h : Serving .ips N S) (b : BrokerId) (force : Bool) :
    Keeps N S (beginRotation b force) := by
  refine Keeps.bind (h.execute _) fun broker => ?_
  split
  · exact Keeps.raise _
  refine Keeps.bind (h.execute _) fun old => ?_
  split
  · exact Keeps.raise _
  · exact Keeps.bind (allocateIp_keeps h.house _) fun _ => Keeps.pure _

/-- What `startDraining` does once the new IP is attached. -/
theorem settleDraining_serves (h : Serving .ips N S) (r : Rotation) (old : IpAssignment)
    (oldIp newIp : StaticIp) : Keeps N S (do
      let whitelistOk ← succeeds (whitelistSync r.broker)
      reselect old
      let oldAssignment ← BrokerBridge.assign old (.status .draining)
      BrokerBridge.commit
      pure (({ r with oldAssignment, oldIp, newIp } : Rotation), whitelistOk)) := by
  refine Keeps.bind (succeeds_keeps (whitelistSync_keeps h.house _)) fun ok => ?_
  refine Keeps.bind (Keeps.bind (h.execute _) fun row => ?_) fun _ => ?_
  · cases row
    · exact Keeps.raise _
    · exact Keeps.pure _
  exact Keeps.bind (h.assign rfl) fun _ => Keeps.bind h.commits fun _ => Keeps.pure _

theorem startDraining_serves (h : Serving .ips N S) (hl : Locking N) (r : Rotation) :
    Keeps N S (startDraining r) := by
  refine Keeps.bind (assertReuseAllowed_keeps h.house.toReads _ _) fun _ => ?_
  refine Keeps.bind (h.execute _) fun row => Keeps.bind (Keeps.refreshed row) fun old => ?_
  refine Keeps.bind (h.execute _) fun row => Keeps.bind (Keeps.refreshed row) fun ip => ?_
  refine Keeps.bind ?_ fun newIp => settleDraining_serves h r old ip newIp
  cases r.oldIp.instanceId with
  | none => exact Keeps.pure _
  | some i =>
      refine Keeps.bind (h.execute _) fun inst => ?_
      split
      · exact Keeps.ite (underIpLock_serves h hl (attachLocked_keeps h.house _ _)) (Keeps.pure _)
      · exact Keeps.pure _

theorem drain_serves (h : Serving .ips N S) (r : Rotation) : Keeps N S (drain r) := by
  refine Keeps.bind (Keeps.bind (h.execute _) fun config => ?_) fun timeout => ?_
  · split
    · exact settingInt_keeps _
    · exact Keeps.pure _
  refine Keeps.bind (Keeps.bind (h.execute _) fun _ => Keeps.pure _) fun policy => ?_
  refine Keeps.bind (Keeps.await (h.request trivial)) fun polls => ?_
  refine Keeps.bind (drainLoop_keeps h.house.toReads _ _) fun drained => Keeps.ite ?_ (Keeps.pure _)
  refine Keeps.bind ?_ fun _ => Keeps.pure _
  refine Keeps.bind (cleanupNewIp_keeps h.house.toStages _) fun _ =>
    Keeps.bind (h.assign rfl) fun _ => ?_
  exact Keeps.bind h.commits fun _ => Keeps.bind (h.execute _) fun _ => Keeps.raise _

theorem cutover_serves (h : Serving .ips N S) (s : Settings) (r : Rotation) (drained ok : Bool) :
    Keeps N S (cutover s r drained ok) := by
  refine Keeps.bind (Keeps.await (h.request trivial)) fun now => ?_
  refine Keeps.bind (cooldownHours_keeps h.house.toReads s) fun cooldown => ?_
  refine Keeps.bind (h.assign rfl) fun a => Keeps.bind (h.assign rfl) fun a => ?_
  refine Keeps.bind (h.execute _) fun hist => ?_
  refine Keeps.bind (closeHistory_keeps h.house.toStages _ _ hist) fun _ => ?_
  refine Keeps.bind (h.execute _) fun row => Keeps.bind (Keeps.refreshed row) fun ip => ?_
  refine Keeps.bind (detachOld_keeps h.house.toStages ip) fun ip =>
    Keeps.bind (h.assign rfl) fun ip => ?_
  refine Keeps.bind (addAssignment_serves h _ _ _ _) fun id => ?_
  exact Keeps.bind (h.stage rfl) fun _ => Keeps.bind h.commits fun _ => Keeps.pure _

theorem rotated_serves (h : Serving .ips N S) (r : Rotation) (drained ok : Bool)
    (id : AssignmentId) :
    Keeps N S (rotated r drained ok id) := by
  refine Keeps.bind (h.execute _) fun row => Keeps.bind (Keeps.refreshed row) fun _ => ?_
  exact Keeps.bind (h.execute _) fun row => Keeps.bind (Keeps.refreshed row) fun _ => Keeps.pure _

theorem onError_keeps {α : Type} {t : Coro α} {handler : Coro Unit} (ht : Keeps N S t)
    (hh : Keeps N S handler) : Keeps N S (onError t handler) :=
  Keeps.catching ht fun _ => Keeps.bind hh fun _ => Keeps.raise _

theorem rotate_serves (h : Serving .ips N S) (hl : Locking N) (s : Settings) (b : BrokerId)
    (force : Bool) : Keeps N S (rotate s b force) := by
  have hunlock : ∀ k t, Keeps N S (releaseLock k t) := fun _ _ => Keeps.releaseLock (hl.release _ _)
  refine Keeps.bind (Keeps.await (h.request trivial)) fun token => ?_
  refine Keeps.bind (Keeps.acquireLock (hl.acquire _ _ _)) fun got => Keeps.ite ?_ (Keeps.raise _)
  refine Keeps.bind (onError_keeps (beginRotation_serves h b force) (hunlock _ _)) fun r => ?_
  refine Keeps.bind (onError_keeps ?_ ?_) fun x => ?_
  · refine Keeps.bind (startDraining_serves h hl r) fun x =>
      Keeps.bind (drain_serves h _) fun d => ?_
    exact Keeps.bind (cutover_serves h _ _ _ _) fun id => Keeps.pure _
  · exact Keeps.bind (finalCleanup_keeps h.house _) fun _ => hunlock _ _
  · exact Keeps.finally' (rotated_serves h _ _ _ _) (hunlock _ _)

end Serve

/-! ## The calls, each within its area -/

theorem createSubscription_within (c : ClientId) (startsAt endsAt : Instant)
    (mode : Option String) : Within .subscriptions (createSubscription c startsAt endsAt mode) :=
  createSubscription_serves (within_serving _) c startsAt endsAt mode

theorem enforceExpiry_within (at? : Option Instant) : Within .subscriptions (enforceExpiry at?) :=
  enforceExpiry_serves (within_serving _) at?

theorem expireNow_within (id : SubscriptionId) : Within .subscriptions (expireNow id) :=
  expireNow_serves (within_serving _) id

theorem allocateIp_within (region : Region) : Within .ips (allocateIp region) :=
  allocateIp_keeps (within_serving _).house region

theorem assignIp_within (x : IpId) (b : BrokerId) (c : Option ClientId) :
    Within .ips (assignIp x b c) :=
  assignIp_serves (within_serving _) (within_locking _) x b c

theorem attachIp_within (x : IpId) (i : InstanceId) : Within .ips (attachIp x i) :=
  underIpLock_serves (within_serving _) (within_locking _)
    (attachLocked_keeps (within_serving _).house x i)

theorem detachIp_within (x : IpId) : Within .ips (detachIp x) :=
  underIpLock_serves (within_serving _) (within_locking _)
    (detachLocked_keeps (within_serving _).house x)

theorem releaseIp_within (s : Settings) (x : IpId) : Within .ips (releaseIp s x) :=
  underIpLock_serves (within_serving _) (within_locking _)
    (releaseLocked_keeps (within_serving _).house s x)

theorem rotate_within (s : Settings) (b : BrokerId) (force : Bool) :
    Within .ips (rotate s b force) :=
  rotate_serves (within_serving _) (within_locking _) s b force

end BrokerBridge
