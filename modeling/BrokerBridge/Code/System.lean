import BrokerBridge.Code.Replay
import BrokerBridge.Code.Rotation
import BrokerBridge.Conc.Solo

/-!
# The system

Every call of a service is a program of its own, over the one world. A run is
any interleaving of any number of calls, which may be killed between any two
awaits; the world's ticks are the passing of time, changes an administrator
makes, and the expiry of locks.
-/

namespace BrokerBridge

open Conc

inductive Call where
  | place (r : PlaceRequest)
  | replay (limit : Nat)
  | cancel (o : OrderId)
  | createSubscription (c : ClientId) (startsAt endsAt : Instant)
      (teardownMode : Option String)
  | enforceExpiry (at? : Option Instant)
  | expireNow (s : SubscriptionId)
  | ensure (b : BrokerId) (forceRefresh : Bool)
  | allocateIp (region : Region)
  | assign (x : IpId) (b : BrokerId) (c : Option ClientId)
  | attach (x : IpId) (i : InstanceId)
  | detach (x : IpId)
  | release (x : IpId)
  | rotate (b : BrokerId) (force : Bool)

/-- What a call returns. -/
inductive Reply where
  | placed (order : Order) (created : Bool)
  | replayed (summary : ReplaySummary)
  | order (order : Order)
  | subscription (row : Subscription)
  | expired (expired tornDown : Nat)
  | session (row : BrokerSession)
  | ip (row : StaticIp)
  | assignment (row : IpAssignment)
  | rotated (result : RotateResult)

/-- A running call. -/
abbrev Running : Type := Prog Req Req.Ans (Except Exn Reply)

/-- The program of a coroutine, with a new session. -/
def Coro.program {α : Type} (t : Coro α) (reply : α → Reply) : Running :=
  (t {}).bind fun r => .ret (r.1.map reply)

/-- What a call runs. -/
def programOf (s : Settings) : Call → Running
  | .place r => (place r).program fun x => .placed x.1 x.2
  | .replay limit => (replayRun limit).program .replayed
  | .cancel o => (cancel o).program .order
  | .createSubscription c a b m => (createSubscription c a b m).program .subscription
  | .enforceExpiry t => (enforceExpiry t).program fun x => .expired x.1 x.2
  | .expireNow i => (expireNow i).program .subscription
  | .ensure b f => (ensure [] b f).program .session
  | .allocateIp region => (allocateIp region).program .ip
  | .assign x b c => (assignIp x b c).program .assignment
  | .attach x i => (attachIp x i).program .ip
  | .detach x => (detachIp x).program .ip
  | .release x => (releaseIp s x).program .ip
  | .rotate b f => (rotate s b f).program .rotated

abbrev System : Type := Machine World Req Req.Ans Env Call Tick (Except Exn Reply)

abbrev Pools : Type := Pool World Req Req.Ans (Except Exn Reply)

abbrev Happening : Type := Event Env Call Tick

def system (s : Settings) : System where
  prog := programOf s
  handle := handle
  tick := tick

/-- The pools a run starts from: a world, and no call yet. -/
def Idle (w : World) (s : Pools) : Prop := s = { world := w }

theorem reach_idle {s : Settings} {Cond : Pools → Happening → Prop} (w : World) :
    (system s).Reach (Idle w) Cond { world := w } := .init rfl

/-- What a call returns and the world it leaves, when it runs alone. -/
def Call.runAlone (s : Settings) (c : Call) (env : Nat → Env) (w : World) :
    Except Exn Reply × World :=
  (programOf s c).solo handle env w

/-- How a coroutine ends is how the call does. -/
theorem Coro.program_ends {α Ph : Type} {P : Protocol Req Req.Ans Ph} {t : Coro α}
    {reply : α → Reply} {Q : α → Session → Ph → Prop} {E : Exn → Session → Ph → Prop}
    {F : Except Exn Reply → Ph → Prop} {ph : Ph} (h : Task.wp P.step t Q E {} ph)
    (hQ : ∀ a s ph, Q a s ph → F (.ok (reply a)) ph) (hE : ∀ e s ph, E e s ph → F (.error e) ph) :
    (t.program reply).Follows P F ph := by
  unfold Prog.Follows Coro.program
  rw [Prog.fold_bind]
  refine Prog.step_mono ?_ h
  rintro ⟨e | a, s⟩ ph hend
  · exact hE e s ph hend
  · exact hQ a s ph hend

/-- What holds however a coroutine ends holds of the call. -/
theorem Coro.program_solo {α σ E : Type} {h : (r : Req) → E → σ → r.Ans × σ} {A : E → Prop}
    {t : Coro α} {Q : α → Session → σ → Prop} {X : Exn → Session → σ → Prop} {w : σ}
    (reply : α → Reply) (ht : Task.wp (alone h A) t Q X {} w) (env : Nat → E)
    (henv : ∀ n, A (env n)) :
    (∃ a s, Q a s ((t.program reply).solo h env w).2 ∧
      ((t.program reply).solo h env w).1 = .ok (reply a)) ∨
    ∃ e s, X e s ((t.program reply).solo h env w).2 ∧
      ((t.program reply).solo h env w).1 = .error e := by
  refine Prog.solo_of_alone (p := t.program reply) (Q := fun x w' =>
    (∃ a s, Q a s w' ∧ x = .ok (reply a)) ∨ ∃ e s, X e s w' ∧ x = .error e) ?_ henv
  unfold Coro.program
  rw [Prog.fold_bind]
  refine Prog.alone_mono ?_ ht
  rintro ⟨a | a, s'⟩ w' hw
  · exact .inr ⟨a, s', hw, rfl⟩
  · exact .inl ⟨a, s', hw, rfl⟩

end BrokerBridge
