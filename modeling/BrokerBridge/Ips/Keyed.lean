import BrokerBridge.Code.System
import BrokerBridge.Code.Areas
import BrokerBridge.World.Custody

/-!
# The IP services and their locks

The calls that take locks, gone through for `custody`. All of them give back what they hold,
however they end, but for `assign`: its second lock is asked for before its `try`, so when
that raises the first one is kept.
-/

namespace BrokerBridge

open Conc

theorem keyless_serving (a : Area) : Serving a Req.keyless (fun _ => True) where
  request {r} h := by
    cases r with
    | acquire | release => exact h.elim
    | _ => trivial
  query _ _ _ := trivial
  broken _ := trivial
  write _ _ := trivial
  commit _ _ := trivial
  flush _ _ := trivial
  settled _ := trivial
  new := trivial

/-- No lock is held, or those under the token of the request that raised. -/
def Custody.Gone : Custody → Prop
  | void => True
  | leaked t held => ∀ x ∈ held, x.2 = t
  | has _ held => held = []

theorem Custody.gone_of_at {ph : Custody} (h : Custody.At [] ph) : ph.Gone := by
  rcases h with rfl | ⟨_, rfl, _⟩
  · trivial
  · rfl

section Calls

variable {h e : List (LockKey × Nat)}

theorem keyless_execute (q : Query) : Keyring h (execute q) h h :=
  Keyring.keyless ((keyless_serving .ips).execute q)

theorem underIpLock_keyed {α : Type} {x : IpId} {body : Coro α}
    (hbody : Keeps Req.keyless (fun _ => True) body) : Keyring h (underIpLock x body) h h := by
  refine Keyring.locked (fun t hnew => ?_) fun t => ?_
  · rw [if_pos rfl]
    have hx : (LockKey.ip x, t) ∉ h := fun hx => hnew _ hx rfl
    exact Keyring.finally' (Keyring.keyless hbody) (Keyring.unlock hx) (Keyring.unlock hx)
  · rw [if_neg Bool.false_ne_true]
    exact Keyring.raise

theorem attachIp_keyed (x : IpId) (i : InstanceId) : Keyring h (attachIp x i) h h :=
  underIpLock_keyed (attachLocked_keeps (keyless_serving _).house x i)

theorem detachIp_keyed (x : IpId) : Keyring h (detachIp x) h h :=
  underIpLock_keyed (detachLocked_keeps (keyless_serving _).house x)

theorem releaseIp_keyed (s : Settings) (x : IpId) : Keyring h (releaseIp s x) h h :=
  underIpLock_keyed (releaseLocked_keeps (keyless_serving _).house s x)

/-! ## Assigning -/

/-- The second lock of `assign`, under the token of the first. -/
theorem withIpLock_keyed {α : Type} {f : Unit → Coro α} (x : IpId) (b : BrokerId) {t : Nat}
    {drawn : List Nat} {s : Session} (ht : t ∈ drawn)
    (hf : Keyring [(.ip x, t), (.brokerIp b, t)] (f ()) [] []) :
    Task.wp custody.step (withIpLock x b t >>= f) (fun _ _ ph => ph.Gone) (fun _ _ ph => ph.Gone) s
      (.has drawn [(.brokerIp b, t)]) := by
  -- What follows once both are held.
  have hrest : ∀ s' ph', Custody.At [(.ip x, t), (.brokerIp b, t)] ph' →
      Task.wp custody.step (f ()) (fun _ _ ph => ph.Gone) (fun _ _ ph => ph.Gone) s' ph' :=
    fun s' ph' hat => Task.wp_step_mono (hf s' ph' hat) (fun _ _ _ => Custody.gone_of_at)
      fun _ _ _ => Custody.gone_of_at
  unfold withIpLock acquireLock
  rw [Task.wp_bind, Task.wp_bind, Task.wp_bind, wp_await]
  refine ⟨ht, fun y => ?_⟩
  rcases y with y | _ | _
  · -- The lock raised: the broker's stays.
    have hgone : (custody.advance (.has drawn [(.brokerIp b, t)]) (.acquire (.ip x) 30 t)
        (.error y)).Gone := by
      by_cases hy : y = .cancelled
      · have hvoid : custody.advance (.has drawn [(.brokerIp b, t)]) (.acquire (.ip x) 30 t)
            (.error y) = .void := if_pos (congrArg some hy)
        rw [hvoid]
        trivial
      · have hleak : custody.advance (.has drawn [(.brokerIp b, t)]) (.acquire (.ip x) 30 t)
          (.error y) =
            .leaked t [(.brokerIp b, t)] :=
          (if_neg fun he => hy (Option.some_inj.mp he)).trans (if_pos (by simp))
        rw [hleak]
        exact fun z hz => List.mem_singleton.mp hz ▸ rfl
    cases y <;> exact hgone
  · have hat : Custody.At [(.brokerIp b, t)] (.has drawn [(.brokerIp b, t)]) :=
      .inr ⟨drawn, rfl, List.forall_mem_singleton.mpr ht⟩
    have hback : Keyring [(.brokerIp b, t)] (do
        releaseLock (.brokerIp b) t
        Task.raise (.app "LOCK_CONTENTION" "IP lock held" 409) : Coro Unit)
        [(.ip x, t), (.brokerIp b, t)] [] :=
      Keyring.bind (Keyring.unlock List.not_mem_nil) fun _ => Keyring.raise
    have hwp := Task.wp_step_mono (hback s _ hat) (fun _ s' ph' hat' => hrest s' ph' hat')
      fun _ _ _ => Custody.gone_of_at
    exact hwp
  · refine hrest s _ (.inr ⟨drawn, rfl, ?_⟩)
    exact List.forall_mem_cons.mpr ⟨ht, List.forall_mem_singleton.mpr ht⟩

theorem assignIp_gone (x : IpId) (b : BrokerId) (c : Option ClientId) :
    Task.wp custody.step (assignIp x b c) (fun _ _ ph => ph.Gone) (fun _ _ ph => ph.Gone) {}
      (.has [] []) := by
  unfold assignIp
  rw [Task.wp_bind, wp_newId]
  refine ⟨trivial, fun t => ?_⟩
  show Task.wp custody.step _ _ _ _ (if t ∈ [] then Custody.void else .has [t] [])
  rw [if_neg List.not_mem_nil]
  refine wp_acquireLock List.mem_cons_self (List.forall_mem_nil _) ?_ rfl ?_
  · refine withIpLock_keyed x b List.mem_cons_self ?_
    have hip : (LockKey.ip x, t) ∉ [(LockKey.brokerIp b, t)] := fun hx => by
      cases List.mem_singleton.mp hx
    have hback : Keyring [(.ip x, t), (.brokerIp b, t)] (do
        releaseLock (.ip x) t
        releaseLock (.brokerIp b) t) [] [] := by
      exact Keyring.bind (Keyring.unlock hip) fun _ => Keyring.unlock List.not_mem_nil
    exact Keyring.finally' (Keyring.keyless (assignLocked_serves (keyless_serving _) x b c)) hback
      hback
  · rintro _ ph (rfl | rfl)
    · trivial
    · rfl

/-! ## Sessions -/

theorem ensureLocked_keyless (b : BrokerId) (force : Bool) :
    Keeps Req.keyless (fun _ => True) (ensureLocked b force) := by
  have h := keyless_serving .sessions
  refine Keeps.bind (h.execute _) fun existing => Keeps.bind (Keeps.await trivial) fun now => ?_
  split
  · exact Keeps.pure _
  refine Keeps.bind (h.execute _) fun _ => Keeps.bind ?_ fun tokens => ?_
  · exact Keeps.ite (Keeps.bind (Keeps.await trivial) fun _ => Keeps.ofAnswer _)
      (Keeps.bind (Keeps.await trivial) fun _ => Keeps.ofAnswer _)
  refine Keeps.bind ?_ fun _ => Keeps.bind h.commits fun _ => ?_
  · unfold storeTokens
    split
    · exact h.stage rfl
    · exact Keeps.bind (h.assign rfl) fun _ => Keeps.bind (h.assign rfl) fun _ =>
        Keeps.bind (h.assign rfl) fun _ => Keeps.pure _
  refine Keeps.bind (h.execute _) fun row => Keeps.bind (Keeps.refreshed row) fun s => ?_
  refine Keeps.bind (Keeps.await trivial) fun x => Keeps.bind ?_ fun _ => Keeps.pure _
  rcases x with x | _
  · cases x <;> exact Keeps.raise _
  · exact Keeps.pure _

theorem ensure_keyed (held : List BrokerAccount) (b : BrokerId) (force : Bool) :
    Keyring h (ensure held b force) h h := by
  refine Keyring.bind (keyless_execute _) fun row => ?_
  split
  · exact Keyring.raise
  refine Keyring.ite Keyring.raise (Keyring.locked (fun t hnew => ?_) fun t => ?_)
  · have hx : (LockKey.session b, t) ∉ h := fun hx => hnew _ hx rfl
    exact Keyring.finally' (Keyring.keyless (ensureLocked_keyless b force)) (Keyring.unlock hx)
      (Keyring.unlock hx)
  · exact Keyring.raise

/-! ## Rotation -/

theorem attachToOld_keyed (newIp : StaticIp) (i : Option InstanceId) :
    Keyring h (attachToOld newIp i) h h := by
  cases i with
  | none => exact Keyring.pure
  | some i =>
      refine Keyring.bind (keyless_execute _) fun inst => ?_
      split
      · exact Keyring.ite (attachIp_keyed _ _) Keyring.pure
      · exact Keyring.pure

theorem startDraining_keyed (r : Rotation) : Keyring h (startDraining r) h h := by
  have hs := keyless_serving .ips
  refine Keyring.bind (Keyring.keyless (assertReuseAllowed_keeps hs.house.toReads _ _)) fun _ => ?_
  refine Keyring.bind (keyless_execute _) fun row => ?_
  refine Keyring.bind (Keyring.keyless (Keeps.refreshed _)) fun old => ?_
  refine Keyring.bind (keyless_execute _) fun row => ?_
  refine Keyring.bind (Keyring.keyless (Keeps.refreshed _)) fun oldIp => ?_
  exact Keyring.bind (attachToOld_keyed _ _) fun newIp =>
    Keyring.keyless (settleDraining_serves hs r old oldIp newIp)

theorem cleanupNewIp_passing (ip : StaticIp) : Passing h (cleanupNewIp ip) := by
  refine Passing.bind (Passing.execute _) fun _ => Passing.bind (Passing.succeeds ?_) fun _ =>
    Passing.bind (Passing.assign _ _) fun _ => Passing.pure
  refine Passing.bind (Passing.ite ?_ Passing.pure) fun _ => Passing.infra _
  exact Passing.bind (Passing.infra _) fun _ => Passing.bind (Passing.assign _ _) fun _ =>
    Passing.pure

theorem discardNewIp_passing (x : IpId) : Passing h (discardNewIp x) := by
  refine Passing.bind (Passing.execute _) fun rows => Passing.bind ?_ fun active => ?_
  · match rows with
    | [] | [_] => exact Passing.pure
    | _ :: _ :: _ => exact Passing.raise nofun
  refine Passing.ite (Passing.bind (Passing.execute _) fun row => ?_) Passing.pure
  split
  · exact Passing.ite (Passing.bind (cleanupNewIp_passing _) fun _ => Passing.commit) Passing.pure
  · exact Passing.pure

theorem finalCleanup_keyed (x : IpId) : Keyring h (finalCleanup x) h e :=
  Keyring.bind (Keyring.succeeds (discardNewIp_passing x)) fun _ => Keyring.pure

theorem moveOver_keyed (s : Settings) (r : Rotation) : Keyring h (moveOver s r) h h := by
  have hs := keyless_serving .ips
  refine Keyring.bind (startDraining_keyed r) fun x => Keyring.keyless ?_
  refine Keeps.bind (drain_serves hs _) fun drained => ?_
  exact Keeps.bind (cutover_serves hs _ _ _ _) fun _ => Keeps.pure _

theorem rotate_keyed (s : Settings) (b : BrokerId) (force : Bool) :
    Keyring h (rotate s b force) h h := by
  have hs := keyless_serving .ips
  refine Keyring.locked (fun t hnew => ?_) fun t => ?_
  · rw [if_pos rfl]
    have hx : (LockKey.brokerIp b, t) ∉ h := fun hx => hnew _ hx rfl
    refine Keyring.bind (Keyring.onError (Keyring.keyless (beginRotation_serves hs b force))
      (Keyring.unlock hx)) fun r => ?_
    refine Keyring.bind (Keyring.onError (moveOver_keyed s r) ?_) fun x => ?_
    · exact Keyring.bind (finalCleanup_keyed _) fun _ => Keyring.unlock hx
    · exact Keyring.finally' (Keyring.keyless (rotated_serves hs _ _ _ _)) (Keyring.unlock hx)
        (Keyring.unlock hx)
  · rw [if_neg Bool.false_ne_true]
    exact Keyring.raise

end Calls

end BrokerBridge
