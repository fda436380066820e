import BrokerBridge.Ips.Rotated

/-!
# What the calls on static IPs do

The operations' lemmas in one: how a call ends, and what the scene it leaves is to the
one it began in.
-/

namespace BrokerBridge

open Conc

/-- What a call that returns has done. -/
def Call.Done (s : Settings) (F : Req → Prop) (sc sc' : Scene) : Call → Reply → Prop
  | .allocateIp region, .ip ip => Allocated region sc ip sc'
  | .assign x b _, .assignment _ => ∃ ip a u, Assigned b x sc ip a u sc'
  | .attach x i, .ip _ => ∃ ip inst, Attached x i sc ip inst sc'
  | .detach x, .ip _ => ∃ ip, Detached x sc ip sc'
  | .release x, .ip _ => ∃ ip t n L', Released s x sc ip t n L' sc'
  | .rotate b force, .rotated y => ∃ r sc₁ r' whitelistOk sc₂ t n L' a u,
      Rotated F s b force sc r sc₁ r' y.drained whitelistOk sc₂ t n L' a u sc'
  | _, _ => False

/-- What a call that raises may have done. -/
def Call.Raised (s : Settings) (F : Req → Prop) (sc sc' : Scene) : Call → Exn → Prop
  | .allocateIp region, _ => AllocateRaised region sc sc'
  | .assign x b _, e => AssignRaised b x sc e sc'
  | .attach x i, _ => Ended F sc (fun sc' => ∃ ip inst, Attached x i sc ip inst sc') sc'
  | .detach x, _ => Ended F sc (fun sc' => ∃ ip, Detached x sc ip sc') sc'
  | .release x, _ => Ended F sc (fun sc' => ∃ ip t n L', Released s x sc ip t n L' sc') sc'
  | .rotate b force, _ => RotateRaised F s b force sc sc'
  | _, _ => False

/-- How a call has ended. -/
def Call.Ends (s : Settings) (F : Req → Prop) (c : Call) (sc : Scene) (x : Except Exn Reply)
    (sc' : Scene) : Prop :=
  (∃ y, x = .ok y ∧ c.Done s F sc sc' y) ∨ ∃ e, x = .error e ∧ c.Raised s F sc sc' e

theorem Plays.ends {α : Type} {s : Settings} {F : Req → Prop} {c : Call} {t : Coro α}
    {reply : α → Reply} {w : World} {Q : α → Scene → Prop} {R : Exn → Scene → Prop}
    {env : Nat → Nat × Env} (hprog : programOf s c = t.program reply)
    (h : Plays F w.scene t Q R) (hQ : ∀ a sc', Q a sc' → c.Done s F w.scene sc' (reply a))
    (hR : ∀ e sc', R e sc' → c.Raised s F w.scene sc' e) (henv : c.Meets s env w F) :
    ∃ sc', sc'.Left (c.outcome s env w).2 (c.readings s env w) ∧
      c.Ends s F w.scene (c.outcome s env w).1 sc' := by
  unfold Call.Meets at henv
  rw [hprog] at henv
  obtain ⟨sc', hleft, hend⟩ := h.program henv
  unfold Call.outcome Call.readings
  rw [hprog]
  refine ⟨sc', hleft, ?_⟩
  rcases hend with ⟨a, ha, hQ'⟩ | ⟨e, he, hR'⟩
  · exact .inl ⟨reply a, ha, hQ a sc' hQ'⟩
  · exact .inr ⟨e, he, hR e sc' hR'⟩

/-- Every call on static IPs ends in one of these ways. -/
theorem Call.ends {s : Settings} {F : Req → Prop} {c : Call} {env : Nat → Nat × Env} {w : World}
    (hc : c.onIps = true) (henv : c.Meets s env w F) :
    ∃ sc', sc'.Left (c.outcome s env w).2 (c.readings s env w) ∧
      c.Ends s F w.scene (c.outcome s env w).1 sc' := by
  cases c with
  | allocateIp region =>
      exact (allocateIp_plays rfl).ends rfl (fun _ _ h => h.2) (fun _ _ h => h) henv
  | assign x b c =>
      exact (assignIp_plays rfl).ends rfl (fun _ _ h => h) (fun _ _ h => h) henv
  | attach x i =>
      refine (attachIp_plays rfl).ends rfl ?_ (fun _ _ h => h.1) henv
      rintro _ sc' ⟨ip, inst, h, -, -⟩
      exact ⟨ip, inst, h⟩
  | detach x => exact (detachIp_plays rfl).ends rfl (fun _ _ h => h) (fun _ _ h => h) henv
  | release x => exact (releaseIp_plays s rfl).ends rfl (fun _ _ h => h) (fun _ _ h => h) henv
  | rotate b force =>
      exact (rotate_plays s rfl).ends rfl (fun _ _ h => h) (fun _ _ h => h) henv
  | _ => cases hc

/-! ## Returned or raised -/

section Happened

variable {s : Settings} {F : Req → Prop} {sc sc' : Scene} {c : Call}

/-- What a call on static IPs may have done, whether it has returned or raised. -/
inductive Happened (s : Settings) (F : Req → Prop) (sc sc' : Scene) : Call → Prop
  | same {c : Call} (kept : sc'.kept = sc.kept) (grows : ¬ DbFails F → sc.cloud.Grows sc'.cloud) :
      Happened s F sc sc' c
  | allocated {region : Region} {ip : StaticIp} (h : Allocated region sc ip sc') :
      Happened s F sc sc' (.allocateIp region)
  | assigned {b : BrokerId} {x : IpId} {y : Option ClientId} {ip : StaticIp} {a : IpAssignment}
      {u : BrokerIpUsageHistory} (h : Assigned b x sc ip a u sc') :
      Happened s F sc sc' (.assign x b y)
  | attached {x : IpId} {i : InstanceId} {ip : StaticIp} {inst : Instance}
      (h : Attached x i sc ip inst sc') : Happened s F sc sc' (.attach x i)
  | detached {x : IpId} {ip : StaticIp} (h : Detached x sc ip sc') : Happened s F sc sc' (.detach x)
  | released {x : IpId} {ip : StaticIp} {t : Instant} {n : Int} {L' : Ledger}
      (h : Released s x sc ip t n L' sc') : Happened s F sc sc' (.release x)
  | rotated {b : BrokerId} {force drained ok : Bool} {r r' : Rotation} {sc₁ sc₂ : Scene}
      {t : Instant} {n : Int} {L' : Ledger} {a : IpAssignment} {u : BrokerIpUsageHistory}
      (h : Rotated F s b force sc r sc₁ r' drained ok sc₂ t n L' a u sc') :
      Happened s F sc sc' (.rotate b force)
  | unrotated {b : BrokerId} {force : Bool} (h : Unrotated F s b force sc sc') :
      Happened s F sc sc' (.rotate b force)

theorem Ended.happened {Done : Scene → Prop} (h : Ended F sc Done sc')
    (hdone : Done sc' → Happened s F sc sc' c) : Happened s F sc sc' c := by
  cases h with
  | same h => exact .same h.kept fun _ => h.cloud ▸ Cloud.Grows.rfl'
  | ahead hF hkept => exact .same hkept fun hno => absurd hF hno
  | done h => exact hdone h

theorem Call.Done.happened {y : Reply} (h : c.Done s F sc sc' y) : Happened s F sc sc' c := by
  cases c with
  | allocateIp region =>
      cases y with
      | ip ip => exact .allocated h
      | _ => cases h
  | assign x b c =>
      cases y with
      | assignment a =>
          obtain ⟨ip, a, u, h⟩ := h
          exact .assigned h
      | _ => cases h
  | attach x i =>
      cases y with
      | ip ip =>
          obtain ⟨ip, inst, h⟩ := h
          exact .attached h
      | _ => cases h
  | detach x =>
      cases y with
      | ip ip =>
          obtain ⟨ip, h⟩ := h
          exact .detached h
      | _ => cases h
  | release x =>
      cases y with
      | ip ip =>
          obtain ⟨ip, t, n, L', h⟩ := h
          exact .released h
      | _ => cases h
  | rotate b force =>
      cases y with
      | rotated y =>
          obtain ⟨r, sc₁, r', ok, sc₂, t, n, L', a, u, h⟩ := h
          exact .rotated h
      | _ => cases h
  | _ => cases h

theorem Call.Raised.happened {e : Exn} (h : c.Raised s F sc sc' e) : Happened s F sc sc' c := by
  cases c with
  | allocateIp region =>
      rcases h with h | ⟨ip, h⟩
      · exact .same h.kept fun _ => h.grows
      · exact .allocated h
  | assign x b c =>
      rcases h with h | ⟨-, ip, a, u, h⟩
      · exact .same h.kept fun _ => h.cloud ▸ Cloud.Grows.rfl'
      · exact .assigned h
  | attach x i => exact Ended.happened h fun ⟨_, _, h⟩ => .attached h
  | detach x => exact Ended.happened h fun ⟨_, h⟩ => .detached h
  | release x => exact Ended.happened h fun ⟨_, _, _, _, h⟩ => .released h
  | rotate b force =>
      rcases h with h | ⟨r, sc₁, r', drained, ok, sc₂, t, n, L', a, u, h⟩
      · exact .unrotated h
      · exact .rotated h
  | _ => cases h

theorem Call.Ends.happened {x : Except Exn Reply} (h : c.Ends s F sc x sc') :
    Happened s F sc sc' c := by
  obtain ⟨y, -, h⟩ | ⟨e, -, h⟩ := h
  · exact h.happened
  · exact h.happened

end Happened

end BrokerBridge
