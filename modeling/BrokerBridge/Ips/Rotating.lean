import BrokerBridge.Code.Rotation
import BrokerBridge.Ips.Operations

/-!
# What a rotation does to the ledger

A rotation commits up to four times: the new IP, its attachment, the draining
assignment, and the cutover or the abort. Where it raises in between, the clean-up
commits once more, with whatever is pending. What it leaves is told by what has become
of the old assignment and by the row of the new IP.

The clean-up swallows what the provider raises. The row of the new IP then keeps its
instance, though it is released.
-/

namespace BrokerBridge

open Conc

/-- Neither the database nor the provider goes wrong. -/
def Smooth (F : Req → Prop) : Prop := ¬ DbFails F ∧ ∀ c, ¬ F (.infra c)

section Cleanup

variable {F : Req → Prop} {sc : Scene} {L : Ledger} {α : Type} {R : Exn → Scene → Prop}
  {x : IpId} {b : BrokerId}

theorem Plays.succeeds {t : Coro Unit} {Q : Bool → Scene → Prop}
    (h : Plays F sc t (fun _ => Q true) fun e sc' => Q false sc' ∧ R e sc') :
    Plays F sc (succeeds t) Q R := by
  unfold BrokerBridge.succeeds
  refine Plays.catching (Plays.bind (h.mono (fun _ _ hQ => Plays.pure hQ) fun e sc' hR => ?_))
  split
  · exact Plays.pure hR.1
  · exact Plays.raise hR.2

/-- The row of a new IP that has been cleaned up. It keeps its instance only if the
provider would not detach it. -/
def Cleaned (F : Req → Prop) (ip ip' : StaticIp) : Prop :=
  ∃ i, ip' = { ip with instanceId := i, status := .released } ∧
    (i = none ∨ i = ip.instanceId ∧ F (.infra (.detachIp ip.externalId)))

/-- The provider's side of it. -/
def StaticIp.cleaned (ip : StaticIp) (C : Cloud) : Cloud :=
  (InfraCall.deleteIp ip.externalId).onCloud
    (if ip.instanceId.isSome then (InfraCall.detachIp ip.externalId).onCloud C else C)

/-- The draft of a clean-up that was cancelled. -/
def HalfCleaned (ip : StaticIp) (L : Ledger) (draft : Option Ledger) : Prop :=
  draft = none ∨ draft = some L ∨ draft = some (L.putIp { ip with instanceId := none })

theorem cleanupNewIp_plays {ip : StaticIp} (hd : sc.draft = some L) (hip : L.ips ip.id = some ip) :
    Plays F sc (cleanupNewIp ip)
      (fun _ sc' => sc'.kept = sc.kept ∧
        (∃ ip', Cleaned F ip ip' ∧ sc'.draft = some (L.putIp ip')) ∧
        (Smooth F → sc'.cloud = ip.cleaned sc.cloud))
      (fun _ sc' => sc'.kept = sc.kept ∧ HalfCleaned ip L sc'.draft ∧ ¬ Smooth F) := by
  unfold cleanupNewIp
  refine Plays.bind ?_
  refine Plays.getProvider hd (Plays.bind ?_) fun hF _ _ => ⟨rfl, .inl rfl, fun h => h.1 hF⟩
  -- The last step, once the provider's calls have left the row with its instance or without.
  have hmark : ∀ (sc₁ : Scene) (i : Option InstanceId), sc₁.kept = sc.kept →
      sc₁.draft = some (L.putIp { ip with instanceId := i }) →
      (i = none ∨ i = ip.instanceId ∧ F (.infra (.detachIp ip.externalId))) →
      (Smooth F → sc₁.cloud = ip.cleaned sc.cloud) →
      Plays F sc₁ (do let _ ← assign ip (.status .released))
        (fun _ sc' => sc'.kept = sc.kept ∧
          (∃ ip', Cleaned F ip ip' ∧ sc'.draft = some (L.putIp ip')) ∧
          (Smooth F → sc'.cloud = ip.cleaned sc.cloud))
        (fun _ sc' => sc'.kept = sc.kept ∧ HalfCleaned ip L sc'.draft ∧ ¬ Smooth F) := by
    intro sc₁ i hkept hdraft hi hcloud
    refine Plays.bind (Plays.assignIpOf hdraft (Function.update_self ..) (fun hsame => ?_)
      (Plays.pure ⟨hkept, ⟨{ ip with instanceId := i, status := .released }, ⟨i, rfl, hi⟩, ?_⟩,
        hcloud⟩))
    · have hst : IpStatus.released = ip.status := congrArg StaticIp.status hsame
      show ({ ip with instanceId := i, status := .released } : StaticIp) =
        { ip with instanceId := i }
      rw [hst]
    · exact congrArg some (putIp_putIp _ _ rfl)
  have hputSelf : L.putIp { ip with instanceId := ip.instanceId } = L := Ledger.putIp_self hip
  refine Plays.succeeds (Plays.bind ?_)
  unfold detachNewIp
  split
  · next hinst =>
      refine Plays.bind (Plays.infra (fun _ => nofun) (fun _ => ?_) fun hF _ _ => ⟨?_, ?_⟩)
      · refine Plays.bind (Plays.assignIp hd hip (Plays.pure ?_))
        refine Plays.infra (fun _ => nofun) (fun _ => ?_) fun hF _ _ => ⟨?_, ?_⟩
        · refine hmark _ none rfl rfl (.inl rfl) fun _ => ?_
          rw [StaticIp.cleaned, if_pos hinst]
          rfl
        · exact hmark _ none rfl rfl (.inl rfl) fun hs => absurd hF (hs.2 _)
        · exact ⟨rfl, .inr (.inr rfl), fun hs => hs.2 _ hF⟩
      · exact hmark _ ip.instanceId rfl (by rw [hputSelf]; exact hd) (.inr ⟨rfl, hF⟩)
          fun hs => absurd hF (hs.2 _)
      · exact ⟨rfl, .inr (.inl hd), fun hs => hs.2 _ hF⟩
  · next hinst =>
      have hnone : ip.instanceId = none := by
        rw [Bool.not_eq_true, Option.isSome_eq_false_iff, Option.isNone_iff_eq_none] at hinst
        exact hinst
      have hdraft : sc.draft = some (L.putIp { ip with instanceId := none }) := by
        rw [← hnone, hputSelf, hd]
      refine Plays.pure (Plays.infra (fun _ => nofun) (fun _ => ?_) fun hF _ _ => ⟨?_, ?_⟩)
      · refine hmark _ none rfl hdraft (.inl rfl) fun _ => ?_
        rw [StaticIp.cleaned, if_neg hinst]
      · exact hmark _ none rfl hdraft (.inl rfl) fun hs => absurd hF (hs.2 _)
      · exact ⟨rfl, .inr (.inl hd), fun hs => hs.2 _ hF⟩

/-- What the clean-up of the `finally` does with draft `L`, if there is one. -/
structure Discarded (F : Req → Prop) (x : IpId) (sc sc' : Scene) : Prop where
  kept : sc'.kept = sc.kept ∨ ∃ L ip ip', sc.draft = some L ∧ L.ips x = some ip ∧
    Cleaned F ip ip' ∧ sc'.kept = L.putIp ip'
  smooth : Smooth F → ∀ L ip, sc.draft = some L → L.ips x = some ip → (∀ a, ¬ L.ActiveOn x a) →
    (ip.status = .released → sc'.kept = sc.kept ∧ sc'.cloud = sc.cloud) ∧
    (ip.status ≠ .released → (∃ ip', Cleaned F ip ip' ∧ sc'.kept = L.putIp ip') ∧
      sc'.cloud = ip.cleaned sc.cloud)

theorem Discarded.of_not_smooth {sc' : Scene} (hkept : sc'.kept = sc.kept) (h : ¬ Smooth F) :
    Discarded F x sc sc' := ⟨.inl hkept, fun hs => absurd hs h⟩

theorem finalCleanup_plays (x : IpId) :
    Plays F sc (finalCleanup x) (fun _ => Discarded F x sc) (fun _ => Discarded F x sc) := by
  unfold finalCleanup
  refine Plays.bind (Plays.succeeds ?_)
  suffices h : Plays F sc (discardNewIp x) (fun _ => Discarded F x sc) fun _ =>
    Discarded F x sc from
    h.mono (fun _ _ h => Plays.pure h) fun _ _ h => ⟨Plays.pure h, h⟩
  have hdb : ∀ sc' : Scene, DbFails F → sc'.kept = sc.kept → Discarded F x sc sc' :=
    fun _ hF hkept => .of_not_smooth hkept fun hs => hs.1 hF
  unfold discardNewIp
  cases hd : sc.draft with
  | none =>
      refine Plays.bind (Plays.execute_broken hd ⟨.inl rfl, fun _ L _ h => ?_⟩)
      rw [hd] at h
      cases h
  | some L =>
  -- Nothing done is right when there is nothing to do.
  have hnothing : ∀ sc' : Scene, sc'.kept = sc.kept → sc'.cloud = sc.cloud →
      (∀ ip, L.ips x = some ip → ip.status ≠ .released → ∃ a, L.ActiveOn x a) →
      Discarded F x sc sc' := by
    refine fun sc' hkept hcloud hno => ⟨.inl hkept, fun _ L' ip hd' hip hfree => ?_⟩
    obtain rfl : L = L' := Option.some_inj.mp (hd.symm.trans hd')
    refine ⟨fun _ => ⟨hkept, hcloud⟩, fun hst => ?_⟩
    obtain ⟨a, ha⟩ := hno ip hip hst
    exact absurd ha (hfree a)
  refine Plays.bind (Plays.execute hd (fun rows hrows => ?_) fun hF _ _ => hdb _ hF rfl)
  have hactive : ∀ a rows', rows = a :: rows' → ∃ a, L.ActiveOn x a := by
    rintro a rows' rfl
    exact ⟨a, (hrows.mem a).mp List.mem_cons_self⟩
  refine Plays.bind ?_
  match rows, hactive with
  | [], _ =>
      refine Plays.pure (Plays.bind (Plays.execute hd (fun y hy => ?_) fun hF _ _ => hdb _ hF rfl))
      cases y with
      | none =>
          refine Plays.pure (hnothing sc rfl rfl fun ip hip => ?_)
          cases hip.symm.trans hy.symm
      | some ip =>
          have hip : L.ips x = some ip := hy.symm
          have hself : L.ips ip.id = some ip := by rw [L.ip_id _ _ hip, hip]
          show Plays F sc (if _ then _ else _) _ _
          split
          · next hst =>
              refine Plays.bind ((cleanupNewIp_plays hd hself).mono ?_ ?_)
              · rintro _ sc₁ ⟨hkept, ⟨ip', hclean, hdraft⟩, hcloud⟩
                refine Plays.commit hdraft ⟨.inr ⟨L, ip, ip', hd, hip, hclean, rfl⟩, ?_⟩
                  fun hF _ _ => hdb _ hF hkept
                intro hs L' ip'' hd' hip'' _
                obtain rfl : L = L' := Option.some_inj.mp (hd.symm.trans hd')
                obtain rfl : ip = ip'' := Option.some_inj.mp (hip.symm.trans hip'')
                exact ⟨fun h => absurd h hst, fun _ => ⟨⟨ip', hclean, rfl⟩, hcloud hs⟩⟩
              · rintro _ sc₁ ⟨hkept, _, hs⟩
                exact .of_not_smooth hkept hs
          · next hst =>
              refine Plays.pure (hnothing sc rfl rfl fun ip' hip' hst' => ?_)
              obtain rfl : ip = ip' := Option.some_inj.mp (hip.symm.trans hip')
              exact absurd (not_not.mp hst) hst'
  | [a], hactive =>
      exact Plays.pure (Plays.pure (hnothing sc rfl rfl fun _ _ _ => hactive a [] rfl))
  | a :: a' :: rows, hactive =>
      exact Plays.raise (hnothing sc rfl rfl fun _ _ _ => hactive a (a' :: rows) rfl)

end Cleanup

/-! ## The phases -/

section Phases

variable {F : Req → Prop} {sc : Scene} {α : Type} {b : BrokerId} {force : Bool} {r : Rotation}

/-- The rotation has found the active assignment and its IP, and has a new IP. -/
structure Begun (b : BrokerId) (force : Bool) (sc : Scene) (r : Rotation) (sc' : Scene) : Prop where
  broker : r.broker = b
  forced : r.force = force
  active : sc.kept.ActiveFor b r.oldAssignment
  oldIp : sc.kept.ips r.oldAssignment.staticIpId = some r.oldIp
  allocated : Allocated r.oldIp.region sc r.newIp sc'

theorem beginRotation_plays (hd : sc.draft = some sc.kept) :
    Plays F sc (beginRotation b force)
      (fun r sc' => sc'.draft = some sc'.kept ∧ Begun b force sc r sc')
      (fun _ sc' => ∃ region, AllocateRaised region sc sc') := by
  have hsame : ∀ sc' : Scene, sc'.kept = sc.kept → sc'.cloud = sc.cloud →
      ∃ region, AllocateRaised region sc sc' := fun sc' hkept hcloud =>
    ⟨"", .inl ⟨hkept, hcloud ▸ Cloud.Grows.rfl'⟩⟩
  unfold beginRotation
  refine Plays.bind (Plays.execute hd (fun broker _ => ?_) fun _ _ _ => hsame _ rfl rfl)
  cases broker with
  | none => exact Plays.raise (hsame _ rfl rfl)
  | some broker =>
  refine Plays.bind (Plays.execute hd (fun y hy => ?_) fun _ _ _ => hsame _ rfl rfl)
  cases y with
  | none => exact Plays.raise (hsame _ rfl rfl)
  | some y =>
      obtain ⟨a, ip⟩ := y
      refine Plays.bind ((allocateIp_plays hd).mono ?_ fun _ _ h => ⟨ip.region, h⟩)
      rintro newIp sc' ⟨hdraft, h⟩
      exact Plays.pure ⟨hdraft, rfl, rfl, hy.1, hy.2, h⟩

/-- Where the new IP is, after `attachToOld`: the row, the ledger and the provider's IPs. -/
inductive Placed (r : Rotation) (L : Ledger) (C : Cloud) : StaticIp → Ledger → Cloud → Prop
  | apart : Placed r L C r.newIp L C
  | attached {i : InstanceId} {inst : Instance} (hi : r.oldIp.instanceId = some i)
      (hinst : L.instances i = some inst) (halive : inst.status ≠ .destroyed) :
      Placed r L C (r.newIp.attachedTo i) (L.putIp (r.newIp.attachedTo i))
        ((InfraCall.attachIp r.newIp.externalId inst.externalId).onCloud C)

/-- The old IP's instance, if it has one that is not gone. -/
def Ledger.holder (L : Ledger) (ip : StaticIp) : Option InstanceId :=
  ip.instanceId.filter fun i => (L.instances i).any fun inst => inst.status ≠ .destroyed

theorem Scene.Settled.ready {sc : Scene} (h : sc.Settled F) (hs : Smooth F) :
    sc.draft = some sc.kept := h.resolve_right fun h => hs.1 h.1

theorem attachToOld_plays (hd : sc.draft = some sc.kept)
    (hnew : sc.kept.ips r.newIp.id = some r.newIp) :
    Plays F sc (attachToOld r.newIp r.oldIp.instanceId)
      (fun y sc' => sc'.draft = some sc'.kept ∧ Placed r sc.kept sc.cloud y sc'.kept sc'.cloud ∧
        y.instanceId = (sc.kept.holder r.oldIp).or r.newIp.instanceId)
      (fun _ sc' => sc'.Settled F ∧
        ∃ y C, Placed r sc.kept sc.cloud y sc'.kept C ∧ (Smooth F → sc'.cloud = C)) := by
  have hapart : ∀ sc' : Scene, sc'.kept = sc.kept → (Smooth F → sc'.cloud = sc.cloud) →
      sc'.Settled F → sc'.Settled F ∧
        ∃ y C, Placed r sc.kept sc.cloud y sc'.kept C ∧ (Smooth F → sc'.cloud = C) :=
    fun sc' hkept hcloud hset => ⟨hset, r.newIp, sc.cloud, hkept ▸ .apart, hcloud⟩
  have hstay : sc.kept.holder r.oldIp = none →
      sc.draft = some sc.kept ∧ Placed r sc.kept sc.cloud r.newIp sc.kept sc.cloud ∧
        r.newIp.instanceId = (sc.kept.holder r.oldIp).or r.newIp.instanceId := by
    intro hnone
    rw [hnone, Option.none_or]
    exact ⟨hd, .apart, rfl⟩
  cases hi : r.oldIp.instanceId with
  | none =>
      refine Plays.pure (hstay ?_)
      rw [Ledger.holder, hi]
      rfl
  | some i =>
  refine Plays.bind (Plays.execute hd (fun y hy => ?_)
    fun hF _ _ => hapart _ rfl (fun _ => rfl) (.inr ⟨hF, rfl⟩))
  have hinst : sc.kept.instances i = y := hy.symm
  cases y with
  | none =>
      refine Plays.pure (hstay ?_)
      rw [Ledger.holder, hi, Option.filter_some, hinst]
      rfl
  | some inst =>
      show Plays F sc (if _ then _ else _) _ _
      split
      · next halive =>
          have hid : inst.id = i := sc.kept.instance_id _ _ hinst
          have hholder : sc.kept.holder r.oldIp = some i := by
            rw [Ledger.holder, hi, Option.filter_some, hinst]
            simp [halive]
          rw [hid]
          -- The IP and the instance that `attach` finds are these.
          have hfound : ∀ ip inst' sc', Attached r.newIp.id i sc ip inst' sc' →
              ip = r.newIp ∧ Placed r sc.kept sc.cloud
                (r.newIp.attachedTo i) sc'.kept sc'.cloud := by
            intro ip inst' sc' h
            obtain rfl : ip = r.newIp := Option.some_inj.mp (h.found.symm.trans hnew)
            refine ⟨rfl, ?_⟩
            rw [h.kept, h.cloud]
            exact .attached hi h.holder h.alive
          refine (attachIp_plays hd).mono ?_ ?_
          · rintro _ sc' ⟨ip, inst', h, rfl, hdraft⟩
            obtain ⟨rfl, hplaced⟩ := hfound _ _ _ h
            refine ⟨hdraft, hplaced, ?_⟩
            rw [hholder]
            rfl
          · rintro _ sc' ⟨h | ⟨hF, hkept⟩ | ⟨ip, inst', h⟩, hset⟩
            · exact hapart sc' h.kept (fun _ => h.cloud) hset
            · exact hapart sc' hkept (fun hs => absurd hF hs.1) hset
            · exact ⟨hset, _, _, (hfound _ _ _ h).2, fun _ => rfl⟩
      · next halive =>
          refine Plays.pure (hstay ?_)
          rw [Ledger.holder, hi, Option.filter_some, hinst]
          simpa using halive

theorem aside_fetchWhitelist (b : BrokerId) : (Req.fetchWhitelist b).Aside :=
  ⟨fun e w => Env.answer_aside e _ w w () rfl, fun e w => Env.answer_aside e _ w w () rfl,
    fun e w => Env.answer_aside e _ w w () rfl, fun _ _ => rfl⟩

theorem aside_sleep : Req.sleep.Aside :=
  ⟨fun e w => Env.answer_aside e _ w w () rfl, fun e w => Env.answer_aside e _ w w () rfl,
    fun e w => Env.answer_aside e _ w w () rfl, fun _ _ => rfl⟩

theorem aside_drainPolls (t : Int) : (Req.drainPolls t).Aside :=
  ⟨fun _ _ => rfl, fun _ _ => rfl, fun _ _ => rfl, fun _ _ => rfl⟩

/-- The whitelist is synchronised, or not; either way the ledger is as it was. -/
theorem whitelistSync_plays (hd : sc.draft = some sc.kept) :
    Plays F sc (succeeds (whitelistSync b))
      (fun _ sc' => sc' = sc ∨ DbFails F ∧ sc' = sc.broken)
      (fun _ sc' => sc'.Same sc ∧ sc'.Settled F) := by
  have hstay : ∀ e : Exn, (sc = sc ∨ DbFails F ∧ sc = sc.broken) ∧ sc.Same sc ∧ sc.Settled F :=
    fun _ => ⟨.inl rfl, Scene.Same.rfl', .inl hd⟩
  have hbreak : ∀ hF : DbFails F, (sc.broken = sc ∨ DbFails F ∧ sc.broken = sc.broken) ∧
      sc.broken.Same sc ∧ sc.broken.Settled F :=
    fun hF => ⟨.inr ⟨hF, rfl⟩, ⟨rfl, rfl⟩, .inr ⟨hF, rfl⟩⟩
  refine Plays.succeeds ?_
  unfold whitelistSync
  refine Plays.bind (Plays.execute hd (fun broker _ => ?_) fun hF _ _ => hbreak hF)
  cases broker with
  | none => exact Plays.raise (hstay (.other ""))
  | some broker =>
  refine Plays.bind (Plays.getProvider hd ?_ fun hF _ _ => hbreak hF)
  refine Plays.bind (Plays.await (aside_fetchWhitelist b) (P := fun _ => True)
    (fun _ _ => trivial) fun x _ => ?_)
  refine Plays.bind (Plays.ofAnswer (fun _ _ => ?_) fun e _ => hstay e)
  refine Plays.bind (Plays.execute hd (fun _ _ => ?_) fun hF _ _ => hbreak hF)
  refine Plays.bind (Plays.commit hd ?_ fun hF _ _ => hbreak hF)
  exact Plays.execute hd (fun _ _ => .inl rfl) fun hF _ _ => hbreak hF

def IpAssignment.drainingNow (a : IpAssignment) : IpAssignment := { a with status := .draining }

/-- The ledger has the rotation's objects. -/
structure Rotation.In (r : Rotation) (L : Ledger) : Prop where
  assignment : L.assignments r.oldAssignment.id = some r.oldAssignment
  oldIp : L.ips r.oldIp.id = some r.oldIp
  newIp : L.ips r.newIp.id = some r.newIp
  apart : r.newIp.id ≠ r.oldIp.id

theorem Begun.in' {sc' : Scene} (h : Begun b force sc r sc') : r.In sc'.kept := by
  have hold : sc.kept.ips r.oldIp.id = some r.oldIp := by
    rw [sc.kept.ip_id _ _ h.oldIp, h.oldIp]
  have hapart : r.oldIp.id ≠ r.newIp.id := by
    intro heq
    rw [heq, h.allocated.new.id.ip] at hold
    cases hold
  constructor
  · rw [h.allocated.kept]
    exact h.active.1
  · rw [h.allocated.kept]
    exact (Function.update_of_ne hapart ..).trans hold
  · rw [h.allocated.kept]
    exact Function.update_self ..
  · exact hapart.symm

theorem Placed.assignments {L L' : Ledger} {C C' : Cloud} {ip : StaticIp}
    (h : Placed r L C ip L' C') : L'.assignments = L.assignments := by
  cases h <;> rfl

theorem Placed.in' {L L' : Ledger} {C C' : Cloud} {ip : StaticIp} (h : Placed r L C ip L' C')
    (hin : r.In L) : ip.id = r.newIp.id ∧ L'.ips ip.id = some ip ∧
      L'.ips r.oldIp.id = some r.oldIp := by
  cases h with
  | apart => exact ⟨rfl, hin.newIp, hin.oldIp⟩
  | attached =>
      exact ⟨rfl, Function.update_self ..,
        (Function.update_of_ne hin.apart.symm ..).trans hin.oldIp⟩

/-- The old assignment drains; the new IP is where it is going to be. -/
structure Drains (r : Rotation) (sc : Scene) (r' : Rotation) (sc' : Scene) : Prop where
  same : r' = { r with oldAssignment := r.oldAssignment.drainingNow, newIp := r'.newIp }
  placed : ∃ L, Placed r sc.kept sc.cloud r'.newIp L sc'.cloud ∧
    sc'.kept = L.putAssignment r.oldAssignment.drainingNow
  holder : r'.newIp.instanceId = (sc.kept.holder r.oldIp).or r.newIp.instanceId

/-- The rotation has stopped before the assignment drains. -/
structure Undrained (F : Req → Prop) (r : Rotation) (sc sc' : Scene) : Prop where
  settled : sc'.Settled F
  placed : ∃ y C, Placed r sc.kept sc.cloud y sc'.kept C ∧ (Smooth F → sc'.cloud = C)

theorem startDraining_plays (hd : sc.draft = some sc.kept) (hin : r.In sc.kept) :
    Plays F sc (startDraining r)
      (fun y sc' => sc'.draft = some sc'.kept ∧ Drains r sc y.1 sc')
      (fun _ sc' => Undrained F r sc sc') := by
  have hstop : ∀ sc' : Scene, sc'.kept = sc.kept → sc'.cloud = sc.cloud → sc'.Settled F →
      Undrained F r sc sc' := fun _ hkept hcloud hset =>
    ⟨hset, r.newIp, sc.cloud, hkept ▸ .apart, fun _ => hcloud⟩
  unfold startDraining
  refine Plays.bind (Plays.assertReuseAllowed hd (fun t _ => ?_)
    (fun t _ _ _ _ _ _ => hstop _ rfl rfl (.inl hd))
    fun hF t _ _ => hstop _ rfl rfl (.inr ⟨hF, rfl⟩))
  refine Plays.bind (Plays.execute hd (fun a ha => ?_)
    fun hF _ _ => hstop _ rfl rfl (.inr ⟨hF, rfl⟩))
  obtain rfl : a = some r.oldAssignment := ha.trans hin.assignment
  refine Plays.bind (Plays.pure (Plays.bind (Plays.execute hd (fun ip hip => ?_)
    fun hF _ _ => hstop _ rfl rfl (.inr ⟨hF, rfl⟩))))
  obtain rfl : ip = some r.oldIp := hip.trans hin.oldIp
  refine Plays.bind (Plays.pure (Plays.bind ?_))
  have hdraft : (sc.reads t).draft = some (sc.reads t).kept := hd
  have hnew : (sc.reads t).kept.ips r.newIp.id = some r.newIp := hin.newIp
  refine (attachToOld_plays hdraft hnew).mono ?_ ?_
  swap
  · rintro _ sc' ⟨hset, hplaced⟩
    exact ⟨hset, hplaced⟩
  rintro newIp sc₂ ⟨hd₂, hplaced, hholder⟩
  have hstop₂ : ∀ sc' : Scene, sc'.kept = sc₂.kept → sc'.cloud = sc₂.cloud → sc'.Settled F →
      Undrained F r sc sc' := fun sc' hkept hcloud hset =>
    ⟨hset, newIp, sc₂.cloud, hkept ▸ hplaced, fun _ => hcloud⟩
  have hself : sc₂.kept.assignments r.oldAssignment.id = some r.oldAssignment := by
    rw [hplaced.assignments]
    exact hin.assignment
  refine Plays.bind ((whitelistSync_plays hd₂).mono ?_ ?_)
  swap
  · rintro _ sc' ⟨hsame, hset⟩
    exact hstop₂ sc' hsame.kept.symm hsame.cloud.symm hset
  rintro whitelistOk sc₃ (rfl | ⟨hF, rfl⟩)
  · unfold reselect
    refine Plays.bind (Plays.bind (Plays.execute hd₂ (fun y hy => ?_)
      fun hF _ _ => hstop₂ _ rfl rfl (.inr ⟨hF, rfl⟩)))
    obtain rfl : y = some r.oldAssignment := hy.trans hself
    refine Plays.pure (Plays.bind (Plays.assignAssignment hd₂ hself (Plays.bind (Plays.commit rfl
      (Plays.pure ⟨rfl, rfl, ⟨sc₃.kept, hplaced, rfl⟩, hholder⟩) ?_))))
    exact fun hF _ _ => hstop₂ _ rfl rfl (.inr ⟨hF, rfl⟩)
  · unfold reselect
    exact Plays.bind (Plays.bind (Plays.execute_broken rfl
      (hstop₂ _ rfl rfl (.inr ⟨hF, rfl⟩))))

/-! ## The drain -/

theorem drainLoop_plays {L : Ledger} {x : IpId} (hd : sc.draft = some L) (n : Nat) :
    Plays F sc (drainLoop x n)
      (fun drained sc' => sc' = sc ∧ (drained = true ↔ L.inflight x = 0))
      (fun _ sc' => sc' = sc ∨ DbFails F ∧ sc' = sc.broken) := by
  have hcount : ∀ {Q : Nat → Scene → Prop}, Q (L.inflight x) sc →
      Plays F sc (countInflight x) Q fun _ sc' => sc' = sc ∨ DbFails F ∧ sc' = sc.broken :=
    fun hQ => Plays.execute hd (fun y hy => (show y = L.inflight x from hy) ▸ hQ)
      fun hF _ _ => .inr ⟨hF, rfl⟩
  induction n with
  | zero => exact Plays.bind (hcount (Plays.pure ⟨rfl, by simp⟩))
  | succ n ih =>
      refine Plays.bind (hcount ?_)
      split
      · next hzero => exact Plays.pure ⟨rfl, by simp [hzero]⟩
      · refine Plays.bind (Plays.await aside_sleep (P := fun _ => True) (fun _ _ => trivial)
          fun x _ => Plays.bind (Plays.ofAnswer (fun _ _ => ih) fun _ _ => .inl rfl))

/-- The drain was not over in time, and nothing forces the rotation. -/
structure Unfinished (r : Rotation) (L : Ledger) : Prop where
  inflight : L.inflight r.oldIp.id ≠ 0
  unforced : r.force = false
  policy : Text.upper (L.config.onTimeout.getD "ABORT") ≠ "FORCE"

/-- The ledger after the abort. -/
def Rotation.aborted (r : Rotation) (L : Ledger) (ip : StaticIp) : Ledger :=
  (L.putIp ip).putAssignment { r.oldAssignment with status := .active }

/-- How the abort leaves things: in the middle of the clean-up; before its commit; or
with everything put back. -/
inductive Aborting (F : Req → Prop) (r : Rotation) (L : Ledger) (sc sc' : Scene) : Prop
  | half (kept : sc'.kept = L) (draft : HalfCleaned r.newIp L sc'.draft) (rough : ¬ Smooth F)
  | done (ip : StaticIp) (clean : Cleaned F r.newIp ip) (kept : sc'.kept = r.aborted L ip)
      (settled : sc'.Settled F) (cloud : Smooth F → sc'.cloud = r.newIp.cleaned sc.cloud)

theorem abortRotation_plays {Q : Unit → Scene → Prop} (hd : sc.draft = some sc.kept)
    (ha : sc.kept.assignments r.oldAssignment.id = some r.oldAssignment)
    (hip : sc.kept.ips r.newIp.id = some r.newIp) :
    Plays F sc (abortRotation r) Q (fun _ sc' => Aborting F r sc.kept sc sc') := by
  unfold abortRotation
  refine Plays.bind ((cleanupNewIp_plays hd hip).mono ?_ ?_)
  swap
  · rintro _ sc' ⟨hkept, hhalf, hs⟩
    exact .half hkept hhalf hs
  rintro _ sc₁ ⟨hkept, ⟨ip, hclean, hdraft⟩, hcloud⟩
  refine Plays.bind (Plays.assignAssignment hdraft ha (Plays.bind (Plays.commit rfl ?_ ?_)))
  swap
  · exact fun hF _ _ => .half hkept (.inl rfl) fun hs => hs.1 hF
  refine Plays.bind (Plays.execute rfl (fun _ _ => ?_) fun hF _ _ => ?_)
  · exact Plays.raise (.done ip hclean rfl (.inl rfl) hcloud)
  · exact .done ip hclean rfl (.inr ⟨hF, rfl⟩) hcloud

/-- The rotation goes on: the old IP has drained, or its orders do not matter. -/
structure Drained (r : Rotation) (L : Ledger) (drained : Bool) : Prop where
  timeout : L.config.drainTimeoutSeconds ≠ some .bad
  inflight : drained = true ↔ L.inflight r.oldIp.id = 0
  forced : drained = true ∨ r.force = true ∨
    Text.upper (L.config.onTimeout.getD "ABORT") = "FORCE"

theorem drain_plays (hd : sc.draft = some sc.kept)
    (ha : sc.kept.assignments r.oldAssignment.id = some r.oldAssignment)
    (hip : sc.kept.ips r.newIp.id = some r.newIp) :
    Plays F sc (drain r) (fun drained sc' => sc' = sc ∧ Drained r sc.kept drained)
      (fun _ sc' => sc' = sc ∨ DbFails F ∧ sc' = sc.broken ∨
        Unfinished r sc.kept ∧ Aborting F r sc.kept sc sc') := by
  unfold drain drainTimeout onTimeoutPolicy
  refine Plays.bind (Plays.bind (Plays.execute hd (fun config hconfig => ?_)
    fun hF _ _ => .inr (.inl ⟨hF, rfl⟩)))
  obtain rfl : config = sc.kept.config := hconfig
  -- From here on the timeout parses.
  have hrest : sc.kept.config.drainTimeoutSeconds ≠ some .bad → ∀ timeout : Int, Plays F sc
      (do
        let onTimeout ← (do
          let config ← execute .config
          pure (Text.upper (config.onTimeout.getD "ABORT")))
        let polls ← await (.drainPolls (max 0 timeout))
        let drained ← drainLoop r.oldIp.id polls
        if !drained ∧ !r.force ∧ onTimeout ≠ "FORCE" then
          abortRotation r
          pure drained
        else pure drained)
      (fun drained sc' => sc' = sc ∧ Drained r sc.kept drained)
      (fun _ sc' => sc' = sc ∨ DbFails F ∧ sc' = sc.broken ∨
        Unfinished r sc.kept ∧ Aborting F r sc.kept sc sc') := by
    intro htimeout timeout
    refine Plays.bind (Plays.bind (Plays.execute hd (fun config hconfig => ?_)
      fun hF _ _ => .inr (.inl ⟨hF, rfl⟩)))
    obtain rfl : config = sc.kept.config := hconfig
    refine Plays.pure (Plays.bind (Plays.await (aside_drainPolls _) (P := fun _ => True)
      (fun _ _ => trivial) fun polls _ => Plays.bind ((drainLoop_plays hd polls).mono ?_ ?_)))
    swap
    · rintro _ sc' (rfl | h)
      · exact .inl rfl
      · exact .inr (.inl h)
    rintro drained sc' ⟨rfl, hinflight⟩
    split
    · next hundone =>
        obtain ⟨hdrained, hforce, hpolicy⟩ := hundone
        refine Plays.bind ((abortRotation_plays (Q := fun _ _ => False) hd ha hip).mono
          (fun _ _ h => h.elim) fun _ sc'' h =>
            .inr (.inr ⟨⟨?_, by simpa using hforce, hpolicy⟩, h⟩))
        intro hzero
        rw [hinflight.mpr hzero] at hdrained
        cases hdrained
    · next hgo =>
        refine Plays.pure ⟨rfl, htimeout, hinflight, ?_⟩
        cases drained with
        | true => exact .inl rfl
        | false =>
            cases hforce : r.force with
            | true => exact .inr (.inl rfl)
            | false =>
                rw [hforce] at hgo
                exact .inr (.inr (not_not.mp fun hpolicy => hgo ⟨rfl, rfl, hpolicy⟩))
  split
  · next x hx =>
      cases x with
      | value n => exact Plays.pure (hrest (by rw [hx]; exact nofun) n)
      | bad => exact Plays.raise (.inl rfl)
  · next hx => exact Plays.pure (hrest (by rw [hx]; exact nofun) 30)

/-! ## The cutover -/

/-- The old IP after a rotation. -/
def StaticIp.retired (ip : StaticIp) : StaticIp :=
  { ip with
    instanceId := if ip.status = .attached then none else ip.instanceId
    status := .released }

/-- An open usage row of the rotated broker on its old IP. -/
def Rotation.Open (r : Rotation) (L : Ledger) (u : BrokerIpUsageHistory) : Prop :=
  L.Usage r.broker r.oldIp.id u ∧ u.releasedAt = none

/-- The old assignment is ended, at this time, and its usage rows are closed. -/
def Rotation.Ends (r : Rotation) (t : Instant) (n : Int) (L L' : Ledger) : Prop :=
  (L.putAssignment (r.oldAssignment.endedAt t)).Closes t (t + n * hour) (r.Open L) L'

def Rotation.newAssignment (r : Rotation) (i : AssignmentId) : IpAssignment where
  id := i
  clientId := r.oldAssignment.clientId
  brokerAccountId := r.broker
  staticIpId := r.newIp.id

def Rotation.newUsage (r : Rotation) (i : HistoryId) (t : Instant) : BrokerIpUsageHistory where
  id := i
  brokerAccountId := r.broker
  staticIpId := r.newIp.id
  usedAt := t

/-- What the cutover commits; `t` is the time it has read and `n` the cooldown. -/
structure CutOver (F : Req → Prop) (s : Settings) (r : Rotation) (drained whitelistOk : Bool)
    (sc : Scene) (t : Instant) (n : Int) (L' : Ledger) (a : IpAssignment)
    (u : BrokerIpUsageHistory) (sc' : Scene) : Prop where
  cooldown : sc.kept.config.cooldown s = some n
  time : t ∈ sc'.readings
  ends : r.Ends t n sc.kept L'
  row : a = r.newAssignment a.id
  usage : u = r.newUsage u.id t
  new : sc.kept.assignments a.id = none ∧ sc.kept.history u.id = none
  kept : sc'.kept = (((L'.putIp r.oldIp.retired).putAssignment a).putHistory u).announce
    (.ipRotated r.oldAssignment.clientId r.broker r.oldIp.id r.newIp.id r.oldIp.ipAddress
      r.newIp.ipAddress r.force drained whitelistOk)
  cloud : Smooth F → sc'.cloud = if r.oldIp.status = .attached then
    (InfraCall.detachIp r.oldIp.externalId).onCloud sc.cloud else sc.cloud

/-- The cutover has been cancelled with the end of the old assignment pending. -/
structure HalfCut (F : Req → Prop) (s : Settings) (r : Rotation) (sc : Scene) (t : Instant)
    (n : Int) (L' : Ledger) (sc' : Scene) : Prop where
  cooldown : sc.kept.config.cooldown s = some n
  time : t ∈ sc'.readings
  ends : r.Ends t n sc.kept L'
  kept : sc'.kept = sc.kept
  draft : sc'.draft = some L'
  rough : ¬ Smooth F

/-- How the cutover may raise. -/
def CutRaised (F : Req → Prop) (s : Settings) (r : Rotation) (sc sc' : Scene) : Prop :=
  sc'.kept = sc.kept ∧ sc'.cloud = sc.cloud ∧ sc'.draft = some sc'.kept ∨
  sc'.kept = sc.kept ∧ sc'.draft = none ∧ ¬ Smooth F ∨
  ∃ t n L', HalfCut F s r sc t n L' sc'

theorem detachOld_plays {L : Ledger} {ip : StaticIp} {Q : StaticIp → Scene → Prop}
    {R : Exn → Scene → Prop} (hd : sc.draft = some L) (hip : L.ips ip.id = some ip)
    (hok : ∀ sc' : Scene, sc'.kept = sc.kept → sc'.readings = sc.readings →
      sc'.draft = some (L.putIp { ip with
        instanceId := if ip.status = .attached then none else ip.instanceId }) →
      (Smooth F → sc'.cloud = if ip.status = .attached then
        (InfraCall.detachIp ip.externalId).onCloud sc.cloud else sc.cloud) →
      Q { ip with instanceId := if ip.status = .attached then none else ip.instanceId } sc')
    (hcut : ∀ e, ¬ Smooth F → R e sc) (hdb : DbFails F → ∀ e, R e sc.broken) :
    Plays F sc (detachOld ip) Q R := by
  unfold detachOld
  split
  · next hatt =>
      rw [if_pos hatt] at hok
      refine Plays.bind ?_
      refine Plays.getProvider hd (Plays.bind (Plays.succeeds ?_)) fun hF e _ => hdb hF e
      refine Plays.infra (fun _ => nofun) (fun _ => ?_) fun hF e _ =>
        ⟨?_, hcut e fun hs => hs.2 _ hF⟩
      · exact Plays.assignIp hd hip (hok _ rfl rfl rfl fun _ => (if_pos hatt).symm)
      · exact Plays.assignIp hd hip (hok _ rfl rfl rfl fun hs => absurd hF (hs.2 _))
  · next hatt =>
      rw [if_neg hatt] at hok
      refine Plays.pure (hok sc rfl rfl ?_ fun _ => (if_neg hatt).symm)
      rw [hd]
      exact congrArg some (Ledger.putIp_self hip).symm

theorem cutover_plays (s : Settings) {drained whitelistOk : Bool} (hd : sc.draft = some sc.kept)
    (ha : sc.kept.assignments r.oldAssignment.id = some r.oldAssignment)
    (hip : sc.kept.ips r.oldIp.id = some r.oldIp) :
    Plays F sc (cutover s r drained whitelistOk)
      (fun _ sc' => sc'.draft = some sc'.kept ∧
        ∃ t n L' a u, CutOver F s r drained whitelistOk sc t n L' a u sc')
      (fun _ sc' => CutRaised F s r sc sc') := by
  have hdb : ∀ sc' : Scene, DbFails F → sc'.kept = sc.kept → sc'.draft = none →
      CutRaised F s r sc sc' := fun _ hF hkept hdraft =>
        .inr (.inl ⟨hkept, hdraft, fun hs => hs.1 hF⟩)
  unfold cutover
  refine Plays.bind (Plays.now fun t _ => Plays.bind (Plays.cooldownHours hd (fun n hn => ?_)
    (fun _ _ _ => .inl ⟨rfl, rfl, hd⟩) fun hF _ _ => hdb _ hF rfl rfl))
  refine Plays.bind (Plays.assignAssignment hd ha (Plays.bind (Plays.assignAssignment rfl
    (Function.update_self ..) ?_)))
  have hput : (sc.kept.putAssignment { r.oldAssignment with status := .released }).putAssignment
      (r.oldAssignment.endedAt t) = sc.kept.putAssignment (r.oldAssignment.endedAt t) := by
    ext1
    case assignments => exact Function.update_idem ..
    all_goals rfl
  refine Plays.bind (Plays.execute (congrArg some hput) (fun hist hhist => ?_)
    fun hF _ _ => hdb _ hF rfl rfl)
  have hmem : ∀ u, u ∈ hist ↔ r.Open sc.kept u := hhist.mem
  refine Plays.bind (Plays.closeHistory (congrArg some hput) (fun u hu => ((hmem u).mp hu).1.1)
    hhist.nodup fun L' hL' => ?_)
  have hends : r.Ends t n sc.kept L' := hL'.congr hmem
  have hold : L'.ips r.oldIp.id = some r.oldIp := by
    rw [hL'.ips]
    exact hip
  refine Plays.bind (Plays.execute rfl (fun y hy => ?_) fun hF _ _ => hdb _ hF rfl rfl)
  obtain rfl : y = some r.oldIp := hy.trans hold
  refine Plays.bind (Plays.pure (Plays.bind (detachOld_plays rfl hold ?_
    (fun _ hs => .inr (.inr ⟨t, n, L', hn, ?_, hends, rfl, rfl, hs⟩))
    fun hF _ => hdb _ hF rfl rfl)))
  swap
  · exact List.mem_append_right _ (List.mem_singleton_self t)
  intro sc₁ hkept hread hdraft hcloud
  refine Plays.bind (Plays.assignIp hdraft (Function.update_self ..) ?_)
  have hretire : (L'.putIp { r.oldIp with
      instanceId := if r.oldIp.status = .attached then none else r.oldIp.instanceId }).putIp
      r.oldIp.retired = L'.putIp r.oldIp.retired := putIp_putIp _ _ rfl
  refine Plays.bind (Plays.addAssignment (L := L'.putIp r.oldIp.retired) (congrArg some hretire)
    (fun i hi => ?_) (fun j hj => ?_) fun a u haRow huRow hna hnu => ?_)
  · rw [show (sc₁.drafting _).kept = sc₁.kept from rfl, hkept] at hi
    show L'.assignments i = none
    rw [hL'.assignments]
    refine (Function.update_of_ne ?_ ..).trans hi
    rintro rfl
    cases hi.symm.trans ha
  · rw [show (sc₁.drafting _).kept = sc₁.kept from rfl, hkept] at hj
    refine (hL'.others j fun u hu heq => ?_).trans hj
    have := ((hmem u).mp hu).1.1
    rw [heq] at this
    cases this.symm.trans hj
  refine Plays.bind (Plays.enqueueOutbox rfl (Plays.bind (Plays.commit rfl (Plays.pure ⟨rfl, t, n,
    L', a, u, ?_⟩) ?_)))
  swap
  · exact fun hF _ _ => hdb _ hF hkept rfl
  exact
    { cooldown := hn
      time := by
        show t ∈ sc₁.readings
        rw [hread]
        exact List.mem_append_right _ (List.mem_singleton_self t)
      ends := hends
      row := haRow
      usage := huRow
      new := ⟨hkept ▸ hna, hkept ▸ hnu⟩
      kept := rfl
      cloud := hcloud }

/-! ## The whole rotation -/

/-- Begun, drained and cut over: all that is committed after the new row. -/
structure Moved (F : Req → Prop) (s : Settings) (r : Rotation) (sc : Scene) (r' : Rotation)
    (drained whitelistOk : Bool) (sc₂ : Scene) (t : Instant) (n : Int) (L' : Ledger)
    (a : IpAssignment) (u : BrokerIpUsageHistory) (sc' : Scene) : Prop where
  drains : Drains r sc r' sc₂
  goesOn : Drained r' sc₂.kept drained
  cut : CutOver F s r' drained whitelistOk sc₂ t n L' a u sc'

/-- Where a rotation may raise once the new row is there, before its clean-up. -/
inductive Stopped (F : Req → Prop) (s : Settings) (r : Rotation) (sc sc' : Scene) : Prop
  | undrained (h : Undrained F r sc sc')
  | draining (r' : Rotation) (sc₂ : Scene) (h : Drains r sc r' sc₂) (kept : sc'.kept = sc₂.kept)
      (settled : sc'.draft = some sc'.kept ∨ sc'.draft = none)
      (smooth : Smooth F → sc'.draft = some sc'.kept ∧ sc'.cloud = sc₂.cloud)
  | aborting (r' : Rotation) (sc₂ : Scene) (h : Drains r sc r' sc₂)
        (undone : Unfinished r' sc₂.kept)
      (abort : Aborting F r' sc₂.kept sc₂ sc')
  | cutting (r' : Rotation) (sc₂ : Scene) (t : Instant) (n : Int) (L' : Ledger)
      (h : Drains r sc r' sc₂) (cut : HalfCut F s r' sc₂ t n L' sc')

theorem Drains.holds {sc' : Scene} {r' : Rotation} (h : Drains r sc r' sc') (hin : r.In sc.kept) :
    sc'.kept.assignments r'.oldAssignment.id = some r'.oldAssignment ∧
      sc'.kept.ips r'.newIp.id = some r'.newIp ∧ sc'.kept.ips r'.oldIp.id = some r'.oldIp := by
  obtain ⟨L, hplaced, hkept⟩ := h.placed
  obtain ⟨-, hnew, hold⟩ := hplaced.in' hin
  have hassignment : r'.oldAssignment = r.oldAssignment.drainingNow := by rw [h.same]
  have holdIp : r'.oldIp = r.oldIp := by rw [h.same]
  rw [hkept, hassignment, holdIp]
  exact ⟨Function.update_self .., hnew, hold⟩

theorem moveOver_plays (s : Settings) (hd : sc.draft = some sc.kept) (hin : r.In sc.kept) :
    Plays F sc (moveOver s r)
      (fun y sc' => sc'.draft = some sc'.kept ∧
        ∃ sc₂ t n L' a u, Moved F s r sc y.1 y.2.1 y.2.2.1 sc₂ t n L' a u sc')
      (fun _ sc' => Stopped F s r sc sc') := by
  unfold moveOver
  refine Plays.bind ((startDraining_plays hd hin).mono ?_ fun _ _ h => .undrained h)
  rintro ⟨r', whitelistOk⟩ sc₂ ⟨hd₂, hdrains⟩
  obtain ⟨ha, hnew, hold⟩ := hdrains.holds hin
  refine Plays.bind ((drain_plays hd₂ ha hnew).mono ?_ ?_)
  swap
  · rintro _ sc' (rfl | ⟨hF, rfl⟩ | ⟨hundone, habort⟩)
    · exact .draining r' sc' hdrains rfl (.inl hd₂) fun _ => ⟨hd₂, rfl⟩
    · exact .draining r' sc₂ hdrains rfl (.inr rfl) fun hs => absurd hF hs.1
    · exact .aborting r' sc₂ hdrains hundone habort
  rintro drained _ ⟨rfl, hdrained⟩
  refine Plays.bind ((cutover_plays s hd₂ ha hold).mono ?_ ?_)
  swap
  · rintro _ sc' (⟨hkept, hcloud, hdraft⟩ | ⟨hkept, hdraft, hs⟩ | ⟨t, n, L', hcut⟩)
    · exact .draining r' _ hdrains hkept (.inl hdraft) fun _ => ⟨hdraft, hcloud⟩
    · exact .draining r' _ hdrains hkept (.inr hdraft) fun h => absurd h hs
    · exact .cutting r' _ t n L' hdrains hcut
  rintro id sc' ⟨hd', t, n, L', a, u, hcut⟩
  exact Plays.pure ⟨hd', _, t, n, L', a, u, hdrains, hdrained, hcut⟩

/-- The rotation is done, from beginning to end. -/
structure Rotated (F : Req → Prop) (s : Settings) (b : BrokerId) (force : Bool) (sc : Scene)
    (r : Rotation) (sc₁ : Scene) (r' : Rotation) (drained whitelistOk : Bool) (sc₂ : Scene)
    (t : Instant) (n : Int) (L' : Ledger) (a : IpAssignment) (u : BrokerIpUsageHistory)
    (sc' : Scene) : Prop where
  begun : Begun b force sc r sc₁
  moved : Moved F s r sc₁ r' drained whitelistOk sc₂ t n L' a u sc'

/-- The rotation has raised: before the new row, or after it and its clean-up. -/
inductive Unrotated (F : Req → Prop) (s : Settings) (b : BrokerId) (force : Bool)
    (sc sc' : Scene) : Prop
  | before (region : Region) (h : AllocateRaised region sc sc')
  | after (r : Rotation) (sc₁ sc₂ : Scene) (h : Begun b force sc r sc₁)
        (stop : Stopped F s r sc₁ sc₂)
      (clean : Discarded F r.newIp.id sc₂ sc') (readings : ∀ t ∈ sc₂.readings, t ∈ sc'.readings)

/-- What a rotation leaves that raises. -/
def RotateRaised (F : Req → Prop) (s : Settings) (b : BrokerId) (force : Bool) (sc sc' : Scene) :
    Prop :=
  Unrotated F s b force sc sc' ∨
    ∃ r sc₁ r' drained whitelistOk sc₂ t n L' a u,
      Rotated F s b force sc r sc₁ r' drained whitelistOk sc₂ t n L' a u sc'

theorem rotated_plays {drained whitelistOk : Bool} {i : AssignmentId} {L : Ledger}
    {R : Exn → Scene → Prop} (hd : sc.draft = some L) (hR : ∀ e, R e sc)
    (hdb : ∀ e, R e sc.broken) :
    Plays F sc (rotated r drained whitelistOk i)
      (fun y sc' => sc' = sc ∧ y.drained = drained) R := by
  unfold rotated
  refine Plays.bind (Plays.execute hd (fun y _ => ?_) fun _ e _ => hdb e)
  refine Plays.bind (Plays.refreshed (fun _ _ => ?_) fun _ e _ => hR e)
  refine Plays.bind (Plays.execute hd (fun z _ => ?_) fun _ e _ => hdb e)
  exact Plays.bind (Plays.refreshed (fun _ _ => Plays.pure ⟨rfl, rfl⟩) fun _ e _ => hR e)

theorem rotateLocked_plays (s : Settings) (t : Nat) (hd : sc.draft = some sc.kept) :
    Plays F sc (rotateLocked s b force (releaseLock (.brokerIp b) t))
      (fun y sc' => ∃ r sc₁ r' whitelistOk sc₂ t n L' a u,
        Rotated F s b force sc r sc₁ r' y.drained whitelistOk sc₂ t n L' a u sc')
      (fun _ sc' => RotateRaised F s b force sc sc') := by
  unfold rotateLocked onError
  refine Plays.bind (Plays.catching ((beginRotation_plays hd).mono ?_ ?_))
  swap
  · rintro e sc' ⟨region, h⟩
    have hbefore : RotateRaised F s b force sc sc' := .inl (.before region h)
    exact Plays.bind (Plays.releaseLock (Plays.raise hbefore) fun _ _ => hbefore)
  rintro r sc₁ ⟨hd₁, hbegun⟩
  refine Plays.bind (Plays.catching ((moveOver_plays s hd₁ hbegun.in').mono ?_ ?_))
  swap
  · intro e sc₂ hstop
    have hafter : ∀ sc', (Discarded F r.newIp.id sc₂ sc' ∧ ∀ t ∈ sc₂.readings, t ∈ sc'.readings) →
        RotateRaised F s b force sc sc' :=
      fun sc' h => .inl (.after r sc₁ sc₂ hbegun hstop h.1 h.2)
    refine Plays.bind (Plays.bind ((finalCleanup_plays r.newIp.id).readings.mono (fun _ sc' h => ?_)
      fun _ sc' h => hafter sc' h))
    exact Plays.releaseLock (Plays.raise (hafter sc' h)) fun _ _ => hafter sc' h
  rintro ⟨r', drained, whitelistOk, i⟩ sc' ⟨hd', sc₂, tm, n, L', a, u, hmoved⟩
  -- What is committed is committed, whatever the queries for the result answer.
  have hdone : ∀ sc'' : Scene, sc''.kept = sc'.kept → sc''.cloud = sc'.cloud →
      sc''.readings = sc'.readings →
      Rotated F s b force sc r sc₁ r' drained whitelistOk sc₂ tm n L' a u sc'' :=
    fun sc'' hkept hcloud hread => ⟨hbegun, hmoved.drains, hmoved.goesOn,
      { hmoved.cut with
        time := hread ▸ hmoved.cut.time
        kept := hkept.trans hmoved.cut.kept
        cloud := fun hs => hcloud.trans (hmoved.cut.cloud hs) }⟩
  have hraised : ∀ sc'' : Scene, sc''.kept = sc'.kept → sc''.cloud = sc'.cloud →
      sc''.readings = sc'.readings → RotateRaised F s b force sc sc'' :=
    fun sc'' hkept hcloud hread => .inr ⟨r, sc₁, r', drained, whitelistOk, sc₂, tm, n, L', a, u,
      hdone sc'' hkept hcloud hread⟩
  have hunlock : ∀ sc'' : Scene, RotateRaised F s b force sc sc'' →
      Plays F sc'' (releaseLock (.brokerIp b) t) (fun _ => RotateRaised F s b force sc)
        fun _ => RotateRaised F s b force sc :=
    fun sc'' h => Plays.releaseLock h fun _ _ => h
  refine Plays.finally' ((rotated_plays
    (R := fun _ sc'' => Plays F sc'' (releaseLock (.brokerIp b) t)
      (fun _ => RotateRaised F s b force sc) fun _ => RotateRaised F s b force sc) hd'
    (fun _ => hunlock _ (hraised _ rfl rfl rfl)) fun _ => hunlock _ (hraised _ rfl rfl rfl)).mono
    ?_ fun _ _ h => h)
  rintro y sc'' ⟨rfl, hy⟩
  have hend := hdone sc'' rfl rfl rfl
  rw [← hy] at hend
  exact Plays.releaseLock ⟨r, sc₁, r', whitelistOk, sc₂, tm, n, L', a, u, hend⟩
    fun _ _ => hraised _ rfl rfl rfl

theorem rotate_plays (s : Settings) (hd : sc.draft = some sc.kept) :
    Plays F sc (rotate s b force)
      (fun y sc' => ∃ r sc₁ r' whitelistOk sc₂ t n L' a u,
        Rotated F s b force sc r sc₁ r' y.drained whitelistOk sc₂ t n L' a u sc')
      (fun _ sc' => RotateRaised F s b force sc sc') := by
  have hsame : RotateRaised F s b force sc sc :=
    .inl (.before "" (.inl ⟨rfl, Cloud.Grows.rfl'⟩))
  unfold rotate
  refine Plays.bind (Plays.newId fun token _ => Plays.bind (Plays.acquireLock (fun got => ?_)
    fun _ _ => hsame))
  split
  · exact rotateLocked_plays s token hd
  · exact Plays.raise hsame

end Phases

end BrokerBridge
