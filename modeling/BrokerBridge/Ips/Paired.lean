import BrokerBridge.Ips.Calls

/-!
# An IP is attached when it has an instance

The status of an IP and its instance are two columns. Every operation writes both
before it commits, and the clean-up of a rotation's new IP does so if the provider
detaches it: when `detach_ip` raises there, the row is released and keeps its instance.
Everything else may go wrong.

A call that goes wrong may have left its draft for the clean-up to commit. Of the IPs
only the new one is in it.
-/

namespace BrokerBridge

open Conc

/-- The two columns agree. -/
def StaticIp.Paired (ip : StaticIp) : Prop := ip.status = .attached ↔ ip.instanceId.isSome = true

def Ledger.Paired (L : Ledger) : Prop := ∀ x ip, L.ips x = some ip → ip.Paired

/-- An attached IP names an instance. -/
def StaticIp.Seated (ip : StaticIp) : Prop := ip.status = .attached → ip.instanceId.isSome = true

def Ledger.Seated (L : Ledger) : Prop := ∀ x ip, L.ips x = some ip → ip.Seated

theorem StaticIp.Paired.seated {ip : StaticIp} (h : ip.Paired) : ip.Seated := h.mp

theorem StaticIp.Seated.of_loose {ip : StaticIp} (hst : ip.status ≠ .attached) : ip.Seated :=
  fun h => absurd h hst

theorem paired_row {d : Db} {x : IpId} {ip : StaticIp} (h : d.ledger.Paired)
    (hrow : d.ips.get? x = some ip) : ip.Paired := h x ip hrow

theorem paired_of_rows {d : Db} (h : ∀ ip ∈ d.ips.rows, ip.Paired) : d.ledger.Paired :=
  fun _ ip hip => h ip (Table.get?_eq_some.mp hip).1

theorem StaticIp.Paired.of_loose {ip : StaticIp} (hst : ip.status ≠ .attached)
    (hi : ip.instanceId = none) : ip.Paired := by
  unfold StaticIp.Paired
  rw [hi]
  exact ⟨fun h => absurd h hst, nofun⟩

theorem StaticIp.Paired.loose {ip : StaticIp} (h : ip.Paired) (hst : ip.status ≠ .attached) :
    ip.instanceId = none := by
  have hno : ¬ ip.instanceId.isSome = true := mt h.mpr hst
  rw [Bool.not_eq_true, Option.isSome_eq_false_iff, Option.isNone_iff_eq_none] at hno
  exact hno

theorem rows_update {L L' : Ledger} {x : IpId} {ip : StaticIp} {P : StaticIp → Prop}
    (h : ∀ y ip, L.ips y = some ip → P ip)
    (hips : L'.ips = Function.update L.ips x (some ip)) (hip : P ip) :
    ∀ y ip, L'.ips y = some ip → P ip := by
  intro y ip' hy
  rw [hips, Function.update_apply] at hy
  split at hy
  · cases hy
    exact hip
  · exact h y ip' hy

theorem rows_same {L L' : Ledger} {P : StaticIp → Prop} (h : ∀ y ip, L.ips y = some ip → P ip)
    (hips : L'.ips = L.ips) : ∀ y ip, L'.ips y = some ip → P ip := by
  intro x ip hip
  rw [hips] at hip
  exact h x ip hip

theorem Ledger.Paired.update {L L' : Ledger} {x : IpId} {ip : StaticIp} (h : L.Paired)
    (hips : L'.ips = Function.update L.ips x (some ip)) (hip : ip.Paired) : L'.Paired :=
  rows_update h hips hip

theorem Ledger.Paired.same {L L' : Ledger} (h : L.Paired) (hips : L'.ips = L.ips) : L'.Paired :=
  rows_same h hips

/-! ## The new IP of a rotation -/

section NewIp

variable {F : Req → Prop} {s : Settings} {b : BrokerId} {force : Bool} {sc sc₁ sc' : Scene}
  {r r' : Rotation} {L : Ledger} {ip ip' : StaticIp}

/-- Of the IPs the new one alone is changed, and its resource is what it was. -/
structure Rotation.OnlyNew (r : Rotation) (L L' : Ledger) (ip : StaticIp) : Prop where
  ips : L'.ips = Function.update L.ips r.newIp.id (some ip)
  id : ip.id = r.newIp.id
  externalId : ip.externalId = r.newIp.externalId

theorem Rotation.OnlyNew.putIp {L' : Ledger} (h : r.OnlyNew L L' ip) (hid : ip'.id = ip.id)
    (hext : ip'.externalId = ip.externalId) : r.OnlyNew L (L'.putIp ip') ip' where
  ips := by
    rw [Ledger.ips_putIp, h.ips, hid, h.id, Function.update_idem]
  id := hid.trans h.id
  externalId := hext.trans h.externalId

theorem Rotation.OnlyNew.of_ips {L' L'' : Ledger} (h : r.OnlyNew L L' ip)
    (hips : L''.ips = L'.ips) :
    r.OnlyNew L L'' ip := ⟨hips.trans h.ips, h.id, h.externalId⟩

theorem Cleaned.resource (h : Cleaned F ip ip') :
    ip'.id = ip.id ∧ ip'.externalId = ip.externalId := by
  obtain ⟨i, rfl, -⟩ := h
  exact ⟨rfl, rfl⟩

/-- An IP that the provider would have detached is cleaned up well. -/
theorem Cleaned.paired (h : Cleaned F ip ip') (hF : ¬ F (.infra (.detachIp ip.externalId))) :
    ip'.Paired := by
  obtain ⟨i, rfl, hi | ⟨-, hfail⟩⟩ := h
  · exact .of_loose nofun hi
  · exact absurd hfail hF

theorem Placed.onlyNew {L' : Ledger} {C C' : Cloud} (h : Placed r L C ip L' C')
    (hnew : L.ips r.newIp.id = some r.newIp) (hpaired : r.newIp.Paired) :
    r.OnlyNew L L' ip ∧ ip.Paired := by
  have hL := h.ledger hnew
  obtain ⟨i, st, hip, hsame | ⟨rfl, hi⟩⟩ := h.row
  · rw [hL, hsame]
    exact ⟨⟨rfl, rfl, rfl⟩, hpaired⟩
  · have hid : ip.id = r.newIp.id ∧ ip.externalId = r.newIp.externalId := by
      rw [hip]
      exact ⟨rfl, rfl⟩
    refine ⟨⟨?_, hid.1, hid.2⟩, ?_⟩
    · rw [hL, Ledger.ips_putIp, hid.1]
    · rw [hip]
      exact ⟨fun _ => hi, fun _ => rfl⟩

theorem Drains.onlyNew (h : Drains r sc r' sc') (hnew : sc.kept.ips r.newIp.id = some r.newIp)
    (hpaired : r.newIp.Paired) : r.OnlyNew sc.kept sc'.kept r'.newIp ∧ r'.newIp.Paired := by
  obtain ⟨L, hplaced, hkept⟩ := h.placed
  obtain ⟨honly, hpaired'⟩ := hplaced.onlyNew hnew hpaired
  exact ⟨honly.of_ips (by rw [hkept]; rfl), hpaired'⟩

/-- Where a rotation stops, whatever is committed and whatever is pending. What holds of the new
row when its columns agree, and when it is cleaned up, holds of what is committed. -/
theorem Stopped.onlyNew {P : StaticIp → Prop} (h : Stopped F s r sc sc')
    (hnew : sc.kept.ips r.newIp.id = some r.newIp) (hpaired : r.newIp.Paired)
    (hP : ∀ ip : StaticIp, ip.Paired → P ip)
    (hcleaned : ∀ ip ip', ip.externalId = r.newIp.externalId → Cleaned F ip ip' → P ip') :
    (∃ ip, r.OnlyNew sc.kept sc'.kept ip ∧ P ip) ∧
      ∀ L, sc'.draft = some L → ∃ ip, r.OnlyNew sc.kept L ip := by
  -- Nothing is pending but what is committed.
  have hplain : ∀ y, r.OnlyNew sc.kept sc'.kept y → P y →
      (∀ L, sc'.draft = some L → L = sc'.kept) →
      (∃ ip, r.OnlyNew sc.kept sc'.kept ip ∧ P ip) ∧
        ∀ L, sc'.draft = some L → ∃ ip, r.OnlyNew sc.kept L ip := by
    intro y honly hy hdraft
    refine ⟨⟨y, honly, hy⟩, fun L hL => ⟨y, ?_⟩⟩
    rw [hdraft L hL]
    exact honly
  have hsettled : sc'.Settled F → ∀ L, sc'.draft = some L → L = sc'.kept := by
    rintro (hd | ⟨-, hd⟩) L hL
    · exact Option.some_inj.mp (hL.symm.trans hd)
    · cases hL.symm.trans hd
  cases h with
  | undrained h =>
      obtain ⟨y, C, hplaced, -⟩ := h.placed
      obtain ⟨honly, hy⟩ := hplaced.onlyNew hnew hpaired
      exact hplain y honly (hP y hy) (hsettled h.settled)
  | draining r' sc₂ hdrains hkept hdraft =>
      obtain ⟨honly, hy⟩ := hdrains.onlyNew hnew hpaired
      refine hplain r'.newIp (honly.of_ips (by rw [hkept])) (hP _ hy) fun L hL => ?_
      rcases hdraft with hd | hd
      · exact Option.some_inj.mp (hL.symm.trans hd)
      · cases hL.symm.trans hd
  | aborting r' sc₂ hdrains hundone habort =>
      obtain ⟨honly, hy⟩ := hdrains.onlyNew hnew hpaired
      cases habort with
      | half hkept hhalf =>
          refine ⟨⟨r'.newIp, honly.of_ips (by rw [hkept]), hP _ hy⟩, fun L hL => ?_⟩
          rcases hhalf with hd | hd | hd
          · cases hL.symm.trans hd
          · cases hL.symm.trans hd
            exact ⟨r'.newIp, honly⟩
          · cases hL.symm.trans hd
            exact ⟨_, honly.putIp rfl rfl⟩
      | done ip hclean hkept hset =>
          obtain ⟨hid, hext⟩ := hclean.resource
          refine hplain ip ((honly.putIp hid hext).of_ips ?_)
            (hcleaned _ ip honly.externalId hclean)
            (hsettled hset)
          rw [hkept]
          rfl
  | cutting r' sc₂ t n L' hdrains hcut =>
      obtain ⟨honly, hy⟩ := hdrains.onlyNew hnew hpaired
      refine ⟨⟨r'.newIp, honly.of_ips (by rw [hcut.kept]), hP _ hy⟩, fun L hL => ?_⟩
      cases hL.symm.trans hcut.draft
      exact ⟨r'.newIp, honly.of_ips hcut.ends.ips⟩

/-- And what the clean-up makes of it. -/
theorem Unrotated.rows {P : StaticIp → Prop} (h : Unrotated F s b force sc sc')
    (hrows : ∀ x ip, sc.kept.ips x = some ip → P ip) (hP : ∀ ip : StaticIp, ip.Paired → P ip)
    (hcleaned : ∀ ip ip', sc.kept.Fresh sc.cloud ip.externalId → Cleaned F ip ip' → P ip') :
    ∀ x ip, sc'.kept.ips x = some ip → P ip := by
  cases h with
  | before region h =>
      rcases h with h | ⟨ip, h⟩
      · exact rows_same hrows (by rw [h.kept])
      · refine rows_update hrows (by rw [h.kept]; rfl) (hP ip (.of_loose ?_ h.new.instanceId))
        rw [h.new.status]
        exact nofun
  | after r sc₁ sc₂ hbegun hstop hclean _ =>
      have hnew := hbegun.allocated.new
      have hrow : r.newIp.Paired := .of_loose (by rw [hnew.status]; exact nofun) hnew.instanceId
      have hcleaned' : ∀ ip ip', ip.externalId = r.newIp.externalId → Cleaned F ip ip' → P ip' :=
        fun ip ip' hext => hcleaned ip ip' (hext ▸ hnew.externalId)
      obtain ⟨⟨ip, honly, hip⟩, hdraft⟩ := hstop.onlyNew hbegun.in'.newIp hrow hP hcleaned'
      have hfirst : ∀ x ip, sc₁.kept.ips x = some ip → P ip :=
        rows_update hrows (by rw [hbegun.allocated.kept]; rfl) (hP _ hrow)
      rcases hclean.kept with hkept | ⟨L, ip₁, ip₂, hL, hfound, hclean', hkept⟩
      · exact rows_update hfirst (by rw [hkept, honly.ips]) hip
      · obtain ⟨ip₁', honly'⟩ := hdraft L hL
        have hsame : ip₁' = ip₁ := by
          rw [honly'.ips, Function.update_self] at hfound
          exact Option.some_inj.mp hfound
        rw [hsame] at honly'
        obtain ⟨hid, hext⟩ := hclean'.resource
        have hips := (honly'.putIp hid hext).ips
        rw [← hkept] at hips
        exact rows_update hfirst hips (hcleaned' ip₁ ip₂ honly'.externalId hclean')

theorem Unrotated.paired (h : Unrotated F s b force sc sc') (hpaired : sc.kept.Paired)
    (hF : ∀ i, sc.kept.Fresh sc.cloud i → ¬ F (.infra (.detachIp i))) : sc'.kept.Paired :=
  h.rows hpaired (fun _ => id) fun _ _ hfresh hcleaned => hcleaned.paired (hF _ hfresh)

/-- A row that is cleaned up is released. -/
theorem Unrotated.seated (h : Unrotated F s b force sc sc') (hseated : sc.kept.Seated) :
    sc'.kept.Seated := by
  refine h.rows hseated (fun _ => StaticIp.Paired.seated) ?_
  rintro ip _ _ ⟨i, rfl, -⟩
  exact .of_loose nofun

theorem Rotated.paired {drained whitelistOk : Bool} {sc₂ : Scene} {t : Instant} {n : Int}
    {L' : Ledger} {a : IpAssignment} {u : BrokerIpUsageHistory}
    (h : Rotated F s b force sc r sc₁ r' drained whitelistOk sc₂ t n L' a u sc')
    (hpaired : sc.kept.Paired) : sc'.kept.Paired := by
  have hmoved := h.movedTo (hpaired _ _ h.begun.oldIp)
  intro x ip hip
  by_cases hx : x = r.oldIp.id
  · subst hx
    cases hip.symm.trans hmoved.oldIp
    exact .of_loose nofun rfl
  · by_cases hx' : x = r'.newIp.id
    · subst hx'
      cases hip.symm.trans hmoved.newIp.2.1
      unfold StaticIp.Paired
      rw [hmoved.placed.2, hmoved.placed.1]
    · rw [hmoved.otherIps x hx hx'] at hip
      exact hpaired x ip hip

end NewIp

/-! ## Every call -/

section Calls

variable {s : Settings} {F : Req → Prop} {sc sc' : Scene}

theorem Ended.paired {Done : Scene → Prop} (h : Ended F sc Done sc') (hpaired : sc.kept.Paired)
    (hdone : Done sc' → sc'.kept.Paired) : sc'.kept.Paired := by
  cases h with
  | same h => exact hpaired.same (by rw [h.kept])
  | ahead hF hkept => exact hpaired.same (by rw [hkept])
  | done h => exact hdone h

theorem Allocated.paired {region : Region} {ip : StaticIp} (h : Allocated region sc ip sc')
    (hpaired : sc.kept.Paired) : sc'.kept.Paired := by
  refine hpaired.update (by rw [h.kept]; rfl) (.of_loose ?_ h.new.instanceId)
  rw [h.new.status]
  exact nofun

theorem Assigned.paired {b : BrokerId} {x : IpId} {ip : StaticIp} {a : IpAssignment}
    {u : BrokerIpUsageHistory} (h : Assigned b x sc ip a u sc') (hpaired : sc.kept.Paired) :
    sc'.kept.Paired := by
  have hip := hpaired x ip h.found
  have hkept := h.kept
  unfold Ledger.assigned at hkept
  split at hkept
  · have hrevived : ({ ip with status := .allocated } : StaticIp).Paired :=
      .of_loose nofun (hip.loose h.loose.2)
    exact hpaired.update (by rw [hkept]; rfl) hrevived
  · exact hpaired.same (by rw [hkept]; rfl)

theorem Attached.paired {x : IpId} {i : InstanceId} {ip : StaticIp} {inst : Instance}
    (h : Attached x i sc ip inst sc') (hpaired : sc.kept.Paired) : sc'.kept.Paired :=
  hpaired.update (by rw [h.kept]; rfl) ⟨fun _ => rfl, fun _ => rfl⟩

theorem Detached.paired {x : IpId} {ip : StaticIp} (h : Detached x sc ip sc')
    (hpaired : sc.kept.Paired) : sc'.kept.Paired := by
  have hloose : ip.detached.Paired := .of_loose nofun rfl
  exact hpaired.update (by rw [h.kept]; rfl) hloose

theorem Released.paired {x : IpId} {ip : StaticIp} {t : Instant} {n : Int} {L' : Ledger}
    (h : Released s x sc ip t n L' sc') (hpaired : sc.kept.Paired) : sc'.kept.Paired := by
  have hreleased : ({ ip with status := .released } : StaticIp).Paired :=
    .of_loose nofun ((hpaired x ip h.found).loose h.loose)
  have hips : sc'.kept.ips =
      Function.update sc.kept.ips ip.id (some { ip with status := .released }) := by
    rw [h.kept]
    show Function.update L'.ips ip.id _ = _
    rw [h.ends.ips]
  exact hpaired.update hips hreleased

theorem Call.Ends.paired {c : Call} {x : Except Exn Reply} (h : c.Ends s F sc x sc')
    (hpaired : sc.kept.Paired) (hF : ∀ i, sc.kept.Fresh sc.cloud i → ¬ F (.infra (.detachIp i))) :
    sc'.kept.Paired := by
  rcases h with ⟨y, -, h⟩ | ⟨e, -, h⟩
  · cases c with
    | allocateIp region =>
        cases y with
        | ip ip => exact Allocated.paired h hpaired
        | _ => cases h
    | assign x b c =>
        cases y with
        | assignment a =>
            obtain ⟨ip, a, u, h⟩ := h
            exact h.paired hpaired
        | _ => cases h
    | attach x i =>
        cases y with
        | ip ip =>
            obtain ⟨ip, inst, h⟩ := h
            exact h.paired hpaired
        | _ => cases h
    | detach x =>
        cases y with
        | ip ip =>
            obtain ⟨ip, h⟩ := h
            exact h.paired hpaired
        | _ => cases h
    | release x =>
        cases y with
        | ip ip =>
            obtain ⟨ip, t, n, L', h⟩ := h
            exact h.paired hpaired
        | _ => cases h
    | rotate b force =>
        cases y with
        | rotated y =>
            obtain ⟨r, sc₁, r', ok, sc₂, t, n, L', a, u, h⟩ := h
            exact h.paired hpaired
        | _ => cases h
    | _ => cases h
  · cases c with
    | allocateIp region =>
        rcases h with h | ⟨ip, h⟩
        · exact hpaired.same (by rw [h.kept])
        · exact h.paired hpaired
    | assign x b c =>
        rcases h with h | ⟨-, ip, a, u, h⟩
        · exact hpaired.same (by rw [h.kept])
        · exact h.paired hpaired
    | attach x i => exact Ended.paired h hpaired fun ⟨_, _, h⟩ => h.paired hpaired
    | detach x => exact Ended.paired h hpaired fun ⟨_, h⟩ => h.paired hpaired
    | release x => exact Ended.paired h hpaired fun ⟨_, _, _, _, h⟩ => h.paired hpaired
    | rotate b force =>
        rcases h with h | ⟨r, sc₁, r', drained, ok, sc₂, t, n, L', a, u, h⟩
        · exact h.paired hpaired hF
        · exact h.paired hpaired
    | _ => cases h

theorem Allocated.seated {region : Region} {ip : StaticIp} (h : Allocated region sc ip sc')
    (hseated : sc.kept.Seated) : sc'.kept.Seated := by
  have hip : ip.Seated := .of_loose (by rw [h.new.status]; exact nofun)
  exact rows_update hseated (by rw [h.kept]; rfl) hip

theorem Assigned.seated {b : BrokerId} {x : IpId} {ip : StaticIp} {a : IpAssignment}
    {u : BrokerIpUsageHistory} (h : Assigned b x sc ip a u sc') (hseated : sc.kept.Seated) :
    sc'.kept.Seated := by
  have hkept := h.kept
  unfold Ledger.assigned at hkept
  split at hkept
  · have hrevived : ({ ip with status := .allocated } : StaticIp).Seated := .of_loose nofun
    exact rows_update hseated (by rw [hkept]; rfl) hrevived
  · exact rows_same hseated (by rw [hkept]; rfl)

theorem Attached.seated {x : IpId} {i : InstanceId} {ip : StaticIp} {inst : Instance}
    (h : Attached x i sc ip inst sc') (hseated : sc.kept.Seated) : sc'.kept.Seated := by
  have hip : ({ ip with instanceId := some i, status := .attached } : StaticIp).Seated :=
    fun _ => rfl
  exact rows_update hseated (by rw [h.kept]; rfl) hip

theorem Detached.seated {x : IpId} {ip : StaticIp} (h : Detached x sc ip sc')
    (hseated : sc.kept.Seated) : sc'.kept.Seated := by
  have hloose : ip.detached.Seated := .of_loose nofun
  exact rows_update hseated (by rw [h.kept]; rfl) hloose

theorem Released.seated {x : IpId} {ip : StaticIp} {t : Instant} {n : Int} {L' : Ledger}
    (h : Released s x sc ip t n L' sc') (hseated : sc.kept.Seated) : sc'.kept.Seated := by
  have hreleased : ({ ip with status := .released } : StaticIp).Seated := .of_loose nofun
  have hips : sc'.kept.ips =
      Function.update sc.kept.ips ip.id (some { ip with status := .released }) := by
    rw [h.kept]
    show Function.update L'.ips ip.id _ = _
    rw [h.ends.ips]
  exact rows_update hseated hips hreleased

theorem Rotated.seated {b : BrokerId} {force drained whitelistOk : Bool} {r r' : Rotation}
    {sc₁ sc₂ : Scene} {t : Instant} {n : Int} {L' : Ledger} {a : IpAssignment}
    {u : BrokerIpUsageHistory}
    (h : Rotated F s b force sc r sc₁ r' drained whitelistOk sc₂ t n L' a u sc')
    (hseated : sc.kept.Seated) : sc'.kept.Seated := by
  have hnew : r'.newIp.Seated := h.newIp_holder.2.2.mp
  have hretired : r.oldIp.retired.status ≠ .attached := by
    unfold StaticIp.retired
    split <;> exact nofun
  have hput : (sc.kept.putIp r'.newIp).Seated := rows_update hseated rfl hnew
  exact rows_update hput h.ips (.of_loose hretired)

/-- Whatever fails, every call leaves attached IPs with an instance. -/
theorem Happened.seated {c : Call} (h : Happened s F sc sc' c) (hseated : sc.kept.Seated) :
    sc'.kept.Seated := by
  cases h with
  | same hkept =>
      rw [hkept]
      exact hseated
  | allocated h => exact h.seated hseated
  | assigned h => exact h.seated hseated
  | attached h => exact h.seated hseated
  | detached h => exact h.seated hseated
  | released h => exact h.seated hseated
  | rotated h => exact h.seated hseated
  | unrotated h => exact h.seated hseated

end Calls

/-! ## Runs -/

/-- Whatever has a row in the ledger may fail to be detached, and anything else may fail.
What the call itself has made is detached. -/
def DetachesItsOwn (w : World) (r : Req) : Prop :=
  ∀ ext, r = .infra (.detachIp ext) → ∃ x ip, w.db.ledger.ips x = some ip ∧ ip.externalId = ext

theorem paired_outcome {s : Settings} {c : Call} {env : Nat → Nat × Env} {w : World}
    (hw : w.db.ledger.Paired) (hc : c.onIps = true) (henv : c.Meets s env w (DetachesItsOwn w)) :
    (c.outcome s env w).2.db.ledger.Paired := by
  obtain ⟨sc', hleft, hends⟩ := Call.ends hc henv
  rw [hleft.kept]
  refine hends.paired hw fun i hfresh hF => ?_
  obtain ⟨x, ip, hip, hext⟩ := hF i rfl
  exact hfresh.external x ip hip hext

theorem paired_worldAfter {s : Settings} {w : World} {ds : List Deed} (hw : w.db.ledger.Paired)
    (h : Throughout s (Deed.OnIps s DetachesItsOwn) w ds) :
    (worldAfter s w ds).db.ledger.Paired := by
  induction ds generalizing w with
  | nil => exact hw
  | cons d ds ih =>
      cases d with
      | configure config => exact ih (w := w.configure config) hw h.2
      | call c env => exact ih (paired_outcome hw h.1.1 h.1.2) h.2

/-- After any calls, and at any point of the next. -/
theorem paired_of_run (s : Settings) {w : World} (hw : w.db.ledger.Paired) (ds : List Deed)
    (c : Call) (env : Nat → Nat × Env)
    (h : Throughout s (Deed.OnIps s DetachesItsOwn) w (ds ++ [.call c env])) (n : Nat) :
    (c.partway s env (worldAfter s w ds) n).db.ledger.Paired := by
  obtain ⟨hds, hc, henv⟩ := throughout_append.mp h
  obtain ⟨env', henv', hdb⟩ := exists_halted (fun _ _ => nofun) henv n
  have hend := paired_outcome (paired_worldAfter hw hds) hc henv'
  unfold Call.partway
  rw [← hdb]
  exact hend

/-- The IP is detached from its instance, and the broker moved to another. -/
theorem paired_detached_rotated :
    ((Call.rotate 2 false).partway {} calm (worldAfter {} attachedOnce [.call (.detach 3) calm])
      40).db.ledger.Paired :=
  paired_of_run {}
    (paired_of_rows (by
      unfold StaticIp.Paired
      decide))
    [.call (.detach 3) calm] (.rotate 2 false) calm
    ⟨⟨rfl, meets_calm⟩, ⟨rfl, meets_calm⟩, trivial⟩ 40

/-! ## A clean-up that fails -/

def Req.asksProvider : Req → Bool
  | .infra _ => true
  | _ => false

/-- The calls of the provider may fail, and nothing else. -/
def ProviderFails (_ : World) (r : Req) : Prop := r.asksProvider = true

/-- The columns agree in every committed state, whatever the provider answers. -/
def PairedInRuns (s : Settings) : Prop :=
  ∀ (w : World) (ds : List Deed) (c : Call) (env : Nat → Nat × Env) (n : Nat),
    w.db.ledger.Paired → Throughout s (Deed.OnIps s ProviderFails) w (ds ++ [.call c env]) →
    (c.partway s env (worldAfter s w ds) n).db.ledger.Paired

/-- A broker whose IP is on an instance, with an order that goes through it. -/
def busyOnce : World where
  db :=
    { attachedOnce.db with
      orders := .of
        [{ id := 13, clientId := 1, clientOrderId := "a", symbol := "X", side := "BUY",
           quantity := 1, status := .submitting, staticIpId := some 3 }] }

/-- The drain is over at once, and the provider does not detach the new IP. -/
def undetached (n : Nat) : Nat × Env :=
  (0, { address := "192.0.2.3", fault := if n = 37 then some .failed else none })

theorem meets_of_check {s : Settings} {c : Call} {env : Nat → Nat × Env} {w : World}
    (h : (programOf s c).suitsCheck passing (fun r x => x.2.fault.isNone || r.asksProvider) env w =
      true) : c.Meets s env w (ProviderFails w) := by
  refine Prog.suits_of_check (fun r x hx hfault => ?_) h
  rcases Bool.or_eq_true_iff.mp hx with hnone | hr
  · exact absurd (Option.isNone_iff_eq_none.mp hnone) hfault
  · exact hr

theorem not_pairedInRuns : ¬ PairedInRuns {} := by
  intro h
  have hw : ∀ ip ∈ busyOnce.db.ips.rows, ip.Paired := by
    unfold StaticIp.Paired
    decide
  have hmeets : (Call.rotate 2 false).Meets {} undetached busyOnce (ProviderFails busyOnce) :=
    meets_of_check (by decide +kernel)
  have hrow : ((Call.rotate 2 false).partway {} undetached busyOnce 100).db.ips.get? 16 =
      some { id := 16, externalId := 15, ipAddress := "192.0.2.3", region := "ewr",
             instanceId := some 9, status := .released } := by decide +kernel
  have hpaired : ((Call.rotate 2 false).partway {} undetached busyOnce 100).db.ledger.Paired :=
    h busyOnce [] (.rotate 2 false) undetached 100 (paired_of_rows hw) ⟨⟨rfl, hmeets⟩, trivial⟩
  exact absurd ((paired_row hpaired hrow).mpr rfl) nofun

end BrokerBridge
