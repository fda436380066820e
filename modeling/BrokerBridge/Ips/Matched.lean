import BrokerBridge.Ips.Announced
import BrokerBridge.Ips.Paired

/-!
# The rows and the provider's resources

As long as the database and the provider answer, each row of an IP has its resource at the
provider, under the same address, and one is attached to an instance when the other is.

A release deletes the resource, and so does the clean-up of a rotation's new IP. A
rotation that goes through releases the row of the old IP and leaves its resource. An IP
that is assigned again after its release has a row that is allocated, over a resource that
is deleted still, until it is attached or detached.
-/

namespace BrokerBridge

open Conc

/-- The provider's id of the instance that the IP is on. -/
def Ledger.holderOf (L : Ledger) (ip : StaticIp) : Option ExternalId :=
  ip.instanceId.bind fun i => (L.instances i).map (·.externalId)

/-- A rotation has moved its broker off the IP. -/
def Ledger.RotatedOff (L : Ledger) (x : IpId) : Prop :=
  ∃ e ∈ L.outbox, ∃ c b y old new force drained ok,
    e.payload = .ipRotated c b x y old new force drained ok

/-- An assignment of the IP has not ended. -/
def Ledger.Engaged (L : Ledger) (x : IpId) : Prop :=
  ∃ a, L.assignments a.id = some a ∧ a.staticIpId = x ∧ a.status ≠ .released

/-- The resource is what the row says. -/
structure Ledger.Mirrors (L : Ledger) (ip : StaticIp) (r : CloudIp) : Prop where
  address : r.ipAddress = ip.ipAddress
  paired : ip.Paired
  attached : ip.status = .attached ↔ r.status = .attached
  holder : r.instanceExternalId = L.holderOf ip
  detached : ip.status = .detached → r.status = .detached
  released : ip.status = .released → r.status = .released ∨ L.RotatedOff ip.id
  deleted : r.status = .released → ip.status = .released ∨ ip.status = .allocated ∧ L.Engaged ip.id

/-- Every row has its resource, and no other row has it. -/
structure Ledger.Matched (L : Ledger) (C : Cloud) : Prop where
  apart : ∀ x y ip ip', L.ips x = some ip → L.ips y = some ip' → ip.externalId = ip'.externalId →
    x = y
  resource : ∀ x ip, L.ips x = some ip → ∃ r, C ip.externalId = some r ∧ L.Mirrors ip r

/-! ## One change -/

section Changes

variable {L L' L'' : Ledger} {C C' : Cloud} {x : IpId} {ip ip' : StaticIp} {r r' : CloudIp}
  {P : IpId → Prop}

/-- What the rows in `P` rely on is still there. -/
structure Ledger.Spares (P : IpId → Prop) (L L' : Ledger) : Prop where
  instances : L'.instances = L.instances
  outbox : ∀ e ∈ L.outbox, e ∈ L'.outbox
  engaged : ∀ y, P y → L.Engaged y → L'.Engaged y

theorem Ledger.Spares.rfl' : L.Spares P L := ⟨rfl, fun _ => id, fun _ _ => id⟩

theorem Ledger.Spares.trans (h : L.Spares P L') (h' : L'.Spares P L'') : L.Spares P L'' where
  instances := h'.instances.trans h.instances
  outbox e he := h'.outbox e (h.outbox e he)
  engaged y hy hL := h'.engaged y hy (h.engaged y hy hL)

theorem spares_putIp (ip : StaticIp) : L.Spares P (L.putIp ip) := ⟨rfl, fun _ => id, fun _ _ => id⟩

theorem spares_announce (p : EventPayload) : L.Spares P (L.announce p) :=
  ⟨rfl, fun _ => List.mem_append_left _, fun _ _ => id⟩

theorem Ledger.Spares.rotatedOff (h : L.Spares P L') (hx : L.RotatedOff x) : L'.RotatedOff x := by
  obtain ⟨e, he, hrest⟩ := hx
  exact ⟨e, h.outbox e he, hrest⟩

theorem Ledger.Spares.holderOf (h : L.Spares P L') (ip : StaticIp) :
    L'.holderOf ip = L.holderOf ip := by
  unfold Ledger.holderOf
  rw [h.instances]

theorem Ledger.Spares.mirrors (h : L.Spares P L') (hm : L.Mirrors ip r) (hP : P ip.id) :
    L'.Mirrors ip r where
  address := hm.address
  paired := hm.paired
  attached := hm.attached
  holder := (h.holderOf ip).symm ▸ hm.holder
  detached := hm.detached
  released hst := (hm.released hst).imp_right h.rotatedOff
  deleted hst := (hm.deleted hst).imp_right fun hal => ⟨hal.1, h.engaged _ hP hal.2⟩

theorem ips_cases (hips : L'.ips = Function.update L.ips x (some ip)) {y : IpId}
    (hy : L'.ips y = some ip') : y = x ∧ ip' = ip ∨ y ≠ x ∧ L.ips y = some ip' := by
  rw [hips, Function.update_apply] at hy
  split at hy
  · next heq => exact .inl ⟨heq, (Option.some_inj.mp hy).symm⟩
  · next hne => exact .inr ⟨hne, hy⟩

/-- No row changes. -/
theorem Ledger.Matched.same (h : L.Matched C) (hips : L'.ips = L.ips)
    (hspares : L.Spares (fun _ => True) L') (hgrows : C.Grows C') : L'.Matched C' where
  apart := by
    rw [hips]
    exact h.apart
  resource y ip hy := by
    rw [hips] at hy
    obtain ⟨r, hr, hm⟩ := h.resource y ip hy
    exact ⟨r, hgrows _ _ hr, hspares.mirrors hm trivial⟩

/-- A row changes, and perhaps its resource. -/
theorem Ledger.Matched.change (h : L.Matched C) (hip : L.ips ip.id = some ip)
    (hips : L'.ips = Function.update L.ips ip.id (some ip')) (hext : ip'.externalId = ip.externalId)
    (hcloud : ∀ ext, ext ≠ ip.externalId → C' ext = C ext) (hr : C' ip.externalId = some r')
    (hspares : L.Spares (· ≠ ip.id) L') (hnew : L'.Mirrors ip' r') : L'.Matched C' := by
  constructor
  · intro y z ip₁ ip₂ hy hz heq
    obtain ⟨rfl, rfl⟩ | ⟨hy, hy'⟩ := ips_cases hips hy <;>
      obtain ⟨rfl, rfl⟩ | ⟨hz, hz'⟩ := ips_cases hips hz
    · rfl
    · exact h.apart _ _ _ _ hip hz' (hext.symm.trans heq)
    · exact h.apart _ _ _ _ hy' hip (heq.trans hext)
    · exact h.apart _ _ _ _ hy' hz' heq
  · intro y ip₁ hy
    obtain ⟨rfl, rfl⟩ | ⟨hne, hy'⟩ := ips_cases hips hy
    · exact ⟨r', hext ▸ hr, hnew⟩
    · obtain ⟨r₁, hr₁, hm⟩ := h.resource y ip₁ hy'
      have hother : ip₁.externalId ≠ ip.externalId := fun heq => hne (h.apart _ _ _ _ hy' hip heq)
      refine ⟨r₁, (hcloud _ hother).trans hr₁, hspares.mirrors hm ?_⟩
      rw [L.ip_id _ _ hy']
      exact hne

/-- A row is added, over a resource that was not there. -/
theorem Ledger.Matched.add (h : L.Matched C) (hfresh : C ip.externalId = none)
    (hips : L'.ips = Function.update L.ips ip.id (some ip)) (hgrows : C.Grows C')
    (hr : C' ip.externalId = some r) (hspares : L.Spares (· ≠ ip.id) L')
    (hnew : L'.Mirrors ip r) : L'.Matched C' := by
  have hother : ∀ y ip₁, L.ips y = some ip₁ → ip₁.externalId ≠ ip.externalId := by
    intro y ip₁ hy heq
    obtain ⟨r₁, hr₁, -⟩ := h.resource y ip₁ hy
    rw [heq, hfresh] at hr₁
    cases hr₁
  constructor
  · intro y z ip₁ ip₂ hy hz heq
    obtain ⟨rfl, rfl⟩ | ⟨hy, hy'⟩ := ips_cases hips hy <;>
      obtain ⟨rfl, rfl⟩ | ⟨hz, hz'⟩ := ips_cases hips hz
    · rfl
    · exact absurd heq.symm (hother _ _ hz')
    · exact absurd heq (hother _ _ hy')
    · exact h.apart _ _ _ _ hy' hz' heq
  · intro y ip₁ hy
    obtain ⟨rfl, rfl⟩ | ⟨hne, hy'⟩ := ips_cases hips hy
    · exact ⟨r, hr, hnew⟩
    · obtain ⟨r₁, hr₁, hm⟩ := h.resource y ip₁ hy'
      refine ⟨r₁, hgrows _ _ hr₁, hspares.mirrors hm ?_⟩
      rw [L.ip_id _ _ hy']
      exact hne

/-- An assignment is written that stays with its IP, and has not ended. -/
theorem spares_putAssignment {a : IpAssignment}
    (ha : ∀ a₀, L.assignments a.id = some a₀ → P a₀.staticIpId →
      a.staticIpId = a₀.staticIpId ∧ a.status ≠ .released) : L.Spares P (L.putAssignment a) where
  instances := rfl
  outbox _ he := he
  engaged y hy := by
    rintro ⟨a₁, ha₁, hon, hst⟩
    by_cases heq : a₁.id = a.id
    · rw [heq] at ha₁
      obtain ⟨hsame, hopen⟩ := ha a₁ ha₁ (hon ▸ hy)
      exact ⟨a, Function.update_self .., hsame.trans hon, hopen⟩
    · exact ⟨a₁, (Function.update_of_ne heq ..).trans ha₁, hon, hst⟩

theorem spares_newAssignment {a : IpAssignment} (h : L.assignments a.id = none) :
    L.Spares P (L.putAssignment a) :=
  spares_putAssignment fun a₀ ha₀ => by
    rw [h] at ha₀
    cases ha₀

theorem spares_putHistory (u : BrokerIpUsageHistory) : L.Spares P (L.putHistory u) :=
  ⟨rfl, fun _ => id, fun _ _ => id⟩

theorem Ledger.Closes.spares {t e : Instant} {S : BrokerIpUsageHistory → Prop}
    (h : L.Closes t e S L') : L.Spares P L' where
  instances := h.instances
  outbox _ he := h.outbox.symm ▸ he
  engaged y _ := by
    unfold Ledger.Engaged
    rw [h.assignments]
    exact id

end Changes

/-! ## What the provider does to a resource -/

section Resources

variable {L L' : Ledger} {C C' : Cloud} {x : IpId} {ip ip' : StaticIp} {r r' : CloudIp}

theorem Ledger.Mirrors.loose (hm : L.Mirrors ip r) (hst : ip.status ≠ .attached) :
    ip.instanceId = none ∧ r.instanceExternalId = none := by
  have hnone := hm.paired.loose hst
  refine ⟨hnone, ?_⟩
  rw [hm.holder, Ledger.holderOf, hnone]
  rfl

/-- Attached to an instance, on both sides. -/
theorem Ledger.Matched.attach {i : InstanceId} {inst : Instance} (h : L.Matched C)
    (hip : L.ips ip.id = some ip) (hinst : L.instances i = some inst) :
    (L.putIp (ip.attachedTo i)).Matched
      ((InfraCall.attachIp ip.externalId inst.externalId).onCloud C) := by
  obtain ⟨r, hr, hm⟩ := h.resource _ ip hip
  have hnew : (L.putIp (ip.attachedTo i)).Mirrors (ip.attachedTo i) (r.attach inst.externalId) :=
    { address := hm.address
      paired := ⟨fun _ => rfl, fun _ => rfl⟩
      attached := ⟨fun _ => rfl, fun _ => rfl⟩
      holder := by
        show some inst.externalId = (L.instances i).map (·.externalId)
        rw [hinst]
        rfl
      detached := fun h => by cases h
      released := fun h => by cases h
      deleted := fun h => by cases h }
  refine h.change hip rfl rfl (fun ext hne => Function.update_of_ne hne ..) ?_ (spares_putIp _) hnew
  show Function.update C ip.externalId _ ip.externalId = _
  rw [Function.update_self, hr]
  rfl

theorem Ledger.Matched.detach (h : L.Matched C) (hip : L.ips ip.id = some ip) :
    (L.putIp ip.detached).Matched ((InfraCall.detachIp ip.externalId).onCloud C) := by
  obtain ⟨r, hr, hm⟩ := h.resource _ ip hip
  have hnew : (L.putIp ip.detached).Mirrors ip.detached r.detach :=
    { address := hm.address
      paired := .of_loose (fun h => by cases h) rfl
      attached := iff_of_false (fun h => by cases h) (fun h => by cases h)
      holder := rfl
      detached := fun _ => rfl
      released := fun h => by cases h
      deleted := fun h => by cases h }
  refine h.change hip rfl rfl (fun ext hne => Function.update_of_ne hne ..) ?_ (spares_putIp _) hnew
  show Function.update C ip.externalId _ ip.externalId = _
  rw [Function.update_self, hr]
  rfl

/-- A row that is released, over a resource that is deleted. -/
theorem mirrors_deleted (haddress : r.ipAddress = ip.ipAddress) (hst : ip.status = .released)
    (hi : ip.instanceId = none) (hr : r.status = .released) (hon : r.instanceExternalId = none) :
    L.Mirrors ip r where
  address := haddress
  paired := .of_loose (by rw [hst]; exact fun h => by cases h) hi
  attached := by
    rw [hst, hr]
    exact iff_of_false (fun h => by cases h) (fun h => by cases h)
  holder := by
    rw [hon, Ledger.holderOf, hi]
    rfl
  detached h := by
    rw [hst] at h
    cases h
  released _ := .inl hr
  deleted _ := .inl hst

/-- The clean-up of a new IP. -/
theorem Ledger.Matched.clean {F : Req → Prop} (h : L.Matched C) (hip : L.ips ip.id = some ip)
    (hclean : Cleaned F ip ip') (hs : Smooth F) : (L.putIp ip').Matched (ip.cleaned C) := by
  obtain ⟨r, hr, hm⟩ := h.resource _ ip hip
  obtain ⟨i, rfl, hi | ⟨-, hfail⟩⟩ := hclean
  swap
  · exact absurd hfail (hs.2 _)
  subst hi
  have hother : ∀ ext, ext ≠ ip.externalId → ip.cleaned C ext = C ext := by
    intro ext hne
    unfold StaticIp.cleaned
    split
    · exact (Function.update_of_ne hne ..).trans (Function.update_of_ne hne ..)
    · exact Function.update_of_ne hne ..
  cases hinst : ip.instanceId with
  | none =>
      have hloose : ip.status ≠ .attached := by
        intro hst
        have hsome := hm.paired.mp hst
        rw [hinst] at hsome
        cases hsome
      have hres : ip.cleaned C ip.externalId = some r.delete := by
        unfold StaticIp.cleaned
        rw [hinst, Option.isSome_none, if_neg Bool.false_ne_true]
        show Function.update C ip.externalId _ ip.externalId = _
        rw [Function.update_self, hr]
        rfl
      exact h.change hip rfl rfl hother hres (spares_putIp _)
        (mirrors_deleted hm.address rfl rfl rfl (hm.loose hloose).2)
  | some i =>
      have hres : ip.cleaned C ip.externalId = some r.detach.delete := by
        unfold StaticIp.cleaned
        rw [hinst, Option.isSome_some, if_pos rfl]
        show Function.update (Function.update C ip.externalId _) ip.externalId
          ((Function.update C ip.externalId _ ip.externalId).map _) ip.externalId = _
        rw [Function.update_self, Function.update_self, hr]
        rfl
      exact h.change hip rfl rfl hother hres (spares_putIp _)
        (mirrors_deleted hm.address rfl rfl rfl rfl)

end Resources

/-! ## The calls -/

section Calls

variable {s : Settings} {F : Req → Prop} {sc sc' : Scene} {b : BrokerId} {x : IpId}

theorem Allocated.matched {region : Region} {ip : StaticIp} (h : Allocated region sc ip sc')
    (hL : sc.kept.Matched sc.cloud) : sc'.kept.Matched sc'.cloud := by
  have hloose : ip.status ≠ .attached := by
    rw [h.new.status]
    exact fun h => by cases h
  refine hL.add h.new.externalId.resource ?_ h.grows h.resource ?_ ?_
  · rw [h.kept]
    rfl
  · rw [h.kept]
    exact (spares_putIp ip).trans (spares_announce _)
  · exact
      { address := rfl
        paired := .of_loose hloose h.new.instanceId
        attached := iff_of_false hloose fun h => by cases h
        holder := by
          rw [Ledger.holderOf, h.new.instanceId]
          rfl
        detached := fun hst => by
          rw [h.new.status] at hst
          cases hst
        released := fun hst => by
          rw [h.new.status] at hst
          cases hst
        deleted := fun hst => by cases hst }

theorem Assigned.matched {ip : StaticIp} {a : IpAssignment} {u : BrokerIpUsageHistory}
    (h : Assigned b x sc ip a u sc') (hL : sc.kept.Matched sc.cloud) :
    sc'.kept.Matched sc'.cloud := by
  have hid := sc.kept.ip_id _ _ h.found
  have hself : sc.kept.ips ip.id = some ip := by rw [hid, h.found]
  have hspares : ∀ P, sc.kept.Spares P ((sc.kept.putAssignment a).putHistory u) := fun _ =>
    (spares_newAssignment h.new.1).trans (spares_putHistory u)
  rw [h.kept, h.cloud]
  unfold Ledger.assigned
  split
  · next hst =>
      obtain ⟨r, hr, hm⟩ := hL.resource _ ip hself
      have hnone := hm.loose h.loose.2
      have hr' : r.status ≠ .attached := fun heq => h.loose.2 (hm.attached.mpr heq)
      have hengaged : (((sc.kept.putAssignment a).putHistory u).putIp
          { ip with status := .allocated }).Engaged ip.id := by
        refine ⟨a, Function.update_self .., ?_, ?_⟩ <;> rw [h.row]
        · exact hid.symm
        · exact fun h => by cases h
      refine hL.change hself rfl rfl (fun _ _ => rfl) hr ((hspares _).trans (spares_putIp _))
        { address := hm.address
          paired := .of_loose (fun h => by cases h) hnone.1
          attached := iff_of_false (fun h => by cases h) hr'
          holder := ?_
          detached := fun h => by cases h
          released := fun h => by cases h
          deleted := fun _ => .inr ⟨rfl, hengaged⟩ }
      rw [hnone.2, Ledger.holderOf, hnone.1]
      rfl
  · exact hL.same rfl (hspares _) Cloud.Grows.rfl'

theorem Attached.matched {i : InstanceId} {ip : StaticIp} {inst : Instance}
    (h : Attached x i sc ip inst sc') (hL : sc.kept.Matched sc.cloud) :
    sc'.kept.Matched sc'.cloud := by
  have hself : sc.kept.ips ip.id = some ip := by rw [sc.kept.ip_id _ _ h.found, h.found]
  rw [h.kept, h.cloud]
  exact hL.attach hself h.holder

theorem Detached.matched {ip : StaticIp} (h : Detached x sc ip sc')
    (hL : sc.kept.Matched sc.cloud) : sc'.kept.Matched sc'.cloud := by
  have hself : sc.kept.ips ip.id = some ip := by rw [sc.kept.ip_id _ _ h.found, h.found]
  rw [h.kept, h.cloud]
  exact hL.detach hself

theorem Ledger.Ends.spares {L L' : Ledger} {t e : Instant} (h : L.Ends x t e (L.ActiveOn x) L') :
    L.Spares (· ≠ x) L' where
  instances := h.instances
  outbox _ he := h.outbox.symm ▸ he
  engaged y hy := by
    rintro ⟨a, ha, hon, hst⟩
    refine ⟨a, ?_, hon, hst⟩
    rw [h.others a.id fun a' ha' heq => ?_]
    · exact ha
    · obtain ⟨hrow, hx, -⟩ := ha'
      rw [heq, ha] at hrow
      cases hrow
      exact hy (hon.symm.trans hx)

theorem Released.matched {ip : StaticIp} {t : Instant} {n : Int} {L' : Ledger}
    (h : Released s x sc ip t n L' sc') (hL : sc.kept.Matched sc.cloud) :
    sc'.kept.Matched sc'.cloud := by
  obtain rfl := sc.kept.ip_id _ _ h.found
  obtain ⟨r, hr, hm⟩ := hL.resource _ ip h.found
  have hnone := hm.loose h.loose
  have hips : sc'.kept.ips =
      Function.update sc.kept.ips ip.id (some { ip with status := .released }) := by
    rw [h.kept]
    show Function.update L'.ips ip.id _ = _
    rw [h.ends.ips]
  have hspares : sc.kept.Spares (· ≠ ip.id) sc'.kept := by
    rw [h.kept]
    exact (h.ends.spares.trans (spares_putIp _)).trans (spares_announce _)
  have hres : sc'.cloud ip.externalId = some r.delete := by
    rw [h.cloud]
    show Function.update sc.cloud ip.externalId _ ip.externalId = _
    rw [Function.update_self, hr]
    rfl
  refine hL.change h.found hips rfl (fun ext hne => ?_) hres hspares
    (mirrors_deleted hm.address rfl hnone.1 rfl hnone.2)
  rw [h.cloud]
  exact Function.update_of_ne hne ..

/-! ### Rotations -/

section Rotation

variable {s : Settings} {force drained ok : Bool} {r r' : Rotation} {sc₁ sc₂ : Scene}
    {L L' : Ledger}
  {C C' : Cloud} {ip : StaticIp}

theorem Placed.matched (h : Placed r L C ip L' C') (hnew : L.ips r.newIp.id = some r.newIp)
    (hL : L.Matched C) : L'.Matched C' := by
  cases h with
  | apart => exact hL
  | attached hi hinst => exact hL.attach hnew hinst

/-- Marked as draining, or as active, an assignment has not ended. -/
theorem spares_drainingNow {a a' : IpAssignment} {P : IpId → Prop}
    (ha : L.assignments a.id = some a) (hid : a'.id = a.id) (hon : a'.staticIpId = a.staticIpId)
    (hst : a'.status ≠ .released) : L.Spares P (L.putAssignment a') := by
  refine spares_putAssignment fun a₀ ha₀ _ => ?_
  rw [hid, ha] at ha₀
  cases ha₀
  exact ⟨hon, hst⟩

theorem Drains.matched (h : Drains r sc r' sc') (hin : r.In sc.kept)
    (hL : sc.kept.Matched sc.cloud) : sc'.kept.Matched sc'.cloud := by
  obtain ⟨L, hplaced, hkept⟩ := h.placed
  have hplacedL : L.Matched sc'.cloud := hplaced.matched hin.newIp hL
  have hrow : L.assignments r.oldAssignment.id = some r.oldAssignment := by
    rw [hplaced.ledger hin.newIp]
    exact hin.assignment
  rw [hkept]
  exact hplacedL.same rfl (spares_drainingNow hrow rfl rfl fun h => by cases h) Cloud.Grows.rfl'

/-- Where a rotation stops, nothing is pending. -/
theorem Stopped.matched (h : Stopped F s r sc sc') (hs : Smooth F) (hin : r.In sc.kept)
    (hL : sc.kept.Matched sc.cloud) :
    sc'.kept.Matched sc'.cloud ∧ sc'.draft = some sc'.kept := by
  cases h with
  | undrained h =>
      obtain ⟨y, C, hplaced, hcloud⟩ := h.placed
      rw [hcloud hs]
      exact ⟨hplaced.matched hin.newIp hL, h.settled.ready hs⟩
  | draining r' sc₂ hdrains hkept hdraft hsmooth =>
      obtain ⟨hd, hcloud⟩ := hsmooth hs
      rw [hcloud]
      exact ⟨hkept ▸ hdrains.matched hin hL, hd⟩
  | aborting r' sc₂ hdrains hundone habort =>
      cases habort with
      | half hkept hhalf hrough => exact absurd hs hrough
      | done ip hclean hkept hset hcloud =>
          obtain ⟨ha, hnew, -⟩ := hdrains.holds hin
          have hcleaned := (hdrains.matched hin hL).clean hnew hclean hs
          refine ⟨?_, hset.ready hs⟩
          rw [hcloud hs, hkept]
          exact hcleaned.same rfl (spares_drainingNow (L := sc₂.kept.putIp ip) ha rfl rfl
            fun h => by cases h) Cloud.Grows.rfl'
  | cutting r' sc₂ t n L' hdrains hcut => exact absurd hs hcut.rough

/-- No assignment of the new IP is active before the cutover. -/
theorem Rotation.Midway.unassigned {readings : List Instant} (h : r.Midway s L readings L')
    (hold : ∀ y a, L.assignments y = some a → a.staticIpId ≠ x) : ∀ a, ¬ L'.ActiveOn x a := by
  rintro a ⟨ha, hon, hst⟩
  cases h.books with
  | same h =>
      rw [h.assignments] at ha
      exact hold _ _ ha hon
  | draining h =>
      rw [h.assignments, Function.update_apply] at ha
      split at ha
      · cases ha
        cases hst
      · exact hold _ _ ha hon
  | ended t n hcooldown htime h =>
      by_cases heq : a.id = r.oldAssignment.id
      · rw [heq, h.ended _ rfl] at ha
        cases ha
        cases hst
      · rw [h.others a.id fun a' ha' hid => heq (ha' ▸ hid.symm)] at ha
        exact hold _ _ ha hon

theorem Discarded.matched (h : Discarded F x sc sc') (hs : Smooth F) (hd : sc.draft = some sc.kept)
    (hip : sc.kept.ips x = some ip) (hidle : ∀ a, ¬ sc.kept.ActiveOn x a)
    (hL : sc.kept.Matched sc.cloud) : sc'.kept.Matched sc'.cloud := by
  obtain ⟨hsame, hcleaned⟩ := h.smooth hs _ _ hd hip hidle
  have hself : sc.kept.ips ip.id = some ip := by rw [sc.kept.ip_id _ _ hip, hip]
  by_cases hst : ip.status = .released
  · obtain ⟨hkept, hcloud⟩ := hsame hst
    rw [hkept, hcloud]
    exact hL
  · obtain ⟨⟨ip', hclean, hkept⟩, hcloud⟩ := hcleaned hst
    rw [hkept, hcloud]
    exact hL.clean hself hclean hs

theorem Unrotated.matched (h : Unrotated F s b force sc sc') (hs : Smooth F)
    (hL : sc.kept.Matched sc.cloud) : sc'.kept.Matched sc'.cloud := by
  cases h with
  | before region h =>
      obtain h | ⟨ip, h⟩ := h
      · exact hL.same (by rw [h.kept]) (h.kept ▸ Ledger.Spares.rfl') h.grows
      · exact h.matched hL
  | after r sc₁ sc₂ hbegun hstop hclean hread =>
      have hnew := hbegun.allocated.new.id
      obtain ⟨hmatched, hd⟩ := hstop.matched hs hbegun.in' (hbegun.allocated.matched hL)
      have hmid := (hstop.midway hbegun).1
      obtain ⟨i, st, hips⟩ := hmid.ips
      have hfound : sc₂.kept.ips r.newIp.id =
          some { r.newIp with instanceId := i, status := st } := by
        rw [hips]
        exact Function.update_self ..
      exact hclean.matched hs hd hfound (hmid.unassigned hnew.unassigned) hmatched

/-- The cutover ends the assignment of the old IP, and makes the new one's. -/
theorem CutOver.spares {t : Instant} {n : Int} {a : IpAssignment} {u : BrokerIpUsageHistory}
    (h : CutOver F s r drained ok sc t n L' a u sc')
    (ha : sc.kept.assignments r.oldAssignment.id = some r.oldAssignment)
    (hon : r.oldAssignment.staticIpId = r.oldIp.id) :
    sc.kept.Spares (· ≠ r.oldIp.id) sc'.kept := by
  have hended : sc.kept.Spares (· ≠ r.oldIp.id)
      (sc.kept.putAssignment (r.oldAssignment.endedAt t)) := by
    refine spares_putAssignment fun a₀ ha₀ hother => ?_
    rw [show (r.oldAssignment.endedAt t).id = r.oldAssignment.id from rfl, ha] at ha₀
    cases ha₀
    exact absurd hon hother
  have hnew : L'.assignments a.id = none := by
    have hne : a.id ≠ r.oldAssignment.id := by
      intro heq
      have hnone := h.new.1
      rw [heq, ha] at hnone
      cases hnone
    rw [h.ends.assignments]
    exact (Function.update_of_ne hne ..).trans h.new.1
  have hopened : L'.Spares (· ≠ r.oldIp.id)
      (((L'.putIp r.oldIp.retired).putAssignment a).putHistory u) :=
    ((spares_putIp _).trans (spares_newAssignment hnew)).trans (spares_putHistory u)
  rw [h.kept]
  exact ((hended.trans h.ends.spares).trans hopened).trans (spares_announce _)

/-- The old IP's row is released, and its resource idle. -/
theorem CutOver.mirrors {t : Instant} {n : Int} {a : IpAssignment} {u : BrokerIpUsageHistory}
    {res : CloudIp} (h : CutOver F s r drained ok sc t n L' a u sc')
    (hm : sc.kept.Mirrors r.oldIp res) :
    sc'.kept.Mirrors r.oldIp.retired (if r.oldIp.status = .attached then res.detach else res) := by
  have hoff : sc'.kept.RotatedOff r.oldIp.id := by
    rw [h.kept]
    exact ⟨_, List.mem_append_right _ (List.mem_singleton.mpr rfl), _, _, _, _, _, _, _, _, rfl⟩
  have hnone : r.oldIp.retired.instanceId = none := by
    show (if r.oldIp.status = .attached then none else r.oldIp.instanceId) = none
    split
    · rfl
    · next hloose => exact hm.paired.loose hloose
  have hidle : (if r.oldIp.status = .attached then res.detach else res).status ≠ .attached ∧
      (if r.oldIp.status = .attached then res.detach else res).instanceExternalId = none := by
    split
    · exact ⟨fun h => (by cases h), rfl⟩
    · next hloose => exact ⟨fun heq => hloose (hm.attached.mpr heq), (hm.loose hloose).2⟩
  exact
    { address := by
        split
        · exact hm.address
        · exact hm.address
      paired := .of_loose (fun h => by cases h) hnone
      attached := iff_of_false (fun h => by cases h) hidle.1
      holder := by
        rw [hidle.2, Ledger.holderOf, hnone]
        rfl
      detached := fun h => by cases h
      released := fun _ => .inr hoff
      deleted := fun _ => .inl rfl }

theorem Rotated.matched {t : Instant} {n : Int} {a : IpAssignment} {u : BrokerIpUsageHistory}
    (h : Rotated F s b force sc r sc₁ r' drained ok sc₂ t n L' a u sc') (hs : Smooth F)
    (hL : sc.kept.Matched sc.cloud) : sc'.kept.Matched sc'.cloud := by
  have hin := h.begun.in'
  have hL₂ := h.moved.drains.matched hin (h.begun.allocated.matched hL)
  obtain ⟨hassigned, -, hold⟩ := h.moved.drains.holds hin
  obtain ⟨res, hres, hm⟩ := hL₂.resource _ _ hold
  have hon : r'.oldAssignment.staticIpId = r'.oldIp.id := by
    rw [h.moved.drains.same]
    exact (sc.kept.ip_id _ _ h.begun.oldIp).symm
  have hips : sc'.kept.ips = Function.update sc₂.kept.ips r'.oldIp.id (some r'.oldIp.retired) := by
    rw [h.moved.cut.kept]
    show Function.update L'.ips _ _ = _
    rw [h.moved.cut.ends.ips]
    rfl
  have hcloud := h.moved.cut.cloud hs
  refine hL₂.change hold hips rfl ?_ ?_ (h.moved.cut.spares hassigned hon) (h.moved.cut.mirrors hm)
  · intro ext hne
    rw [hcloud]
    split
    · exact Function.update_of_ne hne ..
    · rfl
  · rw [hcloud]
    split
    · show Function.update sc₂.cloud r'.oldIp.externalId _ r'.oldIp.externalId = _
      rw [Function.update_self, hres]
      rfl
    · exact hres

end Rotation

/-! ### Every call -/

theorem Happened.matched {c : Call} (h : Happened s F sc sc' c) (hs : Smooth F)
    (hL : sc.kept.Matched sc.cloud) : sc'.kept.Matched sc'.cloud := by
  cases h with
  | same hkept hgrows => exact hL.same (by rw [hkept]) (hkept ▸ Ledger.Spares.rfl') (hgrows hs.1)
  | allocated h => exact h.matched hL
  | assigned h => exact h.matched hL
  | attached h => exact h.matched hL
  | detached h => exact h.matched hL
  | released h => exact h.matched hL
  | rotated h => exact h.matched hs hL
  | unrotated h => exact h.matched hs hL

end Calls

/-! ## Runs -/

/-- What asks neither the database nor the provider may go wrong, and nothing else. -/
def BothAnswer (_ : World) (r : Req) : Prop := ¬ r.asksDb ∧ r.asksProvider = false

theorem smooth_bothAnswer (w : World) : Smooth (BothAnswer w) := by
  constructor
  · intro ⟨r, hdb, hF⟩
    exact hF.1 hdb
  · intro c hF
    cases hF.2

def World.Matched (w : World) : Prop := w.db.ledger.Matched w.cloud

theorem World.Matched.configure {w : World} (h : w.Matched) (config : Config) :
    (w.configure config).Matched :=
  Ledger.Matched.same h rfl ⟨rfl, fun _ => id, fun _ _ => id⟩ Cloud.Grows.rfl'

theorem matched_outcome {s : Settings} {c : Call} {env : Nat → Nat × Env} {w : World}
    (hw : w.Matched) (hc : c.onIps = true) (henv : c.Meets s env w (BothAnswer w)) :
    (c.outcome s env w).2.Matched := by
  obtain ⟨sc', hleft, hends⟩ := Call.ends hc henv
  unfold World.Matched
  rw [hleft.kept, hleft.cloud]
  exact hends.happened.matched (smooth_bothAnswer w) hw

/-- After any calls, returned or raised, the rows and the resources agree. -/
theorem matched_of_run (s : Settings) {w : World} (hw : w.Matched) (ds : List Deed)
    (h : Throughout s (Deed.OnIps s BothAnswer) w ds) : (worldAfter s w ds).Matched := by
  induction ds generalizing w with
  | nil => exact hw
  | cons d ds ih =>
      cases d with
      | configure config => exact ih (w := w.configure config) (hw.configure config) h.2
      | call c env => exact ih (matched_outcome hw h.1.1 h.1.2) h.2

/-- An IP is allocated and assigned, its broker moved off it, and the new one released. -/
theorem matched_bareBroker :
    (worldAfter {} bareBroker [.call (.allocateIp "ewr") spacious,
      .call (.assign 4 2 none) spacious, .call (.rotate 2 false) spacious,
      .call (.release 10) spacious]).Matched := by
  have hmeets : ∀ (c : Call) (w : World), c.Meets {} spacious w (BothAnswer w) :=
    fun c w => Prog.suits_of_forall (fun _ _ hfault => absurd rfl hfault) _ w
  have hw : bareBroker.Matched := by
    have hempty : ∀ x ip, bareBroker.db.ledger.ips x ≠ some ip := fun x ip h => by cases h
    exact ⟨fun x y ip ip' h => absurd h (hempty x ip), fun x ip h => absurd h (hempty x ip)⟩
  exact matched_of_run {} hw _
    ⟨⟨rfl, hmeets _ _⟩, ⟨rfl, hmeets _ _⟩, ⟨rfl, hmeets _ _⟩, ⟨rfl, hmeets _ _⟩, trivial⟩

end BrokerBridge
