import BrokerBridge.Ips.Scene

/-!
# What the operations on an IP do to the ledger

One lemma an operation: the ledger it commits, what it found in the one it began
with, and what becomes of the provider's IPs. An operation that raises has committed
nothing, or it raised after its commit; the provider's side is ahead of the ledger
only where a commit failed.
-/

namespace BrokerBridge

open Conc

/-- Nothing was committed, and the provider was asked for nothing. -/
structure Scene.Same (sc sc' : Scene) : Prop where
  kept : sc'.kept = sc.kept
  cloud : sc'.cloud = sc.cloud

theorem Scene.Same.rfl' {sc : Scene} : sc.Same sc := ⟨rfl, rfl⟩

section Operations

variable {F : Req → Prop} {sc : Scene} {L : Ledger} {α : Type} {R : Exn → Scene → Prop}
  {x : IpId} {b : BrokerId}

theorem Plays.getProvider {Q : Unit → Scene → Prop} (hd : sc.draft = some L) (hok : Q () sc)
    (hdb : DbFails F → ∀ e : Exn, e.Plain → R e sc.broken) :
    Plays F sc getProvider Q R := Plays.execute hd (fun _ _ => hok) hdb

theorem Plays.getIp {Q : StaticIp → Scene → Prop} (hd : sc.draft = some L)
    (hok : ∀ ip, L.ips x = some ip → Q ip sc) (herr : ∀ e : Exn, e.Plain → R e sc)
    (hdb : DbFails F → ∀ e : Exn, e.Plain → R e sc.broken) :
    Plays F sc (getIp x) Q R := by
  unfold BrokerBridge.getIp
  refine Plays.bind (Plays.execute hd (fun y hy => ?_) hdb)
  cases y with
  | none => exact Plays.raise (herr _ (show "NOT_FOUND" ≠ "IP_REUSE_POLICY" by decide))
  | some ip => exact Plays.pure (hok ip hy.symm)

/-- The body ends, and the lock is given back. -/
theorem Plays.underIpLock {body : Coro α} {Q : α → Scene → Prop}
    (h : Plays F sc body Q R) (hR : ∀ sc' e, (∃ a, Q a sc') ∨ (∃ e', R e' sc') → R e sc')
    (herr : ∀ e, R e sc) : Plays F sc (underIpLock x body) Q R := by
  unfold BrokerBridge.underIpLock
  refine Plays.bind (Plays.newId fun token _ => Plays.bind (Plays.acquireLock (fun got => ?_)
    fun e _ => herr e))
  split
  · refine Plays.finally' (h.mono (fun a sc' ha => ?_) fun e sc' he => ?_)
    · exact Plays.releaseLock ha fun e _ => hR sc' e (.inl ⟨a, ha⟩)
    · exact Plays.releaseLock he fun e' _ => hR sc' e' (.inr ⟨e, he⟩)
  · exact Plays.raise (herr _)

/-! ## Allocating -/

/-- A row for a new IP of this region, as the provider has made it. -/
structure NewIp (region : Region) (sc : Scene) (ip : StaticIp) : Prop where
  id : sc.kept.Fresh sc.cloud ip.id
  externalId : sc.kept.Fresh sc.cloud ip.externalId
  region : ip.region = region
  status : ip.status = .allocated
  instanceId : ip.instanceId = none

def Ledger.allocated (L : Ledger) (ip : StaticIp) : Ledger :=
  (L.putIp ip).announce (.ipAllocated ip.id ip.ipAddress ip.region)

/-- The provider has new IPs at most. -/
def Cloud.Grows (C C' : Cloud) : Prop := ∀ ext ip, C ext = some ip → C' ext = some ip

theorem Cloud.Grows.rfl' {C : Cloud} : C.Grows C := fun _ _ => id

/-- The new row is committed, and the provider has made the IP. -/
structure Allocated (region : Region) (sc : Scene) (ip : StaticIp) (sc' : Scene) : Prop where
  new : NewIp region sc ip
  kept : sc'.kept = sc.kept.allocated ip
  grows : sc.cloud.Grows sc'.cloud
  resource : sc'.cloud ip.externalId =
    some { externalId := ip.externalId, ipAddress := ip.ipAddress }

/-- No row was committed; the provider may have made an IP for nothing. -/
structure Unallocated (sc sc' : Scene) : Prop where
  kept : sc'.kept = sc.kept
  grows : sc.cloud.Grows sc'.cloud

/-- How an allocation that raises leaves things. -/
def AllocateRaised (region : Region) (sc sc' : Scene) : Prop :=
  Unallocated sc sc' ∨ ∃ ip, Allocated region sc ip sc'

/-- A later try begins where the earlier left. -/
theorem Allocated.after {region : Region} {ip : StaticIp} {sc₁ sc₂ : Scene}
    (h : Allocated region sc₁ ip sc₂) (h₁ : Unallocated sc sc₁) : Allocated region sc ip sc₂ where
  new :=
    { id := h₁.kept ▸ { h.new.id with
        resource := by
          cases hip : sc.cloud ip.id with
          | none => rfl
          | some y => exact absurd ((h₁.grows _ _ hip).symm.trans h.new.id.resource) nofun }
      externalId := h₁.kept ▸ { h.new.externalId with
        resource := by
          cases hip : sc.cloud ip.externalId with
          | none => rfl
          | some y => exact absurd ((h₁.grows _ _ hip).symm.trans h.new.externalId.resource) nofun }
      region := h.new.region
      status := h.new.status
      instanceId := h.new.instanceId }
  kept := h₁.kept ▸ h.kept
  grows := fun _ _ hip => h.grows _ _ (h₁.grows _ _ hip)
  resource := h.resource

/-- An exception that is no conflict goes on. -/
theorem allocate_raises {region : Region} {Q : Option StaticIp → Scene → Prop} (sc sc' : Scene)
    (e : Exn) :
    e.Plain → AllocateRaised region sc sc' →
      Plays F sc'
        ((match e with
          | .integrity => do
              rollback
              pure none
          | e => Task.raise e) : Coro (Option StaticIp)) Q fun _ sc' =>
                AllocateRaised region sc sc' := by
  intro he h
  cases e with
  | integrity => exact he.elim
  | _ => exact Plays.raise h

theorem tryAllocate_plays {region : Region} (hd : sc.draft = some sc.kept) :
    Plays F sc (tryAllocate region)
      (fun y sc' => sc'.draft = some sc'.kept ∧
        match y with
        | none => Unallocated sc sc'
        | some ip => Allocated region sc ip sc')
      (fun _ sc' => AllocateRaised region sc sc') := by
  unfold tryAllocate
  have hsame : Unallocated sc sc := ⟨rfl, Cloud.Grows.rfl'⟩
  refine Plays.bind (Plays.catching (Plays.createIp (fun ext address hext => ?_) fun _ e _ => ?_))
  swap
  · cases e <;> exact Plays.raise (.inl hsame)
  have hgrows : sc.cloud.Grows (Function.update sc.cloud ext
      (some { externalId := ext, ipAddress := address })) := by
    intro ext' ip' hip
    rw [Function.update_apply]
    split
    · next heq =>
        rw [heq, hext.resource] at hip
        cases hip
    · exact hip
  refine Plays.bind (Plays.newId fun id hid => ?_)
  -- From here on the provider has an IP that no row tells of, until the commit.
  generalize hC : Function.update sc.cloud ext (some _) = C at hgrows hid ⊢
  have hnew : NewIp region sc { id := id, externalId := ext, ipAddress := address,
                                region := region } :=
    { id := { hid with
        resource := by
          cases hip : sc.cloud id with
          | none => rfl
          | some y => exact absurd ((hgrows _ _ hip).symm.trans hid.resource) nofun }
      externalId := hext
      region := rfl
      status := rfl
      instanceId := rfl }
  refine Plays.catching (Plays.addIp (L := sc.kept) hd hid.ip ?_ ?_ ?_)
  · have hdone : ∀ draft, Allocated region sc
        { id := id, externalId := ext, ipAddress := address, region := region }
        { sc with
          kept := sc.kept.allocated
            { id := id, externalId := ext, ipAddress := address, region := region }
          draft := draft
          cloud := C } :=
      fun _ => ⟨hnew, rfl, hgrows, by rw [← hC]; exact Function.update_self ..⟩
    refine Plays.bind (Plays.enqueueOutbox rfl (Plays.bind (Plays.commit rfl ?_ fun _ e he => ?_)))
    · refine Plays.bind (Plays.execute rfl (fun y hy => ?_) fun _ e he => ?_)
      · have hy' : y = some { id := id, externalId := ext, ipAddress := address,
                              region := region } :=
          hy.trans (Function.update_self ..)
        subst hy'
        exact Plays.bind (Plays.pure (Plays.pure ⟨rfl, hdone _⟩))
      · exact allocate_raises sc _ e he (.inr ⟨_, hdone _⟩)
    · exact allocate_raises sc _ e he (.inl ⟨rfl, hgrows⟩)
  · refine Plays.bind (Plays.rollback (Plays.pure ⟨rfl, rfl, hgrows⟩) fun _ _ _ => ?_)
    exact .inl ⟨rfl, hgrows⟩
  · exact fun _ e he => allocate_raises sc _ e he (.inl ⟨rfl, hgrows⟩)

theorem allocateTries_plays {region : Region} (n : Nat) (hd : sc.draft = some sc.kept) :
    Plays F sc (allocateTries region n)
      (fun ip sc' => sc'.draft = some sc'.kept ∧ Allocated region sc ip sc')
      (fun _ sc' => AllocateRaised region sc sc') := by
  -- The tries so far have left the ledger as it was.
  suffices h : ∀ sc', sc'.draft = some sc'.kept → Unallocated sc sc' →
      Plays F sc' (allocateTries region n)
        (fun ip sc'' => sc''.draft = some sc''.kept ∧ Allocated region sc ip sc'')
        (fun _ sc'' => AllocateRaised region sc sc'') from h sc hd ⟨rfl, Cloud.Grows.rfl'⟩
  induction n with
  | zero => exact fun sc' _ h => Plays.raise (.inl h)
  | succ n ih =>
      intro sc' hd' h'
      have hlater : ∀ sc'', Unallocated sc' sc'' → Unallocated sc sc'' := fun sc'' h'' =>
        ⟨h''.kept.trans h'.kept, fun _ _ hip => h''.grows _ _ (h'.grows _ _ hip)⟩
      refine Plays.bind ((tryAllocate_plays hd').mono ?_ ?_)
      · rintro (_ | ip) sc'' ⟨hd'', h''⟩
        · exact ih sc'' hd'' (hlater sc'' h'')
        · exact Plays.pure ⟨hd'', h''.after h'⟩
      · rintro _ sc'' (h'' | ⟨ip, h''⟩)
        · exact .inl (hlater sc'' h'')
        · exact .inr ⟨ip, h''.after h'⟩

theorem allocateIp_plays {region : Region} (hd : sc.draft = some sc.kept) :
    Plays F sc (allocateIp region)
      (fun ip sc' => sc'.draft = some sc'.kept ∧ Allocated region sc ip sc')
      (fun _ sc' => AllocateRaised region sc sc') :=
  Plays.bind (Plays.getProvider hd (allocateTries_plays 8 hd) fun _ _ _ =>
    .inl ⟨rfl, Cloud.Grows.rfl'⟩)

/-! ## Assigning -/

theorem Plays.assertReuseAllowed {Q : Unit → Scene → Prop} (hd : sc.draft = some L)
    (hok : ∀ t, (∀ u e, L.Usage b x u → u.reuseEligibleAt = some e → e ≤ t) → Q () (sc.reads t))
    (hrefuse : ∀ t u e (err : Exn), L.Usage b x u → u.reuseEligibleAt = some e → t < e →
      R err (sc.reads t))
    (hdb : DbFails F → ∀ t (e : Exn), e.Plain → R e (sc.reads t).broken) :
    Plays F sc (assertReuseAllowed b x) Q R := by
  unfold BrokerBridge.assertReuseAllowed
  refine Plays.bind (Plays.now fun t _ => Plays.bind (Plays.execute hd (fun rows hrows => ?_)
    fun hF => hdb hF t))
  have hmem : ∀ u, u ∈ rows ↔ L.Usage b x u := hrows.mem
  split
  · next hany =>
      obtain ⟨u, hu, hlate⟩ := List.any_eq_true.mp hany
      cases he : u.reuseEligibleAt with
      | none =>
          rw [he] at hlate
          cases hlate
      | some e =>
          rw [he] at hlate
          exact Plays.raise (hrefuse t u e _ ((hmem u).mp hu) he (of_decide_eq_true hlate))
  · next hany =>
      refine Plays.pure (hok t fun u e hu he => ?_)
      by_contra hlt
      refine hany (List.any_eq_true.mpr ⟨u, (hmem u).mpr hu, ?_⟩)
      rw [he]
      exact decide_eq_true (Int.not_le.mp hlt)

theorem Plays.addAssignment {clientId : ClientId} {t : Instant} {Q : AssignmentId → Scene → Prop}
    (hd : sc.draft = some L)
    (ha : ∀ i, sc.kept.assignments i = none → L.assignments i = none)
    (hh : ∀ i, sc.kept.history i = none → L.history i = none)
    (hok : ∀ (a : IpAssignment) (u : BrokerIpUsageHistory),
      a = { id := a.id, clientId := clientId, brokerAccountId := b, staticIpId := x } →
      u = { id := u.id, brokerAccountId := b, staticIpId := x, usedAt := t } →
      sc.kept.assignments a.id = none → sc.kept.history u.id = none →
      Q a.id (sc.drafting ((L.putAssignment a).putHistory u))) :
    Plays F sc (addAssignment clientId b x t) Q R := by
  unfold BrokerBridge.addAssignment
  refine Plays.bind (Plays.newId fun i hi => Plays.bind (Plays.stage hd
    (takes_addAssignment (ha i hi.assignment)) (Plays.bind (Plays.newId fun j hj => ?_))))
  refine Plays.bind (Plays.stage rfl (takes_addHistory (hh j hj.usage)) (Plays.pure ?_))
  exact hok { id := i, clientId := clientId, brokerAccountId := b, staticIpId := x }
    { id := j, brokerAccountId := b, staticIpId := x, usedAt := t } rfl rfl
    hi.assignment hj.usage

/-- The rows added, and the IP allocated again if it was released. -/
def Ledger.assigned (L : Ledger) (ip : StaticIp) (a : IpAssignment) (u : BrokerIpUsageHistory) :
    Ledger :=
  if ip.status = .released then
    ((L.putAssignment a).putHistory u).putIp { ip with status := .allocated }
  else (L.putAssignment a).putHistory u

/-- What `assign` found, and the new rows it has committed. -/
structure Assigned (b : BrokerId) (x : IpId) (sc : Scene) (ip : StaticIp) (a : IpAssignment)
    (u : BrokerIpUsageHistory) (sc' : Scene) : Prop where
  found : sc.kept.ips x = some ip
  loose : ip.status ≠ .quarantined ∧ ip.status ≠ .attached
  broker : sc.kept.brokers b ≠ none
  idle : ∀ a', ¬ sc.kept.ActiveFor b a'
  times : ∃ t t', t ≤ t' ∧ sc'.readings = sc.readings ++ [t, t'] ∧
    ∀ u' e, sc.kept.Usage b x u' → u'.reuseEligibleAt = some e → e ≤ t
  row : a = { id := a.id, clientId := a.clientId, brokerAccountId := b, staticIpId := x }
  usage : u = { id := u.id, brokerAccountId := b, staticIpId := x, usedAt := u.usedAt }
  new : sc.kept.assignments a.id = none ∧ sc.kept.history u.id = none
  kept : sc'.kept = sc.kept.assigned ip a u
  cloud : sc'.cloud = sc.cloud

/-- `assign` has committed nothing; if the cooldown was the reason, it has read a time
before its end. -/
structure Unassigned (b : BrokerId) (x : IpId) (sc : Scene) (err : Exn) (sc' : Scene) : Prop where
  kept : sc'.kept = sc.kept
  cloud : sc'.cloud = sc.cloud
  refused : err.refusesReuse → ∃ u e, sc.kept.Usage b x u ∧ u.reuseEligibleAt = some e ∧
    ∃ t ∈ sc'.readings, t < e

def AssignRaised (b : BrokerId) (x : IpId) (sc : Scene) (err : Exn) (sc' : Scene) : Prop :=
  Unassigned b x sc err sc' ∨ err.Plain ∧ ∃ ip a u, Assigned b x sc ip a u sc'

theorem Unassigned.plain {err : Exn} {sc' : Scene} (h : err.Plain) (hkept : sc'.kept = sc.kept)
    (hcloud : sc'.cloud = sc.cloud) : AssignRaised b x sc err sc' :=
  .inl ⟨hkept, hcloud, fun hr => absurd hr h.not_refuses⟩

theorem assignLocked_plays {clientId : Option ClientId} (hd : sc.draft = some sc.kept) :
    Plays F sc (assignLocked x b clientId) (fun _ sc' => ∃ ip a u, Assigned b x sc ip a u sc')
      (AssignRaised b x sc) := by
  unfold assignLocked
  refine Plays.bind (Plays.getIp hd (fun ip hip => ?_) (fun e he => Unassigned.plain he rfl rfl)
    fun _ e he => Unassigned.plain he rfl rfl)
  unfold checkAssignable
  refine Plays.bind ?_
  split
  · exact Plays.raise
      (Unassigned.plain (show "INVALID_STATE" ≠ "IP_REUSE_POLICY" by decide) rfl rfl)
  next hq =>
  split
  · exact Plays.raise
      (Unassigned.plain (show "INVALID_STATE" ≠ "IP_REUSE_POLICY" by decide) rfl rfl)
  next hatt =>
  refine Plays.pure (Plays.bind (Plays.execute hd (fun broker hbroker => ?_)
    fun _ e he => Unassigned.plain he rfl rfl))
  cases broker with
  | none =>
      exact Plays.raise (Unassigned.plain (show "NOT_FOUND" ≠ "IP_REUSE_POLICY" by decide) rfl rfl)
  | some broker =>
  refine Plays.bind (Plays.assertReuseAllowed hd (fun t ht => ?_) (fun t u e err hu he hlt => ?_)
    fun _ t e he => Unassigned.plain he rfl rfl)
  swap
  · exact .inl ⟨rfl, rfl, fun _ => ⟨u, e, hu, he, t,
      List.mem_append_right _ (List.mem_singleton_self t), hlt⟩⟩
  refine Plays.bind (Plays.execute hd (fun rows hrows => ?_)
    fun _ e he => Unassigned.plain he rfl rfl)
  refine Plays.bind (Plays.scalarOneOrNone (fun hnone => ?_) (fun a _ => ?_)
    fun e he => Unassigned.plain he rfl rfl)
  swap
  · exact Plays.raise
      (Unassigned.plain (show "ASSIGNMENT_CONFLICT" ≠ "IP_REUSE_POLICY" by decide) rfl rfl)
  have hidle : ∀ a', ¬ sc.kept.ActiveFor b a' := by
    intro a' ha'
    have hmem := (hrows.mem a').mpr ha'
    rw [hnone] at hmem
    cases hmem
  refine Plays.bind (Plays.now fun t' ht' => Plays.bind (Plays.addAssignment (L := sc.kept) hd
    (fun _ => id) (fun _ => id) fun a u ha hu hna hnu => ?_))
  have hdone : ∀ sc' : Scene, sc'.kept = sc.kept.assigned ip a u → sc'.cloud = sc.cloud →
      sc'.readings = sc.readings ++ [t] ++ [t'] → Assigned b x sc ip a u sc' :=
    fun sc' hkept hcloud hread =>
      { found := hip
        loose := ⟨hq, hatt⟩
        broker := by
          rw [← show some broker = sc.kept.brokers b from hbroker]
          exact nofun
        idle := hidle
        times := ⟨t, t', ht', hread.trans (List.append_assoc ..), ht⟩
        row := by rw [ha]
        usage := by rw [hu]
        new := ⟨hna, hnu⟩
        kept := hkept
        cloud := hcloud }
  have hcommit : ∀ sc₁ : Scene, sc₁.draft = some (sc.kept.assigned ip a u) → sc₁.kept = sc.kept →
      sc₁.cloud = sc.cloud → sc₁.readings = sc.readings ++ [t] ++ [t'] →
      Plays F sc₁ (do commit; refreshed (← execute (.assignment a.id)))
        (fun _ sc' => ∃ ip a u, Assigned b x sc ip a u sc') (AssignRaised b x sc) := by
    intro sc₁ hdraft hkept hcloud hread
    refine Plays.bind (Plays.commit hdraft ?_ fun _ e he => Unassigned.plain he hkept hcloud)
    refine Plays.bind (Plays.execute hdraft (fun y _ => ?_)
      fun _ e he => .inr ⟨he, ip, a, u, hdone _ rfl hcloud hread⟩)
    exact Plays.refreshed (fun _ _ => ⟨ip, a, u, hdone _ rfl hcloud hread⟩)
      fun _ e he => .inr ⟨he, ip, a, u, hdone _ rfl hcloud hread⟩
  unfold reviveIp
  refine Plays.bind ?_
  split
  · next hrel =>
      have hL : sc.kept.assigned ip a u =
          ((sc.kept.putAssignment a).putHistory u).putIp { ip with status := .allocated } :=
        if_pos hrel
      have hself : sc.kept.ips ip.id = some ip := by rw [sc.kept.ip_id _ _ hip, hip]
      exact Plays.bind (Plays.assignIp rfl hself
        (Plays.pure (hcommit _ (congrArg some hL.symm) rfl rfl rfl)))
  · next hrel =>
      exact Plays.pure (hcommit _ (congrArg some (if_neg hrel).symm) rfl rfl rfl)

/-- `assign`; its locks are given back whatever its body did. -/
theorem assignIp_plays {clientId : Option ClientId} (hd : sc.draft = some sc.kept) :
    Plays F sc (assignIp x b clientId) (fun _ sc' => ∃ ip a u, Assigned b x sc ip a u sc')
      (AssignRaised b x sc) := by
  have hplain : ∀ e : Exn, e.Plain → AssignRaised b x sc e sc :=
    fun e he => Unassigned.plain he rfl rfl
  unfold assignIp
  refine Plays.bind (Plays.newId fun token _ =>
    Plays.bind (Plays.acquireLock (fun got => ?_) hplain))
  split
  · refine Plays.bind (Plays.bind (Plays.acquireLock (fun got' => ?_) hplain))
    split
    · refine Plays.pure (Plays.finally' ((assignLocked_plays hd).mono (fun _ sc' h => ?_)
        fun e sc' h => ?_))
      · have hlater : ∀ e : Exn, e.Plain → AssignRaised b x sc e sc' := fun e he => .inr ⟨he, h⟩
        exact Plays.bind (Plays.releaseLock (Plays.releaseLock h hlater) hlater)
      · have hlater : ∀ e' : Exn, e'.Plain → AssignRaised b x sc e' sc' := by
          rintro e' he'
          rcases h with h | ⟨_, h⟩
          · exact Unassigned.plain he' h.kept h.cloud
          · exact .inr ⟨he', h⟩
        exact Plays.bind (Plays.releaseLock (Plays.releaseLock h hlater) hlater)
    · exact Plays.bind (Plays.releaseLock (Plays.raise (hplain _
        (show "LOCK_CONTENTION" ≠ "IP_REUSE_POLICY" by decide))) hplain)
  · exact Plays.raise (hplain _ (show "LOCK_CONTENTION" ≠ "IP_REUSE_POLICY" by decide))

/-! ## Attaching and detaching -/

/-- Nothing is pending, or the database has failed and nothing will be committed. -/
def Scene.Settled (F : Req → Prop) (sc : Scene) : Prop :=
  sc.draft = some sc.kept ∨ DbFails F ∧ sc.draft = none

/-- How a call that raises may leave things: as they were; with the provider ahead of
the ledger, since the database failed; or done. -/
inductive Ended (F : Req → Prop) (sc : Scene) (Done : Scene → Prop) (sc' : Scene) : Prop
  | same (h : sc.Same sc')
  | ahead (hF : DbFails F) (kept : sc'.kept = sc.kept)
  | done (h : Done sc')

def StaticIp.attachedTo (ip : StaticIp) (i : InstanceId) : StaticIp :=
  { ip with instanceId := some i, status := .attached }

def StaticIp.detached (ip : StaticIp) : StaticIp :=
  { ip with instanceId := none, status := .detached }

/-- The IP attached to the instance, on both sides. -/
structure Attached (x : IpId) (i : InstanceId) (sc : Scene) (ip : StaticIp) (inst : Instance)
    (sc' : Scene) : Prop where
  found : sc.kept.ips x = some ip
  holder : sc.kept.instances i = some inst
  alive : inst.status ≠ .destroyed
  kept : sc'.kept = sc.kept.putIp (ip.attachedTo i)
  cloud : sc'.cloud = (InfraCall.attachIp ip.externalId inst.externalId).onCloud sc.cloud

theorem putIp_putIp (ip ip' : StaticIp) (h : ip'.id = ip.id) :
    (L.putIp ip).putIp ip' = L.putIp ip' := by
  ext1
  case ips =>
    show Function.update (Function.update L.ips ip.id _) ip'.id _ = Function.update L.ips ip'.id _
    rw [h, Function.update_idem]
  all_goals rfl

theorem attachLocked_plays {i : InstanceId} (hd : sc.draft = some sc.kept) :
    Plays F sc (attachLocked x i)
      (fun y sc' => ∃ ip inst, Attached x i sc ip inst sc' ∧ y = ip.attachedTo i ∧
        sc'.draft = some sc'.kept)
      (fun _ sc' => Ended F sc (fun sc' => ∃ ip inst, Attached x i sc ip inst sc') sc' ∧
        sc'.Settled F) := by
  have hsame : ∀ sc' : Scene, sc'.kept = sc.kept → sc'.cloud = sc.cloud → sc'.Settled F →
      Ended F sc (fun sc' => ∃ ip inst, Attached x i sc ip inst sc') sc' ∧ sc'.Settled F :=
    fun _ hkept hcloud hset => ⟨.same ⟨hkept, hcloud⟩, hset⟩
  unfold attachLocked
  refine Plays.bind (Plays.getIp hd (fun ip hip => ?_) (fun _ _ => hsame _ rfl rfl (.inl hd))
    fun hF _ _ => hsame _ rfl rfl (.inr ⟨hF, rfl⟩))
  refine Plays.bind (Plays.execute hd (fun y hy => ?_)
    fun hF _ _ => hsame _ rfl rfl (.inr ⟨hF, rfl⟩))
  cases y with
  | none => exact Plays.raise (hsame _ rfl rfl (.inl hd))
  | some inst =>
  show Plays F sc (if _ then _ else _) _ _
  split
  · exact Plays.raise (hsame _ rfl rfl (.inl hd))
  next halive =>
  refine Plays.bind ?_
  refine Plays.getProvider hd (Plays.bind ?_) fun hF _ _ =>
    hsame sc.broken rfl rfl (.inr ⟨hF, rfl⟩)
  refine Plays.infra (fun _ => nofun) (fun _ => ?_) fun _ _ _ => hsame sc rfl rfl (.inl hd)
  have hself : sc.kept.ips ip.id = some ip := by rw [sc.kept.ip_id _ _ hip, hip]
  refine Plays.bind (Plays.assignIp hd hself (Plays.bind (Plays.assignIp rfl ?_ (Plays.bind ?_))))
  · exact Function.update_self ..
  have hput : (sc.kept.putIp { ip with instanceId := some i }).putIp (ip.attachedTo i) =
      sc.kept.putIp (ip.attachedTo i) := putIp_putIp _ _ rfl
  have hdone : ∀ sc' : Scene, sc'.kept = sc.kept.putIp (ip.attachedTo i) →
      sc'.cloud = (InfraCall.attachIp ip.externalId inst.externalId).onCloud sc.cloud →
      Attached x i sc ip inst sc' := fun _ hkept hcloud =>
    ⟨hip, hy.symm, halive, hkept, hcloud⟩
  refine Plays.commit rfl ?_ fun hF _ _ => ⟨.ahead hF rfl, .inr ⟨hF, rfl⟩⟩
  refine Plays.bind (Plays.execute rfl (fun z hz => ?_) fun hF _ _ =>
    ⟨.done ⟨ip, inst, hdone _ hput rfl⟩, .inr ⟨hF, rfl⟩⟩)
  have hz' : z = some (ip.attachedTo i) := by
    refine hz.trans ?_
    rw [← sc.kept.ip_id _ _ hip]
    exact Function.update_self ..
  subst hz'
  exact Plays.pure ⟨ip, inst, hdone _ hput rfl, rfl, rfl⟩

theorem attachIp_plays {i : InstanceId} (hd : sc.draft = some sc.kept) :
    Plays F sc (attachIp x i)
      (fun y sc' => ∃ ip inst, Attached x i sc ip inst sc' ∧ y = ip.attachedTo i ∧
        sc'.draft = some sc'.kept)
      (fun _ sc' => Ended F sc (fun sc' => ∃ ip inst, Attached x i sc ip inst sc') sc' ∧
        sc'.Settled F) := by
  refine Plays.underIpLock (attachLocked_plays hd) ?_ fun _ => ⟨.same Scene.Same.rfl', .inl hd⟩
  rintro sc' _ (⟨_, ip, inst, h, _, hdraft⟩ | ⟨_, h⟩)
  · exact ⟨.done ⟨ip, inst, h⟩, .inl hdraft⟩
  · exact h

structure Detached (x : IpId) (sc : Scene) (ip : StaticIp) (sc' : Scene) : Prop where
  found : sc.kept.ips x = some ip
  kept : sc'.kept = sc.kept.putIp ip.detached
  cloud : sc'.cloud = (InfraCall.detachIp ip.externalId).onCloud sc.cloud

theorem detachLocked_plays (hd : sc.draft = some sc.kept) :
    Plays F sc (detachLocked x) (fun _ sc' => ∃ ip, Detached x sc ip sc')
      (fun _ sc' => Ended F sc (fun sc' => ∃ ip, Detached x sc ip sc') sc') := by
  unfold detachLocked
  refine Plays.bind (Plays.getIp hd (fun ip hip => ?_) (fun _ _ => .same ⟨rfl, rfl⟩)
    fun _ _ _ => .same ⟨rfl, rfl⟩)
  refine Plays.bind (Plays.getProvider hd (Plays.bind ?_) fun _ _ _ => .same ⟨rfl, rfl⟩)
  refine Plays.infra (fun _ => nofun) (fun _ => ?_) fun _ _ _ => .same ⟨rfl, rfl⟩
  have hself : sc.kept.ips ip.id = some ip := by rw [sc.kept.ip_id _ _ hip, hip]
  refine Plays.bind (Plays.assignIp hd hself (Plays.bind (Plays.assignIp rfl ?_ (Plays.bind ?_))))
  · exact Function.update_self ..
  have hput : (sc.kept.putIp { ip with instanceId := none }).putIp ip.detached =
      sc.kept.putIp ip.detached := putIp_putIp _ _ rfl
  have hdone : ∀ sc' : Scene, sc'.kept = sc.kept.putIp ip.detached →
      sc'.cloud = (InfraCall.detachIp ip.externalId).onCloud sc.cloud → Detached x sc ip sc' :=
    fun _ hkept hcloud => ⟨hip, hkept, hcloud⟩
  refine Plays.commit rfl ?_ fun hF _ _ => .ahead hF rfl
  refine Plays.bind (Plays.execute rfl (fun z _ => ?_) fun _ _ _ => .done ⟨ip, hdone _ hput rfl⟩)
  exact Plays.refreshed (fun _ _ => ⟨ip, hdone _ hput rfl⟩) fun _ _ _ =>
    .done ⟨ip, hdone _ hput rfl⟩

theorem detachIp_plays (hd : sc.draft = some sc.kept) :
    Plays F sc (detachIp x) (fun _ sc' => ∃ ip, Detached x sc ip sc')
      (fun _ sc' => Ended F sc (fun sc' => ∃ ip, Detached x sc ip sc') sc') := by
  refine Plays.underIpLock (detachLocked_plays hd) ?_ fun _ => .same Scene.Same.rfl'
  rintro sc' _ (⟨_, h⟩ | ⟨_, h⟩)
  · exact .done h
  · exact h

/-! ## Ending assignments -/

def IpAssignment.endedAt (a : IpAssignment) (t : Instant) : IpAssignment :=
  { a with status := .released, releasedAt := some t }

def BrokerIpUsageHistory.closedAt (u : BrokerIpUsageHistory) (t e : Instant) :
    BrokerIpUsageHistory :=
  { u with releasedAt := some t, reuseEligibleAt := some e }

/-- These usage rows are closed, and nothing else is changed. -/
structure Ledger.Closes (t e : Instant) (S : BrokerIpUsageHistory → Prop)
    (L L' : Ledger) : Prop where
  closed : ∀ u, S u → L'.history u.id = some (u.closedAt t e)
  others : ∀ j, (∀ u, S u → u.id ≠ j) → L'.history j = L.history j
  ips : L'.ips = L.ips
  assignments : L'.assignments = L.assignments
  instances : L'.instances = L.instances
  brokers : L'.brokers = L.brokers
  inflight : L'.inflight = L.inflight
  config : L'.config = L.config
  outbox : L'.outbox = L.outbox

theorem putHistory_closes {t e : Instant} (u : BrokerIpUsageHistory) :
    L.Closes t e (· = u) (L.putHistory (u.closedAt t e)) where
  closed := by
    rintro _ rfl
    exact Function.update_self ..
  others j h := Function.update_of_ne (fun heq => h u rfl heq.symm) ..
  ips := rfl
  assignments := rfl
  instances := rfl
  brokers := rfl
  inflight := rfl
  config := rfl
  outbox := rfl

theorem Ledger.Closes.none {t e : Instant} {S : BrokerIpUsageHistory → Prop} (h : ∀ u, ¬ S u) :
    L.Closes t e S L where
  closed u hu := absurd hu (h u)
  others _ _ := rfl
  ips := rfl
  assignments := rfl
  instances := rfl
  brokers := rfl
  inflight := rfl
  config := rfl
  outbox := rfl

/-- Rows closed after others, by different ids. -/
theorem Ledger.Closes.trans {t e : Instant} {S S' : BrokerIpUsageHistory → Prop} {L' L'' : Ledger}
    (h : L.Closes t e S L') (h' : L'.Closes t e S' L'')
    (hapart : ∀ u, S u → ∀ u', S' u' → u'.id ≠ u.id) :
    L.Closes t e (fun u => S u ∨ S' u) L'' where
  closed := by
    rintro u (hu | hu)
    · rw [h'.others u.id fun u' hu' => hapart u hu u' hu']
      exact h.closed u hu
    · exact h'.closed u hu
  others j hj := by
    rw [h'.others j fun u hu => hj u (.inr hu)]
    exact h.others j fun u hu => hj u (.inl hu)
  ips := h'.ips.trans h.ips
  assignments := h'.assignments.trans h.assignments
  instances := h'.instances.trans h.instances
  brokers := h'.brokers.trans h.brokers
  inflight := h'.inflight.trans h.inflight
  config := h'.config.trans h.config
  outbox := h'.outbox.trans h.outbox

theorem Ledger.Closes.congr {t e : Instant} {S S' : BrokerIpUsageHistory → Prop} {L' : Ledger}
    (h : L.Closes t e S L') (hS : ∀ u, S u ↔ S' u) : L.Closes t e S' L' := by
  have heq : S = S' := funext fun u => propext (hS u)
  exact heq ▸ h

theorem Plays.closeHistory {t e : Instant} {hist : List BrokerIpUsageHistory}
    {Q : Unit → Scene → Prop} (hd : sc.draft = some L) (hrows : ∀ u ∈ hist, L.history u.id = some u)
    (hnodup : (hist.map BrokerIpUsageHistory.id).Nodup)
    (hok : ∀ L', L.Closes t e (· ∈ hist) L' → Q () (sc.drafting L')) :
    Plays F sc (closeHistory t e hist) Q R := by
  induction hist generalizing sc L with
  | nil =>
      have hdraft : sc.drafting L = sc := by rw [Scene.drafting, ← hd]
      refine Plays.pure (hdraft ▸ hok L (Ledger.Closes.none fun _ => List.not_mem_nil))
  | cons u us ih =>
      obtain ⟨hu, hnodup⟩ := List.nodup_cons.mp hnodup
      have hself := hrows u List.mem_cons_self
      refine Plays.bind (Plays.assignHistory hd hself (Plays.bind (Plays.assignHistory rfl
        (Function.update_self ..) ?_)))
      have hput : (L.putHistory { u with releasedAt := some t }).putHistory (u.closedAt t e) =
          L.putHistory (u.closedAt t e) := by
        ext1
        case history => exact Function.update_idem ..
        all_goals rfl
      have hapart : ∀ u' ∈ us, u'.id ≠ u.id := fun u' hu' heq =>
        hu (heq ▸ List.mem_map_of_mem hu')
      refine ih (congrArg some hput) (fun u' hu' => ?_) hnodup fun L' hL' => ?_
      · exact (Function.update_of_ne (hapart u' hu') ..).trans
          (hrows u' (List.mem_cons_of_mem _ hu'))
      · refine hok L' (((putHistory_closes u).trans hL' ?_).congr fun u' => ?_)
        · rintro _ rfl u' hu'
          exact hapart u' hu'
        · rw [List.mem_cons]

/-- These assignments are ended, and with them the open usage rows of their brokers and
the IP. -/
structure Ledger.Ends (x : IpId) (t e : Instant) (S : IpAssignment → Prop)
    (L L' : Ledger) : Prop where
  ended : ∀ a, S a → L'.assignments a.id = some (a.endedAt t)
  others : ∀ j, (∀ a, S a → a.id ≠ j) → L'.assignments j = L.assignments j
  closed : ∀ a u, S a → L.Usage a.brokerAccountId x u → u.releasedAt = none →
    L'.history u.id = some (u.closedAt t e)
  untouched : ∀ u, L.history u.id = some u →
    ¬ (∃ a, S a ∧ L.Usage a.brokerAccountId x u ∧ u.releasedAt = none) →
    L'.history u.id = some u
  fresh : ∀ j, L.history j = none → L'.history j = none
  ips : L'.ips = L.ips
  instances : L'.instances = L.instances
  brokers : L'.brokers = L.brokers
  inflight : L'.inflight = L.inflight
  config : L'.config = L.config
  outbox : L'.outbox = L.outbox

/-- One assignment ended. -/
theorem Plays.releaseAssignment {t e : Instant} {a : IpAssignment} {Q : Unit → Scene → Prop}
    (hd : sc.draft = some L) (ha : L.assignments a.id = some a) (hx : a.staticIpId = x)
    (hok : ∀ L', L.Ends x t e (· = a) L' → Q () (sc.drafting L'))
    (hdb : DbFails F → ∀ (sc' : Scene) (err : Exn), sc'.kept = sc.kept → sc'.cloud = sc.cloud →
      sc'.draft = none → R err sc') :
    Plays F sc (releaseAssignment t e a) Q R := by
  unfold BrokerBridge.releaseAssignment
  refine Plays.bind (Plays.assignAssignment hd ha (Plays.bind (Plays.assignAssignment rfl
    (Function.update_self ..) ?_)))
  have hput : (L.putAssignment { a with status := .released }).putAssignment (a.endedAt t) =
      L.putAssignment (a.endedAt t) := by
    ext1
    case assignments => exact Function.update_idem ..
    all_goals rfl
  refine Plays.bind (Plays.execute (congrArg some hput) (fun hist hhist => ?_)
    fun hF err _ => hdb hF _ err rfl rfl rfl)
  have hmem : ∀ u, u ∈ hist ↔ L.Usage a.brokerAccountId x u ∧ u.releasedAt = none := by
    intro u
    rw [← hx]
    exact hhist.mem u
  refine Plays.closeHistory (congrArg some hput) (fun u hu => ((hmem u).mp hu).1.1) hhist.nodup
    fun L' hL' => hok L' ?_
  exact
    { ended := by
        rintro _ rfl
        rw [hL'.assignments]
        exact Function.update_self ..
      others := fun j hj => by
        rw [hL'.assignments]
        exact Function.update_of_ne (fun heq => hj a rfl heq.symm) ..
      closed := by
        rintro _ u rfl hu hopen
        exact hL'.closed u ((hmem u).mpr ⟨hu, hopen⟩)
      untouched := fun u hu hnot => by
        refine (hL'.others u.id fun u' hu' heq => hnot ?_).trans hu
        obtain ⟨hu'', hopen⟩ := (hmem u').mp hu'
        have hsame : u' = u := by
          have := hu''.1
          rw [heq] at this
          exact Option.some_inj.mp (this.symm.trans hu)
        exact ⟨a, rfl, hsame ▸ hu'', hsame ▸ hopen⟩
      fresh := fun j hj => by
        refine (hL'.others j fun u hu heq => ?_).trans hj
        have := ((hmem u).mp hu).1.1
        rw [heq] at this
        cases this.symm.trans hj
      ips := hL'.ips
      instances := hL'.instances
      brokers := hL'.brokers
      inflight := hL'.inflight
      config := hL'.config
      outbox := hL'.outbox }

theorem Ledger.Ends.none {t e : Instant} {S : IpAssignment → Prop} (h : ∀ a, ¬ S a) :
    L.Ends x t e S L where
  ended a ha := absurd ha (h a)
  others _ _ := rfl
  closed a _ ha _ _ := absurd ha (h a)
  untouched _ hu _ := hu
  fresh _ hj := hj
  ips := rfl
  instances := rfl
  brokers := rfl
  inflight := rfl
  config := rfl
  outbox := rfl

theorem Ledger.Ends.trans {t e : Instant} {S S' : IpAssignment → Prop} {L' L'' : Ledger}
    (h : L.Ends x t e S L') (h' : L'.Ends x t e S' L'')
    (hapart : ∀ a, S a → ∀ a', S' a' → a'.id ≠ a.id) :
    L.Ends x t e (fun a => S a ∨ S' a) L'' where
  ended := by
    rintro a (ha | ha)
    · rw [h'.others a.id fun a' ha' => hapart a ha a' ha']
      exact h.ended a ha
    · exact h'.ended a ha
  others j hj := by
    rw [h'.others j fun a ha => hj a (.inr ha)]
    exact h.others j fun a ha => hj a (.inl ha)
  closed := by
    -- A row that the first part has closed is not open for the second.
    have hkept : ∀ a u, S a → L.Usage a.brokerAccountId x u → u.releasedAt = Option.none →
        L''.history u.id = some (u.closedAt t e) := by
      intro a u ha hu hopen
      refine h'.untouched (u.closedAt t e) (h.closed a u ha hu hopen) ?_
      rintro ⟨_, _, _, hclosed⟩
      cases hclosed
    rintro a u (ha | ha) hu hopen
    · exact hkept a u ha hu hopen
    · by_cases hfirst : ∃ a', S a' ∧ L.Usage a'.brokerAccountId x u ∧ u.releasedAt = Option.none
      · obtain ⟨a', ha', hu', _⟩ := hfirst
        exact hkept a' u ha' hu' hopen
      · exact h'.closed a u ha ⟨h.untouched u hu.1 hfirst, hu.2⟩ hopen
  untouched u hu hnot := by
    have hfirst := h.untouched u hu fun ⟨a, ha, hu'⟩ => hnot ⟨a, .inl ha, hu'⟩
    refine h'.untouched u hfirst ?_
    rintro ⟨a, ha, ⟨_, hu'⟩, hopen⟩
    exact hnot ⟨a, .inr ha, ⟨hu, hu'⟩, hopen⟩
  fresh j hj := h'.fresh j (h.fresh j hj)
  ips := h'.ips.trans h.ips
  instances := h'.instances.trans h.instances
  brokers := h'.brokers.trans h.brokers
  inflight := h'.inflight.trans h.inflight
  config := h'.config.trans h.config
  outbox := h'.outbox.trans h.outbox

theorem Plays.releaseAssignments {t e : Instant} {as : List IpAssignment}
    {Q : Unit → Scene → Prop} (hd : sc.draft = some L)
    (ha : ∀ a ∈ as, L.assignments a.id = some a ∧ a.staticIpId = x)
    (hnodup : (as.map IpAssignment.id).Nodup)
    (hok : ∀ L', L.Ends x t e (· ∈ as) L' → Q () (sc.drafting L'))
    (hdb : DbFails F → ∀ (sc' : Scene) (err : Exn), sc'.kept = sc.kept → sc'.cloud = sc.cloud →
      sc'.draft = none → R err sc') :
    Plays F sc (releaseAssignments t e as) Q R := by
  induction as generalizing sc L with
  | nil =>
      have hdraft : sc.drafting L = sc := by rw [Scene.drafting, ← hd]
      exact Plays.pure (hdraft ▸ hok L (Ledger.Ends.none fun _ => List.not_mem_nil))
  | cons a as ih =>
      obtain ⟨hnot, hnodup⟩ := List.nodup_cons.mp hnodup
      obtain ⟨hself, hx⟩ := ha a List.mem_cons_self
      have hapart : ∀ a' ∈ as, a'.id ≠ a.id := fun a' ha' heq =>
        hnot (heq ▸ List.mem_map_of_mem ha')
      refine Plays.bind (Plays.releaseAssignment hd hself hx (fun L₁ hL₁ => ?_) hdb)
      refine ih rfl (fun a' ha' => ?_) hnodup (fun L' hL' => ?_) hdb
      · rw [hL₁.others a'.id fun _ h => h ▸ Ne.symm (hapart a' ha')]
        exact ha a' (List.mem_cons_of_mem _ ha')
      · have hboth := hL₁.trans hL' fun _ h a' ha' => h ▸ hapart a' ha'
        have hS : (fun a' => a' = a ∨ a' ∈ as) = (· ∈ a :: as) :=
          funext fun a' => propext List.mem_cons.symm
        exact hok L' (hS ▸ hboth)

/-! ## Releasing -/

/-- The cooldown in force. -/
def Config.cooldown (s : Settings) (c : Config) : Option Int :=
  match c.cooldownHours with
  | some (.value n) => some n
  | some .bad => none
  | none => some s.ipReuseCooldownHours

theorem Plays.cooldownHours {s : Settings} {Q : Int → Scene → Prop} (hd : sc.draft = some L)
    (hok : ∀ n, L.config.cooldown s = some n → Q n sc)
    (hbad : ∀ e : Exn, e.Plain → L.config.cooldown s = none → R e sc)
    (hdb : DbFails F → ∀ e : Exn, e.Plain → R e sc.broken) :
    Plays F sc (cooldownHours s) Q R := by
  unfold BrokerBridge.cooldownHours
  refine Plays.bind (Plays.execute hd (fun config hconfig => ?_) hdb)
  have hconfig' : config = L.config := hconfig
  unfold Config.cooldown at hok hbad
  rw [← hconfig'] at hok hbad
  split
  · next y hy =>
      rw [hy] at hok hbad
      cases y with
      | value n => exact Plays.pure (hok n rfl)
      | bad => exact Plays.raise (hbad _ trivial rfl)
  · next hy =>
      rw [hy] at hok
      exact Plays.pure (hok _ rfl)

/-- The active assignments of the IP are ended, and it is released, on both sides. -/
structure Released (s : Settings) (x : IpId) (sc : Scene) (ip : StaticIp) (t : Instant) (n : Int)
    (L' : Ledger) (sc' : Scene) : Prop where
  found : sc.kept.ips x = some ip
  loose : ip.status ≠ .attached
  cooldown : sc.kept.config.cooldown s = some n
  time : t ∈ sc'.readings
  ends : sc.kept.Ends x t (t + n * hour) (sc.kept.ActiveOn x) L'
  kept : sc'.kept = (L'.putIp { ip with status := .released }).announce
    (.ipReleased ip.id ip.ipAddress ip.region)
  cloud : sc'.cloud = (InfraCall.deleteIp ip.externalId).onCloud sc.cloud

theorem releaseLocked_plays (s : Settings) (hd : sc.draft = some sc.kept) :
    Plays F sc (releaseLocked s x) (fun _ sc' => ∃ ip t n L', Released s x sc ip t n L' sc')
      (fun _ sc' => Ended F sc (fun sc' => ∃ ip t n L', Released s x sc ip t n L' sc') sc') := by
  have hsame : ∀ sc' : Scene, sc'.kept = sc.kept → sc'.cloud = sc.cloud →
      Ended F sc (fun sc' => ∃ ip t n L', Released s x sc ip t n L' sc') sc' :=
    fun _ hkept hcloud => .same ⟨hkept, hcloud⟩
  unfold releaseLocked
  refine Plays.bind (Plays.getIp hd (fun ip hip => ?_) (fun _ _ => hsame sc rfl rfl)
    fun _ _ _ => hsame sc.broken rfl rfl)
  split
  · exact Plays.raise (hsame sc rfl rfl)
  next hloose =>
  refine Plays.bind (Plays.cooldownHours hd (fun n hn => ?_) (fun _ _ _ => hsame sc rfl rfl)
    fun _ _ _ => hsame sc.broken rfl rfl)
  refine Plays.bind (Plays.now fun t ht => Plays.bind (Plays.execute hd (fun rows hrows => ?_)
    fun _ _ _ => hsame _ rfl rfl))
  refine Plays.bind (Plays.releaseAssignments (x := x) hd (fun a ha => ?_) hrows.nodup
    (fun L' hL' => ?_) fun _ sc' _ hkept hcloud _ => hsame sc' hkept hcloud)
  · have hact := (hrows.mem a).mp ha
    exact ⟨hact.1, hact.2.1⟩
  have hS : (fun a => a ∈ rows) = sc.kept.ActiveOn x := funext fun a => propext (hrows.mem a)
  rw [hS] at hL'
  refine Plays.bind ?_
  refine Plays.getProvider rfl (Plays.bind ?_) fun _ _ _ => hsame _ rfl rfl
  refine Plays.infra (fun _ => nofun) (fun _ => ?_) fun _ _ _ => hsame _ rfl rfl
  have hself : L'.ips ip.id = some ip := by rw [hL'.ips, sc.kept.ip_id _ _ hip, hip]
  refine Plays.bind (Plays.assignIp rfl hself
    (Plays.bind (Plays.enqueueOutbox rfl (Plays.bind ?_))))
  have hdone : ∀ sc' : Scene, sc'.kept = (L'.putIp { ip with status := .released }).announce
        (.ipReleased ip.id ip.ipAddress ip.region) →
      sc'.cloud = (InfraCall.deleteIp ip.externalId).onCloud sc.cloud →
      sc'.readings = sc.readings ++ [t] → Released s x sc ip t n L' sc' :=
    fun _ hkept hcloud hread =>
      { found := hip
        loose := hloose
        cooldown := hn
        time := by
          rw [hread]
          exact List.mem_append_right _ (List.mem_singleton_self t)
        ends := hL'
        kept := hkept
        cloud := hcloud }
  refine Plays.commit rfl ?_ fun hF _ _ => .ahead hF rfl
  refine Plays.bind (Plays.execute rfl (fun y _ => ?_)
    fun _ _ _ => .done ⟨ip, t, n, L', hdone _ rfl rfl rfl⟩)
  exact Plays.refreshed (fun _ _ => ⟨ip, t, n, L', hdone _ rfl rfl rfl⟩)
    fun _ _ _ => .done ⟨ip, t, n, L', hdone _ rfl rfl rfl⟩

theorem releaseIp_plays (s : Settings) (hd : sc.draft = some sc.kept) :
    Plays F sc (releaseIp s x) (fun _ sc' => ∃ ip t n L', Released s x sc ip t n L' sc')
      (fun _ sc' => Ended F sc (fun sc' => ∃ ip t n L', Released s x sc ip t n L' sc') sc') := by
  refine Plays.underIpLock (releaseLocked_plays s hd) ?_ fun _ => .same Scene.Same.rfl'
  rintro sc' _ (⟨_, h⟩ | ⟨_, h⟩)
  · exact .done h
  · exact h

end Operations

end BrokerBridge
