import BrokerBridge.Infra.Backends
import BrokerBridge.Fleet.Created

/-!
# The world's provider is either mock backend

The world answers the calls of the provider itself, from its own two lists and with an
environment that settles what may go wrong. Here the backends answer beside it, in any
sequence of requests: each call that a backend serves or refuses the world can serve or
refuse in the same way, and afterwards it still has what the backend has.

What a backend has of an IP the world has too. With instances the two backends differ: the
Docker backend takes no notice of an instance it did not make, where the other, and so the
world, keeps track of it from then on.
-/

namespace BrokerBridge.Infra

open Conc

/-! ## What the world has -/

def IpResource.cloudIp (r : IpResource) : CloudIp where
  externalId := r.externalId
  ipAddress := r.ipAddress.getD ""
  status := r.status
  instanceExternalId := r.instanceExternalId

/-- An instance with its status. -/
def InstanceResource.cloud (r : InstanceResource) : ExternalId × InstanceStatus :=
  (r.externalId, r.status)

/-- The world has these instances. -/
def Known (t : Table InstanceResource) (w : World) : Prop :=
  ∀ r ∈ t.rows, r.cloud ∈ w.cloudInstances

/-- The world has what the backend has. -/
def MockInfrastructureProvider.Mirrored : MockInfrastructureProvider → World → Prop
  | .database b, w => w.cloudIps = b.pool.ips.rows.map IpResource.cloudIp ∧
      w.cloudInstances = b.instances.rows.map InstanceResource.cloud
  | .docker b, w => w.cloudIps = b.pool.ips.rows.map IpResource.cloudIp ∧ Known b.instances w

/-- Exceptions that the same handlers catch; their texts may differ. -/
def SameKind : Exn → Exn → Prop
  | .infra .., .infra .. => True
  | .other _, .other _ => True
  | _, _ => False

def SameAnswer {α : Type} : Except Exn α → Except Exn α → Prop
  | .ok x, .ok y => x = y
  | .error exc, .error exc' => SameKind exc exc'
  | _, _ => False

/-! ## Requests in sequence -/

inductive Asked where
  /-- A request of the world, with what settles its answer and the provider's. -/
  | request (req : Req) (env : Env) (tape : Tape)
  /-- The provider's probe switch. -/
  | setProbeFail (enabled : Bool)

/-- The provider's next id is the world's. -/
def Tape.drawing (t : Tape) (ext : ExternalId) : Tape := { t with uuid := ext }

/-- The world's provider stays with the backend: the backend answers each call in turn, and
for some environment the world gives the same answer. The world has no switch; what one
does is left to its environment. -/
def Follows : List Asked → MockInfrastructureProvider → World → Prop
  | [], p, w => p.Mirrored w
  | .setProbeFail enabled :: as, p, w => p.Mirrored w ∧ Follows as (p.setProbeFail enabled) w
  | .request req env tape :: as, p, w =>
      p.Mirrored w ∧
      match req with
      | .infra c =>
          let t := tape.drawing w.freshId
          ∃ e : Env, SameAnswer (p.call c t).1 (handle (.infra c) e w).1 ∧
            Follows as (p.call c t).2 (handle (.infra c) e w).2
      | r => Follows as p (handle r env w).2

/-! ## The rows of a table -/

/-- Updating a row updates what is seen of it. -/
theorem map_update {α β : Type} [Row α] {t : Table α} {k : Nat} {f : Row.Field α} {see : α → β}
    (key : β → Nat) {g : β → β} (hkey : ∀ a, key (see a) = Row.key a)
    (hset : ∀ a, see (Row.set f a) = g (see a)) :
    (t.update k f).rows.map see =
      (t.rows.map see).map fun x => if key x = k then g x else x := by
  rw [Table.update, List.map_map, List.map_map]
  refine List.map_congr_left fun a _ => ?_
  simp only [Function.comp, hkey]
  split
  · exact hset a
  · rfl

theorem map_update_same {α β : Type} [Row α] {t : Table α} {k : Nat} {f : Row.Field α}
    {see : α → β} (hset : ∀ a, see (Row.set f a) = see a) :
    (t.update k f).rows.map see = t.rows.map see := by
  rw [Table.update, List.map_map]
  refine List.map_congr_left fun a _ => ?_
  simp only [Function.comp]
  split
  · exact hset a
  · rfl

/-- A row that is not there is not updated. -/
theorem update_of_absent {α : Type} [Row α] {t : Table α} {k : Nat} {f : Row.Field α}
    (h : t.get? k = none) : t.update k f = t := by
  ext1
  refine (List.map_congr_left fun a ha => ?_).trans (List.map_id _)
  have hk : Row.key a ≠ k := fun hk =>
    Table.get?_eq_none.mp h (List.mem_map.mpr ⟨a, ha, hk⟩)
  exact if_neg hk

/-! ## IPs -/

section Ips

variable {p : IpPool} {w : World} {e : Env} {ext : ExternalId}

theorem ips_update {f : IpResourceField} {g : CloudIp → CloudIp}
    (h : w.cloudIps = p.ips.rows.map IpResource.cloudIp)
    (hset : ∀ r, (f.set r).cloudIp = g r.cloudIp) :
    (w.setCloudIp ext g).cloudIps = (p.ips.update ext f).rows.map IpResource.cloudIp := by
  rw [map_update CloudIp.externalId (g := g) (fun _ => rfl) hset, ← h]
  rfl

/-- The world's ids of IPs are the keys of the pool. -/
theorem ips_keys (h : w.cloudIps = p.ips.rows.map IpResource.cloudIp) :
    w.cloudIps.map CloudIp.externalId = p.ips.rows.map Row.key := by
  rw [h, List.map_map]
  rfl

theorem any_iff_isSome (h : w.cloudIps = p.ips.rows.map IpResource.cloudIp) :
    w.cloudIps.any (·.externalId == ext) = (p.ips.get? ext).isSome := by
  have hkeys : (∃ ip ∈ w.cloudIps, ip.externalId = ext) ↔ ext ∈ p.ips.rows.map Row.key := by
    rw [← ips_keys h, List.mem_map]
  rw [Bool.eq_iff_iff, List.any_eq_true, Option.isSome_iff_ne_none, ne_eq, Table.get?_eq_none,
    not_not, ← hkeys]
  simp only [beq_iff_eq]

theorem ips_deleteIp (h : w.cloudIps = p.ips.rows.map IpResource.cloudIp) :
    ((InfraCall.deleteIp ext).eval e w).2.cloudIps =
      (p.deleteIp ext).ips.rows.map IpResource.cloudIp :=
  ips_update h fun _ => rfl

theorem ips_detachIp (h : w.cloudIps = p.ips.rows.map IpResource.cloudIp) :
    ((InfraCall.detachIp ext).eval e w).2.cloudIps =
      (p.detachIp ext).ips.rows.map IpResource.cloudIp :=
  ips_update h fun _ => rfl

theorem ips_attachIp {instExt : ExternalId} (h : w.cloudIps = p.ips.rows.map IpResource.cloudIp) :
    ((InfraCall.attachIp ext instExt).eval e w).2.cloudIps =
      (p.attachIp ext instExt).ips.rows.map IpResource.cloudIp := by
  simp only [InfraCall.eval, IpPool.attachIp, any_iff_isSome h]
  cases hext : p.ips.get? ext with
  | some r => exact ips_update h fun _ => rfl
  | none =>
      show w.cloudIps ++ [_] = _
      rw [Table.rows_insert hext, List.map_append, h]
      rfl

theorem ips_setAutoRenew {enabled : Bool} :
    (p.setAutoRenew ext enabled).ips.rows.map IpResource.cloudIp =
      p.ips.rows.map IpResource.cloudIp :=
  map_update_same fun _ => rfl

/-- The id of a new IP is taken by none of the pool. -/
theorem get?_freshId (h : w.cloudIps = p.ips.rows.map IpResource.cloudIp) :
    p.ips.get? w.freshId = none := by
  rw [Table.get?_eq_none, ← ips_keys h]
  exact freshId_not_mem_cloudIps

/-- An IP is made with the address that the allocator found. -/
theorem ips_createIp {region : Region} {t : Tape} {r : IpResource}
    (h : w.cloudIps = p.ips.rows.map IpResource.cloudIp) (ht : t.uuid = w.freshId)
    (hr : r.instanceExternalId = none)
    (he : e.address = (DocNet.nextAddress p.used p.counter t.salts).1) :
    ((InfraCall.createIp region).eval e w).2.cloudIps =
      (p.createIp region t r).2.ips.rows.map IpResource.cloudIp := by
  have hfree : p.ips.get? t.uuid = none := ht ▸ get?_freshId h
  simp only [InfraCall.eval, IpPool.createIp]
  rw [Table.rows_insert hfree, List.map_append, h, he, ← ht]
  simp only [List.map_cons, List.map_nil, IpResource.cloudIp, hr, Option.getD_some]

end Ips

/-! ## Instances -/

section Instances

variable {t : Table InstanceResource} {w : World} {ext : ExternalId} {st : InstanceStatus}

theorem ids_of_cloud (h : w.cloudInstances = t.rows.map InstanceResource.cloud) :
    w.cloudInstances.map (·.1) = t.rows.map Row.key := by
  rw [h, List.map_map]
  rfl

theorem instances_update (h : w.cloudInstances = t.rows.map InstanceResource.cloud)
    (hext : ext ∈ w.cloudInstances.map (·.1)) :
    (w.setCloudInstance ext st).cloudInstances =
      (t.update ext (InstanceResourceField.status st)).rows.map InstanceResource.cloud := by
  have hset : ∀ r : InstanceResource,
      ((InstanceResourceField.status st).set r).cloud = (r.cloud.1, st) := fun _ => rfl
  rw [map_update Prod.fst (g := fun i => (i.1, st)) (fun _ => rfl) hset, ← h,
    World.setCloudInstance, if_pos hext]
  refine List.map_congr_left fun i _ => ?_
  split
  · next hi => rw [← hi]
  · rfl

theorem instances_insert {r : InstanceResource}
    (h : w.cloudInstances = t.rows.map InstanceResource.cloud)
    (hext : r.externalId ∉ w.cloudInstances.map (·.1)) :
    w.cloudInstances ++ [r.cloud] = (t.insert r).rows.map InstanceResource.cloud := by
  rw [ids_of_cloud h] at hext
  rw [Table.rows_insert (Table.get?_eq_none.mpr hext), List.map_append, h]
  rfl

theorem freshId_not_mem_cloudInstances : w.freshId ∉ w.cloudInstances.map (·.1) := by
  intro hmem
  obtain ⟨i, hi, heq⟩ := List.mem_map.mp hmem
  exact absurd heq (Nat.ne_of_lt (lt_freshId_of_cloudInstance hi))

/-- The instance is tracked, whether or not it was before. -/
theorem instances_track {b : DatabaseMockBackend}
    (h : w.cloudInstances = b.instances.rows.map InstanceResource.cloud) :
    (w.setCloudInstance ext st).cloudInstances =
      (b.track ext st).instances.rows.map InstanceResource.cloud := by
  unfold DatabaseMockBackend.track
  cases hext : b.instances.get? ext with
  | some r =>
      refine instances_update h ?_
      rw [ids_of_cloud h]
      exact List.mem_map.mpr ⟨r, (Table.get?_eq_some.mp hext).1, Table.get?_key hext⟩
  | none =>
      have hnot : ext ∉ w.cloudInstances.map (·.1) := by
        rw [ids_of_cloud h]
        exact Table.get?_eq_none.mp hext
      rw [World.setCloudInstance, if_neg hnot]
      exact instances_insert (r := { externalId := ext
                                     status := st
                                     provider := some "mock"
                                     backend := some "database" }) h hnot

theorem mem_setCloudInstance : (ext, st) ∈ (w.setCloudInstance ext st).cloudInstances := by
  simp only [World.setCloudInstance]
  split
  · next hext =>
      obtain ⟨i, hi, heq⟩ := List.mem_map.mp hext
      exact List.mem_map.mpr ⟨i, hi, if_pos heq⟩
  · exact List.mem_append_right _ (List.mem_singleton_self _)

theorem mem_setCloudInstance_of_ne {i : ExternalId × InstanceStatus} (hi : i ∈ w.cloudInstances)
    (hne : i.1 ≠ ext) : i ∈ (w.setCloudInstance ext st).cloudInstances := by
  simp only [World.setCloudInstance]
  split
  · exact List.mem_map.mpr ⟨i, hi, if_neg hne⟩
  · exact List.mem_append_left _ hi

/-- The world sets the status of an instance, and the backend too if it has it. -/
theorem Known.setStatus (h : Known t w) :
    Known (t.update ext (InstanceResourceField.status st)) (w.setCloudInstance ext st) := by
  intro r hr
  rcases Table.mem_rows_update.mp hr with ⟨hr, hne⟩ | ⟨b, hb, rfl⟩
  · exact mem_setCloudInstance_of_ne (h r hr) hne
  · have hkey : b.externalId = ext := Table.get?_key hb
    show (b.externalId, st) ∈ _
    rw [hkey]
    exact mem_setCloudInstance

theorem Known.get?_eq_none (h : Known t w) (hext : ext ∉ w.cloudInstances.map (·.1)) :
    t.get? ext = none := by
  rw [Table.get?_eq_none]
  intro hmem
  obtain ⟨r, hr, heq⟩ := List.mem_map.mp hmem
  exact hext (List.mem_map.mpr ⟨r.cloud, h r hr, heq⟩)

theorem Known.insert {r : InstanceResource} {w' : World} (h : Known t w)
    (hcloud : w'.cloudInstances = w.cloudInstances ++ [r.cloud])
    (hext : r.externalId ∉ w.cloudInstances.map (·.1)) : Known (t.insert r) w' := by
  intro r' hr'
  rw [hcloud]
  rcases (Table.mem_rows_insert (h.get?_eq_none hext)).mp hr' with hr' | rfl
  · exact List.mem_append_left _ (h r' hr')
  · exact List.mem_append_right _ (List.mem_singleton_self _)

theorem Known.setAutoRenew {enabled : Bool} (h : Known t w) :
    Known (t.update ext (InstanceResourceField.autoRenew enabled)) w := by
  intro r hr
  rcases Table.mem_rows_update.mp hr with ⟨hr, _⟩ | ⟨b, hb, rfl⟩
  · exact h r hr
  · exact h b (Table.get?_eq_some.mp hb).1

end Instances

/-! ## What the backends do -/

/-- The world can raise one that the same handlers catch. -/
def Reported (exc : Exn) : Prop := ∃ f : Fault, SameKind exc (f.exn infraError)

theorem reported_infra (code message : String) (status : Nat) :
    Reported (.infra code message status) := ⟨.failed, trivial⟩

theorem reported_other (message : String) : Reported (.other message) := ⟨.failedOtherwise, trivial⟩

namespace DatabaseMockBackend

variable {b : DatabaseMockBackend}

theorem createIp_cases (b : DatabaseMockBackend) (region : Region) (t : Tape) :
    (∃ exc, b.createIp region t = (.error exc, b) ∧ Reported exc) ∨
    ∃ r : IpResource, r.instanceExternalId = none ∧ b.createIp region t =
      (.ok (b.pool.createIp region t r).1, { b with pool := (b.pool.createIp region t r).2 }) := by
  unfold createIp
  split
  · exact .inl ⟨_, rfl, reported_infra _ _ _⟩
  · exact .inr ⟨_, rfl, rfl⟩

theorem createInstance_cases (b : DatabaseMockBackend) (region : Region) (t : Tape) :
    (∃ exc, b.createInstance region t = (.error exc, b) ∧ Reported exc) ∨
    ∃ r, b.createInstance region t = (.ok r, { b with instances := b.instances.insert r }) ∧
      r.externalId = t.uuid ∧ r.status = .running := by
  unfold createInstance
  split
  · exact .inl ⟨_, rfl, reported_infra _ _ _⟩
  · exact .inr ⟨_, rfl, rfl, rfl⟩

theorem track_pool {ext : ExternalId} {st : InstanceStatus} : (b.track ext st).pool = b.pool := by
  unfold track
  split <;> rfl

end DatabaseMockBackend

namespace DockerMockBackend

variable {b b' : DockerMockBackend} {t : Tape} {ext : ExternalId}

/-- Nothing but the client differs. -/
structure SameResources (b b' : DockerMockBackend) : Prop where
  pool : b'.pool = b.pool
  instances : b'.instances = b.instances

theorem getClient_cases (b : DockerMockBackend) (t : Tape) :
    (∃ exc, b.getClient t = .error exc ∧ Reported exc) ∨
    ∃ b', b.getClient t = .ok b' ∧ SameResources b b' := by
  unfold getClient
  split
  · exact .inr ⟨b, rfl, rfl, rfl⟩
  · split
    · cases t.engine.client with
      | ok _ => exact .inr ⟨_, rfl, rfl, rfl⟩
      | error exc => exact .inl ⟨_, rfl, reported_infra _ _ _⟩
    · exact .inl ⟨_, rfl, reported_infra _ _ _⟩

theorem createIp_cases (b : DockerMockBackend) (region : Region) (t : Tape) :
    (∃ exc, b.createIp region t = (.error exc, b) ∧ Reported exc) ∨
    ∃ r : IpResource, r.instanceExternalId = none ∧ b.createIp region t =
      (.ok (b.pool.createIp region t r).1, { b with pool := (b.pool.createIp region t r).2 }) := by
  unfold createIp
  split
  · exact .inl ⟨_, rfl, reported_infra _ _ _⟩
  · exact .inr ⟨_, rfl, rfl⟩

/-- Looking for a container changes no resource. -/
theorem containerFor_cases (b : DockerMockBackend) (ext : ExternalId) (t : Tape) :
    ∃ x b', b.containerFor ext t = (x, b') ∧ SameResources b b' ∧
      ∀ exc, x = .error exc → Reported exc := by
  unfold containerFor
  rcases getClient_cases b t with ⟨exc, heq, hexc⟩ | ⟨b', heq, hsame⟩
  · rw [heq]
    refine ⟨.error exc, b, rfl, ⟨rfl, rfl⟩, ?_⟩
    rintro _ ⟨⟩
    exact hexc
  · rw [heq]
    have hlabelled : ∀ exc, t.engine.labelled = .error exc → Reported exc := by
      intro exc
      unfold Engine.labelled
      cases t.engine.list with
      | ok _ => rintro ⟨⟩
      | error exc' =>
          rintro ⟨⟩
          exact reported_other exc'
    dsimp only
    split
    · exact ⟨_, b', rfl, hsame, hlabelled⟩
    · exact ⟨_, b', rfl, hsame, hlabelled⟩
    · cases t.engine.get with
      | ok container => exact ⟨_, b', rfl, hsame, fun exc heq => by cases heq⟩
      | error _ => exact ⟨_, b', rfl, hsame, hlabelled⟩

/-- A container that does not obey leaves the status, and the call raises. -/
theorem turn_cases (b : DockerMockBackend) (ext : ExternalId) (t : Tape)
    (told : Except String Unit) (code message : String) (st : InstanceStatus) :
    (∃ exc b', b.turn ext t told code message st = (.error exc, b') ∧ SameResources b b' ∧
      Reported exc) ∨
    ∃ b', b.turn ext t told code message st = (.ok (), b'.setStatus ext st) ∧
      SameResources b b' := by
  obtain ⟨x, b', heq, hsame, hexc⟩ := containerFor_cases b ext t
  rw [turn, heq]
  cases x with
  | error exc => exact .inl ⟨exc, b', rfl, hsame, hexc exc rfl⟩
  | ok container =>
      cases container with
      | none => exact .inr ⟨b', rfl, hsame⟩
      | some _ =>
          cases told with
          | error exc => exact .inl ⟨_, b', rfl, hsame, reported_infra _ _ _⟩
          | ok _ => exact .inr ⟨b', rfl, hsame⟩

theorem destroyInstance_cases (b : DockerMockBackend) (ext : ExternalId) (t : Tape) :
    (∃ exc b', b.destroyInstance ext t = (.error exc, b') ∧ SameResources b b' ∧
      Reported exc) ∨
    ∃ b', b.destroyInstance ext t = (.ok (), b'.setStatus ext .destroyed) ∧
      SameResources b b' := by
  obtain ⟨x, b', heq, hsame, hexc⟩ := containerFor_cases b ext t
  rw [destroyInstance, heq]
  cases x with
  | error exc => exact .inl ⟨exc, b', rfl, hsame, hexc exc rfl⟩
  | ok _ => exact .inr ⟨b', rfl, hsame⟩

/-- A new instance has its container; what goes wrong leaves nothing behind. -/
theorem createInstance_cases (b : DockerMockBackend) (region : Region) (t : Tape) :
    (∃ exc b', b.createInstance region t = (.error exc, b') ∧ SameResources b b' ∧
      Reported exc) ∨
    ∃ r b', b.createInstance region t = (.ok r, { b' with instances := b'.instances.insert r }) ∧
      SameResources b b' ∧ r.externalId = t.uuid ∧ r.status = .running := by
  unfold createInstance
  split
  · exact .inl ⟨_, b, rfl, ⟨rfl, rfl⟩, reported_infra _ _ _⟩
  · rcases getClient_cases b t with ⟨exc, heq, hexc⟩ | ⟨b', heq, hsame⟩
    · rw [heq]
      exact .inl ⟨exc, b, rfl, ⟨rfl, rfl⟩, hexc⟩
    · rw [heq]
      cases t.engine.run with
      | error exc => exact .inl ⟨_, b', rfl, hsame, reported_infra _ _ _⟩
      | ok container => exact .inr ⟨_, b', rfl, hsame, rfl, rfl⟩

end DockerMockBackend

/-! ## One call -/

section Call

variable {p v : MockInfrastructureProvider} {c : InfraCall} {t : Tape} {w : World}

/-- Some environment makes the world answer the call as the backend does. -/
def Served (p : MockInfrastructureProvider) (c : InfraCall) (t : Tape) (w : World) : Prop :=
  ∃ e : Env, SameAnswer (p.call c t).1 (handle (.infra c) e w).1 ∧
    (p.call c t).2.Mirrored (handle (.infra c) e w).2

theorem served_of_ok {x : c.Res} (e : Env) (he : e.fault = none) (hcall : p.call c t = (.ok x, v))
    (hx : x = (c.eval e w).1) (h : v.Mirrored (c.eval e w).2) : Served p c t w := by
  have hans : handle (.infra c) e w = (.ok (c.eval e w).1, (c.eval e w).2) :=
    Env.answer_of_fine he
  refine ⟨e, ?_⟩
  rw [hcall, hans]
  exact ⟨hx, h⟩

theorem served_of_error {exc : Exn} (hcall : p.call c t = (.error exc, v)) (hexc : Reported exc)
    (h : v.Mirrored w) : Served p c t w := by
  obtain ⟨f, hkind⟩ := hexc
  have hans : ∀ e : Env, e.fault = some f →
      handle (.infra c) e w = (.error (f.exn infraError), w) := fun e he => Env.answer_of_fault he
  refine ⟨{ fault := some f }, ?_⟩
  rw [hcall, hans _ rfl]
  exact ⟨hkind, h⟩

variable {e : Env} {ext : ExternalId}

theorem eval_attachIp_cloudInstances {instExt : ExternalId} :
    ((InfraCall.attachIp ext instExt).eval e w).2.cloudInstances = w.cloudInstances := by
  simp only [InfraCall.eval]
  split <;> rfl

theorem eval_destroyInstance_cloudIps :
    ((InfraCall.destroyInstance ext).eval e w).2.cloudIps = w.cloudIps := by
  simp only [InfraCall.eval]
  split <;> rfl

theorem eval_setAutoRenew_cloudIps {enabled : Bool} :
    ((InfraCall.setAutoRenew ext enabled).eval e w).2.cloudIps = w.cloudIps := by
  simp only [InfraCall.eval]
  split <;> rfl

theorem instances_setAutoRenew {b : DatabaseMockBackend} {enabled : Bool}
    (h : (MockInfrastructureProvider.database b).Mirrored w) :
    ((InfraCall.setAutoRenew ext enabled).eval e w).2.cloudInstances =
      (b.setAutoRenew ext enabled).instances.rows.map InstanceResource.cloud := by
  obtain ⟨hips, hinstances⟩ := h
  have hinst : (b.instances.get? ext).isSome ↔ ext ∈ w.cloudInstances.map (·.1) := by
    rw [ids_of_cloud hinstances, Option.isSome_iff_ne_none, ne_eq, Table.get?_eq_none, not_not]
  simp only [InfraCall.eval, DatabaseMockBackend.setAutoRenew, hinst, ← any_iff_isSome hips]
  by_cases hext : ext ∈ w.cloudInstances.map (·.1)
  · rw [if_pos (.inl hext), if_pos hext, map_update_same fun _ => rfl]
    exact hinstances
  · by_cases hip : w.cloudIps.any (·.externalId == ext)
    · rw [if_pos (.inr hip), if_neg hext, if_pos hip]
      exact hinstances
    · rw [if_neg (not_or.mpr ⟨hext, hip⟩), if_neg hext, if_neg hip, World.setCloudInstance,
        if_neg hext]
      exact instances_insert (r := { externalId := ext
                                     autoRenew := some enabled
                                     status := .running
                                     provider := some "mock"
                                     backend := some "database" }) hinstances hext

/-- Both backends make an IP in the same way. -/
theorem served_createIp {region : Region} {b : IpPool} {r : IpResource}
    (hips : w.cloudIps = b.ips.rows.map IpResource.cloudIp) (ht : t.uuid = w.freshId)
    (hr : r.instanceExternalId = none)
    (hcall : p.call (.createIp region) t =
      (.ok (t.uuid, (DocNet.nextAddress b.used b.counter t.salts).1), v))
    (h : ∀ e, ((InfraCall.createIp region).eval e w).2.cloudIps =
      (b.createIp region t r).2.ips.rows.map IpResource.cloudIp →
      v.Mirrored ((InfraCall.createIp region).eval e w).2) :
    Served p (.createIp region) t w := by
  refine served_of_ok { address := (DocNet.nextAddress b.used b.counter t.salts).1 } rfl hcall ?_
    (h _ (ips_createIp hips ht hr rfl))
  rw [ht]
  rfl

theorem served_database {b : DatabaseMockBackend}
    (h : (MockInfrastructureProvider.database b).Mirrored w) (ht : t.uuid = w.freshId) :
    Served (.database b) c t w := by
  obtain ⟨hips, hinstances⟩ := h
  cases c with
  | createIp region =>
      rcases b.createIp_cases region t with ⟨exc, heq, hexc⟩ | ⟨r, hr, heq⟩
      · refine served_of_error (v := .database b) ?_ hexc ⟨hips, hinstances⟩
        rw [MockInfrastructureProvider.call, heq]
        rfl
      · refine served_createIp (v := .database { b with pool := (b.pool.createIp region t r).2 })
          hips ht hr ?_ fun e h => ⟨h, hinstances⟩
        rw [MockInfrastructureProvider.call, heq]
        rfl
  | deleteIp ext => exact served_of_ok {} rfl rfl rfl ⟨ips_deleteIp hips, hinstances⟩
  | attachIp ext instExt =>
      refine served_of_ok {} rfl rfl rfl ⟨ips_attachIp hips, ?_⟩
      exact eval_attachIp_cloudInstances.trans hinstances
  | detachIp ext => exact served_of_ok {} rfl rfl rfl ⟨ips_detachIp hips, hinstances⟩
  | createInstance region =>
      rcases b.createInstance_cases region t with ⟨exc, heq, hexc⟩ | ⟨r, heq, hext, hst⟩
      · refine served_of_error (v := .database b) ?_ hexc ⟨hips, hinstances⟩
        rw [MockInfrastructureProvider.call, heq]
        rfl
      · have hext' : r.externalId = w.freshId := hext.trans ht
        have hcloud : r.cloud = (w.freshId, .running) := by rw [InstanceResource.cloud, hext', hst]
        refine served_of_ok {} rfl (x := r.externalId)
          (v := .database { b with instances := b.instances.insert r }) ?_ hext' ⟨hips, ?_⟩
        · rw [MockInfrastructureProvider.call, heq]
          rfl
        · rw [← instances_insert hinstances (hext' ▸ freshId_not_mem_cloudInstances), hcloud]
          rfl
  | destroyInstance ext =>
      refine served_of_ok {} rfl rfl rfl ⟨eval_destroyInstance_cloudIps.trans hips, ?_⟩
      simp only [InfraCall.eval, DatabaseMockBackend.destroyInstance]
      split
      · next hext => exact instances_update hinstances hext
      · next hext =>
          rw [ids_of_cloud hinstances] at hext
          rw [update_of_absent (Table.get?_eq_none.mpr hext)]
          exact hinstances
  | suspendInstance ext =>
      refine served_of_ok {} rfl rfl rfl ⟨?_, instances_track hinstances⟩
      exact hips.trans (by rw [DatabaseMockBackend.suspendInstance, DatabaseMockBackend.track_pool])
  | startInstance ext =>
      refine served_of_ok {} rfl rfl rfl ⟨?_, instances_track hinstances⟩
      exact hips.trans (by rw [DatabaseMockBackend.startInstance, DatabaseMockBackend.track_pool])
  | setAutoRenew ext enabled =>
      refine served_of_ok {} rfl rfl rfl ⟨?_, ?_⟩
      · rw [eval_setAutoRenew_cloudIps, hips]
        simp only [DatabaseMockBackend.setAutoRenew]
        split
        · rfl
        · split
          · exact ips_setAutoRenew.symm
          · rfl
      · exact instances_setAutoRenew ⟨hips, hinstances⟩

theorem served_docker {b : DockerMockBackend}
    (h : (MockInfrastructureProvider.docker b).Mirrored w) (ht : t.uuid = w.freshId) :
    Served (.docker b) c t w := by
  obtain ⟨hips, hknown⟩ := h
  have hraised : ∀ {b' : DockerMockBackend}, b.SameResources b' →
      (MockInfrastructureProvider.docker b').Mirrored w := by
    rintro b' ⟨hpool, hinstances⟩
    exact ⟨hpool ▸ hips, hinstances ▸ hknown⟩
  cases c with
  | createIp region =>
      rcases b.createIp_cases region t with ⟨exc, heq, hexc⟩ | ⟨r, hr, heq⟩
      · refine served_of_error (v := .docker b) ?_ hexc ⟨hips, hknown⟩
        rw [MockInfrastructureProvider.call, heq]
        rfl
      · refine served_createIp (v := .docker { b with pool := (b.pool.createIp region t r).2 })
          hips ht hr ?_ fun e h => ⟨h, hknown⟩
        rw [MockInfrastructureProvider.call, heq]
        rfl
  | deleteIp ext => exact served_of_ok {} rfl rfl rfl ⟨ips_deleteIp hips, hknown⟩
  | attachIp ext instExt =>
      refine served_of_ok {} rfl rfl rfl ⟨ips_attachIp hips, fun r hr => ?_⟩
      rw [eval_attachIp_cloudInstances]
      exact hknown r hr
  | detachIp ext => exact served_of_ok {} rfl rfl rfl ⟨ips_detachIp hips, hknown⟩
  | createInstance region =>
      rcases b.createInstance_cases region t with
        ⟨exc, b', heq, hsame, hexc⟩ | ⟨r, b', heq, hsame, hext, hst⟩
      · refine served_of_error (v := .docker b') ?_ hexc (hraised hsame)
        rw [MockInfrastructureProvider.call, heq]
        rfl
      · obtain ⟨hips', hknown'⟩ := hraised hsame
        have hext' : r.externalId = w.freshId := hext.trans ht
        have hcloud : r.cloud = (w.freshId, .running) := by rw [InstanceResource.cloud, hext', hst]
        refine served_of_ok {} rfl (x := r.externalId)
          (v := .docker { b' with instances := b'.instances.insert r }) ?_ hext'
          ⟨hips', hknown'.insert ?_ (hext' ▸ freshId_not_mem_cloudInstances)⟩
        · rw [MockInfrastructureProvider.call, heq]
          rfl
        · rw [hcloud]
          rfl
  | destroyInstance ext =>
      rcases b.destroyInstance_cases ext t with ⟨exc, b', heq, hsame, hexc⟩ | ⟨b', heq, hsame⟩
      · refine served_of_error (v := .docker b') ?_ hexc (hraised hsame)
        rw [MockInfrastructureProvider.call, heq]
      · obtain ⟨hips', hknown'⟩ := hraised hsame
        refine served_of_ok {} rfl (x := ()) (v := .docker (b'.setStatus ext .destroyed)) ?_ rfl
          ⟨eval_destroyInstance_cloudIps.trans hips', ?_⟩
        · rw [MockInfrastructureProvider.call, heq]
        · simp only [InfraCall.eval, DockerMockBackend.setStatus]
          split
          · exact hknown'.setStatus
          · next hext =>
              rw [update_of_absent (hknown'.get?_eq_none hext)]
              exact hknown'
  | suspendInstance ext =>
      rcases b.turn_cases ext t t.engine.stop _ _ .suspended with
        ⟨exc, b', heq, hsame, hexc⟩ | ⟨b', heq, hsame⟩
      · refine served_of_error (v := .docker b') ?_ hexc (hraised hsame)
        rw [MockInfrastructureProvider.call, DockerMockBackend.suspendInstance, heq]
      · obtain ⟨hips', hknown'⟩ := hraised hsame
        refine served_of_ok {} rfl (x := ()) (v := .docker (b'.setStatus ext .suspended)) ?_ rfl
          ⟨hips', hknown'.setStatus⟩
        rw [MockInfrastructureProvider.call, DockerMockBackend.suspendInstance, heq]
  | startInstance ext =>
      rcases b.turn_cases ext t t.engine.start _ _ .running with
        ⟨exc, b', heq, hsame, hexc⟩ | ⟨b', heq, hsame⟩
      · refine served_of_error (v := .docker b') ?_ hexc (hraised hsame)
        rw [MockInfrastructureProvider.call, DockerMockBackend.startInstance, heq]
      · obtain ⟨hips', hknown'⟩ := hraised hsame
        refine served_of_ok {} rfl (x := ()) (v := .docker (b'.setStatus ext .running)) ?_ rfl
          ⟨hips', hknown'.setStatus⟩
        rw [MockInfrastructureProvider.call, DockerMockBackend.startInstance, heq]
  | setAutoRenew ext enabled =>
      refine served_of_ok {} rfl rfl rfl
        ⟨eval_setAutoRenew_cloudIps.trans (hips.trans ips_setAutoRenew.symm), ?_⟩
      simp only [InfraCall.eval]
      split
      · exact hknown.setAutoRenew
      · next hnone =>
          intro r hr
          have hcloud : r.cloud ∈ w.cloudInstances := hknown.setAutoRenew r hr
          refine mem_setCloudInstance_of_ne hcloud fun hext => hnone (.inl ?_)
          exact List.mem_map.mpr ⟨r.cloud, hcloud, hext⟩

/-- Whatever a backend does with a call, the world can do. -/
theorem served (h : p.Mirrored w) (ht : t.uuid = w.freshId) : Served p c t w := by
  cases p with
  | database b => exact served_database h ht
  | docker b => exact served_docker h ht

end Call

/-! ## The other requests -/

/-- Only a call of the provider changes its resources. -/
theorem handle_cloud {r : Req} (h : ∀ c, r ≠ .infra c) (e : Env) (w : World) :
    (handle r e w).2.cloudIps = w.cloudIps ∧
      (handle r e w).2.cloudInstances = w.cloudInstances := by
  have hkeeps : ∀ {α : Type} (documented : Exn) {w' : World} (x : α),
      w'.cloudIps = w.cloudIps ∧ w'.cloudInstances = w.cloudInstances →
      (e.answer documented w x w').2.cloudIps = w.cloudIps ∧
        (e.answer documented w x w').2.cloudInstances = w.cloudInstances :=
    fun _ _ _ hw =>
      ⟨Env.answer_keeps World.cloudIps hw.1, Env.answer_keeps World.cloudInstances hw.2⟩
  cases r with
  | infra c => exact absurd rfl (h c)
  | acquire k ttl t =>
      simp only [handle]
      split <;> exact hkeeps _ _ ⟨rfl, rfl⟩
  | release k t =>
      refine hkeeps _ _ ?_
      split <;> exact ⟨rfl, rfl⟩
  | commit ws =>
      rcases commit_cases ws e w with ⟨f, hf⟩ | ⟨d, _, hf⟩ <;> rw [hf] <;> exact ⟨rfl, rfl⟩
  | flush ws =>
      simp only [handle]
      split
      · exact ⟨rfl, rfl⟩
      · exact hkeeps _ _ ⟨rfl, rfl⟩
  | semAcquire h =>
      simp only [handle]
      split <;> exact hkeeps _ _ ⟨rfl, rfl⟩
  | placeOrder o p =>
      rcases placeOrder_cases o p e w with ⟨f, hf⟩ | hf <;> rw [hf] <;> exact ⟨rfl, rfl⟩
  | cancelOrder o bo =>
      rcases cancelOrder_cases o bo e w with ⟨f, hf⟩ | hf <;> rw [hf] <;> exact ⟨rfl, rfl⟩
  | newId | now | inflightUp | inflightDown | semRelease | drainPolls | mark => exact ⟨rfl, rfl⟩
  | _ => exact hkeeps _ _ ⟨rfl, rfl⟩

theorem MockInfrastructureProvider.Mirrored.of_same {p : MockInfrastructureProvider}
    {w w' : World} (h : p.Mirrored w)
    (hw : w'.cloudIps = w.cloudIps ∧ w'.cloudInstances = w.cloudInstances) : p.Mirrored w' := by
  cases p with
  | database b => exact ⟨hw.1.trans h.1, hw.2.trans h.2⟩
  | docker b => exact ⟨hw.1.trans h.1, fun r hr => hw.2 ▸ h.2 r hr⟩

/-! ## Every sequence of requests -/

/-- The switch is no resource. -/
theorem MockInfrastructureProvider.Mirrored.setProbeFail {p : MockInfrastructureProvider}
    {w : World} (h : p.Mirrored w) (enabled : Bool) : (p.setProbeFail enabled).Mirrored w := by
  cases p with
  | database b => exact h
  | docker b => exact h

theorem follows_of_mirrored (as : List Asked) {p : MockInfrastructureProvider} {w : World}
    (h : p.Mirrored w) : Follows as p w := by
  induction as generalizing p w with
  | nil => exact h
  | cons a as ih =>
      cases a with
      | setProbeFail enabled => exact ⟨h, ih (h.setProbeFail enabled)⟩
      | request req env tape =>
          refine ⟨h, ?_⟩
          cases req with
          | infra c =>
              obtain ⟨e, hsame, hnext⟩ := served (c := c) (t := tape.drawing w.freshId) h rfl
              exact ⟨e, hsame, ih hnext⟩
          | _ => exact ih (h.of_same (handle_cloud (fun _ heq => by cases heq) env w))

theorem mirrored_new (backend : String) {w : World} (hips : w.cloudIps = [])
    (hinstances : w.cloudInstances = []) : (MockInfrastructureProvider.new backend).Mirrored w := by
  unfold MockInfrastructureProvider.new
  dsimp only
  by_cases hname : Text.lower (Text.strip (if backend = "" then "database" else backend)) =
      "docker"
  · rw [if_pos hname]
    exact ⟨hips, by rintro r ⟨⟩⟩
  · rw [if_neg hname]
    exact ⟨hips, hinstances⟩

/-- From a world without resources on, in any sequence of requests with anything going wrong
and with any backend configured, the world's provider can stay with the backend: it answers
each call with the same result or an exception that the same handlers catch, and has what
the backend has. -/
theorem follows_of_new (backend : String) (as : List Asked) (w : World) (hips : w.cloudIps = [])
    (hinstances : w.cloudInstances = []) :
    Follows as (MockInfrastructureProvider.new backend) w :=
  follows_of_mirrored as (mirrored_new backend hips hinstances)

theorem follows_docker_unreachable :
    ({} : World).cloudIps = [] ∧ ({} : World).cloudInstances = [] ∧
    Follows
      [.request (.infra (.createIp "ewr")) {} { uuid := 0 },
       .request (.infra (.suspendInstance 7)) {}
         { uuid := 0, engine := { client := .error "refused" } },
       .setProbeFail true,
       .request (.infra (.createIp "ewr")) {} { uuid := 0 }]
      (MockInfrastructureProvider.new " Docker") {} :=
  ⟨rfl, rfl, follows_of_new _ _ _ rfl rfl⟩

end BrokerBridge.Infra
