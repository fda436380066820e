import BrokerBridge.Code.Draft
import BrokerBridge.Code.Subscriptions

/-!
# What the expiry teardown does

`enforce_expiry` works through the due subscriptions row by row. Each row
suspends its client and tears down the client's instances, in the mode of the
row; a provider call that raises leaves its instance as far as it got. One
commit ends it.

What it can do at all, in any environment, is `Db.TornDown`: it changes clients
and live instances of clients with a due row. What it has done when nothing
fails is `Db.Swept`, for every due row.
-/

namespace BrokerBridge

open Conc

def Instance.live (r : Instance) : Bool :=
  r.status == .running || r.status == .pending || r.status == .suspended

namespace Db

/-- The rows `enforce_expiry` works through. -/
def due (d : Db) (now : Instant) : List Subscription := d.subscriptions.rows.filter (·.due now)

/-- The client has a due subscription. -/
def Expiring (d : Db) (now : Instant) (c : ClientId) : Prop :=
  ∃ sub ∈ d.due now, sub.clientId = c

/-- The client has a due subscription in mode `DESTROY`. -/
def Destroying (d : Db) (now : Instant) (c : ClientId) : Prop :=
  ∃ sub ∈ d.due now, sub.clientId = c ∧ sub.teardownMode = .destroy

/-- What may have become of an instance. -/
def TornInstance (d0 : Db) (now : Instant) (r r' : Instance) : Prop :=
  r'.clientId = r.clientId ∧ (r' = r ∨ r.live ∧ d0.Expiring now r.clientId ∧
    (r'.status = r.status ∨ r'.status = .suspended ∨
      r'.status = .destroyed ∧ d0.Destroying now r.clientId))

/-- What `enforce_expiry` may have done to the clients and instances of `d0`. -/
structure TornDown (d0 : Db) (now : Instant) (d : Db) : Prop where
  clients : ∀ {c r'}, d.clients.get? c = some r' → ∃ r, d0.clients.get? c = some r ∧
    (r' = r ∨ r'.status = .suspended ∧ d0.Expiring now c)
  instances : ∀ {i r'}, d.instances.get? i = some r' → ∃ r, d0.instances.get? i = some r ∧
    d0.TornInstance now r r'
  client_kept : ∀ c, (d.clients.get? c).isSome = (d0.clients.get? c).isSome
  instance_kept : ∀ i, (d.instances.get? i).isSome = (d0.instances.get? i).isSome

/-- The instance is out of the way of a subscription in this mode. -/
def Done (mode : TeardownMode) (r : Instance) : Prop :=
  r.live → r.status = .suspended ∧ r.autoRenew = false ∧ mode ≠ .destroy

/-- What a due subscription has done when nothing fails. -/
structure Swept (sub : Subscription) (d : Db) : Prop where
  client : ∀ {r}, d.clients.get? sub.clientId = some r → r.status = .suspended
  instances : ∀ {i r}, d.instances.get? i = some r → r.clientId = sub.clientId →
    Done sub.teardownMode r

/-- `d'` is `d` with the row of one instance set. -/
structure SetsInstance (d d' : Db) (r : Instance) : Prop where
  clients : d'.clients = d.clients
  subscriptions : d'.subscriptions = d.subscriptions
  instances : ∀ i, d'.instances.get? i = if i = r.id then some r else d.instances.get? i

variable {d d' d'' d0 : Db} {now : Instant} {r r' : Instance}

theorem tornDown_refl (d0 : Db) (now : Instant) : d0.TornDown now d0 :=
  ⟨fun h => ⟨_, h, .inl rfl⟩, fun h => ⟨_, h, rfl, .inl rfl⟩, fun _ => rfl, fun _ => rfl⟩

theorem setsInstance_refl (h : d.instances.get? r.id = some r) : d.SetsInstance d r := by
  refine ⟨rfl, rfl, fun i => ?_⟩
  split
  · next hi => rw [hi, h]
  · rfl

/-- An attribute of the instance set once more. -/
theorem SetsInstance.update (h : d.SetsInstance d' r) (f : InstanceField) :
    d.SetsInstance { d' with instances := d'.instances.update r.id f } (f.set r) := by
  have hid : (f.set r).id = r.id := by cases f <;> rfl
  refine ⟨h.clients, h.subscriptions, fun i => ?_⟩
  show (d'.instances.update r.id f).get? i = _
  rw [Table.get?_update, hid]
  split
  · rw [h.instances, if_pos rfl]
    rfl
  · next hi => rw [h.instances, if_neg hi]

end Db

/-- An instance torn down. -/
def Instance.torn (mode : TeardownMode) (r : Instance) : Instance :=
  { r with
    autoRenew := false
    status := match mode with
      | .destroy => .destroyed
      | .suspend => .suspended }

namespace Db

variable {d d' d0 : Db} {now : Instant} {mode : TeardownMode} {inst r : Instance}

theorem done_torn (mode : TeardownMode) (r : Instance) : Done mode (r.torn mode) := by
  intro hl
  cases mode with
  | suspend => exact ⟨rfl, rfl, nofun⟩
  | destroy => cases hl

/-- A live instance of an expiring client, as far as its teardown got. -/
theorem TornDown.sets (mode : TeardownMode) (h : d0.TornDown now d)
    (hinst : d.instances.get? inst.id = some inst) (hlive : inst.live)
    (hexp : d0.Expiring now inst.clientId)
    (hmode : mode = .destroy → d0.Destroying now inst.clientId) (hset : d.SetsInstance d' r)
    (hr : r = inst.torn mode ∨ r = inst ∨ r = { inst with autoRenew := false }) :
    d0.TornDown now d' := by
  have hid : r.id = inst.id ∧ r.clientId = inst.clientId := by
    rcases hr with rfl | rfl | rfl <;> exact ⟨rfl, rfl⟩
  refine ⟨fun hc => h.clients (hset.clients ▸ hc), fun {i r'} hr' => ?_,
    fun c => hset.clients ▸ h.client_kept c, fun i => ?_⟩
  case refine_2 =>
    rw [hset.instances, ← h.instance_kept]
    split
    · next hi => rw [hi, hid.1, hinst, Option.isSome_some, Option.isSome_some]
    · rfl
  rw [hset.instances] at hr'
  split at hr'
  · next hi =>
      cases hr'
      obtain ⟨r0, hr0, hc0, htorn⟩ := h.instances hinst
      rw [hi, hid.1]
      refine ⟨r0, hr0, hid.2.trans hc0, .inr ?_⟩
      rw [← hc0]
      -- The instance was live from the start, whatever has been done to it since.
      have hlive0 : r0.live := by
        rcases htorn with heq | ⟨hl, _⟩
        · exact heq ▸ hlive
        · exact hl
      have hstatus : inst.status = r0.status ∨ inst.status = .suspended ∨
          inst.status = .destroyed ∧ d0.Destroying now r0.clientId := by
        rcases htorn with heq | ⟨_, _, hs⟩
        · exact .inl (congrArg Instance.status heq)
        · exact hs
      refine ⟨hlive0, hexp, ?_⟩
      rcases hr with rfl | rfl | rfl
      · cases mode with
        | destroy => exact .inr (.inr ⟨rfl, hmode rfl⟩)
        | suspend => exact .inr (.inl rfl)
      · rwa [hc0]
      · rw [hc0]
        exact hstatus
  · exact h.instances hr'

/-- What an earlier subscription has done stays done. -/
theorem Swept.sets {sub : Subscription} (h : Swept sub d)
    (hinst : d.instances.get? inst.id = some inst) (hlive : inst.live)
    (hset : d.SetsInstance d' (inst.torn mode)) : Swept sub d' := by
  refine ⟨fun hc => h.client (hset.clients ▸ hc), fun {i r} hr hc hl => ?_⟩
  rw [hset.instances] at hr
  split at hr
  · cases hr
    cases mode with
    | destroy => cases hl
    | suspend => exact ⟨rfl, rfl, (h.instances hinst hc hlive).2.2⟩
  · exact h.instances hr hc hl

theorem TornDown.congr (h : d0.TornDown now d) (hc : d'.clients = d.clients)
    (hi : d'.instances = d.instances) : d0.TornDown now d' :=
  ⟨fun h' => h.clients (hc ▸ h'), fun h' => h.instances (hi ▸ h'),
    fun c => hc ▸ h.client_kept c, fun i => hi ▸ h.instance_kept i⟩

theorem Swept.congr {sub : Subscription} (h : Swept sub d) (hc : d'.clients = d.clients)
    (hi : d'.instances = d.instances) : Swept sub d' :=
  ⟨fun h' => h.client (hc ▸ h'), fun h' => h.instances (hi ▸ h')⟩

/-- `d` with a client suspended. -/
abbrev suspend (d : Db) (c : ClientId) : Db :=
  { d with clients := d.clients.update c (.status .suspended) }

theorem TornDown.suspend {c : ClientId} (h : d0.TornDown now d) (hexp : d0.Expiring now c) :
    d0.TornDown now (d.suspend c) := by
  refine ⟨fun {c' r'} hr' => ?_, h.instances, fun c' => ?_, h.instance_kept⟩
  case refine_2 =>
    rw [Table.get?_update, ← h.client_kept]
    split
    · next hc => rw [hc, Option.isSome_map]
    · rfl
  rw [Table.get?_update] at hr'
  split at hr'
  · next hc =>
      obtain ⟨r1, hr1, rfl⟩ := Option.map_eq_some_iff.mp hr'
      obtain ⟨r0, hr0, _⟩ := h.clients hr1
      rw [hc]
      exact ⟨r0, hr0, .inr ⟨rfl, hexp⟩⟩
  · exact h.clients hr'

theorem Swept.suspend {sub : Subscription} {c : ClientId} (h : Swept sub d) :
    Swept sub (d.suspend c) := by
  refine ⟨fun {r} hr => ?_, h.instances⟩
  rw [Table.get?_update] at hr
  split at hr
  · obtain ⟨r1, _, rfl⟩ := Option.map_eq_some_iff.mp hr
    rfl
  · exact h.client hr

end Db

section TearDown

variable {A : Env → Prop} {c : Instant} {d : Db}

theorem setInstance_draft (d : Db) (r : Instance) (f : InstanceField) {R : Db → Prop} {B : Prop} :
    Draft A c (d.SetsInstance · r) (assign r f)
      (fun x d' => x = f.set r ∧ d.SetsInstance d' (f.set r)) R B := by
  refine Draft.assign (fun _ _ => rfl) (fun d' h heq => ?_) fun d' h => ⟨rfl, h.update f⟩
  have heq' : f.set r = r := heq
  rw [heq']
  exact ⟨rfl, h⟩

/-- What the teardown may leave of the row of an instance: a provider call that
raises interrupts it. -/
def Instance.Leaves (A : Env → Prop) (mode : TeardownMode) (inst r : Instance) : Prop :=
  r = inst.torn mode ∨ Faulty A ∧ (r = inst ∨ r = { inst with autoRenew := false })

theorem Instance.Leaves.id_eq {mode : TeardownMode} {inst r : Instance}
    (h : inst.Leaves A mode r) : r.id = inst.id := by
  rcases h with rfl | ⟨_, rfl | rfl⟩ <;> rfl

/-- Where a provider call that raises leaves the draft. -/
def Interrupted (A : Env → Prop) (inst : Instance) (d d' : Db) : Prop :=
  Faulty A ∧ (d.SetsInstance d' inst ∨ d.SetsInstance d' { inst with autoRenew := false })

theorem stopInstance_draft (d : Db) (mode : TeardownMode) (inst : Instance) :
    Draft A c (d.SetsInstance · { inst with autoRenew := false })
      (stopInstance { inst with autoRenew := false } mode)
      (fun _ d' => d.SetsInstance d' (inst.torn mode)) (Interrupted A inst d) False := by
  cases mode with
  | suspend =>
      refine Draft.bind (Draft.infra (Q := fun _ => (d.SetsInstance · _)) (fun _ _ h => h)
        fun hA _ h => ⟨hA, .inr h⟩) fun _ => ?_
      exact Draft.bind (setInstance_draft d _ (.status .suspended)) fun _ =>
        Draft.pure fun _ h => h.2
  | destroy =>
      refine Draft.bind (Draft.infra (Q := fun _ => (d.SetsInstance · _)) (fun _ _ h => h)
        fun hA _ h => ⟨hA, .inr h⟩) fun _ => ?_
      exact Draft.bind (setInstance_draft d _ (.status .destroyed)) fun _ =>
        Draft.pure fun _ h => h.2

theorem tearDownInstance_draft (mode : TeardownMode) (inst : Instance)
    (hd : d.instances.get? inst.id = some inst) :
    Draft A c (· = d) (tearDownInstance mode inst)
      (fun _ d' => ∃ r, inst.Leaves A mode r ∧ d.SetsInstance d' r)
      (fun _ => Faulty A) False := by
  refine Draft.catching (J := Interrupted A inst d) ?_ fun e => ?_
  · refine Draft.bind (Draft.infra (Q := fun _ => (· = d)) (fun _ _ h => h) ?_) fun _ => ?_
    · rintro hA _ rfl
      exact ⟨hA, .inl (Db.setsInstance_refl hd)⟩
    refine Draft.bind ((setInstance_draft d inst (.autoRenew false)).pre ?_) fun r => ?_
    · rintro _ rfl
      exact Db.setsInstance_refl hd
    refine Draft.given fun hr => ?_
    subst hr
    exact Draft.bind (stopInstance_draft d mode inst) fun _ =>
      Draft.pure fun _ h => ⟨_, .inl rfl, h⟩
  · split
    · refine Draft.pure fun d' h => ?_
      obtain ⟨hA, h | h⟩ := h
      · exact ⟨_, .inr ⟨hA, .inl rfl⟩, h⟩
      · exact ⟨_, .inr ⟨hA, .inr rfl⟩, h⟩
    · exact Draft.raise fun _ h => h.1

/-- The loop over the instances. `J` is kept by each of them. -/
theorem tearDownInstances_draft (mode : TeardownMode) (insts : List Instance) {J : Db → Prop}
    (hJ : ∀ inst ∈ insts, ∀ d d' r, J d → d.instances.get? inst.id = some inst →
      d.SetsInstance d' r → inst.Leaves A mode r → J d')
    (hids : (insts.map (·.id)).Nodup) :
    Draft A c (fun d => J d ∧ ∀ inst ∈ insts, d.instances.get? inst.id = some inst)
      (tearDownInstances mode insts)
      (fun _ d' => J d' ∧ (¬ Faulty A → ∀ inst ∈ insts,
        d'.instances.get? inst.id = some (inst.torn mode)))
      (fun _ => Faulty A) False := by
  induction insts generalizing J with
  | nil => exact Draft.pure fun d h => ⟨h.1, fun _ _ h => nomatch h⟩
  | cons inst rest ih =>
      rw [List.map_cons, List.nodup_cons] at hids
      have hne : ∀ inst' ∈ rest, inst'.id ≠ inst.id := fun inst' h he =>
        hids.1 (List.mem_map.mpr ⟨inst', h, he⟩)
      -- Over the rest, `J` is kept and this instance stays as it was left.
      let J' : Db → Prop := fun d' => J d' ∧
        (¬ Faulty A → d'.instances.get? inst.id = some (inst.torn mode))
      have hrest := ih (J := J') (fun inst' hinst' d1 d2 r hJ1 hget hset hr => by
        refine ⟨hJ inst' (List.mem_cons_of_mem _ hinst') d1 d2 r hJ1.1 hget hset hr, fun hA => ?_⟩
        rw [hset.instances, hr.id_eq, if_neg (hne inst' hinst').symm]
        exact hJ1.2 hA) hids.2
      intro s w d hs hc hd
      have hinst := hd.2 inst List.mem_cons_self
      refine Draft.bind ((tearDownInstance_draft mode inst hinst).mono (fun _ => id) ?_
        (fun _ => id) id) (fun n => Draft.bind hrest fun m => ?_) s w d hs hc rfl
      · rintro n d' ⟨r, hr, hset⟩
        refine ⟨⟨?_, fun hA => ?_⟩, fun inst' hinst' => ?_⟩
        · exact hJ inst List.mem_cons_self d d' r hd.1 hinst hset hr
        · rw [hset.instances, hr.id_eq, if_pos rfl]
          exact congrArg some (hr.resolve_right fun h => hA h.1)
        · rw [hset.instances, hr.id_eq, if_neg (hne inst' hinst')]
          exact hd.2 inst' (List.mem_cons_of_mem _ hinst')
      · refine Draft.pure fun d' h => ⟨h.1.1, fun hA inst' hinst' => ?_⟩
        rcases List.mem_cons.mp hinst' with rfl | hinst'
        · exact h.1.2 hA
        · exact h.2 hA inst' hinst'

/-! ## One due subscription -/

/-- What holds of the draft once the subscriptions `done` have been worked through. -/
def Teardown (A : Env → Prop) (d0 : Db) (now : Instant) (done : List Subscription)
    (d : Db) : Prop :=
  d0.TornDown now d ∧ (¬ Faulty A → ∀ sub ∈ done, Db.Swept sub d)

variable {d0 d' : Db} {now : Instant} {done : List Subscription}

theorem Teardown.congr (h : Teardown A d0 now done d) (hc : d'.clients = d.clients)
    (hi : d'.instances = d.instances) : Teardown A d0 now done d' :=
  ⟨h.1.congr hc hi, fun hA sub hsub => (h.2 hA sub hsub).congr hc hi⟩

/-- A write to the subscription itself, or an event. -/
theorem setSubscription_draft (sub : Subscription) (f : SubscriptionField) {P : Db → Prop}
    (hP : ∀ d d', P d → d'.clients = d.clients → d'.instances = d.instances → P d')
    {R : Db → Prop} {B : Prop} :
    Draft A c P (assign sub f) (fun x d => x = f.set sub ∧ P d) R B :=
  Draft.assign (fun _ _ => rfl) (fun _ h heq => ⟨heq.symm, h⟩)
    fun d h => ⟨rfl, hP d _ h rfl rfl⟩

/-- The client of the subscription is suspended, if there is one. -/
def ClientSuspended (c : ClientId) (d : Db) : Prop :=
  ∀ {r : Client}, d.clients.get? c = some r → r.status = .suspended

theorem suspendClient_draft (client : ClientId) (hexp : d0.Expiring now client) {R : Db → Prop} :
    Draft A c (Teardown A d0 now done) (suspendClient client)
      (fun _ d => Teardown A d0 now done d ∧ ClientSuspended client d) R (Faulty A) := by
  refine Draft.bind (Draft.execute id (Q := fun x d => Teardown A d0 now done d ∧
    x = d.clients.get? client) fun e d _ h => ⟨h, rfl⟩) fun x => ?_
  cases x with
  | none =>
      refine Draft.pure fun d h => ⟨h.1, fun hr => ?_⟩
      exact nomatch h.2.trans hr
  | some r =>
      refine Draft.bind (Draft.assign (Q := fun _ d => Teardown A d0 now done d ∧
        ClientSuspended client d) (fun _ _ => rfl) ?_ ?_) fun _ => Draft.pure fun _ => id
      · intro d h heq
        refine ⟨h.1, fun hr => ?_⟩
        cases h.2.trans hr
        exact (congrArg Client.status heq).symm
      · intro d h
        have hid : r.id = client := Table.get?_key h.2.symm
        have hw : (Stored.write r (ClientField.status .suspended)).apply c d = d.suspend client :=
          hid ▸ rfl
        rw [hw]
        refine ⟨⟨h.1.1.suspend hexp, fun hA sub hsub => (h.1.2 hA sub hsub).suspend⟩, ?_⟩
        intro r' hr'
        rw [Table.get?_update_self, ← h.2] at hr'
        cases hr'
        rfl

/-- The instances the loop works through are the live ones of the client. -/
theorem mem_liveInstances {e : Env} {d : Db} {client : ClientId} {r : Instance} :
    r ∈ Query.eval e c d (.liveInstances client) ↔
      d.instances.get? r.id = some r ∧ r.clientId = client ∧ r.live := by
  show r ∈ d.instances.rows.filter _ ↔ _
  rw [List.mem_filter, Table.get?_eq_some, Bool.and_eq_true, beq_iff_eq]
  have hlive : (r.status == .running || r.status == .pending || r.status == .suspended) = r.live :=
    rfl
  rw [hlive]
  exact ⟨fun ⟨h1, h2, h3⟩ => ⟨⟨h1, rfl⟩, h2, h3⟩, fun ⟨⟨h1, _⟩, h2, h3⟩ => ⟨h1, h2, h3⟩⟩

/-- The teardown of the instances of one subscription. -/
theorem tearDownLive_draft (sub : Subscription) (hsub : sub ∈ d0.due now) (insts : List Instance) :
    Draft A c (fun d => (Teardown A d0 now done d ∧ ClientSuspended sub.clientId d) ∧
        ∃ e, insts = Query.eval e c d (.liveInstances sub.clientId))
      (tearDownInstances sub.teardownMode insts)
      (fun _ => Teardown A d0 now (done ++ [sub])) (fun _ => Faulty A) False := by
  intro s w d hs hc ⟨⟨htear, hclient⟩, e, hinsts⟩
  have hmem : ∀ r, r ∈ insts ↔
      d.instances.get? r.id = some r ∧ r.clientId = sub.clientId ∧ r.live := fun r => by
    rw [hinsts]
    exact mem_liveInstances
  have hids : (insts.map (·.id)).Nodup := by
    rw [hinsts]
    exact (d.instances.nodup.sublist (List.filter_sublist.map _))
  have hloop := tearDownInstances_draft (A := A) (c := c) sub.teardownMode insts
    (J := fun d' => Teardown A d0 now done d' ∧ ClientSuspended sub.clientId d' ∧
      ∀ i, i ∉ insts.map (·.id) → d'.instances.get? i = d.instances.get? i) ?_ hids
  · refine (hloop.mono (fun _ => id) ?_ (fun _ => id) id) s w d hs hc
      ⟨⟨htear, hclient, fun _ _ => rfl⟩, fun inst h => ((hmem inst).mp h).1⟩
    rintro n d' ⟨⟨htear', hclient', hother⟩, htorn⟩
    refine ⟨htear'.1, fun hA sub' hsub' => ?_⟩
    rcases List.mem_append.mp hsub' with hsub' | hsub'
    · exact htear'.2 hA sub' hsub'
    cases List.mem_singleton.mp hsub'
    refine ⟨hclient', fun {i r} hr hc hl => ?_⟩
    have hri : r.id = i := Table.get?_key hr
    by_cases hi : i ∈ insts.map (·.id)
    · obtain ⟨inst, hinst, hid⟩ := List.mem_map.mp hi
      have hr' := htorn hA inst hinst
      rw [hid, hr] at hr'
      cases hr'
      exact Db.done_torn sub.teardownMode inst hl
    · -- An instance left alone was not live when the loop began.
      rw [hother i hi, ← hri] at hr
      exact absurd (List.mem_map.mpr ⟨r, (hmem r).mpr ⟨hr, hc, hl⟩, hri⟩) hi
  · rintro inst hinst d1 d2 r ⟨htear1, hclient1, hother1⟩ hget hset hr
    obtain ⟨_, hcl, hl⟩ := (hmem inst).mp hinst
    refine ⟨⟨?_, fun hA sub' hsub' => ?_⟩, ?_, fun i hi => ?_⟩
    · refine htear1.1.sets sub.teardownMode hget hl ⟨sub, hsub, hcl.symm⟩ ?_ hset ?_
      · exact fun hm => ⟨sub, hsub, hcl.symm, hm⟩
      · rcases hr with h | ⟨_, h⟩
        · exact .inl h
        · exact .inr h
    · rcases hr with rfl | ⟨hA', _⟩
      · exact (htear1.2 hA sub' hsub').sets hget hl hset
      · exact absurd hA' hA
    · exact fun h => hclient1 (hset.clients ▸ h)
    · have hne : i ≠ r.id := fun he => hi (he ▸ hr.id_eq ▸ List.mem_map.mpr ⟨inst, hinst, rfl⟩)
      rw [hset.instances, if_neg hne]
      exact hother1 i hi

theorem expireOne_draft (sub : Subscription) (hsub : sub ∈ d0.due now) :
    Draft A c (Teardown A d0 now done) (expireOne now sub)
      (fun _ => Teardown A d0 now (done ++ [sub])) (fun _ => Faulty A) (Faulty A) := by
  have hexp : d0.Expiring now sub.clientId := ⟨sub, hsub, rfl⟩
  refine Draft.bind (setSubscription_draft sub _ fun _ _ h => h.congr) fun sub' => ?_
  refine Draft.given fun hsub' => ?_
  subst hsub'
  refine Draft.bind (suspendClient_draft sub.clientId hexp) fun _ => ?_
  refine Draft.bind (Draft.execute id (Q := fun insts d =>
    (Teardown A d0 now done d ∧ ClientSuspended sub.clientId d) ∧
      ∃ e, insts = Query.eval e c d (.liveInstances sub.clientId)) fun e d _ h => ⟨h, e, rfl⟩)
    fun insts => ?_
  refine Draft.bind ((tearDownLive_draft sub hsub insts).mono (fun _ => id) (fun _ _ => id)
    (fun _ => id) False.elim) fun n => ?_
  refine Draft.bind (setSubscription_draft _ _ fun _ _ h => h.congr) fun sub' => ?_
  refine Draft.bind (Draft.stage (Q := fun _ => Teardown A d0 now (done ++ [sub]))
    (fun _ _ => rfl) fun d h => h.2.congr rfl rfl) fun _ => Draft.pure fun _ h => h

theorem expireEach_draft (subs : List Subscription) (hsubs : ∀ sub ∈ subs, sub ∈ d0.due now) :
    Draft A c (Teardown A d0 now done) (expireEach now subs)
      (fun _ => Teardown A d0 now (done ++ subs)) (fun _ => Faulty A) (Faulty A) := by
  induction subs generalizing done with
  | nil => exact Draft.pure fun d h => by rwa [List.append_nil]
  | cons sub rest ih =>
      refine Draft.bind (expireOne_draft sub (hsubs sub List.mem_cons_self)) fun n => ?_
      refine Draft.bind (ih fun sub' h => hsubs sub' (List.mem_cons_of_mem _ h)) fun m => ?_
      refine Draft.pure fun d h => ?_
      rwa [List.append_assoc] at h

end TearDown

end BrokerBridge
