import BrokerBridge.Subscriptions.Expiry

/-!
# The order of the due subscriptions does not matter

The due rows come back in no defined order, and each changes the instances the next one
finds. What `enforce_expiry` has made of a row after some of them is a function of the row
and of which they were, so any order leaves the same rows; and no row is due any more.
-/

namespace BrokerBridge

open Conc

/-! ## What the subscriptions worked through make of a row -/

def Subscription.expired (now : Instant) (done : List Subscription) (r : Subscription) :
    Subscription :=
  if ∃ sub ∈ done, sub.id = r.id then { r with status := .expired, teardownCompletedAt := some now }
  else r

def Client.expired (done : List Subscription) (r : Client) : Client :=
  if ∃ sub ∈ done, sub.clientId = r.id then { r with status := .suspended } else r

/-- The mode that wins: one `DESTROY` is enough. -/
def modeOf (done : List Subscription) (c : ClientId) : TeardownMode :=
  if ∃ sub ∈ done, sub.clientId = c ∧ sub.teardownMode = .destroy then .destroy else .suspend

def Instance.expired (done : List Subscription) (r : Instance) : Instance :=
  if r.live ∧ ∃ sub ∈ done, sub.clientId = r.clientId then r.torn (modeOf done r.clientId) else r

/-- The rows of `d` are those of `d0` once the subscriptions `done` have been worked through. -/
structure Db.ExpiredBy (d0 : Db) (now : Instant) (done : List Subscription) (d : Db) : Prop where
  subscriptions : ∀ i, d.subscriptions.get? i = (d0.subscriptions.get? i).map (·.expired now done)
  clients : ∀ c, d.clients.get? c = (d0.clients.get? c).map (·.expired done)
  instances : ∀ i, d.instances.get? i = (d0.instances.get? i).map (·.expired done)

section Rows

variable {now : Instant} {done : List Subscription} {sub : Subscription}

theorem exists_concat {p : Subscription → Prop} :
    (∃ s ∈ done ++ [sub], p s) ↔ (∃ s ∈ done, p s) ∨ p sub := by
  simp only [List.mem_append, List.mem_singleton, or_and_right, exists_or, exists_eq_left]

theorem Client.expired_id (r : Client) : (r.expired done).id = r.id := by
  unfold Client.expired
  split <;> rfl

theorem Instance.expired_clientId (r : Instance) : (r.expired done).clientId = r.clientId := by
  unfold Instance.expired
  split <;> rfl

theorem Subscription.expired_concat (r : Subscription) :
    r.expired now (done ++ [sub]) =
      if sub.id = r.id then
        { r.expired now done with status := .expired, teardownCompletedAt := some now }
      else r.expired now done := by
  unfold Subscription.expired
  simp only [exists_concat]
  by_cases hdone : ∃ s ∈ done, s.id = r.id <;> by_cases hsub : sub.id = r.id <;> simp [hdone, hsub]

theorem Client.expired_concat (r : Client) :
    r.expired (done ++ [sub]) =
      if sub.clientId = r.id then { r.expired done with status := .suspended }
        else r.expired done := by
  unfold Client.expired
  simp only [exists_concat]
  by_cases hdone : ∃ s ∈ done, s.clientId = r.id <;> by_cases hsub : sub.clientId = r.id <;>
    simp [hdone, hsub]

theorem Instance.torn_live (m : TeardownMode) (r : Instance) : (r.torn m).live ↔ m = .suspend := by
  cases m with
  | suspend => exact ⟨fun _ => rfl, fun _ => rfl⟩
  | destroy => exact ⟨nofun, nofun⟩

theorem modeOf_concat (c : ClientId) : modeOf (done ++ [sub]) c =
    if sub.clientId = c ∧ sub.teardownMode = .destroy then .destroy else modeOf done c := by
  unfold modeOf
  simp only [exists_concat]
  by_cases hdone : ∃ s ∈ done, s.clientId = c ∧ s.teardownMode = .destroy
  · rw [if_pos (.inl hdone), if_pos hdone, ite_self]
  · simp only [hdone, false_or]
    rfl

theorem modeOf_destroy {c : ClientId} (h : modeOf done c = .destroy) :
    ∃ s ∈ done, s.clientId = c ∧ s.teardownMode = .destroy := by
  by_contra hnot
  rw [modeOf, if_neg hnot] at h
  cases h

/-- Once more torn down: an instance that is still alive is as the mode says. -/
theorem Instance.expired_of_done {r : Instance} (hlive : r.live)
    (hdone : ∃ s ∈ done, s.clientId = r.clientId) :
    r.expired done = r.torn (modeOf done r.clientId) := if_pos ⟨hlive, hdone⟩

theorem Instance.expired_of_not {r : Instance}
    (h : ¬ (r.live ∧ ∃ s ∈ done, s.clientId = r.clientId)) :
    r.expired done = r := if_neg h

/-- One more subscription tears down what the others have left alive. -/
theorem Instance.expired_concat (r : Instance) :
    r.expired (done ++ [sub]) =
      if (r.expired done).live ∧ sub.clientId = r.clientId then
        (r.expired done).torn sub.teardownMode
      else r.expired done := by
  have hmode : modeOf (done ++ [sub]) r.clientId = _ := modeOf_concat r.clientId
  by_cases hlive : r.live
  case neg =>
    have hnot : ∀ l, r.expired l = r := fun l => Instance.expired_of_not fun h => hlive h.1
    rw [hnot, hnot, if_neg fun h => hlive h.1]
  by_cases hsub : sub.clientId = r.clientId
  case neg =>
    rw [if_neg fun h => hsub h.2]
    rw [if_neg fun h => hsub h.1] at hmode
    simp only [Instance.expired, exists_concat, hsub, or_false, hmode]
  have hnew : ∃ s ∈ done ++ [sub], s.clientId = r.clientId := exists_concat.mpr (.inr hsub)
  rw [Instance.expired_of_done hlive hnew, hmode]
  cases hm : modeOf done r.clientId with
  | destroy =>
      have hdone : ∃ s ∈ done, s.clientId = r.clientId := by
        obtain ⟨s, hs, hc, _⟩ := modeOf_destroy hm
        exact ⟨s, hs, hc⟩
      have hdead : ¬ ((r.torn .destroy).live ∧ sub.clientId = r.clientId) := fun h =>
        nomatch (Instance.torn_live _ r).mp h.1
      rw [Instance.expired_of_done hlive hdone, hm, if_neg hdead, ite_self]
  | suspend =>
      -- Nobody has destroyed it yet, so it is alive, and this mode decides.
      have halive : (r.expired done).live ∧
          (r.expired done).torn sub.teardownMode = r.torn sub.teardownMode := by
        by_cases hdone : ∃ s ∈ done, s.clientId = r.clientId
        · rw [Instance.expired_of_done hlive hdone, hm]
          exact ⟨(Instance.torn_live _ r).mpr rfl, rfl⟩
        · rw [Instance.expired_of_not fun h => hdone h.2]
          exact ⟨hlive, rfl⟩
      have hwins : (if sub.clientId = r.clientId ∧
        sub.teardownMode = .destroy then TeardownMode.destroy
          else .suspend) = sub.teardownMode := by
        cases hs : sub.teardownMode with
        | destroy => exact if_pos ⟨hsub, rfl⟩
        | suspend => exact if_neg fun h => nomatch h.2
      rw [hwins]
      exact halive.2.symm.trans (if_pos ⟨halive.1, hsub⟩).symm

end Rows

/-! ## One due subscription -/

section Run

variable {c now : Instant} {d0 d : Db} {done : List Subscription} {sub : Subscription}

theorem eq_map_of_fixed {α : Type} {o : Option α} {f : α → α} (h : ∀ a, o = some a → f a = a) :
    o = o.map f := ((Option.map_congr h).trans Option.map_id').symm

/-- `d'` is `d` with the client suspended. -/
structure Suspends (d d' : Db) (client : ClientId) : Prop where
  subscriptions : d'.subscriptions = d.subscriptions
  instances : d'.instances = d.instances
  clients : ∀ i, d'.clients.get? i = (d.clients.get? i).map fun r =>
    if client = r.id then { r with status := .suspended } else r

theorem suspendClient_exact (client : ClientId) :
    Draft Faultless c (· = d) (suspendClient client) (fun _ d' => Suspends d d' client)
      (fun _ => False) False := by
  refine Draft.bind (Draft.execute not_faulty_faultless (Q := fun x d' =>
    x = d.clients.get? client ∧ d' = d) ?_)
    fun x => Draft.given fun hx => ?_
  · rintro e d' _ rfl
    exact ⟨rfl, rfl⟩
  cases x with
  | none =>
      refine Draft.pure fun d' hd' => ?_
      subst hd'
      refine ⟨rfl, rfl, fun i => eq_map_of_fixed fun r hr => ?_⟩
      refine if_neg fun he => ?_
      have hid : r.id = i := Table.get?_key hr
      exact nomatch (he.trans hid ▸ hx).trans hr
  | some r =>
      have hid : r.id = client := Table.get?_key hx.symm
      refine Draft.bind (Draft.assign (Q := fun _ d' => Suspends d d' client)
        (fun _ _ => rfl) ?_ ?_)
        fun _ => Draft.pure fun _ => id
      · rintro d' rfl heq
        refine ⟨rfl, rfl, fun i => eq_map_of_fixed fun r' hr' => ?_⟩
        have hid' : r'.id = i := Table.get?_key hr'
        split
        · next he =>
            cases (he.trans hid' ▸ hx).trans hr'
            exact heq
        · rfl
      · rintro d' rfl
        refine ⟨rfl, rfl, fun i => ?_⟩
        show (d'.clients.update r.id (.status .suspended)).get? i = _
        rw [Table.get?_update, hid]
        split
        · next he =>
            rw [he, ← hx]
            exact congrArg some (if_pos hid.symm).symm
        · next he =>
            refine eq_map_of_fixed fun r' hr' => if_neg fun h' => he ?_
            exact (Table.get?_key hr').symm.trans h'.symm

/-- `d'` is `d` with the live instances of the client torn down. -/
structure TearsDown (d d' : Db) (mode : TeardownMode) (client : ClientId) : Prop where
  subscriptions : d'.subscriptions = d.subscriptions
  clients : d'.clients = d.clients
  instances : ∀ i, d'.instances.get? i = (d.instances.get? i).map fun r =>
    if r.live ∧ client = r.clientId then r.torn mode else r

theorem tearDownLive_exact (e : Env) (mode : TeardownMode) (client : ClientId) :
    Draft Faultless c (· = d)
      (tearDownInstances mode (Query.eval e c d (.liveInstances client)))
      (fun _ d' => TearsDown d d' mode client) (fun _ => False) False := by
  intro s w d' hs hc hd'
  subst hd'
  generalize hinsts : Query.eval e c d' (.liveInstances client) = insts
  have hmem : ∀ r, r ∈ insts ↔
      d'.instances.get? r.id = some r ∧ r.clientId = client ∧ r.live := fun r => by
    rw [← hinsts]
    exact mem_liveInstances
  have hids : (insts.map (·.id)).Nodup := by
    rw [← hinsts]
    exact d'.instances.nodup.sublist (List.filter_sublist.map _)
  have hloop := tearDownInstances_draft (A := Faultless) (c := c) mode insts
    (J := fun d2 => d2.subscriptions = d'.subscriptions ∧ d2.clients = d'.clients ∧
      ∀ i, i ∉ insts.map (·.id) → d2.instances.get? i = d'.instances.get? i) ?_ hids
  · refine (hloop.mono (fun _ => id) ?_ (fun _ => not_faulty_faultless) id) s w d' hs hc
      ⟨⟨rfl, rfl, fun _ _ => rfl⟩, fun inst h => ((hmem inst).mp h).1⟩
    rintro n d2 ⟨⟨hsubs, hclients, hother⟩, htorn⟩
    refine ⟨hsubs, hclients, fun i => ?_⟩
    by_cases hi : i ∈ insts.map (·.id)
    · obtain ⟨inst, hinst, rfl⟩ := List.mem_map.mp hi
      obtain ⟨hget, hcl, hlive⟩ := (hmem inst).mp hinst
      rw [htorn not_faulty_faultless inst hinst, hget]
      exact congrArg some (if_pos ⟨hlive, hcl.symm⟩).symm
    · -- An instance left alone was not a live one of the client.
      rw [hother i hi]
      refine eq_map_of_fixed fun r hr => if_neg fun h => hi ?_
      have hid : r.id = i := Table.get?_key hr
      exact List.mem_map.mpr ⟨r, (hmem r).mpr ⟨hid ▸ hr, h.2.symm, h.1⟩, hid⟩
  · rintro inst hinst d1 d2 r ⟨hsubs, hclients, hother⟩ _ hset hr
    refine ⟨hset.subscriptions.trans hsubs, hset.clients.trans hclients, fun i hi => ?_⟩
    have hne : i ≠ r.id := fun he => hi (he ▸ hr.id_eq ▸ List.mem_map.mpr ⟨inst, hinst, rfl⟩)
    rw [hset.instances, if_neg hne]
    exact hother i hi

/-- What one more subscription makes of the rows. -/
theorem Db.ExpiredBy.concat {d2 d3 d4 : Db} (hd : d0.ExpiredBy now done d)
    (hsusp : Suspends { d with subscriptions := d.subscriptions.update sub.id (.status .expired) }
      d2 sub.clientId)
    (htear : TearsDown d2 d3 sub.teardownMode sub.clientId) (hi : d4.instances = d3.instances)
    (hcl : d4.clients = d3.clients)
    (hsubs : d4.subscriptions = d3.subscriptions.update sub.id (.teardownCompletedAt (some now))) :
    d0.ExpiredBy now (done ++ [sub]) d4 := by
  refine ⟨fun i => ?_, fun i => ?_, fun i => ?_⟩
  · rw [hsubs, htear.subscriptions, hsusp.subscriptions, Table.get?_update]
    split
    · next he =>
        subst he
        rw [Table.get?_update_self, hd.subscriptions, Option.map_map, Option.map_map]
        refine Option.map_congr fun r hr => ?_
        have hid : r.id = sub.id := Table.get?_key hr
        rw [Subscription.expired_concat, if_pos hid.symm]
        rfl
    · next he =>
        rw [Table.get?_update_of_ne _ he, hd.subscriptions]
        refine Option.map_congr fun r hr => ?_
        have hid : r.id = i := Table.get?_key hr
        rw [Subscription.expired_concat, if_neg fun h => he (hid.symm.trans h.symm)]
  · rw [hcl, htear.clients, hsusp.clients, hd.clients, Option.map_map]
    refine Option.map_congr fun r _ => ?_
    rw [Client.expired_concat, ← Client.expired_id r]
    rfl
  · rw [hi, htear.instances, hsusp.instances, hd.instances, Option.map_map]
    refine Option.map_congr fun r _ => ?_
    rw [Instance.expired_concat, ← Instance.expired_clientId r]
    rfl

theorem expireOne_exact (hsub : sub.due now) :
    Draft Faultless c (d0.ExpiredBy now done) (expireOne now sub)
      (fun _ => d0.ExpiredBy now (done ++ [sub])) (fun _ => False) False := by
  intro s w d hs hc hd
  have hdue : sub.status = .active ∧ sub.teardownCompletedAt = none := by
    have := hsub
    simp only [Subscription.due, Bool.and_eq_true, decide_eq_true_eq,
      Option.isNone_iff_eq_none] at this
    exact ⟨this.1.1, this.2⟩
  -- The row is marked, its client suspended, the instances torn down, and the row closed.
  let marked : Db := { d with subscriptions := d.subscriptions.update sub.id (.status .expired) }
  refine (Draft.bind (P := (· = d)) (Q := fun x d1 =>
    x = SubscriptionField.set (.status .expired) sub ∧ d1 = marked)
    (Draft.assign (fun _ _ => rfl) ?_ ?_) fun sub1 => Draft.given fun hsub1 => ?_) s w d hs hc rfl
  · rintro d' rfl heq
    exact nomatch hdue.1.symm.trans (congrArg Subscription.status heq).symm
  · rintro d' rfl
    exact ⟨rfl, rfl⟩
  subst hsub1
  refine Draft.bind (suspendClient_exact sub.clientId) fun _ => ?_
  refine Draft.bind (Draft.execute not_faulty_faultless (Q := fun insts d2 =>
    Suspends marked d2 sub.clientId ∧
    ∃ e, insts = Query.eval e c d2 (.liveInstances sub.clientId)) fun e d2 _ h => ⟨h, e, rfl⟩)
      fun insts => ?_
  refine Draft.bind (Q := fun _ d3 => ∃ d2, Suspends marked d2 sub.clientId ∧
    TearsDown d2 d3 sub.teardownMode sub.clientId) ?_ fun n => ?_
  · rintro s' w' d2 hs' hc' ⟨hsusp, e, rfl⟩
    exact ((tearDownLive_exact e sub.teardownMode sub.clientId).mono (fun _ => id)
      (fun _ d3 h => ⟨d2, hsusp, h⟩) (fun _ => id) id) s' w' d2 hs' hc' rfl
  refine Draft.bind (Q := fun _ d4 => ∃ d2 d3, Suspends marked d2 sub.clientId ∧
    TearsDown d2 d3 sub.teardownMode sub.clientId ∧ d4.instances = d3.instances ∧
      d4.clients = d3.clients ∧
    d4.subscriptions = d3.subscriptions.update sub.id (.teardownCompletedAt (some now)))
    (Draft.assign (fun _ _ => rfl) ?_ ?_) fun _ => ?_
  · intro d3 _ heq
    exact nomatch hdue.2.symm.trans (congrArg Subscription.teardownCompletedAt heq).symm
  · rintro d3 ⟨d2, hsusp, htear⟩
    exact ⟨d2, d3, hsusp, htear, rfl, rfl, rfl⟩
  refine Draft.bind (Draft.stage (Q := fun _ => d0.ExpiredBy now (done ++ [sub]))
    (fun _ _ => rfl) ?_)
    fun _ => Draft.pure fun _ => id
  rintro d4 ⟨d2, d3, hsusp, htear, hi, hcl, hsubs⟩
  exact hd.concat hsusp htear hi hcl hsubs

theorem expireEach_exact (subs : List Subscription) (hsubs : ∀ sub ∈ subs, sub.due now) :
    Draft Faultless c (d0.ExpiredBy now done) (expireEach now subs)
      (fun _ => d0.ExpiredBy now (done ++ subs)) (fun _ => False) False := by
  induction subs generalizing done with
  | nil => exact Draft.pure fun d h => by rwa [List.append_nil]
  | cons sub rest ih =>
      refine Draft.bind (expireOne_exact (hsubs sub List.mem_cons_self)) fun n => ?_
      refine Draft.bind (ih fun sub' h => hsubs sub' (List.mem_cons_of_mem _ h)) fun m => ?_
      refine Draft.pure fun d h => ?_
      rwa [List.append_assoc] at h

theorem expiredBy_nil (d : Db) (now : Instant) : d.ExpiredBy now [] d :=
  ⟨fun _ => eq_map_of_fixed fun _ _ => if_neg nofun, fun _ => eq_map_of_fixed fun _ _ =>
    if_neg nofun,
    fun _ => eq_map_of_fixed fun _ _ => if_neg fun h => nomatch h.2⟩

/-- `enforce_expiry` once the due rows have been selected, in the order they came in. -/
def enforceDue (now : Instant) (due : List Subscription) : Coro (Nat × Nat) := do
  getProvider
  let tornDown ← expireEach now due
  commitIf !due.isEmpty
  pure (due.length, tornDown)

theorem enforceExpiry_eq (now : Instant) :
    enforceExpiry (some now) = execute (.dueSubscriptions now) >>= enforceDue now := rfl

theorem enforceDue_solo (w : World) (subs : List Subscription) (hsubs : ∀ sub ∈ subs, sub.due now) :
    Task.wp (alone handle Faultless) (enforceDue now subs)
      (fun _ _ w' => w.db.ExpiredBy now subs w'.db) (fun _ _ _ => False) {} w := by
  unfold enforceDue
  rw [Task.wp_bind]
  refine solo_execute (Session.sees_new w) (fun _ _ => ?_) fun hA => absurd hA not_faulty_faultless
  rw [Task.wp_bind]
  refine Task.wp_alone_mono (expireEach_exact subs hsubs {} w w.db (Session.sees_new w) rfl
    (expiredBy_nil w.db now)) ?_ ?_
  · rintro n s' w' ⟨hdb, _, d', hs', hd'⟩
    rw [List.nil_append] at hd'
    rw [Task.wp_bind, commitIf, Task.wp_ite]
    split
    · exact solo_commit hs' hd' fun hA => absurd hA not_faulty_faultless
    · next hempty =>
        have hnil : subs = [] := by simpa using hempty
        subst hnil
        show w.db.ExpiredBy now [] w'.db
        rw [hdb]
        exact expiredBy_nil w.db now
  · rintro e s' w' ⟨_, _, ⟨h, _⟩ | ⟨_, _, h⟩⟩ <;> exact h

/-- With no row due nothing happens. -/
theorem enforceExpiry_none (w : World) (hnone : w.db.due now = []) :
    Task.wp (alone handle Faultless) (enforceExpiry (some now))
      (fun a _ w' => a = (0, 0) ∧ w' = w) (fun _ _ _ => False) {} w := by
  rw [enforceExpiry_eq, Task.wp_bind]
  refine solo_execute (Session.sees_new w) (fun e _ => ?_) fun hA => absurd hA not_faulty_faultless
  have hrows : Query.eval e w.clock w.db (.dueSubscriptions now) = [] := hnone
  rw [hrows, enforceDue, Task.wp_bind]
  exact solo_execute (Session.sees_new w) (fun _ _ => ⟨rfl, rfl⟩) fun hA =>
    absurd hA not_faulty_faultless

end Run

/-! ## The whole call -/

/-- The same subscriptions, clients and instances. -/
def Db.SameRows (d d' : Db) : Prop :=
  (∀ i, d.subscriptions.get? i = d'.subscriptions.get? i) ∧
    (∀ i, d.clients.get? i = d'.clients.get? i) ∧
    ∀ i, d.instances.get? i = d'.instances.get? i

section Whole

variable {now : Instant} {d0 d d' : Db} {subs subs' : List Subscription}

/-- Only which subscriptions were worked through matters. -/
theorem Db.ExpiredBy.perm (h : d0.ExpiredBy now subs d) (hperm : subs.Perm subs') :
    d0.ExpiredBy now subs' d := by
  have hex : ∀ p : Subscription → Prop, (∃ s ∈ subs, p s) ↔ ∃ s ∈ subs', p s := fun p =>
    exists_congr fun s => and_congr_left fun _ => hperm.mem_iff
  refine ⟨fun i => (h.subscriptions i).trans ?_, fun i => (h.clients i).trans ?_,
    fun i => (h.instances i).trans ?_⟩ <;> refine Option.map_congr fun r _ => ?_
  · simp only [Subscription.expired, hex]
  · simp only [Client.expired, hex]
  · simp only [Instance.expired, modeOf, hex]

theorem Db.ExpiredBy.sameRows (h : d0.ExpiredBy now subs d) (h' : d0.ExpiredBy now subs d') :
    d.SameRows d' :=
  ⟨fun i => (h.subscriptions i).trans (h'.subscriptions i).symm,
    fun i => (h.clients i).trans (h'.clients i).symm, fun i =>
      (h.instances i).trans (h'.instances i).symm⟩

/-- No row is due any more. -/
theorem Db.ExpiredBy.due_nil (h : d0.ExpiredBy now (d0.due now) d) : d.due now = [] := by
  refine List.filter_eq_nil_iff.mpr fun r hr hdue => ?_
  have hget := Table.get?_of_mem hr
  rw [h.subscriptions] at hget
  obtain ⟨r0, hr0, rfl⟩ := Option.map_eq_some_iff.mp hget
  unfold Subscription.expired at hdue
  split at hdue
  · simp [Subscription.due] at hdue
  · next hnot => exact hnot ⟨r0, List.mem_filter.mpr ⟨(Table.get?_eq_some.mp hr0).1, hdue⟩, rfl⟩

end Whole

theorem enforceExpiry_confluent (settings : Settings) (w : World) (now : Instant)
    {subs : List Subscription} (hsubs : subs.Perm (w.db.due now)) (env env' env'' : Nat → Env)
    (henv : ∀ n, (env n).fault = none) (henv' : ∀ n, (env' n).fault = none)
    (henv'' : ∀ n, (env'' n).fault = none) :
    let inOrder := ((enforceDue now subs).program fun x => .expired x.1 x.2).solo handle env w
    let call := (Call.enforceExpiry (some now)).runAlone settings env' w
    inOrder.2.db.SameRows call.2.db ∧
    (∀ sub ∈ w.db.due now, ∀ i r, w.db.instances.get? i = some r → r.clientId = sub.clientId →
      ∃ r', inOrder.2.db.instances.get? i = some r' ∧ r'.status =
        if r.live then
          if ∃ sub' ∈ w.db.due now, sub'.clientId = r.clientId ∧ sub'.teardownMode = .destroy then
            .destroyed else .suspended
        else r.status) ∧
    (Call.enforceExpiry (some now)).runAlone settings env'' call.2 = (.ok (.expired 0 0),
      call.2) := by
  intro inOrder call
  have hdue : ∀ l : List Subscription, l.Perm (w.db.due now) → ∀ sub ∈ l, sub.due now :=
    fun l hl sub h =>
    (List.mem_filter.mp (hl.mem_iff.mp h)).2
  have hone : w.db.ExpiredBy now (w.db.due now) inOrder.2.db := by
    rcases Coro.program_solo _ (enforceDue_solo w subs (hdue subs hsubs)) env henv with ⟨_, _, h, _⟩
      | ⟨_, _, h, _⟩
    · exact Db.ExpiredBy.perm h hsubs
    · exact h.elim
  have hcall : w.db.ExpiredBy now (w.db.due now) call.2.db := by
    have hwp : Task.wp (alone handle Faultless) (enforceExpiry (some now))
        (fun _ _ w' => w.db.ExpiredBy now (w.db.due now) w'.db) (fun _ _ _ => False) {} w := by
      rw [enforceExpiry_eq, Task.wp_bind]
      exact solo_execute (Session.sees_new w) (fun _ _ => enforceDue_solo w _ (hdue _ (.refl _)))
        fun hA => absurd hA not_faulty_faultless
    rcases Coro.program_solo _ hwp env' henv' with ⟨_, _, h, _⟩ | ⟨_, _, h, _⟩
    · exact h
    · exact h.elim
  refine ⟨hone.sameRows hcall, fun sub hsub i r hr hc => ?_, ?_⟩
  · refine ⟨_, (hone.instances i).trans (congrArg _ hr), ?_⟩
    show (r.expired (w.db.due now)).status = _
    split
    · next hlive =>
        rw [Instance.expired_of_done hlive ⟨sub, hsub, hc.symm⟩]
        by_cases hd : ∃ sub' ∈ w.db.due now, sub'.clientId = r.clientId ∧
          sub'.teardownMode = .destroy
        · rw [if_pos hd, modeOf, if_pos hd]
          rfl
        · rw [if_neg hd, modeOf, if_neg hd]
          rfl
    · next hdead => rw [Instance.expired_of_not fun h => hdead h.1]
  · rcases Coro.program_solo _ (enforceExpiry_none call.2 hcall.due_nil) env'' henv'' with
      ⟨a, _, ⟨rfl, hw⟩, hx⟩ | ⟨_, _, h, _⟩
    · exact Prod.ext hx hw
    · exact h.elim

/-- A client with two subscriptions that have run out, in both modes, and an instance. -/
def bothModes : World where
  db :=
    { clients := .of [{ id := 1 }]
      subscriptions := .of
        [{ id := 1, clientId := 1, startsAt := 0, endsAt := 5, teardownMode := .destroy },
         { id := 2, clientId := 1, startsAt := 0, endsAt := 6, teardownMode := .suspend }]
      instances := .of [{ id := 7, clientId := 1, externalId := 70, region := "ewr" }] }

/-- Whichever comes first, the instance is destroyed. -/
theorem enforceExpiry_confluent_bothModes :
    ∃ r', ((enforceDue 10 (bothModes.db.due 10).reverse).program fun x =>
      .expired x.1 x.2).solo handle
        (fun _ => {}) bothModes |>.2.db.instances.get? 7 = some r' ∧ r'.status = .destroyed :=
  (enforceExpiry_confluent {} bothModes 10 (List.reverse_perm _) (fun _ => {}) (fun _ => {})
    (fun _ => {}) (fun _ => rfl) (fun _ => rfl) fun _ => rfl).2.1
    { id := 1, clientId := 1, startsAt := 0, endsAt := 5, teardownMode := .destroy }
    (by decide) 7 { id := 7, clientId := 1, externalId := 70, region := "ewr" } rfl rfl

end BrokerBridge
