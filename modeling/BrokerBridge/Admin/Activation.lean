import BrokerBridge.Admin.Versions
import Mathlib.Data.List.MinMax

/-!
# Histories of activations

Requests to `activate_provider` served one after the other, by a database that
does not fail; a probe reports what it reports. Each is refused and changes
nothing, or it installs a row of its kind.

What the console relies on is that the row in force for everyone is the one that
was last activated for everyone, and that the versions of a kind increase. The
versions do, whatever is requested. The row in force does not survive a request
that only stages a row, or that is for one client: the bulk update retires it
before it is known what the new row is for.
-/

namespace BrokerBridge.Admin

open Conc

/-- A request, and what the probe will report. -/
structure Request where
  kind : String
  body : ActivateRequest
  probe : Probe := {}

/-- The body as it will be stored, or why the request is refused. -/
def validated (s : ConsoleSettings) (k : ProviderKind) (body : ActivateRequest) (probe : Probe) :
    Except Exn ProviderBody := do
  let config ← applyRegionConfig body.config
  if body.validateFirst then
    let (config, message) ← checkBody s k body config
    match message with
    | none => .ok config
    | some message =>
        if probe.ok then .ok config else .error (validationFailed (message probe))
  else .ok config

/-- The request passes validation, for this kind. -/
def Request.Passes (s : ConsoleSettings) (q : Request) (k : ProviderKind) : Prop :=
  ProviderKind.ofString q.kind = some k ∧ ∃ config, validated s k q.body q.probe = .ok config

/-- The world after a request has been served. -/
def serve (s : ConsoleSettings) (w : World) (q : Request) : World :=
  ((programOf s (.activate q.kind q.body)).solo handle (fun _ => { probe := q.probe }) w).2

def serveAll (s : ConsoleSettings) (w : World) (qs : List Request) : World :=
  qs.foldl (serve s) w

/-! ## One request -/

section Served

variable {s : ConsoleSettings} {k : ProviderKind} {body : ActivateRequest} {probe : Probe}
  {w : World} {ws : List Write}

/-- The database does not fail, and the probe reports `probe`. -/
abbrev Calmly (probe : Probe) (e : Env) : Prop := e = { probe := probe }

theorem lt_freshId {i : Nat} (h : i ∈ w.ids) : i < w.freshId := by
  have hle : i ≤ w.ids.foldr max 0 := List.le_max_of_le h (Nat.le_refl i)
  have hmax : w.ids.foldr max 0 + 1 ≤ w.freshId := Nat.le_max_right _ _
  omega

theorem lt_freshId_of_provider {r : ProviderConfig} (h : r ∈ w.db.providers.rows) :
    r.id < w.freshId := by
  refine lt_freshId ?_
  simp only [World.ids, List.mem_append, List.mem_map]
  exact .inl (.inl (.inl ⟨r, h, rfl⟩))

theorem lt_freshId_of_event {r : OutboxRow} (h : r ∈ w.db.outbox.rows) : r.id < w.freshId := by
  refine lt_freshId ?_
  simp only [World.ids, List.mem_append, List.mem_map]
  exact .inl (.inr ⟨r, h, rfl⟩)

theorem wp_execute_calmly {q : Query} {Q : q.Res → List Write → World → Prop}
    {E : Exn → List Write → World → Prop} (h : Q (q.eval (w.db.view w.clock ws)) ws w) :
    Task.wp (alone handle (Calmly probe)) (execute q) Q E ws w := by
  rw [wp_execute]
  rintro _ rfl
  exact h

theorem wp_commit_calmly {d : Tables} {Q : Unit → List Write → World → Prop}
    {E : Exn → List Write → World → Prop} (hd : w.db.write? w.clock ws = some d)
    (h : Q () [] { w with db := d }) : Task.wp (alone handle (Calmly probe)) commit Q E ws w := by
  rw [wp_commit]
  rintro _ rfl
  have hcommit : handle (.commit ws) { probe := probe } w = (.ok (), { w with db := d }) := by
    simp only [handle, hd, Env.answer]
  rw [hcommit]
  exact h

theorem wp_newId_calmly {Q : Nat → List Write → World → Prop} {E : Exn → List Write → World → Prop}
    (h : Q w.freshId ws { w with nextId := w.freshId + 1 }) :
    Task.wp (alone handle (Calmly probe)) newId Q E ws w := by
  rintro _ rfl
  exact h

theorem wp_validateBody {Q : ProviderBody → List Write → World → Prop}
    {E : Exn → List Write → World → Prop}
    (hok : ∀ config, validated s k body probe = .ok config → Q config ws w)
    (herr : (∀ config, validated s k body probe ≠ .ok config) → ∀ e, E e ws w) :
    Task.wp (alone handle (Calmly probe)) (validateBody s k body) Q E ws w := by
  unfold validateBody
  unfold validated at hok herr
  rw [Task.wp_bind, wp_ofAnswer]
  cases hregion : applyRegionConfig body.config with
  | error e => exact herr (by rw [hregion]; exact fun _ h => nomatch h) e
  | ok config =>
      rw [hregion] at hok herr
      simp only [bind, Except.bind] at hok herr
      show Task.wp (alone handle (Calmly probe))
        (if body.validateFirst = true then _ else _) Q E ws w
      rw [Task.wp_ite]
      split
      · next hfirst =>
          rw [if_pos hfirst] at hok herr
          rw [Task.wp_bind, wp_ofAnswer]
          cases hcheck : checkBody s k body config with
          | error e => exact herr (by rw [hcheck]; exact fun _ h => nomatch h) e
          | ok checked =>
              obtain ⟨config, message⟩ := checked
              rw [hcheck] at hok herr
              simp only at hok herr
              cases message with
              | none => exact hok config rfl
              | some message =>
                  simp only at hok herr
                  show Task.wp (alone handle (Calmly probe))
                    (probeBody k body.providerType config message >>= _) Q E ws w
                  rw [Task.wp_bind]
                  rintro _ rfl
                  show Task.wp (alone handle (Calmly probe))
                    (if probe.ok = true then _ else _) _ E ws w
                  rw [Task.wp_ite]
                  split
                  · next hprobe => exact hok config (if_pos hprobe)
                  · next hprobe =>
                      exact herr (fun _ h => nomatch (if_neg hprobe).symm.trans h) _
      · next hfirst =>
          rw [if_neg hfirst] at hok
          exact hok config rfl

/-- The row that a request for kind `k` installs. -/
structure Installs (k : ProviderKind) (body : ActivateRequest) (d : Tables)
    (row : ProviderConfig) : Prop where
  kind : row.kind = k
  scope : row.scopeType = .global
  client : row.clientId = body.clientId
  status : row.status = if body.activate then .active else .pending
  activated : row.activatedAt.isSome = body.activate
  version : row.version = nextVersion ((Query.latest k).eval d)

/-- The tables after the installation of a row. -/
def Installed (k : ProviderKind) (body : ActivateRequest) (d d' : Tables) : Prop :=
  ∃ row, Installs k body d row ∧
    d'.providers.rows =
      d.providers.rows.map (·.retireIn (d.activeIds k)) ++ [row]

theorem wp_retireActive_calmly {Q : Unit → List Write → World → Prop}
    {E : Exn → List Write → World → Prop}
    (h : Q () (retireWrites (w.db.activeIds k)) w) :
    Task.wp (alone handle (Calmly probe)) (retireActive k) Q E [] w := by
  rw [wp_retireActive]
  rintro _ rfl
  exact h

theorem wp_activationTime {Q : Option Instant → List Write → World → Prop}
    {E : Exn → List Write → World → Prop}
    (h : ∀ t : Option Instant, t.isSome = body.activate → Q t ws w) :
    Task.wp (alone handle (Calmly probe)) (activationTime body.activate) Q E ws w := by
  unfold activationTime
  rw [Task.wp_ite]
  split
  · next hactivate =>
      rintro _ rfl
      exact h (some w.clock) hactivate.symm
  · next hactivate => exact h none (by simpa using hactivate)

theorem wp_announceActivation {version : Nat} {Q : Unit → List Write → World → Prop}
    {E : Exn → List Write → World → Prop}
    (h : ∀ (events : List OutboxRow) (w' : World),
      (∀ e ∈ events, ∀ r ∈ w.db.outbox.rows, r.id ≠ e.id) →
      (events.map (·.id)).Nodup → w'.db = w.db → Q () (ws ++ events.map .addOutbox) w') :
    Task.wp (alone handle (Calmly probe)) (announceActivation k body version) Q E ws w := by
  unfold announceActivation
  rw [Task.wp_ite]
  split
  · rintro _ rfl
    refine h [_] _ ?_ (List.nodup_singleton _) rfl
    intro e he r hr
    rw [List.mem_singleton.mp he]
    exact Nat.ne_of_lt (lt_freshId_of_event hr)
  · have := h [] w (List.forall_mem_nil _) List.nodup_nil rfl
    rwa [List.map_nil, List.append_nil] at this

theorem wp_installProvider (config : ProviderBody) :
    Task.wp (alone handle (Calmly probe)) (installProvider k body config)
      (fun _ _ w' => Installed k body w.db w'.db) (fun _ _ w' => Installed k body w.db w'.db)
      [] w := by
  unfold installProvider
  rw [Task.wp_bind]
  refine wp_execute_calmly ?_
  unfold installVersion
  rw [Task.wp_bind]
  refine wp_retireActive_calmly ?_
  rw [Task.wp_bind]
  refine wp_newId_calmly ?_
  rw [Task.wp_bind]
  refine wp_activationTime fun t ht => ?_
  simp only [Task.wp_bind, wp_stage]
  refine wp_announceActivation fun events w' hevents hnodup hw' => ?_
  generalize hrow : ProviderConfig.mk w.freshId k _ _ _ _ _ config t = row
  have hinstalls : Installs k body w.db row := by
    subst hrow
    exact ⟨rfl, rfl, rfl, rfl, ht, rfl⟩
  obtain ⟨d', hd'⟩ := @write?_installWrites_some w'.clock w'.db (w.db.activeIds k) row _
    (fun r hr => by
      rw [hw'] at hr
      subst hrow
      exact Nat.ne_of_lt (lt_freshId_of_provider hr)) (hw' ▸ hevents) hnodup
  have hrows := write?_installWrites hd'
  rw [hw'] at hrows
  have hafter : Installed k body w.db d' := ⟨row, hinstalls, hrows⟩
  rw [List.append_assoc, List.singleton_append]
  refine wp_commit_calmly hd' ?_
  refine wp_execute_calmly (w := { w' with db := d' }) ?_
  show Task.wp (alone handle (Calmly probe)) (refreshed (d'.providers.get? w.freshId)) _ _ []
    { w' with db := d' }
  cases d'.providers.get? w.freshId
  · exact hafter
  · exact hafter

/-- A request that passes installs a row; any other changes nothing. -/
theorem serve_cases (s : ConsoleSettings) (w : World) (q : Request) :
    (∃ k, q.Passes s k ∧ Installed k q.body w.db (serve s w q).db) ∨
    (∀ k, ¬ q.Passes s k) ∧ (serve s w q).db = w.db := by
  have hrun : ∀ Q : World → Prop,
      Task.wp (alone handle (Calmly q.probe)) (activateProvider s q.kind q.body)
        (fun _ _ w' => Q w') (fun _ _ w' => Q w') [] w → Q (serve s w q) := by
    intro Q h
    refine Prog.solo_of_alone (p := programOf s (.activate q.kind q.body)) (Q := fun _ w' => Q w')
      (A := Calmly q.probe) ?_ fun _ => rfl
    show (Prog.bind (activateProvider s q.kind q.body []) _).fold
      (alone handle (Calmly q.probe)) _ w
    rw [Prog.fold_bind]
    refine Prog.alone_mono ?_ h
    rintro ⟨a | a, _⟩ w' hw' <;> exact hw'
  refine hrun (fun w' => (∃ k, q.Passes s k ∧ Installed k q.body w.db w'.db) ∨
    (∀ k, ¬ q.Passes s k) ∧ w'.db = w.db) ?_
  unfold activateProvider
  cases hkind : ProviderKind.ofString q.kind with
  | none => exact .inr ⟨fun k hk => (nomatch hkind.symm.trans hk.1), rfl⟩
  | some k =>
      rw [Task.wp_bind]
      refine wp_validateBody (fun config hconfig => ?_) fun hrefused _ => ?_
      · have hpasses : q.Passes s k := ⟨hkind, config, hconfig⟩
        exact Task.wp_alone_mono (wp_installProvider config)
          (fun _ _ _ h => .inl ⟨k, hpasses, h⟩) fun _ _ _ h => .inl ⟨k, hpasses, h⟩
      · refine .inr ⟨fun k' hk' => ?_, rfl⟩
        obtain ⟨hkind', config, hconfig⟩ := hk'
        cases hkind.symm.trans hkind'
        exact hrefused config hconfig

end Served

/-! ## What stays in force -/

/-- The rows that were activated for everyone, in the order of the activations. -/
def Tables.activations (d : Tables) (k : ProviderKind) : List ProviderConfig :=
  (d.ofKind k).filter fun r => r.clientId.isNone && r.activatedAt.isSome

/-- Once a kind has been activated for everyone, the last row so activated is the
one in force, and versions increase. -/
structure Steady (d : Tables) (k : ProviderKind) : Prop where
  latest : ∀ r, (d.activations k).getLast? = some r → d.inForce k = [r]
  versions : ((d.ofKind k).map (·.version)).Pairwise (· < ·)

section Steadiness

variable {s : ConsoleSettings} {k k' : ProviderKind} {body : ActivateRequest} {d d' : Tables}

/-- The rows of another kind are not touched. -/
theorem Installed.ofKind_of_ne (h : Installed k body d d') (hk : k' ≠ k) :
    d'.ofKind k' = d.ofKind k' := by
  obtain ⟨row, hrow, hrows⟩ := h
  exact ofKind_installed_of_ne hrows (fun i hi => mem_activeIds hi)
    (fun heq => hk (heq.symm.trans hrow.kind)) hk

theorem Steady.of_ofKind (h : Steady d k) (heq : d'.ofKind k = d.ofKind k) : Steady d' k := by
  refine ⟨fun r hr => ?_, heq ▸ h.versions⟩
  rw [inForce_eq_ofKind, heq, ← inForce_eq_ofKind]
  rw [Tables.activations, heq] at hr
  exact h.latest r hr

/-- No row of the kind is left active but the new one. -/
theorem Installed.inForce (h : Installed k body d d') :
    ∃ row, Installs k body d row ∧
      d'.inForce k = (if body.global then [row] else []) ∧
      d'.ofKind k = (d.ofKind k).map (·.retireIn (d.activeIds k)) ++ [row] := by
  obtain ⟨row, hrow, hrows⟩ := h
  have hkind := ofKind_installed (k := k) hrows
  rw [if_pos hrow.kind] at hkind
  refine ⟨row, hrow, ?_, hkind⟩
  rw [inForce_installed hrows hrow.kind, List.filter_singleton, ProviderConfig.activeGlobal,
    hrow.kind, hrow.status, hrow.client, hrow.scope, ActivateRequest.global]
  cases body.activate <;> cases body.clientId <;> simp

theorem Installed.versions (h : Installed k body d d') (hs : Steady d k) :
    ((d'.ofKind k).map (·.version)).Pairwise (· < ·) := by
  obtain ⟨row, hrow, hrows⟩ := h
  exact versions_installed hrows hrow.kind hrow.version hs.versions

theorem Installed.activations (h : Installed k body d d') :
    ∃ row, Installs k body d row ∧ d'.inForce k = (if body.global then [row] else []) ∧
      d'.activations k = (d.activations k).map (·.retireIn (d.activeIds k)) ++
        if body.global then [row] else [] := by
  obtain ⟨row, hrow, hforce, hkind⟩ := h.inForce
  refine ⟨row, hrow, hforce, ?_⟩
  rw [Tables.activations, hkind, List.filter_append, filter_map_retireIn (by simp)]
  congr 1
  rw [List.filter_singleton, hrow.client, hrow.activated, ActivateRequest.global]
  cases body.activate <;> cases body.clientId <;> simp

/-- The step lemma: an installation leaves the kind steady exactly when it is for
everyone, or nothing was in force for everyone before. -/
theorem Installed.steady (h : Installed k body d d') (hs : Steady d k) :
    Steady d' k ↔ (body.global = true ∨ d.activations k = []) := by
  obtain ⟨row, hrow, hforce, hactivations⟩ := h.activations
  constructor
  · intro hs'
    by_contra hnot
    obtain ⟨hglobal, hsome⟩ := not_or.mp hnot
    rw [if_neg hglobal] at hforce hactivations
    rw [List.append_nil] at hactivations
    have hne : d'.activations k ≠ [] := by
      rw [hactivations]
      exact fun heq => hsome (List.map_eq_nil_iff.mp heq)
    have := hs'.latest _ (List.getLast?_eq_some_getLast hne)
    rw [hforce] at this
    cases this
  · intro hcond
    refine ⟨fun r hr => ?_, h.versions hs⟩
    by_cases hglobal : body.global = true
    · rw [if_pos hglobal] at hforce hactivations
      rw [hactivations, List.getLast?_append, List.getLast?_singleton] at hr
      cases hr
      exact hforce
    · rw [if_neg hglobal, hcond.resolve_left hglobal] at hactivations
      rw [hactivations] at hr
      cases hr

end Steadiness

/-! ## Histories -/

theorem serveAll_take_succ {s : ConsoleSettings} {w : World} {qs : List Request} {n : Nat}
    {q : Request} (h : qs[n]? = some q) :
    serveAll s w (qs.take (n + 1)) = serve s (serveAll s w (qs.take n)) q := by
  rw [serveAll, serveAll, List.take_add_one, h, Option.toList_some, List.foldl_append]
  rfl

/-- A history keeps every kind steady exactly when every request that passes
validation is for everyone, or comes before the first activation for everyone of
its kind. -/
theorem steady_iff (s : ConsoleSettings) (w : World) (h : ∀ k, Steady w.db k)
    (qs : List Request) :
    (∀ n k, Steady (serveAll s w (qs.take n)).db k) ↔
      ∀ n q k, qs[n]? = some q → q.Passes s k →
        q.body.global = true ∨ (serveAll s w (qs.take n)).db.activations k = [] := by
  constructor
  · intro hs n q k hq hpasses
    have hafter := hs (n + 1) k
    rw [serveAll_take_succ hq] at hafter
    rcases serve_cases s (serveAll s w (qs.take n)) q with ⟨k', hk', hinstalled⟩ | ⟨hno, _⟩
    · cases hpasses.1.symm.trans hk'.1
      exact (hinstalled.steady (hs n k)).mp hafter
    · exact absurd hpasses (hno k)
  · intro hcond n
    induction n with
    | zero => exact h
    | succ n ih =>
        cases hq : qs[n]? with
        | none =>
            have hlen := List.getElem?_eq_none_iff.mp hq
            rw [List.take_of_length_le (Nat.le_succ_of_le hlen), ← List.take_of_length_le hlen]
            exact ih
        | some q =>
            rw [serveAll_take_succ hq]
            intro k
            rcases serve_cases s (serveAll s w (qs.take n)) q with ⟨k', hk', hinstalled⟩
              | ⟨_, hsame⟩
            · by_cases hk : k = k'
              · subst hk
                exact (hinstalled.steady (ih k)).mpr (hcond n q k hq hk')
              · exact (ih k).of_ofKind (hinstalled.ofKind_of_ne hk)
            · rw [hsame]
              exact ih k

theorem steady_empty (k : ProviderKind) : Steady ({} : Tables) k :=
  { latest := fun _ h => nomatch h
    versions := List.Pairwise.nil }

/-- The mock broker provider, activated for everyone. -/
def activateMock : Request := ⟨"broker_default", { providerType := "mock" }, {}⟩

/-- The same, only staged. -/
def stageMock : Request := ⟨"broker_default", { providerType := "mock", activate := false }, {}⟩

theorem steady_activated_twice :
    Steady (serveAll {} {} [activateMock, activateMock]).db .brokerDefault := by
  refine (steady_iff {} {} steady_empty [activateMock, activateMock]).mpr
    (fun n q k hq _ => .inl ?_) 2 .brokerDefault
  have hmem := List.mem_of_getElem? hq
  rcases List.mem_cons.mp hmem with rfl | hmem
  · rfl
  · rw [List.mem_singleton.mp hmem]
    rfl

/-- A staged row takes the place of the one in force: nothing is active any more. -/
theorem not_always_steady :
    ¬ ∀ (s : ConsoleSettings) (w : World), (∀ k, Steady w.db k) → ∀ qs : List Request,
      (∀ q ∈ qs, ∃ k, q.Passes s k) → ∀ k, Steady (serveAll s w qs).db k := by
  intro h
  have hpasses : ∀ q ∈ [activateMock, stageMock], ∃ k, q.Passes {} k := by
    intro q hq
    rcases List.mem_cons.mp hq with rfl | hq
    · exact ⟨.brokerDefault, rfl, {}, rfl⟩
    · rw [List.mem_singleton.mp hq]
      exact ⟨.brokerDefault, rfl, {}, rfl⟩
  have hsteady := h {} {} steady_empty _ hpasses .brokerDefault
  have hforce : (serveAll {} {} [activateMock, stageMock]).db.inForce .brokerDefault = [] := by
    decide
  have hlast : ((serveAll {} {} [activateMock, stageMock]).db.activations
      .brokerDefault).getLast?.isSome := by
    decide
  obtain ⟨r, hr⟩ := Option.isSome_iff_exists.mp hlast
  have := hsteady.latest r hr
  rw [hforce] at this
  cases this

end BrokerBridge.Admin
