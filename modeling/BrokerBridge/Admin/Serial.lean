import BrokerBridge.Admin.Parts
import BrokerBridge.Admin.Versions
import BrokerBridge.Conc.Annotation

/-!
# Activations that overlap

An activation reads the latest version of its kind, retires the active rows, and
commits the new row, in three statements. Nothing stands between those of two
activations: no lock, no constraint on kind and version, and the bulk update sees
only what is committed when it begins.

What an activation has read is still so when it commits exactly if the rows of its
kind are then what they were. In every run in which each activation commits on the
rows it has read, versions increase and at most one row of a kind is in force. The
assertion that carries this compares the rows of the kind with those in the world
where the latest version was read: since rows are never deleted, they are the same,
or there are more of them.
-/

namespace BrokerBridge.Admin

open Conc

/-- What activations are to keep. -/
structure Serial (d : Tables) : Prop where
  versions : ∀ k, ((d.ofKind k).map (·.version)).Pairwise (· < ·)
  inForce : ∀ k, (d.inForce k).length ≤ 1

/-- An activation commits on the rows of its kind that it has read. -/
def Unraced (s : Pools) : Happening → Prop
  | .step i _ => ∀ ws row, s.Asks i (.commit ws) → Write.addProvider row ∈ ws →
      ∀ w, (i, .query [] (.latest row.kind), w) ∈ s.trace →
        s.world.db.ofKind row.kind = w.db.ofKind row.kind
  | _ => True

/-! ## The protocol -/

/-- Where a call is: outside an activation, past the read of the latest version, or
past the bulk update. -/
inductive Installing where
  | out
  | read (k : ProviderKind) (version : Nat)
  | found (k : ProviderKind) (version : Nat) (ids : List ProviderConfigId)

/-- The writes of an activation that has read `version` and found the rows `ids`. -/
def IsInstall (k : ProviderKind) (version : Nat) (ids : List ProviderConfigId)
    (ws : List Write) : Prop :=
  ∃ row events, ws = installWrites ids row events ∧ row.kind = k ∧ row.version = version

def installing : Protocol Req Req.Ans Installing where
  allows
    | .out, r => r.within (· ≠ .providers) ∨ ∃ k, r = .query [] (.latest k)
    | .read k _, r => r = .retire [] k
    | .found _ _ _, .newId => True
    | .found _ _ _, .now => True
    | .found k v ids, .commit ws => IsInstall k v ids ws
    | _, _ => False
  advance
    | .out, .query _ (.latest k), .ok row => .read k (nextVersion row)
    | .read k v, .retire _ _, .ok ids => .found k v ids
    | .read _ _, _, _ => .out
    | .found _ _ _, .commit _, _ => .out
    | ph, _, _ => ph

theorem installing_quiet {r : Req} (h : r.within (· ≠ .providers)) :
    installing.allows .out r ∧ ∀ x, installing.advance .out r x = .out := by
  refine ⟨.inl h, fun x => ?_⟩
  cases r with
  | query ws q =>
      cases q with
      | latest k => exact absurd rfl h
      | _ => rfl
  | _ => rfl

/-! ## The calls follow it -/

/-- A stretch that leaves the provider rows alone. -/
theorem out_of_within {A : Part → Prop} {α : Type} {t : Job α} {ws : List Write}
    {Q : α → List Write → Installing → Prop} (hA : ∀ p, A p → p ≠ .providers)
    (ht : Within A t) (hws : ∀ w ∈ ws, A w.part)
    (hQ : ∀ a ws', (∀ w ∈ ws', A w.part) → Q a ws' .out) :
    Task.wp installing.step t Q (fun _ _ _ => True) ws .out :=
  Task.wp_quiet (fun _ hr => installing_quiet (Req.within_mono hA hr))
    (Task.wp_only_mono (fun _ => id) (ht ws hws) hQ fun _ _ _ => trivial)

theorem out_of_job {α : Type} {t : Job α} (ht : Within (· ≠ .providers) t) :
    Task.wp installing.step t (fun _ _ _ => True) (fun _ _ _ => True) [] .out :=
  out_of_within (fun _ => id) ht (List.forall_mem_nil _) fun _ _ _ => trivial

theorem activationTime_follows {activate : Bool} {ws : List Write} {ph : Installing}
    {Q : Option Instant → List Write → Installing → Prop} (hnow : installing.allows ph .now)
    (hstay : ∀ t, installing.advance ph .now t = ph) (hQ : ∀ t, Q t ws ph) :
    Task.wp installing.step (activationTime activate) Q (fun _ _ _ => True) ws ph := by
  unfold activationTime
  rw [Task.wp_ite]
  split
  · refine ⟨hnow, fun t => ?_⟩
    rw [hstay]
    exact hQ (some t)
  · exact hQ none

/-- The commit of an installation, and what comes after it. -/
theorem commit_follows {k : ProviderKind} {version : Nat} {ids : List ProviderConfigId}
    {row : ProviderConfig} (hkind : row.kind = k) (hversion : row.version = version)
    (events : List OutboxRow) (i : ProviderConfigId) :
    Task.wp installing.step
      (do
        commit
        refreshed (← execute (.providerConfig i)))
      (fun _ _ _ => True) (fun _ _ _ => True)
      (retireWrites ids ++ [.addProvider row] ++ events.map .addOutbox)
      (.found k version ids) := by
  rw [Task.wp_bind, wp_commit, List.append_assoc, List.singleton_append]
  refine ⟨⟨row, events, rfl, hkind, hversion⟩, fun x => ?_⟩
  cases x with
  | error e => trivial
  | ok _ =>
      exact out_of_job (Within.bind (Within.execute fun _ => trivial) fun x => Within.refreshed x)

theorem installVersion_follows (k : ProviderKind) (body : ActivateRequest) (config : ProviderBody)
    (version : Nat) :
    Task.wp installing.step (installVersion k body config version) (fun _ _ _ => True)
      (fun _ _ _ => True) [] (.read k version) := by
  unfold installVersion
  rw [Task.wp_bind, wp_retireActive]
  refine ⟨rfl, fun x => ?_⟩
  cases x with
  | error e => trivial
  | ok ids =>
      have hfound : installing.advance (.read k version) (.retire [] k) (.ok ids) =
        .found k version ids := rfl
      rw [cases_ok, hfound, List.nil_append, Task.wp_bind, wp_newId]
      refine ⟨trivial, fun i => ?_⟩
      beta_reduce
      rw [Task.wp_bind]
      refine activationTime_follows trivial (fun _ => rfl) fun t => ?_
      rw [Task.wp_bind, wp_stage]
      unfold announceActivation
      rw [Task.wp_bind, Task.wp_ite]
      split
      · exact ⟨trivial, fun e => commit_follows rfl rfl [_] i⟩
      · let row : ProviderConfig :=
          { id := i, kind := k, providerType := body.providerType, clientId := body.clientId,
            status := if body.activate = true then .active else .pending, version := version,
            config := config, activatedAt := t }
        have := @commit_follows k version ids row rfl rfl [] i
        rw [List.map_nil, List.append_nil] at this
        exact this

theorem activateProvider_follows (s : ConsoleSettings) (kind : String) (body : ActivateRequest) :
    Task.wp installing.step (activateProvider s kind body) (fun _ _ _ => True)
      (fun _ _ _ => True) [] .out := by
  unfold activateProvider
  split
  · trivial
  · next k _ =>
      rw [Task.wp_bind]
      refine out_of_within (A := fun _ => False) (fun _ h => h.elim) (validateBody_within s k body)
        (List.forall_mem_nil _) fun config ws hws => ?_
      have hnil : ws = [] := List.eq_nil_iff_forall_not_mem.mpr hws
      subst hnil
      unfold installProvider
      rw [Task.wp_bind, wp_execute]
      refine ⟨.inr ⟨k, rfl⟩, fun x => ?_⟩
      cases x with
      | error e => trivial
      | ok latest => exact installVersion_follows k body config _

theorem programOf_follows (s : ConsoleSettings) (c : Call) :
    (programOf s c).Follows installing (fun _ _ => True) .out := by
  have hprogram : ∀ {α : Type} {t : Job α} {reply : α → Reply},
      Task.wp installing.step t (fun _ _ _ => True) (fun _ _ _ => True) [] .out →
      (t.program reply).Follows installing (fun _ _ => True) .out := by
    intro α t reply h
    show (Prog.bind (t []) _).fold installing.step _ .out
    rw [Prog.fold_bind]
    exact Prog.step_mono (fun _ _ _ => trivial) h
  cases c with
  | activate kind body => exact hprogram (activateProvider_follows s kind body)
  | putConfig key value user =>
      exact hprogram (out_of_job (putConfig_within nofun nofun key value user))
  | drain limit => exact hprogram (out_of_job (drainOutbox_within nofun limit _))
  | publisherRound last => exact hprogram (out_of_job (publisherRound_within nofun last))
  | emitSimEvent t p => exact hprogram (out_of_job (emitSimEvent_within nofun nofun t p))

/-! ## The assertions -/

/-- Since `d`, the rows of the kind are the same, or there are more. -/
def Since (k : ProviderKind) (d d' : Tables) : Prop :=
  d'.ofKind k = d.ofKind k ∨ (d.ofKind k).length < (d'.ofKind k).length

/-- What one request does to the rows of every kind. -/
def Grows (d d' : Tables) : Prop :=
  ∀ k, d'.ofKind k = d.ofKind k ∨
    (d.ofKind k).length < (d'.ofKind k).length ∧
      ∀ r ∈ d.ofKind k, ∃ r' ∈ d'.ofKind k, r'.id = r.id

theorem Since.grows {k : ProviderKind} {d d₁ d₂ : Tables} (h : Since k d d₁) (hg : Grows d₁ d₂) :
    Since k d d₂ := by
  rcases hg k with heq | ⟨hlt, _⟩
  · rcases h with h | h
    · exact .inl (heq.trans h)
    · exact .inr (heq ▸ h)
  · rcases h with h | h
    · exact .inr (h ▸ hlt)
    · exact .inr (Nat.lt_trans h hlt)

/-- The assertion of a phase, for thread `i`. -/
def At (i : Nat) : Installing → Past World Req → Prop
  | .out, _ => True
  | .read k version, h => ∃ w₀, (i, .query [] (.latest k), w₀) ∈ h.2 ∧
      version = nextVersion ((Query.latest k).eval w₀.db) ∧ Since k w₀.db h.1.db
  | .found k version ids, h => ∃ w₀, (i, .query [] (.latest k), w₀) ∈ h.2 ∧
      version = nextVersion ((Query.latest k).eval w₀.db) ∧
      (∀ i ∈ ids, ∃ r ∈ h.1.db.ofKind k, r.id = i) ∧
      (h.1.db.ofKind k = w₀.db.ofKind k ∧ ids = h.1.db.activeIds k ∨
        (w₀.db.ofKind k).length < (h.1.db.ofKind k).length)

theorem activeIds_congr {k : ProviderKind} {d d' : Tables} (h : d'.ofKind k = d.ofKind k) :
    d'.activeIds k = d.activeIds k := by
  simp only [Tables.activeIds, Query.eval, h]

theorem latest_congr {k : ProviderKind} {d d' : Tables} (h : d'.ofKind k = d.ofKind k) :
    (Query.latest k).eval d' = (Query.latest k).eval d := by
  simp only [Query.eval, h]

/-- An assertion stays true while rows only come. -/
theorem At.grows {i : Nat} {ph : Installing} {h : Past World Req} {w : World}
    {tr : List (Nat × Req × World)} (hat : At i ph h) (htr : ∀ x ∈ h.2, x ∈ tr)
    (hg : Grows h.1.db w.db) : At i ph (w, tr) := by
  cases ph with
  | out => trivial
  | read k version =>
      obtain ⟨w₀, hmem, hversion, hsince⟩ := hat
      exact ⟨w₀, htr _ hmem, hversion, hsince.grows hg⟩
  | found k version ids =>
      obtain ⟨w₀, hmem, hversion, hids, hrows⟩ := hat
      refine ⟨w₀, htr _ hmem, hversion, ?_, ?_⟩
      · intro j hj
        obtain ⟨r, hr, hid⟩ := hids j hj
        rcases hg k with heq | ⟨_, hkeep⟩
        · exact ⟨r, heq ▸ hr, hid⟩
        · obtain ⟨r', hr', hid'⟩ := hkeep r hr
          exact ⟨r', hr', hid'.trans hid⟩
      · rcases hg k with heq | ⟨hlt, _⟩
        · rcases hrows with ⟨hsame, hact⟩ | hmore
          · exact .inl ⟨heq.trans hsame, hact.trans (activeIds_congr heq).symm⟩
          · exact .inr (heq ▸ hmore)
        · rcases hrows with ⟨hsame, _⟩ | hmore
          · exact .inr (hsame ▸ hlt)
          · exact .inr (Nat.lt_trans hmore hlt)

theorem Grows.refl (d : Tables) : Grows d d := fun _ => .inl rfl

theorem Grows.of_providers {d d' : Tables} (h : d'.providers = d.providers) : Grows d d' :=
  fun k => .inl (by rw [Tables.ofKind, h, Tables.ofKind])

theorem Serial.of_providers {d d' : Tables} (h : d'.providers = d.providers) (hs : Serial d) :
    Serial d' := by
  constructor
  · intro k
    rw [Tables.ofKind, h]
    exact hs.versions k
  · intro k
    rw [Tables.inForce, h]
    exact hs.inForce k

/-- Writes of the other parts leave the provider rows alone. -/
theorem write?_providers {now : Instant} {d d' : Tables} {ws : List Write}
    (hws : ∀ w ∈ ws, w.part ≠ .providers) (h : d.write? now ws = some d') :
    d'.providers = d.providers := by
  induction ws generalizing d with
  | nil =>
      cases h
      rfl
  | cons w ws ih =>
      obtain ⟨_, h⟩ := Tables.write?_cons.mp h
      refine (ih (fun w' hw' => hws w' (List.mem_cons_of_mem _ hw')) h).trans ?_
      have hw := hws w List.mem_cons_self
      cases w with
      | addProvider => exact absurd rfl hw
      | setProvider => exact absurd rfl hw
      | _ => rfl

/-- What the commit of an installation does to the rows. -/
theorem grows_of_install {i : Nat} {k : ProviderKind} {version : Nat}
    {ids : List ProviderConfigId} {h : Past World Req} {ws : List Write} {d' : Tables}
    (hat : At i (.found k version ids) h) (hws : IsInstall k version ids ws)
    (hd : h.1.db.write? h.1.clock ws = some d') : Grows h.1.db d' := by
  obtain ⟨w₀, _, _, hids, _⟩ := hat
  obtain ⟨row, events, rfl, hkind, _⟩ := hws
  have hrows := write?_installWrites hd
  intro k'
  by_cases hk : k' = k
  · subst hk
    right
    rw [ofKind_installed hrows, if_pos hkind]
    refine ⟨by simp, fun r hr => ⟨r.retireIn ids, ?_, ProviderConfig.retireIn_id⟩⟩
    exact List.mem_append_left _ (List.mem_map_of_mem hr)
  · exact .inl (ofKind_installed_of_ne hrows hids (fun heq => hk (heq.symm.trans hkind)) hk)

/-- An allowed request only lets rows come. -/
theorem grows_of_allowed {i : Nat} {ph : Installing} {h : Past World Req} {r : Req}
    (hat : At i ph h) (hr : installing.allows ph r) (e : Env) :
    Grows h.1.db (handle r e h.1).2.db := by
  by_cases hc : ∃ ws, r = .commit ws
  · obtain ⟨ws, rfl⟩ := hc
    rcases commit_cases ws e h.1 with ⟨f, hf⟩ | ⟨d, hd, hf⟩
    · rw [hf]
      exact Grows.refl _
    · rw [hf]
      cases ph with
      | out =>
          rcases hr with hr | ⟨k, hk⟩
          · exact Grows.of_providers (write?_providers hr hd)
          · cases hk
      | read k v => cases hr
      | found k v ids => exact grows_of_install hat hr hd
  · rw [handle_db (fun ws heq => hc ⟨ws, heq⟩)]
    exact Grows.refl _

/-- The step lemma for the invariant: on the rows it has read, an installation
keeps versions increasing and one row in force. -/
theorem serial_of_allowed {i : Nat} {ph : Installing} {s : Pools} {r : Req}
    (hs : Serial s.world.db) (hat : At i ph s.past) (hr : installing.allows ph r) (e : Env)
    (hasks : s.Asks i r) (hcond : Unraced s (.step i e)) :
    Serial (handle r e s.world).2.db := by
  by_cases hc : ∃ ws, r = .commit ws
  · obtain ⟨ws, rfl⟩ := hc
    rcases commit_cases ws e s.world with ⟨f, hf⟩ | ⟨d, hd, hf⟩
    · rw [hf]
      exact hs
    · rw [hf]
      cases ph with
      | out =>
          rcases hr with hr | ⟨k, hk⟩
          · exact hs.of_providers (write?_providers hr hd)
          · cases hk
      | read k v => cases hr
      | found k v ids =>
          obtain ⟨w₀, hmem, hversion, hids, hrows⟩ := hat
          obtain ⟨row, events, rfl, hkind, hv⟩ := hr
          have hsame : s.world.db.ofKind k = w₀.db.ofKind k := by
            rw [← hkind] at hmem ⊢
            refine hcond _ row hasks ?_ w₀ hmem
            exact List.mem_append_right _ List.mem_cons_self
          have hact : ids = s.world.db.activeIds k := by
            rcases hrows with ⟨_, hact⟩ | hmore
            · exact hact
            · exact absurd (congrArg List.length hsame) (Nat.ne_of_gt hmore)
          have hinstalled := write?_installWrites hd
          have hnext : row.version = nextVersion ((Query.latest k).eval s.world.db) := by
            rw [hv, hversion, latest_congr hsame]
          constructor
          · intro k'
            by_cases hk : k' = k
            · subst hk
              exact versions_installed hinstalled hkind hnext (hs.versions k')
            · rw [ofKind_installed_of_ne hinstalled hids
                (fun heq => hk (heq.symm.trans hkind)) hk]
              exact hs.versions k'
          · intro k'
            by_cases hk : k' = k
            · subst hk
              rw [inForce_installed (hact ▸ hinstalled) hkind]
              exact List.length_filter_le _ _
            · rw [inForce_eq_ofKind, ofKind_installed_of_ne hinstalled hids
                (fun heq => hk (heq.symm.trans hkind)) hk, ← inForce_eq_ofKind]
              exact hs.inForce k'
  · rw [handle_db (fun ws heq => hc ⟨ws, heq⟩)]
    exact hs

/-- Where a thread's own request leads. -/
theorem at_advance {i : Nat} {ph : Installing} {h : Past World Req} {r : Req} (hat : At i ph h)
    (hr : installing.allows ph r) (e : Env) :
    At i (installing.advance ph r (handle r e h.1).1)
      ((handle r e h.1).2, (i, r, h.1) :: h.2) := by
  have hg := grows_of_allowed hat hr e
  have hstay : At i ph ((handle r e h.1).2, (i, r, h.1) :: h.2) :=
    hat.grows (fun _ hx => List.mem_cons_of_mem _ hx) hg
  cases ph with
  | out =>
      rcases hr with hr | ⟨k, rfl⟩
      · rw [(installing_quiet hr).2]
        exact hstay
      · rcases query_cases [] (.latest k) e h.1 with ⟨f, hf⟩ | hf
        · rw [hf]
          trivial
        · rw [hf]
          exact ⟨h.1, List.mem_cons_self, rfl, .inl rfl⟩
  | read k v =>
      cases hr
      rcases retire_cases [] k e h.1 with ⟨f, hf⟩ | hf
      · rw [hf]
        trivial
      · rw [hf]
        obtain ⟨w₀, hmem, hversion, hsince⟩ := hat
        refine ⟨w₀, List.mem_cons_of_mem _ hmem, hversion, fun j hj => mem_activeIds hj, ?_⟩
        rcases hsince with hsame | hmore
        · exact .inl ⟨hsame, rfl⟩
        · exact .inr hmore
  | found k v ids =>
      cases r with
      | commit ws => trivial
      | newId => exact hstay
      | now => exact hstay
      | _ => exact hr.elim

def serially (s : ConsoleSettings) (w : World) :
    Annotation (console s) installing (fun _ _ => True) (Fresh w) Unraced where
  inv h := Serial h.1.db
  holds i ph _ h := At i ph h
  start _ _ _ := ⟨.out, programOf_follows s _, trivial⟩
  own {p i e r k ph} _ hc hp hf hinv hat _ :=
    ⟨serial_of_allowed hinv hat hf.allows e ⟨k, hp⟩ hc, at_advance hat hf.allows e⟩
  other {p i j e r k q ph ph'} _ _ _ _ hf _ _ hat hat' :=
    hat'.grows (fun _ hx => List.mem_cons_of_mem _ hx) (grows_of_allowed hat hf.allows e)
  tick {p v} _ hinv := by
    cases v with
    | advance n => exact hinv
    | announce t topic payload =>
        have hsame : (tick (.announce t topic payload) p.world).db.providers =
          p.world.db.providers := rfl
        exact Serial.of_providers hsame hinv
  tick_holds {p v j ph q} _ _ _ hat := by
    refine hat.grows (fun _ hx => hx) ?_
    cases v with
    | advance n => exact Grows.refl _
    | announce t topic payload => exact Grows.of_providers rfl

/-- In every run in which each activation commits on the rows it has read, versions
increase and at most one row of a kind is in force for everyone. -/
theorem serial_of_unraced (s : ConsoleSettings) {w : World} (hw : Serial w.db) {p : Pools}
    (h : (console s).Reach (Fresh w) Unraced p) : Serial p.world.db :=
  ((serially s w).sound (fun p hp => by
    cases hp
    exact ⟨hw, rfl⟩) h).1

/-! ## Two activations -/

/-- The request is this read of the latest version. -/
def Req.readsLatest (k : ProviderKind) : Req → Bool
  | .query [] (.latest k') => k' = k
  | _ => false

/-- `Unraced`, computed. -/
def unracedCheck (s : Pools) : Happening → Bool
  | .step i _ =>
      match s.prog? i with
      | some (.call (.commit ws) _) =>
          ws.all fun
            | .addProvider row => s.trace.all fun x =>
                !(x.1 == i && x.2.1.readsLatest row.kind) ||
                  decide (s.world.db.ofKind row.kind = x.2.2.db.ofKind row.kind)
            | _ => true
      | _ => true
  | _ => true

theorem unraced_of_check (s : Pools) (ev : Happening) (h : unracedCheck s ev = true) :
    Unraced s ev := by
  cases ev with
  | step i e =>
      intro ws row hasks hrow w hw
      obtain ⟨k, hk⟩ := hasks
      simp only [unracedCheck, hk] at h
      have hread := List.all_eq_true.mp (List.all_eq_true.mp h _ hrow) _ hw
      simpa [Req.readsLatest] using hread
  | start c => trivial
  | crash i => trivial
  | tick v => trivial

theorem serial_empty : Serial {} where
  versions _ := List.Pairwise.nil
  inForce _ := Nat.zero_le 1

/-- The mock broker provider, activated for everyone. -/
def activation : Call :=
  .activate "broker_default" { providerType := "mock", validateFirst := false }

/-- One activation after the other: read, update, id, clock, commit, refresh. -/
def inTurn : List Happening :=
  [.start activation] ++ List.replicate 6 (.step 0 {}) ++
    [.start activation] ++ List.replicate 6 (.step 1 {})

theorem serial_in_turn : Serial ((console {}).run { world := {} } inTurn).world.db :=
  serial_of_unraced {} serial_empty
    (Machine.reach_run_of_check unraced_of_check (reach_fresh {}) inTurn (by decide))

/-- Both read and update before either commits. -/
def sideBySide : List Happening :=
  [.start activation, .start activation] ++ List.replicate 2 (.step 0 {}) ++
    List.replicate 2 (.step 1 {}) ++ List.replicate 4 (.step 0 {}) ++
    List.replicate 4 (.step 1 {})

/-- Only activations of this kind for everyone are requested, and none fails or dies. -/
def onlyActivations (k : ProviderKind) : Happening → Bool
  | .start (.activate kind body) => ProviderKind.ofString kind = some k && body.global
  | .start _ => false
  | .step _ e => e.fault.isNone
  | .crash _ => false
  | .tick _ => true

/-- Two activations side by side: two rows are in force, both with version 1. -/
theorem not_serial :
    ¬ ∀ (s : ConsoleSettings) (k : ProviderKind) (w : World), Serial w.db → ∀ p : Pools,
      (console s).Reach (Fresh w) (fun _ ev => onlyActivations k ev = true) p →
      Serial p.world.db := by
  intro h
  have hserial := h {} .brokerDefault {} serial_empty _
    (Machine.reach_run_of_check (fun _ _ hev => hev) (reach_fresh {}) sideBySide (by decide))
  have hforce := hserial.inForce .brokerDefault
  have htwo : ¬ (((console {}).run { world := {} } sideBySide).world.db.inForce
      .brokerDefault).length ≤ 1 := by decide
  exact htwo hforce

end BrokerBridge.Admin
