import BrokerBridge.Admin.Jobs
import Mathlib.Data.List.Forall2

/-!
# Secrets in provider configurations

`_mask_config` hides the secrets of a configuration that is shown, `_split_config` keeps
them out of the one that is stored, and each has its own test on the keys. Here a
configuration is a dictionary with any keys, and the two tests are compared: on the keys
of one configuration, and by what a reader of the stored and shown configurations can tell
about the values of the keys that are masked.

Of a request only what reaches the configuration is modelled: its region is normalised,
its backend is set, and a probe may refuse it for any reason.
-/

namespace BrokerBridge.Admin

open Text

inductive Json where
  | null
  | bool (b : Bool)
  | num (x : Rat)
  | str (s : String)
  | arr (xs : List Json)
  | obj (fields : List (String × Json))

/-- `bool(value)` -/
def Json.truthy : Json → Bool
  | .null => false
  | .bool b => b
  | .num x => x ≠ 0
  | .str s => s ≠ ""
  | .arr xs => !xs.isEmpty
  | .obj fields => !fields.isEmpty

def Json.isNull : Json → Bool
  | .null => true
  | _ => false

/-- A dictionary, in the order of insertion. -/
abbrev ConfigDict : Type := List (String × Json)

namespace ConfigDict

variable (d : ConfigDict) (key : String) (value : Json)

def get : Json := (d.lookup key).getD .null

def has : Bool := d.any (·.1 == key)

def set : ConfigDict :=
  if has d key then d.map fun e => if e.1 = key then (key, value) else e
  else d ++ [(key, value)]

/-- `{**d, **d'}` -/
def merge (d' : ConfigDict) : ConfigDict := d'.foldl (fun d e => set d e.1 e.2) d

end ConfigDict

/-! ## The two tests -/

/-- `part in key` -/
def within (part key : String) : Bool := key.toList.tails.any part.toList.isPrefixOf

/-- `_SECRET_KEYS` -/
def secretKeys : List String := ["api_key", "password", "token", "secret", "username"]

/-- The test of `_mask_config`. -/
def masks (key : String) : Bool :=
  lower key ∈ secretKeys || within "secret" (lower key) || within "key" (lower key) ||
    within "password" (lower key)

/-- The test of `_split_config`. -/
def splitsOff (key : String) : Bool :=
  lower key ∈ secretKeys || within "secret" (lower key) ||
    "_key".toList.isSuffixOf (lower key).toList || within "password" (lower key)

/-- `_mask_config` -/
def maskConfig (config : ConfigDict) : ConfigDict :=
  config.map fun e => if masks e.1 then (e.1, .str "***") else e

/-- What `_split_config` returns. -/
structure SplitConfig where
  secrets : ConfigDict
  nonSecret : ConfigDict

/-- `_split_config` -/
def splitConfig (config : ConfigDict) : SplitConfig where
  secrets := config.filter fun e => splitsOff e.1
  nonSecret := config.filter fun e => !splitsOff e.1

/-! ## From a request to the stored row -/

section Activate

variable (render : Json → String)

/-- `str(value)`; `render` is the `str` of what is not a string. -/
def Json.text : Json → String
  | .str s => s
  | x => render x

def unset (raw : Json) : Bool := raw.isNull || (strip (raw.text render)).isEmpty

/-- The region a configuration asks for. -/
def rawRegion (config : ConfigDict) : Json :=
  let given := ConfigDict.get config "default_region"
  if unset render given then ConfigDict.get config "region" else given

def placeRegion (config : ConfigDict) (region : String) : ConfigDict :=
  let out := ConfigDict.set config "default_region" (.str region)
  if ConfigDict.has out "region" then ConfigDict.set out "region" (.str region) else out

/-- `_apply_region_config` -/
def applyRegion (config : ConfigDict) : Except Exn ConfigDict :=
  let raw := rawRegion render config
  if unset render raw then .ok config
  else
    match normalizeRegion (raw.text render) with
    | .error message => .error (validationFailed message)
    | .ok region => .ok (placeRegion config region)

/-- The name of the backend that a mock is to run on. -/
def backendOf (s : ConsoleSettings) (config : ConfigDict) : String :=
  let given := ConfigDict.get config "mock_backend"
  lower (strip
    (if given.truthy then given.text render
    else if s.mockInfraBackend ≠ "" then s.mockInfraBackend
    else "database"))

/-- The backend of a mock, checked and set. -/
def setBackend (s : ConsoleSettings) (config : ConfigDict) : Except Exn ConfigDict :=
  let backend := backendOf render s config
  if backend = "database" ∨ backend = "docker" then
    .ok (ConfigDict.set config "mock_backend" (.str backend))
  else
    .error (validationFailed s!"mock_backend '{backend}' not supported (use database|docker)")

/-- The checks before a probe. -/
def checkConfig (s : ConsoleSettings) (k : ProviderKind) (providerType : String)
    (config : ConfigDict) : Except Exn ConfigDict :=
  match k with
  | .event =>
      if providerType ∈ ["memory", "redpanda_local", "kafka", "redpanda_cloud"] then .ok config
      else
        .error (validationFailed (s!"Event provider type '{providerType}' not supported " ++
          "(use memory|redpanda_local|kafka|redpanda_cloud)"))
  | .infrastructure =>
      if lower providerType = "mock" then setBackend render s config
      else if lower providerType = "vultr" then
        if (ConfigDict.get config "api_key").truthy then .ok config
        else .error (validationFailed "Vultr api_key required")
      else
        .error (validationFailed
          s!"Provider type '{providerType}' not supported (use mock|vultr)")
  | _ =>
      if providerType = "mock" then .ok config
      else
        .error (validationFailed s!"Provider type '{providerType}' not supported (use mock)")

/-- The fields of a request that decide what becomes of its configuration, and what its
probe says. -/
structure Activation where
  settings : ConsoleSettings
  kind : ProviderKind
  providerType : String
  validateFirst : Bool
  probe : ConfigDict → Except Exn Unit

/-- What `activate_provider` stores, encrypted and in the open. -/
def activatedConfig (a : Activation) (config : ConfigDict) : Except Exn SplitConfig := do
  let config ← applyRegion render config
  if a.validateFirst then
    let config ← checkConfig render a.settings a.kind a.providerType config
    a.probe config
    pure (splitConfig config)
  else pure (splitConfig config)

end Activate

/-! ## What is shown -/

/-- The configuration of `_provider_response`. -/
def responseConfig (secrets nonSecret : ConfigDict) : ConfigDict :=
  if secrets.isEmpty then maskConfig nonSecret
  else ConfigDict.merge nonSecret (secrets.map fun e => (e.1, .str "***"))

/-- The configurations that are stored in the open and shown once one is activated. -/
structure Visible where
  configNonSecret : ConfigDict
  put : ConfigDict
  get : ConfigDict
  list : ConfigDict

def SplitConfig.visible (c : SplitConfig) : Visible where
  configNonSecret := c.nonSecret
  put := responseConfig c.secrets c.nonSecret
  get := responseConfig [] c.nonSecret
  list := maskConfig c.nonSecret

/-! ## Two configurations -/

/-- The configurations have the same keys, and differ in the values of masked ones only. -/
def SameUnmasked (c c' : ConfigDict) : Prop :=
  List.Forall₂ (fun e e' => e.1 = e'.1 ∧ (masks e.1 = false → e.2 = e'.2)) c c'

/-- Masked keys are split off, and what they map to is not to be seen. -/
def KeepsSecrets (c : ConfigDict) : Prop :=
  (∀ e ∈ c, masks e.1 = true → splitsOff e.1 = true) ∧
  ∀ c', SameUnmasked c c' → ∀ (render : Json → String) (a : Activation) (p p' : SplitConfig),
    activatedConfig render a c = .ok p → activatedConfig render a c' = .ok p' →
    p.visible = p'.visible

/-- Keys with `key` in them end with `_key`, or have something else that marks a secret. -/
def KeysMarked (c : ConfigDict) : Prop :=
  ∀ e ∈ c, within "key" (lower e.1) = true →
    lower e.1 ∈ secretKeys ∨ within "secret" (lower e.1) = true ∨
      "_key".toList.isSuffixOf (lower e.1).toList = true ∨ within "password" (lower e.1) = true

section Unmasked

variable {c c' d d' : ConfigDict} {key : String} {value : Json}

theorem masks_iff {key : String} :
    masks key = true ↔ lower key ∈ secretKeys ∨ within "secret" (lower key) = true ∨
      within "key" (lower key) = true ∨ within "password" (lower key) = true := by
  simp only [masks, Bool.or_eq_true, decide_eq_true_eq, or_assoc]

theorem splitsOff_iff {key : String} :
    splitsOff key = true ↔ lower key ∈ secretKeys ∨ within "secret" (lower key) = true ∨
      "_key".toList.isSuffixOf (lower key).toList = true ∨
      within "password" (lower key) = true := by
  simp only [splitsOff, Bool.or_eq_true, decide_eq_true_eq, or_assoc]

/-- The tests differ on the keys with `key` in them. -/
theorem keysMarked_iff : KeysMarked c ↔ ∀ e ∈ c, masks e.1 = true → splitsOff e.1 = true := by
  refine forall₂_congr fun e _ => ?_
  rw [masks_iff, splitsOff_iff]
  constructor
  · rintro h (hset | hsecret | hkey | hpass)
    · exact .inl hset
    · exact .inr (.inl hsecret)
    · exact h hkey
    · exact .inr (.inr (.inr hpass))
  · exact fun h hkey => h (.inr (.inr (.inl hkey)))

theorem SameUnmasked.lookup (h : SameUnmasked c c') (hkey : masks key = false) :
    c.lookup key = c'.lookup key := by
  induction h with
  | nil => rfl
  | @cons e e' c c' he _ ih =>
      obtain ⟨k, x⟩ := e
      obtain ⟨k', x'⟩ := e'
      obtain ⟨rfl, hval⟩ := he
      rw [List.lookup_cons, List.lookup_cons, ih]
      by_cases hk : key = k
      · subst hk
        rw [show x = x' from hval hkey]
      · rw [beq_false_of_ne hk]

theorem SameUnmasked.get (h : SameUnmasked c c') (hkey : masks key = false) :
    ConfigDict.get c key = ConfigDict.get c' key := by
  rw [ConfigDict.get, ConfigDict.get, h.lookup hkey]

theorem SameUnmasked.has (h : SameUnmasked c c') :
    ConfigDict.has c key = ConfigDict.has c' key := by
  induction h with
  | nil => rfl
  | cons he _ ih =>
      rw [ConfigDict.has, ConfigDict.has, List.any_cons, List.any_cons, he.1]
      exact congrArg _ ih

theorem SameUnmasked.set (h : SameUnmasked c c') :
    SameUnmasked (ConfigDict.set c key value) (ConfigDict.set c' key value) := by
  unfold ConfigDict.set
  rw [h.has]
  split
  · refine List.forall₂_map_left_iff.mpr (List.forall₂_map_right_iff.mpr ?_)
    refine h.imp fun e e' he => ?_
    rw [he.1]
    split
    · exact ⟨rfl, fun _ => rfl⟩
    · exact he
  · exact List.rel_append h (.cons ⟨rfl, fun _ => rfl⟩ .nil)

theorem mem_keys_set {e : String × Json} (h : e ∈ ConfigDict.set c key value) :
    (∃ e' ∈ c, e'.1 = e.1) ∨ e.1 = key := by
  unfold ConfigDict.set at h
  split at h
  · obtain ⟨e', he', rfl⟩ := List.mem_map.mp h
    split
    · exact .inr rfl
    · exact .inl ⟨e', he', rfl⟩
  · rcases List.mem_append.mp h with h | h
    · exact .inl ⟨e, h, rfl⟩
    · exact .inr (congrArg Prod.fst (List.mem_singleton.mp h))

theorem KeysMarked.set (h : KeysMarked c) (hkey : within "key" (lower key) = false) :
    KeysMarked (ConfigDict.set c key value) := by
  intro e he hwithin
  rcases mem_keys_set he with ⟨e', he', heq⟩ | heq
  · rw [← heq] at hwithin ⊢
    exact h e' he' hwithin
  · rw [heq, hkey] at hwithin
    cases hwithin

/-! ## The steps of a request -/

theorem applyRegion_ok {render : Json → String} (h : applyRegion render c = .ok d) :
    (unset render (rawRegion render c) = true ∧ d = c) ∨
      unset render (rawRegion render c) = false ∧ ∃ region,
        normalizeRegion ((rawRegion render c).text render) = .ok region ∧
          d = placeRegion c region := by
  unfold applyRegion at h
  simp only [] at h
  cases hunset : unset render (rawRegion render c) with
  | true =>
      rw [hunset, if_pos rfl] at h
      exact .inl ⟨rfl, (Except.ok.inj h).symm⟩
  | false =>
      rw [hunset, if_neg Bool.false_ne_true] at h
      cases hnorm : normalizeRegion ((rawRegion render c).text render) with
      | error message => rw [hnorm] at h; cases h
      | ok region =>
          rw [hnorm] at h
          exact .inr ⟨rfl, region, rfl, (Except.ok.inj h).symm⟩

theorem setBackend_ok {render : Json → String} {s : ConsoleSettings}
    (h : setBackend render s c = .ok d) :
    d = ConfigDict.set c "mock_backend" (.str (backendOf render s c)) := by
  unfold setBackend at h
  simp only [] at h
  split at h
  · exact (Except.ok.inj h).symm
  · cases h

/-- A step of a request reads and writes unmasked keys only, where it succeeds. -/
structure Alike (f : ConfigDict → Except Exn ConfigDict) : Prop where
  same : ∀ {c c' d d'}, SameUnmasked c c' → f c = .ok d → f c' = .ok d' → SameUnmasked d d'
  marked : ∀ {c d}, KeysMarked c → f c = .ok d → KeysMarked d

theorem SameUnmasked.rawRegion (h : SameUnmasked c c') (render : Json → String) :
    rawRegion render c' = Admin.rawRegion render c := by
  unfold Admin.rawRegion
  rw [h.get (by decide +kernel : masks "default_region" = false),
    h.get (by decide +kernel : masks "region" = false)]

theorem SameUnmasked.placeRegion (h : SameUnmasked c c') (region : String) :
    SameUnmasked (placeRegion c region) (Admin.placeRegion c' region) := by
  have hout : SameUnmasked (ConfigDict.set c "default_region" (.str region))
    (ConfigDict.set c' "default_region" (.str region)) := h.set
  unfold Admin.placeRegion
  simp only [hout.has]
  split
  · exact hout.set
  · exact hout

theorem KeysMarked.placeRegion (h : KeysMarked c) (region : String) :
    KeysMarked (placeRegion c region) := by
  have hout : KeysMarked (ConfigDict.set c "default_region" (.str region)) :=
    h.set (by decide +kernel)
  unfold Admin.placeRegion
  simp only []
  split
  · exact hout.set (by decide +kernel)
  · exact hout

theorem alike_applyRegion (render : Json → String) : Alike (applyRegion render) := by
  constructor
  · intro c c' d d' h hd hd'
    have hraw := h.rawRegion render
    rcases applyRegion_ok hd' with ⟨hunset', rfl⟩ | ⟨hset', region', hnorm', rfl⟩
    · rcases applyRegion_ok hd with ⟨_, rfl⟩ | ⟨hset, _⟩
      · exact h
      · rw [hraw, hset] at hunset'
        cases hunset'
    · rw [hraw] at hset' hnorm'
      rcases applyRegion_ok hd with ⟨hunset, _⟩ | ⟨_, region, hnorm, rfl⟩
      · rw [hset'] at hunset
        cases hunset
      · rw [hnorm] at hnorm'
        cases hnorm'
        exact h.placeRegion _
  · intro c d h hd
    rcases applyRegion_ok hd with ⟨_, rfl⟩ | ⟨_, region, _, rfl⟩
    · exact h
    · exact h.placeRegion region

theorem alike_setBackend (render : Json → String) (s : ConsoleSettings) :
    Alike (setBackend render s) := by
  constructor
  · intro c c' d d' h hd hd'
    have hbackend : backendOf render s c' = backendOf render s c := by
      unfold backendOf
      rw [h.get (by decide +kernel : masks "mock_backend" = false)]
    rw [setBackend_ok hd, setBackend_ok hd', hbackend]
    exact h.set
  · intro c d h hd
    rw [setBackend_ok hd]
    exact h.set (by decide +kernel)

/-- A check leaves the configuration as it is. -/
theorem alike_of_check {f : ConfigDict → Except Exn ConfigDict}
    (h : ∀ c d, f c = .ok d → d = c) : Alike f := by
  constructor
  · intro c c' d d' hsame hd hd'
    rw [h c d hd, h c' d' hd']
    exact hsame
  · intro c d hmarked hd
    rw [h c d hd]
    exact hmarked

theorem eq_of_check {p : Prop} [Decidable p] {e : Exn}
    (h : (if p then .ok c else .error e : Except Exn ConfigDict) = .ok d) : d = c := by
  split at h
  · exact (Except.ok.inj h).symm
  · cases h

theorem alike_checkConfig (render : Json → String) (s : ConsoleSettings) (k : ProviderKind)
    (providerType : String) : Alike (checkConfig render s k providerType) := by
  cases k with
  | event => exact alike_of_check fun c d h => eq_of_check h
  | infrastructure =>
      by_cases hmock : lower providerType = "mock"
      · have heq : checkConfig render s .infrastructure providerType = setBackend render s :=
          funext fun c => if_pos hmock
        rw [heq]
        exact alike_setBackend render s
      · refine alike_of_check fun c d h => ?_
        simp only [checkConfig, if_neg hmock] at h
        split at h
        · exact eq_of_check h
        · cases h
  | _ => exact alike_of_check fun c d h => eq_of_check h

/-- What is activated: two steps of the configuration, and the split. -/
theorem activatedConfig_ok {render : Json → String} {a : Activation} {p : SplitConfig}
    (h : activatedConfig render a c = .ok p) :
    ∃ d, applyRegion render c = .ok d ∧ ∃ d',
      (if a.validateFirst then checkConfig render a.settings a.kind a.providerType d else .ok d)
        = .ok d' ∧ p = splitConfig d' := by
  unfold activatedConfig at h
  cases hregion : applyRegion render c with
  | error e => rw [hregion] at h; cases h
  | ok d =>
      rw [hregion] at h
      refine ⟨d, rfl, ?_⟩
      cases hvalidate : a.validateFirst with
      | false =>
          rw [hvalidate] at h
          exact ⟨d, rfl, (Except.ok.inj h).symm⟩
      | true =>
          simp only [hvalidate, bind, Except.bind, if_true] at h
          cases hcheck : checkConfig render a.settings a.kind a.providerType d with
          | error e => rw [hcheck] at h; cases h
          | ok d' =>
              rw [hcheck] at h
              refine ⟨d', rfl, ?_⟩
              cases hprobe : a.probe d' with
              | error e => simp only [hprobe] at h; cases h
              | ok u =>
                  simp only [hprobe] at h
                  exact (Except.ok.inj h).symm

/-! ## What a reader sees -/

theorem SameUnmasked.split (h : SameUnmasked c c') (hmarked : KeysMarked c) :
    (splitConfig c).nonSecret = (splitConfig c').nonSecret ∧
      (splitConfig c).secrets.map Prod.fst = (splitConfig c').secrets.map Prod.fst := by
  rw [keysMarked_iff] at hmarked
  induction h with
  | nil => exact ⟨rfl, rfl⟩
  | @cons e e' c c' he _ ih =>
      obtain ⟨hpublic, hsecrets⟩ := ih fun x hx => hmarked x (List.mem_cons_of_mem _ hx)
      simp only [splitConfig] at hpublic hsecrets ⊢
      cases hsplit : splitsOff e.1 with
      | true =>
          have hsplit' : splitsOff e'.1 = true := he.1 ▸ hsplit
          simp only [List.filter_cons, hsplit', Bool.not_true, Bool.false_eq_true,
            if_false, if_true, List.map_cons, he.1, hpublic, hsecrets, and_self]
      | false =>
          have hmask : masks e.1 = false := by
            cases hm : masks e.1 with
            | false => rfl
            | true =>
                have := hmarked e List.mem_cons_self hm
                rw [hsplit] at this
                cases this
          have heq : e = e' := Prod.ext he.1 (he.2 hmask)
          subst heq
          simp only [List.filter_cons, hsplit, Bool.not_false, Bool.false_eq_true, if_false,
            if_true, hpublic, hsecrets, and_self]

theorem visible_eq {p p' : SplitConfig} (hpublic : p.nonSecret = p'.nonSecret)
    (hsecrets : p.secrets.map Prod.fst = p'.secrets.map Prod.fst) : p.visible = p'.visible := by
  have hempty : p.secrets.isEmpty = p'.secrets.isEmpty := by
    have hlen := congrArg List.length hsecrets
    rw [List.length_map, List.length_map] at hlen
    rw [Bool.eq_iff_iff, List.isEmpty_iff_length_eq_zero, List.isEmpty_iff_length_eq_zero, hlen]
  have hstars : p.secrets.map (fun e => (e.1, Json.str "***"))
      = p'.secrets.map (fun e => (e.1, Json.str "***")) := by
    have := congrArg (List.map fun k => (k, Json.str "***")) hsecrets
    rwa [List.map_map, List.map_map] at this
  simp only [SplitConfig.visible, responseConfig, hpublic, hempty, hstars]

end Unmasked

/-- A configuration keeps its secrets exactly when its keys are marked. -/
theorem keepsSecrets_iff (c : ConfigDict) : KeepsSecrets c ↔ KeysMarked c := by
  refine ⟨fun h => keysMarked_iff.mpr h.1, fun hmarked => ⟨keysMarked_iff.mp hmarked, ?_⟩⟩
  intro c' hsame render a p p' hp hp'
  obtain ⟨d, hregion, e, hcheck, rfl⟩ := activatedConfig_ok hp
  obtain ⟨d', hregion', e', hcheck', rfl⟩ := activatedConfig_ok hp'
  have hd := (alike_applyRegion render).same hsame hregion hregion'
  have hmarkedd := (alike_applyRegion render).marked hmarked hregion
  have hchecks : Alike fun d =>
      if a.validateFirst then checkConfig render a.settings a.kind a.providerType d else .ok d := by
    cases a.validateFirst with
    | true => exact alike_checkConfig render _ _ _
    | false => exact alike_of_check fun _ _ h => (Except.ok.inj h).symm
  have hsame' := hchecks.same hd hcheck hcheck'
  obtain ⟨hpublic, hsecrets⟩ := hsame'.split (hchecks.marked hmarkedd hcheck)
  exact visible_eq hpublic hsecrets

/-- `apikey` is masked where it is shown alone, and stored in the open. -/
theorem not_keepsSecrets_apikey : ¬ KeepsSecrets [("apikey", .str "s3cret")] := by
  intro h
  have hsplit := h.1 ("apikey", .str "s3cret") List.mem_cons_self (by decide +kernel)
  exact absurd hsplit (by decide +kernel)

end BrokerBridge.Admin
