import BrokerBridge.Admin.Jobs
import Mathlib.Data.List.Sort

/-!
# The rows of a kind

What installing a provider does to the rows of its kind: some of them are
retired, and a new one with the next version comes last. The rows of the other
kinds stay as they are.
-/

namespace BrokerBridge.Admin

open Conc

/-! ## Retiring rows -/

/-- The writes of a bulk update that has found the rows `ids`. -/
def retireWrites (ids : List ProviderConfigId) : List Write :=
  ids.map fun i => .setProvider i (.status .retired)

theorem wp_retireActive {X : Type} {g : (r : Req) → (r.Ans → X) → X} {k : ProviderKind}
    {Q : Unit → List Write → X} {E : Exn → List Write → X} {ws : List Write} :
    Task.wp g (retireActive k) Q E ws =
      g (.retire ws k) (cases (fun ids ws => Q () (ws ++ retireWrites ids)) E ws) := by
  refine congrArg (g (.retire ws k)) (funext fun x => ?_)
  cases x <;> rfl

/-- The row, retired if it is among `ids`. -/
def ProviderConfig.retireIn (ids : List ProviderConfigId) (r : ProviderConfig) : ProviderConfig :=
  if r.id ∈ ids then { r with status := .retired } else r

section RetireIn

variable {ids : List ProviderConfigId} {r : ProviderConfig}

@[simp] theorem ProviderConfig.retireIn_id : (r.retireIn ids).id = r.id := by
  rw [retireIn]
  split <;> rfl

@[simp] theorem ProviderConfig.retireIn_kind : (r.retireIn ids).kind = r.kind := by
  rw [retireIn]
  split <;> rfl

@[simp] theorem ProviderConfig.retireIn_version : (r.retireIn ids).version = r.version := by
  rw [retireIn]
  split <;> rfl

@[simp] theorem ProviderConfig.retireIn_clientId : (r.retireIn ids).clientId = r.clientId := by
  rw [retireIn]
  split <;> rfl

@[simp] theorem ProviderConfig.retireIn_activatedAt :
    (r.retireIn ids).activatedAt = r.activatedAt := by
  rw [retireIn]
  split <;> rfl

theorem ProviderConfig.retireIn_of_mem (h : r.id ∈ ids) : (r.retireIn ids).status = .retired := by
  rw [retireIn, if_pos h]

theorem ProviderConfig.retireIn_of_not_mem (h : r.id ∉ ids) : r.retireIn ids = r := by
  rw [retireIn, if_neg h]

theorem ProviderConfig.retireIn_cons (i : ProviderConfigId) :
    (if r.id = i then { r with status := .retired } else r).retireIn ids = r.retireIn
      (i :: ids) := by
  by_cases hi : r.id = i
  · rw [if_pos hi, retireIn, retireIn, if_pos (List.mem_cons.mpr (.inl hi))]
    split <;> rfl
  · rw [if_neg hi, retireIn, retireIn]
    simp [hi]

end RetireIn

/-- A bulk update never runs into a constraint. -/
theorem write?_retireWrites (now : Instant) (d : Tables) (ids : List ProviderConfigId) :
    ∃ d', d.write? now (retireWrites ids) = some d' ∧
      d'.providers.rows = d.providers.rows.map (·.retireIn ids) ∧
      d'.items = d.items ∧ d'.outbox = d.outbox := by
  induction ids generalizing d with
  | nil =>
      refine ⟨d, rfl, ?_, rfl, rfl⟩
      have hnil : (fun r : ProviderConfig => r.retireIn []) = id :=
        funext fun r => ProviderConfig.retireIn_of_not_mem List.not_mem_nil
      rw [hnil, List.map_id]
  | cons i ids ih =>
      obtain ⟨d', hd', hrows, hitems, houtbox⟩ :=
        ih ((Write.setProvider i (.status .retired)).apply now d)
      refine ⟨d', Tables.write?_cons.mpr ⟨rfl, hd'⟩, ?_, hitems, houtbox⟩
      rw [hrows]
      show (d.providers.rows.map _).map _ = _
      rw [List.map_map]
      exact List.map_congr_left fun r _ => ProviderConfig.retireIn_cons i

/-! ## Installing a row -/

/-- The writes of an installation. -/
def installWrites (ids : List ProviderConfigId) (row : ProviderConfig) (events : List OutboxRow) :
    List Write :=
  retireWrites ids ++ .addProvider row :: events.map .addOutbox

theorem write?_addOutbox_providers {now : Instant} {d d' : Tables} {events : List OutboxRow}
    (h : d.write? now (events.map .addOutbox) = some d') : d'.providers = d.providers := by
  induction events generalizing d with
  | nil =>
      cases h
      rfl
  | cons event events ih => exact (ih (Tables.write?_cons.mp h).2).trans rfl

/-- What an installation leaves in the table. -/
theorem write?_installWrites {now : Instant} {d d' : Tables} {ids : List ProviderConfigId}
    {row : ProviderConfig} {events : List OutboxRow}
    (h : d.write? now (installWrites ids row events) = some d') :
    d'.providers.rows = d.providers.rows.map (·.retireIn ids) ++ [row] := by
  obtain ⟨d₁, hd₁, h⟩ := Tables.write?_append.mp h
  obtain ⟨d₂, hd₂, hrows, _, _⟩ := write?_retireWrites now d ids
  cases hd₁.symm.trans hd₂
  obtain ⟨hc, h⟩ := Tables.write?_cons.mp h
  rw [write?_addOutbox_providers h, ← hrows]
  have hnone : d₁.providers.get? row.id = none := by simpa [Write.conflicts] using hc
  exact Table.rows_insert hnone

/-- An installation with fresh ids goes through. -/
theorem write?_installWrites_some {now : Instant} {d : Tables} {ids : List ProviderConfigId}
    {row : ProviderConfig} {events : List OutboxRow}
    (hrow : ∀ r ∈ d.providers.rows, r.id ≠ row.id)
    (hevents : ∀ e ∈ events, ∀ r ∈ d.outbox.rows, r.id ≠ e.id)
    (hnodup : (events.map (·.id)).Nodup) :
    ∃ d', d.write? now (installWrites ids row events) = some d' := by
  obtain ⟨d₁, hd₁, hrows, _, houtbox⟩ := write?_retireWrites now d ids
  have hc : (Write.addProvider row).conflicts d₁ = false := by
    have hnone : d₁.providers.get? row.id = none := by
      rw [Table.get?_eq_none, hrows, List.map_map]
      intro hmem
      obtain ⟨r, hr, heq⟩ := List.mem_map.mp hmem
      exact hrow r hr (ProviderConfig.retireIn_id.symm.trans heq)
    simp [Write.conflicts, hnone]
  suffices ∀ (events : List OutboxRow) (d₂ : Tables),
      (∀ e ∈ events, ∀ r ∈ d₂.outbox.rows, r.id ≠ e.id) → (events.map (·.id)).Nodup →
      ∃ d', d₂.write? now (events.map .addOutbox) = some d' by
    obtain ⟨d', hd'⟩ := this events ((Write.addProvider row).apply now d₁)
      (fun e he r hr => hevents e he r (houtbox ▸ hr)) hnodup
    exact ⟨d', Tables.write?_append.mpr ⟨d₁, hd₁, Tables.write?_cons.mpr ⟨hc, hd'⟩⟩⟩
  intro events
  induction events with
  | nil => exact fun d₂ _ _ => ⟨d₂, rfl⟩
  | cons event events ih =>
      intro d₂ hfresh hnodup
      obtain ⟨hnot, hnodup⟩ := List.nodup_cons.mp hnodup
      have hnone : d₂.outbox.get? event.id = none := by
        rw [Table.get?_eq_none]
        intro hmem
        obtain ⟨r, hr, heq⟩ := List.mem_map.mp hmem
        exact hfresh event List.mem_cons_self r hr heq
      have hrows' : ((Write.addOutbox event).apply now d₂).outbox.rows =
          d₂.outbox.rows ++ [{ event with createdAt := now }] := Table.rows_insert hnone
      obtain ⟨d', hd'⟩ := ih ((Write.addOutbox event).apply now d₂) (fun e he r hr => by
        rw [hrows'] at hr
        rcases List.mem_append.mp hr with hr | hr
        · exact hfresh e (List.mem_cons_of_mem _ he) r hr
        · rw [List.mem_singleton.mp hr]
          exact fun heq => hnot (List.mem_map.mpr ⟨e, he, heq.symm⟩)) hnodup
      refine ⟨d', Tables.write?_cons.mpr ⟨?_, hd'⟩⟩
      simp [Write.conflicts, hnone]

/-! ## The latest row -/

/-- The latest row has the greatest version, so the next one is greater than all. -/
theorem version_lt_next {d : Tables} {k : ProviderKind} {r : ProviderConfig}
    (hr : r ∈ d.ofKind k) : r.version < nextVersion ((Query.latest k).eval d) := by
  have hmem : r ∈ (d.ofKind k).insertionSort fun a b => b.version ≤ a.version :=
    (List.mem_insertionSort _).mpr hr
  have hsorted : ((d.ofKind k).insertionSort fun a b => b.version ≤ a.version).Pairwise
      fun a b => b.version ≤ a.version := by
    have htotal : Std.Total fun a b : ProviderConfig => b.version ≤ a.version :=
      ⟨fun a b => Nat.le_total _ _⟩
    have htrans : IsTrans ProviderConfig fun a b => b.version ≤ a.version :=
      ⟨fun a b c hab hbc => Nat.le_trans hbc hab⟩
    exact List.pairwise_insertionSort _ _
  show r.version < nextVersion (List.head? _)
  cases hs : (d.ofKind k).insertionSort fun a b => b.version ≤ a.version with
  | nil =>
      rw [hs] at hmem
      cases hmem
  | cons a as =>
      rw [hs] at hmem hsorted
      show r.version < a.version + 1
      rcases List.mem_cons.mp hmem with rfl | hmem
      · omega
      · exact Nat.lt_succ_of_le ((List.pairwise_cons.mp hsorted).1 r hmem)

/-! ## Kinds -/

section Kinds

variable {d d' : Tables} {k : ProviderKind} {ids : List ProviderConfigId} {row : ProviderConfig}

theorem filter_map_retireIn {p : ProviderConfig → Bool} (hp : ∀ r, p (r.retireIn ids) = p r)
    (rows : List ProviderConfig) :
    (rows.map (·.retireIn ids)).filter p = (rows.filter p).map (·.retireIn ids) := by
  rw [List.filter_map]
  congr 1
  exact List.filter_congr fun r _ => hp r

theorem ofKind_installed (h : d'.providers.rows = d.providers.rows.map (·.retireIn ids) ++ [row]) :
    d'.ofKind k = (d.ofKind k).map (·.retireIn ids) ++ if row.kind = k then [row] else [] := by
  rw [Tables.ofKind, h, List.filter_append, filter_map_retireIn (by simp)]
  congr 1
  rw [List.filter_singleton]
  split <;> simp_all

/-- Where no row of the kind is among `ids`, retiring leaves the kind alone. -/
theorem map_retireIn_eq {rows : List ProviderConfig} (h : ∀ r ∈ rows, r.id ∉ ids) :
    rows.map (·.retireIn ids) = rows :=
  (List.map_congr_left fun r hr => ProviderConfig.retireIn_of_not_mem (h r hr)).trans
    (List.map_id rows)

/-- Rows with the same id are the same. -/
theorem Tables.provider_eq {r r' : ProviderConfig} (hr : r ∈ d.providers.rows)
    (hr' : r' ∈ d.providers.rows) (h : r.id = r'.id) : r = r' := by
  have h1 := Table.get?_of_mem hr
  have h2 := Table.get?_of_mem hr'
  rw [show Row.key r = Row.key r' from h, h2] at h1
  exact (Option.some_inj.mp h1).symm

/-- The ids of the active rows of a kind. -/
def Tables.activeIds (d : Tables) (k : ProviderKind) : List ProviderConfigId :=
  ((Query.activeRows k).eval d).map (·.id)

theorem mem_activeIds {i : ProviderConfigId} (h : i ∈ d.activeIds k) :
    ∃ r ∈ d.ofKind k, r.id = i := by
  obtain ⟨r, hr, hid⟩ := List.mem_map.mp h
  exact ⟨r, (List.mem_filter.mp hr).1, hid⟩

/-- The rows of another kind are not touched. -/
theorem ofKind_installed_of_ne {k' : ProviderKind}
    (h : d'.providers.rows = d.providers.rows.map (·.retireIn ids) ++ [row])
    (hids : ∀ i ∈ ids, ∃ r ∈ d.ofKind k, r.id = i) (hrow : row.kind ≠ k') (hk : k' ≠ k) :
    d'.ofKind k' = d.ofKind k' := by
  rw [ofKind_installed h, if_neg hrow, List.append_nil]
  refine map_retireIn_eq fun r hr hmem => ?_
  obtain ⟨r', hr', hid⟩ := hids _ hmem
  obtain ⟨hr'mem, hr'kind⟩ := List.mem_filter.mp hr'
  obtain ⟨hrmem, hrkind⟩ := List.mem_filter.mp hr
  have heq := Tables.provider_eq hr'mem hrmem hid
  rw [heq] at hr'kind
  exact hk ((of_decide_eq_true hrkind).symm.trans (of_decide_eq_true hr'kind))

/-- The rows in force for everyone. -/
def Tables.inForce (d : Tables) (k : ProviderKind) : List ProviderConfig :=
  d.providers.rows.filter (·.activeGlobal k)

theorem inForce_eq_ofKind : d.inForce k = (d.ofKind k).filter (·.activeGlobal k) := by
  rw [Tables.inForce, Tables.ofKind, List.filter_filter]
  refine List.filter_congr fun r _ => ?_
  simp only [ProviderConfig.activeGlobal]
  cases decide (r.kind = k) <;> simp

/-- Where all the active rows are retired, only the new row can be in force. -/
theorem inForce_installed
    (h : d'.providers.rows = d.providers.rows.map (·.retireIn (d.activeIds k)) ++ [row])
    (hrow : row.kind = k) : d'.inForce k = [row].filter (·.activeGlobal k) := by
  rw [inForce_eq_ofKind, ofKind_installed h, if_pos hrow, List.filter_append]
  have hnone : ((d.ofKind k).map (·.retireIn (d.activeIds k))).filter (·.activeGlobal k) = [] := by
    refine List.filter_eq_nil_iff.mpr fun r hr => ?_
    obtain ⟨r, hmem, rfl⟩ := List.mem_map.mp hr
    have hstatus : (r.retireIn (d.activeIds k)).status ≠ .active := by
      by_cases hactive : r.status = .active
      · have hid : r.id ∈ d.activeIds k :=
          List.mem_map.mpr ⟨r, List.mem_filter.mpr ⟨hmem, by simpa using hactive⟩, rfl⟩
        rw [ProviderConfig.retireIn_of_mem hid]
        exact nofun
      · rw [ProviderConfig.retireIn]
        split
        · exact nofun
        · exact hactive
    simp [ProviderConfig.activeGlobal, hstatus]
  rw [hnone, List.nil_append]

/-- The next version keeps the versions increasing. -/
theorem versions_installed
    (h : d'.providers.rows = d.providers.rows.map (·.retireIn ids) ++ [row])
    (hrow : row.kind = k) (hversion : row.version = nextVersion ((Query.latest k).eval d))
    (hd : ((d.ofKind k).map (·.version)).Pairwise (· < ·)) :
    ((d'.ofKind k).map (·.version)).Pairwise (· < ·) := by
  rw [ofKind_installed h, if_pos hrow, List.map_append, List.map_map]
  have hsame : (d.ofKind k).map ((·.version) ∘ (·.retireIn ids)) = (d.ofKind k).map (·.version) :=
    List.map_congr_left fun r _ => ProviderConfig.retireIn_version
  rw [hsame, List.pairwise_append]
  refine ⟨hd, List.pairwise_singleton _ _, fun v hv v' hv' => ?_⟩
  obtain ⟨r, hr, rfl⟩ := List.mem_map.mp hv
  rw [List.mem_singleton.mp hv']
  show r.version < row.version
  rw [hversion]
  exact version_lt_next hr

end Kinds

end BrokerBridge.Admin
