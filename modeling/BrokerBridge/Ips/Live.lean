import BrokerBridge.Ips.Books

/-!
# Assignments and the IPs they point at

`release` ends every active assignment of its IP, and `assign` allocates a released one
again. A rotation releases the old IP and ends one assignment of it, that of its own
broker: another that is active there points at a released IP from then on.
-/

namespace BrokerBridge

open Conc

/-- An active assignment points at an IP that is there and not released. -/
def Ledger.Live (L : Ledger) : Prop :=
  ∀ x a, L.ActiveOn x a → ∃ ip, L.ips x = some ip ∧ ip.status ≠ .released

/-- A rotation off the IP would not stop half-way: the configuration parses, and there are no
orders to wait for or they do not matter. -/
structure Ledger.Passable (s : Settings) (L : Ledger) (x : IpId) (force : Bool) : Prop where
  timeout : L.config.drainTimeoutSeconds ≠ some .bad
  cooldown : L.config.cooldown s ≠ none
  drained : L.inflight x = 0 ∨ force = true ∨ Text.upper (L.config.onTimeout.getD "ABORT") = "FORCE"

/-- No other assignment is active on an IP that the broker would be moved from. -/
def Ledger.Unshared (s : Settings) (L : Ledger) (b : BrokerId) (force : Bool) : Prop :=
  ∀ a, L.ActiveFor b a → L.Passable s a.staticIpId force →
    ∀ a', L.ActiveOn a.staticIpId a' → a' = a

section Steps

variable {L L' : Ledger} {x : IpId} {ip : StaticIp}

/-- What is active was active, and the IPs are still there. -/
theorem Ledger.Live.kept (h : L.Live) (hactive : ∀ x a, L'.ActiveOn x a → L.ActiveOn x a)
    (hips : ∀ x ip, L.ips x = some ip → L'.ips x = some ip) : L'.Live := by
  intro x a ha
  obtain ⟨ip, hip, hst⟩ := h x a (hactive x a ha)
  exact ⟨ip, hips x ip hip, hst⟩

/-- One IP is changed, which keeps its assignments or has none. -/
theorem Ledger.Live.update (h : L.Live) (hactive : ∀ y a, L'.ActiveOn y a → L.ActiveOn y a)
    (hips : L'.ips = Function.update L.ips x (some ip))
    (hip : ip.status = .released → ∀ a, ¬ L'.ActiveOn x a) : L'.Live := by
  intro y a ha
  rw [hips, Function.update_apply]
  split
  · next hy => exact ⟨ip, rfl, fun hst => hip hst a (hy ▸ ha)⟩
  · exact h y a (hactive y a ha)

theorem activeOn_congr (h : L'.assignments = L.assignments) (x : IpId) (a : IpAssignment) :
    L'.ActiveOn x a → L.ActiveOn x a := by
  unfold Ledger.ActiveOn
  rw [h]
  exact id

theorem Ledger.Closing.activeOn {t e : Instant} {S : IpAssignment → Prop}
    (h : L.Closing x t e S L') {y : IpId} {a : IpAssignment} (ha : L'.ActiveOn y a) :
    L.ActiveOn y a ∧ ¬ S a := by
  obtain ⟨hact, hnot⟩ := h.active (b := a.brokerAccountId) ⟨ha.1, rfl, ha.2.2⟩
  exact ⟨⟨hact.1, ha.2.1, ha.2.2⟩, hnot⟩

end Steps

section Calls

variable {s : Settings} {F : Req → Prop} {sc sc' : Scene} {b : BrokerId} {x : IpId}

theorem Allocated.live {region : Region} {ip : StaticIp} (h : Allocated region sc ip sc')
    (hlive : sc.kept.Live) : sc'.kept.Live := by
  have hips : sc'.kept.ips = Function.update sc.kept.ips ip.id (some ip) := by
    rw [h.kept]
    rfl
  refine hlive.update (activeOn_congr (by rw [h.kept]; rfl)) hips fun hst => ?_
  rw [h.new.status] at hst
  cases hst

theorem Assigned.live {ip : StaticIp} {a : IpAssignment} {u : BrokerIpUsageHistory}
    (h : Assigned b x sc ip a u sc') (hlive : sc.kept.Live) : sc'.kept.Live := by
  have hadds := h.adds
  intro y a' ha'
  have hself : sc.kept.ips ip.id = some ip := by rw [sc.kept.ip_id _ _ h.found, h.found]
  -- The IP has been allocated again, if need be; no other has changed.
  have hips : ∀ y ip', sc.kept.ips y = some ip' → ip'.status ≠ .released ∨ y = x →
      ∃ ip'', sc'.kept.ips y = some ip'' ∧ ip''.status ≠ .released := by
    intro y ip' hy hor
    rw [h.kept]
    unfold Ledger.assigned
    split
    · show ∃ ip'', Function.update sc.kept.ips ip.id _ y = some ip'' ∧ _
      rw [Function.update_apply]
      split
      · exact ⟨_, rfl, fun heq => by cases heq⟩
      · next hne =>
          refine ⟨ip', hy, hor.resolve_right fun heq => hne ?_⟩
          rw [heq, sc.kept.ip_id _ _ h.found]
    · next hst =>
        refine ⟨ip', hy, hor.elim id fun heq => ?_⟩
        rw [heq, h.found] at hy
        exact Option.some_inj.mp hy ▸ hst
  rcases hadds.active_cases (c := a'.brokerAccountId) ⟨ha'.1, rfl, ha'.2.2⟩ with
    ⟨rfl, -⟩ | ⟨hact, -⟩
  · have hx : y = x := by rw [← ha'.2.1, h.row]
    exact hips y ip (hx ▸ h.found) (.inr hx)
  · obtain ⟨ip', hip', hst⟩ := hlive y a' ⟨hact.1, ha'.2⟩
    exact hips y ip' hip' (.inl hst)

theorem Attached.live {i : InstanceId} {ip : StaticIp} {inst : Instance}
    (h : Attached x i sc ip inst sc') (hlive : sc.kept.Live) : sc'.kept.Live := by
  refine Ledger.Live.update (x := ip.id) (L := sc.kept) hlive
    (activeOn_congr (by rw [h.kept]; rfl)) (by rw [h.kept]; rfl) fun hst => ?_
  cases hst

theorem Detached.live {ip : StaticIp} (h : Detached x sc ip sc') (hlive : sc.kept.Live) :
    sc'.kept.Live := by
  refine Ledger.Live.update (x := ip.id) (L := sc.kept) hlive
    (activeOn_congr (by rw [h.kept]; rfl)) (by rw [h.kept]; rfl) fun hst => ?_
  cases hst

/-- The IP is released with all its assignments. -/
theorem Released.live {ip : StaticIp} {t : Instant} {n : Int} {L' : Ledger}
    (h : Released s x sc ip t n L' sc') (hlive : sc.kept.Live) : sc'.kept.Live := by
  have hactive : ∀ y a, sc'.kept.ActiveOn y a → sc.kept.ActiveOn y a ∧ ¬ sc.kept.ActiveOn x a := by
    intro y a ha
    refine h.ends.closing.activeOn (activeOn_congr ?_ y a ha)
    rw [h.kept]
    rfl
  have hips : sc'.kept.ips =
      Function.update sc.kept.ips ip.id (some { ip with status := .released }) := by
    rw [h.kept]
    show Function.update L'.ips ip.id _ = _
    rw [h.ends.ips]
  refine hlive.update (fun y a ha => (hactive y a ha).1) hips fun _ a ha => ?_
  obtain ⟨hact, hnot⟩ := hactive _ a ha
  rw [sc.kept.ip_id _ _ h.found] at hact
  exact hnot hact

section Rotation

variable {force : Bool} {r r' : Rotation} {sc₁ sc₂ : Scene}

theorem Rotation.Midway.activeOn {L : Ledger} {readings : List Instant}
    (h : r.Midway s sc.kept readings L) (y : IpId) (a : IpAssignment) (ha : L.ActiveOn y a) :
    sc.kept.ActiveOn y a := by
  cases h.books with
  | same h => exact activeOn_congr h.assignments y a ha
  | draining h =>
      obtain ⟨hrow, hst⟩ := ha
      rw [h.assignments, Function.update_apply] at hrow
      split at hrow
      · rw [← Option.some_inj.mp hrow] at hst
        cases hst.2
      · exact ⟨hrow, hst⟩
  | ended t n hn ht h => exact (h.activeOn ha).1

/-- The new row is one more. -/
theorem Rotation.Midway.extends {L : Ledger} {readings : List Instant}
    (h : r.Midway s sc.kept readings L) (hbegun : Begun b force sc r sc₁) (y : IpId) (ip : StaticIp)
    (hip : sc.kept.ips y = some ip) : L.ips y = some ip := by
  have hne : y ≠ r.newIp.id := by
    rintro rfl
    rw [hbegun.allocated.new.id.ip] at hip
    cases hip
  obtain ⟨i, st, hips⟩ := h.ips
  rw [hips, Function.update_of_ne hne, hip]

theorem Unrotated.live (h : Unrotated F s b force sc sc') (hlive : sc.kept.Live) :
    sc'.kept.Live := by
  cases h with
  | before region h =>
      rcases h with h | ⟨ip, h⟩
      · rw [h.kept]
        exact hlive
      · exact h.live hlive
  | after r sc₁ sc₂ hbegun hstop hclean hread =>
      have hmid := hstop.midway_discarded hbegun hclean
      exact hlive.kept hmid.activeOn (hmid.extends hbegun)

theorem Rotated.passable {drained whitelistOk : Bool} {t : Instant} {n : Int} {L' : Ledger}
    {a : IpAssignment} {u : BrokerIpUsageHistory}
    (h : Rotated F s b force sc r sc₁ r' drained whitelistOk sc₂ t n L' a u sc') :
    sc.kept.Passable s r.oldAssignment.staticIpId force := by
  have hx : r.oldIp.id = r.oldAssignment.staticIpId := sc.kept.ip_id _ _ h.begun.oldIp
  refine ⟨?_, ?_, ?_⟩
  · rw [← (h.moved.drains.books h.begun).config]
    exact h.moved.goesOn.timeout
  · rw [h.cooldown]
    exact Option.some_ne_none n
  · rw [← hx]
    exact h.reason.imp_left And.right

/-- The old IP is released with one assignment, the broker's; it has no other. -/
theorem Rotated.live {drained whitelistOk : Bool} {t : Instant} {n : Int} {L' : Ledger}
    {a : IpAssignment} {u : BrokerIpUsageHistory}
    (h : Rotated F s b force sc r sc₁ r' drained whitelistOk sc₂ t n L' a u sc')
    (hlive : sc.kept.Live) (hone : sc.kept.Unshared s b force) : sc'.kept.Live := by
  have hx : r.oldIp.id = r.oldAssignment.staticIpId := sc.kept.ip_id _ _ h.begun.oldIp
  obtain ⟨-, ha⟩ := h.assignment_new
  have hnewSt : r'.newIp.status ≠ .released := by
    obtain ⟨L, hplaced, -⟩ := h.moved.drains.placed
    obtain ⟨i, st, hip, hstay | ⟨hst, -⟩⟩ := hplaced.row
    · rw [hstay, h.begun.allocated.new.status]
      exact fun heq => by cases heq
    · rw [hip, hst]
      exact fun heq => by cases heq
  intro y a' ha'
  obtain ⟨hrow, hy, hst⟩ := ha'
  rw [h.assignments, Function.update_apply, Function.update_apply] at hrow
  rw [h.ips, Function.update_apply, Function.update_apply]
  split at hrow
  · obtain rfl := Option.some_inj.mp hrow
    obtain rfl : r'.newIp.id = y := by rw [← hy, ha]
    rw [if_neg h.apart, if_pos rfl]
    exact ⟨r'.newIp, rfl, hnewSt⟩
  · split at hrow
    · rw [← Option.some_inj.mp hrow] at hst
      cases hst
    · next hne =>
        have hact : sc.kept.ActiveOn y a' := ⟨hrow, hy, hst⟩
        obtain ⟨ip, hip, hlive'⟩ := hlive y a' hact
        -- It would be the broker's own if it were active on the old IP.
        have hold : y ≠ r.oldIp.id := by
          intro heq
          rw [heq, hx] at hact
          exact hne (congrArg IpAssignment.id (hone _ h.begun.active h.passable a' hact))
        have hnew : y ≠ r'.newIp.id := by
          intro heq
          rw [heq, h.newIp_id, h.begun.allocated.new.id.ip] at hip
          cases hip
        rw [if_neg hold, if_neg hnew]
        exact ⟨ip, hip, hlive'⟩

end Rotation

/-! ## Every call -/

/-- A rotation that may go through moves the only broker whose assignment of the IP is active. -/
def Call.Unshared (s : Settings) (L : Ledger) : Call → Prop
  | .rotate b force => L.Unshared s b force
  | _ => True

theorem Happened.live {c : Call} (h : Happened s F sc sc' c) (hlive : sc.kept.Live)
    (hone : c.Unshared s sc.kept) : sc'.kept.Live := by
  cases h with
  | same hkept =>
      rw [hkept]
      exact hlive
  | allocated h => exact h.live hlive
  | assigned h => exact h.live hlive
  | attached h => exact h.live hlive
  | detached h => exact h.live hlive
  | released h => exact h.live hlive
  | rotated h => exact h.live hlive hone
  | unrotated h => exact h.live hlive

end Calls

/-! ## Runs -/

/-- Rotations move a broker off an IP that no other assignment needs. -/
def Deed.Unshared (s : Settings) (w : World) : Deed → Prop
  | .call c _ => c.Unshared s w.db.ledger
  | .configure _ => True

theorem live_outcome {s : Settings} {F : Req → Prop} {c : Call} {env : Nat → Nat × Env} {w : World}
    (hw : w.db.ledger.Live) (hc : c.onIps = true) (henv : c.Meets s env w F)
    (hone : c.Unshared s w.db.ledger) : (c.outcome s env w).2.db.ledger.Live := by
  obtain ⟨sc', hleft, hends⟩ := Call.ends hc henv
  rw [hleft.kept]
  exact hends.happened.live hw hone

theorem live_worldAfter {s : Settings} {F : World → Req → Prop} {w : World} {ds : List Deed}
    (hw : w.db.ledger.Live) (h : Throughout s (Deed.OnIps s F) w ds)
    (hone : Throughout s (Deed.Unshared s) w ds) : (worldAfter s w ds).db.ledger.Live := by
  induction ds generalizing w with
  | nil => exact hw
  | cons d ds ih =>
      cases d with
      | configure config => exact ih (w := w.configure config) hw h.2 hone.2
      | call c env => exact ih (live_outcome hw h.1.1 h.1.2 hone.1) h.2 hone.2

/-- After any calls, and at any point of the next; whatever fails. -/
theorem live_of_run (s : Settings) {w : World} (hw : w.db.ledger.Live) (ds : List Deed) (c : Call)
    (env : Nat → Nat × Env)
    (h : Throughout s (Deed.OnIps s fun _ _ => True) w (ds ++ [.call c env]))
    (hone : Throughout s (Deed.Unshared s) w (ds ++ [.call c env])) (n : Nat) :
    (c.partway s env (worldAfter s w ds) n).db.ledger.Live := by
  obtain ⟨hds, hc, henv⟩ := throughout_append.mp h
  obtain ⟨honeds, honec⟩ := throughout_append.mp hone
  obtain ⟨env', henv', hdb⟩ := exists_halted (fun _ => trivial) henv n
  have hend := live_outcome (live_worldAfter hw hds honeds) hc henv' honec
  unfold Call.partway
  rw [← hdb]
  exact hend

theorem live_of_rows {d : Db}
    (h : ∀ a ∈ d.assignments.rows, ∃ ip ∈ d.ips.rows, ip.id = a.staticIpId ∧
      ip.status ≠ .released) :
    d.ledger.Live := by
  rintro x a ⟨hrow, rfl, -⟩
  obtain ⟨ip, hip, hid, hst⟩ := h a (Table.get?_eq_some.mp hrow).1
  exact ⟨ip, Table.get?_eq_some.mpr ⟨hip, hid⟩, hst⟩

/-- The broker alone has the IP, and is moved. -/
theorem live_rotated_attachedOnce :
    ((Call.rotate 2 false).partway {} calm (worldAfter {} attachedOnce []) 40).db.ledger.Live := by
  have hrows : ∀ a ∈ attachedOnce.db.assignments.rows, ∀ a' ∈ attachedOnce.db.assignments.rows,
      a' = a := by decide
  refine live_of_run {} (live_of_rows (by decide)) [] (.rotate 2 false) calm
    ⟨⟨rfl, meets_calm⟩, trivial⟩ ⟨?_, trivial⟩ 40
  exact fun a ha _ a' ha' => hrows a (Table.get?_eq_some.mp ha.1).1 a'
    (Table.get?_eq_some.mp ha'.1).1

end BrokerBridge
