import BrokerBridge.Ips.Live
import BrokerBridge.Ips.Paired

/-!
# What the console offers on an IP

Nothing in `assign` asks whether the IP has an active assignment already. The console does:
beside each IP it keeps the active assignment it was told of, and an IP that has one is
offered for release only. As long as every `assign` is one that the console offers, no IP
ever has two brokers, and none is lost to a rotation.
-/

namespace BrokerBridge

open Conc

/-! ## The console -/

inductive IpAction where
  | assign | attach | detach | release | reuse | rotate
  deriving DecidableEq

structure ActionSpec where
  action : IpAction
  label : String
  enabled : Bool := false
  reason : String := ""
  title : String
  brokerId : Option BrokerId := none

def IpStatus.toString : IpStatus → String
  | .allocated => "allocated"
  | .attached => "attached"
  | .detached => "detached"
  | .released => "released"
  | .quarantined => "quarantined"

section Specs

variable (ip : StaticIp) (assignment : Option IpAssignment)

def StaticIp.freePool : Bool := ip.status = .allocated || ip.status = .detached

def assignSpec : ActionSpec :=
  let spec : ActionSpec :=
    { action := .assign
      label := if assignment.isSome then "Reassign" else "Assign"
      title := if assignment.isSome then "Reassign to another broker" else "Assign to a broker" }
  if ip.status = .quarantined then { spec with reason := "IP is quarantined" }
  else if ip.status = .attached then { spec with reason := "Detach before assigning to a broker" }
  else if ip.status = .released then
    { spec with reason := "IP released — use Reuse-test to re-bind (BR-G04 may apply)" }
  else if assignment.isSome then
    { spec with reason := "Release this IP before assigning to another broker" }
  else if ip.freePool then { spec with enabled := true }
  else { spec with reason := "Cannot assign from status " ++ ip.status.toString }

def attachSpec : ActionSpec :=
  let spec : ActionSpec :=
    { action := .attach, label := "Attach", title := "Attach to an instance" }
  if ip.status = .quarantined then { spec with reason := "IP is quarantined" }
  else if ip.status = .attached then { spec with reason := "Already attached to an instance" }
  else if ip.status = .released then { spec with reason := "Released IPs cannot be attached" }
  else if assignment.isNone then { spec with reason := "Assign to a broker before attaching" }
  else if ip.freePool then { spec with enabled := true }
  else { spec with reason := "Cannot attach from status " ++ ip.status.toString }

def detachSpec : ActionSpec where
  action := .detach
  label := "Detach"
  enabled := ip.status = .attached
  reason := if ip.status = .attached then "" else "Not attached to an instance"
  title := "Detach from instance"

def releaseSpec : ActionSpec :=
  let spec : ActionSpec := { action := .release, label := "Release", title := "Release this IP" }
  if ip.status = .attached then { spec with reason := "Detach before release" }
  else if ip.status = .released then { spec with reason := "Already released" }
  else if ip.status = .quarantined then { spec with reason := "IP is quarantined" }
  else if ip.freePool then { spec with enabled := true }
  else { spec with reason := "Cannot release from status " ++ ip.status.toString }

def reuseSpec : ActionSpec where
  action := .reuse
  label := "Reuse-test"
  enabled := ip.status = .released
  reason :=
    if ip.status = .released then
      "Re-assign same broker after release (expect BR-G04 during cooldown)"
    else "Available after release for BR-G04 cooldown testing"
  title := "Re-assign after release (BR-G04 cooldown test)"

def rotateSpec : ActionSpec where
  action := .rotate
  label := "Rotate"
  enabled := assignment.isSome
  reason := if assignment.isSome then "" else "Assign to a broker before rotating"
  title := "Zero-downtime IP rotate for assigned broker"
  brokerId := assignment.map (·.brokerAccountId)

def ipActionSpecs : List ActionSpec :=
  [assignSpec ip assignment, attachSpec ip assignment, detachSpec ip, releaseSpec ip, reuseSpec ip,
    rotateSpec assignment]

end Specs

/-- `list_assignments` joins each assignment to its IP and its broker. -/
def Db.listAssignments (d : Db) : List IpAssignment :=
  d.assignments.rows.filter fun a =>
    (d.ips.get? a.staticIpId).isSome && (d.brokers.get? a.brokerAccountId).isSome

def keepActive (byIp : IpId → Option IpAssignment) (a : IpAssignment) :
    IpId → Option IpAssignment :=
  if a.status = .active then Function.update byIp a.staticIpId (some a) else byIp

/-- `loadIps` keeps the active assignments by their IPs; of two, the later one. -/
def cachedAssignByIp (assignments : List IpAssignment) : IpId → Option IpAssignment :=
  assignments.foldl keepActive fun _ => none

/-- The console, which has loaded the IPs, offers the action on this one. The assignments come
in no particular order. -/
def Db.Offers (d : Db) (x : IpId) (action : IpAction) : Prop :=
  ∃ ip assignments, d.ips.get? x = some ip ∧ assignments.Perm d.listAssignments ∧
    ∃ spec ∈ ipActionSpecs ip (cachedAssignByIp assignments x),
      spec.action = action ∧ spec.enabled = true

/-- An IP without an entry has no active assignment in the list. -/
theorem not_active_of_keepActive {assignments : List IpAssignment} {x : IpId}
    {byIp : IpId → Option IpAssignment} (h : assignments.foldl keepActive byIp x = none) :
    byIp x = none ∧ ∀ a ∈ assignments, a.staticIpId = x → a.status ≠ .active := by
  induction assignments generalizing byIp with
  | nil => exact ⟨h, List.forall_mem_nil _⟩
  | cons a assignments ih =>
      obtain ⟨hhead, htail⟩ := ih h
      unfold keepActive at hhead
      split at hhead
      · next hst =>
          rw [Function.update_apply] at hhead
          split at hhead
          · cases hhead
          · next hne =>
              exact ⟨hhead, List.forall_mem_cons.mpr ⟨fun hx => absurd hx.symm hne, htail⟩⟩
      · next hst => exact ⟨hhead, List.forall_mem_cons.mpr ⟨fun _ => hst, htail⟩⟩

/-- An IP is assigned when it has no entry, or when it is released. -/
theorem unassigned_or_released {ip : StaticIp} {assignment : Option IpAssignment}
    {spec : ActionSpec} (hspec : spec ∈ ipActionSpecs ip assignment)
    (haction : spec.action = .assign ∨ spec.action = .reuse) (henabled : spec.enabled = true) :
    assignment = none ∨ ip.status = .released := by
  obtain ⟨id, ext, address, region, st, inst⟩ := ip
  cases assignment with
  | none => exact .inl rfl
  | some a =>
      refine .inr ?_
      simp only [ipActionSpecs, List.mem_cons, List.not_mem_nil, or_false] at hspec
      rcases hspec with rfl | rfl | rfl | rfl | rfl | rfl
      · cases st <;> first | rfl | cases henabled
      · cases st <;> rcases haction with haction | haction <;> cases haction
      · rcases haction with haction | haction <;> cases haction
      · cases st <;> rcases haction with haction | haction <;> cases haction
      · exact of_decide_eq_true henabled
      · rcases haction with haction | haction <;> cases haction

/-! ## Orderly ledgers -/

/-- No IP has two active assignments; each points at an IP that is not released, and has a
broker. An attached IP names its instance. -/
structure Ledger.Orderly (L : Ledger) : Prop where
  sole : ∀ x a a', L.ActiveOn x a → L.ActiveOn x a' → a = a'
  live : L.Live
  homed : ∀ x a, L.ActiveOn x a → L.brokers a.brokerAccountId ≠ none
  seated : L.Seated

/-- What is active afterwards was active, but for one assignment of an IP that had none. -/
def Ledger.Engages (L L' : Ledger) : Prop :=
  (∀ x a, L'.ActiveOn x a → L.ActiveOn x a) ∨
    ∃ a₀, (∀ a, ¬ L.ActiveOn a₀.staticIpId a) ∧ L.brokers a₀.brokerAccountId ≠ none ∧
      ∀ x a, L'.ActiveOn x a → L.ActiveOn x a ∨ a = a₀

theorem Ledger.Orderly.unshared {L : Ledger} (h : L.Orderly) (s : Settings) (b : BrokerId)
    (force : Bool) : L.Unshared s b force :=
  fun a ha _ a' ha' => h.sole _ a' a ha' ⟨ha.1, rfl, ha.2.2⟩

theorem Ledger.Engages.orderly {L L' : Ledger} (h : L.Engages L') (hL : L.Orderly)
    (hlive : L'.Live) (hseated : L'.Seated) (hbrokers : L'.brokers = L.brokers) : L'.Orderly := by
  rcases h with h | ⟨a₀, hnone, hbroker, h⟩
  · exact ⟨fun x a a' ha ha' => hL.sole x a a' (h x a ha) (h x a' ha'), hlive,
      fun x a ha => hbrokers ▸ hL.homed x a (h x a ha), hseated⟩
  · -- The IP of the new one has no other.
    have hnew : ∀ x a, L'.ActiveOn x a → L.ActiveOn x a ∧ x ≠ a₀.staticIpId ∨
        a = a₀ ∧ x = a₀.staticIpId := by
      intro x a ha
      rcases h x a ha with hold | rfl
      · exact .inl ⟨hold, fun heq => hnone a (heq ▸ hold)⟩
      · exact .inr ⟨rfl, ha.2.1.symm⟩
    refine ⟨fun x a a' ha ha' => ?_, hlive, fun x a ha => ?_, hseated⟩
    · rcases hnew x a ha with ⟨hold, hne⟩ | ⟨rfl, hx⟩
      · rcases hnew x a' ha' with ⟨hold', -⟩ | ⟨-, hx⟩
        · exact hL.sole x a a' hold hold'
        · exact absurd hx hne
      · rcases hnew x a' ha' with ⟨-, hne⟩ | ⟨rfl, -⟩
        · exact absurd hx hne
        · rfl
    · rw [hbrokers]
      rcases hnew x a ha with ⟨hold, -⟩ | ⟨rfl, -⟩
      · exact hL.homed x a hold
      · exact hbroker

/-- Where an `assign` is offered the IP has no active assignment. -/
theorem not_active_of_offers {d : Db} (hd : d.ledger.Orderly) {x : IpId}
    (h : d.Offers x .assign ∨ d.Offers x .reuse) (a : IpAssignment) : ¬ d.ledger.ActiveOn x a := by
  intro ha
  obtain ⟨ip, assignments, hip, hperm, spec, hspec, haction, henabled⟩ :
      ∃ ip assignments, d.ips.get? x = some ip ∧ assignments.Perm d.listAssignments ∧
        ∃ spec ∈ ipActionSpecs ip (cachedAssignByIp assignments x),
          (spec.action = .assign ∨ spec.action = .reuse) ∧ spec.enabled = true := by
    rcases h with ⟨ip, as, hip, hperm, spec, hspec, haction, h⟩ |
      ⟨ip, as, hip, hperm, spec, hspec, haction, h⟩
    · exact ⟨ip, as, hip, hperm, spec, hspec, .inl haction, h⟩
    · exact ⟨ip, as, hip, hperm, spec, hspec, .inr haction, h⟩
  rcases unassigned_or_released hspec haction henabled with hentry | hst
  · -- The join leaves out no active assignment.
    have hmem : a ∈ d.listAssignments := by
      refine List.mem_filter.mpr ⟨(Table.get?_eq_some.mp ha.1).1, ?_⟩
      rw [Bool.and_eq_true, ha.2.1]
      exact ⟨Option.isSome_of_eq_some hip, Option.isSome_iff_ne_none.mpr (hd.homed x a ha)⟩
    exact (not_active_of_keepActive hentry).2 a (hperm.mem_iff.mpr hmem) ha.2.1 ha.2.2
  · obtain ⟨ip', hip', hst'⟩ := hd.live x a ha
    exact hst' (Option.some_inj.mp (hip'.symm.trans hip) ▸ hst)

/-! ## Calls -/

section Calls

variable {s : Settings} {F : Req → Prop} {sc sc' : Scene} {b : BrokerId} {x : IpId}

theorem Ledger.Engages.of_active {L L' : Ledger} (h : ∀ x a, L'.ActiveOn x a → L.ActiveOn x a) :
    L.Engages L' := .inl h

theorem Allocated.engages {region : Region} {ip : StaticIp} (h : Allocated region sc ip sc') :
    sc.kept.Engages sc'.kept :=
  .of_active (activeOn_congr (by rw [h.kept]; rfl))

theorem Assigned.engages {ip : StaticIp} {a : IpAssignment} {u : BrokerIpUsageHistory}
    (h : Assigned b x sc ip a u sc') (hnone : ∀ a, ¬ sc.kept.ActiveOn x a) :
    sc.kept.Engages sc'.kept := by
  have hrow : a.staticIpId = x ∧ a.brokerAccountId = b := by
    rw [h.row]
    exact ⟨rfl, rfl⟩
  refine .inr ⟨a, hrow.1 ▸ hnone, hrow.2 ▸ h.broker, fun y a' ha' => ?_⟩
  rcases h.adds.active_cases (c := a'.brokerAccountId) ⟨ha'.1, rfl, ha'.2.2⟩ with
    ⟨heq, -⟩ | ⟨hact, -⟩
  · exact .inr heq
  · exact .inl ⟨hact.1, ha'.2⟩

theorem Released.engages {ip : StaticIp} {t : Instant} {n : Int} {L' : Ledger}
    (h : Released s x sc ip t n L' sc') : sc.kept.Engages sc'.kept := by
  refine .of_active fun y a ha => (h.ends.closing.activeOn (activeOn_congr ?_ y a ha)).1
  rw [h.kept]
  rfl

theorem Unrotated.engages {force : Bool} (h : Unrotated F s b force sc sc') :
    sc.kept.Engages sc'.kept := by
  cases h with
  | before region h =>
      rcases h with h | ⟨ip, h⟩
      · exact .of_active (activeOn_congr (by rw [h.kept]))
      · exact h.engages
  | after r sc₁ sc₂ hbegun hstop hclean hread =>
      exact .of_active (hstop.midway_discarded hbegun hclean).activeOn

/-- The new IP had no row before, let alone an assignment. -/
theorem Rotated.engages {force drained whitelistOk : Bool} {r r' : Rotation} {sc₁ sc₂ : Scene}
    {t : Instant} {n : Int} {L' : Ledger} {a : IpAssignment} {u : BrokerIpUsageHistory}
    (h : Rotated F s b force sc r sc₁ r' drained whitelistOk sc₂ t n L' a u sc')
    (hL : sc.kept.Orderly) : sc.kept.Engages sc'.kept := by
  obtain ⟨-, ha⟩ := h.assignment_new
  have hrow : a.staticIpId = r'.newIp.id ∧ a.brokerAccountId = b := by
    rw [ha]
    exact ⟨rfl, rfl⟩
  have hfresh : ∀ a', ¬ sc.kept.ActiveOn a.staticIpId a' := by
    intro a' ha'
    obtain ⟨ip, hip, -⟩ := hL.live _ a' ha'
    rw [hrow.1, h.newIp_id, h.begun.allocated.new.id.ip] at hip
    cases hip
  have hold := h.begun.active
  refine .inr ⟨a, hfresh, ?_, fun y a' ⟨hrow', hy, hst⟩ => ?_⟩
  · rw [hrow.2, ← hold.2.1]
    exact hL.homed _ _ ⟨hold.1, rfl, hold.2.2⟩
  · rw [h.assignments, Function.update_apply, Function.update_apply] at hrow'
    split at hrow'
    · exact .inr (Option.some_inj.mp hrow').symm
    · split at hrow'
      · rw [← Option.some_inj.mp hrow'] at hst
        cases hst
      · exact .inl ⟨hrow', hy, hst⟩

/-- If the call is an `assign`, its IP has no active assignment. -/
def Call.Vacant (L : Ledger) : Call → Prop
  | .assign x _ _ => ∀ a, ¬ L.ActiveOn x a
  | _ => True

theorem Happened.engages {c : Call} (h : Happened s F sc sc' c) (hL : sc.kept.Orderly)
    (hc : c.Vacant sc.kept) : sc.kept.Engages sc'.kept := by
  cases h with
  | same hkept => exact .of_active (activeOn_congr (by rw [hkept]))
  | allocated h => exact h.engages
  | assigned h => exact h.engages hc
  | attached h => exact .of_active (activeOn_congr (by rw [h.kept]; rfl))
  | detached h => exact .of_active (activeOn_congr (by rw [h.kept]; rfl))
  | released h => exact h.engages
  | rotated h => exact h.engages hL
  | unrotated h => exact h.engages

end Calls

/-! ## Runs -/

def World.SameBrokers (w w' : World) : Prop := w'.db.brokers = w.db.brokers

theorem World.SameBrokers.refl (w : World) : w.SameBrokers w := rfl

theorem World.SameBrokers.trans {u v w : World} (h : u.SameBrokers v) (h' : v.SameBrokers w) :
    u.SameBrokers w := Eq.trans h' h

/-- No commit writes the brokers' table. -/
theorem sameBrokers_passing (r : Req) (x : Nat × Env) (w : World) :
    w.SameBrokers (passing r x w).2 := by
  unfold World.SameBrokers
  by_cases hr : ∃ ws, r = .commit ws
  · obtain ⟨ws, rfl⟩ := hr
    rcases commit_cases ws x.2 { w with clock := w.clock + x.1 } with ⟨f, hf⟩ | ⟨d, hd, hok⟩
    · rw [passing, hf]
    · rw [passing, hok]
      refine Db.write?_eq (f := Db.brokers) (fun v _ d => ?_) hd
      cases v with
      | setAttempt o i f =>
          simp only [Write.apply]
          split <;> rfl
      | _ => rfl
  · rw [passing, handle_db fun ws h => hr ⟨ws, h⟩]

theorem sameBrokers_outcome (s : Settings) (c : Call) (env : Nat → Nat × Env) (w : World) :
    w.SameBrokers (c.outcome s env w).2 :=
  Prog.solo_along World.SameBrokers.refl World.SameBrokers.trans sameBrokers_passing
    (programOf s c) env w

/-- An `assign` is one that the console offers, on what it has loaded last. -/
def Deed.Offered (w : World) : Deed → Prop
  | .call (.assign x _ _) _ => w.db.Offers x .assign ∨ w.db.Offers x .reuse
  | _ => True

theorem orderly_outcome {s : Settings} {F : Req → Prop} {c : Call} {env : Nat → Nat × Env}
    {w : World} (hw : w.db.ledger.Orderly) (hc : c.onIps = true) (henv : c.Meets s env w F)
    (hoffer : Deed.Offered w (.call c env)) : (c.outcome s env w).2.db.ledger.Orderly := by
  obtain ⟨sc', hleft, hends⟩ := Call.ends hc henv
  have hvacant : c.Vacant w.db.ledger := by
    cases c with
    | assign x b client => exact not_active_of_offers hw hoffer
    | _ => trivial
  have hunshared : c.Unshared s w.db.ledger := by
    cases c with
    | rotate b force => exact hw.unshared s b force
    | _ => trivial
  have hbrokers : (c.outcome s env w).2.db.ledger.brokers = w.db.ledger.brokers :=
    congrArg Table.get? (sameBrokers_outcome s c env w)
  rw [hleft.kept] at hbrokers ⊢
  have hlive := hends.happened.live hw.live hunshared
  have hseated := hends.happened.seated hw.seated
  exact (hends.happened.engages hw hvacant).orderly hw hlive hseated hbrokers

theorem orderly_worldAfter {s : Settings} {F : World → Req → Prop} {w : World} {ds : List Deed}
    (hw : w.db.ledger.Orderly) (h : Throughout s (Deed.OnIps s F) w ds)
    (hoffer : Throughout s Deed.Offered w ds) : (worldAfter s w ds).db.ledger.Orderly := by
  induction ds generalizing w with
  | nil => exact hw
  | cons d ds ih =>
      cases d with
      | configure config =>
          exact ih (w := w.configure config) ⟨hw.sole, hw.live, hw.homed, hw.seated⟩ h.2 hoffer.2
      | call c env => exact ih (orderly_outcome hw h.1.1 h.1.2 hoffer.1) h.2 hoffer.2

/-- After any calls, and at any point of the next; whatever fails. -/
theorem orderly_of_console (s : Settings) {w : World} (hw : w.db.ledger.Orderly) (ds : List Deed)
    (c : Call) (env : Nat → Nat × Env)
    (h : Throughout s (Deed.OnIps s fun _ _ => True) w (ds ++ [.call c env]))
    (hoffer : Throughout s Deed.Offered w (ds ++ [.call c env])) (n : Nat) :
    (c.partway s env (worldAfter s w ds) n).db.ledger.Orderly := by
  obtain ⟨hds, hc, henv⟩ := throughout_append.mp h
  obtain ⟨hofferds, hofferc⟩ := throughout_append.mp hoffer
  obtain ⟨env', henv', hdb⟩ := exists_halted (fun _ => trivial) henv n
  have hend := orderly_outcome (orderly_worldAfter hw hds hofferds) hc henv'
    (by cases c <;> exact hofferc)
  unfold Call.partway
  rw [← hdb]
  exact hend

/-- One broker has its IP; another has none, and there is one to spare. -/
def spareIp : World where
  db :=
    { clients := .of [{ id := 1 }]
      brokers := .of [{ id := 2, clientId := 1 }, { id := 5, clientId := 1 }]
      ips := .of
        [{ id := 3, externalId := 4, ipAddress := "192.0.2.1", region := "ewr" },
         { id := 6, externalId := 7, ipAddress := "192.0.2.2", region := "ewr" }]
      assignments := .of [{ id := 8, clientId := 1, brokerAccountId := 2, staticIpId := 3 }]
      history := .of [{ id := 9, brokerAccountId := 2, staticIpId := 3, usedAt := 0 }] }

theorem orderly_of_rows {d : Db}
    (hsole : ∀ a ∈ d.assignments.rows, ∀ a' ∈ d.assignments.rows,
      a.staticIpId = a'.staticIpId → a = a')
    (hlive : ∀ a ∈ d.assignments.rows, ∃ ip ∈ d.ips.rows, ip.id = a.staticIpId ∧
      ip.status ≠ .released)
    (hhomed : ∀ a ∈ d.assignments.rows, d.brokers.get? a.brokerAccountId ≠ none)
    (hseated : ∀ ip ∈ d.ips.rows, ip.status = .attached → ip.instanceId.isSome = true) :
    d.ledger.Orderly where
  sole _ a a' h h' := hsole a (Table.get?_eq_some.mp h.1).1 a' (Table.get?_eq_some.mp h'.1).1
    (h.2.1.trans h'.2.1.symm)
  live := live_of_rows hlive
  homed _ a h := hhomed a (Table.get?_eq_some.mp h.1).1
  seated _ ip h := hseated ip (Table.get?_eq_some.mp h).1

/-- The console offers the spare IP, and the broker is moved off it later. -/
theorem orderly_spareIp :
    ((Call.rotate 5 false).partway {} calm
      (worldAfter {} spareIp [.call (.assign 6 5 none) calm]) 40).db.ledger.Orderly := by
  have hw : spareIp.db.ledger.Orderly := orderly_of_rows (by decide) (by decide)
    (by decide) (by decide)
  refine orderly_of_console {} hw [.call (.assign 6 5 none) calm] (.rotate 5 false) calm
    ⟨⟨rfl, meets_calm⟩, ⟨rfl, meets_calm⟩, trivial⟩ ⟨.inl ?_, trivial, trivial⟩ 40
  exact ⟨_, _, rfl, List.Perm.refl _, _, List.mem_cons_self, rfl, rfl⟩

end BrokerBridge
