import BrokerBridge.Ips.Rotating

/-!
# A rotation that returns

What a rotation that returns has made of the tables, read off its phases: two rows of
the assignments, two of the IPs, the open usage rows of the broker and the old IP, one
new usage row, two events. Then the call: what `rotate` leaves when it returns while
the provider answers.

Its query for the active assignment takes the first of them. A broker that has two
keeps the other.
-/

namespace BrokerBridge

open Conc

section Tables

variable {F : Req → Prop} {s : Settings} {b : BrokerId} {force drained whitelistOk : Bool}
  {sc sc₁ sc₂ sc' : Scene} {r r' : Rotation} {t : Instant} {n : Int} {L' : Ledger}
  {a : IpAssignment} {u : BrokerIpUsageHistory}

/-- The attachment of the new IP changes its row and nothing else. -/
theorem Placed.row {L L' : Ledger} {C C' : Cloud} {ip : StaticIp} (h : Placed r L C ip L' C') :
    ∃ i st, ip = { r.newIp with instanceId := i, status := st } ∧
      (ip = r.newIp ∨ st = .attached ∧ i.isSome) := by
  cases h with
  | apart => exact ⟨r.newIp.instanceId, r.newIp.status, rfl, .inl rfl⟩
  | attached => exact ⟨_, .attached, rfl, .inr ⟨rfl, rfl⟩⟩

theorem Placed.ledger {L L' : Ledger} {C C' : Cloud} {ip : StaticIp} (h : Placed r L C ip L' C')
    (hnew : L.ips r.newIp.id = some r.newIp) : L' = L.putIp ip := by
  cases h with
  | apart => exact (Ledger.putIp_self hnew).symm
  | attached => rfl

theorem Drains.old (h : Drains r sc r' sc') :
    r'.broker = r.broker ∧ r'.force = r.force ∧ r'.oldIp = r.oldIp ∧
      r'.oldAssignment = r.oldAssignment.drainingNow := by
  rw [h.same]
  exact ⟨rfl, rfl, rfl, rfl⟩

/-- The ledger while the assignment drains. -/
theorem Drains.ledger (h : Drains r sc r' sc') (hin : r.In sc.kept) :
    sc'.kept = (sc.kept.putIp r'.newIp).putAssignment r.oldAssignment.drainingNow := by
  obtain ⟨L, hplaced, hkept⟩ := h.placed
  rw [hkept, hplaced.ledger hin.newIp]

namespace Rotated

variable (h : Rotated F s b force sc r sc₁ r' drained whitelistOk sc₂ t n L' a u sc')
include h

theorem draining : sc₂.kept = ((sc.kept.allocated r.newIp).putIp r'.newIp).putAssignment
    r.oldAssignment.drainingNow := by
  rw [h.moved.drains.ledger h.begun.in', h.begun.allocated.kept]

theorem newIp_id : r'.newIp.id = r.newIp.id := by
  obtain ⟨L, hplaced, -⟩ := h.moved.drains.placed
  exact (hplaced.in' h.begun.in').1

theorem apart : r'.newIp.id ≠ r.oldIp.id := by
  rw [h.newIp_id]
  exact h.begun.in'.apart

/-- The old assignment ended, and the new one. -/
theorem assignments : sc'.kept.assignments = Function.update
    (Function.update sc.kept.assignments r.oldAssignment.id (some (r.oldAssignment.endedAt t)))
    a.id (some a) := by
  have hold := h.moved.drains.old.2.2.2
  rw [h.moved.cut.kept]
  show Function.update L'.assignments a.id (some a) = _
  rw [h.moved.cut.ends.assignments]
  show Function.update (Function.update sc₂.kept.assignments r'.oldAssignment.id _) a.id _ = _
  rw [h.draining, hold]
  show Function.update (Function.update (Function.update sc.kept.assignments r.oldAssignment.id _)
    r.oldAssignment.id _) a.id _ = _
  rw [Function.update_idem]
  rfl

/-- The new IP, and the old one retired. -/
theorem ips : sc'.kept.ips = Function.update
    (Function.update sc.kept.ips r'.newIp.id (some r'.newIp)) r.oldIp.id
      (some r.oldIp.retired) := by
  have hold := h.moved.drains.old.2.2.1
  rw [h.moved.cut.kept]
  show Function.update L'.ips r'.oldIp.id (some r'.oldIp.retired) = _
  rw [h.moved.cut.ends.ips, hold]
  show Function.update sc₂.kept.ips r.oldIp.id _ = _
  rw [h.draining]
  show Function.update (Function.update (Function.update sc.kept.ips r.newIp.id _) r'.newIp.id _)
    r.oldIp.id _ = _
  rw [h.newIp_id, Function.update_idem]

theorem usage_before (x : IpId) (y : BrokerIpUsageHistory) :
    sc₂.kept.Usage b x y ↔ sc.kept.Usage b x y := by
  rw [h.draining]
  rfl

theorem history_closed {y : BrokerIpUsageHistory} (hy : sc.kept.Usage b r.oldIp.id y)
    (hopen : y.releasedAt = none) :
    sc'.kept.history y.id = some (y.closedAt t (t + n * hour)) := by
  have hne : y.id ≠ u.id := by
    intro heq
    have hnone := h.moved.cut.new.2
    rw [← heq, h.draining] at hnone
    cases hy.1.symm.trans hnone
  rw [h.moved.cut.kept]
  refine (Function.update_of_ne hne ..).trans (h.moved.cut.ends.closed y ⟨?_, hopen⟩)
  rw [h.moved.drains.old.1, h.moved.drains.old.2.2.1, h.begun.broker]
  exact (h.usage_before _ _).mpr hy

theorem history_new : sc.kept.history u.id = none ∧ sc'.kept.history u.id = some u ∧
    u = { id := u.id, brokerAccountId := b, staticIpId := r'.newIp.id, usedAt := t } := by
  have hnone := h.moved.cut.new.2
  rw [h.draining] at hnone
  refine ⟨hnone, ?_, ?_⟩
  · rw [h.moved.cut.kept]
    exact Function.update_self ..
  · have hu := h.moved.cut.usage
    rw [Rotation.newUsage, h.moved.drains.old.1, h.begun.broker] at hu
    exact hu

theorem assignment_new : sc.kept.assignments a.id = none ∧
    a = { id := a.id, clientId := r.oldAssignment.clientId, brokerAccountId := b,
          staticIpId := r'.newIp.id } := by
  have hnone := h.moved.cut.new.1
  rw [h.draining] at hnone
  have hne : a.id ≠ r.oldAssignment.id := by
    intro heq
    rw [heq] at hnone
    cases hnone.symm.trans (Function.update_self ..)
  refine ⟨?_, ?_⟩
  · exact (Function.update_of_ne hne ..).symm.trans hnone
  · have ha := h.moved.cut.row
    rw [Rotation.newAssignment, h.moved.drains.old.1, h.begun.broker,
      h.moved.drains.old.2.2.2] at ha
    exact ha

theorem outbox : sc'.kept.outbox = sc.kept.outbox ++
    [{ payload := .ipAllocated r.newIp.id r.newIp.ipAddress r.newIp.region },
     { payload := .ipRotated r.oldAssignment.clientId b r.oldIp.id r'.newIp.id r.oldIp.ipAddress
        r'.newIp.ipAddress force drained whitelistOk }] := by
  obtain ⟨hbroker, hforce, hip, hassignment⟩ := h.moved.drains.old
  rw [h.moved.cut.kept]
  show L'.outbox ++ [_] = _
  rw [h.moved.cut.ends.outbox, hbroker, hforce, hip, hassignment, h.begun.broker, h.begun.forced]
  show sc₂.kept.outbox ++ [_] = _
  rw [h.draining]
  exact List.append_assoc ..

/-- The new IP is where the old one is, if that is still an instance. -/
theorem newIp_holder : r'.newIp.region = r.oldIp.region ∧
    r'.newIp.instanceId = sc.kept.holder r.oldIp ∧
    (r'.newIp.status = .attached ↔ r'.newIp.instanceId.isSome) := by
  have hnew := h.begun.allocated.new
  have hholder := h.moved.drains.holder
  rw [h.begun.allocated.kept, hnew.instanceId, Option.or_none] at hholder
  obtain ⟨L, hplaced, -⟩ := h.moved.drains.placed
  obtain ⟨i, st, hip, hstay | ⟨hst, hi⟩⟩ := hplaced.row
  · refine ⟨?_, hholder, ?_⟩
    · rw [hstay, hnew.region]
    · rw [hstay, hnew.status, hnew.instanceId]
      exact ⟨nofun, nofun⟩
  · refine ⟨?_, hholder, ?_⟩
    · rw [hip]
      exact hnew.region
    · rw [hip]
      exact ⟨fun _ => hi, fun _ => hst⟩

/-- Why it went on. -/
theorem reason : drained = true ∧ sc.kept.inflight r.oldIp.id = 0 ∨ force = true ∨
    Text.upper (sc.kept.config.onTimeout.getD "ABORT") = "FORCE" := by
  obtain ⟨-, hforce, hip, -⟩ := h.moved.drains.old
  have hgo := h.moved.goesOn
  rw [h.draining] at hgo
  rcases hgo.forced with hdrained | hforced | hpolicy
  · refine .inl ⟨hdrained, ?_⟩
    rw [← hip]
    exact hgo.inflight.mp hdrained
  · exact .inr (.inl (h.begun.forced ▸ hforce ▸ hforced))
  · exact .inr (.inr hpolicy)

theorem cooldown : sc.kept.config.cooldown s = some n := by
  have hn := h.moved.cut.cooldown
  rw [h.draining] at hn
  exact hn

end Rotated

end Tables

/-! ## What the call leaves -/

/-- The broker has been moved from `old`, on `ip`, to `new`, on `ip'`, at time `t`. -/
structure MovedTo (s : Settings) (b : BrokerId) (force drained : Bool) (L : Ledger)
    (old : IpAssignment) (ip : StaticIp) (t : Instant) (new : IpAssignment) (ip' : StaticIp)
    (L' : Ledger) : Prop where
  found : L.ActiveFor b old ∧ L.ips old.staticIpId = some ip
  active : ∀ a, L'.ActiveFor b a ↔ a = new ∨ L.ActiveFor b a ∧ a.id ≠ old.id
  ended : L'.assignments old.id = some { old with status := .released, releasedAt := some t }
  closed : ∃ n, L.config.cooldown s = some n ∧
    ∀ u, L.Usage b ip.id u → u.releasedAt = none → L'.history u.id =
      some { u with releasedAt := some t, reuseEligibleAt := some (t + n * hour) }
  opened : ∃ u, L.history u.id = none ∧ L'.Usage b ip'.id u ∧ u.releasedAt = none
  assigned : L.assignments new.id = none ∧ new.staticIpId = ip'.id
  newIp : L.ips ip'.id = none ∧ L'.ips ip'.id = some ip' ∧ ip'.region = ip.region
  /-- On the old IP's instance, if that exists and is not destroyed. -/
  placed : ip'.instanceId = L.holder ip ∧ (ip'.status = .attached ↔ (L.holder ip).isSome)
  oldIp : L'.ips ip.id = some { ip with status := .released, instanceId := none }
  /-- The new IP is announced, and the rotation once. -/
  events : ∃ address whitelistOk, L'.outbox = L.outbox ++
    [{ payload := .ipAllocated ip'.id address ip.region },
     { payload := .ipRotated old.clientId b ip.id ip'.id ip.ipAddress ip'.ipAddress force drained
        whitelistOk }]
  reason : drained = true ∧ L.inflight ip.id = 0 ∨ force = true ∨
    Text.upper (L.config.onTimeout.getD "ABORT") = "FORCE"
  otherAssignments : ∀ i, i ≠ old.id → i ≠ new.id → L'.assignments i = L.assignments i
  otherIps : ∀ x, x ≠ ip.id → x ≠ ip'.id → L'.ips x = L.ips x

theorem Rotated.movedTo {F : Req → Prop} {s : Settings} {b : BrokerId}
    {force drained whitelistOk : Bool} {sc sc₁ sc₂ sc' : Scene} {r r' : Rotation} {t : Instant}
    {n : Int} {L' : Ledger} {a : IpAssignment} {u : BrokerIpUsageHistory}
    (h : Rotated F s b force sc r sc₁ r' drained whitelistOk sc₂ t n L' a u sc')
    (hatt : r.oldIp.status = .attached ↔ r.oldIp.instanceId.isSome) :
    MovedTo s b force drained sc.kept r.oldAssignment r.oldIp t a r'.newIp sc'.kept := by
  obtain ⟨hnone, ha⟩ := h.assignment_new
  obtain ⟨hu, hu', hrow⟩ := h.history_new
  obtain ⟨hregion, hholder, hstatus⟩ := h.newIp_holder
  have hactive : sc.kept.ActiveFor b r.oldAssignment := h.begun.active
  have hold : sc.kept.ips r.oldIp.id = some r.oldIp := by
    rw [sc.kept.ip_id _ _ h.begun.oldIp, h.begun.oldIp]
  have hne : r.oldAssignment.id ≠ a.id := by
    intro heq
    rw [← heq] at hnone
    cases hactive.1.symm.trans hnone
  have hretired : r.oldIp.retired = { r.oldIp with status := .released, instanceId := none } := by
    unfold StaticIp.retired
    split
    · rfl
    · next hloose =>
        have hno : r.oldIp.instanceId = none := by
          rw [hatt, Bool.not_eq_true, Option.isSome_eq_false_iff,
            Option.isNone_iff_eq_none] at hloose
          exact hloose
        rw [hno]
  have hassignments := h.assignments
  have hips := h.ips
  exact
    { found := ⟨hactive, h.begun.oldIp⟩
      active := fun y => by
        unfold Ledger.ActiveFor
        rw [hassignments, Function.update_apply, Function.update_apply]
        split
        · next hy =>
            -- The new row's id was no row's.
            constructor
            · rintro ⟨hsome, -⟩
              exact .inl (Option.some_inj.mp hsome).symm
            · rintro (rfl | ⟨⟨hsome, -⟩, -⟩)
              · rw [ha]
                exact ⟨rfl, rfl, rfl⟩
              · rw [hy, hnone] at hsome
                cases hsome
        · next hy =>
            split
            · next hy' =>
                constructor
                · rintro ⟨hsome, -, hst⟩
                  rw [← Option.some_inj.mp hsome] at hst
                  cases hst
                · rintro (rfl | ⟨-, hno⟩)
                  · exact absurd rfl hy
                  · exact absurd hy' hno
            · next hy' =>
                constructor
                · exact fun hsame => .inr ⟨hsame, hy'⟩
                · rintro (rfl | ⟨hsame, -⟩)
                  · exact absurd rfl hy
                  · exact hsame
      ended := by
        rw [hassignments, Function.update_of_ne hne]
        exact Function.update_self ..
      closed := ⟨n, h.cooldown, fun y hy hopen => h.history_closed hy hopen⟩
      opened := by
        refine ⟨u, hu, ⟨hu', ?_⟩, ?_⟩
        · rw [hrow]
          exact ⟨rfl, rfl⟩
        · rw [hrow]
      assigned := ⟨hnone, by rw [ha]⟩
      newIp := by
        refine ⟨?_, ?_, hregion⟩
        · rw [h.newIp_id]
          exact h.begun.allocated.new.id.ip
        · rw [hips, Function.update_of_ne h.apart]
          exact Function.update_self ..
      placed := ⟨hholder, hholder ▸ hstatus⟩
      oldIp := by
        rw [hips, ← hretired]
        exact Function.update_self ..
      events := by
        refine ⟨r.newIp.ipAddress, whitelistOk, ?_⟩
        rw [h.newIp_id, ← h.begun.allocated.new.region, ← h.newIp_id]
        exact h.newIp_id ▸ h.outbox
      reason := h.reason
      otherAssignments := fun i hi hi' => by
        rw [hassignments, Function.update_of_ne hi', Function.update_of_ne hi]
      otherIps := fun x hx hx' => by
        rw [hips, Function.update_of_ne hx, Function.update_of_ne hx'] }

/-- `rotate` returns only once it has moved the broker. -/
theorem movedTo_of_rotate (s : Settings) (b : BrokerId) (force : Bool) (w : World)
    (env : Nat → Nat × Env)
    (hatt : ∀ x ip, w.db.ledger.ips x = some ip → (ip.status = .attached ↔ ip.instanceId.isSome))
    (hup : (Call.rotate b force).Meets s env w ProviderUp) {y : RotateResult}
    (hret : ((Call.rotate b force).outcome s env w).1 = .ok (.rotated y)) :
    ∃ old ip t new ip', t ∈ (Call.rotate b force).readings s env w ∧
      MovedTo s b force y.drained w.db.ledger old ip t new ip'
        ((Call.rotate b force).outcome s env w).2.db.ledger := by
  obtain ⟨sc, hleft, ⟨y', hy', r, sc₁, r', ok, sc₂, t, n, L', a, u, h⟩ | ⟨e, he, -⟩⟩ :=
    (rotate_plays s rfl).program hup
  · have hsame : Except.ok (Reply.rotated y) = Except.ok (Reply.rotated y') := hret.symm.trans hy'
    cases hsame
    refine ⟨r.oldAssignment, r.oldIp, t, a, r'.newIp, ?_, ?_⟩
    · have hreadings : sc.readings = (Call.rotate b force).readings s env w := hleft.readings
      exact hreadings ▸ h.moved.cut.time
    · have hkept : ((Call.rotate b force).outcome s env w).2.db.ledger = sc.kept := hleft.kept
      rw [hkept]
      exact h.movedTo (hatt _ _ h.begun.oldIp)
  · have hsame : Except.ok (Reply.rotated y) = Except.error e := hret.symm.trans he
    cases hsame

/-! ## Two active assignments -/

/-- The broker of a rotation that returns has one active assignment. -/
def RotationLeavesOne (s : Settings) : Prop :=
  ∀ (b : BrokerId) (force : Bool) (w : World) (env : Nat → Nat × Env) (y : RotateResult),
    (∀ x ip, w.db.ledger.ips x = some ip → (ip.status = .attached ↔ ip.instanceId.isSome)) →
    (Call.rotate b force).Meets s env w ProviderUp →
    ((Call.rotate b force).outcome s env w).1 = .ok (.rotated y) →
    ∀ a a', ((Call.rotate b force).outcome s env w).2.db.ledger.ActiveFor b a →
      ((Call.rotate b force).outcome s env w).2.db.ledger.ActiveFor b a' → a = a'

def rotationOf : Except Exn Reply → Option RotateResult
  | .ok (.rotated y) => some y
  | _ => none

theorem ok_of_rotationOf {x : Except Exn Reply} (h : (rotationOf x).isSome = true) :
    ∃ y, x = .ok (.rotated y) := by
  cases x with
  | error e => cases h
  | ok reply =>
      cases reply with
      | rotated y => exact ⟨y, rfl⟩
      | _ => cases h

/-- A broker with two active assignments. -/
def twiceAssigned : World where
  db :=
    { clients := .of [{ id := 1 }]
      brokers := .of [{ id := 2, clientId := 1 }]
      ips := .of
        [{ id := 3, externalId := 4, ipAddress := "192.0.2.1", region := "ewr" },
         { id := 5, externalId := 6, ipAddress := "192.0.2.2", region := "ewr" }]
      assignments := .of
        [{ id := 7, clientId := 1, brokerAccountId := 2, staticIpId := 3 },
         { id := 8, clientId := 1, brokerAccountId := 2, staticIpId := 5 }] }

/-- Nothing goes wrong, and no time passes. -/
def calm : Nat → Nat × Env := fun _ => (0, { address := "192.0.2.3" })

theorem meets_calm {s : Settings} {c : Call} {w : World} {F : Req → Prop} : c.Meets s calm w F :=
  Prog.suits_of_forall (fun _ _ hfault => absurd rfl hfault) _ _

theorem activeFor_of_row {d : Db} {b : BrokerId} {a : IpAssignment}
    (h : d.assignments.get? a.id = some a) (hb : a.brokerAccountId = b) (hst : a.status = .active) :
    d.ledger.ActiveFor b a := ⟨h, hb, hst⟩

theorem not_rotationLeavesOne : ¬ RotationLeavesOne {} := by
  intro h
  obtain ⟨y, hy⟩ : ∃ y, ((Call.rotate 2 false).outcome {} calm twiceAssigned).1 =
      .ok (.rotated y) := ok_of_rotationOf (by decide +kernel)
  have hatt : ∀ ip ∈ twiceAssigned.db.ips.rows,
      (ip.status = .attached ↔ ip.instanceId.isSome) := by decide
  have hkept : ((Call.rotate 2 false).outcome {} calm twiceAssigned).2.db.assignments.get? 8 =
      some { id := 8, clientId := 1, brokerAccountId := 2, staticIpId := 5 } := by decide +kernel
  have hnew : ((Call.rotate 2 false).outcome {} calm twiceAssigned).2.db.assignments.get? 12 =
      some { id := 12, clientId := 1, brokerAccountId := 2, staticIpId := 11 } := by decide +kernel
  have hone := h 2 false twiceAssigned calm y
    (fun x ip hip => hatt ip (Table.get?_eq_some.mp hip).1) meets_calm hy
    { id := 8, clientId := 1, brokerAccountId := 2, staticIpId := 5 }
    { id := 12, clientId := 1, brokerAccountId := 2, staticIpId := 11 }
    (activeFor_of_row hkept rfl rfl) (activeFor_of_row hnew rfl rfl)
  cases hone

/-- A broker whose IP is on an instance. -/
def attachedOnce : World where
  db :=
    { clients := .of [{ id := 1 }]
      brokers := .of [{ id := 2, clientId := 1 }]
      instances := .of [{ id := 9, clientId := 1, externalId := 10, region := "ewr" }]
      ips := .of
        [{ id := 3, externalId := 4, ipAddress := "192.0.2.1", region := "ewr",
           instanceId := some 9, status := .attached }]
      assignments := .of [{ id := 7, clientId := 1, brokerAccountId := 2, staticIpId := 3 }]
      history := .of [{ id := 8, brokerAccountId := 2, staticIpId := 3, usedAt := 0 }] }

theorem movedTo_attachedOnce :
    ∃ y, ((Call.rotate 2 false).outcome {} calm attachedOnce).1 = .ok (.rotated y) ∧
      ∃ old ip t new ip', t ∈ (Call.rotate 2 false).readings {} calm attachedOnce ∧
        MovedTo {} 2 false y.drained attachedOnce.db.ledger old ip t new ip'
          ((Call.rotate 2 false).outcome {} calm attachedOnce).2.db.ledger := by
  obtain ⟨y, hy⟩ : ∃ y, ((Call.rotate 2 false).outcome {} calm attachedOnce).1 =
      .ok (.rotated y) := ok_of_rotationOf (by decide +kernel)
  have hatt : ∀ ip ∈ attachedOnce.db.ips.rows,
      (ip.status = .attached ↔ ip.instanceId.isSome) := by decide
  exact ⟨y, hy, movedTo_of_rotate {} 2 false attachedOnce calm
    (fun x ip hip => hatt ip (Table.get?_eq_some.mp hip).1) meets_calm hy⟩

end BrokerBridge
