import BrokerBridge.Ips.Live

/-!
# The events on static IPs, read back

A consumer that enters every event of the outbox in a book of its own ends with the table of
static IPs: an IP is allocated once, and what is released or rotated is in the book already,
under the same address. And the events of a call tell what it has made of the tables: which
IPs are new, which are released now, which broker has been moved. The events and the rows they
tell of are committed together, so this does not depend on what fails, or where a process dies.
-/

namespace BrokerBridge

open Conc

/-- The address and the region of each IP that has been announced. -/
abbrev IpBook : Type := IpId → Option (String × Region)

/-- The book with the event entered, if the event fits it. -/
def EventPayload.enter (book : IpBook) : EventPayload → Option IpBook
  | ipAllocated x address region =>
      if book x = none then some (Function.update book x (some (address, region))) else none
  | ipReleased x address region => if book x = some (address, region) then some book else none
  | ipRotated _ _ old new oldIp newIp _ _ _ =>
      if (book old).map Prod.fst = some oldIp ∧ (book new).map Prod.fst = some newIp then some book
      else none
  | _ => some book

def replay (events : List OutboxEvent) : Option IpBook :=
  events.foldlM (fun book e => e.payload.enter book) fun _ => none

theorem replay_concat (events : List OutboxEvent) (e : OutboxEvent) :
    replay (events ++ [e]) = (replay events).bind e.payload.enter := by
  unfold replay
  rw [List.foldlM_append]
  refine congrArg (Option.bind _) (funext fun book => ?_)
  exact bind_pure (EventPayload.enter book e.payload)

/-- What the table has of the IPs. -/
def Ledger.book (L : Ledger) : IpBook := fun x => (L.ips x).map fun ip => (ip.ipAddress, ip.region)

/-- The outbox tells of the IPs that are there, and of no others. -/
def Ledger.Announced (L : Ledger) : Prop := replay L.outbox = some L.book

section Steps

variable {L L' : Ledger} {x : IpId} {ip ip' : StaticIp}

theorem Ledger.Announced.congr (h : L.Announced) (hbook : L'.book = L.book)
    (hout : L'.outbox = L.outbox) : L'.Announced := by
  unfold Ledger.Announced
  rw [hbook, hout]
  exact h

theorem Ledger.Announced.enter {book : IpBook} {e : OutboxEvent} (h : L.Announced)
    (henter : e.payload.enter L.book = some book) (hbook : L'.book = book)
    (hout : L'.outbox = L.outbox ++ [e]) : L'.Announced := by
  unfold Ledger.Announced
  rw [hout, replay_concat, h, hbook]
  exact henter

theorem book_update (h : L'.ips = Function.update L.ips x (some ip)) :
    L'.book = Function.update L.book x (some (ip.ipAddress, ip.region)) := by
  refine funext fun y => ?_
  unfold Ledger.book
  rw [h, Function.update_apply, Function.update_apply]
  split <;> rfl

/-- A row that keeps its address and its region. -/
theorem book_kept (hip : L.ips x = some ip) (h : L'.ips = Function.update L.ips x (some ip'))
    (haddress : ip'.ipAddress = ip.ipAddress) (hregion : ip'.region = ip.region) :
    L'.book = L.book := by
  rw [book_update h, haddress, hregion]
  have hself : L.book x = some (ip.ipAddress, ip.region) := by
    unfold Ledger.book
    rw [hip]
    rfl
  rw [← hself, Function.update_eq_self]

/-- A new row, and its event. -/
theorem Ledger.Announced.allocated (h : L.Announced) (hnew : L.ips ip.id = none)
    (hips : L'.ips = Function.update L.ips ip.id (some ip))
    (hout : L'.outbox = L.outbox ++ [{ payload := .ipAllocated ip.id ip.ipAddress ip.region }]) :
    L'.Announced := by
  refine h.enter ?_ (book_update hips) hout
  have hnone : L.book ip.id = none := by
    unfold Ledger.book
    rw [hnew]
    rfl
  exact if_pos hnone

end Steps

section Calls

variable {s : Settings} {F : Req → Prop} {sc sc' : Scene} {b : BrokerId} {x : IpId}

theorem Allocated.announced {region : Region} {ip : StaticIp} (h : Allocated region sc ip sc')
    (hL : sc.kept.Announced) : sc'.kept.Announced := by
  refine hL.allocated h.new.id.ip ?_ ?_ <;> rw [h.kept] <;> rfl

theorem Assigned.announced {ip : StaticIp} {a : IpAssignment} {u : BrokerIpUsageHistory}
    (h : Assigned b x sc ip a u sc') (hL : sc.kept.Announced) : sc'.kept.Announced := by
  have hself : sc.kept.ips ip.id = some ip := by rw [sc.kept.ip_id _ _ h.found, h.found]
  rw [h.kept]
  unfold Ledger.assigned
  split
  · exact hL.congr (book_kept hself rfl rfl rfl) rfl
  · exact hL.congr rfl rfl

theorem Attached.announced {i : InstanceId} {ip : StaticIp} {inst : Instance}
    (h : Attached x i sc ip inst sc') (hL : sc.kept.Announced) : sc'.kept.Announced := by
  have hself : sc.kept.ips ip.id = some ip := by rw [sc.kept.ip_id _ _ h.found, h.found]
  rw [h.kept]
  exact hL.congr (book_kept hself rfl rfl rfl) rfl

theorem Detached.announced {ip : StaticIp} (h : Detached x sc ip sc') (hL : sc.kept.Announced) :
    sc'.kept.Announced := by
  have hself : sc.kept.ips ip.id = some ip := by rw [sc.kept.ip_id _ _ h.found, h.found]
  rw [h.kept]
  exact hL.congr (book_kept hself rfl rfl rfl) rfl

theorem Released.announced {ip : StaticIp} {t : Instant} {n : Int} {L' : Ledger}
    (h : Released s x sc ip t n L' sc') (hL : sc.kept.Announced) : sc'.kept.Announced := by
  have hself : sc.kept.ips ip.id = some ip := by rw [sc.kept.ip_id _ _ h.found, h.found]
  have hips : sc'.kept.ips = Function.update sc.kept.ips ip.id
      (some { ip with status := .released }) := by
    rw [h.kept]
    show Function.update L'.ips ip.id _ = _
    rw [h.ends.ips]
  have hout : sc'.kept.outbox =
      sc.kept.outbox ++ [{ payload := .ipReleased ip.id ip.ipAddress ip.region }] := by
    rw [h.kept]
    show L'.outbox ++ _ = _
    rw [h.ends.outbox]
  refine hL.enter ?_ (book_kept hself hips rfl rfl) hout
  have hentry : sc.kept.book ip.id = some (ip.ipAddress, ip.region) := by
    unfold Ledger.book
    rw [hself]
    rfl
  exact if_pos hentry

section Rotation

variable {force : Bool} {r r' : Rotation} {sc₁ sc₂ : Scene}

/-- Whatever else it has done, one IP is new and announced. -/
theorem Rotation.Midway.announced {L : Ledger} {readings : List Instant}
    (h : r.Midway s sc.kept readings L) (hbegun : Begun b force sc r sc₁)
    (hL : sc.kept.Announced) : L.Announced := by
  obtain ⟨i, st, hips⟩ := h.ips
  have hnew : sc.kept.ips { r.newIp with instanceId := i, status := st }.id = none :=
    hbegun.allocated.new.id.ip
  exact hL.allocated hnew hips h.outbox

theorem Unrotated.announced (h : Unrotated F s b force sc sc') (hL : sc.kept.Announced) :
    sc'.kept.Announced := by
  cases h with
  | before region h =>
      rcases h with h | ⟨ip, h⟩
      · rw [h.kept]
        exact hL
      · exact h.announced hL
  | after r sc₁ sc₂ hbegun hstop hclean hread =>
      exact (hstop.midway_discarded hbegun hclean).announced hbegun hL

/-- The new IP is announced before the event that tells of both. -/
theorem Rotated.announced {drained whitelistOk : Bool} {t : Instant} {n : Int} {L' : Ledger}
    {a : IpAssignment} {u : BrokerIpUsageHistory}
    (h : Rotated F s b force sc r sc₁ r' drained whitelistOk sc₂ t n L' a u sc')
    (hL : sc.kept.Announced) : sc'.kept.Announced := by
  have hfresh : sc.kept.ips r'.newIp.id = none := by
    rw [h.newIp_id]
    exact h.begun.allocated.new.id.ip
  have hold : sc.kept.ips r.oldIp.id = some r.oldIp := by
    rw [sc.kept.ip_id _ _ h.begun.oldIp, h.begun.oldIp]
  obtain ⟨i, st, hrow⟩ := h.moved.drains.newRow
  have haddress : r'.newIp.ipAddress = r.newIp.ipAddress ∧ r'.newIp.region = r.newIp.region := by
    rw [hrow]
    exact ⟨rfl, rfl⟩
  -- The ledger in between, that has the new IP and still the old one.
  have hnew : (sc.kept.allocated r'.newIp).Announced :=
    hL.allocated hfresh rfl rfl
  have hstill : (sc.kept.allocated r'.newIp).ips r.oldIp.id = some r.oldIp :=
    (Function.update_of_ne h.apart.symm ..).trans hold
  have hbook : sc'.kept.book = (sc.kept.allocated r'.newIp).book :=
    book_kept hstill h.ips rfl rfl
  have hentries : (sc.kept.allocated r'.newIp).book r.oldIp.id = some (r.oldIp.ipAddress,
    r.oldIp.region) ∧
      (sc.kept.allocated r'.newIp).book r'.newIp.id = some (r'.newIp.ipAddress,
        r'.newIp.region) := by
    refine ⟨?_, ?_⟩
    · show Option.map _ (Function.update sc.kept.ips r'.newIp.id _ r.oldIp.id) = _
      rw [Function.update_of_ne h.apart.symm, hold]
      rfl
    · show Option.map _ (Function.update sc.kept.ips r'.newIp.id _ r'.newIp.id) = _
      rw [Function.update_self]
      rfl
  have hout := h.outbox
  rw [List.append_cons, ← haddress.1, ← haddress.2, ← h.newIp_id] at hout
  refine hnew.enter ?_ hbook hout
  refine if_pos ⟨?_, ?_⟩
  · rw [hentries.1]
    rfl
  · rw [hentries.2]
    rfl

end Rotation

/-! ## Every call -/

theorem Happened.announced {c : Call} (h : Happened s F sc sc' c) (hL : sc.kept.Announced) :
    sc'.kept.Announced := by
  cases h with
  | same hkept =>
      rw [hkept]
      exact hL
  | allocated h => exact h.announced hL
  | assigned h => exact h.announced hL
  | attached h => exact h.announced hL
  | detached h => exact h.announced hL
  | released h => exact h.announced hL
  | rotated h => exact h.announced hL
  | unrotated h => exact h.announced hL

end Calls

/-! ## What the events tell -/

/-- The event takes the IP out of use. -/
def EventPayload.retires (x : IpId) : EventPayload → Prop
  | ipReleased y _ _ => y = x
  | ipRotated _ _ old _ _ _ _ _ _ => old = x
  | _ => False

/-- The event moves the broker from one IP to another. -/
def EventPayload.moves (b : BrokerId) (x y : IpId) : EventPayload → Prop
  | ipRotated _ b' old new _ _ _ _ _ => b' = b ∧ old = x ∧ new = y
  | _ => False

/-- An assignment of the broker is not active any more, and one of another IP is instead. -/
def Ledger.Moves (L L' : Ledger) (b : BrokerId) (x y : IpId) : Prop :=
  ∃ a a', L.ActiveFor b a ∧ ¬ L'.ActiveFor b a ∧ ¬ L.ActiveFor b a' ∧ L'.ActiveFor b a' ∧
    a.staticIpId = x ∧ a'.staticIpId = y

/-- These are the events that have come since, and they tell what has become of the rows: the
IPs that are new, those that are released now and were not, and the moves. -/
structure Ledger.Tells (L L' : Ledger) (news : List EventPayload) : Prop where
  outbox : L'.outbox = L.outbox ++ news.map fun p => { payload := p }
  added : ∀ x address region, .ipAllocated x address region ∈ news ↔
    L.ips x = none ∧ ∃ ip, L'.ips x = some ip ∧ ip.ipAddress = address ∧ ip.region = region
  /-- What is released twice is announced twice. -/
  retiring : ∀ p ∈ news, ∀ x, p.retires x → ∃ ip, L'.ips x = some ip ∧ ip.status = .released
  retired : ∀ x ip ip', L.ips x = some ip → ip.status ≠ .released → L'.ips x = some ip' →
    ip'.status = .released → ∃ p ∈ news, p.retires x
  moved : ∀ b x y, (∃ p ∈ news, p.moves b x y) ↔ L.Moves L' b x y

section Telling

variable {L L' : Ledger} {ip ip' : StaticIp}

/-- Where assignments only end or only begin, no broker is moved. -/
theorem not_moves (h : (∀ b a, L'.ActiveFor b a → L.ActiveFor b a) ∨
    ∀ b a, L.ActiveFor b a → L'.ActiveFor b a) (b : BrokerId) (x y : IpId) :
      ¬ L.Moves L' b x y := by
  rintro ⟨a, a', hold, hends, hidle, hbegins, -⟩
  rcases h with h | h
  · exact hidle (h b a' hbegins)
  · exact hends (h b a hold)

/-- The IPs are those that were there. -/
theorem not_added (hips : ∀ y, L.ips y = none → L'.ips y = none) (x : IpId) (address : String)
    (region : Region) : ¬ (L.ips x = none ∧
      ∃ ip, L'.ips x = some ip ∧ ip.ipAddress = address ∧ ip.region = region) := by
  rintro ⟨hnone, ip, hsome, -⟩
  rw [hips x hnone] at hsome
  cases hsome

theorem none_of_update (hip : L.ips ip.id = some ip)
    (h : L'.ips = Function.update L.ips ip.id (some ip')) (y : IpId) (hy : L.ips y = none) :
    L'.ips y = none := by
  rw [h, Function.update_of_ne, hy]
  rintro rfl
  rw [hip] at hy
  cases hy

/-- A change of which nothing has to be told. -/
theorem tells_nothing (hout : L'.outbox = L.outbox)
    (hips : L'.ips = L.ips ∨ ∃ ip ip', L.ips ip.id = some ip ∧ ip'.status ≠ .released ∧
      L'.ips = Function.update L.ips ip.id (some ip'))
    (hactive : (∀ b a, L'.ActiveFor b a → L.ActiveFor b a) ∨
      ∀ b a, L.ActiveFor b a → L'.ActiveFor b a) : L.Tells L' [] where
  outbox := by rw [hout]; exact (List.append_nil _).symm
  added x address region := by
    refine iff_of_false List.not_mem_nil (not_added ?_ x address region)
    rcases hips with heq | ⟨ip, ip', hip, -, hupdate⟩
    · exact fun y hy => heq ▸ hy
    · exact none_of_update hip hupdate
  retiring := List.forall_mem_nil _
  retired x ip₀ ip₁ h₀ hlive h₁ hreleased := by
    rcases hips with heq | ⟨ip, ip', -, hne, hupdate⟩
    · rw [heq, h₀] at h₁
      exact absurd hreleased (Option.some_inj.mp h₁ ▸ hlive)
    · rw [hupdate, Function.update_apply] at h₁
      split at h₁
      · exact absurd hreleased (Option.some_inj.mp h₁ ▸ hne)
      · rw [h₀] at h₁
        exact absurd hreleased (Option.some_inj.mp h₁ ▸ hlive)
  moved b x y := iff_of_false (fun ⟨_, hmem, _⟩ => List.not_mem_nil hmem) (not_moves hactive b x y)

/-- A new row is announced. -/
theorem tells_allocated (hnew : L.ips ip.id = none)
    (hips : L'.ips = Function.update L.ips ip.id (some ip))
    (hout : L'.outbox = L.outbox ++ [{ payload := .ipAllocated ip.id ip.ipAddress ip.region }])
    (hactive : ∀ b a, L'.ActiveFor b a → L.ActiveFor b a) :
    L.Tells L' [.ipAllocated ip.id ip.ipAddress ip.region] where
  outbox := hout
  added x address region := by
    rw [List.mem_singleton, hips]
    constructor
    · intro heq
      cases heq
      exact ⟨hnew, ip, Function.update_self .., rfl, rfl⟩
    · rintro ⟨hnone, ip', hip', rfl, rfl⟩
      rw [Function.update_apply] at hip'
      split at hip'
      · next hx =>
          cases hip'
          rw [hx]
      · cases hnone.symm.trans hip'
  retiring := List.forall_mem_singleton.mpr fun x h => h.elim
  retired x ip₀ ip₁ h₀ hlive h₁ hreleased := by
    rw [hips, Function.update_of_ne] at h₁
    · cases h₀.symm.trans h₁
      exact absurd hreleased hlive
    · rintro rfl
      cases h₀.symm.trans hnew
  moved b x y := by
    refine iff_of_false ?_ (not_moves (.inl hactive) b x y)
    rintro ⟨p, hmem, hmoves⟩
    cases List.mem_singleton.mp hmem
    exact hmoves

/-- A release is announced. -/
theorem tells_released (hip : L.ips ip.id = some ip)
    (hips : L'.ips = Function.update L.ips ip.id (some { ip with status := .released }))
    (hout : L'.outbox = L.outbox ++ [{ payload := .ipReleased ip.id ip.ipAddress ip.region }])
    (hactive : ∀ b a, L'.ActiveFor b a → L.ActiveFor b a) :
    L.Tells L' [.ipReleased ip.id ip.ipAddress ip.region] where
  outbox := hout
  added x address region := by
    refine iff_of_false (fun hmem => ?_) (not_added (none_of_update hip hips) x address region)
    cases List.mem_singleton.mp hmem
  retiring := by
    refine List.forall_mem_singleton.mpr ?_
    rintro x rfl
    exact ⟨{ ip with status := .released }, by rw [hips]; exact Function.update_self .., rfl⟩
  retired x ip₀ ip₁ h₀ hlive h₁ hreleased := by
    rw [hips, Function.update_apply] at h₁
    split at h₁
    · next hx => exact ⟨_, List.mem_singleton_self _, hx.symm⟩
    · cases h₀.symm.trans h₁
      exact absurd hreleased hlive
  moved b x y := by
    refine iff_of_false ?_ (not_moves (.inl hactive) b x y)
    rintro ⟨p, hmem, hmoves⟩
    cases List.mem_singleton.mp hmem
    exact hmoves

/-- One assignment ends, and another one begins that was not there. -/
theorem moves_replaced {a₀ a : IpAssignment} {b : BrokerId} {t : Instant}
    (hactive : L.ActiveFor b a₀) (hnone : L.assignments a.id = none)
    (hassignments : L'.assignments = Function.update
      (Function.update L.assignments a₀.id (some (a₀.endedAt t))) a.id (some a))
    (hbegins : a.brokerAccountId = b ∧ a.status = .active) (b' : BrokerId) (y z : IpId) :
    L.Moves L' b' y z ↔ b = b' ∧ a₀.staticIpId = y ∧ a.staticIpId = z := by
  have hne : a₀.id ≠ a.id := by
    intro heq
    rw [← heq, hactive.1] at hnone
    cases hnone
  have hrows : ∀ j, L'.assignments j = if j = a.id then some a
      else if j = a₀.id then some (a₀.endedAt t) else L.assignments j := by
    intro j
    rw [hassignments, Function.update_apply, Function.update_apply]
  have hself : L'.assignments a.id = some a := by rw [hrows, if_pos rfl]
  have hended : L'.assignments a₀.id = some (a₀.endedAt t) := by
    rw [hrows, if_neg hne, if_pos rfl]
  constructor
  · rintro ⟨a₁, a₂, hact, hends, hidle, hstarts, rfl, rfl⟩
    have ha₁ : a₁ = a₀ := by
      by_contra hother
      refine hends ⟨?_, hact.2⟩
      have hrow := hact.1
      rw [hrows, if_neg, if_neg, hrow]
      · intro heq
        rw [heq, hactive.1] at hrow
        exact hother (Option.some_inj.mp hrow).symm
      · intro heq
        rw [heq, hnone] at hrow
        cases hrow
    have ha₂ : a₂ = a := by
      have hrow := hstarts.1
      rw [hrows] at hrow
      split at hrow
      · exact (Option.some_inj.mp hrow).symm
      · split at hrow
        · have hst := hstarts.2.2
          rw [← Option.some_inj.mp hrow] at hst
          cases hst
        · exact absurd ⟨hrow, hstarts.2⟩ hidle
    subst ha₁ ha₂
    exact ⟨hactive.2.1.symm.trans hact.2.1, rfl, rfl⟩
  · rintro ⟨rfl, rfl, rfl⟩
    refine ⟨a₀, a, hactive, fun hact => ?_, fun hact => ?_, ⟨hself, hbegins⟩, rfl, rfl⟩
    · have hst := hact.2.2
      rw [← Option.some_inj.mp (hended.symm.trans hact.1)] at hst
      cases hst
    · cases hnone.symm.trans hact.1

/-- An IP is retired and another one is new, and the event on both tells of the one move. -/
theorem tells_rotated {old new retired : StaticIp} {c : ClientId} {b : BrokerId}
    {force drained whitelistOk : Bool} (hold : L.ips old.id = some old)
    (hfresh : L.ips new.id = none) (hapart : new.id ≠ old.id)
    (hretired : retired.status = .released)
    (hips : L'.ips = Function.update (Function.update L.ips new.id (some new)) old.id
      (some retired))
    (hout : L'.outbox = L.outbox ++ [{ payload := .ipAllocated new.id new.ipAddress new.region },
      { payload := .ipRotated c b old.id new.id old.ipAddress new.ipAddress force drained
          whitelistOk }])
    (hmoves : ∀ b' y z, L.Moves L' b' y z ↔ b = b' ∧ old.id = y ∧ new.id = z) :
    L.Tells L' [.ipAllocated new.id new.ipAddress new.region,
      .ipRotated c b old.id new.id old.ipAddress new.ipAddress force drained whitelistOk] := by
  have hrows : ∀ y, L'.ips y = if y = old.id then some retired
      else if y = new.id then some new else L.ips y := by
    intro y
    rw [hips, Function.update_apply, Function.update_apply]
  refine ⟨hout, fun y address region => ?_, ?_, ?_, fun b' y z => ?_⟩
  · rw [hrows]
    constructor
    · intro hmem
      rcases List.mem_cons.mp hmem with heq | hmem
      · cases heq
        rw [if_neg hapart, if_pos rfl]
        exact ⟨hfresh, _, rfl, rfl, rfl⟩
      · cases List.mem_singleton.mp hmem
    · rintro ⟨hnone, ip, hip, rfl, rfl⟩
      split at hip
      · next hy =>
          rw [hy, hold] at hnone
          cases hnone
      · split at hip
        · next hy =>
            cases hip
            rw [hy]
            exact List.mem_cons_self
        · cases hnone.symm.trans hip
  · intro p hmem y hy
    rcases List.mem_cons.mp hmem with rfl | hmem
    · exact hy.elim
    · cases List.mem_singleton.mp hmem
      obtain rfl : old.id = y := hy
      exact ⟨retired, by rw [hrows, if_pos rfl], hretired⟩
  · intro y ip₀ ip₁ h₀ hlive h₁ hreleased
    rw [hrows] at h₁
    split at h₁
    · next hy => exact ⟨_, List.mem_cons_of_mem _ (List.mem_singleton_self _), hy.symm⟩
    · split at h₁
      · next hy =>
          rw [hy, hfresh] at h₀
          cases h₀
      · cases h₀.symm.trans h₁
        exact absurd hreleased hlive
  · rw [hmoves]
    constructor
    · rintro ⟨p, hmem, hp⟩
      rcases List.mem_cons.mp hmem with rfl | hmem
      · exact hp.elim
      · cases List.mem_singleton.mp hmem
        exact hp
    · intro hp
      exact ⟨_, List.mem_cons_of_mem _ (List.mem_singleton_self _), hp⟩

end Telling

section Tellings

variable {s : Settings} {F : Req → Prop} {sc sc' : Scene} {b : BrokerId} {x : IpId}

theorem activeFor_congr {L L' : Ledger} (h : L'.assignments = L.assignments) (b : BrokerId)
    (a : IpAssignment) : L'.ActiveFor b a → L.ActiveFor b a := by
  unfold Ledger.ActiveFor
  rw [h]
  exact id

theorem Allocated.tells {region : Region} {ip : StaticIp} (h : Allocated region sc ip sc') :
    sc.kept.Tells sc'.kept [.ipAllocated ip.id ip.ipAddress ip.region] := by
  refine tells_allocated h.new.id.ip ?_ ?_ (activeFor_congr ?_) <;> rw [h.kept] <;> rfl

theorem Assigned.tells {ip : StaticIp} {a : IpAssignment} {u : BrokerIpUsageHistory}
    (h : Assigned b x sc ip a u sc') : sc.kept.Tells sc'.kept [] := by
  have hself : sc.kept.ips ip.id = some ip := by rw [sc.kept.ip_id _ _ h.found, h.found]
  have hactive : ∀ b' a', sc.kept.ActiveFor b' a' → sc'.kept.ActiveFor b' a' := fun b' a' ha' =>
    ⟨h.adds.assignments_of ha'.1, ha'.2⟩
  refine tells_nothing ?_ ?_ (.inr hactive)
  · rw [h.kept]
    unfold Ledger.assigned
    split <;> rfl
  · rw [h.kept]
    unfold Ledger.assigned
    split
    · exact .inr ⟨ip, { ip with status := .allocated }, hself, fun heq => (by cases heq), rfl⟩
    · exact .inl rfl

theorem Attached.tells {i : InstanceId} {ip : StaticIp} {inst : Instance}
    (h : Attached x i sc ip inst sc') : sc.kept.Tells sc'.kept [] := by
  have hself : sc.kept.ips ip.id = some ip := by rw [sc.kept.ip_id _ _ h.found, h.found]
  rw [h.kept]
  exact tells_nothing rfl (.inr ⟨ip, _, hself, fun heq => (by cases heq), rfl⟩)
    (.inl (activeFor_congr rfl))

theorem Detached.tells {ip : StaticIp} (h : Detached x sc ip sc') : sc.kept.Tells sc'.kept [] := by
  have hself : sc.kept.ips ip.id = some ip := by rw [sc.kept.ip_id _ _ h.found, h.found]
  rw [h.kept]
  exact tells_nothing rfl (.inr ⟨ip, _, hself, fun heq => (by cases heq), rfl⟩)
    (.inl (activeFor_congr rfl))

theorem Released.tells {ip : StaticIp} {t : Instant} {n : Int} {L' : Ledger}
    (h : Released s x sc ip t n L' sc') :
    sc.kept.Tells sc'.kept [.ipReleased ip.id ip.ipAddress ip.region] := by
  have hself : sc.kept.ips ip.id = some ip := by rw [sc.kept.ip_id _ _ h.found, h.found]
  refine tells_released hself ?_ ?_ fun b a ha => ?_
  · rw [h.kept]
    show Function.update L'.ips ip.id _ = _
    rw [h.ends.ips]
  · rw [h.kept]
    show L'.outbox ++ _ = _
    rw [h.ends.outbox]
  · refine (h.ends.closing.active (activeFor_congr ?_ b a ha)).1
    rw [h.kept]
    rfl

section Rotation

variable {force : Bool} {r r' : Rotation} {sc₁ sc₂ : Scene}

theorem Unrotated.tells (h : Unrotated F s b force sc sc') :
    ∃ news, sc.kept.Tells sc'.kept news := by
  cases h with
  | before region h =>
      rcases h with h | ⟨ip, h⟩
      · rw [h.kept]
        exact ⟨_, tells_nothing rfl (.inl rfl) (.inl fun _ _ => id)⟩
      · exact ⟨_, h.tells⟩
  | after r sc₁ sc₂ hbegun hstop hclean hread =>
      have hmid := hstop.midway_discarded hbegun hclean
      obtain ⟨i, st, hips⟩ := hmid.ips
      have hnew : sc.kept.ips { r.newIp with instanceId := i, status := st }.id = none :=
        hbegun.allocated.new.id.ip
      refine ⟨_, tells_allocated hnew hips hmid.outbox fun b' a ha => ?_⟩
      obtain ⟨hrow, hst⟩ := hmid.activeOn a.staticIpId a ⟨ha.1, rfl, ha.2.2⟩
      exact ⟨hrow, ha.2⟩

theorem Rotated.tells {drained whitelistOk : Bool} {t : Instant} {n : Int} {L' : Ledger}
    {a : IpAssignment} {u : BrokerIpUsageHistory}
    (h : Rotated F s b force sc r sc₁ r' drained whitelistOk sc₂ t n L' a u sc') :
    ∃ news, sc.kept.Tells sc'.kept news := by
  obtain ⟨hnone, ha⟩ := h.assignment_new
  obtain ⟨i, st, hrow⟩ := h.moved.drains.newRow
  have haddress : r'.newIp.ipAddress = r.newIp.ipAddress ∧ r'.newIp.region = r.newIp.region := by
    rw [hrow]
    exact ⟨rfl, rfl⟩
  have hfresh : sc.kept.ips r'.newIp.id = none := by
    rw [h.newIp_id]
    exact h.begun.allocated.new.id.ip
  have hx : r.oldIp.id = r.oldAssignment.staticIpId := sc.kept.ip_id _ _ h.begun.oldIp
  have hold : sc.kept.ips r.oldIp.id = some r.oldIp := by rw [hx, h.begun.oldIp]
  have hretired : r.oldIp.retired.status = .released := by
    unfold StaticIp.retired
    split <;> rfl
  have hbegins : a.brokerAccountId = b ∧ a.status = .active := by
    rw [ha]
    exact ⟨rfl, rfl⟩
  have htarget : a.staticIpId = r'.newIp.id := by rw [ha]
  have hout := h.outbox
  rw [← haddress.1, ← haddress.2, ← h.newIp_id] at hout
  refine ⟨_, tells_rotated hold hfresh h.apart hretired h.ips hout fun b' y z => ?_⟩
  rw [moves_replaced h.begun.active hnone h.assignments hbegins, hx, htarget]

end Rotation

theorem Happened.tells {c : Call} (h : Happened s F sc sc' c) :
    ∃ news, sc.kept.Tells sc'.kept news := by
  cases h with
  | same hkept =>
      rw [hkept]
      exact ⟨_, tells_nothing rfl (.inl rfl) (.inl fun _ _ => id)⟩
  | allocated h => exact ⟨_, h.tells⟩
  | assigned h => exact ⟨_, h.tells⟩
  | attached h => exact ⟨_, h.tells⟩
  | detached h => exact ⟨_, h.tells⟩
  | released h => exact ⟨_, h.tells⟩
  | rotated h => exact h.tells
  | unrotated h => exact h.tells

end Tellings

/-! ## Runs -/

/-- A broker, and no IP yet. -/
def bareBroker : World where
  db := { clients := .of [{ id := 1 }], brokers := .of [{ id := 2, clientId := 1 }] }

/-- Nothing goes wrong, and the provider has many addresses. -/
def spacious : Nat → Nat × Env := fun n => (0, { address := "192.0.2." ++ toString n })

end BrokerBridge
