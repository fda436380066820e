import BrokerBridge.Ips.Calls

/-!
# Assignments and usage rows

The cooldown of a released IP is enforced through usage rows: `assign` and `rotate` open
one with each assignment, and `release` and `rotate` close the open ones of the broker and
the IP. `Ledger.Books` is what makes this work: a broker has one active assignment at
most, and for that an open usage row.

What a call does to the two tables is made of two steps, after which the books are in
order again: some assignments end, with their usage rows, and one is added, with its own.
-/

namespace BrokerBridge

open Conc

/-- A broker has one active assignment at most, and an open usage row for it. -/
structure Ledger.Books (L : Ledger) : Prop where
  one : ∀ b a a', L.ActiveFor b a → L.ActiveFor b a' → a = a'
  opened : ∀ b a, L.ActiveFor b a → ∃ u, L.Usage b a.staticIpId u ∧ u.releasedAt = none

/-- Assignment `a` has become released, as `a'`. -/
structure Ledger.Releases (L L' : Ledger) (a a' : IpAssignment) : Prop where
  before : L.assignments a.id = some a
  live : a.status ≠ .released
  after : L'.assignments a.id = some a'
  released : a'.status = .released

/-- A usage row of the broker and the IP is closed, and the IP may not be reused before `e`. -/
def Ledger.Barred (L : Ledger) (b : BrokerId) (x : IpId) (e : Instant) : Prop :=
  ∃ u, L.Usage b x u ∧ u.releasedAt ≠ none ∧ u.reuseEligibleAt = some e

/-- What a call does to assignments and usage rows. -/
structure Bookkept (s : Settings) (L L' : Ledger) (readings : List Instant) : Prop where
  books : L'.Books
  ended : ∀ a a', L.Releases L' a a' → ∃ t n, t ∈ readings ∧ a'.releasedAt = some t ∧
    L.config.cooldown s = some n ∧ L'.Barred a.brokerAccountId a.staticIpId (t + n * hour)
  closed : ∀ u, L.history u.id = some u → u.releasedAt ≠ none → L'.history u.id = some u
  /-- A row that bars is not new, or an assignment has ended. -/
  barring : ∀ u e, L'.history u.id = some u → u.reuseEligibleAt = some e →
    L.history u.id = some u ∨ ∃ a a' t n, L.Releases L' a a' ∧
      a.brokerAccountId = u.brokerAccountId ∧
      a.staticIpId = u.staticIpId ∧ a'.releasedAt = some t ∧ L.config.cooldown s = some n ∧
      t ∈ readings ∧ e = t + n * hour

section Steps

variable {s : Settings} {L L' L'' : Ledger} {readings : List Instant} {x : IpId} {b : BrokerId}
  {t : Instant} {n : Int} {S : IpAssignment → Prop} {a a' a'' : IpAssignment}

theorem Ledger.Releases.ne (h : L.Releases L' a a') : L'.assignments ≠ L.assignments := by
  intro heq
  have hsame := h.after
  rw [heq, h.before] at hsame
  exact h.live (Option.some_inj.mp hsame ▸ h.released)

/-- What the books say is in these two tables. -/
theorem Ledger.Books.congr (h : L.Books) (ha : L'.assignments = L.assignments)
    (hh : L'.history = L.history) : L'.Books := by
  have hactive : ∀ b a, L'.ActiveFor b a ↔ L.ActiveFor b a := by
    intro b a
    unfold Ledger.ActiveFor
    rw [ha]
  refine ⟨fun b a a' h₁ h₂ => h.one b a a' ((hactive b a).mp h₁) ((hactive b a').mp h₂),
    fun b a h₁ => ?_⟩
  unfold Ledger.Usage
  rw [hh]
  exact h.opened b a ((hactive b a).mp h₁)

theorem Ledger.Releases.congr (h : L.Releases L' a a') (ha : L''.assignments = L'.assignments) :
    L.Releases L'' a a' := ⟨h.before, h.live, by rw [ha, h.after], h.released⟩

theorem Bookkept.refl (h : L.Books) : Bookkept s L L readings where
  books := h
  ended _ _ hr := absurd rfl hr.ne
  closed _ hu _ := hu
  barring _ _ hu _ := .inl hu

theorem Bookkept.congr (h : Bookkept s L L' readings) (ha : L''.assignments = L'.assignments)
    (hh : L''.history = L'.history) : Bookkept s L L'' readings where
  books := h.books.congr ha hh
  ended a a' hr := by
    obtain ⟨t, n, ht, hrel, hn, u, hu, hclosed⟩ := h.ended a a' (hr.congr ha.symm)
    exact ⟨t, n, ht, hrel, hn, u, ⟨by rw [hh, hu.1], hu.2⟩, hclosed⟩
  closed u hu hne := by rw [hh, h.closed u hu hne]
  barring u e hu he := by
    rw [hh] at hu
    refine (h.barring u e hu he).imp_right ?_
    rintro ⟨a, a', t, n, hr, hends⟩
    exact ⟨a, a', t, n, hr.congr ha, hends⟩

theorem Bookkept.mono {readings' : List Instant} (h : Bookkept s L L' readings)
    (hmono : ∀ t ∈ readings, t ∈ readings') : Bookkept s L L' readings' where
  books := h.books
  ended a a' hr := by
    obtain ⟨t, n, ht, hrest⟩ := h.ended a a' hr
    exact ⟨t, n, hmono t ht, hrest⟩
  closed := h.closed
  barring u e hu he := by
    refine (h.barring u e hu he).imp_right ?_
    rintro ⟨a, a', t, n, hr, hb, hx, hrel, hn, ht, heq⟩
    exact ⟨a, a', t, n, hr, hb, hx, hrel, hn, hmono t ht, heq⟩

/-- An active assignment drains. -/
theorem Bookkept.draining {old : IpAssignment} (h : L.Books)
    (ha : L'.assignments = Function.update L.assignments old.id (some old.drainingNow))
    (hh : L'.history = L.history) : Bookkept s L L' readings where
  books := by
    have hactive : ∀ b a, L'.ActiveFor b a → L.ActiveFor b a := by
      rintro b a ⟨hrow, hb, hst⟩
      rw [ha, Function.update_apply] at hrow
      split at hrow
      · rw [← Option.some_inj.mp hrow] at hst
        cases hst
      · exact ⟨hrow, hb, hst⟩
    refine ⟨fun b a a' h₁ h₂ => h.one b a a' (hactive b a h₁) (hactive b a' h₂), fun b a h₁ => ?_⟩
    unfold Ledger.Usage
    rw [hh]
    exact h.opened b a (hactive b a h₁)
  ended a a' hend := by
    have hafter := hend.after
    rw [ha, Function.update_apply] at hafter
    split at hafter
    · have hst := hend.released
      rw [← Option.some_inj.mp hafter] at hst
      cases hst
    · have hsame := hend.before.symm.trans hafter
      exact absurd (Option.some_inj.mp hsame ▸ hend.released) hend.live
  closed u hu _ := hh ▸ hu
  barring u e hu _ := .inl (hh ▸ hu)

/-! ## Assignments that end -/

/-- These assignments of the IP end, and with them the open usage rows of their brokers. -/
structure Ledger.Closing (x : IpId) (t e : Instant) (S : IpAssignment → Prop) (L L' : Ledger) :
    Prop where
  ended : ∀ a, S a → L'.assignments a.id = some (a.endedAt t)
  others : ∀ j, (∀ a, S a → a.id ≠ j) → L'.assignments j = L.assignments j
  closed : ∀ a u, S a → L.Usage a.brokerAccountId x u → u.releasedAt = none →
    L'.history u.id = some (u.closedAt t e)
  untouched : ∀ u, L.history u.id = some u →
    ¬ (∃ a, S a ∧ L.Usage a.brokerAccountId x u ∧ u.releasedAt = none) → L'.history u.id = some u
  fresh : ∀ j, L.history j = none → L'.history j = none

theorem Ledger.Ends.closing {e : Instant} (h : L.Ends x t e S L') : L.Closing x t e S L' :=
  ⟨h.ended, h.others, h.closed, h.untouched, h.fresh⟩

namespace Ledger.Closing

variable {e : Instant}

/-- What is active afterwards was active, and not among these. -/
theorem active (h : L.Closing x t e S L') (ha : L'.ActiveFor b a) : L.ActiveFor b a ∧ ¬ S a := by
  obtain ⟨hrow, hb, hst⟩ := ha
  by_cases hex : ∃ a₀, S a₀ ∧ a₀.id = a.id
  · obtain ⟨a₀, hS, hid⟩ := hex
    have hended := h.ended a₀ hS
    rw [hid, hrow] at hended
    rw [Option.some_inj.mp hended] at hst
    cases hst
  · have hnone : ∀ a₀, S a₀ → a₀.id ≠ a.id := fun a₀ hS hid => hex ⟨a₀, hS, hid⟩
    exact ⟨⟨(h.others a.id hnone).symm.trans hrow, hb, hst⟩, fun hS => hnone a hS rfl⟩

/-- What is released is among these. -/
theorem mem_of_releases (h : L.Closing x t e S L') (hS : ∀ a, S a → L.ActiveOn x a)
    (hr : L.Releases L' a a') : S a ∧ a' = a.endedAt t := by
  by_cases hex : ∃ a₀, S a₀ ∧ a₀.id = a.id
  · obtain ⟨a₀, hS₀, hid⟩ := hex
    have hrow := (hS a₀ hS₀).1
    rw [hid, hr.before] at hrow
    obtain rfl := Option.some_inj.mp hrow
    exact ⟨hS₀, Option.some_inj.mp (hr.after.symm.trans (h.ended a hS₀))⟩
  · have hkept := h.others a.id fun a₀ hS₀ hid => hex ⟨a₀, hS₀, hid⟩
    rw [hr.before, hr.after] at hkept
    exact absurd (Option.some_inj.mp hkept ▸ hr.released) hr.live

theorem books (h : L.Closing x t e S L') (hL : L.Books) (hS : ∀ a, S a → L.ActiveOn x a) :
    L'.Books where
  one b a a' h₁ h₂ := hL.one b a a' (h.active h₁).1 (h.active h₂).1
  opened b a ha := by
    obtain ⟨hact, hnot⟩ := h.active ha
    obtain ⟨u, hu, hopen⟩ := hL.opened b a hact
    refine ⟨u, ⟨h.untouched u hu.1 ?_, hu.2⟩, hopen⟩
    -- Its row would be that of an assignment of the same broker that ends: the same one.
    rintro ⟨a₀, hS₀, hu₀, _⟩
    obtain ⟨hrow, _, hst⟩ := hS a₀ hS₀
    have hsame := hL.one b a₀ a ⟨hrow, hu₀.2.1.symm.trans hu.2.1, hst⟩ hact
    exact hnot (hsame ▸ hS₀)

end Ledger.Closing

theorem Bookkept.closing (hL : L.Books) (hS : ∀ a, S a → L.ActiveOn x a)
    (h : L.Closing x t (t + n * hour) S L') (hn : L.config.cooldown s = some n)
    (ht : t ∈ readings) : Bookkept s L L' readings where
  books := h.books hL hS
  ended a a' hr := by
    obtain ⟨hmem, rfl⟩ := h.mem_of_releases hS hr
    obtain ⟨hrow, hx, hst⟩ := hS a hmem
    obtain ⟨u, hu, hopen⟩ := hL.opened a.brokerAccountId a ⟨hrow, rfl, hst⟩
    refine ⟨t, n, ht, rfl, hn, u.closedAt t (t + n * hour), ⟨?_, hu.2⟩, Option.some_ne_none t, rfl⟩
    rw [hx] at hu
    exact h.closed a u hmem hu hopen
  closed u hu hne := h.untouched u hu fun ⟨_, _, _, hopen⟩ => hne hopen
  barring u e hu he := by
    cases hrow : L.history u.id with
    | none => cases hu.symm.trans (h.fresh u.id hrow)
    | some u₀ =>
        have hid : u₀.id = u.id := L.usage_id _ _ hrow
        have hself : L.history u₀.id = some u₀ := by rw [hid, hrow]
        by_cases hc : ∃ a, S a ∧ L.Usage a.brokerAccountId x u₀ ∧ u₀.releasedAt = none
        · obtain ⟨a, hmem, hu₀, hopen⟩ := hc
          have hclosed := h.closed a u₀ hmem hu₀ hopen
          rw [hid, hu] at hclosed
          obtain rfl := Option.some_inj.mp hclosed
          obtain ⟨ha, hx, hst⟩ := hS a hmem
          have hlive : a.status ≠ .released := by
            rw [hst]
            exact fun heq => by cases heq
          refine .inr ⟨a, a.endedAt t, t, n, ⟨ha, hlive, h.ended a hmem, rfl⟩, hu₀.2.1.symm,
            hx.trans hu₀.2.2.symm, rfl, hn, ht, ?_⟩
          exact (Option.some_inj.mp he).symm
        · have hkept := h.untouched u₀ hself hc
          rw [hid, hu] at hkept
          exact .inl (by rw [Option.some_inj.mp hkept])

/-! ## An assignment that is added -/

/-- A new active assignment, with its open usage row, for a broker that has none. -/
structure Ledger.Adds (b : BrokerId) (L L' : Ledger) (a : IpAssignment)
    (u : BrokerIpUsageHistory) : Prop where
  assignments : L'.assignments = Function.update L.assignments a.id (some a)
  history : L'.history = Function.update L.history u.id (some u)
  new : L.assignments a.id = none ∧ L.history u.id = none
  idle : ∀ a', ¬ L.ActiveFor b a'
  holder : a.brokerAccountId = b ∧ u.brokerAccountId = b
  ip : u.staticIpId = a.staticIpId
  active : a.status = .active
  opened : u.releasedAt = none ∧ u.reuseEligibleAt = none

namespace Ledger.Adds

variable {u : BrokerIpUsageHistory}

theorem assignments_of (h : L.Adds b L' a u) {i : AssignmentId} (hi : L.assignments i = some a') :
    L'.assignments i = some a' := by
  rw [h.assignments, Function.update_of_ne (fun heq => by rw [heq, h.new.1] at hi; cases hi), hi]

theorem history_of (h : L.Adds b L' a u) {i : HistoryId} {u' : BrokerIpUsageHistory}
    (hi : L.history i = some u') : L'.history i = some u' := by
  rw [h.history, Function.update_of_ne (fun heq => by rw [heq, h.new.2] at hi; cases hi), hi]

theorem usage_of (h : L.Adds b L' a u) {u' : BrokerIpUsageHistory} {b' : BrokerId} {x : IpId}
    (hu : L.Usage b' x u') : L'.Usage b' x u' := ⟨h.history_of hu.1, hu.2⟩

theorem active_cases (h : L.Adds b L' a u) {c : BrokerId} (ha : L'.ActiveFor c a') :
    a' = a ∧ c = b ∨ L.ActiveFor c a' ∧ c ≠ b := by
  obtain ⟨hrow, hb, hst⟩ := ha
  rw [h.assignments, Function.update_apply] at hrow
  split at hrow
  · obtain rfl := Option.some_inj.mp hrow
    exact .inl ⟨rfl, hb.symm.trans h.holder.1⟩
  · have hact : L.ActiveFor c a' := ⟨hrow, hb, hst⟩
    exact .inr ⟨hact, fun heq => h.idle a' (heq ▸ hact)⟩

theorem books (h : L.Adds b L' a u) (hL : L.Books) : L'.Books where
  one b' a₁ a₂ h₁ h₂ := by
    rcases h.active_cases h₁ with ⟨rfl, hb⟩ | ⟨h₁, hb⟩
    · rcases h.active_cases h₂ with ⟨rfl, _⟩ | ⟨_, hb'⟩
      · rfl
      · exact absurd hb hb'
    · rcases h.active_cases h₂ with ⟨_, hb'⟩ | ⟨h₂, _⟩
      · exact absurd hb' hb
      · exact hL.one b' a₁ a₂ h₁ h₂
  opened b' a' ha := by
    rcases h.active_cases ha with ⟨rfl, rfl⟩ | ⟨ha, _⟩
    · refine ⟨u, ⟨?_, h.holder.2, h.ip⟩, h.opened.1⟩
      rw [h.history]
      exact Function.update_self ..
    · obtain ⟨u', hu', hopen⟩ := hL.opened b' a' ha
      exact ⟨u', h.usage_of hu', hopen⟩

theorem releases (h : L'.Adds b L'' a u) (hr : L.Releases L'' a' a'') : L.Releases L' a' a'' := by
  refine ⟨hr.before, hr.live, ?_, hr.released⟩
  have hafter := hr.after
  rw [h.assignments, Function.update_apply] at hafter
  split at hafter
  · have hst := h.active
    rw [Option.some_inj.mp hafter, hr.released] at hst
    cases hst
  · exact hafter

end Ledger.Adds

/-- One is added in the end. -/
theorem Bookkept.adding {u : BrokerIpUsageHistory} (h : Bookkept s L L' readings)
    (hadd : L'.Adds b L'' a u) :
    Bookkept s L L'' readings where
  books := hadd.books h.books
  ended a₁ a₁' hr := by
    obtain ⟨t, n, ht, hrel, hn, u', hu', hclosed⟩ := h.ended a₁ a₁' (hadd.releases hr)
    exact ⟨t, n, ht, hrel, hn, u', hadd.usage_of hu', hclosed⟩
  closed u' hu' hne := hadd.history_of (h.closed u' hu' hne)
  barring u' e hu' he := by
    rw [hadd.history, Function.update_apply] at hu'
    split at hu'
    · rw [← Option.some_inj.mp hu', hadd.opened.2] at he
      cases he
    · rcases h.barring u' e hu' he with hrow | ⟨a₁, a₁', t, n, hr, hends⟩
      · exact .inl hrow
      · exact .inr ⟨a₁, a₁', t, n, ⟨hr.before, hr.live, hadd.assignments_of hr.after,
          hr.released⟩, hends⟩

end Steps

/-! ## The calls -/

section Calls

variable {s : Settings} {F : Req → Prop} {sc sc' : Scene} {b : BrokerId} {x : IpId}

theorem Assigned.adds {ip : StaticIp} {a : IpAssignment} {u : BrokerIpUsageHistory}
    (h : Assigned b x sc ip a u sc') : sc.kept.Adds b sc'.kept a u := by
  have hkept : sc'.kept.assignments = Function.update sc.kept.assignments a.id (some a) ∧
      sc'.kept.history = Function.update sc.kept.history u.id (some u) := by
    rw [h.kept]
    unfold Ledger.assigned
    split <;> exact ⟨rfl, rfl⟩
  have hrow := h.row
  have husage := h.usage
  exact
    { assignments := hkept.1
      history := hkept.2
      new := h.new
      idle := h.idle
      holder := by
        rw [hrow, husage]
        exact ⟨rfl, rfl⟩
      ip := by rw [hrow, husage]
      active := by rw [hrow]
      opened := by
        rw [husage]
        exact ⟨rfl, rfl⟩ }

theorem Released.bookkept {ip : StaticIp} {t : Instant} {n : Int} {L' : Ledger}
    (h : Released s x sc ip t n L' sc') (hL : sc.kept.Books) :
    Bookkept s sc.kept sc'.kept sc'.readings := by
  have hkeeps : Bookkept s sc.kept L' sc'.readings :=
    .closing hL (fun _ => id) h.ends.closing h.cooldown h.time
  refine hkeeps.congr ?_ ?_ <;> rw [h.kept] <;> rfl

section Rotation

variable {force : Bool} {r r' : Rotation} {sc₁ sc₂ : Scene}

/-- The tables of the books, and the configuration. -/
structure Ledger.SameBooks (L L' : Ledger) : Prop where
  assignments : L'.assignments = L.assignments
  history : L'.history = L.history
  config : L'.config = L.config

theorem Begun.same (h : Begun b force sc r sc₁) : sc.kept.SameBooks sc₁.kept := by
  rw [h.allocated.kept]
  exact ⟨rfl, rfl, rfl⟩

theorem Placed.same {L L' : Ledger} {C C' : Cloud} {ip : StaticIp} (h : Placed r L C ip L' C') :
    L.SameBooks L' := by
  cases h <;> exact ⟨rfl, rfl, rfl⟩

theorem Ledger.SameBooks.trans {L L' L'' : Ledger} (h : L.SameBooks L') (h' : L'.SameBooks L'') :
    L.SameBooks L'' :=
  ⟨h'.assignments.trans h.assignments, h'.history.trans h.history, h'.config.trans h.config⟩

theorem Ledger.SameBooks.bookkept {L L' : Ledger} {readings : List Instant} (h : L.SameBooks L')
    (hL : L.Books) : Bookkept s L L' readings := (Bookkept.refl hL).congr h.assignments h.history

/-- The books while the old assignment drains, seen from where the rotation began. -/
structure Rotation.Draining (r : Rotation) (L L' : Ledger) : Prop where
  assignments : L'.assignments =
    Function.update L.assignments r.oldAssignment.id (some r.oldAssignment.drainingNow)
  history : L'.history = L.history
  config : L'.config = L.config

theorem Drains.books (hbegun : Begun b force sc r sc₁) (h : Drains r sc₁ r' sc₂) :
    r.Draining sc.kept sc₂.kept := by
  obtain ⟨L, hplaced, hkept⟩ := h.placed
  have hsame := hbegun.same.trans hplaced.same
  rw [hkept]
  exact ⟨congrArg (Function.update · _ _) hsame.assignments, hsame.history, hsame.config⟩

/-- What the cutover does to the books, seen from there too. -/
theorem Rotation.Ends.closing {t : Instant} {n : Int} {L' : Ledger}
    (hbegun : Begun b force sc r sc₁)
    (hdrains : Drains r sc₁ r' sc₂) (h : r'.Ends t n sc₂.kept L') :
    sc.kept.Closing r.oldAssignment.staticIpId t (t + n * hour) (· = r.oldAssignment) L' := by
  obtain ⟨hbroker, -, hip, hold⟩ := hdrains.old
  have hbooks := hdrains.books hbegun
  have hx : r'.oldIp.id = r.oldAssignment.staticIpId := by
    rw [hip, sc.kept.ip_id _ _ hbegun.oldIp]
  have hholder : r'.broker = r.oldAssignment.brokerAccountId := by
    rw [hbroker, hbegun.broker, hbegun.active.2.1]
  have hopen : ∀ u, r'.Open sc₂.kept u ↔
      sc.kept.Usage r.oldAssignment.brokerAccountId r.oldAssignment.staticIpId u ∧
        u.releasedAt = none := by
    intro u
    unfold Rotation.Open Ledger.Usage
    rw [hbooks.history, hholder, hx]
  have hassignments : L'.assignments =
      Function.update sc.kept.assignments r.oldAssignment.id
        (some (r.oldAssignment.endedAt t)) := by
    rw [h.assignments]
    show Function.update sc₂.kept.assignments r'.oldAssignment.id
      (some (r'.oldAssignment.endedAt t)) = _
    rw [hbooks.assignments, hold]
    exact Function.update_idem ..
  exact
    { ended := by
        rintro _ rfl
        rw [hassignments]
        exact Function.update_self ..
      others := fun j hj => by
        rw [hassignments]
        exact Function.update_of_ne (fun heq => hj _ rfl heq.symm) ..
      closed := by
        rintro _ u rfl hu hnone
        exact h.closed u ((hopen u).mpr ⟨hu, hnone⟩)
      untouched := fun u hu hnot => by
        refine (h.others u.id fun u' hu' heq => hnot ?_).trans
          ((congrFun hbooks.history _).trans hu)
        obtain ⟨hu₁, hnone⟩ := (hopen u').mp hu'
        have hrow := hu₁.1
        rw [heq, hu] at hrow
        exact ⟨_, rfl, Option.some_inj.mp hrow ▸ hu₁, Option.some_inj.mp hrow ▸ hnone⟩
      fresh := fun j hj => by
        refine (h.others j fun u hu heq => ?_).trans ((congrFun hbooks.history j).trans hj)
        have hrow := ((hopen u).mp hu).1.1
        rw [heq, hj] at hrow
        cases hrow }

theorem Begun.activeOn (h : Begun b force sc r sc₁) :
    ∀ a, a = r.oldAssignment → sc.kept.ActiveOn r.oldAssignment.staticIpId a := by
  rintro _ rfl
  exact ⟨h.active.1, rfl, h.active.2.2⟩

/-- The abort puts the old assignment back. -/
theorem Drains.aborted (hbegun : Begun b force sc r sc₁) (h : Drains r sc₁ r' sc₂) (ip : StaticIp) :
    sc.kept.SameBooks (r'.aborted sc₂.kept ip) := by
  have hbooks := h.books hbegun
  have hold := h.old.2.2.2
  have hback : ({ r'.oldAssignment with status := .active } : IpAssignment) = r.oldAssignment := by
    rw [hold]
    show ({ r.oldAssignment with status := .active } : IpAssignment) = r.oldAssignment
    rw [← hbegun.active.2.2]
  refine ⟨?_, hbooks.history, hbooks.config⟩
  show Function.update sc₂.kept.assignments r'.oldAssignment.id (some { r'.oldAssignment with
    status := .active }) = _
  rw [hback, hold, hbooks.assignments]
  refine (Function.update_idem ..).trans ?_
  refine funext fun i => ?_
  rw [Function.update_apply]
  split
  · next hi => rw [hi, hbegun.active.1]
  · rfl

/-- What a rotation that has not cut over may have done to the books. -/
inductive Rotation.MidBooks (s : Settings) (r : Rotation) (L : Ledger) (readings : List Instant)
    (L' : Ledger) : Prop
  | same (h : L.SameBooks L')
  | draining (h : r.Draining L L')
  | ended (t : Instant) (n : Int) (cooldown : L.config.cooldown s = some n) (time : t ∈ readings)
      (h : L.Closing r.oldAssignment.staticIpId t (t + n * hour) (· = r.oldAssignment) L')

/-- What a rotation that has not cut over may have left: of the IPs the new one alone is added,
wherever it is by now, and it is announced. -/
structure Rotation.Midway (s : Settings) (r : Rotation) (L : Ledger) (readings : List Instant)
    (L' : Ledger) : Prop where
  books : r.MidBooks s L readings L'
  ips : ∃ i st, L'.ips =
    Function.update L.ips r.newIp.id (some { r.newIp with instanceId := i, status := st })
  outbox : L'.outbox =
    L.outbox ++ [{ payload := .ipAllocated r.newIp.id r.newIp.ipAddress r.newIp.region }]

/-- The row of the new IP changes. -/
theorem Rotation.Midway.putNew {L L' : Ledger} {readings : List Instant} {ip : StaticIp}
    (h : r.Midway s L readings L')
    (hip : ∃ i st, ip = { r.newIp with instanceId := i, status := st }) :
    r.Midway s L readings (L'.putIp ip) := by
  obtain ⟨i, st, rfl⟩ := hip
  obtain ⟨_, _, hips⟩ := h.ips
  refine ⟨?_, ⟨i, st, ?_⟩, h.outbox⟩
  · cases h.books with
    | same h => exact .same ⟨h.assignments, h.history, h.config⟩
    | draining h => exact .draining ⟨h.assignments, h.history, h.config⟩
    | ended t n hn ht h =>
        exact .ended t n hn ht ⟨h.ended, h.others, h.closed, h.untouched, h.fresh⟩
  · show Function.update L'.ips r.newIp.id _ = _
    rw [hips, Function.update_idem]

theorem Begun.midway (h : Begun b force sc r sc₁) (readings : List Instant) :
    r.Midway s sc.kept readings sc₁.kept := by
  refine ⟨.same h.same, ⟨r.newIp.instanceId, r.newIp.status, ?_⟩, ?_⟩ <;>
    rw [h.allocated.kept] <;> rfl

theorem Placed.midway {L : Ledger} {C C' : Cloud} {ip : StaticIp} {readings : List Instant}
    (hbegun : Begun b force sc r sc₁) (h : Placed r sc₁.kept C ip L C') :
    r.Midway s sc.kept readings L := by
  rw [h.ledger hbegun.in'.newIp]
  obtain ⟨i, st, hip, -⟩ := h.row
  exact (hbegun.midway readings).putNew ⟨i, st, hip⟩

theorem Drains.newRow (h : Drains r sc₁ r' sc₂) :
    ∃ i st, r'.newIp = { r.newIp with instanceId := i, status := st } := by
  obtain ⟨L, hplaced, -⟩ := h.placed
  obtain ⟨i, st, hip, -⟩ := hplaced.row
  exact ⟨i, st, hip⟩

theorem Drains.midway (hbegun : Begun b force sc r sc₁) (h : Drains r sc₁ r' sc₂)
    (readings : List Instant) : r.Midway s sc.kept readings sc₂.kept := by
  obtain ⟨L, hplaced, hkept⟩ := h.placed
  have hmid : r.Midway s sc.kept readings L := hplaced.midway hbegun
  refine ⟨.draining (h.books hbegun), ?_, ?_⟩ <;> rw [hkept]
  · exact hmid.ips
  · exact hmid.outbox

theorem Cleaned.row {ip ip' : StaticIp} (h : Cleaned F ip ip')
    (hip : ∃ i st, ip = { r.newIp with instanceId := i, status := st }) :
    ∃ i st, ip' = { r.newIp with instanceId := i, status := st } := by
  obtain ⟨i, rfl, -⟩ := h
  obtain ⟨_, _, rfl⟩ := hip
  exact ⟨i, .released, rfl⟩

/-- Where a rotation stops, whatever is committed and whatever is pending. -/
theorem Stopped.midway (hbegun : Begun b force sc r sc₁) (h : Stopped F s r sc₁ sc') :
    r.Midway s sc.kept sc'.readings sc'.kept ∧
      ∀ L, sc'.draft = some L → r.Midway s sc.kept sc'.readings L := by
  have hsettled : sc'.Settled F → r.Midway s sc.kept sc'.readings sc'.kept →
      ∀ L, sc'.draft = some L → r.Midway s sc.kept sc'.readings L := by
    rintro (hd | ⟨-, hd⟩) hkept L hL
    · obtain rfl : sc'.kept = L := Option.some_inj.mp (hd.symm.trans hL)
      exact hkept
    · cases hd.symm.trans hL
  cases h with
  | undrained h =>
      obtain ⟨y, C, hplaced, -⟩ := h.placed
      have hkept : r.Midway s sc.kept sc'.readings sc'.kept := hplaced.midway hbegun
      exact ⟨hkept, hsettled h.settled hkept⟩
  | draining r' sc₂ hdrains hkept hdraft =>
      have hdraining : r.Midway s sc.kept sc'.readings sc'.kept := by
        rw [hkept]
        exact hdrains.midway hbegun _
      refine ⟨hdraining, fun L hL => ?_⟩
      rcases hdraft with hd | hd
      · obtain rfl : sc'.kept = L := Option.some_inj.mp (hd.symm.trans hL)
        exact hdraining
      · cases hd.symm.trans hL
  | aborting r' sc₂ hdrains hundone habort =>
      have hmid : r.Midway s sc.kept sc'.readings sc₂.kept := hdrains.midway hbegun _
      obtain ⟨i, st, hrow⟩ := hdrains.newRow
      cases habort with
      | half hkept hhalf =>
          refine ⟨hkept ▸ hmid, fun L hL => ?_⟩
          rcases hhalf with hd | hd | hd
          · cases hd.symm.trans hL
          · cases hd.symm.trans hL
            exact hmid
          · cases hd.symm.trans hL
            exact hmid.putNew ⟨none, st, by rw [hrow]⟩
      | done ip hclean hkept hset =>
          have hput := hmid.putNew (hclean.row ⟨i, st, hrow⟩)
          have hback : r.Midway s sc.kept sc'.readings sc'.kept := by
            rw [hkept]
            exact ⟨.same (hdrains.aborted hbegun ip), hput.ips, hput.outbox⟩
          exact ⟨hback, hsettled hset hback⟩
  | cutting r' sc₂ t n L' hdrains hcut =>
      have hmid : r.Midway s sc.kept sc'.readings sc₂.kept := hdrains.midway hbegun _
      have hconfig := (hdrains.books hbegun).config
      refine ⟨hcut.kept ▸ hmid, fun L hL => ?_⟩
      cases hcut.draft.symm.trans hL
      refine ⟨.ended t n ?_ hcut.time (hcut.ends.closing hbegun hdrains), ?_, ?_⟩
      · rw [← hconfig]
        exact hcut.cooldown
      · rw [hcut.ends.ips]
        exact hmid.ips
      · rw [hcut.ends.outbox]
        exact hmid.outbox

/-- The clean-up leaves one of these states too. -/
theorem Stopped.midway_discarded (hbegun : Begun b force sc r sc₁) (h : Stopped F s r sc₁ sc₂)
    (hclean : Discarded F r.newIp.id sc₂ sc') : r.Midway s sc.kept sc₂.readings sc'.kept := by
  obtain ⟨hkept, hdraft⟩ := h.midway hbegun
  rcases hclean.kept with heq | ⟨L, ip, ip', hd, hfound, hcleaned, heq⟩
  · exact heq ▸ hkept
  · have hmid := hdraft L hd
    obtain ⟨i, st, hips⟩ := hmid.ips
    rw [hips, Function.update_self] at hfound
    rw [heq]
    exact hmid.putNew (hcleaned.row ⟨i, st, (Option.some_inj.mp hfound).symm⟩)

theorem Rotation.Midway.bookkept {L : Ledger} {readings : List Instant}
    (h : r.Midway s sc.kept readings L) (hbegun : Begun b force sc r sc₁) (hL : sc.kept.Books) :
    Bookkept s sc.kept L readings := by
  cases h.books with
  | same h => exact h.bookkept hL
  | draining h => exact .draining hL h.assignments h.history
  | ended t n hn ht h => exact .closing hL hbegun.activeOn h hn ht

theorem Unrotated.bookkept (h : Unrotated F s b force sc sc') (hL : sc.kept.Books) :
    Bookkept s sc.kept sc'.kept sc'.readings := by
  cases h with
  | before region h =>
      rcases h with h | ⟨ip, h⟩
      · rw [h.kept]
        exact .refl hL
      · refine (Bookkept.refl hL).congr ?_ ?_ <;> rw [h.kept] <;> rfl
  | after r sc₁ sc₂ hbegun hstop hclean hread =>
      exact ((hstop.midway_discarded hbegun hclean).bookkept hbegun hL).mono hread

/-- The old assignment has ended, and the new one is there. -/
theorem Rotated.bookkept {drained whitelistOk : Bool} {t : Instant} {n : Int} {L' : Ledger}
    {a : IpAssignment} {u : BrokerIpUsageHistory}
    (h : Rotated F s b force sc r sc₁ r' drained whitelistOk sc₂ t n L' a u sc')
    (hL : sc.kept.Books) : Bookkept s sc.kept sc'.kept sc'.readings := by
  have hclosing := h.moved.cut.ends.closing h.begun h.moved.drains
  have hended : Bookkept s sc.kept L' sc'.readings :=
    .closing hL h.begun.activeOn hclosing h.cooldown h.moved.cut.time
  obtain ⟨hnone, ha⟩ := h.assignment_new
  obtain ⟨hunone, -, hu⟩ := h.history_new
  have hne : ∀ a', a' = r.oldAssignment → a'.id ≠ a.id := by
    rintro _ rfl heq
    rw [← heq, h.begun.active.1] at hnone
    cases hnone
  refine hended.adding (b := b) (a := a) (u := u) ?_
  exact
    { assignments := by
        rw [h.moved.cut.kept]
        rfl
      history := by
        rw [h.moved.cut.kept]
        rfl
      new := ⟨(hclosing.others a.id hne).trans hnone, hclosing.fresh u.id hunone⟩
      idle := fun a' ha' => by
        obtain ⟨hact, hnot⟩ := hclosing.active ha'
        exact hnot (hL.one b a' r.oldAssignment hact h.begun.active)
      holder := by
        rw [ha, hu]
        exact ⟨rfl, rfl⟩
      ip := by rw [ha, hu]
      active := by rw [ha]
      opened := by
        rw [hu]
        exact ⟨rfl, rfl⟩ }

end Rotation

/-! ## Every call -/

theorem Ended.bookkept {Done : Scene → Prop} (h : Ended F sc Done sc') (hL : sc.kept.Books)
    (hdone : Done sc' → Bookkept s sc.kept sc'.kept sc'.readings) :
    Bookkept s sc.kept sc'.kept sc'.readings := by
  cases h with
  | same h =>
      rw [h.kept]
      exact .refl hL
  | ahead hF hkept =>
      rw [hkept]
      exact .refl hL
  | done h => exact hdone h

/-- A call on static IPs leaves the books in order. -/
theorem Call.Ends.bookkept {c : Call} {x : Except Exn Reply} (h : c.Ends s F sc x sc')
    (hL : sc.kept.Books) : Bookkept s sc.kept sc'.kept sc'.readings := by
  have hsame : sc.kept.SameBooks sc'.kept → Bookkept s sc.kept sc'.kept sc'.readings :=
    fun h => h.bookkept hL
  have hallocated : ∀ {region ip}, Allocated region sc ip sc' → sc.kept.SameBooks sc'.kept := by
    intro region ip h
    rw [h.kept]
    exact ⟨rfl, rfl, rfl⟩
  have hattached : ∀ {x i ip inst}, Attached x i sc ip inst sc' → sc.kept.SameBooks sc'.kept := by
    intro x i ip inst h
    rw [h.kept]
    exact ⟨rfl, rfl, rfl⟩
  have hdetached : ∀ {x ip}, Detached x sc ip sc' → sc.kept.SameBooks sc'.kept := by
    intro x ip h
    rw [h.kept]
    exact ⟨rfl, rfl, rfl⟩
  rcases h with ⟨y, -, h⟩ | ⟨e, -, h⟩
  · cases c with
    | allocateIp region =>
        cases y with
        | ip ip => exact hsame (hallocated h)
        | _ => cases h
    | assign x b c =>
        cases y with
        | assignment a =>
            obtain ⟨ip, a, u, h⟩ := h
            exact (Bookkept.refl hL).adding h.adds
        | _ => cases h
    | attach x i =>
        cases y with
        | ip ip =>
            obtain ⟨ip, inst, h⟩ := h
            exact hsame (hattached h)
        | _ => cases h
    | detach x =>
        cases y with
        | ip ip =>
            obtain ⟨ip, h⟩ := h
            exact hsame (hdetached h)
        | _ => cases h
    | release x =>
        cases y with
        | ip ip =>
            obtain ⟨ip, t, n, L', h⟩ := h
            exact h.bookkept hL
        | _ => cases h
    | rotate b force =>
        cases y with
        | rotated y =>
            obtain ⟨r, sc₁, r', ok, sc₂, t, n, L', a, u, h⟩ := h
            exact h.bookkept hL
        | _ => cases h
    | _ => cases h
  · cases c with
    | allocateIp region =>
        rcases h with h | ⟨ip, h⟩
        · exact hsame (by rw [h.kept]; exact ⟨rfl, rfl, rfl⟩)
        · exact hsame (hallocated h)
    | assign x b c =>
        rcases h with h | ⟨-, ip, a, u, h⟩
        · exact hsame (by rw [h.kept]; exact ⟨rfl, rfl, rfl⟩)
        · exact (Bookkept.refl hL).adding h.adds
    | attach x i => exact Ended.bookkept h hL fun ⟨_, _, h⟩ => hsame (hattached h)
    | detach x => exact Ended.bookkept h hL fun ⟨_, h⟩ => hsame (hdetached h)
    | release x => exact Ended.bookkept h hL fun ⟨_, _, _, _, h⟩ => h.bookkept hL
    | rotate b force =>
        rcases h with h | ⟨r, sc₁, r', drained, ok, sc₂, t, n, L', a, u, h⟩
        · exact h.bookkept hL
        · exact h.bookkept hL
    | _ => cases h

end Calls

end BrokerBridge
