import BrokerBridge.Ips.Books

/-!
# The reuse cooldown

In a sequential run of calls on static IPs, whatever fails in them, the ledger keeps what
the cooldown needs to know of the calls so far: each end of an assignment has left a usage
row that bars the broker from the IP, and no other row bars anything.
-/

namespace BrokerBridge

open Conc

/-- In this call an assignment of the broker to the IP has become released, at time `t` and
with a cooldown of `n` hours in force. -/
def Entry.Releases (s : Settings) (E : Entry) (b : BrokerId) (x : IpId) (t : Instant) (n : Int) :
    Prop :=
  ∃ a a', E.before.db.ledger.Releases E.after.db.ledger a a' ∧ a.brokerAccountId = b ∧
    a.staticIpId = x ∧ a'.releasedAt = some t ∧ E.before.db.config.cooldown s = some n

/-- What the cooldown demands of a call, after those in `past`. -/
structure Cooled (s : Settings) (past : List Entry) (E : Entry) : Prop where
  timed : ∀ a a', E.before.db.ledger.Releases E.after.db.ledger a a' →
    ∃ t n, t ∈ E.readings ∧ a'.releasedAt = some t ∧ E.before.db.config.cooldown s = some n
  observed : ∀ b x c y, E.call = .assign x b c → E.reply = .ok y →
    E.readings ≠ [] ∧
      ∀ E₀ ∈ past, ∀ t n, E₀.Releases s b x t n → ∀ t' ∈ E.readings, t + n * hour ≤ t'
  justified : ∀ b x c err, E.call = .assign x b c → E.reply = .error err → err.refusesReuse →
    ∃ E₀ ∈ past, ∃ t n, E₀.Releases s b x t n ∧ ∃ t' ∈ E.readings, t ≤ t' ∧ t' < t + n * hour

/-- What the ledger keeps of the calls in `past`. -/
structure Remembers (s : Settings) (past : List Entry) (w : World) : Prop where
  books : w.db.ledger.Books
  barred : ∀ E ∈ past, ∀ b x t n, E.Releases s b x t n → w.db.ledger.Barred b x (t + n * hour)
  origin : ∀ b x u e, w.db.ledger.Usage b x u → u.reuseEligibleAt = some e →
    ∃ E ∈ past, ∃ t n, E.Releases s b x t n ∧ e = t + n * hour ∧ t ≤ w.clock

section Calls

variable {s : Settings} {F : Req → Prop} {w : World} {c : Call} {env : Nat → Nat × Env}
  {past : List Entry}

/-- How a call of a run has ended, and that its books are in order. -/
theorem entry_ends (hc : c.onIps = true) (henv : c.Meets s env w F) (hL : w.db.ledger.Books) :
    ∃ sc', sc'.Left (Deed.entry s c env w).after (Deed.entry s c env w).readings ∧
      c.Ends s F w.scene (Deed.entry s c env w).reply sc' ∧
      Bookkept s w.db.ledger (Deed.entry s c env w).after.db.ledger
        (Deed.entry s c env w).readings := by
  obtain ⟨sc', hleft, hends⟩ := Call.ends hc henv
  have hkeeps := hends.bookkept hL
  rw [← hleft.kept, hleft.readings] at hkeeps
  exact ⟨sc', hleft, hends, hkeeps⟩

theorem entry_readings {t : Instant} (ht : t ∈ (Deed.entry s c env w).readings) :
    w.clock ≤ t ∧ t ≤ (Deed.entry s c env w).after.clock := by
  obtain ⟨ts, hts, hin⟩ := (Call.onward s c env w).readings
  rw [List.nil_append] at hts
  exact hin t (hts ▸ ht)

/-- The call is remembered with the others. -/
theorem Remembers.call (h : Remembers s past w) (hc : c.onIps = true) (henv : c.Meets s env w F) :
    Remembers s (past ++ [Deed.entry s c env w]) (Deed.entry s c env w).after := by
  obtain ⟨sc', -, -, hkeeps⟩ := entry_ends hc henv h.books
  refine ⟨hkeeps.books, fun E hE b x t n hr => ?_, fun b x u e hu he => ?_⟩
  · rcases List.mem_append.mp hE with hE | hE
    · -- A row that barred before is closed, and stays.
      obtain ⟨u, hu, hclosed, he⟩ := h.barred E hE b x t n hr
      exact ⟨u, ⟨hkeeps.closed u hu.1 hclosed, hu.2⟩, hclosed, he⟩
    · rw [List.mem_singleton.mp hE] at hr
      obtain ⟨a, a', hends, rfl, rfl, hrel, hn⟩ := hr
      obtain ⟨t', n', -, hrel', hn', hbarred⟩ := hkeeps.ended a a' hends
      obtain rfl : t' = t := Option.some_inj.mp (hrel'.symm.trans hrel)
      obtain rfl : n' = n := Option.some_inj.mp (hn'.symm.trans hn)
      exact hbarred
  · rcases hkeeps.barring u e hu.1 he with hold | ⟨a, a', t, n, hends, hb, hx, hrel, hn, ht, heq⟩
    · obtain ⟨E, hE, t, n, hr, heq, ht⟩ := h.origin b x u e ⟨hold, hu.2⟩ he
      exact ⟨E, List.mem_append_left _ hE, t, n, hr, heq, ht.trans (Call.onward s c env w).clock⟩
    · refine ⟨Deed.entry s c env w, List.mem_append_right _ (List.mem_singleton_self _), t, n,
        ⟨a, a', hends, hb.trans hu.2.1, hx.trans hu.2.2, hrel, hn⟩, heq, (entry_readings ht).2⟩

/-- And it observes what is remembered of them. -/
theorem Remembers.cooled (h : Remembers s past w) (hc : c.onIps = true) (henv : c.Meets s env w F) :
    Cooled s past (Deed.entry s c env w) := by
  obtain ⟨sc', hleft, hends, hkeeps⟩ := entry_ends hc henv h.books
  refine ⟨fun a a' hr => ?_, fun b x client y hcall hreply => ?_,
    fun b x client err hcall hreply hrefuses => ?_⟩
  · obtain ⟨t, n, ht, hrel, hn, -⟩ := hkeeps.ended a a' hr
    exact ⟨t, n, ht, hrel, hn⟩
  · obtain rfl : c = .assign x b client := hcall
    rcases hends with ⟨y', -, hdone⟩ | ⟨e, he, -⟩
    · cases y' with
      | assignment a =>
          obtain ⟨ip, a, u, hassigned⟩ := hdone
          obtain ⟨t₁, t₂, hle, hread, hfree⟩ := hassigned.times
          rw [← hleft.readings, hread]
          refine ⟨List.cons_ne_nil t₁ [t₂], fun E₀ hE₀ t n hr t' ht' => ?_⟩
          obtain ⟨u', hu', -, he⟩ := h.barred E₀ hE₀ b x t n hr
          have hbound : t + n * hour ≤ t₁ := hfree u' _ hu' he
          have hmem : t' ∈ [t₁, t₂] := ht'
          rcases List.mem_pair.mp hmem with rfl | rfl
          · exact hbound
          · exact hbound.trans hle
      | _ => cases hdone
    · cases hreply.symm.trans he
  · obtain rfl : c = .assign x b client := hcall
    rcases hends with ⟨y, hy, -⟩ | ⟨e, he, hraised⟩
    · cases hreply.symm.trans hy
    · obtain rfl : err = e := Except.error.inj (hreply.symm.trans he)
      rcases hraised with hraised | ⟨hplain, -⟩
      · obtain ⟨u, e, hu, he, t', ht', hlt⟩ := hraised.refused hrefuses
        obtain ⟨E₀, hE₀, t, n, hr, rfl, ht⟩ := h.origin b x u e hu he
        have hread : t' ∈ (Deed.entry s (.assign x b client) env w).readings := hleft.readings ▸ ht'
        exact ⟨E₀, hE₀, t, n, hr, t', hread, ht.trans (entry_readings hread).1, hlt⟩
      · exact absurd hrefuses hplain.not_refuses

theorem Remembers.configure (h : Remembers s past w) (config : Config) :
    Remembers s past (w.configure config) :=
  ⟨h.books.congr rfl rfl, h.barred, h.origin⟩

/-- Nothing is remembered where no row bars. -/
theorem remembers_nil (hL : w.db.ledger.Books)
    (hfree : ∀ i u, w.db.ledger.history i = some u → u.reuseEligibleAt = none) :
    Remembers s [] w where
  books := hL
  barred _ hE := absurd hE List.not_mem_nil
  origin b x u e hu he := by
    rw [hfree u.id u hu.1] at he
    cases he

end Calls

theorem Remembers.run {s : Settings} {F : World → Req → Prop} {w : World}
    {past mid rest : List Entry}
    {E : Entry} {ds : List Deed} (h : Remembers s past w) (hds : Throughout s (Deed.OnIps s F) w ds)
    (hrec : record s w ds = mid ++ E :: rest) : Cooled s (past ++ mid) E := by
  induction ds generalizing w past mid with
  | nil =>
      have hmem : E ∈ mid ++ E :: rest := List.mem_append_right _ List.mem_cons_self
      rw [← hrec] at hmem
      cases hmem
  | cons d ds ih =>
      cases d with
      | configure config => exact ih (h.configure config) hds.2 hrec
      | call c env =>
          obtain ⟨⟨hc, henv⟩, hds⟩ := hds
          cases mid with
          | nil =>
              obtain rfl : Deed.entry s c env w = E := (List.cons.inj hrec).1
              rw [List.append_nil]
              exact h.cooled hc henv
          | cons E₁ mid =>
              obtain ⟨hfirst, htail⟩ := List.cons.inj hrec
              have hlater := ih (h.call hc henv) hds htail
              rw [hfirst] at hlater
              rw [List.append_assoc] at hlater
              exact hlater

/-- No broker is assigned an IP again before the cooldown is over, and none is refused it but
for that. -/
theorem reuse_cooldown (s : Settings) {w : World} (hbooks : w.db.ledger.Books)
    (hfree : ∀ i u, w.db.ledger.history i = some u → u.reuseEligibleAt = none)
    (F : World → Req → Prop) (ds : List Deed) (hds : Throughout s (Deed.OnIps s F) w ds)
    {past rest : List Entry} {E : Entry} (hrec : record s w ds = past ++ E :: rest) :
    Cooled s past E :=
  (remembers_nil hbooks hfree).run hds hrec

/-- The IP is detached and released, and its broker wants it back at once. -/
def detachRelease : List Deed := [.call (.detach 3) calm, .call (.release 3) calm]

theorem books_of_rows {d : Db}
    (hone : ∀ a ∈ d.assignments.rows, ∀ a' ∈ d.assignments.rows,
      a.brokerAccountId = a'.brokerAccountId → a = a')
    (hopen : ∀ a ∈ d.assignments.rows, ∃ u ∈ d.history.rows, u.brokerAccountId = a.brokerAccountId ∧
      u.staticIpId = a.staticIpId ∧ u.releasedAt = none) : d.ledger.Books where
  one b a a' h h' := hone a (Table.get?_eq_some.mp h.1).1 a' (Table.get?_eq_some.mp h'.1).1
    (h.2.1.trans h'.2.1.symm)
  opened b a h := by
    obtain ⟨u, hu, hb, hx, hnone⟩ := hopen a (Table.get?_eq_some.mp h.1).1
    exact ⟨u, ⟨Table.get?_eq_some.mpr ⟨hu, rfl⟩, hb.trans h.2.1, hx⟩, hnone⟩

theorem cooled_detachRelease :
    Cooled {} (record {} attachedOnce detachRelease)
      (Deed.entry {} (.assign 3 2 none) calm (worldAfter {} attachedOnce detachRelease)) := by
  have hopen : ∀ u ∈ attachedOnce.db.history.rows, u.reuseEligibleAt = none := by decide
  have hds : Throughout {} (Deed.OnIps {} fun _ _ => True) attachedOnce
      (detachRelease ++ [.call (.assign 3 2 none) calm]) :=
    ⟨⟨rfl, meets_calm⟩, ⟨rfl, meets_calm⟩, ⟨rfl, meets_calm⟩, trivial⟩
  have hrec : record {} attachedOnce (detachRelease ++ [.call (.assign 3 2 none) calm]) =
      record {} attachedOnce detachRelease ++ Deed.entry {} (.assign 3 2 none) calm
        (worldAfter {} attachedOnce detachRelease) :: [] := rfl
  exact reuse_cooldown {} (books_of_rows (by decide) (by decide))
    (fun i u hu => hopen u (Table.get?_eq_some.mp hu).1) _ _ hds hrec

end BrokerBridge
