import BrokerBridge.Ips.Following
import BrokerBridge.World.Locks

/-!
# At most one active assignment of a broker

While a lock does not expire, a call that holds a broker's lock is the only one that
makes an assignment of that broker active. What it has found stays true until its own
commit: the others can only end assignments of that broker. So the commit of `assign`
meets none, and the commits of `rotate` meet at most the one it knows.
-/

namespace BrokerBridge

open Conc

/-- Call `i` has drawn the token that holds the broker's lock. -/
structure HasLock (i : Nat) (b : BrokerId) (t : Nat) (h : Past World Req) : Prop where
  drew : Drew i t h.2
  lock : h.1.locks (.brokerIp b) = some t

/-- What holds where a call is. -/
def Tenure.At (i : Nat) : Tenure → Past World Req → Prop
  | .out, _ => True
  | .drawn t, h => Drew i t h.2
  | .refused, _ => True
  | .held b t, h => HasLock i b t h
  | .clear b t, h => HasLock i b t h ∧ ∀ x, ¬ h.1.db.ActiveFor b x
  | .found b t a, h =>
      HasLock i b t h ∧ (∀ x, h.1.db.ActiveFor b x → x = a) ∧ h.1.db.brokerOf a = some b
  | .lost, _ => False

section Steps

variable {i j : Nat} {h : Past World Req} {ph ph' : Tenure} {r : Req} {b : BrokerId} {t : Nat}

theorem Tenure.At.hasLock (hat : ph.At i h) (hph : ph.lock = some (b, t)) : HasLock i b t h := by
  cases ph with
  | held b' t' =>
      cases hph
      exact hat
  | clear b' t' =>
      cases hph
      exact hat.1
  | found b' t' a =>
      cases hph
      exact hat.1
  | out | drawn | refused | lost => cases hph

/-- Two calls do not hold one lock. -/
theorem same_holder (ht : TokensApart h) {t' : Nat} (hi : HasLock i b t h)
    (hj : HasLock j b t' h) : i = j := by
  have hsame : t = t' := Option.some_inj.mp (hi.lock.symm.trans hj.lock)
  subst hsame
  exact ht.unique i j t hi.drew hj.drew

/-- A request does not take the lock of another call away. -/
theorem HasLock.other (hj : HasLock j b t h) (ht : TokensApart h) (hij : j ≠ i)
    (hat : ph.At i h) (hr : ph.admits r) (e : Env) :
    HasLock j b t ((handle r e h.1).2, (i, r, h.1) :: h.2) := by
  refine ⟨hj.drew.cons _, ?_⟩
  by_cases hlocks : r.locks (.brokerIp b)
  · cases r with
    | acquire k ttl t' => exact acquire_held hj.lock e
    | release k t' =>
        have hk : k = .brokerIp b := hlocks
        subst hk
        refine release_held hj.lock ?_ e
        rintro rfl
        rcases hr with hr | rfl
        · exact hij (same_holder ht hj (hat.hasLock hr))
        · exact hat
    | _ => exact hlocks.elim
  · exact (handle_locks hlocks e h.1).trans hj.lock

/-- Nor its own, unless it gives the lock back. -/
theorem HasLock.own (hi : HasLock i b t h) (hph : ph.lock = some (b, t))
    (hr : ph.admits r) (hrel : ∀ t', r ≠ .release (.brokerIp b) t') (e : Env) :
    HasLock i b t ((handle r e h.1).2, (i, r, h.1) :: h.2) := by
  refine ⟨hi.drew.cons _, (handle_locks (fun hlocks => ?_) e h.1).trans hi.lock⟩
  cases r with
  | acquire k ttl t' =>
      have hk : k = .brokerIp b := hlocks
      subst hk
      rcases hr with ⟨rfl, _⟩ | rfl <;> cases hph
  | release k t' =>
      have hk : k = .brokerIp b := hlocks
      subst hk
      exact hrel t' rfl
  | _ => exact hlocks.elim

/-! ## Commits -/

/-- An assignment is active after a commit if it was before, or it is the only one of
the broker whose lock the call holds. -/
theorem active_after_commit (hat : ph.At i h) {ws : List Write} (hws : ph.commits ws)
    {now : Instant}
    {d : Db} (hd : h.1.db.write? now ws = some d) {b' : BrokerId} {x : AssignmentId}
    (hx : d.ActiveFor b' x) :
    h.1.db.ActiveFor b' x ∨
      (∃ t, ph.lock = some (b', t)) ∧ ∀ y, d.ActiveFor b' y → y = x := by
  have hquiet : Quiet ws → h.1.db.ActiveFor b' x := fun hq => activeFor_write hq hd hx
  cases ph with
  | out | drawn | refused | held => exact .inl (hquiet hws)
  | lost => exact hat.elim
  | clear b t =>
      rcases hws with hws | ⟨l, r, l', rfl, hl, hl', hr⟩
      · exact .inl (hquiet hws)
      obtain ⟨d₁, hd₁, hafter, hbefore⟩ := activeFor_among hl hl' hd
      rcases activeFor_add (hafter b' x hx) with hold | ⟨hxr, hact⟩
      · exact .inl (hbefore b' x hold)
      have hb : b = b' := hr.symm.trans (activeFor_iff.mp hact).1
      subst hb
      refine .inr ⟨⟨t, rfl⟩, fun y hy => ?_⟩
      rcases activeFor_add (hafter b y hy) with hold | ⟨hyr, _⟩
      · exact absurd (hbefore b y hold) (hat.2 y)
      · exact hyr.trans hxr.symm
  | found b t a =>
      rcases hws with hws | ⟨l, r, l', rfl, hl, hl', hr, hmem⟩ | ⟨l, l', rfl, hl, hl'⟩
      · exact .inl (hquiet hws)
      · obtain ⟨d₁, hd₁, hafter, hbefore⟩ := activeFor_among hl hl' hd
        rcases activeFor_add (hafter b' x hx) with hold | ⟨hxr, hact⟩
        · exact .inl (hbefore b' x hold)
        have hb : b = b' := hr.symm.trans (activeFor_iff.mp hact).1
        subst hb
        refine .inr ⟨⟨t, rfl⟩, fun y hy => ?_⟩
        rcases activeFor_add (hafter b y hy) with hold | ⟨hyr, _⟩
        · have hya : y = a := hat.2.1 y (hbefore b y hold)
          subst hya
          exact absurd hold (not_activeFor_of_released hl hmem hd₁)
        · exact hyr.trans hxr.symm
      · obtain ⟨d₁, hd₁, hafter, hbefore⟩ := activeFor_among hl hl' hd
        rcases activeFor_set (hafter b' x hx) with hold | ⟨hxa, _, hbroker⟩
        · exact .inl (hbefore b' x hold)
        have hb : b = b' := Option.some_inj.mp ((brokerOf_write hd₁ hat.2.2).symm.trans hbroker)
        subst hb
        refine .inr ⟨⟨t, rfl⟩, fun y hy => ?_⟩
        rcases activeFor_set (hafter b y hy) with hold | ⟨hya, _⟩
        · exact (hat.2.1 y (hbefore b y hold)).trans hxa.symm
        · exact hya.trans hxa.symm

theorem oneActive_step (hone : h.1.db.OneActive) (hat : ph.At i h) (hr : ph.admits r)
    (e : Env) : (handle r e h.1).2.db.OneActive := by
  by_cases hcommit : ∃ ws, r = .commit ws
  · obtain ⟨ws, rfl⟩ := hcommit
    rcases commit_cases ws e h.1 with ⟨f, hf⟩ | ⟨d, hd, hf⟩
    · rw [hf]
      exact hone
    · rw [hf]
      intro b x y hx hy
      rcases active_after_commit hat hr hd hx with hx' | ⟨_, honly⟩
      · rcases active_after_commit hat hr hd hy with hy' | ⟨_, honly⟩
        · exact hone b x y hx' hy'
        · exact honly x hx
      · exact (honly y hy).symm
  · rw [handle_db fun ws heq => hcommit ⟨ws, heq⟩]
    exact hone

/-- What another call does leaves the assignments of a broker alone whose lock this one
holds, but for ending some. -/
theorem active_other (ht : TokensApart h) (hij : j ≠ i) (hj : HasLock j b t h) (hat : ph.At i h)
    (hr : ph.admits r) {e : Env} {x : AssignmentId}
    (hx : (handle r e h.1).2.db.ActiveFor b x) : h.1.db.ActiveFor b x := by
  by_cases hcommit : ∃ ws, r = .commit ws
  · obtain ⟨ws, rfl⟩ := hcommit
    rcases commit_cases ws e h.1 with ⟨f, hf⟩ | ⟨d, hd, hf⟩
    · rw [hf] at hx
      exact hx
    · rw [hf] at hx
      rcases active_after_commit hat hr hd hx with hx' | ⟨⟨t', hlock⟩, _⟩
      · exact hx'
      · exact absurd (same_holder ht hj (hat.hasLock hlock)) hij
  · rw [handle_db fun ws heq => hcommit ⟨ws, heq⟩] at hx
    exact hx

theorem brokerOf_step {a : AssignmentId} (ha : h.1.db.brokerOf a = some b) (r : Req) (e : Env) :
    (handle r e h.1).2.db.brokerOf a = some b := by
  by_cases hcommit : ∃ ws, r = .commit ws
  · obtain ⟨ws, rfl⟩ := hcommit
    rcases commit_cases ws e h.1 with ⟨f, hf⟩ | ⟨d, hd, hf⟩
    · rw [hf]
      exact ha
    · rw [hf]
      exact brokerOf_write hd ha
  · rw [handle_db fun ws heq => hcommit ⟨ws, heq⟩]
    exact ha

theorem Tenure.At.other (hat' : ph'.At j h) (ht : TokensApart h) (hij : j ≠ i) (hat : ph.At i h)
    (hr : ph.admits r) (e : Env) :
    ph'.At j ((handle r e h.1).2, (i, r, h.1) :: h.2) := by
  cases ph' with
  | out | refused => trivial
  | drawn t => exact Drew.cons hat' _
  | held b t => exact hat'.other ht hij hat hr e
  | clear b t =>
      exact ⟨hat'.1.other ht hij hat hr e, fun x hx =>
        hat'.2 x (active_other ht hij hat'.1 hat hr hx)⟩
  | found b t a =>
      exact ⟨hat'.1.other ht hij hat hr e, fun x hx =>
        hat'.2.1 x (active_other ht hij hat'.1 hat hr hx), brokerOf_step hat'.2.2 r e⟩
  | lost => exact hat'.elim

/-- The phases look at the assignments, the locks and the trace. -/
theorem Tenure.At.same {h' : Past World Req} (hat : ph.At i h)
    (hsame : h'.1.db.assignments = h.1.db.assignments ∧ h'.1.locks = h.1.locks ∧ h'.2 = h.2) :
    ph.At i h' := by
  obtain ⟨hdb, hlocks, htrace⟩ := hsame
  have hactive : ∀ b x, h'.1.db.ActiveFor b x ↔ h.1.db.ActiveFor b x := by
    intro b x
    unfold Db.ActiveFor
    rw [hdb]
  have hlock : ∀ {b t}, HasLock i b t h → HasLock i b t h' := fun hl =>
    ⟨htrace ▸ hl.drew, hlocks ▸ hl.lock⟩
  cases ph with
  | out | refused => trivial
  | drawn t =>
      show Drew i t h'.2
      rw [htrace]
      exact hat
  | held b t => exact hlock hat
  | clear b t => exact ⟨hlock hat.1, fun x hx => hat.2 x ((hactive b x).mp hx)⟩
  | found b t a =>
      refine ⟨hlock hat.1, fun x hx => hat.2.1 x ((hactive b x).mp hx), ?_⟩
      show h'.1.db.brokerOf a = some b
      rw [Db.brokerOf, hdb]
      exact hat.2.2
  | lost => exact hat.elim

/-! ## A call's own requests -/

theorem at_drawn (hat : Drew i t h.2) (hr : (Tenure.drawn t).admits r) (e : Env) :
    (tenure.advance (.drawn t) r (handle r e h.1).1).At i
      ((handle r e h.1).2, (i, r, h.1) :: h.2) := by
  cases r with
  | newId => exact drew_newId i h
  | acquire k ttl t' =>
      cases k with
      | brokerIp b =>
          have htoken : t' = t := by
            rcases hr with ⟨hr, _⟩ | hr <;> cases hr
            rfl
          subst htoken
          cases hx : (handle (.acquire (.brokerIp b) ttl t') e h.1).1 with
          | error f => exact trivial
          | ok got =>
              cases got with
              | false => exact trivial
              | true => exact ⟨hat.cons _, acquired hx⟩
      | _ => exact hat.cons _
  | release k t' =>
      cases k with
      | brokerIp b => exact trivial
      | _ => exact hat.cons _
  | _ => exact hat.cons _

/-- The two reads that matter find what is there. -/
theorem at_held (hone : h.1.db.OneActive) (hat : HasLock i b t h)
    (hr : (Tenure.held b t).admits r) (e : Env) :
    (tenure.advance (.held b t) r (handle r e h.1).1).At i
      ((handle r e h.1).2, (i, r, h.1) :: h.2) := by
  have hkept : (∀ t', r ≠ .release (.brokerIp b) t') →
      HasLock i b t ((handle r e h.1).2, (i, r, h.1) :: h.2) :=
    fun hrel => hat.own (show (Tenure.held b t).lock = _ from rfl) hr hrel e
  cases r with
  | release k t' =>
      cases k with
      | brokerIp b' => exact trivial
      | _ => exact hkept fun t'' heq => nomatch heq
  | query ws q =>
      have hlock := hkept fun t'' heq => nomatch heq
      cases ws with
      | cons w ws => exact hlock
      | nil =>
          rcases query_cases [] q e h.1 with ⟨f, hf⟩ | hf
          · rw [hf] at hlock ⊢
            cases q <;> exact hlock
          · rw [hf] at hlock ⊢
            cases q with
            | activeAssignmentsOfBroker b' =>
                cases hrows : (Query.activeAssignmentsOfBroker b').eval e h.1.clock
                    (h.1.db.view h.1.clock []) with
                | cons a rows => exact hlock
                | nil =>
                    show (if b' = b then Tenure.clear b t else .held b t).At i _
                    split
                    · next hb =>
                        subst hb
                        refine ⟨hlock, ?_⟩
                        rintro x ⟨a, ha, hact⟩
                        have hmem : a ∈ h.1.db.assignments.rows.filter (·.activeFor b') :=
                          List.mem_filter.mpr ⟨(Table.get?_eq_some.mp ha).1, hact⟩
                        rw [show h.1.db.assignments.rows.filter (·.activeFor b') = [] from hrows]
                          at hmem
                        cases hmem
                    · exact hlock
            | activeAssignment b' =>
                cases hrow : (Query.activeAssignment b').eval e h.1.clock
                    (h.1.db.view h.1.clock []) with
                | none => exact hlock
                | some x =>
                    show (if b' = b then Tenure.found b t x.1.id else .held b t).At i _
                    split
                    · next hb =>
                        subst hb
                        obtain ⟨a, hmem, ha⟩ := List.exists_of_findSome?_eq_some hrow
                        obtain ⟨ip, _, rfl⟩ := Option.map_eq_some_iff.mp ha
                        obtain ⟨hrows, hact⟩ := List.mem_filter.mp hmem
                        have hget : h.1.db.assignments.get? a.id = some a := Table.get?_of_mem hrows
                        refine ⟨hlock, fun y hy => hone b' y a.id hy ⟨a, hget, hact⟩, ?_⟩
                        exact Option.map_eq_some_iff.mpr ⟨a, hget, (activeFor_iff.mp hact).1⟩
                    · exact hlock
            | _ => exact hlock
  | _ => exact hkept fun t'' heq => nomatch heq

theorem at_clear (hat : (Tenure.clear b t).At i h) (hr : (Tenure.clear b t).admits r) (e : Env) :
    (tenure.advance (.clear b t) r (handle r e h.1).1).At i
      ((handle r e h.1).2, (i, r, h.1) :: h.2) := by
  have hkept : (∀ t', r ≠ .release (.brokerIp b) t') →
      HasLock i b t ((handle r e h.1).2, (i, r, h.1) :: h.2) :=
    fun hrel => hat.1.own (show (Tenure.clear b t).lock = _ from rfl) hr hrel e
  have hstay : (∀ t', r ≠ .release (.brokerIp b) t') → (∀ ws, r ≠ .commit ws) →
      (Tenure.clear b t).At i ((handle r e h.1).2, (i, r, h.1) :: h.2) := by
    intro hrel hcommit
    refine ⟨hkept hrel, ?_⟩
    show ∀ x, ¬ (handle r e h.1).2.db.ActiveFor b x
    rw [handle_db hcommit]
    exact hat.2
  cases r with
  | release k t' =>
      cases k with
      | brokerIp b' => exact trivial
      | _ => exact hstay (fun t'' heq => nomatch heq) fun ws heq => nomatch heq
  | commit ws =>
      have hlock := hkept fun t'' heq => nomatch heq
      rcases commit_cases ws e h.1 with ⟨f, hf⟩ | ⟨d, hd, hf⟩
      · rw [hf] at hlock ⊢
        exact ⟨hlock, hat.2⟩
      · rw [hf] at hlock ⊢
        show (if Quiet ws then Tenure.clear b t else .held b t).At i _
        split
        · next hquiet => exact ⟨hlock, fun x hx => hat.2 x (activeFor_write hquiet hd hx)⟩
        · exact hlock
  | _ => exact hstay (fun t'' heq => nomatch heq) fun ws heq => nomatch heq

theorem at_found {a : AssignmentId} (hat : (Tenure.found b t a).At i h)
    (hr : (Tenure.found b t a).admits r) (e : Env) :
    (tenure.advance (.found b t a) r (handle r e h.1).1).At i
      ((handle r e h.1).2, (i, r, h.1) :: h.2) := by
  have hkept : (∀ t', r ≠ .release (.brokerIp b) t') →
      HasLock i b t ((handle r e h.1).2, (i, r, h.1) :: h.2) :=
    fun hrel => hat.1.own (show (Tenure.found b t a).lock = _ from rfl) hr hrel e
  have hstay : (∀ t', r ≠ .release (.brokerIp b) t') → (∀ ws, r ≠ .commit ws) →
      (Tenure.found b t a).At i ((handle r e h.1).2, (i, r, h.1) :: h.2) := by
    intro hrel hcommit
    refine ⟨hkept hrel, ?_⟩
    show (∀ x, (handle r e h.1).2.db.ActiveFor b x → x = a) ∧
      (handle r e h.1).2.db.brokerOf a = some b
    rw [handle_db hcommit]
    exact hat.2
  cases r with
  | release k t' =>
      cases k with
      | brokerIp b' => exact trivial
      | _ => exact hstay (fun t'' heq => nomatch heq) fun ws heq => nomatch heq
  | query ws q =>
      have hfound := hstay (fun t'' heq => nomatch heq) fun ws heq => nomatch heq
      cases q with
      | assignment a' =>
          rcases query_cases ws (.assignment a') e h.1 with ⟨f, hf⟩ | hf
          · rw [hf] at hfound ⊢
            exact hfound
          · rw [hf] at hfound ⊢
            cases hrow : (Query.assignment a').eval e h.1.clock (h.1.db.view h.1.clock ws) with
            | none => exact hfound
            | some r =>
                have hkey : r.id = a' := Table.get?_key hrow
                show (if r.id = a' then Tenure.found b t a else .lost).At i _
                rw [if_pos hkey]
                exact hfound
      | _ => exact hfound
  | commit ws =>
      have hlock := hkept fun t'' heq => nomatch heq
      rcases commit_cases ws e h.1 with ⟨f, hf⟩ | ⟨d, hd, hf⟩
      · rw [hf] at hlock ⊢
        exact ⟨hlock, hat.2⟩
      · rw [hf] at hlock ⊢
        show (if Quiet ws then Tenure.found b t a else .held b t).At i _
        split
        · next hquiet =>
            exact ⟨hlock, fun x hx => hat.2.1 x (activeFor_write hquiet hd hx),
              brokerOf_write hd hat.2.2⟩
        · exact hlock
  | _ => exact hstay (fun t'' heq => nomatch heq) fun ws heq => nomatch heq

theorem Tenure.At.own (hat : ph.At i h) (hone : h.1.db.OneActive) (hr : ph.admits r)
    (e : Env) :
    (tenure.advance ph r (handle r e h.1).1).At i ((handle r e h.1).2, (i, r, h.1) :: h.2) := by
  cases ph with
  | out =>
      cases r with
      | newId => exact drew_newId i h
      | release k t => cases k <;> exact trivial
      | _ => exact trivial
  | refused =>
      cases r with
      | release k t => cases k <;> exact trivial
      | _ => exact trivial
  | drawn t => exact at_drawn hat hr e
  | held b t => exact at_held hone hat hr e
  | clear b t => exact at_clear hat hr e
  | found b t a => exact at_found hat hr e
  | lost => exact hat.elim

end Steps

/-! ## The runs -/

/-- Only the IP services are called, and no lock expires. -/
def Unexpired (_ : Pools) : Happening → Prop
  | .start c => c.ofIps
  | .tick (.expireLock _) => False
  | _ => True

def tenures (s : Settings) (w : World) :
    Annotation (system s) tenure (fun _ _ => True) (Idle w) Unexpired where
  inv h := TokensApart h ∧ h.1.db.OneActive
  holds i ph _ h := ph.At i h
  start _ hc _ := ⟨.out, programOf_tenure s hc, trivial⟩
  own _ _ _ hf hinv hat _ :=
    ⟨⟨hinv.1.after _ _ _, oneActive_step hinv.2 hat hf.allows.2 _⟩, hat.own hinv.2 hf.allows.2 _⟩
  other _ _ _ hij hf _ hinv hat hat' := hat'.other hinv.1 hij hat hf.allows.2 _
  tick {p v} hc hinv := by
    cases v with
    | expireLock k => exact absurd hc id
    | _ => exact ⟨⟨hinv.1.lt, hinv.1.unique⟩, hinv.2⟩
  tick_holds {p v j ph q} hc _ _ hat := by
    cases v with
    | expireLock k => exact absurd hc id
    | _ => exact hat.same ⟨rfl, rfl, rfl⟩

/-- In every run of the IP services in which no lock expires, no broker gets a second
active assignment. -/
theorem oneActive_of_reach (s : Settings) {w : World} (hw : w.db.OneActive) {p : Pools}
    (h : (system s).Reach (Idle w) Unexpired p) : p.world.db.OneActive :=
  ((tenures s w).sound (fun p hp => by
    cases hp
    exact ⟨⟨tokens_nil w, hw⟩, rfl⟩) h).1.2

/-! ## Two assignments and a rotation -/

/-- `Unexpired`, computed. -/
def unexpiredCheck (_ : Pools) : Happening → Bool
  | .start c => c.ofIps
  | .tick (.expireLock _) => false
  | _ => true

theorem unexpired_of_check (s : Pools) (ev : Happening) (h : unexpiredCheck s ev = true) :
    Unexpired s ev := by
  cases ev with
  | start c => exact h
  | tick v =>
      cases v with
      | expireLock k => exact nomatch h
      | _ => trivial
  | _ => trivial

/-- A client with one broker, and two IPs. -/
def twoIps : World where
  db :=
    { clients := .of [{ id := 1 }]
      brokers := .of [{ id := 2, clientId := 1 }]
      ips := .of
        [{ id := 3, externalId := 4, ipAddress := "192.0.2.1", region := "ewr" },
         { id := 5, externalId := 6, ipAddress := "192.0.2.2", region := "ewr" }] }

theorem oneActive_twoIps : twoIps.db.OneActive := by
  rintro b x y ⟨a, ha, _⟩
  cases ha

/-- One call assigns the first IP; another, which wants to assign the second, finds the
lock held. Then the broker's IP is rotated. -/
def assignedAndRotated : List Happening :=
  [.start (.assign 3 2 none), .start (.assign 5 2 none)] ++ List.replicate 2 (.step 0 {}) ++
    List.replicate 3 (.step 1 {}) ++ List.replicate 13 (.step 0 {}) ++
    [.start (.rotate 2 false)] ++ List.replicate 45 (.step 2 { address := "192.0.2.3" })

theorem oneActive_assigned_rotated :
    ((system {}).run { world := twoIps } assignedAndRotated).world.db.OneActive :=
  oneActive_of_reach {} oneActive_twoIps
    (Machine.reach_run_of_check unexpired_of_check (reach_idle twoIps) assignedAndRotated
      (by decide))

end BrokerBridge
