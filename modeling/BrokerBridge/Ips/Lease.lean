import BrokerBridge.Ips.OneActive

/-!
# Locks that expire

A Redis lock expires when its TTL has passed since it was taken, and nothing renews it:
30 seconds for `assign`, 60 for `rotate`, however long the drain may take. Who took
which lock, when and for how long is read off the trace.

A call that leaves its critical section before the TTL has passed owns the lock of the
broker whenever it makes an assignment active, and no other call is in that broker's
critical section then.
-/

namespace BrokerBridge

open Conc

/-- Call `i` has asked for the broker's lock, at world `w`, and not given it back since. -/
inductive Taken (i : Nat) (b : BrokerId) (ttl : Int) (t : Nat) (w : World) :
    List (Nat × Req × World) → Prop where
  | here (tr : List (Nat × Req × World)) :
      Taken i b ttl t w ((i, .acquire (.brokerIp b) ttl t, w) :: tr)
  | later {tr : List (Nat × Req × World)} {x : Nat × Req × World} (h : Taken i b ttl t w tr)
      (hx : ∀ w', x ≠ (i, .release (.brokerIp b) t, w')) : Taken i b ttl t w (x :: tr)

/-- Call `i` is in the critical section of the broker: it has asked for the lock and not
given it back, and it is still running. -/
structure Inside (s : Pools) (i : Nat) (b : BrokerId) (ttl : Int) (t : Nat) (w : World) :
    Prop where
  running : ∃ r, s.Asks i r
  taken : Taken i b ttl t w s.trace

/-- Only the IP services are called, and a lock expires exactly when its TTL has
passed. -/
def Leased (s : Pools) : Happening → Prop
  | .start c => c.ofIps
  | .tick (.expireLock k) => ∀ i ttl t w, (i, .acquire k ttl t, w) ∈ s.trace →
      s.world.locks k = some t → w.clock + ttl ≤ s.world.clock
  | .tick (.advance n) => ∀ i k ttl t w, (i, .acquire k ttl t, w) ∈ s.trace →
      s.world.locks k = some t → s.world.clock + n ≤ w.clock + ttl
  | _ => True

/-- No call is still in a broker's critical section when the TTL of its lock has
passed. -/
def InTime (s : Pools) (ev : Happening) : Prop :=
  Leased s ev ∧
  match ev with
  | .tick (.advance n) => ∀ i b ttl t w, Inside s i b ttl t w → s.world.clock + n < w.clock + ttl
  | _ => True

/-- The writes make an assignment of the broker active. -/
def Db.Engages (d : Db) (b : BrokerId) (ws : List Write) : Prop :=
  (∃ r, .addAssignment r ∈ ws ∧ r.activeFor b = true) ∨
    ∃ a, .setAssignment a (.status .active) ∈ ws ∧ d.brokerOf a = some b

/-- What a call owns that has taken a broker's lock: the lock, until its lease ends. -/
structure Lease (i : Nat) (b : BrokerId) (t : Nat) (h : Past World Req) : Prop where
  lock : HasLock i b t h
  left : ∃ ttl w, Taken i b ttl t w h.2 ∧ h.1.clock < w.clock + ttl

/-- What holds where a running call is. -/
structure Tenure.In (i : Nat) (ph : Tenure) (h : Past World Req) : Prop where
  here : ph ≠ .lost
  drew : ∀ t, ph = .drawn t → Drew i t h.2
  lease : ∀ b t, ph.lock = some (b, t) → Lease i b t h
  taken : ∀ b ttl t w, Taken i b ttl t w h.2 → ph.lock = some (b, t)
  broker : ∀ b t a, ph = .found b t a → h.1.db.brokerOf a = some b

/-! ## Steps of the phases -/

theorem Taken.mem {i : Nat} {b : BrokerId} {ttl : Int} {t : Nat} {w : World}
    {tr : List (Nat × Req × World)} (h : Taken i b ttl t w tr) :
    (i, .acquire (.brokerIp b) ttl t, w) ∈ tr := by
  induction h with
  | here tr => exact List.mem_cons_self
  | later _ _ ih => exact List.mem_cons_of_mem _ ih

section Steps

variable {i j : Nat} {h : Past World Req} {ph ph' : Tenure} {r : Req} {b : BrokerId} {t : Nat}

/-- The answers of a world lead to no lost phase. -/
theorem advance_ne_lost (hph : ph ≠ .lost) (r : Req) (e : Env) (w : World) :
    tenure.advance ph r (handle r e w).1 ≠ .lost := by
  by_cases hfound : ∃ b t a ws a', ph = .found b t a ∧ r = .query ws (.assignment a')
  · obtain ⟨b, t, a, ws, a', rfl, rfl⟩ := hfound
    rcases query_cases ws (.assignment a') e w with ⟨f, hf⟩ | hf
    · rw [hf]
      exact nofun
    · rw [hf]
      cases hrow : (Query.assignment a').eval e w.clock (w.db.view w.clock ws) with
      | none => exact nofun
      | some r =>
          have hkey : r.id = a' := Table.get?_key hrow
          show (if r.id = a' then Tenure.found b t a else .lost) ≠ .lost
          rw [if_pos hkey]
          exact nofun
  · generalize (handle r e w).1 = x
    intro hlost
    unfold tenure at hlost
    simp only at hlost
    split at hlost <;> first
      | exact hph hlost
      | exact hph rfl
      | exact hfound ⟨_, _, _, _, _, rfl, rfl⟩
      | (split at hlost <;> cases hlost)
      | cases hlost

/-- A held lock stays with the phase until it is given back. -/
theorem advance_lock (hph : ph.lock = some (b, t)) (hr : ∀ b' t', r ≠ .release (.brokerIp b') t')
    (x : r.Ans) : (tenure.advance ph r x).lock = some (b, t) ∨ tenure.advance ph r x = .lost := by
  unfold tenure
  simp only
  split <;> first
    | exact .inl hph
    | exact absurd rfl (hr _ _)
    | (split <;> first | exact .inl hph | exact .inr rfl)
    | cases hph

theorem advance_release (hph : ph ≠ .lost) (b : BrokerId) (t : Nat)
    (x : (Req.release (.brokerIp b) t).Ans) :
    tenure.advance ph (.release (.brokerIp b) t) x = .out := by
  cases ph with
  | lost => exact absurd rfl hph
  | _ => rfl

/-- An assignment that a call knows of is one of the broker whose lock it holds. -/
theorem broker_of_found {a : AssignmentId} (e : Env) {w : World}
    (h : tenure.advance ph r (handle r e w).1 = .found b t a) :
    ph = .found b t a ∨ w.db.brokerOf a = some b := by
  by_cases hread : ∃ b' t' b'', ph = .held b' t' ∧ r = .query [] (.activeAssignment b'')
  · obtain ⟨b', t', b'', rfl, rfl⟩ := hread
    rcases query_cases [] (.activeAssignment b'') e w with ⟨f, hf⟩ | hf
    · rw [hf] at h
      cases h
    · rw [hf] at h
      cases hrow : (Query.activeAssignment b'').eval e w.clock (w.db.view w.clock []) with
      | none =>
          rw [hrow] at h
          cases h
      | some x =>
          rw [hrow] at h
          have hif : (if b'' = b' then Tenure.found b' t' x.1.id else .held b' t') =
              .found b t a := h
          split at hif
          · next hb =>
              cases hif
              subst hb
              obtain ⟨a, hmem, ha⟩ := List.exists_of_findSome?_eq_some hrow
              obtain ⟨ip, _, rfl⟩ := Option.map_eq_some_iff.mp ha
              obtain ⟨hrows, hact⟩ := List.mem_filter.mp hmem
              have hget : w.db.assignments.get? a.id = some a := Table.get?_of_mem hrows
              exact .inr (Option.map_eq_some_iff.mpr ⟨a, hget, (activeFor_iff.mp hact).1⟩)
          · cases hif
  · generalize (handle r e w).1 = x at h
    refine .inl ?_
    unfold tenure at h
    simp only at h
    split at h <;> first
      | exact h
      | exact absurd ⟨_, _, _, rfl, rfl⟩ hread
      | (split at h <;> first | exact h | cases h)
      | cases h

theorem Lease.own (hl : Lease i b t h) (hph : ph.lock = some (b, t)) (hr : ph.admits r)
    (hrel : ∀ b' t', r ≠ .release (.brokerIp b') t') (e : Env) :
    Lease i b t ((handle r e h.1).2, (i, r, h.1) :: h.2) := by
  obtain ⟨ttl, w, hw, hleft⟩ := hl.left
  refine ⟨hl.lock.own hph hr (hrel b) e, ttl, w, hw.later fun w' heq => ?_, ?_⟩
  · exact hrel b t (Prod.mk.inj (Prod.mk.inj heq).2).1
  · show (handle r e h.1).2.clock < w.clock + ttl
    rw [handle_clock]
    exact hleft

theorem Lease.other (hl : Lease j b t h) (ht : TokensApart h) (hij : j ≠ i)
    (hin : ph.In i h) (hr : ph.admits r) (e : Env) :
    Lease j b t ((handle r e h.1).2, (i, r, h.1) :: h.2) := by
  obtain ⟨ttl, w, hw, hleft⟩ := hl.left
  refine ⟨⟨hl.lock.drew.cons _, ?_⟩, ttl, w, hw.later fun w' heq => ?_, ?_⟩
  · by_cases hlocks : r.locks (.brokerIp b)
    · cases r with
      | acquire k ttl' t' => exact acquire_held hl.lock.lock e
      | release k t' =>
          have hk : k = .brokerIp b := hlocks
          subst hk
          refine release_held hl.lock.lock ?_ e
          rintro rfl
          rcases hr with hr | rfl
          · exact hij (same_holder ht hl.lock (hin.lease b t' hr).lock)
          · exact hin.here rfl
      | _ => exact hlocks.elim
    · exact (handle_locks hlocks e h.1).trans hl.lock.lock
  · exact hij (Prod.mk.inj heq).1.symm
  · show (handle r e h.1).2.clock < w.clock + ttl
    rw [handle_clock]
    exact hleft

/-- What a call has taken before it asks for something else. -/
theorem taken_before {ttl : Int} {w : World} (hr : ∀ b ttl t, r ≠ .acquire (.brokerIp b) ttl t)
    (htaken : Taken i b ttl t w ((i, r, h.1) :: h.2)) :
    Taken i b ttl t w h.2 ∧ r ≠ .release (.brokerIp b) t := by
  cases htaken with
  | here => exact absurd rfl (hr b ttl t)
  | later htaken hx => exact ⟨htaken, fun heq => hx h.1 (heq ▸ rfl)⟩

theorem in_take {ttl : Int} (hin : (Tenure.drawn t).In i h) (httl : 0 < ttl) (e : Env)
    (hgo : tenure.advance (.drawn t) (.acquire (.brokerIp b) ttl t)
      (handle (.acquire (.brokerIp b) ttl t) e h.1).1 ≠ .refused) :
    (tenure.advance (.drawn t) (.acquire (.brokerIp b) ttl t)
      (handle (.acquire (.brokerIp b) ttl t) e h.1).1).In i
      ((handle (.acquire (.brokerIp b) ttl t) e h.1).2,
        (i, .acquire (.brokerIp b) ttl t, h.1) :: h.2) := by
  have hclock := handle_clock (.acquire (.brokerIp b) ttl t) e h.1
  cases hx : (handle (.acquire (.brokerIp b) ttl t) e h.1).1 with
  | error f =>
      rw [hx] at hgo
      exact absurd rfl hgo
  | ok got =>
      cases got with
      | false =>
          rw [hx] at hgo
          exact absurd rfl hgo
      | true =>
          refine ⟨nofun, nofun, fun b' t' hlock => ?_, fun b' ttl' t' w htaken => ?_, nofun⟩
          · cases hlock
            refine ⟨⟨(hin.drew t rfl).cons _, acquired hx⟩, ttl, h.1, .here _, ?_⟩
            show (handle (.acquire (.brokerIp b) ttl t) e h.1).2.clock < h.1.clock + ttl
            rw [hclock]
            exact Int.lt_add_of_pos_right _ httl
          · cases htaken with
            | here => rfl
            | later htaken _ => cases hin.taken b' ttl' t' w htaken

theorem in_give (hin : ph.In i h) (hph : ph.lock = some (b, t)) (e : Env) :
    Tenure.out.In i ((handle (.release (.brokerIp b) t) e h.1).2,
      (i, .release (.brokerIp b) t, h.1) :: h.2) := by
  refine ⟨nofun, nofun, (fun _ _ heq => nomatch heq), fun b' ttl t' w htaken => ?_, nofun⟩
  have hnone : ∀ b'' ttl' t'', Req.release (.brokerIp b) t ≠ .acquire (.brokerIp b'') ttl' t'' :=
    fun _ _ _ heq => nomatch heq
  obtain ⟨htaken, hne⟩ := taken_before hnone htaken
  cases (hin.taken b' ttl t' w htaken).symm.trans hph
  exact absurd rfl hne

/-- A request under the lock that does not give it back. -/
theorem in_locked (hin : ph.In i h) (hph : ph.lock = some (b, t)) (hr : ph.admits r)
    (hrel : ∀ b' t', r ≠ .release (.brokerIp b') t') (e : Env) :
    (tenure.advance ph r (handle r e h.1).1).In i ((handle r e h.1).2, (i, r, h.1) :: h.2) := by
  have hnot := advance_ne_lost hin.here r e h.1
  have hlock := (advance_lock hph hrel (handle r e h.1).1).resolve_right hnot
  have hnone : ∀ b' ttl t', r ≠ .acquire (.brokerIp b') ttl t' := by
    rintro b' ttl t' rfl
    rcases hr with ⟨rfl, _⟩ | rfl
    · cases hph
    · exact hin.here rfl
  refine ⟨hnot, fun t' ht' => ?_, fun b' t' hlock' => ?_, fun b' ttl t' w htaken => ?_,
    fun b' t' a ha => ?_⟩
  · rw [ht'] at hlock
    cases hlock
  · cases hlock'.symm.trans hlock
    exact (hin.lease b t hph).own hph hr hrel e
  · rw [hlock, ← hph]
    exact hin.taken b' ttl t' w (taken_before hnone htaken).1
  · refine brokerOf_step ?_ r e
    rcases broker_of_found e ha with heq | hbroker
    · exact hin.broker b' t' a heq
    · exact hbroker

/-- A request without a lock, but for its token and the lock. -/
theorem in_idle (hin : ph.In i h) (hph : ph.lock = none) (hr : ph.admits r)
    (hnone : ∀ b' ttl t', r ≠ .acquire (.brokerIp b') ttl t') (e : Env) :
    (tenure.advance ph r (handle r e h.1).1).In i ((handle r e h.1).2, (i, r, h.1) :: h.2) := by
  have hrel : ∀ b' t', r ≠ .release (.brokerIp b') t' := by
    rintro b' t' rfl
    rcases hr with hr | rfl
    · cases hr.symm.trans hph
    · exact hin.here rfl
  have htaken : ∀ b' ttl t' w, ¬ Taken i b' ttl t' w ((i, r, h.1) :: h.2) := by
    intro b' ttl t' w htaken
    cases (hin.taken b' ttl t' w (taken_before hnone htaken).1).symm.trans hph
  have hstay : tenure.advance ph r (handle r e h.1).1 = ph ∨
      ∃ x, tenure.advance ph r (handle r e h.1).1 = .drawn x ∧ Drew i x
        ((i, r, h.1) :: h.2) := by
    by_cases hnew : r = .newId
    · subst hnew
      cases ph with
      | out | drawn => exact .inr ⟨_, rfl, drew_newId i h⟩
      | refused | lost => exact .inl rfl
      | _ => cases hph
    · refine .inl ?_
      cases ph with
      | out | refused | drawn =>
          cases r with
          | newId => exact absurd rfl hnew
          | release k t' =>
              cases k with
              | brokerIp b' => exact absurd rfl (hrel b' t')
              | _ => rfl
          | acquire k ttl t' =>
              cases k with
              | brokerIp b' => exact absurd rfl (hnone b' ttl t')
              | _ => rfl
          | _ => rfl
      | lost => rfl
      | _ => cases hph
  rcases hstay with hstay | ⟨x, hx, hdrew⟩
  · rw [hstay]
    refine ⟨hin.here, fun t' ht' => (hin.drew t' ht').cons _, fun b' t' hlock => ?_,
      fun b' ttl t' w hw => absurd hw (htaken b' ttl t' w), fun b' t' a ha => ?_⟩
    · cases hlock.symm.trans hph
    · rw [ha] at hph
      cases hph
  · rw [hx]
    refine ⟨nofun, fun t' ht' => ?_, nofun,
      fun b' ttl t' w hw => absurd hw (htaken b' ttl t' w), nofun⟩
    cases ht'
    exact hdrew

/-- A call's own request leads to a phase where it stands as well, unless the call is
over. -/
theorem Tenure.In.own (hin : ph.In i h) (hr : ph.admits r) (e : Env)
    (hgo : tenure.advance ph r (handle r e h.1).1 ≠ .refused) :
    (tenure.advance ph r (handle r e h.1).1).In i ((handle r e h.1).2, (i, r, h.1) :: h.2) := by
  by_cases hrel : ∃ b' t', r = .release (.brokerIp b') t'
  · obtain ⟨b', t', rfl⟩ := hrel
    have hlock : ph.lock = some (b', t') := hr.resolve_right hin.here
    rw [advance_release hin.here]
    exact in_give hin hlock e
  by_cases hacq : ∃ b' ttl t', r = .acquire (.brokerIp b') ttl t'
  · obtain ⟨b', ttl, t', rfl⟩ := hacq
    obtain ⟨rfl, httl⟩ := hr.resolve_right hin.here
    exact in_take hin httl e hgo
  have hrel' : ∀ b' t', r ≠ .release (.brokerIp b') t' := fun b' t' heq => hrel ⟨b', t', heq⟩
  have hacq' : ∀ b' ttl t', r ≠ .acquire (.brokerIp b') ttl t' :=
    fun b' ttl t' heq => hacq ⟨b', ttl, t', heq⟩
  cases hph : ph.lock with
  | none => exact in_idle hin hph hr hacq' e
  | some x => exact in_locked hin hph hr hrel' e

/-- What another call asks leaves everything where it is. -/
theorem Tenure.In.other (hin' : ph'.In j h) (ht : TokensApart h) (hij : j ≠ i) (hin : ph.In i h)
    (hr : ph.admits r) (e : Env) : ph'.In j ((handle r e h.1).2, (i, r, h.1) :: h.2) := by
  refine ⟨hin'.here, fun t' ht' => (hin'.drew t' ht').cons _,
    fun b' t' hlock => (hin'.lease b' t' hlock).other ht hij hin hr e,
    fun b' ttl t' w htaken => ?_, fun b' t' a ha => brokerOf_step (hin'.broker b' t' a ha) r e⟩
  cases htaken with
  | here => exact absurd rfl hij
  | later htaken _ => exact hin'.taken b' ttl t' w htaken

end Steps

/-! ## Ticks -/

section Ticks

variable {p : Pools} {j : Nat} {ph : Tenure} {r : Req}

/-- What a tick leaves alone. -/
theorem Tenure.In.tick (hin : ph.In j p.past) (hasks : p.Asks j r) {v : Tick}
    (hc : InTime p (.tick v)) : ph.In j (BrokerBridge.tick v p.world, p.trace) := by
  have hkept : ∀ {b t}, Lease j b t p.past →
      (BrokerBridge.tick v p.world).locks (.brokerIp b) = p.world.locks (.brokerIp b) →
      (∀ ttl w, Taken j b ttl t w p.trace → p.world.clock < w.clock + ttl →
        (BrokerBridge.tick v p.world).clock < w.clock + ttl) →
      Lease j b t (BrokerBridge.tick v p.world, p.trace) := by
    intro b t hl hlocks hclock
    obtain ⟨ttl, w, hw, hleft⟩ := hl.left
    exact ⟨⟨hl.lock.drew, hlocks.trans hl.lock.lock⟩, ttl, w, hw, hclock ttl w hw hleft⟩
  refine ⟨hin.here, hin.drew, fun b t hlock => ?_, hin.taken, fun b t a ha => ?_⟩
  · have hl := hin.lease b t hlock
    cases v with
    | advance n => exact hkept hl rfl fun ttl w hw _ => hc.2 j b ttl t w ⟨⟨r, hasks⟩, hw⟩
    | setConfig c => exact hkept hl rfl fun _ _ _ hleft => hleft
    | setBroker b' f => exact hkept hl rfl fun _ _ _ hleft => hleft
    | expireLock k =>
        refine hkept hl (setLock_ne ?_) fun _ _ _ hleft => hleft
        rintro rfl
        obtain ⟨ttl, w, hw, hleft⟩ := hl.left
        have hover : w.clock + ttl ≤ p.world.clock := hc.1 j ttl t w hw.mem hl.lock.lock
        exact absurd hleft (not_lt.mpr hover)
  · cases v <;> exact hin.broker b t a ha

end Ticks

/-! ## The runs -/

/-- A running call stands where its phase says. -/
def leases (s : Settings) (w : World) :
    Annotation (system s) tenure (fun _ _ => True) (Idle w) InTime where
  inv := TokensApart
  holds i ph p h := (∃ r k, p = .call r k) → ph.In i h
  start {p c} hreach hc _ := by
    refine ⟨.out, programOf_tenure s hc.1, fun _ => ⟨nofun, nofun, nofun, ?_, nofun⟩⟩
    intro b ttl t w htaken
    have hlt : p.threads.length < p.threads.length := hreach.trace_lt (fun p hp => by
      cases hp
      rfl) _ htaken.mem
    exact absurd hlt (Nat.lt_irrefl _)
  own _ _ _ hf hinv hin _ := by
    refine ⟨hinv.after _ _ _, ?_⟩
    rintro ⟨r', k', hk'⟩
    refine (hin ⟨_, _, rfl⟩).own hf.allows.2 _ ?_
    exact (hk' ▸ hf.next _ : (Prog.call r' k').Follows tenure _ _).allows.1
  other _ _ _ hij hf _ hinv hin hin' hcall :=
    (hin' hcall).other hinv hij (hin ⟨_, _, rfl⟩) hf.allows.2 _
  tick {p v} _ hinv := by
    cases v <;> exact ⟨hinv.lt, hinv.unique⟩
  tick_holds {p v j ph q} hc hp _ hin := by
    rintro ⟨r, k, rfl⟩
    exact (hin ⟨r, k, rfl⟩).tick ⟨k, hp⟩ hc

theorem engages_of_activeFor {r : IpAssignment} {b : BrokerId} (h : r.activeFor b = true) :
    (Write.addAssignment r).engages = true := decide_eq_true (activeFor_iff.mp h).2

/-- Writes that make one row active make it active for the broker of that row only. -/
theorem Db.Engages.among {d : Db} {b : BrokerId} {l l' : List Write} {x : Write}
    (h : d.Engages b (l ++ x :: l')) (hl : Quiet l) (hl' : Quiet l') :
    (∃ r, x = .addAssignment r ∧ r.activeFor b = true) ∨
      ∃ a, x = .setAssignment a (.status .active) ∧ d.brokerOf a = some b := by
  have hone : ∀ w ∈ l ++ x :: l', w.engages = true → w = x := by
    intro w hw heng
    rcases List.mem_append.mp hw with hw | hw
    · exact nomatch heng.symm.trans (hl w hw)
    · rcases List.mem_cons.mp hw with rfl | hw
      · rfl
      · exact nomatch heng.symm.trans (hl' w hw)
  rcases h with ⟨r, hr, hact⟩ | ⟨a, ha, hbroker⟩
  · exact .inl ⟨r, (hone _ hr (engages_of_activeFor hact)).symm, hact⟩
  · exact .inr ⟨a, (hone _ ha rfl).symm, hbroker⟩

theorem Db.Engages.not_quiet {d : Db} {b : BrokerId} {ws : List Write} (h : d.Engages b ws) :
    ¬ Quiet ws := by
  intro hq
  rcases h with ⟨r, hr, hact⟩ | ⟨a, ha, _⟩
  · exact nomatch (engages_of_activeFor hact).symm.trans (hq _ hr)
  · exact nomatch (hq _ ha)

/-- A call that makes an assignment of a broker active is in a phase with that broker's
lock. -/
theorem lock_of_engages {i : Nat} {ph : Tenure} {h : Past World Req} {b : BrokerId}
    {ws : List Write} (hin : ph.In i h) (hws : ph.commits ws) (hb : h.1.db.Engages b ws) :
    ∃ t, ph.lock = some (b, t) := by
  cases ph with
  | clear b' t =>
      rcases hws with hq | ⟨l, r, l', rfl, hl, hl', hr⟩
      · exact absurd hq hb.not_quiet
      · rcases hb.among hl hl' with ⟨r', heq, hact⟩ | ⟨a, heq, _⟩
        · cases heq
          exact ⟨t, by rw [← (activeFor_iff.mp hact).1, hr]; rfl⟩
        · cases heq
  | found b' t a =>
      rcases hws with hq | ⟨l, r, l', rfl, hl, hl', hr, _⟩ | ⟨l, l', rfl, hl, hl'⟩
      · exact absurd hq hb.not_quiet
      · rcases hb.among hl hl' with ⟨r', heq, hact⟩ | ⟨a', heq, _⟩
        · cases heq
          exact ⟨t, by rw [← (activeFor_iff.mp hact).1, hr]; rfl⟩
        · cases heq
      · rcases hb.among hl hl' with ⟨r', heq, _⟩ | ⟨a', heq, hbroker⟩
        · cases heq
        · cases heq
          have hsame : b' = b :=
            Option.some_inj.mp ((hin.broker b' t a rfl).symm.trans hbroker)
          exact ⟨t, by rw [hsame]; rfl⟩
  | lost => exact absurd rfl hin.here
  | _ => exact absurd hws hb.not_quiet

/-- While every call leaves its critical section before the TTL of its lock has passed, a
commit that makes an assignment of a broker active is one of the owner of the broker's lock,
and nobody else is in that broker's critical section. -/
theorem owned_of_inTime (s : Settings) {w : World} {p : Pools}
    (h : (system s).Reach (Idle w) InTime p) {i : Nat} {b : BrokerId} {ws : List Write}
    (hasks : p.Asks i (.commit ws)) (hb : p.world.db.Engages b ws) :
    (∃ t, Drew i t p.trace ∧ p.world.locks (.brokerIp b) = some t) ∧
      ∀ j ttl t w', Inside p j b ttl t w' → j = i := by
  obtain ⟨hinv, hloc⟩ := (leases s w).sound (fun p hp => by
    cases hp
    exact ⟨tokens_nil w, rfl⟩) h
  obtain ⟨k, hk⟩ := hasks
  obtain ⟨ph, hf, hin⟩ := hloc i _ hk
  have hin := hin ⟨_, _, rfl⟩
  obtain ⟨t, hlock⟩ := lock_of_engages hin hf.allows.2 hb
  have howned : HasLock i b t p.past := (hin.lease b t hlock).lock
  refine ⟨⟨t, howned.drew, howned.lock⟩, fun j ttl t' w' hj => ?_⟩
  obtain ⟨⟨r, k', hk'⟩, htaken⟩ := hj
  obtain ⟨ph', _, hin'⟩ := hloc j _ hk'
  have hin' := hin' ⟨_, _, rfl⟩
  exact same_holder hinv (hin'.lease b t' (hin'.taken b ttl t' w' htaken)).lock howned

/-! ## A rotation with a long drain -/

/-- `Leased`, computed. -/
def leasedCheck (s : Pools) : Happening → Bool
  | .start c => c.ofIps
  | .tick (.expireLock k) => s.trace.all fun x =>
      match x.2.1 with
      | .acquire k' ttl t =>
          k' != k || s.world.locks k' != some t || x.2.2.clock + ttl ≤ s.world.clock
      | _ => true
  | .tick (.advance n) => s.trace.all fun x =>
      match x.2.1 with
      | .acquire k ttl t => s.world.locks k != some t || s.world.clock + n ≤ x.2.2.clock + ttl
      | _ => true
  | _ => true

theorem leased_of_check (s : Pools) (ev : Happening) (h : leasedCheck s ev = true) :
    Leased s ev := by
  cases ev with
  | start c => exact h
  | tick v =>
      cases v with
      | expireLock k =>
          intro i ttl t w hx heq
          have := List.all_eq_true.mp h _ hx
          simpa [heq] using this
      | advance n =>
          intro i k ttl t w hx heq
          have := List.all_eq_true.mp h _ hx
          simpa [heq] using this
      | _ => trivial
  | _ => trivial

/-- The call has nothing left to ask. -/
def isOver (s : Pools) (i : Nat) : Bool :=
  match s.prog? i with
  | some (.call _ _) => false
  | _ => true

/-- `InTime`, computed: every call that is not over is within the TTL of the locks it has
asked for. -/
def inTimeCheck (s : Pools) (ev : Happening) : Bool :=
  leasedCheck s ev &&
  match ev with
  | .tick (.advance n) => s.trace.all fun x =>
      match x.2.1 with
      | .acquire _ ttl _ => isOver s x.1 || s.world.clock + n < x.2.2.clock + ttl
      | _ => true
  | _ => true

theorem inTime_of_check (s : Pools) (ev : Happening) (h : inTimeCheck s ev = true) :
    InTime s ev := by
  obtain ⟨hleased, h⟩ := Bool.and_eq_true_iff.mp h
  refine ⟨leased_of_check s ev hleased, ?_⟩
  cases ev with
  | tick v =>
      cases v with
      | advance n =>
          rintro i b ttl t w ⟨⟨r, k, hk⟩, htaken⟩
          have := List.all_eq_true.mp h _ htaken.mem
          simpa [isOver, hk] using this
      | _ => trivial
  | _ => trivial

/-- A broker whose IP has an order in flight, and another IP; a drain may take so long. -/
def slowDrain (seconds : Int) : World where
  db :=
    { config := { drainTimeoutSeconds := some (.value seconds) }
      clients := .of [{ id := 1 }]
      brokers := .of [{ id := 2, clientId := 1 }]
      ips := .of
        [{ id := 3, externalId := 4, ipAddress := "192.0.2.1", region := "ewr" },
         { id := 5, externalId := 6, ipAddress := "192.0.2.2", region := "ewr" }]
      assignments := .of
        [{ id := 7, clientId := 1, brokerAccountId := 2, staticIpId := 3 }]
      orders := .of
        [{ id := 8, clientId := 1, clientOrderId := "a", symbol := "X", side := "BUY",
           quantity := 1, status := .submitting, staticIpId := some 3 }] }

/-- The rotation up to the sleep of its drain; that sleep takes some time. -/
def drained (seconds : Nat) : List Happening :=
  .start (.rotate 2 false) ::
    List.replicate 27 (.step 0 { address := "192.0.2.3", polls := 1 }) ++
    [.tick (.advance seconds)]

/-- The broker's other IP is to be assigned meanwhile; then the rotation goes on to the
commit of its abort. -/
def assignedMeanwhile : List Happening :=
  .start (.assign 5 2 none) :: List.replicate 3 (.step 1 {}) ++ List.replicate 3 (.step 0 {})

/-- `Db.Engages`, computed for one write. -/
def engagesCheck (d : Db) (b : BrokerId) : Write → Bool
  | .addAssignment r => r.activeFor b
  | .setAssignment a (.status .active) => d.brokerOf a = some b
  | _ => false

theorem engages_of_check {d : Db} {b : BrokerId} {ws : List Write}
    (h : ws.any (engagesCheck d b) = true) : d.Engages b ws := by
  obtain ⟨x, hx, hcheck⟩ := List.any_eq_true.mp h
  cases x with
  | addAssignment r => exact .inl ⟨r, hx, hcheck⟩
  | setAssignment a f =>
      cases f with
      | status st =>
          cases st with
          | active => exact .inr ⟨a, hx, of_decide_eq_true hcheck⟩
          | _ => exact nomatch hcheck
      | _ => exact nomatch hcheck
  | _ => exact nomatch hcheck

/-- The call waits for a commit that makes an assignment of the broker active. -/
def asksToEngage (s : Pools) (i : Nat) (b : BrokerId) : Bool :=
  match s.prog? i with
  | some (.call (.commit ws) _) => ws.any (engagesCheck s.world.db b)
  | _ => false

theorem asks_of_check {s : Pools} {i : Nat} {b : BrokerId} (h : asksToEngage s i b = true) :
    ∃ ws, s.Asks i (.commit ws) ∧ s.world.db.Engages b ws := by
  unfold asksToEngage at h
  split at h
  · next ws k hk => exact ⟨ws, ⟨k, hk⟩, engages_of_check h⟩
  · cases h

theorem owned_within_ttl :
    let p := (system {}).run { world := slowDrain 50 } (drained 50 ++ assignedMeanwhile)
    (∃ t, Drew 0 t p.trace ∧ p.world.locks (.brokerIp 2) = some t) ∧
      ∀ j ttl t w', Inside p j 2 ttl t w' → j = 0 := by
  have hrun : (system {}).Reach (Idle (slowDrain 50)) InTime
      ((system {}).run { world := slowDrain 50 } (drained 50 ++ assignedMeanwhile)) :=
    Machine.reach_run_of_check inTime_of_check (reach_idle (slowDrain 50)) _ (by decide +kernel)
  have hasks : asksToEngage
      ((system {}).run { world := slowDrain 50 } (drained 50 ++ assignedMeanwhile)) 0 2 = true := by
    decide +kernel
  obtain ⟨ws, hcommit, hb⟩ := asks_of_check hasks
  exact owned_of_inTime {} hrun hcommit hb

/-- Who makes an assignment of a broker active owns the broker's lock then, and nobody
else is in the broker's critical section. -/
def LockOutlives (s : Settings) : Prop :=
  ∀ (w : World) (p : Pools), (system s).Reach (Idle w) Leased p →
    ∀ i b ws, p.Asks i (.commit ws) → p.world.db.Engages b ws →
      (∃ t, Drew i t p.trace ∧ p.world.locks (.brokerIp b) = some t) ∧
        ∀ j ttl t w', Inside p j b ttl t w' → j = i

/-- The lock expires while the rotation drains for two minutes, and another call takes it. -/
def expired : List Happening :=
  drained 60 ++ [.tick (.expireLock (.brokerIp 2)), .tick (.advance 60)] ++ assignedMeanwhile

theorem not_lockOutlives : ¬ LockOutlives {} := by
  intro h
  have hrun : (system {}).Reach (Idle (slowDrain 120)) Leased
      ((system {}).run { world := slowDrain 120 } expired) :=
    Machine.reach_run_of_check leased_of_check (reach_idle (slowDrain 120)) _ (by decide +kernel)
  have hasks : asksToEngage ((system {}).run { world := slowDrain 120 } expired) 0 2 = true := by
    decide +kernel
  obtain ⟨ws, hcommit, hb⟩ := asks_of_check hasks
  obtain ⟨⟨t, ⟨w, hdrew, rfl⟩, hlock⟩, _⟩ := h _ _ hrun 0 2 ws hcommit hb
  have hother : ((system {}).run { world := slowDrain 120 } expired).trace.all (fun x =>
      match x with
      | (0, .newId, w) =>
          ((system {}).run { world := slowDrain 120 } expired).world.locks (.brokerIp 2)
            != some w.freshId
      | _ => true) = true := by decide +kernel
  have := List.all_eq_true.mp hother _ hdrew
  simp [hlock] at this

end BrokerBridge
