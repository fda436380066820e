import BrokerBridge.Orders.Keyed
import BrokerBridge.World.Locks

/-!
# Locks are given back

Whatever calls run side by side, a call that has ended holds no lock under a token of its own,
unless it ended with a lock request that raised while it held another lock under the same token.
Only `assign` makes such a request. No step of a call touches a lock held under another token.
-/

namespace BrokerBridge

open Conc

/-- Call `i` holds no lock. -/
def HoldsNoLock (i : Nat) (h : Past World Req) : Prop := ∀ k t, Drew i t h.2 → h.1.locks k ≠ some t

/-- No step answers with a cancellation, and the releases of the lock provider succeed. -/
def Orderly (s : Pools) : Happening → Prop
  | .step i e => ∀ r, s.Asks i r → r.exn? (handle r e s.world).1 ≠ some .cancelled ∧
      ∀ k t, r = .release k t → e.fault = none
  | _ => True

/-- The request is for a lock, and fails while another is held under its token. -/
def Strands (r : Req) (e : Env) (w : World) : Prop :=
  ∃ k ttl t, r = .acquire k ttl t ∧ e.fault ≠ none ∧ ∃ k', w.locks k' = some t

/-- Nor does a lock request raise while its call holds another lock under the same token. -/
def Sparing (s : Pools) (ev : Happening) : Prop :=
  Orderly s ev ∧ ∀ i e r, ev = .step i e → s.Asks i r → ¬ Strands r e s.world

/-- What holds of call `i` in each phase. -/
def Custody.Right (i : Nat) : Custody → Past World Req → Prop
  | void, _ => False
  | leaked _ _, h => HoldsNoLock i h
  | has drawn held, h => (∀ t ∈ drawn, Drew i t h.2) ∧
      ∀ k t, Drew i t h.2 → h.1.locks k = some t → (k, t) ∈ held

/-- Tokens are drawn once, and every lock is held under one that has been drawn. -/
structure LocksDrawn (h : Past World Req) : Prop where
  apart : TokensApart h
  below : ∀ k t, h.1.locks k = some t → t < h.1.nextId

section Steps

variable {i j : Nat} {h : Past World Req} {r : Req} {k : LockKey} {t : Nat}

theorem Drew.of_cons {x : Nat × Req × World} {tr : List (Nat × Req × World)}
    (h : Drew j t (x :: tr)) :
    Drew j t tr ∨ x.1 = j ∧ x.2.1 = .newId ∧ x.2.2.freshId = t := by
  obtain ⟨w, hw, rfl⟩ := h
  rcases List.mem_cons.mp hw with rfl | hw
  · exact .inr ⟨rfl, rfl, rfl⟩
  · exact .inl ⟨w, hw, rfl⟩

/-- A lock that is held was held before, or has just been taken. -/
theorem locks_before {e : Env} {w : World} (hk : (handle r e w).2.locks k = some t) :
    w.locks k = some t ∨ ∃ ttl, r = .acquire k ttl t := by
  by_cases hl : r.locks k
  · cases r with
    | acquire k' ttl t' =>
        obtain rfl : k' = k := hl
        simp only [handle] at hk
        split at hk
        · exact .inl ((Env.answer_locks e _ _ rfl).symm.trans hk)
        · rcases Env.answer_cases e .redisUnavailable w true
            (w.setLock k' (some t')) with ⟨f, hf⟩ | hf
          · rw [hf] at hk
            exact .inl hk
          · rw [hf] at hk
            obtain rfl : t' = t := Option.some_inj.mp ((setLock_self w k' _).symm.trans hk)
            exact .inr ⟨ttl, rfl⟩
    | release k' t' =>
        obtain rfl : k' = k := hl
        refine .inl ?_
        simp only [handle] at hk
        rcases Env.answer_cases e .redisUnavailable w ()
          (if w.locks k' = some t' then w.setLock k' none else w) with ⟨f, hf⟩ | hf
        · rw [hf] at hk
          exact hk
        · rw [hf] at hk
          split at hk
          · rw [setLock_self] at hk
            cases hk
          · exact hk
    | _ => exact hl.elim
  · exact .inl ((handle_locks hl e w).symm.trans hk)

theorem LocksDrawn.after (hd : LocksDrawn h) (e : Env)
    (ht : ∀ k ttl t, r = .acquire k ttl t → Drew i t h.2) :
    LocksDrawn ((handle r e h.1).2, (i, r, h.1) :: h.2) := by
  refine ⟨hd.apart.after i r e, fun k t hk => ?_⟩
  refine Nat.lt_of_lt_of_le ?_ (handle_nextId r e h.1)
  rcases locks_before hk with hk | ⟨ttl, heq⟩
  · exact hd.below k t hk
  · exact hd.apart.lt i t (ht k ttl t heq)

/-- No step touches a lock held under a token of another call. -/
theorem others_kept {drawn : List Nat} {held : List (LockKey × Nat)}
    (hr : Custody.Right i (.has drawn held) h)
    (hallow : custody.allows (.has drawn held) r) (e : Env) (hk : h.1.locks k = some t)
    (hnot : ¬ Drew i t h.2) : (handle r e h.1).2.locks k = some t := by
  cases r with
  | acquire k' ttl t' => exact acquire_held hk e
  | release k' t' => exact release_held hk (fun heq => hnot (heq ▸ hr.1 t' hallow)) e
  | _ => exact (handle_locks id e h.1).trans hk

theorem acquire_refused {ttl : Int} {e : Env} {w : World}
    (hx : (handle (.acquire k ttl t) e w).1 ≠ .ok true) :
    (handle (.acquire k ttl t) e w).2 = w := by
  simp only [handle] at hx ⊢
  split
  · rcases Env.answer_cases e .redisUnavailable w (_ == t) w with ⟨f, hf⟩ | hf <;> rw [hf]
  · next hfree =>
      rcases Env.answer_cases e .redisUnavailable w true (w.setLock k (some t)) with ⟨f, hf⟩ | hf
      · rw [hf]
      · rw [hfree] at hx
        exact absurd (congrArg Prod.fst hf) hx

/-- A request that takes no lock and draws nothing changes nothing of this. -/
theorem right_same {drawn : List Nat} {held held' : List (LockKey × Nat)}
    (hr : Custody.Right i (.has drawn held) h) (hne : r ≠ .newId) (e : Env)
    (hheld : ∀ k t, (handle r e h.1).2.locks k = some t → Drew i t h.2 → (k, t) ∈ held →
      (k, t) ∈ held')
    (hacq : ∀ k ttl t, r = .acquire k ttl t → (handle r e h.1).2.locks k = some t →
      h.1.locks k = some t ∨ (k, t) ∈ held') :
    Custody.Right i (.has drawn held') ((handle r e h.1).2, (i, r, h.1) :: h.2) := by
  refine ⟨fun t ht => (hr.1 t ht).cons _, fun k t hdrew hk => ?_⟩
  have hold : Drew i t h.2 := hdrew.of_cons.resolve_right fun hnew => hne hnew.2.1
  have hbefore : h.1.locks k = some t ∨ (k, t) ∈ held' := by
    rcases locks_before hk with hb | ⟨ttl, heq⟩
    · exact .inl hb
    · exact hacq k ttl t heq hk
  rcases hbefore with hb | hin
  · exact hheld k t hk hold (hr.2 k t hold hb)
  · exact hin

/-- A call's own request. -/
theorem right_own {drawn : List Nat} {held : List (LockKey × Nat)}
    (hr : Custody.Right i (.has drawn held) h) (hd : LocksDrawn h) (e : Env)
    (hexn : r.exn? (handle r e h.1).1 ≠ some .cancelled)
    (hrel : ∀ k t, r = .release k t → e.fault = none) :
    (∃ drawn' held', custody.advance (.has drawn held) r (handle r e h.1).1 = .has drawn' held' ∧
      Custody.Right i (.has drawn' held') ((handle r e h.1).2, (i, r, h.1) :: h.2)) ∨
    ∃ k ttl t, r = .acquire k ttl t ∧ e.fault ≠ none ∧ (∃ k', (k', t) ∈ held) ∧
      custody.advance (.has drawn held) r (handle r e h.1).1 = .leaked t held := by
  have hadv : custody.advance (.has drawn held) r (handle r e h.1).1 =
      Custody.granted drawn held r (handle r e h.1).1 := if_neg hexn
  rw [hadv]
  cases r with
  | newId =>
      have hfresh : h.1.freshId ∉ drawn := fun hin =>
        Nat.lt_irrefl _ (Nat.lt_of_lt_of_le (hd.apart.lt i _ (hr.1 _ hin)) (nextId_le_freshId h.1))
      refine .inl ⟨h.1.freshId :: drawn, held, if_neg hfresh, fun t ht =>
        ?_, fun k t hdrew hk => ?_⟩
      · rcases List.mem_cons.mp ht with rfl | ht
        · exact drew_newId i h
        · exact (hr.1 t ht).cons _
      · rcases hdrew.of_cons with hold | ⟨_, _, rfl⟩
        · exact hr.2 k t hold hk
        · exact absurd (Nat.lt_of_lt_of_le (hd.below k _ hk) (nextId_le_freshId h.1))
            (Nat.lt_irrefl _)
  | acquire k ttl t =>
      by_cases hgot : (handle (.acquire k ttl t) e h.1).1 = .ok true
      · rw [hgot]
        refine .inl ⟨drawn, (k, t) :: held, rfl, right_same hr (fun heq => by cases heq) e
          (fun _ _ _ _ hin => List.mem_cons_of_mem _ hin) fun k' ttl' t' heq _ => .inr ?_⟩
        cases heq
        exact List.mem_cons_self
      have hsame : Custody.Right i (.has drawn held)
          ((handle (.acquire k ttl t) e h.1).2, (i, .acquire k ttl t, h.1) :: h.2) :=
        right_same hr (fun heq => by cases heq) e (fun _ _ _ _ => id)
          fun k' ttl' t' _ hk => .inl (by
          rwa [acquire_refused hgot] at hk)
      cases hx : (handle (.acquire k ttl t) e h.1).1 with
      | ok got =>
          cases got with
          | true => exact absurd hx hgot
          | false => exact .inl ⟨drawn, held, rfl, hsame⟩
      | error f =>
          show (∃ drawn' held',
            (if held.any (·.2 == t) = true then Custody.leaked t held else .has drawn held) = _ ∧
              _) ∨ _
          by_cases hany : held.any (·.2 == t) = true
          · obtain ⟨x, hx', heq⟩ := List.any_eq_true.mp hany
            refine .inr ⟨k, ttl, t, rfl, fun hnone => ?_, ⟨x.1, beq_iff_eq.mp heq ▸ hx'⟩,
              if_pos hany⟩
            simp only [handle] at hx
            split at hx <;> simp only [Env.answer, hnone] at hx <;> cases hx
          · exact .inl ⟨drawn, held, if_neg hany, hsame⟩
  | release k t =>
      have hok : handle (.release k t) e h.1 =
          (.ok (), if h.1.locks k = some t then h.1.setLock k none else h.1) := by
        simp only [handle, Env.answer, hrel k t rfl]
      rw [hok]
      refine .inl ⟨drawn, held.filter (· ≠ (k, t)), rfl, ?_⟩
      rw [← hok]
      refine right_same hr (fun heq => by cases heq) e
        (fun k' t' hk _ hin => List.mem_filter.mpr ⟨hin, ?_⟩) fun _ _ _ heq => by cases heq
      refine decide_eq_true fun heq => ?_
      cases heq
      rw [hok] at hk
      simp only at hk
      split at hk
      · rw [setLock_self] at hk
        cases hk
      · next hnot => exact hnot hk
  | _ =>
      exact .inl ⟨drawn, held, rfl, right_same hr (fun heq => by cases heq) e (fun _ _ _ _ => id)
        fun _ _ _ heq => by cases heq⟩

/-- A lock that raises under the token of others leaks them, when it ends the call: it leaves
no lock held exactly when none of them was held any more. -/
theorem free_of_leaked {drawn : List Nat} {held : List (LockKey × Nat)} {ttl : Int} {e : Env}
    (hr : Custody.Right i (.has drawn held) h) (hdrew : Drew i t h.2) (hf : e.fault ≠ none)
    (hgone : (Custody.leaked t held).Gone) :
    HoldsNoLock i ((handle (.acquire k ttl t) e h.1).2, (i, .acquire k ttl t, h.1) :: h.2) ↔
      ¬ Strands (.acquire k ttl t) e h.1 := by
  have hworld : (handle (.acquire k ttl t) e h.1).2 = h.1 := by
    refine acquire_refused fun hok => hf ?_
    simp only [handle] at hok
    split at hok <;> unfold Env.answer at hok <;> split at hok <;> first | assumption | cases hok
  rw [hworld]
  constructor
  · rintro hfree ⟨k', ttl', t', heq, _, k'', hk⟩
    cases heq
    exact hfree k'' t (hdrew.cons _) hk
  · intro hnot k' t' hd hk
    have hold : Drew i t' h.2 := hd.of_cons.resolve_right fun hnew => by cases hnew.2.1
    obtain rfl : t' = t := hgone _ (hr.2 k' t' hold hk)
    exact hnot ⟨k, ttl, t', rfl, hf, k', hk⟩

/-- What a call that has ended holds. -/
theorem free_of_gone {drawn : List Nat} {held : List (LockKey × Nat)}
    (hr : Custody.Right i (.has drawn held) h) (hgone : (Custody.has drawn held).Gone) :
    HoldsNoLock i h := by
  intro k t hdrew hk
  obtain rfl : held = [] := hgone
  cases hr.2 k t hdrew hk

/-- Where a lock of the call is still held, a lock that raises under its token leaks it. -/
theorem leaked_of_strands {drawn drawn' : List Nat} {held held' : List (LockKey × Nat)} {e : Env}
    (hr : Custody.Right i (.has drawn held) h) (hallow : custody.allows (.has drawn held) r)
    (hexn : r.exn? (handle r e h.1).1 ≠ some .cancelled) (hs : Strands r e h.1) :
    custody.advance (.has drawn held) r (handle r e h.1).1 ≠ .has drawn' held' := by
  obtain ⟨k, ttl, t, rfl, hf, k', hk⟩ := hs
  have hin : (k', t) ∈ held := hr.2 k' t (hr.1 t hallow) hk
  have hany : held.any (·.2 == t) = true := List.any_eq_true.mpr ⟨_, hin, beq_self_eq_true t⟩
  obtain ⟨f, hfault⟩ := Option.ne_none_iff_exists'.mp hf
  have hx : (handle (.acquire k ttl t) e h.1).1 = .error (f.exn .redisUnavailable) := by
    simp only [handle]
    split <;> simp only [Env.answer, hfault]
  have hleak : custody.advance (.has drawn held) (.acquire k ttl t)
      (handle (.acquire k ttl t) e h.1).1 = .leaked t held := by
    refine (if_neg hexn).trans ?_
    rw [hx]
    exact if_pos hany
  rw [hleak]
  intro heq
  cases heq

theorem Prog.Follows.leaked {α : Type} {p : Prog Req Req.Ans α} {held : List (LockKey × Nat)}
    (hf : p.Follows custody (fun _ ph => ph.Gone) (.leaked t held)) :
    (Custody.leaked t held).Gone := by
  cases p with
  | ret a => exact hf
  | call r k => exact hf.1.elim

/-- What another call asks for leaves a call's tokens and locks alone. -/
theorem right_other {ph : Custody} {drawn : List Nat} {held : List (LockKey × Nat)}
    (hr' : ph.Right j h) (hr : Custody.Right i (.has drawn held) h) (hd : LocksDrawn h)
    (hij : j ≠ i)
    (hallow : custody.allows (.has drawn held) r) (e : Env) :
    ph.Right j ((handle r e h.1).2, (i, r, h.1) :: h.2) := by
  have hback : ∀ k t, Drew j t ((i, r, h.1) :: h.2) → (handle r e h.1).2.locks k = some t →
      Drew j t h.2 ∧ h.1.locks k = some t := by
    intro k t hdrew hk
    have hold : Drew j t h.2 := hdrew.of_cons.resolve_right fun hnew => hij hnew.1.symm
    refine ⟨hold, (locks_before hk).resolve_right ?_⟩
    rintro ⟨ttl, rfl⟩
    exact hij (hd.apart.unique j i t hold (hr.1 t hallow))
  cases ph with
  | void => exact hr'
  | leaked =>
      intro k t hdrew hk
      obtain ⟨hdrew, hk⟩ := hback k t hdrew hk
      exact hr' k t hdrew hk
  | has =>
      refine ⟨fun t ht => (hr'.1 t ht).cons _, fun k t hdrew hk => ?_⟩
      obtain ⟨hdrew, hk⟩ := hback k t hdrew hk
      exact hr'.2 k t hdrew hk

theorem right_fewer {ph : Custody} {w : World} (hr : ph.Right j h)
    (hw : ∀ k t, w.locks k = some t → h.1.locks k = some t) : ph.Right j (w, h.2) := by
  cases ph with
  | void => exact hr
  | leaked => exact fun k t hdrew hk => hr k t hdrew (hw k t hk)
  | has => exact ⟨hr.1, fun k t hdrew hk => hr.2 k t hdrew (hw k t hk)⟩

theorem tick_locks (v : Tick) (w : World) (k : LockKey) (t : Nat)
    (hk : (tick v w).locks k = some t) :
    w.locks k = some t := by
  cases v with
  | expireLock k' =>
      by_cases hkk : k = k'
      · subst hkk
        cases (setLock_self w k none).symm.trans hk
      · exact (setLock_ne hkk).symm.trans hk
  | _ => exact hk

end Steps

/-! ## The runs -/

/-- In a run that spares its locks, every call stands where its phase says. -/
def custodies (settings : Settings) (w : World) :
    Annotation (system settings) custody (fun _ ph => ph.Gone) (Idle w) Sparing where
  inv := LocksDrawn
  holds i ph _ h := ph.Right i h
  start {p c} hreach _ _ := by
    have hnone : ∀ t, ¬ Drew p.threads.length t p.trace := by
      rintro t ⟨w', hw', _⟩
      have hlt : p.threads.length < p.threads.length := hreach.trace_lt (fun p hp => by
        cases hp
        rfl) _ hw'
      exact Nat.lt_irrefl _ hlt
    exact ⟨.has [] [], programOf_keyed settings c, List.forall_mem_nil _,
      fun k t hdrew _ => absurd hdrew (hnone t)⟩
  own {p i e r k ph} hreach hc hk hf hinv hr _ := by
    have hasks : p.Asks i r := ⟨k, hk⟩
    obtain ⟨hexn, hrel⟩ := hc.1 r hasks
    cases ph with
    | void => exact hr.elim
    | leaked => exact hf.1.elim
    | has drawn held =>
        refine ⟨hinv.after e fun k ttl t heq => ?_, ?_⟩
        · subst heq
          exact hr.1 t hf.1
        have hnext := hf.next (handle r e p.world).1
        show (custody.advance (.has drawn held) r (handle r e p.world).1).Right i _
        rcases right_own hr hinv e hexn hrel with ⟨drawn', held', hadv, hr'⟩
          | ⟨k', ttl, t, heq, hfault, _, hadv⟩
        · exact Eq.mpr (congrArg (Custody.Right i · _) hadv) hr'
        · have hgone := Prog.Follows.leaked (Eq.mp (congrArg (Prog.Follows custody _ _) hadv) hnext)
          refine Eq.mpr (congrArg (Custody.Right i · _) hadv) ?_
          subst heq
          exact (free_of_leaked hr (hr.1 t hf.1) hfault hgone).mpr (hc.2 i e _ rfl hasks)
  other {p i j e r k q ph ph'} _ _ _ hij hf _ hinv hr hr' := by
    cases ph with
    | void => exact hr.elim
    | leaked => exact hf.1.elim
    | has => exact right_other hr' hr hinv hij hf.1 e
  tick {p v} _ hinv := by
    refine ⟨?_, fun k t hk => ?_⟩
    · cases v <;> exact ⟨hinv.apart.lt, hinv.apart.unique⟩
    · have hid : (tick v p.world).nextId = p.world.nextId := by cases v <;> rfl
      show t < (tick v p.world).nextId
      rw [hid]
      exact hinv.below k t (tick_locks v p.world k t hk)
  tick_holds {p v j ph q} _ _ _ hr := right_fewer hr (tick_locks v p.world)

theorem locks_given_back (settings : Settings) (w : World)
    (hlocks : ∀ k t, w.locks k = some t → t < w.nextId) {s : Pools}
    (h : (system settings).Reach (Idle w) Sparing s) :
    (∀ i a, s.Returned i a → HoldsNoLock i s.past) ∧
    ∀ i e r k, s.prog? i = some (.call r k) → Orderly s (.step i e) →
      (∀ key t, s.world.locks key = some t → ¬ Drew i t s.trace →
        (handle r e s.world).2.locks key = some t) ∧
      ∀ a, k (handle r e s.world).1 = .ret a →
        (HoldsNoLock i ((system settings).next s (.step i e)).past ↔ ¬ Strands r e s.world) := by
  obtain ⟨hinv, hloc⟩ := (custodies settings w).sound (fun p hp => by
    cases hp
    exact ⟨⟨tokens_nil w, hlocks⟩, rfl⟩) h
  refine ⟨fun i a ha => ?_, fun i e r k hk ho => ?_⟩
  · obtain ⟨ph, hgone, hr⟩ := hloc i _ ha
    cases ph with
    | void => exact hr.elim
    | leaked => exact hr
    | has => exact free_of_gone hr hgone
  obtain ⟨ph, hf, hr⟩ := hloc i _ hk
  obtain ⟨hexn, hrel⟩ := ho r ⟨k, hk⟩
  cases ph with
  | void => exact hr.elim
  | leaked => exact hf.1.elim
  | has drawn held =>
      refine ⟨fun key t hkey hnot => others_kept hr hf.1 e hkey hnot, fun a ha => ?_⟩
      rw [Machine.next_step_of_asks e hk]
      have hgone : (custody.advance (.has drawn held) r (handle r e s.world).1).Gone := by
        have hnext := hf.next (handle r e s.world).1
        rw [ha] at hnext
        exact hnext
      rcases right_own hr hinv e hexn hrel with ⟨drawn', held', hadv, hr'⟩
        | ⟨k', ttl, t, heq, hfault, _, hadv⟩
      · have hgone' : (Custody.has drawn' held').Gone := Eq.mp (congrArg Custody.Gone hadv) hgone
        exact iff_of_true (free_of_gone hr' hgone') fun hs => leaked_of_strands hr hf.1 hexn hs hadv
      · subst heq
        exact free_of_leaked hr (hr.1 t hf.1) hfault (Eq.mp (congrArg Custody.Gone hadv) hgone)

/-! ## Two runs -/

def orderlyAt (s : Pools) : Happening → Bool
  | .step i e =>
      match s.prog? i with
      | some (.call r _) => decide (r.exn? (handle r e s.world).1 ≠ some .cancelled) &&
          match r with
          | .release _ _ => e.fault.isNone
          | _ => true
      | _ => true
  | _ => true

/-- No lock request fails. -/
def sparingAt (s : Pools) : Happening → Bool
  | .step i e =>
      match s.prog? i with
      | some (.call (.acquire _ _ _) _) => e.fault.isNone
      | _ => true
  | _ => true

theorem orderly_of_check (s : Pools) (ev : Happening) (h : orderlyAt s ev = true) :
    Orderly s ev := by
  cases ev with
  | step i e =>
      rintro r ⟨k, hk⟩
      simp only [orderlyAt, hk, Bool.and_eq_true, decide_eq_true_eq] at h
      refine ⟨h.1, ?_⟩
      rintro key t rfl
      exact Option.isNone_iff_eq_none.mp h.2
  | _ => trivial

theorem sparing_of_check (s : Pools) (ev : Happening)
    (h : (orderlyAt s ev && sparingAt s ev) = true) : Sparing s ev := by
  obtain ⟨ho, hs⟩ := Bool.and_eq_true_iff.mp h
  refine ⟨orderly_of_check s ev ho, ?_⟩
  rintro i e _ rfl ⟨k, hk⟩ ⟨key, ttl, t, rfl, hf, _⟩
  simp only [sparingAt, hk] at hs
  exact hf (Option.isNone_iff_eq_none.mp hs)

/-- A broker and an IP that nobody has. -/
def oneFree : World where
  db :=
    { clients := .of [{ id := 1 }]
      brokers := .of [{ id := 2, clientId := 1 }]
      ips := .of [{ id := 3, externalId := 4, ipAddress := "192.0.2.1", region := "ewr" }] }

/-- The broker is assigned the IP, under the locks of both. -/
def assignedOnce : List Happening :=
  .start (.assign 3 2 none) :: List.replicate 15 (.step 0 {})

theorem locks_given_back_assign :
    HoldsNoLock 0 ((system {}).run { world := oneFree } assignedOnce).past :=
  (locks_given_back {} oneFree (fun _ _ h => by cases h)
    (Machine.reach_run_of_check sparing_of_check (reach_idle oneFree) assignedOnce
      (by decide +kernel))).1 0 _ (by rfl)

/-- Once a call has ended it holds no lock, and no step touches a lock of another call. -/
def LocksGivenBack (settings : Settings) : Prop :=
  ∀ (w : World) (s : Pools), (∀ k t, w.locks k = some t → t < w.nextId) →
    (system settings).Reach (Idle w) Orderly s →
    (∀ i a, s.Returned i a → HoldsNoLock i s.past) ∧
    ∀ i e r, s.Asks i r → Orderly s (.step i e) → ∀ key t, s.world.locks key = some t →
      ¬ Drew i t s.trace → (handle r e s.world).2.locks key = some t

/-- `assign` gets the lock of the broker, and Redis is down when it asks for the IP's. -/
def secondLockDown : List Happening :=
  [.start (.assign 1 2 none), .step 0 {}, .step 0 {}, .step 0 { fault := some .failed }]

theorem not_locksGivenBack : ¬ LocksGivenBack {} := by
  intro h
  have hrun : (system {}).Reach (Idle {}) Orderly
    ((system {}).run { world := {} } secondLockDown) :=
    Machine.reach_run_of_check orderly_of_check (reach_idle {}) _ (by decide +kernel)
  have hended : ((system {}).run { world := {} } secondLockDown).Returned 0
      (.error (redisUnavailable "IP lock")) := by rfl
  refine (h {} _ nofun hrun).1 0 _ hended (.brokerIp 2) _ ⟨_, List.mem_of_getLast? (by rfl), rfl⟩ ?_
  decide +kernel

end BrokerBridge
