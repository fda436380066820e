import BrokerBridge.Code.Alone
import BrokerBridge.Code.Draft
import BrokerBridge.Subscriptions.Teardown

/-!
# When a completed teardown is complete

`enforce_expiry` marks every due subscription as torn down, also when calls of the
provider have raised. What it did to the instances is read off its run: which of them it
came to, and which calls the provider accepted. `honest_iff` says for which of these runs
the mark is right.
-/

namespace BrokerBridge

open Conc

/-- The provider's instances, as far as a teardown is about them: which ones may run, and
which ones are renewed. -/
structure ProviderView where
  runs : ExternalId → Bool
  renews : ExternalId → Bool

namespace ProviderView

variable (v : ProviderView) (ext : ExternalId)

def stop : ProviderView := { v with runs := fun e => if e = ext then false else v.runs e }

def setRenew (enabled : Bool) : ProviderView :=
  { v with renews := fun e => if e = ext then enabled else v.renews e }

end ProviderView

/-- A run of the teardown: the instances that it still has to visit, those whose renewal it has
turned off, those that it has torn down, those whose turn was cut short, and the provider. -/
structure Visits where
  waiting : List Instance := []
  off : List Instance := []
  torn : List Instance := []
  cut : List Instance := []
  provider : ProviderView

namespace Visits

variable (ρ : Visits)

/-- The provider has stopped the instance whose turn it is. -/
def tearDown (ext : ExternalId) : Visits :=
  { ρ with
    waiting := ρ.waiting.tail
    torn := ρ.torn ++ ρ.waiting.head?.toList
    provider := ρ.provider.stop ext }

/-- A call of the provider has raised. -/
def cutShort : Visits :=
  { ρ with waiting := ρ.waiting.tail, cut := ρ.cut ++ ρ.waiting.head?.toList }

def turnOff (ext : ExternalId) (enabled : Bool) : Visits :=
  { ρ with
    off := ρ.off ++ ρ.waiting.head?.toList
    provider := ρ.provider.setRenew ext enabled }

/-- Each query for live instances begins a loop; a call that raises ends the turn of an
instance. -/
def hear : (r : Req) → r.Ans → Visits
  | .query _ (.liveInstances _), .ok insts => { ρ with waiting := insts }
  | .infra (.setAutoRenew ext enabled), .ok _ => ρ.turnOff ext enabled
  | .infra (.destroyInstance ext), .ok _ => ρ.tearDown ext
  | .infra (.suspendInstance ext), .ok _ => ρ.tearDown ext
  | .infra _, .error _ => ρ.cutShort
  | _, _ => ρ

end Visits

/-- The answers of a teardown, with what they tell of it. -/
abbrev visited : (r : Req) → Nat × Env → World × Visits → r.Ans × (World × Visits) :=
  tracked passing Visits.hear

/-- The provider may raise an exception, and nothing else goes wrong. -/
def ProviderRaises (r : Req) (x : Nat × Env) : Prop :=
  x.2.fault = none ∨ (∃ c, r = .infra c) ∧ x.2.fault ≠ some .cancelled

/-! ## A triple for the teardown -/

/-- The session is about to commit `d`, whenever that is. -/
def Session.Holds (s : Session) (w : World) (d : Db) : Prop :=
  s.broken = false ∧ ∀ now, w.db.write? now s.pending = some d

/-- What is left of the draft and of the visits; nothing has been committed. -/
def Sweeps {α : Type} (P : Db → Visits → Prop) (t : Coro α) (Q : α → Db → Visits → Prop)
    (R : Exn → Db → Visits → Prop) : Prop :=
  ∀ s v d, s.Holds v.1 d → P d v.2 → Task.wp (Conc.turn visited ProviderRaises) t
    (fun a s' v' => v'.1.db = v.1.db ∧ ∃ d', s'.Holds v'.1 d' ∧ Q a d' v'.2)
    (fun e s' v' => v'.1.db = v.1.db ∧ ∃ d', s'.Holds v'.1 d' ∧ R e d' v'.2) s v

section Rules

variable {α β : Type} {P : Db → Visits → Prop} {R : Exn → Db → Visits → Prop} {s : Session}
  {w : World} {d : Db}

theorem Session.Holds.not_broken (h : s.Holds w d) : ¬ s.broken = true := by
  rw [h.1]
  exact Bool.false_ne_true

theorem Session.Holds.stage {v : Write} (h : s.Holds w d) (hc : v.conflicts d = false) {d' : Db}
    (hv : ∀ now, v.apply now d = d') :
    ({ s with pending := s.pending ++ [v] } : Session).Holds w d' := by
  refine ⟨h.1, fun now => ?_⟩
  rw [← hv now]
  exact Db.write?_concat (h.2 now) hc

theorem ProviderRaises.none {r : Req} {x : Nat × Env} (h : ProviderRaises r x)
    (hr : ∀ c, r ≠ .infra c) : x.2.fault = none :=
  h.resolve_right fun h' => h'.1.elim hr

theorem Sweeps.pure {a : α} {Q : α → Db → Visits → Prop} (h : ∀ d ρ, P d ρ → Q a d ρ) :
    Sweeps P (pure a) Q R :=
  fun _ v d hs hP => ⟨rfl, d, hs, h d v.2 hP⟩

theorem Sweeps.bind {t : Coro α} {f : α → Coro β} {Q : α → Db → Visits → Prop}
    {Q' : β → Db → Visits → Prop} (ht : Sweeps P t Q R) (hf : ∀ a, Sweeps (Q a) (f a) Q' R) :
    Sweeps P (t >>= f) Q' R := by
  intro s v d hs hP
  rw [Task.wp_bind]
  refine Task.wp_turn_mono (ht s v d hs hP) ?_ fun _ _ _ => id
  rintro a s' v' ⟨hdb, d', hs', hQ⟩
  rw [← hdb]
  exact hf a s' v' d' hs' hQ

theorem Sweeps.mono {t : Coro α} {P' : Db → Visits → Prop} {Q Q' : α → Db → Visits → Prop}
    {R' : Exn → Db → Visits → Prop} (h : Sweeps P t Q R) (hP : ∀ d ρ, P' d ρ → P d ρ)
    (hQ : ∀ a d ρ, Q a d ρ → Q' a d ρ) (hR : ∀ e d ρ, R e d ρ → R' e d ρ) :
    Sweeps P' t Q' R' := by
  intro s v d hs hP'
  refine Task.wp_turn_mono (h s v d hs (hP d v.2 hP')) ?_ ?_
  · rintro a s' v' ⟨hdb, d', hs', hQd⟩
    exact ⟨hdb, d', hs', hQ a d' v'.2 hQd⟩
  · rintro e s' v' ⟨hdb, d', hs', hRd⟩
    exact ⟨hdb, d', hs', hR e d' v'.2 hRd⟩

theorem Sweeps.catching {t : Coro α} {handler : Exn → Coro α} {Q : α → Db → Visits → Prop}
    {S : Exn → Db → Visits → Prop} (ht : Sweeps P t Q S) (hh : ∀ e, Sweeps (S e) (handler e) Q R) :
    Sweeps P (Task.catching t handler) Q R := by
  intro s v d hs hP
  rw [Task.wp_catching]
  refine Task.wp_turn_mono (ht s v d hs hP) (fun _ _ _ => id) ?_
  rintro e s' v' ⟨hdb, d', hs', hS⟩
  rw [← hdb]
  exact hh e s' v' d' hs' hS

theorem Sweeps.stage {v : Write} {Q : Unit → Db → Visits → Prop} {f : Db → Db}
    (hc : ∀ d, v.conflicts d = false) (hv : ∀ now d, v.apply now d = f d)
    (h : ∀ d ρ, P d ρ → Q () (f d) ρ) : Sweeps P (stage v) Q R :=
  fun _ v d hs hP => ⟨rfl, f d, hs.stage (hc d) fun now => hv now d, h d v.2 hP⟩

theorem Sweeps.enqueue {p : EventPayload} {Q : Unit → Db → Visits → Prop}
    (h : ∀ d ρ, P d ρ → Q () { d with outbox := d.outbox ++ [{ payload := p }] } ρ) :
    Sweeps P (enqueueOutbox p) Q R :=
  Sweeps.stage (fun _ => rfl) (fun _ _ => rfl) h

/-- A part of the precondition that is not about the draft. -/
theorem Sweeps.given {t : Coro α} {p : Prop} {Q : α → Db → Visits → Prop}
    (h : p → Sweeps P t Q R) : Sweeps (fun d ρ => p ∧ P d ρ) t Q R :=
  fun s v d hs hP => h hP.1 s v d hs hP.2

theorem Sweeps.assign {F : Type} [Stored α F] [DecidableEq α] {r : α} {g : F}
    {Q : α → Db → Visits → Prop} {f : Db → Db} (hc : ∀ d, (Stored.write r g).conflicts d = false)
    (hv : ∀ now d, (Stored.write r g).apply now d = f d)
    (hsame : ∀ d ρ, P d ρ → Stored.set g r = r → Q r d ρ)
    (hset : ∀ d ρ, P d ρ → Q (Stored.set g r) (f d) ρ) : Sweeps P (assign r g) Q R := by
  intro s v d hs hP
  rw [wp_assign]
  split
  · next heq => exact ⟨rfl, d, hs, hsame d v.2 hP heq⟩
  · exact ⟨rfl, f d, hs.stage (hc d) fun now => hv now d, hset d v.2 hP⟩

theorem Sweeps.execute {q : Query} {Q : q.Res → Db → Visits → Prop}
    (h : ∀ (e : Env) ρ now ws d, P d ρ →
      Q (q.eval e now d) d (ρ.hear (.query ws q) (.ok (q.eval e now d)))) :
    Sweeps P (execute q) Q R := by
  intro s v d hs hP
  rw [wp_execute, if_neg hs.not_broken]
  intro x hx
  have hfault := hx.none fun c => nofun
  have hans : passing (.query s.pending q) x v.1 =
      (.ok (q.eval x.2 (v.1.clock + x.1) d), { v.1 with clock := v.1.clock + x.1 }) := by
    show x.2.answer dbError _ (q.eval x.2 _ (v.1.db.view (v.1.clock + x.1) s.pending)) _ = _
    rw [Env.answer, hfault, Db.view, hs.2]
    rfl
  simp only [visited, tracked, hans, dbCases_ok]
  exact ⟨trivial, d, hs, h x.2 v.2 _ s.pending d hP⟩

/-- A call of the provider: it is accepted, or it raises an exception. -/
theorem Sweeps.infra {c : InfraCall} {Q : c.Res → Db → Visits → Prop}
    (hok : ∀ x d ρ, P d ρ → Q x d (ρ.hear (.infra c) (.ok x)))
    (herr : ∀ e d ρ, e.isException = true → P d ρ → R e d (ρ.hear (.infra c) (.error e))) :
    Sweeps P (infra c) Q R := by
  intro s v d hs hP
  unfold BrokerBridge.infra
  rw [Task.wp_bind]
  intro x hx
  have hdb : (passing (.infra c) x v.1).2.db = v.1.db :=
    handle_db (r := .infra c) (fun _ => nofun) x.2 _
  have hs' : s.Holds (passing (.infra c) x v.1).2 d := by
    refine ⟨hs.1, fun now => ?_⟩
    rw [hdb]
    exact hs.2 now
  cases hans : (passing (.infra c) x v.1).1 with
  | ok y =>
      simp only [visited, tracked, hans]
      exact ⟨hdb, d, hs', hok y d v.2 hP⟩
  | error e =>
      have hexn : e.isException = true := by
        change (x.2.answer infraError _ _ _).1 = .error e at hans
        rw [Env.answer] at hans
        cases hf : x.2.fault with
        | none =>
            rw [hf] at hans
            cases hans
        | some f =>
            rw [hf] at hans
            cases hans
            rcases hx with hx | ⟨_, hx⟩
            · rw [hf] at hx
              cases hx
            · cases f with
              | failed => rfl
              | failedOtherwise => rfl
              | cancelled => exact absurd hf hx
      simp only [visited, tracked, hans]
      exact ⟨hdb, d, hs', herr e d v.2 hexn hP⟩

end Rules

/-! ## One instance -/

namespace Visits

variable (ρ : Visits)

/-- The teardown of the first instance in line was tried: how far did it get? -/
def Tried (inst : Instance) (rest : List Instance) (ρ ρ' : Visits) (r : Instance) : Prop :=
  ρ'.waiting = rest ∧
  (ρ'.off = ρ.off ∧ ρ'.torn = ρ.torn ∧ ρ'.cut = ρ.cut ++ [inst] ∧ ρ'.provider = ρ.provider ∧
    r = inst ∨
   ρ'.off = ρ.off ++ [inst] ∧ ρ'.torn = ρ.torn ∧ ρ'.cut = ρ.cut ++ [inst] ∧
    ρ'.provider = ρ.provider.setRenew inst.externalId false ∧ r = { inst with autoRenew := false } ∨
   ρ'.off = ρ.off ++ [inst] ∧ ρ'.torn = ρ.torn ++ [inst] ∧ ρ'.cut = ρ.cut ∧
    ρ'.provider = (ρ.provider.setRenew inst.externalId false).stop inst.externalId ∧
    (r.status = .suspended ∨ r.status = .destroyed) ∧ r.autoRenew = false)

end Visits

section TearDown

variable {d : Db} {ρ : Visits} {inst : Instance} {rest : List Instance}
  {R : Exn → Db → Visits → Prop}

theorem sweeps_setInstance (r : Instance) (f : InstanceField) {T : Visits → Prop} :
    Sweeps (fun d' ρ => d.SetsInstance d' r ∧ T ρ) (assign r f)
      (fun x d' ρ => x = f.set r ∧ d.SetsInstance d' (f.set r) ∧ T ρ) R := by
  refine Sweeps.assign (f := fun d' => { d' with instances := d'.instances.update r.id f })
    (fun _ => rfl) (fun _ _ => rfl) (fun d' ρ h heq => ?_) fun d' ρ h => ⟨rfl, h.1.update f, h.2⟩
  have heq' : f.set r = r := heq
  rw [heq']
  exact ⟨rfl, h⟩

/-- What the turn of an instance leaves. -/
def Turned (d : Db) (ρ : Visits) (inst : Instance) (rest : List Instance) (d' : Db) (ρ' : Visits) :
    Prop :=
  ∃ r, r.id = inst.id ∧ r.clientId = inst.clientId ∧ r.externalId = inst.externalId ∧
    d.SetsInstance d' r ∧ ρ.Tried inst rest ρ' r

/-- How a turn may end that the provider has interrupted. -/
def CutShort (d : Db) (ρ : Visits) (inst : Instance) (rest : List Instance) (e : Exn) (d' : Db)
    (ρ' : Visits) : Prop :=
  e.isException = true ∧ Turned d ρ inst rest d' ρ'

theorem sweeps_stopInstance (mode : TeardownMode) (hwaiting : ρ.waiting = inst :: rest) :
    Sweeps (fun d' ρ' => d.SetsInstance d' { inst with autoRenew := false } ∧
        ρ' = ρ.turnOff inst.externalId false)
      (stopInstance { inst with autoRenew := false } mode)
      (fun _ => Turned d ρ inst rest) (CutShort d ρ inst rest) := by
  have hoff : (ρ.turnOff inst.externalId false).off = ρ.off ++ [inst] := by
    show ρ.off ++ ρ.waiting.head?.toList = _
    rw [hwaiting]
    rfl
  have htail : (ρ.turnOff inst.externalId false).waiting.tail = rest := by
    show ρ.waiting.tail = rest
    rw [hwaiting]
    rfl
  have htorn : ((ρ.turnOff inst.externalId false).tearDown inst.externalId).torn =
      ρ.torn ++ [inst] := by
    show ρ.torn ++ ρ.waiting.head?.toList = _
    rw [hwaiting]
    rfl
  have hcut : (ρ.turnOff inst.externalId false).cutShort.cut = ρ.cut ++ [inst] := by
    show ρ.cut ++ ρ.waiting.head?.toList = _
    rw [hwaiting]
    rfl
  cases mode
  all_goals
    refine Sweeps.bind (Sweeps.infra (Q := fun _ d' ρ' =>
      d.SetsInstance d' { inst with autoRenew := false } ∧
        ρ' = (ρ.turnOff inst.externalId false).tearDown inst.externalId) ?_ ?_) fun _ => ?_
    · rintro _ d' _ ⟨hset, rfl⟩
      exact ⟨hset, rfl⟩
    · rintro e d' _ hexn ⟨hset, rfl⟩
      exact ⟨hexn, { inst with autoRenew := false }, rfl, rfl, rfl, hset, htail,
        .inr (.inl ⟨hoff, rfl, hcut, rfl, rfl⟩)⟩
    refine Sweeps.bind (sweeps_setInstance _ _) fun r => Sweeps.pure ?_
    rintro d' _ ⟨rfl, hset, rfl⟩
    refine ⟨{ inst with autoRenew := false, status := _ }, rfl, rfl, rfl, hset, htail,
      .inr (.inr ⟨hoff, htorn, rfl, rfl, ?_, rfl⟩)⟩
    first | exact .inl rfl | exact .inr rfl

theorem sweeps_tearDownInstance (mode : TeardownMode) (hwaiting : ρ.waiting = inst :: rest)
    (hinst : d.instances.get? inst.id = some inst) :
    Sweeps (fun d' ρ' => d' = d ∧ ρ' = ρ) (tearDownInstance mode inst)
      (fun _ => Turned d ρ inst rest) R := by
  have htail : ρ.waiting.tail = rest := by rw [hwaiting, List.tail_cons]
  have hcut : ρ.cutShort.cut = ρ.cut ++ [inst] := by
    show ρ.cut ++ ρ.waiting.head?.toList = _
    rw [hwaiting]
    rfl
  refine Sweeps.catching (S := CutShort d ρ inst rest) ?_ fun e => ?_
  · refine Sweeps.bind (Sweeps.infra (Q := fun _ d' ρ' => d.SetsInstance d' inst ∧
      ρ' = ρ.turnOff inst.externalId false) ?_ ?_) fun _ => ?_
    · rintro _ _ _ ⟨rfl, rfl⟩
      exact ⟨Db.setsInstance_refl hinst, rfl⟩
    · rintro e _ _ hexn ⟨rfl, rfl⟩
      exact ⟨hexn, inst, rfl, rfl, rfl, Db.setsInstance_refl hinst, htail,
        .inl ⟨rfl, rfl, hcut, rfl, rfl⟩⟩
    refine Sweeps.bind (sweeps_setInstance inst (.autoRenew false)) fun r => ?_
    intro s v d' hs ⟨hr, hset, hρ⟩
    subst hr
    have hstop : Sweeps _ (stopInstance { inst with autoRenew := false } mode >>= fun _ => pure 1)
        (fun _ => Turned d ρ inst rest) (CutShort d ρ inst rest) :=
      Sweeps.bind (sweeps_stopInstance mode hwaiting) fun _ => Sweeps.pure fun _ _ => id
    exact hstop s v d' hs ⟨hset, hρ⟩
  · intro s v d' hs hcut
    rw [hcut.1]
    exact ⟨rfl, d', hs, hcut.2⟩

end TearDown

/-! ## What the visits account for -/

/-- The instance with this id, or the one that the provider knows by this, is among them. -/
def visitsId (l : List Instance) (i : InstanceId) : Prop := ∃ x ∈ l, x.id = i

def visitsExt (l : List Instance) (ext : ExternalId) : Prop := ∃ x ∈ l, x.externalId = ext

/-- The instance has had a turn. -/
def Visits.Came (ρ : Visits) (i : InstanceId) : Prop := visitsId ρ.torn i ∨ visitsId ρ.cut i

/-- The visits say what has become of the instances of `d0`, and of the provider's. -/
structure Accounted (d0 : Db) (p0 : ProviderView) (d : Db) (ρ : Visits) : Prop where
  rows : ∀ i r, d0.instances.get? i = some r → ∃ r', d.instances.get? i = some r' ∧
    r'.clientId = r.clientId ∧ r'.externalId = r.externalId ∧
    (r'.autoRenew = false ↔ r.autoRenew = false ∨ visitsId ρ.off i) ∧
    (visitsId ρ.torn i → r'.status = .suspended ∨ r'.status = .destroyed) ∧
    (¬ visitsId ρ.torn i → r'.status = r.status)
  kept : ∀ i r', d.instances.get? i = some r' → ∃ r, d0.instances.get? i = some r
  off : ∀ x ∈ ρ.off, ∃ r, d0.instances.get? x.id = some r ∧ r.externalId = x.externalId
  torn : ∀ x ∈ ρ.torn, x ∈ ρ.off
  runs : ∀ ext, ρ.provider.runs ext = false ↔ p0.runs ext = false ∨ visitsExt ρ.torn ext
  renews : ∀ ext, ρ.provider.renews ext = false ↔ p0.renews ext = false ∨ visitsExt ρ.off ext

theorem visitsId_concat {l : List Instance} {x : Instance} {i : InstanceId} :
    visitsId (l ++ [x]) i ↔ visitsId l i ∨ x.id = i := by
  simp only [visitsId, List.mem_append, List.mem_singleton]
  constructor
  · rintro ⟨y, hy | rfl, hi⟩
    · exact .inl ⟨y, hy, hi⟩
    · exact .inr hi
  · rintro (⟨y, hy, hi⟩ | hi)
    · exact ⟨y, .inl hy, hi⟩
    · exact ⟨x, .inr rfl, hi⟩

theorem visitsExt_concat {l : List Instance} {x : Instance} {ext : ExternalId} :
    visitsExt (l ++ [x]) ext ↔ visitsExt l ext ∨ x.externalId = ext := by
  simp only [visitsExt, List.mem_append, List.mem_singleton]
  constructor
  · rintro ⟨y, hy | rfl, hi⟩
    · exact .inl ⟨y, hy, hi⟩
    · exact .inr hi
  · rintro (⟨y, hy, hi⟩ | hi)
    · exact ⟨y, .inl hy, hi⟩
    · exact ⟨x, .inr rfl, hi⟩

theorem ProviderView.stop_runs {v : ProviderView} {ext e : ExternalId} :
    (v.stop ext).runs e = false ↔ v.runs e = false ∨ ext = e := by
  show (if e = ext then false else v.runs e) = false ↔ _
  split
  · next h => exact ⟨fun _ => .inr h.symm, fun _ => rfl⟩
  · next h => exact ⟨.inl, fun h' => h'.resolve_right (Ne.symm h)⟩

theorem ProviderView.setRenew_renews {v : ProviderView} {ext e : ExternalId} :
    (v.setRenew ext false).renews e = false ↔ v.renews e = false ∨ ext = e := by
  show (if e = ext then false else v.renews e) = false ↔ _
  split
  · next h => exact ⟨fun _ => .inr h.symm, fun _ => rfl⟩
  · next h => exact ⟨.inl, fun h' => h'.resolve_right (Ne.symm h)⟩

namespace Accounted

variable {d0 d d' : Db} {p0 : ProviderView} {ρ ρ' : Visits} {inst : Instance} {rest : List Instance}

theorem start (d0 : Db) (p0 : ProviderView) : Accounted d0 p0 d0 { provider := p0 } := by
  have hnone : ∀ i, ¬ visitsId [] i := fun _ ⟨_, h, _⟩ => nomatch h
  have hnone' : ∀ ext, ¬ visitsExt [] ext := fun _ ⟨_, h, _⟩ => nomatch h
  refine ⟨fun i r hr => ⟨r, hr, rfl, rfl, ?_, fun h => absurd h (hnone i), fun _ => rfl⟩,
    fun i r hr => ⟨r, hr⟩, nofun, nofun, fun ext => ?_, fun ext => ?_⟩
  · exact (or_iff_left (hnone i)).symm
  · exact (or_iff_left (hnone' ext)).symm
  · exact (or_iff_left (hnone' ext)).symm

theorem congr (h : Accounted d0 p0 d ρ) (hd : d'.instances = d.instances) : Accounted d0 p0 d' ρ :=
  ⟨fun i r hr => hd ▸ h.rows i r hr, fun i r hr => h.kept i r (hd ▸ hr), h.off, h.torn, h.runs,
    h.renews⟩

theorem wait (h : Accounted d0 p0 d ρ) (insts : List Instance) :
    Accounted d0 p0 d { ρ with waiting := insts } :=
  ⟨h.rows, h.kept, h.off, h.torn, h.runs, h.renews⟩

/-- The row of the instance whose turn it is. -/
theorem turned_row (h : Accounted d0 p0 d ρ) (hinst : d.instances.get? inst.id = some inst)
    {r r0 : Instance} (hr0 : d0.instances.get? inst.id = some r0)
    (ht : ρ.Tried inst rest ρ' r) (hc : r.clientId = inst.clientId)
    (hext : r.externalId = inst.externalId) :
    r.clientId = r0.clientId ∧ r.externalId = r0.externalId ∧
    (r.autoRenew = false ↔ r0.autoRenew = false ∨ visitsId ρ'.off inst.id) ∧
    (visitsId ρ'.torn inst.id → r.status = .suspended ∨ r.status = .destroyed) ∧
    (¬ visitsId ρ'.torn inst.id → r.status = r0.status) := by
  obtain ⟨r', hr', hc', hext', hrenew, htorn, huntorn⟩ := h.rows inst.id r0 hr0
  obtain rfl : inst = r' := Option.some.inj (hinst.symm.trans hr')
  refine ⟨hc.trans hc', hext.trans hext', ?_⟩
  obtain ⟨_, ⟨hoff, htorn', _, _, rfl⟩ | ⟨hoff, htorn', _, _, rfl⟩ |
    ⟨hoff, htorn', _, _, hstatus, hno⟩⟩ := ht
  · rw [hoff, htorn']
    exact ⟨hrenew, htorn, huntorn⟩
  · rw [hoff, htorn']
    exact ⟨⟨fun _ => .inr (visitsId_concat.mpr (.inr rfl)), fun _ => rfl⟩, htorn, huntorn⟩
  · rw [hoff, htorn']
    refine ⟨⟨fun _ => .inr (visitsId_concat.mpr (.inr rfl)), fun _ => hno⟩, fun _ => hstatus,
      fun hnot => absurd (visitsId_concat.mpr (.inr rfl)) hnot⟩

/-- The other instances have had no turn. -/
theorem tried_others {r : Instance} (ht : ρ.Tried inst rest ρ' r) {i : InstanceId}
    (hi : i ≠ inst.id) :
    (visitsId ρ'.off i ↔ visitsId ρ.off i) ∧ (visitsId ρ'.torn i ↔ visitsId ρ.torn i) := by
  have hconcat : ∀ l : List Instance, visitsId (l ++ [inst]) i ↔ visitsId l i := fun l =>
    visitsId_concat.trans (or_iff_left (Ne.symm hi))
  obtain ⟨_, ⟨hoff, htorn, _⟩ | ⟨hoff, htorn, _⟩ | ⟨hoff, htorn, _⟩⟩ := ht
  · rw [hoff, htorn]
    exact ⟨.rfl, .rfl⟩
  · rw [hoff, htorn]
    exact ⟨hconcat _, .rfl⟩
  · rw [hoff, htorn]
    exact ⟨hconcat _, hconcat _⟩

/-- Whoever has had a turn has had it, and this instance has. -/
theorem tried_came {r : Instance} (ht : ρ.Tried inst rest ρ' r) {i : InstanceId}
    (hi : ρ.Came i ∨ inst.id = i) : ρ'.Came i := by
  have hmono : ∀ {l : List Instance}, visitsId l i → visitsId (l ++ [inst]) i := fun h =>
    visitsId_concat.mpr (.inl h)
  have hlast : ∀ {l : List Instance}, inst.id = i → visitsId (l ++ [inst]) i := fun h =>
    visitsId_concat.mpr (.inr h)
  obtain ⟨_, ⟨_, htorn, hcut, _⟩ | ⟨_, htorn, hcut, _⟩ | ⟨_, htorn, hcut, _⟩⟩ := ht
  · rw [Visits.Came, htorn, hcut]
    rcases hi with (hi | hi) | hi
    · exact .inl hi
    · exact .inr (hmono hi)
    · exact .inr (hlast hi)
  · rw [Visits.Came, htorn, hcut]
    rcases hi with (hi | hi) | hi
    · exact .inl hi
    · exact .inr (hmono hi)
    · exact .inr (hlast hi)
  · rw [Visits.Came, htorn, hcut]
    rcases hi with (hi | hi) | hi
    · exact .inl (hmono hi)
    · exact .inr hi
    · exact .inl (hlast hi)

/-- What the provider has been told. -/
theorem tried_provider (h : Accounted d0 p0 d ρ) {r : Instance} (ht : ρ.Tried inst rest ρ' r)
    (ext : ExternalId) :
    (ρ'.provider.runs ext = false ↔ p0.runs ext = false ∨ visitsExt ρ'.torn ext) ∧
    (ρ'.provider.renews ext = false ↔ p0.renews ext = false ∨ visitsExt ρ'.off ext) := by
  obtain ⟨_, ⟨hoff, htorn, _, hp, _⟩ | ⟨hoff, htorn, _, hp, _⟩ | ⟨hoff, htorn, _, hp, _⟩⟩ := ht
  · rw [hoff, htorn, hp]
    exact ⟨h.runs ext, h.renews ext⟩
  · rw [hoff, htorn, hp, ProviderView.setRenew_renews, h.renews, or_assoc, visitsExt_concat]
    exact ⟨h.runs ext, .rfl⟩
  · rw [hoff, htorn, hp, ProviderView.stop_runs, visitsExt_concat, visitsExt_concat]
    show ((ρ.provider.runs ext = false ∨ _) ↔ _) ∧
      ((ρ.provider.setRenew inst.externalId false).renews ext = false ↔ _)
    rw [ProviderView.setRenew_renews, h.runs, h.renews, or_assoc, or_assoc]
    exact ⟨.rfl, .rfl⟩

/-- The turn of one instance. -/
theorem turned (h : Accounted d0 p0 d ρ) (hinst : d.instances.get? inst.id = some inst)
    (ht : Turned d ρ inst rest d' ρ') : Accounted d0 p0 d' ρ' := by
  obtain ⟨r, hid, hc, hext, hset, htried⟩ := ht
  obtain ⟨r0, hr0⟩ := h.kept inst.id inst hinst
  have horigin : r0.externalId = inst.externalId := by
    obtain ⟨r', hr', _, hext', _⟩ := h.rows inst.id r0 hr0
    rw [hinst] at hr'
    rw [Option.some.inj hr', hext']
  refine ⟨fun i ri hri => ?_, fun i ri hri => ?_, fun x hx => ?_, fun x hx => ?_,
    fun ext => (h.tried_provider htried ext).1, fun ext => (h.tried_provider htried ext).2⟩
  · by_cases hi : i = inst.id
    · subst hi
      obtain rfl : r0 = ri := Option.some.inj (hr0.symm.trans hri)
      refine ⟨r, ?_, h.turned_row hinst hr0 htried hc hext⟩
      rw [hset.instances, if_pos hid.symm]
    · obtain ⟨r', hr', hrow⟩ := h.rows i ri hri
      obtain ⟨hoff, htorn⟩ := tried_others htried hi
      refine ⟨r', ?_, ?_⟩
      · rw [hset.instances, hid, if_neg hi]
        exact hr'
      · rw [hoff, htorn]
        exact hrow
  · rw [hset.instances] at hri
    split at hri
    · next hi => exact ⟨r0, by rw [hi, hid]; exact hr0⟩
    · exact h.kept i ri hri
  · have hmem : x ∈ ρ.off ++ [inst] := by
      obtain ⟨_, ⟨hoff, _⟩ | ⟨hoff, _⟩ | ⟨hoff, _⟩⟩ := htried
      · exact List.mem_append_left _ (hoff ▸ hx)
      · exact hoff ▸ hx
      · exact hoff ▸ hx
    rcases List.mem_append.mp hmem with hx | hx
    · exact h.off x hx
    · rw [List.mem_singleton.mp hx]
      exact ⟨r0, hr0, horigin⟩
  · obtain ⟨_, ⟨hoff, htorn, _⟩ | ⟨hoff, htorn, _⟩ | ⟨hoff, htorn, _⟩⟩ := htried
    · rw [htorn] at hx
      rw [hoff]
      exact h.torn x hx
    · rw [htorn] at hx
      rw [hoff]
      exact List.mem_append_left _ (h.torn x hx)
    · rw [htorn] at hx
      rw [hoff]
      rcases List.mem_append.mp hx with hx | hx
      · exact List.mem_append_left _ (h.torn x hx)
      · exact List.mem_append_right _ hx

end Accounted

/-! ## The loops -/

/-- In the loop over the instances: those of `T` have had a turn, those of `insts` have not. -/
structure InLoop (d0 : Db) (p0 : ProviderView) (subs : Table Subscription) (T : InstanceId → Prop)
    (insts : List Instance) (d : Db) (ρ : Visits) : Prop where
  accounted : Accounted d0 p0 d ρ
  subscriptions : d.subscriptions = subs
  waiting : ρ.waiting = insts
  fresh : ∀ inst ∈ insts, d.instances.get? inst.id = some inst
  came : ∀ i, T i → ρ.Came i

section Loops

variable {d0 d d' : Db} {p0 : ProviderView} {ρ ρ' : Visits} {subs : Table Subscription}
  {T : InstanceId → Prop} {R : Exn → Db → Visits → Prop}

theorem InLoop.turned {inst : Instance} {rest : List Instance}
    (h : InLoop d0 p0 subs T (inst :: rest) d ρ) (hne : ∀ x ∈ rest, x.id ≠ inst.id)
    (ht : Turned d ρ inst rest d' ρ') :
    InLoop d0 p0 subs (fun i => T i ∨ inst.id = i) rest d' ρ' := by
  have hinst := h.fresh inst List.mem_cons_self
  have hacc := h.accounted.turned hinst ht
  obtain ⟨r, hid, _, _, hset, htried⟩ := ht
  refine ⟨hacc, hset.subscriptions.trans h.subscriptions, htried.1, fun x hx => ?_, fun i hi => ?_⟩
  · rw [hset.instances, hid, if_neg (hne x hx)]
    exact h.fresh x (List.mem_cons_of_mem _ hx)
  · exact Accounted.tried_came htried (hi.imp_left (h.came i))

theorem sweeps_tearDownInstances (mode : TeardownMode) {insts : List Instance}
    (hids : (insts.map (·.id)).Nodup) :
    Sweeps (InLoop d0 p0 subs T insts) (tearDownInstances mode insts)
      (fun _ => InLoop d0 p0 subs (fun i => T i ∨ ∃ inst ∈ insts, inst.id = i) []) R := by
  induction insts generalizing T with
  | nil =>
      refine Sweeps.pure fun d ρ h => ⟨h.accounted, h.subscriptions, h.waiting, h.fresh, ?_⟩
      rintro i (hi | ⟨_, hmem, _⟩)
      · exact h.came i hi
      · exact nomatch hmem
  | cons inst rest ih =>
      rw [List.map_cons, List.nodup_cons] at hids
      have hne : ∀ x ∈ rest, x.id ≠ inst.id := fun x hx he =>
        hids.1 (List.mem_map.mpr ⟨x, hx, he⟩)
      have hturn : Sweeps (InLoop d0 p0 subs T (inst :: rest)) (tearDownInstance mode inst)
          (fun _ => InLoop d0 p0 subs (fun i => T i ∨ inst.id = i) rest) R := by
        intro s v d hs h
        have hinst := h.fresh inst List.mem_cons_self
        refine (sweeps_tearDownInstance mode h.waiting hinst).mono (fun _ _ => id) ?_
          (fun _ _ _ => id) s v d hs ⟨rfl, rfl⟩
        exact fun _ _ _ ht => h.turned hne ht
      refine Sweeps.bind hturn fun n => Sweeps.bind (ih hids.2) fun m => Sweeps.pure ?_
      intro d ρ h
      refine ⟨h.accounted, h.subscriptions, h.waiting, h.fresh, fun i hi => h.came i ?_⟩
      rcases hi with hi | ⟨x, hx, hxi⟩
      · exact .inl (.inl hi)
      · rcases List.mem_cons.mp hx with rfl | hx
        · exact .inl (.inr hxi)
        · exact .inr ⟨x, hx, hxi⟩

/-- The row is marked as torn down. -/
def Marked (now : Instant) (id : SubscriptionId) (d : Db) : Prop :=
  ∃ row, d.subscriptions.get? id = some row ∧ row.teardownCompletedAt = some now

/-- An attribute of a subscription set. -/
abbrev Db.setSubscription (d : Db) (id : SubscriptionId) (f : SubscriptionField) : Db :=
  { d with subscriptions := d.subscriptions.update id f }

/-- Every live instance of the client has had a turn. -/
def AllCame (d0 : Db) (c : ClientId) (ρ : Visits) : Prop :=
  ∀ i r, d0.instances.get? i = some r → r.clientId = c → r.live → ρ.Came i

/-- Between two subscriptions: those of `done` have been worked through. -/
structure Between (d0 : Db) (p0 : ProviderView) (now : Instant) (done : List Subscription) (d : Db)
    (ρ : Visits) : Prop where
  accounted : Accounted d0 p0 d ρ
  came : ∀ sub ∈ done, AllCame d0 sub.clientId ρ
  marked : ∀ sub ∈ done, Marked now sub.id d
  kept : ∀ i, (d.subscriptions.get? i).isSome = (d0.subscriptions.get? i).isSome

variable {now : Instant} {done : List Subscription}

theorem Between.congr (h : Between d0 p0 now done d ρ) (hi : d'.instances = d.instances)
    (hs : d'.subscriptions = d.subscriptions) : Between d0 p0 now done d' ρ :=
  ⟨h.accounted.congr hi, h.came, fun sub hsub => by rw [Marked, hs]; exact h.marked sub hsub,
    fun i => by rw [hs]; exact h.kept i⟩

/-- A write to a subscription which unmarks no row. -/
theorem Between.update (h : Between d0 p0 now done d ρ) (id : SubscriptionId)
    {f : SubscriptionField} (hf : ∀ r : Subscription, r.teardownCompletedAt = some now →
      (f.set r).teardownCompletedAt = some now) :
    Between d0 p0 now done (d.setSubscription id f) ρ := by
  refine ⟨h.accounted.congr rfl, h.came, fun sub hsub => ?_, fun i => ?_⟩
  · obtain ⟨row, hrow, hmark⟩ := h.marked sub hsub
    by_cases hid : sub.id = id
    · refine ⟨f.set row, ?_, hf row hmark⟩
      show (d.subscriptions.update id f).get? sub.id = _
      rw [hid, Table.get?_update_self, ← hid, hrow]
      rfl
    · refine ⟨row, ?_, hmark⟩
      show (d.subscriptions.update id f).get? sub.id = _
      rw [Table.get?_update, if_neg hid]
      exact hrow
  · rw [← h.kept i]
    show ((d.subscriptions.update id f).get? i).isSome = _
    rw [Table.get?_update]
    split
    · next hi => rw [hi, Option.isSome_map]
    · rfl

theorem sweeps_suspendClient (client : ClientId) :
    Sweeps (Between d0 p0 now done) (suspendClient client)
      (fun _ => Between d0 p0 now done) R := by
  refine Sweeps.bind (Sweeps.execute (Q := fun _ => Between d0 p0 now done)
    fun _ _ _ _ _ h => h) fun x => ?_
  cases x with
  | none => exact Sweeps.pure fun _ _ => id
  | some r =>
      refine Sweeps.bind (Sweeps.assign (Q := fun _ => Between d0 p0 now done)
        (f := fun d => { d with clients := d.clients.update r.id (.status .suspended) })
        (fun _ => rfl) (fun _ _ => rfl) (fun _ _ h _ => h) fun _ _ h => h.congr rfl rfl) fun _ => ?_
      exact Sweeps.pure fun _ _ => id

/-- The instances of one subscription: afterwards all of them have had a turn. -/
theorem sweeps_tearDownLive (mode : TeardownMode) (c : ClientId) (insts : List Instance) :
    Sweeps (fun d ρ => Between d0 p0 now done d ρ ∧ ρ.waiting = insts ∧
        ∃ e t, insts = Query.eval e t d (.liveInstances c))
      (tearDownInstances mode insts)
      (fun _ d ρ => Between d0 p0 now done d ρ ∧ AllCame d0 c ρ) R := by
  rintro s v d hs ⟨hbetween, hwaiting, e, t, hinsts⟩
  have hmem : ∀ r, r ∈ insts ↔ d.instances.get? r.id = some r ∧ r.clientId = c ∧ r.live :=
    fun r => by
      rw [hinsts]
      exact mem_liveInstances
  have hids : (insts.map (·.id)).Nodup := by
    rw [hinsts]
    exact d.instances.nodup.sublist (List.filter_sublist.map _)
  have hloop : Sweeps (InLoop d0 p0 d.subscriptions v.2.Came insts) (tearDownInstances mode insts)
      (fun _ => InLoop d0 p0 d.subscriptions (fun i => v.2.Came i ∨ ∃ inst ∈ insts,
        inst.id = i) []) R :=
    sweeps_tearDownInstances mode hids
  have hend : Sweeps (InLoop d0 p0 d.subscriptions v.2.Came insts) (tearDownInstances mode insts)
      (fun _ d ρ => Between d0 p0 now done d ρ ∧ AllCame d0 c ρ) R :=
    hloop.mono (fun _ _ => id) ?_ (fun _ _ _ => id)
  · exact hend s v d hs
      ⟨hbetween.accounted, rfl, hwaiting, fun inst h => ((hmem inst).mp h).1, fun _ => id⟩
  rintro n d' ρ' h
  refine ⟨⟨h.accounted, fun sub hsub i r hr hc hl => ?_, fun sub hsub => ?_, fun i => ?_⟩, ?_⟩
  · exact h.came i (.inl (hbetween.came sub hsub i r hr hc hl))
  · rw [Marked, h.subscriptions]
    exact hbetween.marked sub hsub
  · rw [h.subscriptions]
    exact hbetween.kept i
  · intro i r hr hc hl
    obtain ⟨r', hr', hc', _, _, _, huntorn⟩ := hbetween.accounted.rows i r hr
    by_cases htorn : visitsId v.2.torn i
    · exact h.came i (.inl (.inl htorn))
    · -- Not torn down before, it is live still, and so it is in the loop.
      have hid : r'.id = i := Table.get?_key hr'
      have hl' : r'.live := by rwa [Instance.live, huntorn htorn]
      exact h.came i (.inr ⟨r', (hmem r').mpr ⟨hid ▸ hr', hc'.trans hc, hl'⟩, hid⟩)

/-- The mark of a due subscription, once its instances have had their turns. -/
theorem Between.mark {sub : Subscription} (h : Between d0 p0 now done d ρ)
    (hmem : sub ∈ d0.subscriptions.rows) (hcame : AllCame d0 sub.clientId ρ) :
    Between d0 p0 now (done ++ [sub])
      (d.setSubscription sub.id (.teardownCompletedAt (some now))) ρ := by
  have h' := h.update sub.id (f := .teardownCompletedAt (some now)) fun _ _ => rfl
  refine ⟨h'.accounted, fun sub' hsub' => ?_, fun sub' hsub' => ?_, h'.kept⟩
  · rcases List.mem_append.mp hsub' with hsub' | hsub'
    · exact h'.came sub' hsub'
    · rw [List.mem_singleton.mp hsub']
      exact hcame
  · rcases List.mem_append.mp hsub' with hsub' | hsub'
    · exact h'.marked sub' hsub'
    · rw [List.mem_singleton.mp hsub']
      have hrow : (d.subscriptions.get? sub.id).isSome = true := by
        rw [h.kept sub.id]
        exact Option.isSome_iff_exists.mpr ⟨sub, Table.get?_of_mem hmem⟩
      obtain ⟨row, hrow⟩ := Option.isSome_iff_exists.mp hrow
      refine ⟨{ row with teardownCompletedAt := some now }, ?_, rfl⟩
      show (d.subscriptions.update sub.id _).get? sub.id = _
      rw [Table.get?_update_self, hrow]
      rfl

theorem sweeps_expireOne {sub : Subscription} (hdue : sub ∈ d0.due now) :
    Sweeps (Between d0 p0 now done) (expireOne now sub)
      (fun _ => Between d0 p0 now (done ++ [sub])) R := by
  obtain ⟨hmem, hdue⟩ := List.mem_filter.mp hdue
  have hopen : sub.teardownCompletedAt = none := by
    rw [Subscription.due, Bool.and_eq_true] at hdue
    exact Option.isNone_iff_eq_none.mp hdue.2
  refine Sweeps.bind (Sweeps.assign
    (Q := fun x d ρ => x = { sub with status := .expired } ∧ Between d0 p0 now done d ρ)
    (f := fun d => d.setSubscription sub.id (.status .expired))
    (fun _ => rfl) (fun _ _ => rfl) (fun _ _ h heq => ⟨heq.symm, h⟩)
    fun _ _ h => ⟨rfl, h.update sub.id fun _ => id⟩) fun x => Sweeps.given fun hx => ?_
  subst hx
  refine Sweeps.bind (sweeps_suspendClient sub.clientId) fun _ => ?_
  refine Sweeps.bind (Sweeps.execute (Q := fun insts d ρ => Between d0 p0 now done d ρ ∧
    ρ.waiting = insts ∧ ∃ e t, insts = Query.eval e t d (.liveInstances sub.clientId)) ?_)
    fun insts => ?_
  · intro e ρ t ws d h
    exact ⟨⟨h.accounted.wait _, h.came, h.marked, h.kept⟩, rfl, e, t, rfl⟩
  refine Sweeps.bind (sweeps_tearDownLive sub.teardownMode sub.clientId insts) fun n => ?_
  refine Sweeps.bind (Sweeps.assign (Q := fun _ => Between d0 p0 now (done ++ [sub]))
    (f := fun d => d.setSubscription sub.id (.teardownCompletedAt (some now)))
    (fun _ => rfl) (fun _ _ => rfl) (fun _ _ _ heq => ?_) fun d ρ h => h.1.mark hmem h.2) fun x =>
      ?_
  · exact nomatch hopen.symm.trans (congrArg Subscription.teardownCompletedAt heq).symm
  refine Sweeps.bind (Sweeps.enqueue (Q := fun _ => Between d0 p0 now (done ++ [sub]))
    fun _ _ h => h.congr rfl rfl) fun _ => Sweeps.pure fun _ _ => id

theorem sweeps_expireEach {subs : List Subscription} (hdue : ∀ sub ∈ subs, sub ∈ d0.due now) :
    Sweeps (Between d0 p0 now done) (expireEach now subs)
      (fun _ => Between d0 p0 now (done ++ subs)) R := by
  induction subs generalizing done with
  | nil =>
      rw [List.append_nil]
      exact Sweeps.pure fun _ _ => id
  | cons sub rest ih =>
      refine Sweeps.bind (sweeps_expireOne (hdue sub List.mem_cons_self)) fun n => ?_
      refine Sweeps.bind (ih fun sub' h => hdue sub' (List.mem_cons_of_mem _ h)) fun m => ?_
      refine Sweeps.pure fun d ρ h => ?_
      rwa [List.append_assoc] at h

end Loops

/-! ## The call -/

theorem Sweeps.commit {s : Session} {v : World × Visits} {d : Db} (hs : s.Holds v.1 d) :
    Task.wp (Conc.turn visited ProviderRaises) commit
      (fun _ _ v' => v'.1.db = d ∧ v'.2 = v.2) (fun _ _ _ => False) s v := by
  rw [wp_commit, if_neg hs.not_broken]
  intro x hx
  have hfault := hx.none fun c => nofun
  have hans : passing (.commit s.pending) x v.1 =
      (.ok (), { v.1 with clock := v.1.clock + x.1, db := d }) := by
    simp only [passing, handle, hs.2, Env.answer, hfault]
  simp only [visited, tracked, hans, dbCases_ok]
  exact ⟨trivial, rfl⟩

/-- What `enforce_expiry` does once it has its time: whatever was due has been worked through,
and that is committed. -/
theorem enforceFrom_worked (now : Instant) (w : World) (p0 : ProviderView) :
    Task.wp (Conc.turn visited ProviderRaises)
      (do
        let due ← execute (.dueSubscriptions now)
        getProvider
        let tornDown ← expireEach now due
        commitIf !due.isEmpty
        pure (due.length, tornDown))
      (fun _ _ v => w.db.due now ≠ [] → Between w.db p0 now (w.db.due now) v.1.db v.2)
      (fun _ _ _ => False) {} (w, { provider := p0 }) := by
  have hdraft : ({} : Session).Holds w w.db := ⟨rfl, fun _ => rfl⟩
  rw [Task.wp_bind]
  refine Task.wp_turn_mono (Sweeps.execute (P := fun d ρ => d = w.db ∧ ρ = { provider := p0 })
    (Q := fun due d ρ => due = w.db.due now ∧ d = w.db ∧ ρ = { provider := p0 })
    (R := fun _ _ _ => False) ?_ {} _ w.db hdraft ⟨rfl, rfl⟩) ?_ fun _ _ _ h =>
      h.2.elim fun _ h => h.2
  · rintro e ρ t ws d ⟨rfl, rfl⟩
    exact ⟨rfl, rfl, rfl⟩
  rintro due s1 v1 ⟨_, d1, hs1, rfl, rfl, hρ1⟩
  have hstart : Between w.db p0 now [] w.db v1.2 := by
    rw [hρ1]
    exact ⟨.start w.db p0, nofun, nofun, fun _ => rfl⟩
  have heach : Sweeps (Between w.db p0 now [])
      (getProvider >>= fun _ => expireEach now (w.db.due now))
      (fun _ => Between w.db p0 now (w.db.due now)) (fun _ _ _ => False) :=
    Sweeps.bind (Sweeps.execute (Q := fun _ => Between w.db p0 now []) fun _ _ _ _ _ h => h)
      fun _ => sweeps_expireEach fun _ => id
  have hrun := heach s1 v1 w.db hs1 hstart
  rw [Task.wp_bind] at hrun ⊢
  refine Task.wp_turn_mono hrun (fun _ s2 v2 h2 => ?_) fun _ _ _ h => h.2.elim fun _ h => h.2
  rw [Task.wp_bind]
  refine Task.wp_turn_mono h2 ?_ fun _ _ _ h => h.2.elim fun _ h => h.2
  rintro n s3 v3 ⟨_, d3, hs3, hbetween⟩
  rw [Task.wp_bind, commitIf, Task.wp_ite]
  split
  · refine Task.wp_turn_mono (Sweeps.commit hs3) ?_ fun _ _ _ h => h
    rintro _ _ v4 ⟨hdb, hρ⟩ _
    rw [hdb, hρ]
    exact hbetween
  · next hempty =>
      intro hne
      rw [Bool.not_eq_true', Bool.not_eq_false, List.isEmpty_iff] at hempty
      exact absurd hempty hne

/-- A triple that allows no exception speaks of the run. -/
theorem solo_of_wp {α : Type} {t : Coro α} {P : World × Visits → Prop} {env : Nat → Nat × Env}
    {v : World × Visits}
    (h : Task.wp (Conc.turn visited ProviderRaises) t (fun _ _ => P) (fun _ _ _ => False) {} v)
    (henv : (t {}).Suits visited ProviderRaises env v) : P ((t {}).solo visited env v).2 := by
  have hrun := Prog.solo_of_turn h henv
  generalize (t {}).solo visited env v = x at hrun ⊢
  obtain ⟨⟨_ | _, _⟩, _⟩ := x
  · exact hrun.elim
  · exact hrun

/-- When the call looks for due subscriptions. -/
def expiryTime (at? : Option Instant) (env : Nat → Nat × Env) (w : World) : Instant :=
  at?.getD (w.clock + (env 0).1)

/-- `enforce_expiry` run alone, with the visits it has made. -/
def teardownRun (at? : Option Instant) (env : Nat → Nat × Env) (w : World) (p0 : ProviderView) :
    (Except Exn (Nat × Nat) × Session) × World × Visits :=
  (enforceExpiry at? {}).solo visited env (w, { provider := p0 })

theorem teardownRun_worked {at? : Option Instant} {env : Nat → Nat × Env} {w : World}
    (p0 : ProviderView) (henv : (enforceExpiry at? {}).Suits passing ProviderRaises env w)
    (hdue : w.db.due (expiryTime at? env w) ≠ []) :
    Between w.db p0 (expiryTime at? env w) (w.db.due (expiryTime at? env w))
      (teardownRun at? env w p0).2.1.db (teardownRun at? env w p0).2.2 := by
  have hsuits := Prog.suits_tracked Visits.hear henv { provider := p0 }
  cases at? with
  | some now =>
      exact solo_of_wp (enforceFrom_worked now w p0) hsuits hdue
  | none =>
      -- The first await reads the clock.
      exact solo_of_wp (enforceFrom_worked
        (w.clock + (env 0).1) { w with clock := w.clock + (env 0).1 } p0) hsuits.2 hdue

/-! ## The mark -/

/-- The instance is suspended or destroyed and will not renew, here and at the provider. -/
def Down (d : Db) (p : ProviderView) (i : InstanceId) : Prop :=
  ∃ r, d.instances.get? i = some r ∧ (r.status = .suspended ∨ r.status = .destroyed) ∧
    r.autoRenew = false ∧ p.runs r.externalId = false ∧ p.renews r.externalId = false

/-- A live instance of the client. -/
def Db.Lives (d : Db) (c : ClientId) (i : InstanceId) : Prop :=
  ∃ r, d.instances.get? i = some r ∧ r.clientId = c ∧ r.live

/-- The subscription will be due again. -/
def Db.Remains (d : Db) (now : Instant) (id : SubscriptionId) : Prop :=
  ∃ row, d.subscriptions.get? id = some row ∧ ∀ t, now ≤ t → row.due t = true

/-- The teardown of every subscription that was due is complete when the row says so, and will be
tried once more when it is not. -/
def Honest (d0 : Db) (now : Instant) (d : Db) (p : ProviderView) : Prop :=
  ∀ sub ∈ d0.due now,
    (∀ row, d.subscriptions.get? sub.id = some row → row.teardownCompletedAt ≠ none →
      ∀ i, d0.Lives sub.clientId i → Down d p i) ∧
    ((∃ i, d0.Lives sub.clientId i ∧ ¬ Down d p i) → d.Remains now sub.id)

/-- Nothing more is to be done about the instance than the provider has accepted. -/
def Spared (d0 : Db) (p0 : ProviderView) (ρ : Visits) (i : InstanceId) : Prop :=
  visitsId ρ.torn i ∨
  ∃ r, d0.instances.get? i = some r ∧ r.status = .suspended ∧
    (r.autoRenew = false ∨ visitsId ρ.off i) ∧
    (p0.runs r.externalId = false ∨ visitsExt ρ.torn r.externalId) ∧
    (p0.renews r.externalId = false ∨ visitsExt ρ.off r.externalId)

theorem Accounted.down_iff {d0 d : Db} {p0 : ProviderView} {ρ : Visits} (h : Accounted d0 p0 d ρ)
    {c : ClientId} {i : InstanceId} (hi : d0.Lives c i) :
    Down d ρ.provider i ↔ Spared d0 p0 ρ i := by
  obtain ⟨r, hr, _, hl⟩ := hi
  obtain ⟨r', hr', _, hext, hrenew, htorn, huntorn⟩ := h.rows i r hr
  constructor
  · rintro ⟨x, hx, hstatus, hno, hruns, hrenews⟩
    obtain rfl : r' = x := Option.some.inj (hr'.symm.trans hx)
    by_cases hvis : visitsId ρ.torn i
    · exact .inl hvis
    · rw [hext] at hruns hrenews
      refine .inr ⟨r, hr, ?_, hrenew.mp hno, (h.runs _).mp hruns, (h.renews _).mp hrenews⟩
      rw [huntorn hvis] at hstatus
      refine hstatus.resolve_right fun hd => ?_
      rw [Instance.live, hd] at hl
      exact nomatch hl
  · rintro (⟨x, hx, rfl⟩ | ⟨x, hx, hstatus, hno, hruns, hrenews⟩)
    · have hoff := h.torn x hx
      obtain ⟨r0, hr0, hext0⟩ := h.off x hoff
      obtain rfl : r = r0 := Option.some.inj (hr.symm.trans hr0)
      refine ⟨r', hr', htorn ⟨x, hx, rfl⟩, hrenew.mpr (.inr ⟨x, hoff, rfl⟩), ?_, ?_⟩
      · rw [hext]
        exact (h.runs _).mpr (.inr ⟨x, hx, hext0.symm⟩)
      · rw [hext]
        exact (h.renews _).mpr (.inr ⟨x, hoff, hext0.symm⟩)
    · obtain rfl : r = x := Option.some.inj (hr.symm.trans hx)
      refine ⟨r', hr', ?_, hrenew.mpr hno, ?_, ?_⟩
      · by_cases hvis : visitsId ρ.torn i
        · exact htorn hvis
        · rw [huntorn hvis]
          exact .inl hstatus
      · rw [hext]
        exact (h.runs _).mpr hruns
      · rw [hext]
        exact (h.renews _).mpr hrenews

/-- The mark is right when every instance whose turn a call of the provider has cut short needed
no more than was done about it. -/
theorem honest_iff (at? : Option Instant) (env : Nat → Nat × Env) (w : World) (p0 : ProviderView)
    (henv : (enforceExpiry at? {}).Suits passing ProviderRaises env w) :
    Honest w.db (expiryTime at? env w) (teardownRun at? env w p0).2.1.db
        (teardownRun at? env w p0).2.2.provider ↔
      ∀ sub ∈ w.db.due (expiryTime at? env w), ∀ i, w.db.Lives sub.clientId i →
        visitsId (teardownRun at? env w p0).2.2.cut i →
        Spared w.db p0 (teardownRun at? env w p0).2.2 i := by
  have hworked := teardownRun_worked p0 henv
  generalize teardownRun at? env w p0 = x at hworked ⊢
  constructor
  · intro h sub hsub i hi _
    have hbetween := hworked (List.ne_nil_of_mem hsub)
    obtain ⟨row, hrow, hmark⟩ := hbetween.marked sub hsub
    have hdown := (h sub hsub).1 row hrow (by rw [hmark]; exact nofun) i hi
    exact (hbetween.accounted.down_iff hi).mp hdown
  · intro h sub hsub
    have hbetween := hworked (List.ne_nil_of_mem hsub)
    have hdown : ∀ i, w.db.Lives sub.clientId i → Down x.2.1.db x.2.2.provider i := by
      intro i hi
      refine (hbetween.accounted.down_iff hi).mpr ?_
      have hi' := hi
      obtain ⟨r, hr, hc, hl⟩ := hi'
      rcases hbetween.came sub hsub i r hr hc hl with htorn | hcut
      · exact .inl htorn
      · exact h sub hsub i hi hcut
    exact ⟨fun _ _ _ => hdown, fun ⟨i, hi, hnot⟩ => absurd (hdown i hi) hnot⟩

/-- A client with one subscription that has ended, and two instances: one is suspended here and at
the provider, where it would be renewed. -/
def ended : World where
  clock := 10
  db :=
    { clients := .of [{ id := 1 }]
      subscriptions := .of [{ id := 2, clientId := 1, startsAt := 0, endsAt := 10 }]
      instances := .of
        [{ id := 3, clientId := 1, externalId := 4, region := "a" },
         { id := 5, clientId := 1, externalId := 6, region := "a", status := .suspended }] }

def cloud : ProviderView where
  runs e := e != 6
  renews _ := true

/-- The `n`-th await raises, and nothing else. -/
def raisesAt (n : Nat) (k : Nat) : Nat × Env :=
  (0, { fault := if k = n then some .failed else none })

def providerCheck : Req → Nat × Env → Bool
  | .infra _, x => x.2.fault != some .cancelled
  | _, x => x.2.fault == none

theorem providerRaises_of_check (r : Req) (x : Nat × Env) (h : providerCheck r x = true) :
    ProviderRaises r x := by
  cases r with
  | infra c => exact .inr ⟨⟨c, rfl⟩, by simpa [providerCheck] using h⟩
  | _ => exact .inl (by simpa [providerCheck] using h)

/-- The provider does not suspend the second instance, which was suspended before. -/
theorem honest_suspendedBefore :
    Honest ended.db 10 (teardownRun (some 10) (raisesAt 7) ended cloud).2.1.db
      (teardownRun (some 10) (raisesAt 7) ended cloud).2.2.provider := by
  have hsuits : (enforceExpiry (some 10) {}).Suits passing ProviderRaises (raisesAt 7) ended :=
    Prog.suits_of_check providerRaises_of_check (by decide +kernel)
  refine (honest_iff (some 10) (raisesAt 7) ended cloud hsuits).mpr ?_
  rintro _ _ i _ ⟨x, hx, rfl⟩
  have hcut : (teardownRun (some 10) (raisesAt 7) ended cloud).2.2.cut.map (·.id) = [5] := by
    decide +kernel
  have hid : x.id = 5 := List.mem_singleton.mp (hcut ▸ List.mem_map.mpr ⟨x, hx, rfl⟩)
  have hoff : (teardownRun (some 10) (raisesAt 7) ended cloud).2.2.off.getLast?.map
      (fun y => (y.id, y.externalId)) = some (5, 6) := by decide +kernel
  obtain ⟨y, hlast, heq⟩ := Option.map_eq_some_iff.mp hoff
  have hy := List.mem_of_getLast? hlast
  rw [hid]
  exact .inr ⟨_, rfl, rfl, .inr ⟨y, hy, congrArg Prod.fst heq⟩, .inl rfl,
    .inr ⟨y, hy, congrArg Prod.snd heq⟩⟩

/-- The provider does not turn off the renewal of the first one: it runs on, and the subscription
is marked as torn down. -/
theorem not_honest : ¬ ∀ at? env w p0, (enforceExpiry at? {}).Suits passing ProviderRaises env w →
    Honest w.db (expiryTime at? env w) (teardownRun at? env w p0).2.1.db
      (teardownRun at? env w p0).2.2.provider := by
  intro h
  have hsuits : (enforceExpiry (some 10) {}).Suits passing ProviderRaises (raisesAt 4) ended :=
    Prog.suits_of_check providerRaises_of_check (by decide +kernel)
  have hhonest := h (some 10) (raisesAt 4) ended cloud hsuits
  have hmarked : ((teardownRun (some 10) (raisesAt 4) ended cloud).2.1.db.subscriptions.get? 2).map
      (·.teardownCompletedAt) = some (some 10) := by decide +kernel
  obtain ⟨row, hrow, hmark⟩ := Option.map_eq_some_iff.mp hmarked
  obtain ⟨r, hr, hstatus, _⟩ := (hhonest _ (.head _)).1 row hrow
    (by rw [hmark]; exact nofun) 3 ⟨_, rfl, rfl, rfl⟩
  have hruns : ((teardownRun (some 10) (raisesAt 4) ended cloud).2.1.db.instances.get? 3).map
      (·.status) = some .running := by decide +kernel
  rw [hr] at hruns
  have hrunning : r.status = .running := Option.some.inj hruns
  rw [hrunning] at hstatus
  exact hstatus.elim nofun nofun

end BrokerBridge
