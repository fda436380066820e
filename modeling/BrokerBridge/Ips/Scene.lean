import BrokerBridge.Code.Alone
import BrokerBridge.Code.Draft
import BrokerBridge.Ips.Ledger

/-!
# Sequential runs over the ledger

A scene is what a call that runs alone has before it: the committed ledger, the one
its session would commit, the provider's IPs, a time that has come, and the clock's
readings so far. A broken session commits nothing any more.

`Plays F sc t Q R` says that `t`, begun in the scene `sc` with only the awaits in
`F` going wrong, returns in one that satisfies `Q` and raises in one that satisfies `R`. The rules
take the code from scene to scene, and the world is left behind.
-/

namespace BrokerBridge

open Conc

structure Scene where
  kept : Ledger
  draft : Option Ledger
  cloud : Cloud
  since : Instant
  readings : List Instant

namespace Scene

def drafting (sc : Scene) (L : Ledger) : Scene := { sc with draft := some L }

/-- The clock has been read. -/
def reads (sc : Scene) (t : Instant) : Scene :=
  { sc with since := t, readings := sc.readings ++ [t] }

/-- Nothing more of the session will be committed. -/
def broken (sc : Scene) : Scene := { sc with draft := none }

end Scene

/-- The ledger that the session would commit. -/
def Session.Drafts (s : Session) (d : Db) : Option Ledger → Prop
  | none => s.broken = true
  | some L => s.broken = false ∧ ∃ d', (∀ now, d.write? now s.pending = some d') ∧ d'.ledger = L

structure Scene.Shown (sc : Scene) (s : Session) (v : World × List Instant) : Prop where
  kept : v.1.db.ledger = sc.kept
  draft : s.Drafts v.1.db sc.draft
  cloud : v.1.cloud = sc.cloud
  since : sc.since ≤ v.1.clock
  readings : v.2 = sc.readings

/-- `IP_REUSE_POLICY`, the refusal of an assignment within the cooldown. -/
def Exn.refusesReuse : Exn → Prop
  | .app code _ _ => code = "IP_REUSE_POLICY"
  | _ => False

/-- Neither that refusal nor a conflict. -/
def Exn.Plain : Exn → Prop
  | .app code _ _ => code ≠ "IP_REUSE_POLICY"
  | .integrity => False
  | _ => True

theorem Exn.Plain.not_refuses {e : Exn} (h : e.Plain) : ¬ e.refusesReuse := by
  cases e with
  | app code message status => exact h
  | _ => exact id

theorem plain_dbError : dbError.Plain := trivial

theorem plain_infraError : infraError.Plain := trivial

theorem plain_redisUnavailable : Exn.redisUnavailable.Plain := trivial

/-- The answer to a request, with the clock's readings. -/
abbrev answered : (r : Req) → Nat × Env → World × List Instant → r.Ans × (World × List Instant) :=
  tracked passing reading

def Plays {α : Type} (F : Req → Prop) (sc : Scene) (t : Coro α) (Q : α → Scene → Prop)
    (R : Exn → Scene → Prop) : Prop :=
  ∀ s v, sc.Shown s v →
    Task.wp (turn answered (Failing F)) t (fun a s' v' => ∃ sc', Scene.Shown sc' s' v' ∧ Q a sc')
      (fun e s' v' => ∃ sc', Scene.Shown sc' s' v' ∧ R e sc') s v

/-- Time has passed. -/
def World.later (w : World) (n : Nat) : World := { w with clock := w.clock + n }

section Shown

variable {sc : Scene} {s : Session} {v : World × List Instant} {L : Ledger}

theorem Scene.Shown.later (h : sc.Shown s v) (n : Nat) : sc.Shown s (v.1.later n, v.2) where
  kept := h.kept
  draft := h.draft
  cloud := h.cloud
  since := Int.le_trans h.since (Int.le_add_of_nonneg_right (Int.natCast_nonneg n))
  readings := h.readings

theorem Scene.Shown.drafts (h : sc.Shown s v) (hd : sc.draft = some L) :
    s.broken = false ∧ ∃ d', (∀ now, v.1.db.write? now s.pending = some d') ∧ d'.ledger = L := by
  have := h.draft
  rwa [hd] at this

theorem Scene.Shown.not_broken (h : sc.Shown s v) (hd : sc.draft = some L) : ¬ s.broken = true := by
  rw [(h.drafts hd).1]
  exact Bool.false_ne_true

theorem Scene.Shown.breaks (h : sc.Shown s v) : sc.broken.Shown { s with broken := true } v where
  kept := h.kept
  draft := rfl
  cloud := h.cloud
  since := h.since
  readings := h.readings

end Shown

section Rules

variable {F : Req → Prop} {sc : Scene} {L L' : Ledger} {α β : Type} {R : Exn → Scene → Prop}

theorem Plays.pure {a : α} {Q : α → Scene → Prop} (h : Q a sc) :
    Plays F sc (pure a) Q R := fun _ _ hs => ⟨sc, hs, h⟩

theorem Plays.raise {e : Exn} {Q : α → Scene → Prop} (h : R e sc) :
    Plays F sc (Task.raise e : Coro α) Q R := fun _ _ hs => ⟨sc, hs, h⟩

theorem Plays.bind {t : Coro α} {f : α → Coro β} {Q : β → Scene → Prop}
    (h : Plays F sc t (fun a sc' => Plays F sc' (f a) Q R) R) : Plays F sc (t >>= f) Q R := by
  intro s v hs
  rw [Task.wp_bind]
  refine Task.wp_turn_mono (h s v hs) ?_ fun _ _ _ => id
  rintro a s' v' ⟨sc', hs', hf⟩
  exact hf s' v' hs'

theorem Plays.catching {t : Coro α} {handler : Exn → Coro α} {Q : α → Scene → Prop}
    (h : Plays F sc t Q fun e sc' => Plays F sc' (handler e) Q R) :
    Plays F sc (Task.catching t handler) Q R := by
  intro s v hs
  rw [Task.wp_catching]
  refine Task.wp_turn_mono (h s v hs) (fun _ _ _ => id) ?_
  rintro e s' v' ⟨sc', hs', hh⟩
  exact hh s' v' hs'

theorem Plays.finally' {t : Coro α} {last : Coro Unit} {Q : α → Scene → Prop}
    (h : Plays F sc t (fun a sc' => Plays F sc' last (fun _ => Q a) R)
      fun e sc' => Plays F sc' last (fun _ => R e) R) :
    Plays F sc (Task.finally' t last) Q R := by
  intro s v hs
  rw [Task.wp_finally']
  refine Task.wp_turn_mono (h s v hs) ?_ ?_
  · rintro a s' v' ⟨sc', hs', hl⟩
    exact hl s' v' hs'
  · rintro e s' v' ⟨sc', hs', hl⟩
    exact hl s' v' hs'

theorem Plays.mono {t : Coro α} {Q Q' : α → Scene → Prop} {R' : Exn → Scene → Prop}
    (h : Plays F sc t Q R) (hQ : ∀ a sc, Q a sc → Q' a sc) (hR : ∀ e sc, R e sc → R' e sc) :
    Plays F sc t Q' R' := by
  intro s v hs
  refine Task.wp_turn_mono (h s v hs) ?_ ?_
  · rintro a s' v' ⟨sc', hs', ha⟩
    exact ⟨sc', hs', hQ a sc' ha⟩
  · rintro e s' v' ⟨sc', hs', he⟩
    exact ⟨sc', hs', hR e sc' he⟩

/-- What the clock has shown is not forgotten. -/
theorem Plays.readings {t : Coro α} {Q : α → Scene → Prop} (h : Plays F sc t Q R) :
    Plays F sc t (fun a sc' => Q a sc' ∧ ∀ t ∈ sc.readings, t ∈ sc'.readings)
      (fun e sc' => R e sc' ∧ ∀ t ∈ sc.readings, t ∈ sc'.readings) := by
  intro s v hs
  have hkept : ∀ (s' : Session) (v' : World × List Instant) (sc' : Scene), sc'.Shown s' v' →
      Onward v v' → ∀ t ∈ sc.readings, t ∈ sc'.readings := by
    intro s' v' sc' hs' hon t ht
    obtain ⟨ts, hts, -⟩ := hon.readings
    rw [← hs'.readings, hts, hs.readings]
    exact List.mem_append_left ts ht
  refine Prog.turn_mono ?_ (Prog.turn_along Onward.refl Onward.trans onward_passing (h s v hs))
  rintro ⟨e | a, s'⟩ v' ⟨⟨sc', hs', hend⟩, hon⟩
  · exact ⟨sc', hs', hend, hkept s' v' sc' hs' hon⟩
  · exact ⟨sc', hs', hend, hkept s' v' sc' hs' hon⟩

/-! ## The database -/

theorem plain_fault {e : Exn} (he : e.Plain) (f : Fault) :
    (f.exn e).Plain := by
  cases f
  · exact he
  all_goals trivial

/-- An answer of the database, when it may fail. -/
theorem answer_either {F : Req → Prop} {r : Req} {x : Nat × Env} (hx : Failing F r x)
    {γ : Type} (documented : Exn) (w : World) (y : γ) (w' : World) :
    (∃ f : Fault, F r ∧ x.2.answer documented w y w' = (.error (f.exn documented), w)) ∨
    x.2.answer documented w y w' = (.ok y, w') := by
  unfold Env.answer
  cases hf : x.2.fault with
  | none => exact .inr rfl
  | some f => exact .inl ⟨f, hx (by simp [hf]), rfl⟩

theorem Plays.execute {q : Query} {Q : q.Res → Scene → Prop} (hd : sc.draft = some L)
    (hok : ∀ y, L.Answers q y → Q y sc)
    (herr : DbFails F → ∀ e : Exn, e.Plain → R e sc.broken) :
    Plays F sc (execute q) Q R := by
  intro s v hs
  rw [wp_execute, if_neg (hs.not_broken hd)]
  intro x hx
  obtain ⟨-, d', hd', rfl⟩ := hs.drafts hd
  have hview : (v.1.later x.1).db.view (v.1.later x.1).clock s.pending = d' := by
    rw [Db.view, show (v.1.later x.1).db.write? _ s.pending = some d' from hd' _]
    rfl
  rcases answer_either hx dbError (v.1.later x.1)
    (q.eval x.2 (v.1.later x.1).clock ((v.1.later x.1).db.view (v.1.later x.1).clock s.pending))
    (v.1.later x.1) with ⟨f, hF, heq⟩ | heq
  · have hans : passing (.query s.pending q) x v.1 = (.error (f.exn dbError), v.1.later x.1) := heq
    simp only [answered, tracked, hans, dbCases_error]
    exact ⟨sc.broken, (hs.later x.1).breaks, herr ⟨.query s.pending q, trivial, hF⟩ _
      (plain_fault plain_dbError f)⟩
  · rw [hview] at heq
    have hans : passing (.query s.pending q) x v.1 =
        (.ok (q.eval x.2 (v.1.later x.1).clock d'), v.1.later x.1) := by
      rw [← heq, ← hview]
      rfl
    simp only [answered, tracked, hans, dbCases_ok]
    exact ⟨sc, hs.later x.1, hok _ (eval_answers x.2 _ d' q)⟩

theorem Plays.execute_broken {q : Query} {Q : q.Res → Scene → Prop} (hd : sc.draft = none)
    (h : R brokenSession sc) : Plays F sc (BrokerBridge.execute q) Q R := by
  intro s v hs
  have hb : s.broken = true := by
    have := hs.draft
    rwa [hd] at this
  rw [wp_execute, if_pos hb]
  exact ⟨sc, hs, h⟩

theorem Plays.commit {Q : Unit → Scene → Prop} (hd : sc.draft = some L)
    (hok : Q () { sc with kept := L })
    (herr : DbFails F → ∀ e : Exn, e.Plain → R e sc.broken) :
    Plays F sc commit Q R := by
  intro s v hs
  rw [wp_commit, if_neg (hs.not_broken hd)]
  intro x hx
  obtain ⟨hb, d', hd', rfl⟩ := hs.drafts hd
  have hwrite : (v.1.later x.1).db.write? (v.1.later x.1).clock s.pending = some d' := hd' _
  have hans : passing (.commit s.pending) x v.1 =
      x.2.answer dbError (v.1.later x.1) () { v.1.later x.1 with db := d' } := by
    show handle (.commit s.pending) x.2 (v.1.later x.1) = _
    simp only [handle, hwrite]
  simp only [answered, tracked, hans]
  rcases answer_either hx dbError (v.1.later x.1) () { v.1.later x.1 with db := d' } with
    ⟨f, hF, heq⟩ | heq
  · rw [heq]
    exact ⟨sc.broken, (hs.later x.1).breaks, herr ⟨.commit s.pending, trivial, hF⟩ _
      (plain_fault plain_dbError f)⟩
  · rw [heq]
    refine ⟨{ sc with kept := d'.ledger },
      ⟨rfl, ?_, hs.cloud, (hs.later x.1).since, hs.readings⟩, hok⟩
    show Session.Drafts _ d' sc.draft
    rw [hd]
    exact ⟨hb, d', fun _ => rfl, rfl⟩

/-! ## Staged writes -/

/-- The write takes one draft to the next, whenever it is flushed. -/
def Write.Takes (v : Write) (L L' : Ledger) : Prop :=
  ∀ d : Db, d.ledger = L →
    v.conflicts d = false ∧ ∃ d', (∀ now, v.apply now d = d') ∧ d'.ledger = L'

theorem Scene.Shown.stage {s : Session} {v : World × List Instant} (hs : sc.Shown s v)
    (hd : sc.draft = some L) {u : Write} (hu : u.Takes L L') :
    (sc.drafting L').Shown { s with pending := s.pending ++ [u] } v := by
  obtain ⟨hb, d', hd', hL⟩ := hs.drafts hd
  obtain ⟨hc, d'', hd'', hL'⟩ := hu d' hL
  refine ⟨hs.kept, ⟨hb, d'', fun now => ?_, hL'⟩, hs.cloud, hs.since, hs.readings⟩
  rw [← hd'' now]
  exact Db.write?_concat (hd' now) hc

theorem Plays.stage {u : Write} {Q : Unit → Scene → Prop} (hd : sc.draft = some L)
    (hu : u.Takes L L') (h : Q () (sc.drafting L')) : Plays F sc (stage u) Q R :=
  fun _ _ hs => ⟨_, hs.stage hd hu, h⟩

theorem Plays.assign {G : Type} [Stored α G] [DecidableEq α] {r : α} {f : G}
    {Q : α → Scene → Prop} (hd : sc.draft = some L) (hu : (Stored.write r f).Takes L L')
    (hsame : Stored.set f r = r → L' = L) (h : Q (Stored.set f r) (sc.drafting L')) :
    Plays F sc (assign r f) Q R := by
  intro s v hs
  rw [wp_assign]
  split
  · next heq =>
      have hdraft : sc.drafting L' = sc := by
        rw [hsame heq, Scene.drafting, ← hd]
      rw [hdraft, heq] at h
      exact ⟨sc, hs, h⟩
  · exact ⟨_, hs.stage hd hu, h⟩

theorem takes_enqueue (p : EventPayload) : (Write.enqueue p).Takes L (L.announce p) := by
  rintro d rfl
  exact ⟨rfl, _, fun _ => rfl, rfl⟩

theorem takes_setIp {ip : StaticIp} (h : L.ips ip.id = some ip) (f : StaticIpField) :
    (Write.setIp ip.id f).Takes L (L.putIp (f.set ip)) := by
  rintro d rfl
  exact ⟨rfl, (Write.setIp ip.id f).apply 0 d, fun _ => rfl, ledger_setIp h f⟩

theorem takes_setAssignment {a : IpAssignment} (h : L.assignments a.id = some a)
    (f : IpAssignmentField) :
    (Write.setAssignment a.id f).Takes L (L.putAssignment (f.set a)) := by
  rintro d rfl
  exact ⟨rfl, (Write.setAssignment a.id f).apply 0 d, fun _ => rfl, ledger_setAssignment h f⟩

theorem takes_setHistory {h : BrokerIpUsageHistory} (hh : L.history h.id = some h)
    (f : BrokerIpUsageHistoryField) :
    (Write.setHistory h.id f).Takes L (L.putHistory (f.set h)) := by
  rintro d rfl
  exact ⟨rfl, (Write.setHistory h.id f).apply 0 d, fun _ => rfl, ledger_setHistory hh f⟩

theorem takes_addAssignment {a : IpAssignment} (h : L.assignments a.id = none) :
    (Write.addAssignment a).Takes L (L.putAssignment a) := by
  rintro d rfl
  refine ⟨?_, (Write.addAssignment a).apply 0 d, fun _ => rfl, ledger_addAssignment h⟩
  simp only [Write.conflicts]
  rw [show d.assignments.get? a.id = none from h]
  rfl

theorem takes_addHistory {h : BrokerIpUsageHistory} (hh : L.history h.id = none) :
    (Write.addHistory h).Takes L (L.putHistory h) := by
  rintro d rfl
  refine ⟨?_, (Write.addHistory h).apply 0 d, fun _ => rfl, ledger_addHistory hh⟩
  simp only [Write.conflicts]
  rw [show d.history.get? h.id = none from hh]
  rfl

theorem Plays.enqueueOutbox {p : EventPayload} {Q : Unit → Scene → Prop} (hd : sc.draft = some L)
    (h : Q () (sc.drafting (L.announce p))) : Plays F sc (enqueueOutbox p) Q R :=
  Plays.stage hd (takes_enqueue p) h

theorem Plays.assignIp {ip : StaticIp} {f : StaticIpField} {Q : StaticIp → Scene → Prop}
    (hd : sc.draft = some L) (hip : L.ips ip.id = some ip)
    (h : Q (f.set ip) (sc.drafting (L.putIp (f.set ip)))) :
    Plays F sc (BrokerBridge.assign ip f) Q R :=
  Plays.assign hd (takes_setIp hip f) (fun hsame => by
    change f.set ip = ip at hsame
    rw [hsame, Ledger.putIp_self hip]) h

/-- An attribute of an object set whose row has got ahead of it. -/
theorem Plays.assignIpOf {ip row : StaticIp} {f : StaticIpField} {Q : StaticIp → Scene → Prop}
    (hd : sc.draft = some L) (hrow : L.ips ip.id = some row)
    (hsame : f.set ip = ip → f.set row = row)
    (h : Q (f.set ip) (sc.drafting (L.putIp (f.set row)))) :
    Plays F sc (BrokerBridge.assign ip f) Q R := by
  have hid : row.id = ip.id := L.ip_id _ _ hrow
  have hself : L.ips row.id = some row := by rw [hid, hrow]
  refine Plays.assign hd ?_ (fun heq => ?_) h
  · show (Write.setIp ip.id f).Takes L _
    rw [← hid]
    exact takes_setIp hself f
  · rw [hsame heq, Ledger.putIp_self hself]

theorem Plays.assignAssignment {a : IpAssignment} {f : IpAssignmentField}
    {Q : IpAssignment → Scene → Prop} (hd : sc.draft = some L)
    (ha : L.assignments a.id = some a)
    (h : Q (f.set a) (sc.drafting (L.putAssignment (f.set a)))) :
    Plays F sc (BrokerBridge.assign a f) Q R :=
  Plays.assign hd (takes_setAssignment ha f) (fun hsame => by
    change f.set a = a at hsame
    rw [hsame, Ledger.putAssignment_self ha]) h

theorem Plays.assignHistory {u : BrokerIpUsageHistory} {f : BrokerIpUsageHistoryField}
    {Q : BrokerIpUsageHistory → Scene → Prop} (hd : sc.draft = some L)
    (hu : L.history u.id = some u) (h : Q (f.set u) (sc.drafting (L.putHistory (f.set u)))) :
    Plays F sc (BrokerBridge.assign u f) Q R :=
  Plays.assign hd (takes_setHistory hu f) (fun hsame => by
    change f.set u = u at hsame
    rw [hsame, Ledger.putHistory_self hu]) h

theorem passing_flush (ws : List Write) (x : Nat × Env) (w : World) :
    passing (.flush ws) x w =
      match w.db.write? (w.later x.1).clock ws with
      | none => (.error (refusal ws), w.later x.1)
      | some _ => x.2.answer dbError (w.later x.1) () (w.later x.1) :=
  rfl

/-- A new IP added and flushed: its address may be taken. -/
theorem Plays.addIp {ip : StaticIp} {k : Coro α} {Q : α → Scene → Prop} (hd : sc.draft = some L)
    (hip : L.ips ip.id = none) (hok : Plays F (sc.drafting (L.putIp ip)) k Q R)
    (htaken : R .integrity sc.broken) (herr : DbFails F → ∀ e : Exn, e.Plain → R e sc.broken) :
    Plays F sc (do BrokerBridge.stage (.addIp ip); flush; k) Q R := by
  intro s v hs
  rw [Task.wp_bind, wp_stage, Task.wp_bind, wp_flush, if_neg (hs.not_broken hd)]
  intro x hx
  obtain ⟨hb, d', hd', rfl⟩ := hs.drafts hd
  have hs' := hs.later x.1
  have hflush : v.1.db.write? (v.1.later x.1).clock (s.pending ++ [.addIp ip]) =
      (Write.addIp ip).checked (v.1.later x.1).clock d' := by
    rw [Db.write?, List.foldlM_append]
    change (v.1.db.write? _ s.pending).bind _ = _
    rw [hd']
    simp
  have hbreaks : sc.broken.Shown
      { s with pending := s.pending ++ [.addIp ip], broken := true } (v.1.later x.1, v.2) :=
    ⟨hs'.kept, rfl, hs'.cloud, hs'.since, hs'.readings⟩
  have hrefusal := refusal_concat (w := .addIp ip) (hd' (v.1.later x.1).clock) rfl
  simp only [answered, tracked, passing_flush, hflush, hrefusal]
  cases hconf : (Write.addIp ip).conflicts d' with
  | true =>
      simp only [Write.checked, hconf, if_true]
      exact ⟨sc.broken, hbreaks, htaken⟩
  | false =>
      have hnot : ¬ (false = true) := Bool.false_ne_true
      simp only [Write.checked, hconf, if_neg hnot]
      rcases answer_either hx dbError (v.1.later x.1) () (v.1.later x.1) with ⟨f, hF, heq⟩ | heq
      · rw [heq]
        exact ⟨sc.broken, hbreaks, herr ⟨.flush _, trivial, hF⟩ _ (plain_fault plain_dbError f)⟩
      · rw [heq]
        refine hok _ _ ⟨hs'.kept, ⟨hb, (Write.addIp ip).apply 0 d', fun now =>
          ?_, ledger_addIp hip⟩,
          hs'.cloud, hs'.since, hs'.readings⟩
        exact Db.write?_concat (hd' now) hconf

/-! ## Everything else -/

theorem Plays.now {Q : Instant → Scene → Prop}
    (h : ∀ t, sc.since ≤ t → Q t (sc.reads t)) :
    Plays F sc now Q R := by
  intro s v hs x _
  have hs' := hs.later x.1
  refine ⟨sc.reads (v.1.later x.1).clock, ⟨hs.kept, hs.draft, hs.cloud, Int.le_refl _, ?_⟩,
    h _ hs'.since⟩
  show v.2 ++ _ = _
  rw [hs.readings]
  rfl

theorem Plays.newId {Q : Nat → Scene → Prop} (h : ∀ i, sc.kept.Fresh sc.cloud i → Q i sc) :
    Plays F sc newId Q R := by
  intro s v hs x _
  have hs' := hs.later x.1
  refine ⟨sc, ⟨hs.kept, hs.draft, hs.cloud, hs'.since, hs.readings⟩, h _ ?_⟩
  have hfresh := fresh_newId (v.1.later x.1)
  rwa [hs'.kept, hs'.cloud] at hfresh

theorem Plays.infra {c : InfraCall} {Q : c.Res → Scene → Prop}
    (hc : ∀ region, c ≠ .createIp region) (hok : ∀ y, Q y { sc with cloud := c.onCloud sc.cloud })
    (herr : F (.infra c) → ∀ e : Exn, e.Plain → R e sc) :
    Plays F sc (infra c) Q R := by
  intro s v hs
  unfold BrokerBridge.infra
  rw [Task.wp_bind]
  intro x hx
  have hs' := hs.later x.1
  have hans : passing (.infra c) x v.1 = x.2.answer infraError (v.1.later x.1)
      (c.eval x.2 (v.1.later x.1)).1 (c.eval x.2 (v.1.later x.1)).2 := rfl
  simp only [answered, tracked, hans]
  rcases answer_either hx infraError (v.1.later x.1) (c.eval x.2 (v.1.later x.1)).1
    (c.eval x.2 (v.1.later x.1)).2 with ⟨f, hF, heq⟩ | heq
  · rw [heq]
    exact ⟨sc, hs', herr hF _ (plain_fault plain_infraError f)⟩
  · rw [heq]
    have hdb : (c.eval x.2 (v.1.later x.1)).2.db = v.1.db :=
      congrArg Prod.fst (c.eval_records x.2 (v.1.later x.1))
    have hclock : (c.eval x.2 (v.1.later x.1)).2.clock = (v.1.later x.1).clock := by
      cases c <;> simp only [InfraCall.eval] <;> (try split) <;> rfl
    refine ⟨{ sc with cloud := c.onCloud sc.cloud }, ⟨?_, ?_, ?_, ?_, hs.readings⟩, hok _⟩
    · exact (congrArg Db.ledger hdb).trans hs.kept
    · show s.Drafts (c.eval x.2 (v.1.later x.1)).2.db sc.draft
      rw [hdb]
      exact hs.draft
    · exact (eval_cloud c hc x.2 _).trans (congrArg c.onCloud hs'.cloud)
    · show sc.since ≤ (c.eval x.2 (v.1.later x.1)).2.clock
      rw [hclock]
      exact hs'.since

theorem Plays.createIp {region : Region} {Q : ExternalId × String → Scene → Prop}
    (hok : ∀ ext address, sc.kept.Fresh sc.cloud ext → Q (ext, address) { sc with
      cloud := Function.update sc.cloud ext
        (some { externalId := ext, ipAddress := address }) })
    (herr : F (.infra (.createIp region)) → ∀ e : Exn, e.Plain → R e sc) :
    Plays F sc (BrokerBridge.infra (.createIp region)) Q R := by
  intro s v hs
  unfold BrokerBridge.infra
  rw [Task.wp_bind]
  intro x hx
  have hs' := hs.later x.1
  have hans : passing (.infra (.createIp region)) x v.1 = x.2.answer infraError (v.1.later x.1)
      ((InfraCall.createIp region).eval x.2 (v.1.later x.1)).1
      ((InfraCall.createIp region).eval x.2 (v.1.later x.1)).2 := rfl
  simp only [answered, tracked, hans]
  rcases answer_either hx infraError (v.1.later x.1)
    ((InfraCall.createIp region).eval x.2 (v.1.later x.1)).1
    ((InfraCall.createIp region).eval x.2 (v.1.later x.1)).2 with ⟨f, hF, heq⟩ | heq
  · rw [heq]
    exact ⟨sc, hs', herr hF _ (plain_fault plain_infraError f)⟩
  · rw [heq]
    have hfresh := fresh_newId (v.1.later x.1)
    have hcloud := @cloud_append (v.1.later x.1)
      { externalId := (v.1.later x.1).freshId, ipAddress := x.2.address } hfresh.resource
    rw [hs'.kept, hs'.cloud] at hfresh
    rw [hs'.cloud] at hcloud
    refine ⟨{ sc with cloud := Function.update sc.cloud _ (some _) },
      ⟨hs.kept, hs.draft, hcloud, hs'.since, hs.readings⟩,
      hok _ _ hfresh⟩

/-- The request leaves alone what a scene shows. -/
structure Req.Aside (r : Req) : Prop where
  db : ∀ e w, (handle r e w).2.db = w.db
  cloudIps : ∀ e w, (handle r e w).2.cloudIps = w.cloudIps
  clock : ∀ e w, (handle r e w).2.clock = w.clock
  reading : ∀ ts x, reading ts r x = ts

theorem Plays.await {r : Req} {P : r.Ans → Prop} {Q : r.Ans → Scene → Prop} (hr : r.Aside)
    (hP : ∀ e w, P (handle r e w).1) (h : ∀ x, P x → Q x sc) : Plays F sc (await r) Q R := by
  intro s v hs
  rw [wp_await]
  intro x _
  have hs' := hs.later x.1
  have hdb : (passing r x v.1).2.db = v.1.db := hr.db x.2 _
  refine ⟨sc, ⟨?_, ?_, ?_, ?_, ?_⟩, h _ (hP x.2 _)⟩
  · exact (congrArg Db.ledger hdb).trans hs.kept
  · show s.Drafts (passing r x v.1).2.db sc.draft
    rw [hdb]
    exact hs.draft
  · show (passing r x v.1).2.cloud = sc.cloud
    rw [← hs'.cloud]
    exact congrArg (fun ips ext => List.find? (fun ip : CloudIp => ip.externalId == ext) ips)
      (hr.cloudIps x.2 _)
  · show sc.since ≤ (passing r x v.1).2.clock
    rw [passing, hr.clock]
    exact hs'.since
  · exact (hr.reading v.2 _).trans hs.readings

theorem Plays.ofAnswer {x : Except Exn α} {Q : α → Scene → Prop} (hok : ∀ a, x = .ok a → Q a sc)
    (herr : ∀ e, x = .error e → R e sc) : Plays F sc (ofAnswer x) Q R := by
  cases x with
  | ok a => exact Plays.pure (hok a rfl)
  | error e => exact Plays.raise (herr e rfl)

theorem Plays.refreshed {x : Option α} {Q : α → Scene → Prop} (hok : ∀ a, x = some a → Q a sc)
    (herr : x = none → ∀ e : Exn, e.Plain → R e sc) : Plays F sc (refreshed x) Q R := by
  cases x with
  | some a => exact Plays.pure (hok a rfl)
  | none => exact Plays.raise (herr rfl _ trivial)

theorem Plays.scalarOneOrNone {xs : List α} {Q : Option α → Scene → Prop}
    (hnone : xs = [] → Q none sc) (hsome : ∀ x, xs = [x] → Q (some x) sc)
    (herr : ∀ e : Exn, e.Plain → R e sc) : Plays F sc (scalarOneOrNone xs) Q R := by
  match xs with
  | [] => exact Plays.pure (hnone rfl)
  | [x] => exact Plays.pure (hsome x rfl)
  | _ :: _ :: _ => exact Plays.raise (herr _ trivial)

/-- An answer that nothing but the environment refuses. -/
theorem Env.answer_aside {γ : Type} {β : Type} {f : World → β} (e : Env) (documented : Exn)
    (w w' : World) (x : γ) (h : f w' = f w) : f (e.answer documented w x w').2 = f w := by
  rcases Env.answer_cases e documented w x w' with ⟨_, hf⟩ | hf
  · rw [hf]
  · rw [hf]
    exact h

theorem aside_acquire (k : LockKey) (ttl : Int) (t : Nat) : (Req.acquire k ttl t).Aside := by
  refine ⟨?_, ?_, ?_, fun _ _ => rfl⟩
  all_goals
    intro e w
    simp only [handle]
    split <;> exact Env.answer_aside e _ _ _ _ rfl

theorem aside_release (k : LockKey) (t : Nat) : (Req.release k t).Aside := by
  refine ⟨?_, ?_, ?_, fun _ _ => rfl⟩
  all_goals
    intro e w
    refine Env.answer_aside e _ _ _ _ ?_
    split <;> rfl

/-- What goes wrong with a lock is not the refusal of an assignment. -/
theorem answer_plain {γ : Type} (e : Env) {documented : Exn} (hdoc : documented.Plain)
    (w w' : World) (x : γ) {err : Exn} (h : (e.answer documented w x w').1 = .error err) :
    err.Plain := by
  unfold Env.answer at h
  split at h
  · next f _ =>
      cases h
      exact plain_fault hdoc f
  · cases h

/-- The locks are not part of a scene: whether one is to be had is open. -/
theorem Plays.acquireLock {k : LockKey} {ttl : Int} {t : Nat} {op : String}
    {Q : Bool → Scene → Prop} (hok : ∀ got, Q got sc) (herr : ∀ e : Exn, e.Plain → R e sc) :
    Plays F sc (acquireLock k ttl t op) Q R := by
  unfold BrokerBridge.acquireLock
  refine Plays.bind (Plays.await (aside_acquire k ttl t)
    (P := fun x : Except Exn Bool => ∀ err, x = .error err → err.Plain)
    (fun e w err h => ?_) fun x hx => ?_)
  · simp only [handle] at h
    split at h <;> exact answer_plain e plain_redisUnavailable _ _ _ h
  · cases x with
    | ok got => exact Plays.pure (hok got)
    | error err =>
        cases err with
        | redisUnavailable =>
            exact Plays.raise (herr _ (show "REDIS_UNAVAILABLE" ≠ "IP_REUSE_POLICY" by decide))
        | _ => exact Plays.raise (herr _ (hx _ rfl))

theorem Plays.releaseLock {k : LockKey} {t : Nat} {Q : Unit → Scene → Prop} (hok : Q () sc)
    (herr : ∀ e : Exn, e.Plain → R e sc) : Plays F sc (releaseLock k t) Q R := by
  unfold BrokerBridge.releaseLock
  refine Plays.bind (Plays.await (aside_release k t)
    (P := fun x : Except Exn Unit => ∀ err, x = .error err → err.Plain)
    (fun e w err h => answer_plain e plain_redisUnavailable _ _ _ h) fun x hx => ?_)
  cases x with
  | ok _ => exact Plays.pure hok
  | error err =>
      cases err with
      | redisUnavailable => exact Plays.pure hok
      | _ => exact Plays.raise (herr _ (hx _ rfl))

theorem Plays.rollback {Q : Unit → Scene → Prop} (hok : Q () (sc.drafting sc.kept))
    (herr : DbFails F → ∀ e : Exn, e.Plain → R e sc.broken) : Plays F sc rollback Q R := by
  intro s v hs
  rw [wp_rollback]
  intro x hx
  have hs' := hs.later x.1
  have hans : passing .rollback x v.1 = x.2.answer dbError (v.1.later x.1) () (v.1.later x.1) := rfl
  simp only [answered, tracked, hans]
  rcases answer_either hx dbError (v.1.later x.1) () (v.1.later x.1) with ⟨f, hF, heq⟩ | heq
  · rw [heq]
    exact ⟨sc.broken, hs'.breaks, herr ⟨.rollback, trivial, hF⟩ _ (plain_fault plain_dbError f)⟩
  · rw [heq]
    exact ⟨sc.drafting sc.kept,
      ⟨hs.kept, ⟨rfl, v.1.db, fun _ => rfl, hs.kept⟩, hs.cloud, hs'.since, hs.readings⟩, hok⟩

end Rules

/-! ## The scene of a world -/

def World.scene (w : World) : Scene where
  kept := w.db.ledger
  draft := some w.db.ledger
  cloud := w.cloud
  since := w.clock
  readings := []

theorem World.shows_scene (w : World) : w.scene.Shown {} (w, []) where
  kept := rfl
  draft := ⟨rfl, w.db, fun _ => rfl, rfl⟩
  cloud := rfl
  since := Int.le_refl _
  readings := rfl

/-- The scene is what the call left. -/
structure Scene.Left (sc : Scene) (w : World) (readings : List Instant) : Prop where
  kept : w.db.ledger = sc.kept
  cloud : w.cloud = sc.cloud
  since : sc.since ≤ w.clock
  readings : sc.readings = readings

/-- How a coroutine ends is how its call does. -/
theorem Plays.program {α : Type} {F : Req → Prop} {t : Coro α} {w : World}
    {Q : α → Scene → Prop} {R : Exn → Scene → Prop} (h : Plays F w.scene t Q R)
    {reply : α → Reply} {env : Nat → Nat × Env}
    (henv : (t.program reply).Suits passing (Failing F) env w) :
    ∃ sc, sc.Left ((t.program reply).solo passing env w).2
        (((t.program reply).heard passing env w).foldl (fun ts x => reading ts x.1 x.2) []) ∧
      ((∃ a, ((t.program reply).solo passing env w).1 = .ok (reply a) ∧ Q a sc) ∨
        ∃ e, ((t.program reply).solo passing env w).1 = .error e ∧ R e sc) := by
  have hrun := Prog.solo_of_turn (p := t.program reply) (A := Failing F)
    (Q := fun x v => ∃ sc, Scene.Left sc v.1 v.2 ∧
      ((∃ a, x = .ok (reply a) ∧ Q a sc) ∨ ∃ e, x = .error e ∧ R e sc)) ?_
    (Prog.suits_tracked reading henv [])
  · rw [Prog.solo_tracked] at hrun
    exact hrun
  · unfold Coro.program
    rw [Prog.fold_bind]
    refine Prog.turn_mono ?_ (h {} (w, []) w.shows_scene)
    rintro ⟨a | a, s'⟩ v' ⟨sc, hs, hend⟩
    · exact ⟨sc, ⟨hs.kept, hs.cloud, hs.since, hs.readings.symm⟩, .inr ⟨a, rfl, hend⟩⟩
    · exact ⟨sc, ⟨hs.kept, hs.cloud, hs.since, hs.readings.symm⟩, .inl ⟨a, rfl, hend⟩⟩

end BrokerBridge
