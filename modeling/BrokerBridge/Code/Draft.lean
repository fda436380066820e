import BrokerBridge.Code.Steps
import BrokerBridge.Conc.Solo
import BrokerBridge.World.Frame

/-!
# Sequential runs of coroutines

In a call that runs alone, the database changes only by the call's own commits,
so what a session reads is the database it is about to commit: the committed one
with the pending writes done. `Session.Sees` names that database, and the rules
for the primitives follow it from one await to the next.

`Draft A c P t Q R B` is the triple for a stretch without commits, at time `c`,
in the environments `A`: begun with a draft in `P` it returns with a draft in
`Q` and raises with one in `R`, or with a broken session if `B` allows it.
-/

namespace BrokerBridge

open Conc

/-- The database as the session would commit it. -/
def Session.Sees (s : Session) (w : World) (d : Db) : Prop :=
  s.broken = false ∧ w.db.write? w.clock s.pending = some d

/-- Some environment in `A` makes an await fail. -/
def Faulty (A : Env → Prop) : Prop := ∃ e, A e ∧ e.fault ≠ none

/-- The environments in which nothing fails. -/
def Faultless (e : Env) : Prop := e.fault = none

theorem not_faulty_faultless : ¬ Faulty Faultless := fun ⟨_, he, hf⟩ => hf he

variable {A : Env → Prop} {α β : Type} {s : Session} {w w' : World} {d : Db}

theorem Session.sees_new (w : World) : ({} : Session).Sees w w.db := ⟨rfl, rfl⟩

theorem Session.Sees.congr (h : s.Sees w d) (hdb : w'.db = w.db) (hc : w'.clock = w.clock) :
    s.Sees w' d := by
  rw [Sees, hdb, hc]
  exact h

theorem Session.Sees.not_broken (h : s.Sees w d) : ¬ s.broken = true := by
  rw [h.1]
  exact Bool.false_ne_true

theorem Session.Sees.view (h : s.Sees w d) : w.db.view w.clock s.pending = d := by
  rw [Db.view, h.2]
  rfl

theorem Db.write?_concat {now : Instant} {d' : Db} {ws : List Write} {v : Write}
    (h : d.write? now ws = some d') (hc : v.conflicts d' = false) :
    d.write? now (ws ++ [v]) = some (v.apply now d') := by
  rw [Db.write?, List.foldlM_append]
  change (d.write? now ws).bind _ = _
  rw [h]
  simp [Write.checked, hc]

theorem Session.Sees.stage {v : Write} (h : s.Sees w d) (hc : v.conflicts d = false) :
    ({ s with pending := s.pending ++ [v] } : Session).Sees w (v.apply w.clock d) :=
  ⟨h.1, Db.write?_concat h.2 hc⟩

/-! ## The primitives -/

section Primitives

variable {X : Exn → Session → World → Prop}

theorem solo_execute {q : Query} {Q : q.Res → Session → World → Prop} (hs : s.Sees w d)
    (hok : ∀ e, A e → Q (q.eval e w.clock d) s w)
    (herr : Faulty A → ∀ f, X f { s with broken := true } w) :
    Task.wp (alone handle A) (execute q) Q X s w := by
  rw [wp_execute, if_neg hs.not_broken]
  intro e he
  simp only [handle, Env.answer, hs.view]
  split
  · next f hf => exact herr ⟨e, he, by simp [hf]⟩ _
  · exact hok e he

theorem solo_commit {Q : Unit → Session → World → Prop} (hs : s.Sees w d)
    (hok : Q () { s with pending := [] } { w with db := d })
    (herr : Faulty A → ∀ f, X f { s with broken := true } w) :
    Task.wp (alone handle A) commit Q X s w := by
  rw [wp_commit, if_neg hs.not_broken]
  intro e he
  simp only [handle, hs.2, Env.answer]
  split
  · next f hf => exact herr ⟨e, he, by simp [hf]⟩ _
  · exact hok

theorem solo_assign {F : Type} [Stored α F] [DecidableEq α] {r : α} {f : F}
    {Q : α → Session → World → Prop} (hs : s.Sees w d)
    (hc : (Stored.write r f).conflicts d = false)
    (hsame : Stored.set f r = r → Q r s w)
    (hset : ∀ s', s'.Sees w ((Stored.write r f).apply w.clock d) → Q (Stored.set f r) s' w) :
    Task.wp (alone handle A) (assign r f) Q X s w := by
  rw [wp_assign]
  split
  · next heq => exact hsame heq
  · exact hset _ (hs.stage hc)

theorem solo_infra {c : InfraCall} {Q : c.Res → Session → World → Prop}
    (hok : ∀ x w', w'.db = w.db → w'.clock = w.clock → Q x s w')
    (herr : Faulty A → ∀ f, X f s w) :
    Task.wp (alone handle A) (infra c) Q X s w := by
  unfold infra
  rw [Task.wp_bind]
  intro e he
  simp only [handle, Env.answer]
  split
  · next f hf => exact herr ⟨e, he, by simp [hf]⟩ _
  · refine hok _ _ (congrArg Prod.fst (c.eval_records e w)) ?_
    cases c <;> simp only [InfraCall.eval] <;> (try split) <;> rfl

end Primitives

/-! ## The triple -/

def Draft (A : Env → Prop) (c : Instant) (P : Db → Prop) (t : Coro α) (Q : α → Db → Prop)
    (R : Db → Prop) (B : Prop) : Prop :=
  ∀ s w d, s.Sees w d → w.clock = c → P d →
    Task.wp (alone handle A) t
      (fun a s' w' => w'.db = w.db ∧ w'.clock = c ∧ ∃ d', s'.Sees w' d' ∧ Q a d')
      (fun _ s' w' => w'.db = w.db ∧ w'.clock = c ∧
        (B ∧ s'.broken = true ∨ ∃ d', s'.Sees w' d' ∧ R d')) s w

section Rules

variable {c : Instant} {B : Prop} {P R : Db → Prop} {Q : α → Db → Prop} {Q' : β → Db → Prop}

theorem Draft.pure {a : α} (h : ∀ d, P d → Q a d) : Draft A c P (pure a) Q R B :=
  fun _ _ d hs hc hP => ⟨rfl, hc, d, hs, h d hP⟩

theorem Draft.raise {e : Exn} (h : ∀ d, P d → R d) :
    Draft A c P (Task.raise e : Coro α) Q R B :=
  fun _ _ d hs hc hP => ⟨rfl, hc, .inr ⟨d, hs, h d hP⟩⟩

theorem Draft.bind {t : Coro α} {f : α → Coro β} (ht : Draft A c P t Q R B)
    (hf : ∀ a, Draft A c (Q a) (f a) Q' R B) : Draft A c P (t >>= f) Q' R B := by
  intro s w d hs hc hP
  rw [Task.wp_bind]
  refine Task.wp_alone_mono (ht s w d hs hc hP) ?_ fun _ _ _ => id
  rintro a s' w' ⟨hdb, hc', d', hs', hQ⟩
  rw [← hdb]
  exact hf a s' w' d' hs' hc' hQ

theorem Draft.mono {t : Coro α} {P' R' : Db → Prop} {Q'' : α → Db → Prop} {B' : Prop}
    (h : Draft A c P t Q R B) (hP : ∀ d, P' d → P d) (hQ : ∀ a d, Q a d → Q'' a d)
    (hR : ∀ d, R d → R' d) (hB : B → B') : Draft A c P' t Q'' R' B' := by
  intro s w d hs hc hd
  refine Task.wp_alone_mono (h s w d hs hc (hP d hd)) ?_ ?_
  · rintro a s' w' ⟨hdb, hc', d', hs', hQd⟩
    exact ⟨hdb, hc', d', hs', hQ a d' hQd⟩
  · rintro e s' w' ⟨hdb, hc', h' | ⟨d', hs', hRd⟩⟩
    · exact ⟨hdb, hc', .inl ⟨hB h'.1, h'.2⟩⟩
    · exact ⟨hdb, hc', .inr ⟨d', hs', hR d' hRd⟩⟩

theorem Draft.pre {t : Coro α} {P' : Db → Prop} (h : Draft A c P t Q R B)
    (hP : ∀ d, P' d → P d) : Draft A c P' t Q R B :=
  h.mono hP (fun _ _ => id) (fun _ => id) id

/-- A part of the precondition that is not about the draft. -/
theorem Draft.given {t : Coro α} {p : Prop} (h : p → Draft A c P t Q R B) :
    Draft A c (fun d => p ∧ P d) t Q R B :=
  fun s w d hs hc hP => h hP.1 s w d hs hc hP.2

theorem Draft.execute {q : Query} (hB : Faulty A → B)
    {Q : q.Res → Db → Prop} (h : ∀ e d, A e → P d → Q (q.eval e c d) d) :
    Draft A c P (execute q) Q R B := by
  intro s w d hs hc hP
  subst hc
  exact solo_execute hs (fun e he => ⟨rfl, rfl, d, hs, h e d he hP⟩)
    fun hA _ => ⟨rfl, rfl, .inl ⟨hB hA, rfl⟩⟩

theorem Draft.stage {v : Write} {Q : Unit → Db → Prop}
    (hc : ∀ d, P d → v.conflicts d = false) (h : ∀ d, P d → Q () (v.apply c d)) :
    Draft A c P (stage v) Q R B := by
  intro s w d hs hcl hP
  subst hcl
  exact ⟨rfl, rfl, _, hs.stage (hc d hP), h d hP⟩

theorem Draft.assign {F : Type} [Stored α F] [DecidableEq α] {r : α} {f : F}
    (hc : ∀ d, P d → (Stored.write r f).conflicts d = false)
    (hsame : ∀ d, P d → Stored.set f r = r → Q r d)
    (hset : ∀ d, P d → Q (Stored.set f r) ((Stored.write r f).apply c d)) :
    Draft A c P (assign r f) Q R B := by
  intro s w d hs hcl hP
  subst hcl
  exact solo_assign hs (hc d hP) (fun heq => ⟨rfl, rfl, d, hs, hsame d hP heq⟩)
    fun s' hs' => ⟨rfl, rfl, _, hs', hset d hP⟩

/-- A provider call: it may fail in a faulty environment, and leaves the draft. -/
theorem Draft.infra {call : InfraCall} {Q : call.Res → Db → Prop}
    (hok : ∀ x d, P d → Q x d) (herr : Faulty A → ∀ d, P d → R d) :
    Draft A c P (infra call) Q R B := by
  intro s w d hs hc hP
  subst hc
  refine solo_infra (fun x w' hdb hcl => ⟨hdb, hcl, d, hs.congr hdb hcl, hok x d hP⟩) ?_
  exact fun hA f => ⟨rfl, rfl, .inr ⟨d, hs, herr hA d hP⟩⟩

/-- A handler for a stretch that does not break its session. -/
theorem Draft.catching {t : Coro α} {handler : Exn → Coro α} {J : Db → Prop}
    (ht : Draft A c P t Q J False) (hh : ∀ e, Draft A c J (handler e) Q R B) :
    Draft A c P (Task.catching t handler) Q R B := by
  intro s w d hs hc hP
  rw [Task.wp_catching]
  refine Task.wp_alone_mono (ht s w d hs hc hP) (fun _ _ _ => id) ?_
  rintro e s' w' ⟨hdb, hc', h' | ⟨d', hs', hR⟩⟩
  · exact h'.1.elim
  · rw [← hdb]
    exact hh e s' w' d' hs' hc' hR

end Rules

end BrokerBridge
