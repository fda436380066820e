import BrokerBridge.Code.Alone
import BrokerBridge.Code.Draft
import BrokerBridge.Code.Orders
import Mathlib.Logic.Function.Basic

/-!
# Submissions that run alone

What the submission loop works on: the orders without their time stamps, their
attempts, the failovers, the outbox. A desk is what a call has before it: the committed
book, the one its session would commit, and what the limiter and the brokers have been
asked and have answered so far.

`Works F dk t Q R` says that `t`, begun at the desk `dk` with only the awaits in `F`
going wrong, returns at one that satisfies `Q` and raises at one that satisfies `R`.
Nothing goes wrong with the database here.
-/

namespace BrokerBridge

open Conc

/-- An order but for the time of its last change. -/
def Order.undated (o : Order) : Order := { o with updatedAt := 0 }

structure Book where
  orders : OrderId → Option Order
  attempts : Table OrderAttempt
  failovers : List FailoverEvent
  outbox : List OutboxEvent
  config : Config

def Db.book (d : Db) : Book where
  orders o := (d.orders.get? o).map Order.undated
  attempts := d.attempts
  failovers := d.failovers
  outbox := d.outbox
  config := d.config

namespace Book

variable (B : Book)

def putOrder (o : Order) : Book :=
  { B with orders := Function.update B.orders o.id (some o.undated) }

def addAttempt (a : OrderAttempt) : Book := { B with attempts := B.attempts.insert a }

def setAttempt (i : AttemptId) (f : OrderAttemptField) : Book :=
  { B with attempts := B.attempts.update i f }

def addFailover (e : FailoverEvent) : Book := { B with failovers := B.failovers ++ [e] }

def announce (p : EventPayload) : Book := { B with outbox := B.outbox ++ [{ payload := p }] }

end Book

/-- The answer `ensure` needs to go on: the broker is there, the lock is to be had, and the
rest succeeds. A release that finds Redis gone is let pass. -/
def granted : (r : Req) → r.Ans → Bool
  | .query _ (.broker _), .ok none => false
  | .acquire _ _ _, .ok got => got
  | .release _ _, .error .redisUnavailable => true
  | .acquire _ _ _, x => x.toBool
  | .release _ _, x | .cacheSession _, x | .commit _, x => x.toBool
  | .authenticate _, x | .refreshSession _, x => x.toBool
  | _, _ => true

/-- A question to the limiter, or to a broker, and the answer; or that `ensure` did not get
what it needs. -/
inductive Asked where
  | consumed (b : BrokerId) (allowed : Bool)
  | placed (p : OrderPayload) (answer : Except Exn BrokerOrderId)
  | refused

/-- `consume`, `place_order` and the refusals; nothing else is noted. -/
def noting (es : List Asked) : (r : Req) → r.Ans → List Asked
  | .rateConsume b _, .ok rl => es ++ [.consumed b rl.allowed]
  | .placeOrder _ p, x => es ++ [.placed p x]
  | r, x => if granted r x then es else es ++ [.refused]

structure Desk where
  kept : Book
  draft : Book
  /-- No write is pending. -/
  clean : Bool
  asked : List Asked

namespace Desk

def drafting (dk : Desk) (B : Book) : Desk := { dk with draft := B, clean := false }

/-- The desk after a commit. -/
def keeping (dk : Desk) : Desk := { dk with kept := dk.draft, clean := true }

def hears (dk : Desk) (x : Asked) : Desk := { dk with asked := dk.asked ++ [x] }

structure Shown (dk : Desk) (s : Session) (v : World × List Asked) : Prop where
  kept : v.1.db.book = dk.kept
  alive : s.broken = false
  draft : ∀ now, ∃ d, v.1.db.write? now s.pending = some d ∧ d.book = dk.draft
  clean : dk.clean = true → s.pending = []
  asked : v.2 = dk.asked

end Desk

/-- The answer to a request, with what is noted. -/
abbrev noted : (r : Req) → Nat × Env → World × List Asked → r.Ans × (World × List Asked) :=
  tracked passing noting

/-- Neither the database nor the limiter goes wrong. -/
def Elsewhere (r : Req) : Prop := ¬ r.asksDb ∧ ∀ b limit, r ≠ .rateConsume b limit

def Works {α : Type} (dk : Desk) (t : Coro α) (Q : α → Desk → Prop)
    (R : Exn → Session → World × List Asked → Prop) : Prop :=
  ∀ s v, dk.Shown s v → Task.wp (turn noted (Failing Elsewhere)) t
    (fun a s' v' => ∃ dk', Desk.Shown dk' s' v' ∧ Q a dk') R s v

section Rules

variable {dk : Desk} {B : Book} {α β : Type} {R : Exn → Session → World × List Asked → Prop}
  {s : Session} {v : World × List Asked}

theorem Desk.Shown.later (h : dk.Shown s v) (n : Nat) :
    dk.Shown s ({ v.1 with clock := v.1.clock + n }, v.2) :=
  ⟨h.kept, h.alive, h.draft, h.clean, h.asked⟩

theorem Desk.Shown.not_broken (h : dk.Shown s v) : ¬ s.broken = true := by
  rw [h.alive]
  exact Bool.false_ne_true

theorem fault_none {r : Req} {x : Nat × Env} (h : Failing Elsewhere r x) (hr : r.asksDb) :
    x.2.fault = none := by
  by_contra hno
  exact (h hno).1 hr

theorem Works.pure {a : α} {Q : α → Desk → Prop} (h : Q a dk) : Works dk (pure a) Q R :=
  fun _ _ hs => ⟨dk, hs, h⟩

theorem Works.raise {e : Exn} {Q : α → Desk → Prop} (h : ∀ s v, dk.Shown s v → R e s v) :
    Works dk (Task.raise e : Coro α) Q R := fun s v hs => h s v hs

theorem Works.bind {t : Coro α} {f : α → Coro β} {Q : β → Desk → Prop}
    (h : Works dk t (fun a dk' => Works dk' (f a) Q R) R) : Works dk (t >>= f) Q R := by
  intro s v hs
  rw [Task.wp_bind]
  refine Task.wp_turn_mono (h s v hs) ?_ fun _ _ _ => id
  rintro a s' v' ⟨dk', hs', hf⟩
  exact hf s' v' hs'

theorem Works.mono {t : Coro α} {Q Q' : α → Desk → Prop}
    {R' : Exn → Session → World × List Asked → Prop} (h : Works dk t Q R)
    (hQ : ∀ a dk, Q a dk → Q' a dk) (hR : ∀ e s v, R e s v → R' e s v) : Works dk t Q' R' := by
  intro s v hs
  refine Task.wp_turn_mono (h s v hs) ?_ hR
  rintro a s' v' ⟨dk', hs', ha⟩
  exact ⟨dk', hs', hQ a dk' ha⟩

/-- The handler has the desk that was left. -/
theorem Works.catching {t : Coro α} {handler : Exn → Coro α} {Q : α → Desk → Prop}
    (h : Works dk t Q fun e s v => ∃ dk', Desk.Shown dk' s v ∧ Works dk' (handler e) Q R) :
    Works dk (Task.catching t handler) Q R := by
  intro s v hs
  rw [Task.wp_catching]
  refine Task.wp_turn_mono (h s v hs) (fun _ _ _ => id) ?_
  rintro e s' v' ⟨dk', hs', hh⟩
  exact hh s' v' hs'

theorem Works.execute {q : Query} {Q : q.Res → Desk → Prop}
    (hq : ∀ es ws x, noting es (.query ws q) x = es)
    (h : ∀ (e : Env) now (d : Db), d.book = dk.draft → Q (q.eval e now d) dk) :
    Works dk (execute q) Q R := by
  intro s v hs
  rw [wp_execute, if_neg hs.not_broken]
  intro x hx
  obtain ⟨d, hd, hbook⟩ := hs.draft (v.1.clock + x.1)
  have hans : passing (.query s.pending q) x v.1 =
      (.ok (q.eval x.2 (v.1.clock + x.1) d), { v.1 with clock := v.1.clock + x.1 }) := by
    show x.2.answer dbError _ (q.eval x.2 _ (v.1.db.view (v.1.clock + x.1) s.pending)) _ = _
    rw [Env.answer, fault_none hx trivial, Db.view, hd]
    rfl
  simp only [noted, tracked, hans, hq, dbCases_ok]
  exact ⟨dk, hs.later x.1, h x.2 _ d hbook⟩

theorem Works.commit {Q : Unit → Desk → Prop} (h : Q () dk.keeping) : Works dk commit Q R := by
  intro s v hs
  rw [wp_commit, if_neg hs.not_broken]
  intro x hx
  obtain ⟨d, hd, hbook⟩ := hs.draft (v.1.clock + x.1)
  have hans : passing (.commit s.pending) x v.1 =
      (.ok (), { v.1 with clock := v.1.clock + x.1, db := d }) := by
    show handle (.commit s.pending) x.2 { v.1 with clock := v.1.clock + x.1 } = _
    simp only [handle, hd, Env.answer, fault_none hx trivial]
  simp only [noted, tracked, hans, dbCases_ok]
  have hshown : dk.keeping.Shown { s with pending := [] }
      ({ v.1 with clock := v.1.clock + x.1, db := d }, v.2) :=
    ⟨hbook, hs.alive, fun now => ⟨d, rfl, hbook⟩, fun _ => rfl, hs.asked⟩
  exact ⟨dk.keeping, hshown, h⟩

/-- The write takes one draft to the next, whenever it is flushed. -/
def Write.Turns (w : Write) (B B' : Book) : Prop :=
  ∀ (d : Db) now, d.book = B → w.conflicts d = false ∧ (w.apply now d).book = B'

theorem Desk.Shown.stage {w : Write} (hs : dk.Shown s v) (hw : w.Turns dk.draft B) :
    (dk.drafting B).Shown { s with pending := s.pending ++ [w] } v := by
  refine ⟨hs.kept, hs.alive, fun now => ?_, nofun, hs.asked⟩
  obtain ⟨d, hd, hbook⟩ := hs.draft now
  obtain ⟨hc, hnext⟩ := hw d now hbook
  exact ⟨w.apply now d, Db.write?_concat hd hc, hnext⟩

theorem Works.stage {w : Write} {Q : Unit → Desk → Prop} (hw : w.Turns dk.draft B)
    (h : Q () (dk.drafting B)) : Works dk (stage w) Q R :=
  fun _ _ hs => ⟨_, hs.stage hw, h⟩

theorem Works.assign {G : Type} [Stored α G] [DecidableEq α] {r : α} {f : G} {Q : α → Desk → Prop}
    (hw : (Stored.write r f).Turns dk.draft B) (hsame : Stored.set f r = r → B = dk.draft)
    (h : Q (Stored.set f r) (dk.drafting B)) : Works dk (assign r f) Q R := by
  intro s v hs
  rw [wp_assign]
  split
  · next heq =>
      rw [heq] at h
      refine ⟨dk.drafting B, ⟨hs.kept, hs.alive, ?_, nofun, hs.asked⟩, h⟩
      intro now
      rw [hsame heq]
      exact hs.draft now
  · exact ⟨_, hs.stage hw, h⟩

/-! ## Staged writes -/

theorem undated_set (f : OrderField) (o : Order) :
    (f.set o.undated).undated = (f.set o).undated := by
  cases f <;> rfl

theorem turns_setOrder {o : Order} (h : B.orders o.id = some o.undated) (f : OrderField) :
    (Write.setOrder o.id f).Turns B (B.putOrder (f.set o)) := by
  rintro d now rfl
  obtain ⟨row, hrow, hundated⟩ := Option.map_eq_some_iff.mp h
  refine ⟨rfl, ?_⟩
  have hset : (f.set row).undated = (f.set o).undated := by
    rw [← undated_set, hundated, undated_set]
  have hid : (f.set o).id = o.id := Row.key_set f o
  have horders : ((Write.setOrder o.id f).apply now d).book.orders =
      (d.book.putOrder (f.set o)).orders := by
    funext i
    show (((d.orders.update o.id f).update o.id (.updatedAt now)).get? i).map Order.undated =
      Function.update d.book.orders (f.set o).id _ i
    rw [Table.get?_update, Table.get?_update_self, hrow, hid, Function.update_apply]
    split
    · exact congrArg some hset
    · next hne => rw [Table.get?_update_of_ne _ hne]; rfl
  exact congrArg (fun x => { d.book with orders := x }) horders

theorem turns_addAttempt {a : OrderAttempt} (h : B.attempts.get? a.id = none) :
    (Write.addAttempt a).Turns B (B.addAttempt a) := by
  rintro d now rfl
  refine ⟨?_, rfl⟩
  show (d.attempts.get? a.id).isSome = false
  rw [show d.attempts.get? a.id = none from h]
  rfl

theorem turns_setAttempt {a : OrderAttempt} (h : B.attempts.get? a.id = some a)
    (f : OrderAttemptField) :
    (Write.setAttempt a.orderId a.id f).Turns B (B.setAttempt a.id f) := by
  rintro d now rfl
  refine ⟨rfl, ?_⟩
  have hown : (d.attempts.get? a.id).any (fun r => r.orderId == a.orderId) = true := by
    rw [show d.attempts.get? a.id = some a from h]
    simp
  show (if _ then _ else _ : Db).book = _
  rw [if_pos hown]
  rfl

theorem turns_addFailover (e : FailoverEvent) :
    (Write.addFailover e).Turns B (B.addFailover e) := by
  rintro d now rfl
  exact ⟨rfl, rfl⟩

theorem turns_enqueue (p : EventPayload) : (Write.enqueue p).Turns B (B.announce p) := by
  rintro d now rfl
  exact ⟨rfl, rfl⟩

theorem putOrder_self {o : Order} (h : B.orders o.id = some o.undated) : B.putOrder o = B := by
  have horders : Function.update B.orders o.id (some o.undated) = B.orders := by
    rw [← h]
    exact Function.update_eq_self ..
  show ({ B with orders := Function.update B.orders o.id (some o.undated) } : Book) = B
  rw [horders]

theorem putOrder_putOrder (o o' : Order) (h : o'.id = o.id) :
    (B.putOrder o).putOrder o' = B.putOrder o' := by
  show ({ B with orders := Function.update (Function.update B.orders o.id _) o'.id _ } : Book) = _
  rw [h, Function.update_idem, ← h]
  rfl

theorem Works.assignOrder {o : Order} {f : OrderField} {Q : Order → Desk → Prop}
    (ho : dk.draft.orders o.id = some o.undated)
    (h : Q (f.set o) (dk.drafting (dk.draft.putOrder (f.set o)))) :
    Works dk (BrokerBridge.assign o f) Q R :=
  Works.assign (turns_setOrder ho f) (fun hsame => by
    change f.set o = o at hsame
    rw [hsame, putOrder_self ho]) h

/-- The attempt is the last of them. -/
def Book.Last (B : Book) (as : List OrderAttempt) (a : OrderAttempt) : Prop :=
  B.attempts.rows = as ++ [a]

theorem Book.Last.get? {as : List OrderAttempt} {a : OrderAttempt} (h : B.Last as a) :
    B.attempts.get? a.id = some a := by
  refine Table.get?_of_mem ?_
  rw [h]
  exact List.mem_append_right _ (List.mem_singleton_self a)

theorem Book.Last.set {as : List OrderAttempt} {a : OrderAttempt} (h : B.Last as a)
    (f : OrderAttemptField) : (B.setAttempt a.id f).Last as (f.set a) := by
  have hnodup := B.attempts.nodup
  rw [h, List.map_append, List.nodup_append] at hnodup
  have hothers : ∀ b ∈ as, Row.key b ≠ a.id := fun b hb =>
    hnodup.2.2 _ (List.mem_map_of_mem hb) _ (List.mem_singleton_self _)
  show (B.attempts.rows.map fun b => if Row.key b = a.id then Row.set f b else b) = _
  rw [h, List.map_append, List.map_singleton, if_pos (show Row.key a = a.id from rfl)]
  refine congrArg (· ++ [f.set a]) ((List.map_congr_left fun b hb => ?_).trans (List.map_id as))
  exact if_neg (hothers b hb)

theorem Works.assignAttempt {as : List OrderAttempt} {a : OrderAttempt} {f : OrderAttemptField}
    {Q : OrderAttempt → Desk → Prop} (ha : dk.draft.Last as a)
    (h : Q (f.set a) (dk.drafting (dk.draft.setAttempt a.id f))) :
    Works dk (BrokerBridge.assign a f) Q R := by
  refine Works.assign (turns_setAttempt ha.get? f) (fun hsame => ?_) h
  change f.set a = a at hsame
  have hrows : (dk.draft.attempts.update a.id f).rows = dk.draft.attempts.rows := by
    have hlast := ha.set f
    rw [hsame] at hlast
    exact hlast.trans ha.symm
  have htable : dk.draft.attempts.update a.id f = dk.draft.attempts := Table.ext hrows
  show ({ dk.draft with attempts := dk.draft.attempts.update a.id f } : Book) = dk.draft
  rw [htable]

/-! ## Other requests -/

theorem Works.mark {m : Mark} {Q : Unit → Desk → Prop} (h : Q () dk) : Works dk (mark m) Q R :=
  fun _ _ hs x _ => ⟨dk, hs.later x.1, h⟩

/-- Nothing has a new id. -/
theorem Works.newId {Q : Nat → Desk → Prop}
    (h : ∀ i, dk.kept.attempts.get? i = none → Q i dk) : Works dk newId Q R := by
  intro s v hs x _
  have hlater := hs.later x.1
  refine ⟨dk, ⟨hs.kept, hs.alive, hs.draft, hs.clean, hs.asked⟩, h _ ?_⟩
  have hfresh : v.1.db.attempts.get? ({ v.1 with clock := v.1.clock + x.1 } : World).freshId =
      none := by
    refine get?_none_of_fresh fun a ha => Nat.ne_of_lt (lt_freshId (mem_ids_of_db ?_))
    have hmem := List.mem_map_of_mem (f := OrderAttempt.id) ha
    simp only [Db.ids, List.mem_append]
    exact .inl (.inr hmem)
  rw [← hs.kept]
  exact hfresh

theorem Works.rateConsume {b : BrokerId} {limit : Rat} {Q : RateSnapshot → Desk → Prop}
    (h : ∀ rl : RateSnapshot, Q rl (dk.hears (.consumed b rl.allowed))) :
    Works dk (rateConsume b limit) Q R := by
  unfold BrokerBridge.rateConsume
  refine Works.bind fun s v hs => ?_
  rw [wp_await]
  intro x hx
  have hfault : x.2.fault = none := by
    by_contra hno
    exact (hx hno).2 b limit rfl
  have hans : passing (.rateConsume b limit) x v.1 =
      (.ok x.2.rate, { v.1 with clock := v.1.clock + x.1 }) := by
    show x.2.answer _ _ _ _ = _
    rw [Env.answer, hfault]
  simp only [noted, tracked, hans]
  refine ⟨dk.hears (.consumed b x.2.rate.allowed),
    ⟨hs.kept, hs.alive, hs.draft, hs.clean, ?_⟩, Works.pure (h x.2.rate)⟩
  show v.2 ++ _ = dk.asked ++ _
  rw [hs.asked]

/-- What `place_order` answers: an id, the broker's error, or another exception. -/
def Replied : Except Exn BrokerOrderId → Prop
  | .ok _ | .error (.broker _ _ _ _) | .error (.other _) => True
  | .error _ => False

theorem Works.placeOrder {o : OrderId} {p : OrderPayload}
    {Q : Except Exn BrokerOrderId → Desk → Prop}
    (h : ∀ x, Replied x → Q x (dk.hears (.placed p x))) :
    Works dk (await (.placeOrder o p)) Q R := by
  intro s v hs
  rw [wp_await]
  intro x _
  have hshown : ∀ (w : World) (y : Except Exn BrokerOrderId), w.db = v.1.db →
      (dk.hears (.placed p y)).Shown s (w, v.2 ++ [.placed p y]) := fun w y hw =>
    ⟨by rw [hw]; exact hs.kept, hs.alive, by rw [hw]; exact hs.draft, hs.clean,
      by rw [hs.asked]; rfl⟩
  have hdb : (passing (.placeOrder o p) x v.1).2.db = v.1.db :=
    handle_db (r := .placeOrder o p) (fun _ => nofun) x.2 _
  have hreplied : Replied (passing (.placeOrder o p) x v.1).1 := by
    show Replied (handle (.placeOrder o p) x.2 _).1
    simp only [handle]
    split <;> trivial
  exact ⟨_, hshown _ _ hdb, h _ hreplied⟩

end Rules

/-! ## Ensuring a session -/

theorem book_of_ofSession {now : Instant} {ws : List Write} {d d' : Db}
    (h : d.write? now ws = some d') (hws : ∀ w ∈ ws, w.ofSession) : d'.book = d.book := by
  induction ws generalizing d with
  | nil => exact congrArg Db.book (Option.some.inj h).symm
  | cons w ws ih =>
      rw [Db.write?, List.foldlM_cons] at h
      obtain ⟨d₁, hd₁, hrest⟩ := Option.bind_eq_some_iff.mp h
      have happly : d₁ = w.apply now d := by
        rw [Write.checked] at hd₁
        split at hd₁
        · cases hd₁
        · exact (Option.some.inj hd₁).symm
      have hw : (w.apply now d).book = d.book := by
        have hofw := hws w List.mem_cons_self
        cases w <;> first | rfl | exact hofw.elim
      rw [ih hrest fun x hx => hws x (List.mem_cons_of_mem _ hx), happly, hw]

/-- Ensuring a session keeps the book. -/
theorem ensuring_keeps {b : BrokerId} {B : Book} (r : Req) (hr : r.ensuring b) (x : Nat × Env)
    (v : World × List Asked) (hv : v.1.db.book = B) : (noted r x v).2.1.db.book = B := by
  rw [← hv]
  cases r with
  | commit ws =>
      rcases commit_cases ws x.2 { v.1 with clock := v.1.clock + x.1 } with ⟨f, hf⟩ | ⟨d, hd, hf⟩
      · exact congrArg (fun y => Db.book (World.db (Prod.snd y))) hf
      · exact (congrArg (fun y => Db.book (World.db (Prod.snd y))) hf).trans
          (book_of_ofSession hd hr)
  | rateConsume _ _ | placeOrder _ _ => exact hr.elim
  | _ =>
      refine congrArg Db.book (handle_db ?_ x.2 _)
      intro _ heq
      cases heq

/-- What is noted of `t`, begun with the database `d` and the notes `es`: `es₀` in the end when
it returns, a refusal when it raises. -/
def Obtains {α : Type} (es₀ : List Asked) (d : Db) (t : Coro α) (s : Session) (es : List Asked) :
    Prop :=
  ∀ w : World, w.db = d → Task.wp (turn noted (Failing Elsewhere)) t (fun _ _ v' => v'.2 = es₀)
    (fun _ _ v' => .refused ∈ v'.2) s (w, es)

section Obtaining

variable {es₀ es : List Asked} {d : Db} {s : Session} {α β : Type}

theorem Obtains.pure {a : α} : Obtains es d (pure a) s es := fun _ _ => rfl

theorem Obtains.raise {e : Exn} (h : .refused ∈ es) : Obtains es₀ d (Task.raise e : Coro α) s es :=
  fun _ _ => h

theorem mem_refused (es : List Asked) : .refused ∈ es ++ [.refused] :=
  List.mem_append_right es (List.mem_singleton_self _)

theorem Obtains.read {q : Query} {k : q.Res → Coro α} (halive : s.broken = false)
    (hclean : s.pending = [])
    (h : ∀ e now, Obtains es₀ d (k (q.eval e now d)) s
      (noting es (.query [] q) (.ok (q.eval e now d)))) :
    Obtains es₀ d (execute q >>= k) s es := by
  rintro w rfl
  rw [Task.wp_bind, wp_execute, if_neg (by rw [halive]; exact Bool.false_ne_true), hclean]
  intro x hx
  have hans : passing (.query [] q) x w =
      (.ok (q.eval x.2 (w.clock + x.1) w.db), { w with clock := w.clock + x.1 }) :=
    Env.answer_of_fine (fault_none hx trivial)
  simp only [noted, tracked, hans, dbCases_ok]
  exact h x.2 (w.clock + x.1) _ rfl

/-- A request that leaves the database alone. -/
theorem Obtains.await {r : Req} {k : r.Ans → Coro α} (hr : ∀ ws, r ≠ .commit ws)
    (h : ∀ x, Obtains es₀ d (k x) s (noting es r x)) : Obtains es₀ d (await r >>= k) s es := by
  rintro w rfl x _
  exact h _ _ (handle_db hr x.2 { w with clock := w.clock + x.1 })

theorem Obtains.commit {k : Unit → Coro α} (halive : s.broken = false)
    (h : ∀ now d', d.write? now s.pending = some d' → Obtains es₀ d' (k ())
      { s with pending := [] } es) :
    Obtains es₀ d (commit >>= k) s es := by
  rintro w rfl
  rw [Task.wp_bind, wp_commit, if_neg (by rw [halive]; exact Bool.false_ne_true)]
  intro x _
  rcases commit_cases s.pending x.2 { w with clock := w.clock + x.1 } with ⟨f, hf⟩ | ⟨d', hd', hf⟩
  · have hans : passing (.commit s.pending) x w = (.error f, { w with clock := w.clock + x.1 }) :=
      hf
    simp only [noted, tracked, hans, dbCases_error]
    exact mem_refused es
  · have hans : passing (.commit s.pending) x w =
        (.ok (), { w with clock := w.clock + x.1, db := d' }) := hf
    simp only [noted, tracked, hans, dbCases_ok]
    exact h _ d' hd' _ rfl

/-- The answer of an await that is noted when it is an exception. -/
theorem Obtains.ofAnswer {x : Except Exn β} {k : β → Coro α}
    (hok : ∀ a, x = .ok a → Obtains es₀ d (k a) s es)
    (herr : ∀ e, x = .error e → .refused ∈ es) : Obtains es₀ d (ofAnswer x >>= k) s es := by
  cases x with
  | ok a => exact hok a rfl
  | error e => exact fun _ _ => herr e rfl

theorem Obtains.ofRedisAnswer {op : String} {x : Except Exn β} {k : β → Coro α}
    (hok : ∀ a, x = .ok a → Obtains es₀ d (k a) s es)
    (herr : ∀ e, x = .error e → .refused ∈ es) : Obtains es₀ d (ofRedisAnswer op x >>= k) s es := by
  cases x with
  | ok a => exact hok a rfl
  | error e =>
      have hnoted := herr e rfl
      cases e <;> exact fun _ _ => hnoted

theorem Obtains.assoc {γ : Type} {t : Coro α} {f : α → Coro β} {g : β → Coro γ}
    (h : Obtains es₀ d (t >>= fun a => f a >>= g) s es) : Obtains es₀ d ((t >>= f) >>= g) s es := by
  intro w hw
  have hflat := h w hw
  simp only [Task.wp_bind] at hflat ⊢
  exact hflat

/-- An attribute of a session: at most one write more. -/
theorem Obtains.assignSession {r : BrokerSession} {f : BrokerSessionField}
    {k : BrokerSession → Coro α}
    (hws : ∀ w ∈ s.pending, ∃ i g, w = .setSession i g)
    (h : ∀ ws, (∀ w ∈ ws, ∃ i g, w = .setSession i g) →
      Obtains es₀ d (k (f.set r)) { s with pending := ws } es) :
    Obtains es₀ d (assign r f >>= k) s es := by
  intro w hw
  rw [Task.wp_bind, wp_assign]
  split
  · next hsame =>
      have hkept := h s.pending hws w hw
      rwa [show f.set r = r from hsame] at hkept
  · refine h _ (fun v hv => ?_) w hw
    rcases List.mem_append.mp hv with hv | hv
    · exact hws v hv
    · exact ⟨_, f, List.mem_singleton.mp hv⟩

theorem session_kept {b : BrokerId} {now : Instant} {ws : List Write} {d' : Db}
    (hws : ∀ w ∈ ws, ∃ i g, w = .setSession i g) (hd : d.write? now ws = some d')
    (h : (d.sessions.get? b).isSome) : (d'.sessions.get? b).isSome := by
  refine Db.write?_preserves (P := fun d => (d.sessions.get? b).isSome)
    (fun w hw d₁ _ h₁ => ?_) hd h
  obtain ⟨i, g, rfl⟩ := hws w hw
  show ((d₁.sessions.update i g).get? b).isSome
  rw [Table.get?_update]
  split
  · next heq =>
      subst heq
      rw [Option.isSome_map]
      exact h₁
  · exact h₁

/-- The tokens are stored: a commit of the writes leaves a session. -/
theorem Obtains.storeTokens {b : BrokerId} {tokens : Tokens} {now : Instant} {k : Unit → Coro α}
    (hclean : s.pending = [])
    (h : ∀ ws, (∀ t d', d.write? t ws = some d' → (d'.sessions.get? b).isSome) →
      Obtains es₀ d (k ()) { s with pending := ws } es) :
    Obtains es₀ d (storeTokens b (d.sessions.get? b) tokens now >>= k) s es := by
  cases hrow : d.sessions.get? b with
  | none =>
      intro w hw
      rw [BrokerBridge.storeTokens, Task.wp_bind, wp_stage, hclean]
      refine h _ (fun t d' hd' => ?_) w hw
      obtain ⟨-, rfl⟩ := Db.write?_singleton.mp hd'
      exact Option.isSome_iff_exists.mpr ⟨_, Table.get?_insert_self hrow⟩
  | some row =>
      have hsets : ∀ w ∈ s.pending, ∃ i g, w = .setSession i g := by
        rw [hclean]
        exact fun _ hw => by cases hw
      refine Obtains.assoc (Obtains.assignSession hsets fun ws₁ h₁ => ?_)
      refine Obtains.assoc (Obtains.assignSession h₁ fun ws₂ h₂ => ?_)
      refine Obtains.assoc (Obtains.assignSession h₂ fun ws₃ h₃ => ?_)
      refine h ws₃ fun t d' hd' => session_kept h₃ hd' ?_
      rw [hrow]
      rfl

/-- The body of `ensure` under the lock notes nothing, or a refusal. -/
theorem obtains_ensureLocked {b : BrokerId} (halive : s.broken = false) (hclean : s.pending = []) :
    Obtains es d (ensureLocked b false) s es := by
  refine Obtains.read halive hclean fun _ _ => Obtains.await (fun _ => nofun) fun now => ?_
  split
  · exact Obtains.pure
  refine Obtains.read halive hclean fun _ _ => ?_
  have hrest : ∀ tokens, Obtains es d (storeTokens b (d.sessions.get? b) tokens now >>= fun _ => do
      commit
      let s ← refreshed (← execute (.brokerSession b))
      let x : Except Exn Unit ← await (.cacheSession b)
      ofRedisAnswer "session cache" x
      pure s) s es := fun tokens => by
    refine Obtains.storeTokens hclean fun ws hws => Obtains.commit halive fun t d' hd' => ?_
    refine Obtains.read halive rfl fun _ _ => ?_
    obtain ⟨row, hrow⟩ := Option.isSome_iff_exists.mp (hws t d' hd')
    rw [show Query.eval _ _ d' (.brokerSession b) = some row from hrow]
    refine Obtains.await (fun _ => nofun) fun x => Obtains.ofRedisAnswer ?_ ?_
    · rintro _ rfl
      exact Obtains.pure
    · rintro _ rfl
      exact mem_refused es
  unfold fetchTokens
  split
  all_goals
    refine Obtains.assoc (Obtains.await (fun _ => nofun) fun x => Obtains.ofAnswer ?_ ?_)
    · rintro _ rfl
      exact hrest _
    · rintro _ rfl
      exact mem_refused es

/-- On the way out the lock is released, whatever has been noted. -/
theorem Obtains.releasing {t : Coro α} {k : LockKey} {token : Nat} (h : Obtains es d t s es) :
    Obtains es d (Task.finally' t (releaseLock k token)) s es := by
  intro w hw
  rw [Task.wp_finally']
  refine Task.wp_turn_mono (h w hw) ?_ ?_
  · rintro a s' v' hnoted x _
    simp only [noted, tracked, hnoted]
    generalize (passing (.release k token) x v'.1).1 = y
    cases y with
    | ok _ => exact rfl
    | error e => cases e <;> first | exact rfl | exact mem_refused es
  · rintro e s' v' hnoted x _
    simp only [noted, tracked]
    generalize (passing (.release k token) x v'.1).1 = y
    cases y with
    | ok _ => exact hnoted
    | error e => cases e <;> first | exact hnoted | exact mem_refused _

/-- `ensure` notes nothing, or a refusal. -/
theorem obtains_ensure {held : List BrokerAccount} {b : BrokerId} (halive : s.broken = false)
    (hclean : s.pending = []) (hheld : ∃ row ∈ held, row.id = b)
    (henabled : ∀ row ∈ held, row.enabled = true) : Obtains es d (ensure held b false) s es := by
  refine Obtains.read halive hclean fun _ _ => ?_
  cases hrow : d.brokers.get? b with
  | none =>
      rw [show Query.eval _ _ d (.broker b) = none from hrow]
      exact Obtains.raise (mem_refused es)
  | some row =>
      rw [show Query.eval _ _ d (.broker b) = some row from hrow]
      obtain ⟨kept, hkept⟩ : ∃ kept, held.find? (·.id == b) = some kept := by
        obtain ⟨x, hx, hid⟩ := hheld
        exact Option.isSome_iff_exists.mp (List.find?_isSome.mpr ⟨x, hx, beq_iff_eq.mpr hid⟩)
      have hon := henabled kept (List.mem_of_find?_eq_some hkept)
      simp only [hkept, Option.getD_some, hon]
      refine Obtains.await (fun _ => nofun) fun token => ?_
      refine Obtains.assoc (Obtains.await (fun _ => nofun) fun x => Obtains.ofRedisAnswer ?_ ?_)
      · rintro got rfl
        cases got with
        | false => exact Obtains.raise (mem_refused es)
        | true => exact Obtains.releasing (obtains_ensureLocked halive hclean)
      · rintro e rfl
        exact mem_refused es

end Obtaining

/-- `ensure` leaves the desk as it was, or raises and has noted a refusal. -/
theorem works_ensure {dk : Desk} (hdk : dk.clean = true) {held : List BrokerAccount} {b : BrokerId}
    (hheld : ∃ row ∈ held, row.id = b) (henabled : ∀ row ∈ held, row.enabled = true) :
    Works dk (ensure held b false) (fun _ dk' => dk' = dk) fun _ _ v => .refused ∈ v.2 := by
  intro s v hs
  have hclean : s.Clean := by
    rw [Session.Clean, Session.Staged, hs.clean hdk]
    exact .inr fun _ h => by cases h
  have honly := Prog.only_and (ensure_calm held b false s hclean)
    (ensure_alive held b false s hs.alive)
  have hkeeps := Prog.turn_of_only (A := Failing Elsewhere) (J := fun v => v.1.db.book = dk.kept)
    (fun r hr x _ w => ensuring_keeps r hr x w) honly hs.kept
  have hnotes : (ensure held b false s).fold (turn noted (Failing Elsewhere)) _ (v.1, v.2) :=
    obtains_ensure hs.alive (hs.clean hdk) hheld henabled v.1 rfl
  refine Prog.turn_mono ?_ (Prog.turn_and hkeeps hnotes)
  rintro ⟨a | a, s'⟩ v' ⟨⟨⟨hend, halive⟩, hbook⟩, hnoted⟩
  · exact hnoted
  · have hpending : s'.pending = [] :=
      Session.Clean.pending hend (by rw [halive]; exact Bool.false_ne_true)
    refine ⟨dk, ⟨hbook, halive, fun now => ?_, fun _ => hpending, ?_⟩, rfl⟩
    · rw [hpending]
      obtain ⟨d, hd, hdraft⟩ := hs.draft now
      rw [hs.clean hdk] at hd
      have hdb : d = v.1.db := (Option.some.inj hd).symm
      refine ⟨v'.1.db, rfl, ?_⟩
      rw [hbook, ← hs.kept, ← hdraft, hdb]
    · rw [← hs.asked]
      exact hnoted

end BrokerBridge
