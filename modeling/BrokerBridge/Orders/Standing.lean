import BrokerBridge.Orders.Slice
import BrokerBridge.Code.System

/-!
# How a `place` stands

One `place` among other calls, which may do anything between two of its awaits
except touch the row of its order and delete rows. What the call is told decides
how it stands: whether its order has been handed to the submission loop, and
whether an await has gone wrong that the loop has no answer to.

`Stretch` is the triple for the parts of such a call that do not themselves say
that the order failed. A stretch that raises is undone: the row does not say
FAILED, and that is accounted for by how the call stands.
-/

namespace BrokerBridge

open Conc

/-- What others may do meanwhile: the row of the order stays, and nothing is deleted. -/
structure Meanwhile (o : OrderId) (w w' : World) : Prop where
  order : w'.db.orders.get? o = w.db.orders.get? o
  brokers : ∀ {b}, (w.db.brokers.get? b).isSome → (w'.db.brokers.get? b).isSome
  sessions : ∀ {b}, (w.db.sessions.get? b).isSome → (w'.db.sessions.get? b).isSome
  attempts : ∀ {a r}, w.db.attempts.get? a = some r →
    ∃ r', w'.db.attempts.get? a = some r' ∧ r'.orderId = r.orderId

/-- What others do before a request, and what settles its answer. -/
abbrev Turn : Type := (World → World) × Env

def Turn.spares (o : OrderId) (x : Turn) : Prop := ∀ w, Meanwhile o w (x.1 w)

/-! ## What the call is told -/

def failed {α : Type} : Except Exn α → Bool
  | .ok _ => false
  | .error _ => true

/-- The answer of an await that `place` has no answer to. The broker may refuse an
order; a lock that another holds is no exception, but ends the call all the same. -/
def harmful : (r : Req) → r.Ans → Bool
  | .query _ _, x => failed x
  | .commit _, x => failed x
  | .flush _, x => failed x
  | .rollback, x => failed x
  | .acquire _ _ _, x => match x with
      | .ok true => false
      | _ => true
  | .release _ _, x => match x with
      | .ok _ | .error .redisUnavailable => false
      | _ => true
  | .rateCheck _ _, x => failed x
  | .rateConsume _ _, x => failed x
  | .cacheSession _, x => failed x
  | .authenticate _, x => failed x
  | .refreshSession _, x => failed x
  | _, _ => false

/-- The order is handed to the submission loop. -/
def Req.handsOver : Req → Bool
  | .mark (.submitInline ..) => true
  | _ => false

/-- A route was found, for the order was handed to the submission loop. -/
def Routed (l : List ((r : Req) × r.Ans)) : Prop := ∃ x ∈ l, x.1.handsOver = true

def Harmless (l : List ((r : Req) × r.Ans)) : Prop := ∀ x ∈ l, harmful x.1 x.2 = false

/-- How a call stands: nothing has gone wrong, and it has a route or not yet. -/
inductive Standing where
  | unrouted | routed | harmed
  deriving DecidableEq

def Standing.hear (v : Standing) (r : Req) (x : r.Ans) : Standing :=
  if harmful r x then .harmed
  else if r.handsOver && v == .unrouted then .routed
  else v

section Hearing

variable {v : BrokerBridge.Standing} {r : Req} {x : r.Ans}

theorem hear_harmful (h : harmful r x = true) : v.hear r x = .harmed := if_pos h

theorem hear_harmless (h : harmful r x = false) (hr : r.handsOver = false) : v.hear r x = v := by
  simp [Standing.hear, h, hr]

theorem hear_ne_routed (hv : v ≠ .routed) (hr : r.handsOver = false) :
    v.hear r x ≠ .routed := by
  cases h : harmful r x with
  | true => rw [hear_harmful h]; nofun
  | false => rwa [hear_harmless h hr]

/-- Everything the call was told, in one word. -/
theorem foldl_hear (l : List ((r : Req) × r.Ans)) (v : Standing) :
    l.foldl (fun v x => v.hear x.1 x.2) v = .routed ↔
      v ≠ .harmed ∧ (v = .routed ∨ Routed l) ∧ Harmless l := by
  induction l generalizing v with
  | nil =>
      show v = .routed ↔ _
      cases v <;> simp [Routed, Harmless]
  | cons x l ih =>
      rw [List.foldl_cons, ih]
      have hR : Routed (x :: l) ↔ x.1.handsOver = true ∨ Routed l := by simp [Routed]
      have hH : Harmless (x :: l) ↔ harmful x.1 x.2 = false ∧ Harmless l := by simp [Harmless]
      rw [hR, hH]
      cases hh : harmful x.1 x.2 with
      | true => simp [hear_harmful hh]
      | false =>
          cases hr : x.1.handsOver with
          | false => simp [hear_harmless hh hr]
          | true => cases v <;> simp [Standing.hear, hh, hr]

end Hearing

/-! ## What holds meanwhile -/

section Meanwhile

variable {o i : OrderId} {bs : List BrokerId} {w w' w'' : World} {d d' : Db} {now : Instant}

theorem Meanwhile.of_db (h : w'.db = w.db) : Meanwhile o w w' := by
  constructor
  all_goals rw [h]
  all_goals intros
  · assumption
  · assumption
  · exact ⟨_, by assumption, rfl⟩

theorem Meanwhile.trans (h : Meanwhile o w w') (h' : Meanwhile o w' w'') :
    Meanwhile o w w'' := by
  refine ⟨h'.order.trans h.order, h'.brokers ∘ h.brokers, h'.sessions ∘ h.sessions, ?_⟩
  intro a r hr
  obtain ⟨r', hr', ho⟩ := h.attempts hr
  obtain ⟨r'', hr'', ho'⟩ := h'.attempts hr'
  exact ⟨r'', hr'', ho'.trans ho⟩

/-- The call has order `i` in hand. If that is `o`, its row is there and does not
say that the order failed; if not, `o` is not there at all. The brokers `bs` are. -/
structure Underway (o i : OrderId) (bs : List BrokerId) (w : World) : Prop where
  row : ∀ {row}, w.db.orders.get? o = some row → o = i ∧ row.status ≠ .failed
  stored : o = i → (w.db.orders.get? o).isSome
  brokers : ∀ b ∈ bs, (w.db.brokers.get? b).isSome

theorem Underway.meanwhile (h : Underway o i bs w) (hm : Meanwhile o w w') :
    Underway o i bs w' := by
  refine ⟨fun hr => h.row (hm.order ▸ hr), fun ho => ?_, fun b hb => hm.brokers (h.brokers b hb)⟩
  rw [hm.order]
  exact h.stored ho

theorem Underway.forget (h : Underway o i bs w) : Underway o i [] w :=
  ⟨h.row, h.stored, fun _ h => nomatch h⟩

/-- The call may raise: nothing says that the order failed, and nothing should. -/
def Undone (o i : OrderId) (x : World × Standing) : Prop :=
  Underway o i [] x.1 ∧ x.2 ≠ .routed

/-- The row says that the order failed exactly when it should. -/
def Settled (o : OrderId) (x : World × Standing) : Prop :=
  ∀ row, x.1.db.orders.get? o = some row → (row.status = .failed ↔ x.2 = .routed)

theorem Undone.settled {x : World × Standing} (h : Undone o i x) : Settled o x := fun _ hr =>
  ⟨fun hf => absurd hf (h.1.row hr).2, fun hv => absurd hv h.2⟩

/-- The world after others had their turn and a request that is no commit. -/
theorem turn_meanwhile {r : Req} (hr : ∀ ws, r ≠ .commit ws) {x : Turn} (hx : x.spares o)
    (w : World) : Meanwhile o w (amid handle r x w).2 :=
  (hx w).trans (.of_db (handle_db hr _ _))

/-- A write of such a call, when it does not say that the order failed. -/
def Write.proceeds (i : OrderId) (u : Write) : Prop :=
  u.working i ∧ u ≠ .setOrder i (.status .failed)

theorem Write.apply_setOrder (i : OrderId) (f : OrderField) :
    (Write.apply now d (.setOrder i f)).orders.get? i =
      (d.orders.get? i).map fun r => OrderField.set (.updatedAt now) (f.set r) := by
  simp only [Write.apply, Table.get?_update_self, Option.map_map]
  rfl

theorem Underway.apply {u : Write} (hu : u.proceeds i) (h : Underway o i bs { w with db := d }) :
    Underway o i bs { w with db := u.apply now d } := by
  obtain ⟨hw, hf⟩ := hu
  cases u with
  | addOrder r => exact hw.elim
  | setOrder o' f =>
      obtain ⟨rfl, _⟩ := hw
      have hset : ∀ r : Order, r.status ≠ .failed → (f.set r).status ≠ .failed := by
        intro r hr
        cases f with
        | status x => exact fun hx => hf (congrArg (fun x => Write.setOrder o' (.status x)) hx)
        | _ => exact hr
      by_cases ho : o = o'
      · subst ho
        refine ⟨fun hr => ⟨rfl, ?_⟩, fun _ => ?_, h.brokers⟩
        · rw [Write.apply_setOrder] at hr
          obtain ⟨r, hr0, rfl⟩ := Option.map_eq_some_iff.mp hr
          exact hset r (h.row hr0).2
        · rw [Write.apply_setOrder, Option.isSome_map]
          exact h.stored rfl
      · have heq : (Write.apply now d (.setOrder o' f)).orders.get? o = d.orders.get? o :=
          Write.apply_orders fun he => ho (Option.some.inj he).symm
        refine ⟨fun hr => h.row (heq ▸ hr), fun he => absurd he ho, h.brokers⟩
  | setAttempt o' a f =>
      simp only [Write.apply]
      split <;> exact ⟨h.row, h.stored, h.brokers⟩
  | _ => exact ⟨h.row, h.stored, h.brokers⟩

theorem Underway.write {ws : List Write} (hws : ∀ u ∈ ws, u.proceeds i)
    (h : Underway o i bs w) (hd : w.db.write? now ws = some d) :
    Underway o i bs { w with db := d } :=
  Db.write?_preserves (P := fun d => Underway o i bs { w with db := d })
    (fun u hu _ _ h => h.apply (hws u hu)) hd h

end Meanwhile

/-! ## Stretches that fail only where they should -/

/-- One request in its turn, with the standing of the call beside the world. -/
abbrev turn (r : Req) (x : Turn) (y : World × Standing) : r.Ans × (World × Standing) :=
  tracked (amid handle) Standing.hear r x y

/-- Begun with the pending writes in `S` and the world in `P`, the stretch returns
with the pending writes in `T`, or it raises and is undone. -/
def Stretch {α : Type} (o i : OrderId) (bs : List BrokerId) (v : Standing)
    (S : List Write → Prop) (P : World → Prop) (t : Coro α) (T : List Write → Prop)
    (Q : α → World → Prop) : Prop :=
  ∀ s w, s.broken = false → S s.pending → Underway o i bs w → P w →
    Task.wp (alone turn (Turn.spares o)) t
      (fun a s' x => s'.broken = false ∧ T s'.pending ∧ Underway o i bs x.1 ∧ x.2 = v ∧ Q a x.1)
      (fun _ _ x => Undone o i x) s (w, v)

/-- Nothing others do takes `P` away. -/
def Stable (o : OrderId) (P : World → Prop) : Prop := ∀ ⦃w w'⦄, Meanwhile o w w' → P w → P w'

/-- A task that a call which is undone may still run: it raises, and changes nothing. -/
def Raises {α : Type} (t : Coro α) : Prop := ∃ e, t = Task.raise e

section Rules

variable {α β : Type} {o i : OrderId} {bs : List BrokerId} {v : BrokerBridge.Standing}
  {S T U : List Write → Prop} {P P' : World → Prop} {Q Q' : α → World → Prop}
  {Q'' : β → World → Prop}

theorem Stretch.pure {a : α} (h : ∀ w, P w → Q a w) : Stretch o i bs v S P (pure a) S Q :=
  fun _ w hb hS hu hP => ⟨hb, hS, hu, rfl, h w hP⟩

theorem Stretch.raise {e : Exn} (hv : v ≠ .routed) :
    Stretch o i bs v S P (Task.raise e : Coro α) T Q :=
  fun _ _ _ _ hu _ => ⟨hu.forget, hv⟩

theorem Stretch.bind {t : Coro α} {f : α → Coro β} (ht : Stretch o i bs v S P t T Q)
    (hf : ∀ a, Stretch o i bs v T (Q a) (f a) U Q'') :
    Stretch o i bs v S P (t >>= f) U Q'' := by
  intro s w hb hS hu hP
  rw [Task.wp_bind]
  refine Task.wp_alone_mono (ht s w hb hS hu hP) ?_ fun _ _ _ => id
  rintro a s' ⟨w', v'⟩ ⟨hb', hS', hu', rfl, hQ⟩
  exact hf a s' w' hb' hS' hu' hQ

theorem Stretch.mono {t : Coro α} (h : Stretch o i bs v S P t T Q) (hP : ∀ w, P' w → P w)
    (hQ : ∀ a w, Q a w → Q' a w) : Stretch o i bs v S P' t T Q' := by
  intro s w hb hS hu hP'
  refine Task.wp_alone_mono (h s w hb hS hu (hP w hP')) ?_ fun _ _ _ => id
  rintro a s' x ⟨hb', hS', hu', hv', hQ'⟩
  exact ⟨hb', hS', hu', hv', hQ a _ hQ'⟩

theorem Stretch.given {p : Prop} {t : Coro α} (h : p → Stretch o i bs v S P t T Q) :
    Stretch o i bs v S (fun w => p ∧ P w) t T Q :=
  fun s w hb hS hu hP => h hP.1 s w hb hS hu hP.2

theorem Stretch.ite {c : Prop} [Decidable c] {t u : Coro α}
    (ht : c → Stretch o i bs v S P t T Q) (hu : ¬ c → Stretch o i bs v S P u T Q) :
    Stretch o i bs v S P (if c then t else u) T Q := by
  split
  · next h => exact ht h
  · next h => exact hu h

/-- A request, with a continuation that raises on every harmful answer. -/
theorem Stretch.ask {r : Req} {f : r.Ans → Coro β} (hc : ∀ ws, r ≠ .commit ws)
    (hr : r.handsOver = false) (hP : Stable o P)
    (hgood : ∀ x, harmful r x = false → Stretch o i bs v S P (f x) T Q'')
    (hbad : ∀ x, harmful r x = true → Raises (f x)) :
    Stretch o i bs v S P (await r >>= f) T Q'' := by
  intro s w hb hS hu hPw
  rw [Task.wp_bind, wp_await]
  intro x hx
  have hm := turn_meanwhile hc hx w
  show Task.wp (alone turn (Turn.spares o)) (f (amid handle r x w).1) _ _ s
    ((amid handle r x w).2, v.hear r (amid handle r x w).1)
  cases hh : harmful r (amid handle r x w).1 with
  | false =>
      rw [hear_harmless hh hr]
      exact hgood _ hh s _ hb hS (hu.meanwhile hm) (hP hm hPw)
  | true =>
      obtain ⟨e, he⟩ := hbad _ hh
      rw [he, hear_harmful hh]
      exact ⟨(hu.meanwhile hm).forget, nofun⟩

/-- A request whose answer does no harm. -/
theorem Stretch.await {r : Req} (hc : ∀ ws, r ≠ .commit ws) (hr : r.handsOver = false)
    (hx : ∀ x, harmful r x = false) (hP : Stable o P) :
    Stretch o i bs v S P (await r) S fun _ => P := by
  intro s w hb hS hu hPw x hx'
  have hm := turn_meanwhile hc hx' w
  exact ⟨hb, hS, hu.meanwhile hm, hear_harmless (hx _) hr, hP hm hPw⟩

theorem Stretch.execute {q : Query} {Q : q.Res → World → Prop} (hP : Stable o P)
    (h : ∀ e w, P w → Q (q.eval e w.clock w.db) w) :
    Stretch o i bs v (· = []) P (execute q) (· = []) Q := by
  intro s w hb hS hu hPw
  rw [wp_execute, if_neg (by rw [hb]; nofun)]
  intro x hx
  have hm := hx w
  obtain ⟨f, hf⟩ | hok := query_cases s.pending q x.2 (x.1 w)
  · have hans : amid handle (.query s.pending q) x w = (.error f, x.1 w) := hf
    simp only [turn, tracked, hans]
    exact ⟨(hu.meanwhile hm).forget, by
      rw [hear_harmful (r := .query _ q) (x := .error f) rfl]
      nofun⟩
  · rw [hS, Db.view_nil] at hok
    have hans : amid handle (.query s.pending q) x w =
        (.ok (q.eval x.2 (x.1 w).clock (x.1 w).db), x.1 w) := by rw [hS]; exact hok
    simp only [turn, tracked, hans]
    exact ⟨hb, hS, hu.meanwhile hm, hear_harmless (r := .query s.pending q)
      (x := .ok (q.eval x.2 (x.1 w).clock (x.1 w).db)) rfl rfl, h x.2 _ (hP hm hPw)⟩

theorem Stretch.commit {Q : World → Prop} (hS : ∀ ws, S ws → ∀ u ∈ ws, u.proceeds i)
    (hP : Stable o P)
    (h : ∀ w d ws, S ws → P w → w.db.write? w.clock ws = some d → Q { w with db := d }) :
    Stretch o i bs v S P commit (· = []) fun _ => Q := by
  intro s w hb hSs hu hPw
  rw [wp_commit, if_neg (by rw [hb]; nofun)]
  intro x hx
  have hm := hx w
  obtain ⟨f, hf⟩ | ⟨d, hd, hok⟩ := commit_cases s.pending x.2 (x.1 w)
  · have hans : amid handle (.commit s.pending) x w = (.error f, x.1 w) := hf
    simp only [turn, tracked, hans]
    refine ⟨(hu.meanwhile hm).forget, ?_⟩
    rw [hear_harmful (r := .commit s.pending) (x := .error f) rfl]
    nofun
  · have hans : amid handle (.commit s.pending) x w = (.ok (), { x.1 w with db := d }) := hok
    simp only [turn, tracked, hans]
    exact ⟨hb, trivial, (hu.meanwhile hm).write (hS _ hSs) hd,
      hear_harmless (r := .commit s.pending) (x := .ok ()) rfl rfl, h _ d _ hSs (hP hm hPw) hd⟩

theorem Stretch.stage {u : Write} (h : ∀ ws, S ws → T (ws ++ [u])) :
    Stretch o i bs v S P (stage u) T fun _ => P :=
  fun _ _ hb hS hu hP => ⟨hb, h _ hS, hu, rfl, hP⟩

/-- After setting an attribute, with the object that has it. -/
theorem Stretch.assignThen {F : Type} [Stored α F] [DecidableEq α] {r : α} {f : F}
    {k : α → Coro β} (hS : ∀ ws, S ws → S (ws ++ [Stored.write r f]))
    (hk : Stretch o i bs v S P (k (Stored.set f r)) T Q'') :
    Stretch o i bs v S P (assign r f >>= k) T Q'' := by
  intro s w hb hSs hu hP
  rw [Task.wp_bind]
  obtain heq | heq := wp_assign_cases (g := alone turn (Turn.spares o)) r f
    (fun a s' => Task.wp (alone turn (Turn.spares o)) (k a) _ _ s') _ s
  · rw [heq]
    exact hk s w hb hSs hu hP
  · rw [heq]
    exact hk _ w hb (hS _ hSs) hu hP

end Rules

end BrokerBridge
