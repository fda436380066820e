import BrokerBridge.Orders.Scan
import BrokerBridge.Orders.Sound

/-!
# A replay adopts what a broker has accepted

An order with an attempt that a broker has accepted is not submitted again: when the replay
comes to it, its attempts are as they were, because the recovery of another order touches
neither the order nor its attempts. As long as the database answers, nothing that goes wrong
with one order keeps the replay from the next one.
-/

namespace BrokerBridge

open Conc

/-! ## What the replay hears -/

/-- The order that this sends to a broker. -/
def sentBy : ((r : Req) × r.Ans) → List OrderId
  | ⟨.placeOrder o _, _⟩ => [o]
  | _ => []

/-- The order whose attempts have been read. -/
def readBy : ((r : Req) × r.Ans) → List OrderId
  | ⟨.query _ (.attemptsOf o), .ok _⟩ => [o]
  | _ => []

structure Recovering where
  sent : List OrderId := []
  read : List OrderId := []

def Recovering.hear (ph : Recovering) (r : Req) (x : r.Ans) : Recovering :=
  ⟨ph.sent ++ sentBy ⟨r, x⟩, ph.read ++ readBy ⟨r, x⟩⟩

theorem foldl_hear_recovering (heard : List ((r : Req) × r.Ans)) (ph : Recovering) :
    heard.foldl (fun ph x => ph.hear x.1 x.2) ph =
      ⟨ph.sent ++ heard.flatMap sentBy, ph.read ++ heard.flatMap readBy⟩ := by
  induction heard generalizing ph with
  | nil => simp
  | cons x heard ih =>
      rw [List.foldl_cons, ih, List.flatMap_cons, List.flatMap_cons, ← List.append_assoc,
        ← List.append_assoc]
      rfl

/-- Others leave the database alone. -/
def LeavesDb (_ : Req) (x : Turn) : Prop := ∀ w, (x.1 w).db = w.db

abbrev Stage : Type := World × Recovering

/-- An attempt of the order that a broker has accepted as `bo`. -/
structure Adoptable (d : Db) (o : OrderId) (a : OrderAttempt) (bo : BrokerOrderId) : Prop where
  stored : d.attempts.get? a.id = some a
  order : a.orderId = o
  submitted : a.status = .submitted
  accepted : a.brokerOrderId = some bo

/-- The order has taken over such an attempt, one with the highest `attempt_no`. -/
def Adopted (d d' : Db) (o : OrderId) : Prop :=
  ∃ a bo row, Adoptable d o a bo ∧ (∀ a' bo', Adoptable d o a' bo' → a'.attemptNo ≤ a.attemptNo) ∧
    d'.orders.get? o = some row ∧ row.status = .submitted ∧ row.brokerOrderId = some bo ∧
    row.brokerAccountId = some a.brokerAccountId ∧ row.staticIpId = a.staticIpId

/-- From `p` to `p'` only these orders were worked on. -/
structure During (os : List OrderId) (p p' : Stage) : Prop where
  orders : ∀ o, o ∉ os → p'.1.db.orders.get? o = p.1.db.orders.get? o
  attempts : ∀ o, o ∉ os → ∀ a, (p'.1.db.attempts.get? a).filter (·.orderId = o) =
    (p.1.db.attempts.get? a).filter (·.orderId = o)
  sent : ∀ o, o ∉ os → o ∈ p'.2.sent → o ∈ p.2.sent
  read : ∀ o ∈ p.2.read, o ∈ p'.2.read

section Frames

variable {os os' : List OrderId} {o : OrderId} {p p' p'' : Stage} {a : OrderAttempt}
    {bo : BrokerOrderId}

theorem During.refl : During os p p :=
  ⟨fun _ _ => rfl, fun _ _ _ => rfl, fun _ _ => id, fun _ => id⟩

theorem During.trans (h : During os p p') (h' : During os' p' p'') : During (os ++ os') p p'' := by
  have hout : ∀ o, o ∉ os ++ os' → o ∉ os ∧ o ∉ os' := fun o hout =>
    not_or.mp fun hmem => hout (List.mem_append.mpr hmem)
  refine ⟨fun o ho => ?_, fun o ho a => ?_, fun o ho => ?_, fun o ho => h'.read o (h.read o ho)⟩
  · exact (h'.orders o (hout o ho).2).trans (h.orders o (hout o ho).1)
  · exact (h'.attempts o (hout o ho).2 a).trans (h.attempts o (hout o ho).1 a)
  · exact fun hsent => h.sent o (hout o ho).1 (h'.sent o (hout o ho).2 hsent)

theorem During.mono (h : During os p p') (hos : ∀ o ∈ os, o ∈ os') : During os' p p' :=
  ⟨fun o ho => h.orders o fun hmem => ho (hos o hmem), fun o ho => h.attempts o fun hmem =>
    ho (hos o hmem),
    fun o ho => h.sent o fun hmem => ho (hos o hmem), h.read⟩

theorem During.then_same (h : During os p p') (h' : During os p' p'') : During os p p'' :=
  (h.trans h').mono fun _ hmem => (List.mem_append.mp hmem).elim id id

theorem adoptable_iff {d : Db} : Adoptable d o a bo ↔
    (d.attempts.get? a.id).filter (·.orderId = o) = some a ∧ a.status = .submitted ∧
      a.brokerOrderId = some bo := by
  constructor
  · intro h
    refine ⟨?_, h.submitted, h.accepted⟩
    rw [h.stored, Option.filter_some, if_pos (by simpa using h.order)]
  · rintro ⟨hget, hsub, hacc⟩
    obtain ⟨hstored, horder⟩ := Option.filter_eq_some_iff.mp hget
    exact ⟨hstored, by simpa using horder, hsub, hacc⟩

theorem During.adoptable (h : During os p p') (ho : o ∉ os) :
    Adoptable p'.1.db o a bo ↔ Adoptable p.1.db o a bo := by
  rw [adoptable_iff, adoptable_iff, h.attempts o ho]

theorem During.adopted {d : Db} (h : During os p p') (ho : o ∉ os) (hd : Adopted d p.1.db o) :
    Adopted d p'.1.db o := by
  obtain ⟨a, bo, row, ha, hmax, hrow, hrest⟩ := hd
  exact ⟨a, bo, row, ha, hmax, (h.orders o ho).trans hrow, hrest⟩

theorem adoptable_eq {a' : OrderAttempt} :
    a'.adoptable = some (a, bo) ↔ a' = a ∧ a.status = .submitted ∧ a.brokerOrderId = some bo := by
  unfold OrderAttempt.adoptable
  split
  · next hsub =>
      rw [Option.map_eq_some_iff]
      constructor
      · rintro ⟨b, hb, heq⟩
        cases heq
        exact ⟨rfl, hsub, hb⟩
      · rintro ⟨rfl, _, hb⟩
        exact ⟨bo, hb, rfl⟩
  · next hsub =>
      refine ⟨fun h => (nomatch h), ?_⟩
      rintro ⟨rfl, hsub', _⟩
      exact absurd hsub' hsub

theorem mem_attemptsOf {d : Db} {e : Env} {c : Instant} :
    a ∈ Query.eval e c d (.attemptsOf o) ↔ d.attempts.get? a.id = some a ∧ a.orderId = o := by
  show a ∈ List.insertionSort _ _ ↔ _
  rw [List.mem_insertionSort, List.mem_filter, beq_iff_eq]
  exact and_congr_left fun _ => ⟨Table.get?_of_mem, fun h => (Table.get?_eq_some.mp h).1⟩

/-- The newest accepted attempt is the one that is found. -/
theorem adoptable_of_findSome {d : Db} {e : Env} {c : Instant}
    (h : (Query.eval e c d (.attemptsOf o)).findSome? (·.adoptable) = some (a, bo)) :
    Adoptable d o a bo ∧ ∀ a' bo', Adoptable d o a' bo' → a'.attemptNo ≤ a.attemptNo := by
  have hsorted : (Query.eval e c d (.attemptsOf o)).Pairwise fun a b =>
    b.attemptNo ≤ a.attemptNo := by
    have htotal : Std.Total fun a b : OrderAttempt => b.attemptNo ≤ a.attemptNo :=
      ⟨fun a b => Nat.le_total _ _⟩
    have htrans : IsTrans OrderAttempt fun a b => b.attemptNo ≤ a.attemptNo :=
      ⟨fun _ _ _ h h' => Nat.le_trans h' h⟩
    exact List.pairwise_insertionSort _ _
  obtain ⟨l1, x, l2, hl, hx, hl1⟩ := List.findSome?_eq_some_iff.mp h
  obtain ⟨rfl, hsub, hacc⟩ := adoptable_eq.mp hx
  have hmem : x ∈ Query.eval e c d (.attemptsOf o) := by
    rw [hl]
    exact List.mem_append_right _ List.mem_cons_self
  obtain ⟨hstored, horder⟩ := mem_attemptsOf.mp hmem
  refine ⟨⟨hstored, horder, hsub, hacc⟩, fun a' bo' ha' => ?_⟩
  have hmem' : a' ∈ Query.eval e c d (.attemptsOf o) := mem_attemptsOf.mpr ⟨ha'.stored, ha'.order⟩
  rw [hl] at hmem' hsorted
  rcases List.mem_append.mp hmem' with hbefore | hafter
  · have hnone := hl1 a' hbefore
    rw [adoptable_eq.mpr ⟨rfl, ha'.submitted, ha'.accepted⟩] at hnone
    cases hnone
  · rcases List.mem_cons.mp hafter with rfl | hafter
    · exact Nat.le_refl _
    · exact List.rel_of_pairwise_cons (List.pairwise_append.mp hsorted).2.1 hafter

theorem not_adoptable_of_findSome {d : Db} {e : Env} {c : Instant}
    (h : (Query.eval e c d (.attemptsOf o)).findSome? (·.adoptable) = none) :
    ¬ Adoptable d o a bo := by
  intro ha
  have hnone := List.findSome?_eq_none_iff.mp h a (mem_attemptsOf.mpr ⟨ha.stored, ha.order⟩)
  rw [adoptable_eq.mpr ⟨rfl, ha.submitted, ha.accepted⟩] at hnone
  cases hnone

end Frames

/-! ## Stretches that work on one order -/

/-- One request of a replay, with what it has heard. -/
abbrev recovering (A : Req → Turn → Prop) : (r : Req) → (r.Ans → Stage → Prop) → Stage → Prop :=
  Conc.turn (tracked (amid handle) Recovering.hear) A

section Stretches

variable {α : Type} {o : OrderId} {p : Stage} {s : Session} {A : Req → Turn → Prop}

theorem sentBy_of_busy {r : Req} (h : r.busy o) (x : r.Ans) : sentBy ⟨r, x⟩ = [] := by
  cases r with
  | placeOrder => exact h.elim
  | _ => rfl

/-- A request that works on an order touches no other. -/
theorem During.step {r : Req} (hr : r.submits o) {x : Turn} (hx : ∀ w, (x.1 w).db = w.db)
    (p : Stage) :
    During [o] p (tracked (amid handle) Recovering.hear r x p).2 := by
  have hspares : ∀ o' ∉ [o], (∀ ws, r = .commit ws → ∀ v ∈ ws, v.order? ≠ some o') := by
    rintro o' ho' ws rfl v hv
    have hne : o ≠ o' := fun heq => ho' (heq ▸ List.mem_cons_self)
    rcases hr with hbusy | ⟨payload, heq⟩
    · exact (hbusy v hv).spares hne
    · cases heq
  have hrows : ∀ o' ∉ [o],
      (amid handle r x p.1).2.db.orders.get? o' = p.1.db.orders.get? o' ∧
      ∀ a, ((amid handle r x p.1).2.db.attempts.get? a).filter (·.orderId = o') =
        (p.1.db.attempts.get? a).filter (·.orderId = o') := by
    intro o' ho'
    by_cases hcommit : ∃ ws, r = .commit ws
    · obtain ⟨ws, rfl⟩ := hcommit
      rcases commit_cases ws x.2 (x.1 p.1) with ⟨f, hf⟩ | ⟨d, hd, hf⟩
      · rw [amid, hf, hx p.1]
        exact ⟨rfl, fun _ => rfl⟩
      · rw [amid, hf]
        rw [hx p.1] at hd
        obtain ⟨horders, hattempts, _⟩ := Db.write?_spares (hspares o' ho' ws rfl) hd
        exact ⟨horders, hattempts⟩
    · have hdb : (amid handle r x p.1).2.db = p.1.db :=
        (handle_db (fun ws heq => hcommit ⟨ws, heq⟩) x.2 _).trans (hx p.1)
      rw [hdb]
      exact ⟨rfl, fun _ => rfl⟩
  refine ⟨fun o' ho' => (hrows o' ho').1, fun o' ho' => (hrows o' ho').2, fun o' ho' hsent => ?_,
    fun o' hread => List.mem_append_left _ hread⟩
  refine (List.mem_append.mp hsent).resolve_right fun hmem => ?_
  rcases hr with hbusy | ⟨payload, rfl⟩
  · rw [sentBy_of_busy hbusy] at hmem
    cases hmem
  · exact ho' hmem

/-- A stretch of requests each of which keeps `J`. -/
theorem recovering_of_only {N : Req → Prop} {J : Stage → Prop} {F : α → Prop}
    (hN : ∀ r, N r → ∀ x, A r x → ∀ p, J p → J (tracked (amid handle) Recovering.hear r x p).2)
    {t : Prog Req Req.Ans α} (h : t.fold (only N) F) (hp : J p) :
    t.fold (recovering A) (fun a p' => F a ∧ J p') p := Prog.turn_of_only hN h hp

/-- A stretch that works on one order. -/
theorem working_during {t : Coro α} (hA : ∀ r x, A r x → ∀ w, (x.1 w).db = w.db)
    (ht : Calm (Req.submits o) t) (hs : s.Clean) :
    Task.wp (recovering A) t (fun _ s' p' => s'.Clean ∧ During [o] p p')
      (fun _ s' p' => s'.Clean ∧ During [o] p p') s p := by
  have hkeeps := Prog.turn_of_only (A := A)
    (J := fun p' => During [o] p p') (N := Req.submits o)
    (fun r hr x hx p' h => h.then_same (During.step hr (hA r x hx) p')) (ht s hs) During.refl
  refine Prog.turn_mono ?_ hkeeps
  rintro ⟨e | a, s'⟩ p' h
  · exact h
  · exact h

/-- A stretch that does not send it to a broker. -/
theorem busy_during {t : Coro α} (hA : ∀ r x, A r x → ∀ w, (x.1 w).db = w.db)
    (ht : Calm (Req.busy o) t) (hs : s.Clean) :
    Task.wp (recovering A) t (fun _ s' p' => s'.Clean ∧ During [o] p p' ∧ p'.2.sent = p.2.sent)
      (fun _ s' p' => s'.Clean ∧ During [o] p p' ∧ p'.2.sent = p.2.sent) s p := by
  have hkeeps := recovering_of_only (A := A) (J := fun p' => During [o] p p' ∧ p'.2.sent = p.2.sent)
    (N := Req.busy o) (fun r hr x hx p' h => ?_) (ht s hs) ⟨During.refl, rfl⟩
  · refine Prog.turn_mono ?_ hkeeps
    rintro ⟨e | a, s'⟩ p' h
    · exact h
    · exact h
  · refine ⟨h.1.then_same (During.step (.inl hr) (hA r x hx) p'), ?_⟩
    show p'.2.sent ++ sentBy ⟨r, _⟩ = _
    rw [sentBy_of_busy hr, List.append_nil, h.2]

/-- Nothing that counts has happened. -/
structure Unmoved (p p' : Stage) : Prop where
  db : p'.1.db = p.1.db
  sent : p'.2.sent = p.2.sent
  read : ∀ o ∈ p.2.read, o ∈ p'.2.read

theorem Unmoved.during {os : List OrderId} {p' : Stage} (h : Unmoved p p') : During os p p' :=
  ⟨fun _ _ => h.db ▸ rfl, fun _ _ _ => h.db ▸ rfl, fun _ _ hsent => h.sent ▸ hsent, h.read⟩

theorem Unmoved.trans {p' p'' : Stage} (h : Unmoved p p') (h' : Unmoved p' p'') : Unmoved p p'' :=
  ⟨h'.db.trans h.db, h'.sent.trans h.sent, fun o ho => h'.read o (h.read o ho)⟩

/-- A request that is neither a commit nor a submission. -/
theorem unmoved_step {r : Req} (hcommit : ∀ ws, r ≠ .commit ws)
    (hplace : ∀ o payload, r ≠ .placeOrder o payload)
    {x : Turn} (hx : ∀ w, (x.1 w).db = w.db) (p : Stage) :
    Unmoved p (tracked (amid handle) Recovering.hear r x p).2 := by
  refine ⟨(handle_db hcommit x.2 _).trans (hx p.1), ?_, fun o ho => List.mem_append_left _ ho⟩
  have hsent : ∀ y : r.Ans, sentBy ⟨r, y⟩ = [] := fun y => by
    cases r with
    | placeOrder o payload => exact absurd rfl (hplace o payload)
    | _ => rfl
  show p.2.sent ++ sentBy ⟨r, _⟩ = _
  rw [hsent, List.append_nil]

end Stretches

/-! ## Whatever fails -/

section Apart

variable {A : Req → Turn → Prop} {s : Session} {p : Stage}

/-- Only order `o` was worked on, and it was not sent if it could be adopted. -/
structure Apart (o : OrderId) (p p' : Stage) : Prop where
  during : During [o] p p'
  unsent : ∀ a bo, Adoptable p.1.db o a bo → o ∈ p'.2.sent → o ∈ p.2.sent

theorem Unmoved.apart {o : OrderId} {p' : Stage} (h : Unmoved p p') : Apart o p p' :=
  ⟨h.during, fun _ _ _ hsent => h.sent ▸ hsent⟩

theorem Unmoved.then_apart {o : OrderId} {p' p'' : Stage} (h : Unmoved p p') (h' : Apart o p' p'') :
    Apart o p p'' :=
  ⟨h.during.then_same h'.during, fun a bo ha hsent => h.sent ▸ h'.unsent a bo (h.db ▸ ha) hsent⟩

/-- A query of a clean session. -/
theorem execute_apart (hA : ∀ r x, A r x → ∀ w, (x.1 w).db = w.db) {q : Query}
    {Q : q.Res → Session → Stage → Prop} {E : Exn → Session → Stage → Prop} (hs : s.Clean)
    (hraise : ∀ e s' p', s'.Clean → Unmoved p p' → E e s' p')
    (hok : ∀ e c p', Unmoved p p' → Q (q.eval e c p.1.db) s p') :
    Task.wp (recovering A) (execute q) Q E s p := by
  rw [wp_execute]
  split
  · exact hraise _ s p hs ⟨rfl, rfl, fun _ => id⟩
  · next hb =>
      rw [hs.pending hb]
      intro x hx
      have hunmoved := unmoved_step (r := .query [] q) (fun _ h => by cases h)
        (fun _ _ h => by cases h)
        (hA _ x hx) p
      revert hunmoved
      rcases query_cases [] q x.2 (x.1 p.1) with ⟨f, hf⟩ | hf
      · simp only [tracked, amid, hf]
        exact fun hunmoved => hraise f _ _ Session.clean_broken hunmoved
      · simp only [tracked, amid, hf, Db.view_nil, hA _ x hx p.1]
        exact fun hunmoved => hok _ _ _ hunmoved

theorem recoverOpen_apart (hA : ∀ r x, A r x → ∀ w, (x.1 w).db = w.db) (order : Order)
    (hs : s.Clean) :
    Task.wp (recovering A) (recoverOpen order) (fun _ s' p' => s'.Clean ∧ Apart order.id p p')
      (fun _ s' p' => s'.Clean ∧ Apart order.id p p') s p := by
  unfold recoverOpen
  rw [Task.wp_bind]
  refine execute_apart hA hs (fun _ _ _ hs' hunmoved => ⟨hs', hunmoved.apart⟩)
    fun e c p1 hunmoved => ?_
  cases hfind : (Query.eval e c p.1.db (.attemptsOf order.id)).findSome? (·.adoptable) with
  | some x =>
      refine Task.wp_turn_mono (busy_during hA
        (adoptAttempt_calm order (busy_working _) x.1 x.2) hs) ?_ ?_
      all_goals
        rintro _ s' p' ⟨hs', hduring, hsent⟩
        exact ⟨hs', hunmoved.then_apart ⟨hduring, fun _ _ _ h => hsent ▸ h⟩⟩
  | none =>
      refine Task.wp_turn_mono (working_during hA
        (resubmission_calm order (submits_submitting _)) hs) ?_ ?_
      all_goals
        rintro _ s' p' ⟨hs', hduring⟩
        refine ⟨hs', hunmoved.during.then_same hduring, fun a bo ha => ?_⟩
        exact absurd ha (not_adoptable_of_findSome hfind)

theorem recoverOne_apart (hA : ∀ r x, A r x → ∀ w, (x.1 w).db = w.db) (stale : Order)
    (hs : s.Clean) :
    Task.wp (recovering A) (recoverOne stale) (fun _ s' p' => s'.Clean ∧ Apart stale.id p p')
      (fun _ s' p' => s'.Clean ∧ Apart stale.id p p') s p := by
  unfold recoverOne
  rw [Task.wp_bind, wp_mark]
  intro x hx
  have hmark := unmoved_step (r := .mark (.recover stale.id)) (fun _ h => by cases h)
    (fun _ _ h => by cases h) (hA _ x hx) p
  rw [Task.wp_bind]
  refine execute_apart hA hs (fun _ _ _ hs' hunmoved => ⟨hs', (hmark.trans hunmoved).apart⟩)
    fun e c p1 hunmoved => ?_
  have hhere := hmark.trans hunmoved
  cases Query.eval e c (tracked (amid handle) Recovering.hear
    (.mark (.recover stale.id)) x p).2.1.db
      (.order stale.id) with
  | none => exact ⟨hs, hhere.apart⟩
  | some y =>
      obtain ⟨order, ho⟩ := y
      simp only [Task.wp_bind, refreshed, Task.wp_pure, Task.wp_ite]
      split
      · exact ⟨hs, hhere.apart⟩
      · rw [← ho]
        refine Task.wp_turn_mono (recoverOpen_apart hA order hs) ?_ ?_
        all_goals
          rintro _ s' p' ⟨hs', hapart⟩
          exact ⟨hs', hhere.then_apart hapart⟩

/-- Only these orders were worked on, and none was sent that could be adopted. -/
structure ApartFrom (os : List OrderId) (p p' : Stage) : Prop where
  during : During os p p'
  unsent : ∀ o a bo, Adoptable p.1.db o a bo → o ∈ p'.2.sent → o ∈ p.2.sent

theorem recoverStep_apart (hA : ∀ r x, A r x → ∀ w, (x.1 w).db = w.db) (order : Order)
    (hs : s.Clean) :
    Task.wp (recovering A) (recoverStep order) (fun _ s' p' => s'.Clean ∧ Apart order.id p p')
      (fun _ s' p' => s'.Clean ∧ Apart order.id p p') s p := by
  unfold recoverStep
  rw [Task.wp_catching]
  refine Task.wp_turn_mono (recoverOne_apart hA order hs) (fun _ _ _ h => h) fun e s' p' h => ?_
  rw [Task.wp_ite]
  split
  · exact h
  · exact h

theorem Apart.then_from {o : OrderId} {os : List OrderId} {p' p'' : Stage} (h : Apart o p p')
    (ho : o ∉ os) (h' : ApartFrom os p' p'') : ApartFrom (o :: os) p p'' := by
  refine ⟨h.during.trans h'.during, fun o' a bo ha hsent => ?_⟩
  by_cases heq : o' = o
  · subst heq
    exact h.unsent a bo ha (h'.during.sent o' ho hsent)
  · have hother : o' ∉ [o] := fun hmem => heq (List.mem_singleton.mp hmem)
    exact h.during.sent o' hother (h'.unsent o' a bo ((h.during.adoptable hother).mpr ha) hsent)

theorem Apart.from {o : OrderId} {os : List OrderId} {p' : Stage} (h : Apart o p p') (ho : o ∉ os) :
    ApartFrom (o :: os) p p' := h.then_from ho ⟨During.refl, fun _ _ _ _ => id⟩

theorem recoverEach_apart (hA : ∀ r x, A r x → ∀ w, (x.1 w).db = w.db) (orders : List Order)
    (hids : (orders.map (·.id)).Nodup) (hs : s.Clean) :
    Task.wp (recovering A) (recoverEach orders) (fun _ _ p' => ApartFrom (orders.map (·.id)) p p')
      (fun _ _ p' => ApartFrom (orders.map (·.id)) p p') s p := by
  induction orders generalizing s p with
  | nil => exact ⟨During.refl, fun _ _ _ _ => id⟩
  | cons order orders ih =>
      rw [List.map_cons, List.nodup_cons] at hids
      rw [recoverEach, Task.wp_bind]
      refine Task.wp_turn_mono (recoverStep_apart hA order hs) ?_ fun _ _ _ h => h.2.from hids.1
      rintro x s1 p1 ⟨hs1, hapart⟩
      rw [Task.wp_bind]
      exact Task.wp_turn_mono (ih hids.2 hs1) (fun _ _ _ h => hapart.then_from hids.1 h)
        fun _ _ _ h => hapart.then_from hids.1 h

end Apart

/-! ## While the database answers -/

section Adopting

variable {s : Session} {p : Stage}

/-- The pending writes make `row` of the stored row of `o`, up to its `updated_at`. -/
structure Session.Shows (s : Session) (o : OrderId) (d : Db) (row : Order) : Prop where
  unbroken : s.broken = false
  row : ∀ now, ∃ d' t, d.write? now s.pending = some d' ∧
    d'.orders.get? o = some { row with updatedAt := t }

theorem Session.Shows.stage {o : OrderId} {d : Db} {row : Order} (h : s.Shows o d row)
    (f : OrderField) :
    ({ s with pending := s.pending ++ [.setOrder o f] } : Session).Shows o d (f.set row) := by
  refine ⟨h.unbroken, fun now => ?_⟩
  obtain ⟨d', t, hd', hrow⟩ := h.row now
  refine ⟨(Write.setOrder o f).apply now d', now, ?_, ?_⟩
  · rw [Db.write?_append, hd']
    exact Db.write?_singleton.mpr ⟨rfl, rfl⟩
  · show ((d'.orders.update o f).update o (.updatedAt now)).get? o = _
    rw [Table.get?_update_self, Table.get?_update_self, hrow]
    cases f <;> rfl

theorem assign_shows {o : OrderId} {row : Order} {f : OrderField} {w : World}
    {Q : Order → Session → World → Prop} {E : Exn → Session → World → Prop} (ho : row.id = o)
    (hs : s.Shows o w.db row)
    (hQ : ∀ s', s'.Shows o w.db (f.set row) → Q (f.set row) s' w) :
    Task.wp unfailing (assign row f) Q E s w := by
  rw [wp_assign]
  split
  · next heq =>
      have hset : f.set row = row := heq
      rw [hset] at hQ
      exact hQ s hs
  · subst ho
    exact hQ _ (hs.stage f)

/-- The order as it is adopted, up to its `updated_at`. -/
def Order.adopting (order : Order) (a : OrderAttempt) (bo : BrokerOrderId) : Order :=
  { order with
    status := .submitted
    brokerOrderId := some bo
    brokerAccountId := some a.brokerAccountId
    staticIpId := a.staticIpId
    errorCode := none }

theorem adoptAttempt_adopts (order : Order) (a : OrderAttempt) (bo : BrokerOrderId) {w : World}
    (hs : s.Sound Nothing) (hrow : w.db.orders.get? order.id = some order) :
    Task.wp unfailing (adoptAttempt order a bo)
      (fun _ s' w' => s'.Sound Nothing ∧ ∃ t,
        w'.db.orders.get? order.id = some { order.adopting a bo with updatedAt := t })
      (fun _ _ _ => False) s w := by
  have hshows : s.Shows order.id w.db order := by
    refine ⟨hs.unbroken, fun now => ⟨w.db, order.updatedAt, ?_, hrow⟩⟩
    rw [hs.none_pending]
    rfl
  unfold adoptAttempt
  rw [Task.wp_bind]
  refine assign_shows rfl hshows fun s1 hs1 => ?_
  rw [Task.wp_bind]
  refine assign_shows rfl hs1 fun s2 hs2 => ?_
  rw [Task.wp_bind]
  refine assign_shows rfl hs2 fun s3 hs3 => ?_
  rw [Task.wp_bind]
  refine assign_shows rfl hs3 fun s4 hs4 => ?_
  rw [Task.wp_bind]
  refine assign_shows rfl hs4 fun s5 hs5 => ?_
  rw [Task.wp_bind]
  have hcommits : ∀ now, ∃ d', w.db.write? now s5.pending = some d' := fun now =>
    let ⟨d', _, hd', _⟩ := hs5.row now
    ⟨d', hd'⟩
  refine wp_commit_sound hs5.unbroken hcommits fun now w' hw' => ?_
  obtain ⟨d', t, hd', hrow'⟩ := hs5.row now
  cases hw'.symm.trans hd'
  exact ⟨⟨hs5.unbroken, List.forall_mem_nil _⟩, t, hrow'⟩

/-- A query of a sound session, with what it hears. -/
theorem execute_recovers {q : Query} {Q : q.Res → Session → Stage → Prop}
    {E : Exn → Session → Stage → Prop} (hs : s.Sound Nothing)
    (hok : ∀ e c p', Unmoved p p' → (∀ o ∈ readBy ⟨.query [] q, .ok (q.eval e c p.1.db)⟩,
      o ∈ p'.2.read) →
      Q (q.eval e c p.1.db) s p') :
    Task.wp (recovering Unfailing) (execute q) Q E s p := by
  rw [wp_execute, hs.unbroken, hs.none_pending]
  intro x hx
  have hunmoved := unmoved_step (r := .query [] q) (fun _ h => by cases h) (fun _ _ h => by cases h)
    hx.others p
  have hanswer : amid handle (.query [] q) x p.1 =
      (.ok (q.eval x.2 (x.1 p.1).clock p.1.db), x.1 p.1) := by
    show x.2.answer _ _ _ _ = _
    rw [Env.answer, hx.database rfl, Db.view_nil, hx.others p.1]
  revert hunmoved
  simp only [tracked, hanswer]
  exact fun hunmoved => hok x.2 _ _ hunmoved fun o ho => List.mem_append_right _ ho

/-- The order was worked on with its attempts read, and adopted if it could be. -/
structure Handled (o : OrderId) (p p' : Stage) : Prop where
  during : During [o] p p'
  read : o ∈ p'.2.read
  adopted : ∀ a bo, Adoptable p.1.db o a bo → Adopted p.1.db p'.1.db o

theorem Unmoved.then_handled {o : OrderId} {p' p'' : Stage} (h : Unmoved p p')
    (h' : Handled o p' p'') :
    Handled o p p'' :=
  ⟨h.during.then_same h'.during, h'.read, fun a bo ha => h.db ▸ h'.adopted a bo (h.db ▸ ha)⟩

/-- A sound stretch that works on one order. -/
theorem sound_during {α : Type} {t : Coro α} {o : OrderId} (hsound : Sound Nothing Nothing t)
    (ht : Calm (Req.submits o) t) (hs : s.Sound Nothing) :
    Task.wp (recovering Unfailing) t (fun _ s' p' => s'.Sound Nothing ∧ During [o] p p')
      (fun e s' p' => (e.isException = true ∧ s'.Sound Nothing) ∧ During [o] p p') s p := by
  have hclean : s.Clean := .inr hs.pending
  have hboth := Prog.turn_and (Prog.turn_tracked Recovering.hear (hsound s p.1 hs) p.2)
    (working_during (fun _ _ hx => hx.others) ht hclean)
  refine Prog.turn_mono ?_ hboth
  rintro ⟨e | a, s'⟩ p' ⟨h, _, hduring⟩
  · exact ⟨h, hduring⟩
  · exact ⟨h, hduring⟩

theorem recoverOpen_handled (order : Order) (hs : s.Sound Nothing)
    (hrow : p.1.db.orders.get? order.id = some order) :
    Task.wp (recovering Unfailing) (recoverOpen order)
      (fun _ s' p' => s'.Sound Nothing ∧ Handled order.id p p')
      (fun e s' p' => (e.isException = true ∧ s'.Sound Nothing) ∧ Handled order.id p p') s p := by
  unfold recoverOpen
  rw [Task.wp_bind]
  refine execute_recovers hs fun e c p1 hunmoved hread => ?_
  have hhere : order.id ∈ p1.2.read := hread _ List.mem_cons_self
  cases hfind : (Query.eval e c p.1.db (.attemptsOf order.id)).findSome? (·.adoptable) with
  | some x =>
      obtain ⟨a, bo⟩ := x
      obtain ⟨ha, hmax⟩ := adoptable_of_findSome hfind
      have hclean : s.Clean := .inr hs.pending
      have hadopts := adoptAttempt_adopts order a bo hs
        ((congrArg (·.orders.get? order.id) hunmoved.db).trans hrow)
      have hboth := Prog.turn_and (Prog.turn_tracked Recovering.hear hadopts p1.2)
        (busy_during (fun _ _ hx => hx.others)
          (adoptAttempt_calm order (busy_working _) a bo) hclean)
      refine Prog.turn_mono ?_ hboth
      rintro ⟨f | y, s'⟩ p' ⟨h, _, hduring, _⟩
      · exact h.elim
      · obtain ⟨hs', t, hrow'⟩ := h
        refine ⟨hs', hunmoved.during.then_same hduring, hduring.read _ hhere, fun _ _ _ => ?_⟩
        exact ⟨a, bo, _, ha, hmax, hrow', rfl, rfl, rfl, rfl⟩
  | none =>
      refine Task.wp_turn_mono (sound_during (resubmission_sound order)
        (resubmission_calm order (submits_submitting order.id)) hs) ?_ ?_
      · rintro _ s' p' ⟨hs', hduring⟩
        refine ⟨hs', hunmoved.during.then_same hduring, hduring.read _ hhere, fun a bo ha => ?_⟩
        exact absurd ha (not_adoptable_of_findSome hfind)
      · rintro f s' p' ⟨hs', hduring⟩
        refine ⟨hs', hunmoved.during.then_same hduring, hduring.read _ hhere, fun a bo ha => ?_⟩
        exact absurd ha (not_adoptable_of_findSome hfind)

theorem recoverOne_handled (stale : Order) (hs : s.Sound Nothing) {row : Order}
    (hrow : p.1.db.orders.get? stale.id = some row) (hstuck : row.status.stuck = true) :
    Task.wp (recovering Unfailing) (recoverOne stale)
      (fun _ s' p' => s'.Sound Nothing ∧ Handled stale.id p p')
      (fun e s' p' => (e.isException = true ∧ s'.Sound Nothing) ∧ Handled stale.id p p') s p := by
  unfold recoverOne
  rw [Task.wp_bind, wp_mark]
  intro x hx
  have hmark := unmoved_step (r := .mark (.recover stale.id)) (fun _ h => by cases h)
    (fun _ _ h => by cases h) hx.others p
  rw [Task.wp_bind]
  refine execute_recovers hs fun e c p1 hunmoved _ => ?_
  have hhere := hmark.trans hunmoved
  have hid : row.id = stale.id := Table.get?_key hrow
  have hlookup :
      Query.eval e c (tracked (amid handle) Recovering.hear (.mark (.recover stale.id)) x p).2.1.db
      (.order stale.id) = some ⟨row, hid⟩ :=
    Table.lookup_eq_some.mpr ((congrArg (·.orders.get? stale.id) hmark.db).trans hrow)
  rw [hlookup]
  simp only [Task.wp_bind, refreshed, Task.wp_pure, OrderStatus.terminal_of_stuck hstuck]
  have hrow1 : p1.1.db.orders.get? row.id = some row := by
    rw [hhere.db, hid]
    exact hrow
  rw [← hid]
  exact Task.wp_turn_mono (recoverOpen_handled row hs hrow1)
    (fun _ _ _ h => ⟨h.1, hhere.then_handled h.2⟩) fun _ _ _ h => ⟨h.1, hhere.then_handled h.2⟩

end Adopting

end BrokerBridge
