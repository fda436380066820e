import BrokerBridge.Orders.Adoption
import BrokerBridge.Orders.Starvation

/-!
# A whole replay

Every order that a replay has selected gets its own pass, and its own line in the details.
What a pass raises it catches, so as long as the database answers, the next pass begins with
a session in which nothing is pending, and finds the rows of its order as the selection left
them.
-/

namespace BrokerBridge

open Conc

/-! ## The details -/

section Details

/-- It is about this order. -/
abbrev About (o : OrderId) : Outcome → Prop := fun x => x.orderId = o

theorem adoptAttempt_about (order : Order) (a : OrderAttempt) (bo : BrokerOrderId) :
    Returns (About order.id) (adoptAttempt order a bo) := by
  refine Returns.bind (Returns.assign (R := fun x : Order => x.id = order.id) rfl) fun o1 h1 => ?_
  refine Returns.bind (Returns.assign (R := fun x : Order => x.id = order.id) h1) fun o2 h2 => ?_
  refine Returns.bind (Returns.assign (R := fun x : Order => x.id = order.id) h2) fun o3 h3 => ?_
  refine Returns.bind (Returns.assign (R := fun x : Order => x.id = order.id) h3) fun o4 h4 => ?_
  refine Returns.bind (Returns.assign (R := fun x : Order => x.id = order.id) h4) fun o5 h5 => ?_
  exact Returns.after fun _ => Returns.pure h5

theorem Returns.ite {α : Type} {R : α → Prop} {c : Prop} [Decidable c] {t u : Coro α}
    (ht : Returns R t) (hu : Returns R u) : Returns R (if c then t else u) := by
  split
  · exact ht
  · exact hu

theorem resubmitFailed_about (order : Order) (e : Exn) :
    Returns (About order.id) (resubmitFailed order e) := by
  refine Returns.ite (Returns.after fun _ => Returns.after fun x => ?_) (Returns.raise e)
  exact Returns.pure x.2

theorem resubmit_about (order : Order) (chain : List RouteCandidate) :
    Returns (About order.id) (resubmit order chain) := by
  refine Returns.catching ?_ fun e => resubmitFailed_about order e
  refine Returns.after fun _ => Returns.after fun _ => Returns.after fun x => ?_
  exact Returns.ite (Returns.pure x.2) (Returns.pure x.2)

theorem recoverOpen_about (order : Order) : Returns (About order.id) (recoverOpen order) := by
  refine Returns.after fun attempts => ?_
  cases attempts.findSome? (·.adoptable) with
  | some x => exact adoptAttempt_about order x.1 x.2
  | none =>
      refine (reopen_returns order).bind fun order' ho => ?_
      rw [← ho]
      exact Returns.after fun decision => resubmit_about order' decision.chain

theorem recoverStep_about (order : Order) : Returns (About order.id) (recoverStep order) := by
  refine Returns.catching ?_ fun e => Returns.ite (Returns.pure rfl) (Returns.raise e)
  refine Returns.after fun _ => Returns.after fun _ => Returns.after fun x => ?_
  obtain ⟨row, hrow⟩ := x
  have hopen := recoverOpen_about row
  rw [hrow] at hopen
  exact Returns.ite (Returns.pure hrow) hopen

/-- Every order has its own line. -/
theorem recoverEach_about (orders : List Order) :
    Returns (fun details => details.map (·.orderId) = orders.map (·.id)) (recoverEach orders) := by
  induction orders with
  | nil => exact Returns.pure rfl
  | cons order orders ih =>
      refine (recoverStep_about order).bind fun x hx => ih.bind fun xs hxs => Returns.pure ?_
      rw [List.map_cons, List.map_cons, hx, hxs]

/-- Every line is counted once. -/
theorem counts_details (details : List Outcome) :
    details.length = details.countP (·.result == "recovered") +
      details.countP (fun x => x.result != "recovered" && x.result != "failed") +
      details.countP (·.result == "failed") := by
  induction details with
  | nil => rfl
  | cons x details ih =>
      have hdistinct : "failed" ≠ "recovered" := by decide
      rw [List.length_cons, List.countP_cons, List.countP_cons, List.countP_cons, ih]
      by_cases hrec : x.result = "recovered"
      · simp [hrec]
        omega
      · by_cases hfail : x.result = "failed"
        · simp [hfail]
          omega
        · simp [hrec, hfail]
          omega

/-- The counts add up to what was selected, and so do the details. -/
structure Accounts (y : ReplaySummary) : Prop where
  counts : y.scanned = y.recovered + y.skipped + y.failed
  details : y.scanned = y.details.length

theorem replayRun_accounts (limit : Nat) : Returns Accounts (replayRun limit) := by
  refine Returns.after fun stuck => (recoverEach_about stuck).bind fun details hdetails => ?_
  have hlen : stuck.length = details.length := by
    have hmap := congrArg List.length hdetails
    rw [List.length_map, List.length_map] at hmap
    exact hmap.symm
  exact Returns.pure ⟨hlen.trans (counts_details details), hlen⟩

end Details

/-! ## Pass after pass -/

section Passes

variable {s : Session} {p : Stage}

/-- A pass always returns. -/
theorem recoverStep_handled (order : Order) (hs : s.Sound Nothing) {row : Order}
    (hrow : p.1.db.orders.get? order.id = some row) (hstuck : row.status.stuck = true) :
    Task.wp (recovering Unfailing) (recoverStep order)
      (fun _ s' p' => s'.Sound Nothing ∧ Handled order.id p p') (fun _ _ _ => False) s p := by
  unfold recoverStep
  rw [Task.wp_catching]
  refine Task.wp_turn_mono (recoverOne_handled order hs hrow hstuck) (fun _ _ _ h => h) ?_
  rintro e s' p' ⟨⟨he, hs'⟩, hhandled⟩
  rw [Task.wp_ite, if_pos he]
  exact ⟨hs', hhandled⟩

/-- Each of the orders was worked on with its attempts read, and adopted if it could be. -/
structure HandledAll (os : List OrderId) (p p' : Stage) : Prop where
  during : During os p p'
  read : ∀ o ∈ os, o ∈ p'.2.read
  adopted : ∀ o ∈ os, ∀ a bo, Adoptable p.1.db o a bo → Adopted p.1.db p'.1.db o

/-- Whether an order has been adopted depends on its own attempts. -/
theorem During.adopted_since {os : List OrderId} {o : OrderId} {p' : Stage} {d : Db}
    (h : During os p p') (ho : o ∉ os) (hd : Adopted p'.1.db d o) : Adopted p.1.db d o := by
  obtain ⟨a, bo, row, ha, hmax, hrow⟩ := hd
  refine ⟨a, bo, row, (h.adoptable ho).mp ha, fun a' bo' ha' => ?_, hrow⟩
  exact hmax a' bo' ((h.adoptable ho).mpr ha')

theorem Handled.then_all {o : OrderId} {os : List OrderId} {p' p'' : Stage} (h : Handled o p p')
    (ho : o ∉ os) (h' : HandledAll os p' p'') : HandledAll (o :: os) p p'' := by
  refine ⟨h.during.trans h'.during, fun o' hmem => ?_, fun o' hmem a bo ha => ?_⟩
  · rcases List.mem_cons.mp hmem with rfl | hmem
    · exact h'.during.read _ h.read
    · exact h'.read o' hmem
  · rcases List.mem_cons.mp hmem with rfl | hmem
    · exact h'.during.adopted ho (h.adopted a bo ha)
    · have hother : o' ∉ [o] := fun heq => ho (List.mem_singleton.mp heq ▸ hmem)
      have ha' : Adoptable p'.1.db o' a bo := (h.during.adoptable hother).mpr ha
      exact h.during.adopted_since hother (h'.adopted o' hmem a bo ha')

/-- The rows of the orders are as the selection found them. -/
def Selected (d : Db) (orders : List Order) : Prop :=
  ∀ order ∈ orders, ∃ row, d.orders.get? order.id = some row ∧ row.status.stuck = true

theorem recoverEach_handled (orders : List Order) (hids : (orders.map (·.id)).Nodup)
    (hs : s.Sound Nothing) (hselected : Selected p.1.db orders) :
    Task.wp (recovering Unfailing) (recoverEach orders)
      (fun _ _ p' => HandledAll (orders.map (·.id)) p p') (fun _ _ _ => False) s p := by
  induction orders generalizing s p with
  | nil => exact ⟨During.refl, List.forall_mem_nil _, List.forall_mem_nil _⟩
  | cons order orders ih =>
      rw [List.map_cons, List.nodup_cons] at hids
      obtain ⟨row, hrow, hstuck⟩ := hselected order List.mem_cons_self
      rw [recoverEach, Task.wp_bind]
      refine Task.wp_turn_mono (recoverStep_handled order hs hrow hstuck) ?_ fun _ _ _ => id
      rintro x s1 p1 ⟨hs1, hhandled⟩
      -- the rows of the orders to come are untouched by this pass
      have hselected1 : Selected p1.1.db orders := by
        intro order' hmem
        obtain ⟨row', hrow', hstuck'⟩ := hselected order' (List.mem_cons_of_mem _ hmem)
        have hother : order'.id ∉ [order.id] := fun heq =>
          hids.1 (List.mem_singleton.mp heq ▸ List.mem_map_of_mem hmem)
        exact ⟨row', (hhandled.during.orders _ hother).trans hrow', hstuck'⟩
      rw [Task.wp_bind]
      exact Task.wp_turn_mono (ih hids.2 hs1 hselected1)
        (fun _ _ _ h => hhandled.then_all hids.1 h) fun _ _ _ => id

/-- The orders that a replay selects. -/
def Db.selection (d : Db) (limit : Nat) : List Order := oldest Order.updatedAt limit d.stuck

theorem mem_selection {d : Db} {limit : Nat} {order : Order} (h : order ∈ d.selection limit) :
    d.orders.get? order.id = some order ∧ order.status.stuck = true := by
  obtain ⟨hmem, hstuck⟩ := List.mem_filter.mp (mem_of_mem_oldest h : order ∈ d.stuck)
  exact ⟨Table.get?_of_mem hmem, hstuck⟩

theorem nodup_selection (d : Db) (limit : Nat) : ((d.selection limit).map (·.id)).Nodup :=
  nodup_map_oldest (d.orders.nodup.sublist (List.filter_sublist.map _))

theorem replayRun_apart {A : Req → Turn → Prop} (hA : ∀ r x, A r x → ∀ w, (x.1 w).db = w.db)
    (limit : Nat) :
    Task.wp (recovering A) (replayRun limit)
      (fun _ _ p' => ApartFrom ((p.1.db.selection limit).map (·.id)) p p')
      (fun _ _ p' => ApartFrom ((p.1.db.selection limit).map (·.id)) p p') {} p := by
  unfold replayRun listStuck
  rw [Task.wp_bind]
  refine execute_apart hA Session.clean_new (fun _ _ p' _ h =>
    ⟨h.during, fun _ _ _ _ hsent => h.sent ▸ hsent⟩)
    fun e c p1 hunmoved => ?_
  have hthen : ∀ p', ApartFrom ((p.1.db.selection limit).map (·.id)) p1 p' →
      ApartFrom ((p.1.db.selection limit).map (·.id)) p p' := fun p' h =>
    ⟨hunmoved.during.then_same h.during, fun o a bo ha hsent =>
      hunmoved.sent ▸ h.unsent o a bo (hunmoved.db ▸ ha) hsent⟩
  rw [Task.wp_bind]
  exact Task.wp_turn_mono (recoverEach_apart hA _ (nodup_selection p.1.db limit) Session.clean_new)
    (fun _ _ p' h => hthen p' h) fun _ _ p' h => hthen p' h

theorem replayRun_handled (limit : Nat) :
    Task.wp (recovering Unfailing) (replayRun limit)
      (fun y _ p' => y.details.map (·.orderId) = (p.1.db.selection limit).map (·.id) ∧
        HandledAll ((p.1.db.selection limit).map (·.id)) p p')
      (fun _ _ _ => False) {} p := by
  unfold replayRun listStuck
  rw [Task.wp_bind]
  refine execute_recovers Session.sound_new fun e c p1 hunmoved _ => ?_
  have hselected : Selected p1.1.db (p.1.db.selection limit) := fun order hmem =>
    ⟨order, hunmoved.db ▸ mem_selection hmem⟩
  have hwalk := recoverEach_handled (p.1.db.selection limit) (nodup_selection p.1.db limit)
    Session.sound_new hselected
  have hdetails := recovering_of_only (A := Unfailing) (J := fun _ => True)
    (fun _ _ _ _ _ _ => trivial)
    (recoverEach_about (p.1.db.selection limit) {}) (p := p1) trivial
  rw [Task.wp_bind]
  refine Prog.turn_mono ?_ (Prog.turn_and hwalk hdetails)
  rintro ⟨e | details, s'⟩ p' ⟨h, h', _⟩
  · exact h.elim
  · refine ⟨h', hunmoved.during.then_same h.during, h.read, fun o ho a bo ha => ?_⟩
    exact hunmoved.db ▸ h.adopted o ho a bo (hunmoved.db ▸ ha)

end Passes

/-! ## The run -/

/-- The orders that it sends to a broker. -/
def sentIn (limit : Nat) (turns : Nat → Turn) (w : World) : List OrderId :=
  (replayHears limit turns w).flatMap sentBy

/-- The orders whose attempts it reads. -/
def readIn (limit : Nat) (turns : Nat → Turn) (w : World) : List OrderId :=
  (replayHears limit turns w).flatMap readBy

/-- The database answers every request of the replay, and nobody cancels it. -/
def Answered (limit : Nat) (turns : Nat → Turn) (w : World) : Prop :=
  ((replayRun limit).program .replayed).Suits (amid handle) Unfailing turns w

section Run

variable {limit : Nat} {turns : Nat → Turn} {w : World} {A : Req → Turn → Prop}
  {Q : ReplaySummary → Session → Stage → Prop} {E : Exn → Session → Stage → Prop}

/-- What holds of the coroutine, however it ends, holds of the replay. -/
theorem replayed_ends (h : Task.wp (recovering A) (replayRun limit) Q E {} (w, {}))
    (hsuits : ((replayRun limit).program .replayed).Suits (amid handle) A turns w) :
    (∃ y s, (replayed limit turns w).1 = .ok (.replayed y) ∧
      Q y s ((replayed limit turns w).2, ⟨sentIn limit turns w, readIn limit turns w⟩)) ∨
    ∃ e s, (replayed limit turns w).1 = .error e ∧
      E e s ((replayed limit turns w).2, ⟨sentIn limit turns w, readIn limit turns w⟩) := by
  have hprogram : ((replayRun limit).program .replayed).fold (recovering A) (fun x p' =>
      (∃ y s, x = .ok (.replayed y) ∧ Q y s p') ∨ ∃ e s, x = .error e ∧ E e s p') (w, {}) := by
    unfold Coro.program
    rw [Prog.fold_bind]
    refine Prog.turn_mono ?_ h
    rintro ⟨e | y, s⟩ p' hend
    · exact .inr ⟨e, s, rfl, hend⟩
    · exact .inl ⟨y, s, rfl, hend⟩
  have hend := Prog.solo_of_turn hprogram (Prog.suits_tracked Recovering.hear hsuits {})
  rw [Prog.solo_tracked, foldl_hear_recovering] at hend
  exact hend

/-- What a replay does with the orders. -/
structure Adopts (limit : Nat) (turns : Nat → Turn) (w : World) : Prop where
  /-- What a broker has accepted is not sent again. -/
  unsent : ∀ o a bo, Adoptable w.db o a bo → o ∉ sentIn limit turns w
  /-- An order that is not stuck stays as it is. -/
  others : ∀ o, (∀ row, w.db.orders.get? o = some row → row.status.stuck = false) →
    (replayed limit turns w).2.db.orders.get? o = w.db.orders.get? o
  accounts : ∀ x, (replayed limit turns w).1 = .ok x → ∃ y, x = .replayed y ∧ Accounts y
  /-- While the database answers, every selected order has its pass. -/
  processed : Answered limit turns w → ∃ y, (replayed limit turns w).1 = .ok (.replayed y) ∧
    y.details.map (·.orderId) = (w.db.selection limit).map (·.id) ∧
    ∀ order ∈ w.db.selection limit, order.id ∈ readIn limit turns w ∧
      ∀ a bo, Adoptable w.db order.id a bo → Adopted w.db (replayed limit turns w).2.db order.id

/-- A replay adopts what brokers have accepted, whatever fails meanwhile. -/
theorem replay_adopts (hothers : ∀ n w', ((turns n).1 w').db = w'.db) : Adopts limit turns w := by
  have hsuits : ((replayRun limit).program .replayed).Suits (amid handle) LeavesDb turns w :=
    Prog.suits_of_forall (fun _ n => hothers n) _ _
  have hapart : ApartFrom ((w.db.selection limit).map (·.id)) (w, {})
      ((replayed limit turns w).2, ⟨sentIn limit turns w, readIn limit turns w⟩) := by
    rcases replayed_ends (replayRun_apart (fun _ _ h => h) limit) hsuits with ⟨_, _, _, h⟩
      | ⟨_, _, _, h⟩
    · exact h
    · exact h
  refine ⟨fun o a bo ha hsent => ?_, fun o ho => hapart.during.orders o fun hmem =>
    ?_, fun x hx => ?_,
    fun hanswered => ?_⟩
  · exact absurd (hapart.unsent o a bo ha hsent) List.not_mem_nil
  · obtain ⟨order, hsel, rfl⟩ := List.mem_map.mp hmem
    obtain ⟨hrow, hstuck⟩ := mem_selection hsel
    rw [ho order hrow] at hstuck
    cases hstuck
  · have haccounts := recovering_of_only (A := LeavesDb) (J := fun _ => True)
      (fun _ _ _ _ _ _ => trivial)
      (replayRun_accounts limit {}) (p := (w, {})) trivial
    have hwp : Task.wp (recovering LeavesDb) (replayRun limit) (fun y _ _ => Accounts y)
        (fun _ _ _ => True) {} (w, {}) := by
      refine Prog.turn_mono ?_ haccounts
      rintro ⟨e | y, s⟩ p' ⟨h, _⟩
      · trivial
      · exact h
    rcases replayed_ends hwp hsuits with ⟨y, _, hy, h⟩ | ⟨e, _, he, _⟩
    · exact ⟨y, Except.ok.inj (hx.symm.trans hy), h⟩
    · cases hx.symm.trans he
  · rcases replayed_ends (replayRun_handled limit) hanswered with ⟨y, _, hy, hdetails, h⟩
      | ⟨_, _, _, h⟩
    · refine ⟨y, hy, hdetails, fun order hmem => ?_⟩
      have hid : order.id ∈ (w.db.selection limit).map (·.id) := List.mem_map_of_mem hmem
      exact ⟨h.read _ hid, h.adopted _ hid⟩
    · exact h.elim

end Run

/-- Both orders are adopted from their attempts. -/
theorem replay_adopts_twoAccepted :
    (1 ∉ sentIn 2 undisturbed twoAccepted ∧ 2 ∉ sentIn 2 undisturbed twoAccepted) ∧
    Adopted twoAccepted.db (replayed 2 undisturbed twoAccepted).2.db 1 ∧
    Adopted twoAccepted.db (replayed 2 undisturbed twoAccepted).2.db 2 := by
  have hadopts : Adopts 2 undisturbed twoAccepted := replay_adopts fun _ _ => rfl
  have hanswered : Answered 2 undisturbed twoAccepted :=
    Prog.suits_of_forall (fun _ _ => ⟨fun _ => rfl, nofun, fun _ => rfl⟩) _ _
  have hfirst : Adoptable twoAccepted.db 1 (acceptedAttempt 5 1 8) 8 := ⟨by decide, rfl, rfl, rfl⟩
  have hsecond : Adoptable twoAccepted.db 2 (acceptedAttempt 6 2 9) 9 := ⟨by decide, rfl, rfl, rfl⟩
  obtain ⟨y, _, _, hprocessed⟩ := hadopts.processed hanswered
  refine ⟨⟨hadopts.unsent 1 _ _ hfirst, hadopts.unsent 2 _ _ hsecond⟩, ?_, ?_⟩
  · exact (hprocessed (stuckOrder 1 "first" 1) (by decide)).2 _ _ hfirst
  · exact (hprocessed (stuckOrder 2 "second" 2) (by decide)).2 _ _ hsecond

end BrokerBridge
