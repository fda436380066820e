import BrokerBridge.Orders.Standing
import BrokerBridge.Code.System
import BrokerBridge.Conc.Batches
import BrokerBridge.Conc.Solo

/-!
# What one replay scans

A replay selects the stuck orders that were written longest ago and recovers them one
after another. Its commits write orders that it has already taken up, so every other order
stays as it is; and an order that a commit writes has an `updated_at` from then on that is
no older than the selection. Others may do what they like meanwhile, as long as they leave
the orders alone.
-/

namespace BrokerBridge

open Conc

/-! ## What a replay has been told -/

/-- The order that this takes up. -/
def recoveredBy : ((r : Req) × r.Ans) → List OrderId
  | ⟨.mark (.recover o), _⟩ => [o]
  | _ => []

/-- The order whose row the write sets. -/
def Write.setsOrder : Write → Option OrderId
  | .setOrder o _ => some o
  | _ => none

/-- The orders that this writes, being a commit that went through. -/
def writtenBy : ((r : Req) × r.Ans) → List OrderId
  | ⟨.commit ws, .ok _⟩ => ws.filterMap Write.setsOrder
  | _ => []

structure Scanned where
  recovered : List OrderId := []
  written : List OrderId := []

def Scanned.hear (ph : Scanned) (r : Req) (x : r.Ans) : Scanned :=
  ⟨ph.recovered ++ recoveredBy ⟨r, x⟩, ph.written ++ writtenBy ⟨r, x⟩⟩

theorem foldl_hear_scanned (heard : List ((r : Req) × r.Ans)) (ph : Scanned) :
    heard.foldl (fun ph x => ph.hear x.1 x.2) ph =
      ⟨ph.recovered ++ heard.flatMap recoveredBy, ph.written ++ heard.flatMap writtenBy⟩ := by
  induction heard generalizing ph with
  | nil => simp
  | cons x heard ih =>
      rw [List.foldl_cons, ih, List.flatMap_cons, List.flatMap_cons, ← List.append_assoc,
        ← List.append_assoc]
      rfl

/-- After its selection a replay takes up orders, and works on those it has taken up. -/
def scanning : Protocol Req Req.Ans Scanned where
  allows ph r := (∃ o, r = .mark (.recover o)) ∨ ∃ o ∈ ph.recovered, r.submits o
  advance := Scanned.hear

theorem recoveredBy_of_submits {o : OrderId} {r : Req} (h : r.submits o) (x : r.Ans) :
    recoveredBy ⟨r, x⟩ = [] := by
  cases r with
  | mark m =>
      cases m with
      | recover => exact h.elim False.elim nofun
      | _ => rfl
  | _ => rfl

/-! ## The walk -/

section Walk

variable {s : Session} {ph : Scanned}

/-- A stretch that works on an order that was taken up. -/
theorem working_scans {α : Type} {o : OrderId} {t : Coro α} (ht : Calm (Req.submits o) t)
    (ho : o ∈ ph.recovered) (hs : s.Clean) :
    Task.wp scanning.step t (fun _ s' ph' => s'.Clean ∧ ph'.recovered = ph.recovered)
      (fun _ s' ph' => s'.Clean ∧ ph'.recovered = ph.recovered) s ph := by
  refine Task.wp_staying_in (I := fun ph' : Scanned => ph'.recovered = ph.recovered) ?_ rfl
    (ht s hs)
  intro ph' r hI hr
  refine ⟨.inr ⟨o, hI ▸ ho, hr⟩, fun x => ?_⟩
  show ph'.recovered ++ recoveredBy ⟨r, x⟩ = _
  rw [recoveredBy_of_submits hr, List.append_nil, hI]

theorem recoverOne_scans (stale : Order) (hs : s.Clean) :
    Task.wp scanning.step (recoverOne stale)
      (fun _ s' ph' => s'.Clean ∧ ph'.recovered = ph.recovered ++ [stale.id])
      (fun _ s' ph' => s'.Clean ∧ ph'.recovered = ph.recovered ++ [stale.id]) s ph := by
  unfold recoverOne
  rw [Task.wp_bind, wp_mark]
  refine ⟨.inl ⟨stale.id, rfl⟩, fun _ => ?_⟩
  have hmem : stale.id ∈ (⟨ph.recovered ++ [stale.id], ph.written ++ []⟩ : Scanned).recovered :=
    List.mem_append_right _ List.mem_cons_self
  refine working_scans ?_ hmem hs
  refine Steps.bind (Steps.execute fun _ _ => .inl trivial) fun row => ?_
  refine Steps.bind (Steps.refreshed _) fun x => ?_
  obtain ⟨order, ho⟩ := x
  refine Steps.ite (Steps.pure _) (recoverOpen_calm order ?_)
  rw [ho]
  exact submits_submitting stale.id

theorem recoverStep_scans (order : Order) (hs : s.Clean) :
    Task.wp scanning.step (recoverStep order)
      (fun _ s' ph' => s'.Clean ∧ ph'.recovered = ph.recovered ++ [order.id])
      (fun _ s' ph' => s'.Clean ∧ ph'.recovered = ph.recovered ++ [order.id]) s ph := by
  unfold recoverStep
  rw [Task.wp_catching]
  refine Task.wp_step_mono (recoverOne_scans order hs) (fun _ _ _ h => h) fun e s1 ph1 h1 => ?_
  rw [Task.wp_ite]
  split
  · exact h1
  · exact h1

theorem recoverEach_scans (orders : List Order) (hs : s.Clean) :
    Task.wp scanning.step (recoverEach orders)
      (fun _ _ ph' => ph'.recovered = ph.recovered ++ orders.map (·.id))
      (fun _ _ ph' => ∃ l, l <+: orders.map (·.id) ∧ ph'.recovered = ph.recovered ++ l) s ph := by
  induction orders generalizing s ph with
  | nil => exact (List.append_nil _).symm
  | cons order orders ih =>
      rw [recoverEach, Task.wp_bind]
      refine Task.wp_step_mono (recoverStep_scans order hs) ?_ ?_
      · rintro x s1 ph1 ⟨hs1, hph1⟩
        rw [Task.wp_bind]
        refine Task.wp_step_mono (ih hs1) (fun xs s2 ph2 h2 => ?_) ?_
        · rw [Task.wp_pure, h2, hph1, List.append_assoc]
          rfl
        · rintro e s2 ph2 ⟨l, hl, h2⟩
          refine ⟨order.id :: l, List.cons_prefix_cons.mpr ⟨rfl, hl⟩, ?_⟩
          rw [h2, hph1, List.append_assoc]
          rfl
      · rintro e s1 ph1 ⟨_, hph1⟩
        exact ⟨[order.id], List.cons_prefix_cons.mpr ⟨rfl, List.nil_prefix⟩, hph1⟩

end Walk

/-! ## The rows -/

section Rows

variable {o o' : OrderId} {c now : Instant} {d d' : Db} {ws : List Write}

/-- The row of the order, if there is one, was written at `c` or later. -/
def Db.StampedAt (d : Db) (c : Instant) (o : OrderId) : Prop :=
  ∀ r, d.orders.get? o = some r → c ≤ r.updatedAt

theorem stampedAt_setOrder (hc : c ≤ now) (f : OrderField) :
    ((Write.setOrder o f).apply now d).StampedAt c o := by
  intro r hr
  have hget : ((d.orders.update o f).update o (.updatedAt now)).get? o = some r := hr
  rw [Table.get?_update_self] at hget
  obtain ⟨r', _, rfl⟩ := Option.map_eq_some_iff.mp hget
  exact hc

theorem Write.working_stampedAt {v : Write} (hv : v.working o) (hc : c ≤ now)
    (h : d.StampedAt c o') :
    (v.apply now d).StampedAt c o' := by
  by_cases hne : v.order? = some o'
  · cases v with
    | setOrder o'' f =>
        have heq : o'' = o' := Option.some.inj hne
        exact heq ▸ stampedAt_setOrder hc f
    | addOrder => exact hv.elim
    | setAttempt o'' a f =>
        simp only [Write.apply]
        split <;> exact h
    | _ => exact h
  · intro r hr
    rw [Write.apply_orders hne] at hr
    exact h r hr

theorem stampedAt_write? (hws : ∀ v ∈ ws, v.working o) (hc : c ≤ now)
    (hd : d.write? now ws = some d')
    (h : d.StampedAt c o') : d'.StampedAt c o' :=
  Db.write?_preserves (P := fun d => d.StampedAt c o')
    (fun v hv _ _ hd => Write.working_stampedAt (hws v hv) hc hd) hd h

/-- What a commit writes is stamped by it. -/
theorem stampedAt_of_set (hws : ∀ v ∈ ws, v.working o) (hc : c ≤ now)
    (hd : d.write? now ws = some d')
    (hset : o' ∈ ws.filterMap Write.setsOrder) : d'.StampedAt c o' := by
  obtain ⟨v, hv, hvo⟩ := List.mem_filterMap.mp hset
  induction ws generalizing d with
  | nil => cases hv
  | cons v' ws ih =>
      obtain ⟨_, hd⟩ := Db.write?_cons.mp hd
      have hws' : ∀ v ∈ ws, v.working o := fun v hv => hws v (List.mem_cons_of_mem _ hv)
      rcases List.mem_cons.mp hv with rfl | hv
      · cases v with
        | setOrder o'' f =>
            cases hvo
            exact stampedAt_write? hws' hc hd (stampedAt_setOrder hc f)
        | _ => cases hvo
      · exact ih hws' hd (List.mem_filterMap.mpr ⟨v, hv, hvo⟩) hv

end Rows

/-! ## One replay -/

/-- Others leave the orders alone, and time passes. -/
def Turn.sparesOrders (x : Turn) : Prop :=
  ∀ w, (x.1 w).db.orders = w.db.orders ∧ w.clock ≤ (x.1 w).clock

/-- Since the selection, from a world with these orders and this clock. -/
structure ScanFrom (orders : Table Order) (c : Instant) (w : World) (ph : Scanned) : Prop where
  clock : c ≤ w.clock
  others : ∀ o, o ∉ ph.recovered → w.db.orders.get? o = orders.get? o
  stamped : ∀ o ∈ ph.written, w.db.StampedAt c o

section Once

variable {orders : Table Order} {c : Instant} {w : World} {ph : Scanned}

theorem ScanFrom.turn (h : ScanFrom orders c w ph) {x : Turn} (hx : x.sparesOrders) :
    ScanFrom orders c (x.1 w) ph := by
  obtain ⟨ho, hclock⟩ := hx w
  refine ⟨h.clock.trans hclock, fun o hout => ?_, fun o hin r hr => ?_⟩
  · rw [ho]
    exact h.others o hout
  · rw [ho] at hr
    exact h.stamped o hin r hr

/-- A request that commits nothing writes no order. -/
theorem ScanFrom.quiet (h : ScanFrom orders c w ph) {r : Req} (hr : ∀ ws, r ≠ .commit ws) (e : Env)
    (x : r.Ans) : ScanFrom orders c (handle r e w).2 (ph.hear r x) := by
  have hwritten : writtenBy ⟨r, x⟩ = [] := by
    cases r with
    | commit ws => exact absurd rfl (hr ws)
    | _ => rfl
  refine ⟨(handle_clock r e w).symm ▸ h.clock, fun o hout => ?_, fun o hin => ?_⟩
  · rw [handle_db hr]
    exact h.others o fun hmem => hout (List.mem_append_left _ hmem)
  · rw [handle_db hr]
    rw [Scanned.hear, hwritten, List.append_nil] at hin
    exact h.stamped o hin

theorem ScanFrom.commit (h : ScanFrom orders c w ph) {ws : List Write} {o : OrderId}
    (ho : o ∈ ph.recovered) (hws : ∀ v ∈ ws, v.working o) (e : Env) :
    ScanFrom orders c (handle (.commit ws) e w).2
      (ph.hear (.commit ws) (handle (.commit ws) e w).1) := by
  rcases commit_cases ws e w with ⟨f, hf⟩ | ⟨d, hd, hf⟩
  · rw [hf]
    refine ⟨h.clock, fun o' hout => h.others o' fun hmem => hout (List.mem_append_left _ hmem),
      fun o' hin => h.stamped o' ?_⟩
    exact (List.mem_append.mp hin).resolve_right List.not_mem_nil
  · rw [hf]
    refine ⟨h.clock, fun o' hout => ?_, fun o' hin => ?_⟩
    · have hout' : o' ∉ ph.recovered := fun hmem => hout (List.mem_append_left _ hmem)
      have hspares : ∀ v ∈ ws, v.order? ≠ some o' := fun v hv =>
        (hws v hv).spares fun heq => hout' (heq ▸ ho)
      exact (Db.write?_spares hspares hd).1.trans (h.others o' hout')
    · rcases List.mem_append.mp hin with hin | hin
      · exact stampedAt_write? hws h.clock hd (h.stamped o' hin)
      · exact stampedAt_of_set hws h.clock hd hin

/-- Whatever a replay asks after its selection. -/
theorem ScanFrom.step {r : Req} (hr : scanning.allows ph r) {x : Turn} (hx : x.sparesOrders)
    (h : ScanFrom orders c w ph) :
    ScanFrom orders c (amid handle r x w).2 (scanning.advance ph r (amid handle r x w).1) := by
  have hturn := h.turn hx
  rcases hr with ⟨o, rfl⟩ | ⟨o, ho, hsubmits⟩
  · exact hturn.quiet (fun _ heq => by cases heq) x.2 _
  · by_cases hcommit : ∃ ws, r = .commit ws
    · obtain ⟨ws, rfl⟩ := hcommit
      refine hturn.commit ho ?_ x.2
      rcases hsubmits with hbusy | ⟨_, heq⟩
      · exact hbusy
      · cases heq
    · exact hturn.quiet (fun ws heq => hcommit ⟨ws, heq⟩) x.2 _

end Once

/-! ## The run -/

/-- `run(limit)`, with others having their turns in between: its reply and the world it leaves. -/
def replayed (limit : Nat) (turns : Nat → Turn) (w : World) : Except Exn Reply × World :=
  ((replayRun limit).program .replayed).solo (amid handle) turns w

/-- What it is told meanwhile. -/
def replayHears (limit : Nat) (turns : Nat → Turn) (w : World) : List ((r : Req) × r.Ans) :=
  ((replayRun limit).program .replayed).heard (amid handle) turns w

/-- The orders that are passed to `_recover_one`, in order. -/
def passedIn (limit : Nat) (turns : Nat → Turn) (w : World) : List OrderId :=
  (replayHears limit turns w).flatMap recoveredBy

/-- The orders whose rows it writes. -/
def writtenIn (limit : Nat) (turns : Nat → Turn) (w : World) : List OrderId :=
  (replayHears limit turns w).flatMap writtenBy

def Db.stuck (d : Db) : List Order := d.orders.rows.filter (·.status.stuck)

/-- The rest of `run`, once the selection is answered. -/
def recoverAll (x : Except Exn (List Order)) : Coro ReplaySummary := do
  let stuck ← ofDbAnswer x
  let details ← recoverEach stuck
  pure (summarize stuck.length details)

/-- The selection, as the database answers it. -/
theorem selection_cases (limit : Nat) (x : Turn) (w : World) :
    (∃ f, amid handle (.query [] (.stuckOrders limit)) x w = (.error f, x.1 w)) ∨
    amid handle (.query [] (.stuckOrders limit)) x w =
      (.ok (oldest Order.updatedAt limit (x.1 w).db.stuck), x.1 w) :=
  query_cases [] (.stuckOrders limit) x.2 (x.1 w)

/-- What is known of a replay: how far it came through its selection, and that every other
order is as it was. -/
structure ScanOf (limit : Nat) (turns : Nat → Turn) (w : World) : Prop where
  passed : passedIn limit turns w <+:
    (oldest Order.updatedAt limit ((turns 0).1 w).db.stuck).map (·.id)
  all : ∀ y, (replayed limit turns w).1 = .ok y →
    passedIn limit turns w = (oldest Order.updatedAt limit ((turns 0).1 w).db.stuck).map (·.id)
  others : ∀ o, o ∉ passedIn limit turns w →
    (replayed limit turns w).2.db.orders.get? o = w.db.orders.get? o
  stamped : ∀ o ∈ writtenIn limit turns w,
    (replayed limit turns w).2.db.StampedAt ((turns 0).1 w).clock o

theorem recoverAll_scans (stuck : List Order) :
    ((recoverAll (.ok stuck)).program .replayed).Follows scanning
      (fun x ph => ph.recovered <+: stuck.map (·.id) ∧
        ∀ y, x = .ok y → ph.recovered = stuck.map (·.id)) {} := by
  refine Coro.program_ends (Q := fun _ _ ph => ph.recovered = stuck.map (·.id))
    (E := fun _ _ ph => ph.recovered <+: stuck.map (·.id)) ?_
    (fun _ _ _ h => ⟨h ▸ List.prefix_refl _, fun _ _ => h⟩) fun _ _ _ h =>
      ⟨h, fun _ heq => nomatch heq⟩
  unfold recoverAll
  rw [Task.wp_bind, wp_ofDbAnswer_ok, Task.wp_bind]
  refine Task.wp_step_mono (recoverEach_scans stuck Session.clean_new) (fun _ _ _ h => ?_) ?_
  · rw [Task.wp_pure, h]
    rfl
  · rintro e s ph ⟨l, hl, h⟩
    rw [h]
    exact hl

theorem replayed_eq (limit : Nat) (turns : Nat → Turn) (w : World) : replayed limit turns w =
    ((recoverAll (amid handle (.query [] (.stuckOrders limit)) (turns 0) w).1).program
      .replayed).solo (amid handle) (fun n => turns (n + 1))
      (amid handle (.query [] (.stuckOrders limit)) (turns 0) w).2 :=
  rfl

theorem replayHears_eq (limit : Nat) (turns : Nat → Turn) (w : World) : replayHears limit turns w =
    ⟨.query [] (.stuckOrders limit),
        (amid handle (.query [] (.stuckOrders limit)) (turns 0) w).1⟩ ::
      ((recoverAll (amid handle (.query [] (.stuckOrders limit)) (turns 0) w).1).program
        .replayed).heard (amid handle) (fun n => turns (n + 1))
        (amid handle (.query [] (.stuckOrders limit)) (turns 0) w).2 := rfl

/-- The selection itself takes up nothing and writes nothing. -/
theorem flatMap_selection {limit : Nat} {x : Except Exn (List Order)}
    (heard : List ((r : Req) × r.Ans)) :
    (⟨.query [] (.stuckOrders limit), x⟩ :: heard).flatMap recoveredBy = heard.flatMap recoveredBy ∧
    (⟨.query [] (.stuckOrders limit), x⟩ :: heard).flatMap writtenBy = heard.flatMap writtenBy :=
  ⟨rfl, rfl⟩

theorem replayed_scan (limit : Nat) (turns : Nat → Turn) (w : World)
    (hturns : ∀ n, (turns n).sparesOrders) : ScanOf limit turns w := by
  have horders : ((turns 0).1 w).db.orders = w.db.orders := (hturns 0 w).1
  rcases selection_cases limit (turns 0) w with ⟨f, hf⟩ | hok
  · have hend : replayed limit turns w = (.error f, (turns 0).1 w) := by
      rw [replayed_eq, hf]
      rfl
    have hheard : replayHears limit turns w = [⟨.query [] (.stuckOrders limit), .error f⟩] := by
      rw [replayHears_eq, hf]
      rfl
    refine ⟨?_, fun y hy => ?_, fun o _ => ?_, fun o ho => ?_⟩
    · rw [passedIn, hheard]
      exact List.nil_prefix
    · rw [hend] at hy
      cases hy
    · rw [hend, horders]
    · rw [writtenIn, hheard] at ho
      cases ho
  · have hstart : ScanFrom w.db.orders ((turns 0).1 w).clock ((turns 0).1 w) {} :=
      ⟨le_refl _, fun o _ => by rw [horders], List.forall_mem_nil _⟩
    have hfold := Prog.alone_of_step (A := Turn.sparesOrders)
      (J := ScanFrom w.db.orders ((turns 0).1 w).clock)
      (fun ph r hr x hx w' hw' => hw'.step hr hx)
      (recoverAll_scans (oldest Order.updatedAt limit ((turns 0).1 w).db.stuck)) hstart
    have hend := Prog.solo_of_alone hfold fun n => hturns (n + 1)
    rw [Prog.solo_tracked, show scanning.advance = Scanned.hear from rfl,
      foldl_hear_scanned] at hend
    simp only [List.nil_append] at hend
    obtain ⟨⟨hpre, hall⟩, hscan⟩ := hend
    have hrun := replayed_eq limit turns w
    have hheard := replayHears_eq limit turns w
    rw [hok] at hrun hheard
    have hpassed := (congrArg (List.flatMap recoveredBy) hheard).trans (flatMap_selection _).1
    have hwritten := (congrArg (List.flatMap writtenBy) hheard).trans (flatMap_selection _).2
    refine ⟨?_, fun y hy => ?_, fun o ho => ?_, fun o ho => ?_⟩
    · rw [passedIn, hpassed]
      exact hpre
    · rw [hrun] at hy
      exact hpassed.trans (hall y hy)
    · rw [passedIn, hpassed] at ho
      rw [hrun]
      exact hscan.others o ho
    · rw [writtenIn, hwritten] at ho
      rw [hrun]
      exact hscan.stamped o ho

end BrokerBridge
