import BrokerBridge.Conc.History
import BrokerBridge.Events.Memory
import Mathlib.Data.List.Perm.Basic

/-!
# One subscription among publications

`publish` appends its event and takes its snapshot of the handlers in one go, and so does
`subscribe` replace the handlers and take its snapshot of the events. An event is therefore
in the snapshot of the subscription or has the new handler in its own, and never both. What
the new handler has received, together with what some call still owes it, is at any moment
what has been published under its topics.
-/

namespace BrokerBridge.Events

open Conc

/-! ## The calls -/

inductive Call where
  | publish (topic : String) (event : BusEvent)
  | subscribe (topics : List String) (handler : Handler)

abbrev Running : Type := Prog Req Req.Ans (Except Exn Unit × Unit)

def Call.prog : Call → Running
  | .publish topic event => Events.publish topic event ()
  | .subscribe topics handler => Events.subscribe topics handler ()

/-- Any number of calls over one provider. -/
def system : Machine World Req Req.Ans Env Call Empty (Except Exn Unit × Unit) where
  prog := Call.prog
  handle := handle
  tick _ w := w

abbrev Calls : Type := Pool World Req Req.Ans (Except Exn Unit × Unit)

/-! ## What is claimed -/

section Claim

variable (topics : List String) (h : Handler)

/-- A subscription is about to be made. -/
def subscribing (w : World) : Calls := ⟨w, [some (subscribe topics h ())], []⟩

/-- Other calls publish, none is cancelled, and the handler does not raise. -/
def Publishing (s : Calls) : Event Env Call Empty → Prop
  | .start c => ∃ topic event, c = .publish topic event
  | .step i e => ∀ topic event, s.Asks i (.deliver h topic event) → e.raises = false
  | .crash _ => False
  | .tick _ => True

/-- What the handler has been called with. -/
def received (w : World) : List (String × BusEvent) :=
  (w.deliveries.filter fun d => d.1 = h).map Prod.snd

/-- What has been published under the topics. -/
def wanted (w : World) : List (String × BusEvent) :=
  w.provider.published.filter fun x => (⟨topicSet topics, h⟩ : Registration).takes x.1

/-- The events that calls have published, newest first. -/
def announced (s : Calls) : List (String × BusEvent) :=
  s.trace.filterMap fun x =>
    match x.2.1 with
    | .publish topic event => some (topic, event)
    | _ => none

/-- The handler of a subscription is nobody's yet. -/
structure Unknown (w : World) : Prop where
  handlers : ∀ r ∈ w.provider.handlers, r.handler ≠ h
  deliveries : ∀ d ∈ w.deliveries, d.1 ≠ h

/-- However the subscription and the publications go: events published before and during
it are delivered to the new handler at most once, and once when all calls have returned. -/
def DeliversOnce (w : World) : Prop :=
  ∀ s, system.Reach (· = subscribing topics h w) (Publishing h) s →
    s.world.provider.published = w.provider.published ++ (announced s).reverse ∧
    (received h s.world).Subperm (wanted topics h s.world) ∧
    ((∀ i p, s.prog? i = some p → ∃ a, p = .ret a) →
      (received h s.world).Perm (wanted topics h s.world))

end Claim

/-! ## What a call still owes -/

/-- Handlers, called one after the other. -/
def sendAll : List (Handler × String × BusEvent) → Job Unit
  | [] => pure ()
  | d :: rest => do
      deliver d.1 d.2.1 d.2.2
      sendAll rest

theorem fanOut_eq_sendAll (topic : String) (event : BusEvent) (regs : List Registration) :
    fanOut topic event regs =
      sendAll ((regs.filter fun r => r.takes topic).map fun r => (r.handler, topic, event)) := by
  induction regs with
  | nil => rfl
  | cons r rest ih =>
      rw [fanOut, List.filter_cons]
      split
      · rw [List.map_cons, sendAll, ih]
      · exact ih

theorem replay_eq_sendAll (r : Registration) (published : List (String × BusEvent)) :
    replay r published =
      sendAll ((published.filter fun x => r.takes x.1).map (Prod.mk r.handler)) := by
  induction published with
  | nil => rfl
  | cons x rest ih =>
      obtain ⟨topic, event⟩ := x
      rw [replay, List.filter_cons]
      split
      · rw [List.map_cons, sendAll, ih]
      · exact ih

/-- How a call goes on with an answer. -/
def resume {α : Type} (k : α → Job Unit) : Except Exn α → Running :=
  cases (fun a => k a) (fun e u => .ret (.error e, u)) ()

theorem publish_eq (topic : String) (event : BusEvent) :
    publish topic event () =
      .call (.publish topic event) (resume fun regs => fanOut topic event regs) :=
  congrArg (Prog.call _) (funext fun x => by cases x <;> rfl)

theorem subscribe_eq (topics : List String) (h : Handler) :
    subscribe topics h () =
      .call (.subscribe topics h) (resume fun published => replay ⟨topicSet topics, h⟩ published) :=
  congrArg (Prog.call _) (funext fun x => by cases x <;> rfl)

theorem sendAll_cons (d : Handler × String × BusEvent) (rest : List (Handler × String × BusEvent)) :
    sendAll (d :: rest) () = .call (.deliver d.1 d.2.1 d.2.2) (resume fun _ => sendAll rest) :=
  congrArg (Prog.call _) (funext fun x => by cases x <;> rfl)

section Owing

variable {topics : List String} {h : Handler} {p : Running} {l : List (String × BusEvent)}
  {w : World}

/-- What a call is going to deliver to `h`: what is left of its snapshot. -/
inductive Owes (h : Handler) : Running → List (String × BusEvent) → Prop where
  | publish (topic : String) (event : BusEvent) : Owes h (publish topic event ()) []
  | others {l : List (Handler × String × BusEvent)} (hl : ∀ d ∈ l, d.1 ≠ h) :
      Owes h (sendAll l ()) []
  | news (l : List (String × BusEvent)) : Owes h (sendAll (l.map (Prod.mk h)) ()) l
  | done (a : Except Exn Unit × Unit) : Owes h (.ret a) []

/-- The next request of such a call. -/
theorem Owes.asks (ho : Owes h p l) :
    (∃ a, p = .ret a ∧ l = []) ∨
    (∃ topic event, p = .call (.publish topic event) (resume fun regs => fanOut topic event regs) ∧
      l = []) ∨
    (∃ (d : Handler × String × BusEvent) (rest : List (Handler × String × BusEvent)),
      p = .call (.deliver d.1 d.2.1 d.2.2) (resume fun _ => sendAll rest) ∧ d.1 ≠ h ∧
      (∀ d ∈ rest, d.1 ≠ h) ∧ l = []) ∨
    ∃ (x : String × BusEvent) (rest : List (String × BusEvent)),
      p = .call (.deliver h x.1 x.2) (resume fun _ => sendAll (rest.map (Prod.mk h))) ∧
      l = x :: rest := by
  cases ho with
  | publish topic event => exact .inr (.inl ⟨topic, event, publish_eq topic event, rfl⟩)
  | @others l hl =>
      cases l with
      | nil => exact .inl ⟨_, rfl, rfl⟩
      | cons d rest =>
          exact .inr (.inr (.inl ⟨d, rest, sendAll_cons d rest, hl d List.mem_cons_self,
            fun d' hd' => hl d' (List.mem_cons_of_mem _ hd'), rfl⟩))
  | news l =>
      cases l with
      | nil => exact .inl ⟨_, rfl, rfl⟩
      | cons x rest => exact .inr (.inr (.inr ⟨x, rest, sendAll_cons _ _, rfl⟩))
  | done a => exact .inl ⟨a, rfl, rfl⟩

theorem Owes.ret {a : Except Exn Unit × Unit} (ho : Owes h (.ret a) l) : l = [] := by
  rcases ho.asks with ⟨_, -, hl⟩ | ⟨_, _, hp, -⟩ | ⟨_, _, hp, -⟩ | ⟨_, _, hp, -⟩
  · exact hl
  · cases hp
  · cases hp
  · cases hp

/-- The event that a request publishes. -/
def Req.event? : Req → List (String × BusEvent)
  | .publish topic event => [(topic, event)]
  | _ => []

/-- What the requests of these calls do to the provider. -/
structure Goes (r : Req) (w w' : World) : Prop where
  closed : w'.provider.closed = false
  handlers : w'.provider.handlers = w.provider.handlers
  published : w'.provider.published = w.provider.published ++ r.event?

theorem received_append {w' : World} {d : Handler × String × BusEvent}
    (hd : w'.deliveries = w.deliveries ++ [d]) :
    received h w' = received h w ++ if d.1 = h then [d.2] else [] := by
  rw [received, hd, List.filter_append, List.map_append, received]
  congr 1
  by_cases heq : d.1 = h <;> simp [heq]

theorem handle_deliver_deliveries {handler : Handler} {topic : String} {event : BusEvent}
    (e : Env) :
    (handle (.deliver handler topic event) e w).2.deliveries =
      w.deliveries ++ [(handler, topic, event)] := by
  cases handler <;> rfl

theorem received_deliver {handler : Handler} {topic : String} {event : BusEvent} (e : Env) :
    received h (handle (.deliver handler topic event) e w).2 =
      received h w ++ if handler = h then [(topic, event)] else [] :=
  received_append (handle_deliver_deliveries e)

theorem goes_deliver {handler : Handler} {topic : String} {event : BusEvent}
    (hopen : w.provider.closed = false) (e : Env) :
    Goes (.deliver handler topic event) w (handle (.deliver handler topic event) e w).2 := by
  cases handler <;> exact ⟨hopen, rfl, (List.append_nil _).symm⟩

theorem handle_deliver_ok {handler : Handler} {topic : String} {event : BusEvent} {e : Env}
    (h : e.raises = false) : (handle (.deliver handler topic event) e w).1 = .ok () := by
  cases handler with
  | consumer => rfl
  | other n => simp only [handle, h, Bool.false_eq_true, if_false]

/-- Before the subscription the handlers are other ones; after it, its own is the only
one. -/
def Listens (topics : List String) (h : Handler) : Bool → World → Prop
  | false, w => ∀ r ∈ w.provider.handlers, r.handler ≠ h
  | true, w => w.provider.handlers = [⟨topicSet topics, h⟩]

/-- What is due to the new handler of what has been published. -/
def due (topics : List String) (h : Handler) :
    Bool → List (String × BusEvent) → List (String × BusEvent)
  | false, _ => []
  | true, published => published.filter fun x => (⟨topicSet topics, h⟩ : Registration).takes x.1

@[simp] theorem due_nil (new : Bool) : due topics h new [] = [] := by cases new <;> rfl

theorem Goes.listens {r : Req} {w' : World} {new : Bool} (hg : Goes r w w')
    (hl : Listens topics h new w) : Listens topics h new w' := by
  cases new with
  | false =>
      intro r hr
      rw [hg.handlers] at hr
      exact hl r hr
  | true => exact hg.handlers.trans hl

theorem due_append (new : Bool) (l l' : List (String × BusEvent)) :
    due topics h new (l ++ l') = due topics h new l ++ due topics h new l' := by
  cases new with
  | false => rfl
  | true => exact List.filter_append _ _

/-- What a publication takes over from its snapshot of the handlers. -/
theorem owes_fanOut {new : Bool} (hlistens : Listens topics h new w) (topic : String)
    (event : BusEvent) :
    Owes h (fanOut topic event w.provider.handlers ()) (due topics h new [(topic, event)]) := by
  rw [fanOut_eq_sendAll]
  cases new with
  | false =>
      refine .others fun d hd => ?_
      obtain ⟨r, hr, rfl⟩ := List.mem_map.mp hd
      exact hlistens r (List.mem_of_mem_filter hr)
  | true =>
      have hhandlers : w.provider.handlers = [⟨topicSet topics, h⟩] := hlistens
      rw [hhandlers, due, List.filter_cons, List.filter_cons]
      split
      · exact .news [(topic, event)]
      · exact .news []

/-- One request of a call: what it publishes is received, or owed by it from now on. -/
theorem Owes.step {r : Req} {k : r.Ans → Running} {new : Bool} (ho : Owes h (.call r k) l)
    (hopen : w.provider.closed = false) (hlistens : Listens topics h new w) (e : Env)
    (hraises : ∀ topic event, r = .deliver h topic event → e.raises = false) :
    Goes r w (handle r e w).2 ∧ ∃ l', Owes h (k (handle r e w).1) l' ∧
      received h (handle r e w).2 ++ l' = received h w ++ l ++ due topics h new r.event? := by
  rcases ho.asks with ⟨a, ha, -⟩ | ⟨topic, event, hp, rfl⟩ | ⟨d, rest, hp, hd, hrest, rfl⟩ |
    ⟨x, rest, hp, rfl⟩
  · cases ha
  · cases hp
    rw [handle_publish_open e hopen]
    refine ⟨⟨hopen, rfl, rfl⟩, _, owes_fanOut hlistens topic event, ?_⟩
    rw [List.append_nil]
    rfl
  · cases hp
    have hgot : received h (handle (.deliver d.1 d.2.1 d.2.2) e w).2 = received h w := by
      rw [received_deliver, if_neg hd, List.append_nil]
    refine ⟨goes_deliver hopen e, [], ?_, ?_⟩
    · cases (handle (.deliver d.1 d.2.1 d.2.2) e w).1 with
      | ok _ => exact .others hrest
      | error _ => exact .done _
    · show _ = _ ++ due topics h new []
      rw [hgot, due_nil, List.append_nil, List.append_nil]
  · cases hp
    have hgot : received h (handle (.deliver h x.1 x.2) e w).2 = received h w ++ [x] := by
      rw [received_deliver, if_pos rfl]
    refine ⟨goes_deliver hopen e, rest, ?_, ?_⟩
    · rw [handle_deliver_ok (hraises x.1 x.2 rfl)]
      exact .news rest
    · show _ = _ ++ due topics h new []
      rw [hgot, due_nil, List.append_nil, List.append_assoc]
      rfl

end Owing

/-! ## The invariant -/

section Run

variable {topics : List String} {h : Handler} {w : World} {s : Calls}

/-- `new` says whether the subscription has been made, and `owed` what each call owes. -/
structure Balance (topics : List String) (h : Handler) (w : World) (new : Bool)
    (owed : Nat → List (String × BusEvent)) (s : Calls) : Prop where
  closed : s.world.provider.closed = false
  listens : Listens topics h new s.world
  published : s.world.provider.published = w.provider.published ++ (announced s).reverse
  subscriber : new = false → s.prog? 0 = some (subscribe topics h ())
  owes : ∀ i p, s.prog? i = some p → new = true ∨ i ≠ 0 → Owes h p (owed i)
  silent : ∀ i, new = false ∧ i = 0 ∨ s.prog? i = none → owed i = []
  balance : (received h s.world ++ (List.range s.threads.length).flatMap owed).Perm
    (due topics h new s.world.provider.published)

theorem balance_init (hopen : w.provider.closed = false) (hnew : Unknown h w) :
    Balance topics h w false (fun _ => []) (subscribing topics h w) where
  closed := hopen
  listens := hnew.handlers
  published := (List.append_nil _).symm
  subscriber _ := rfl
  owes i p hp hi := by
    rcases hi with hi | hi
    · cases hi
    · have := Pool.prog?_some_lt hp
      exact absurd (Nat.lt_one_iff.mp this) hi
  silent _ _ := rfl
  balance := by
    have hnone : received h w = [] := by
      rw [received, List.filter_eq_nil_iff.mpr fun d hd => by simpa using hnew.deliveries d hd]
      rfl
    show (received h w ++ _).Perm []
    rw [hnone]
    exact .refl _

/-- A call that has just been made owes nothing. -/
theorem Balance.start {new : Bool} {owed : Nat → List (String × BusEvent)}
    (hb : Balance topics h w new owed s) (topic : String) (event : BusEvent) :
    Balance topics h w new owed (system.next s (.start (.publish topic event))) where
  closed := hb.closed
  listens := hb.listens
  published := hb.published
  subscriber hnew := by
    have hp := hb.subscriber hnew
    rw [Machine.next, Pool.prog?_append, if_neg (Nat.ne_of_lt (Pool.prog?_some_lt hp))]
    exact hp
  owes i p hp hi := by
    rw [Machine.next, Pool.prog?_append] at hp
    split at hp
    · next heq =>
        cases hp
        rw [heq, hb.silent _ (.inr s.prog?_length)]
        exact .publish topic event
    · exact hb.owes i p hp hi
  silent i hi := by
    refine hb.silent i (hi.imp_right fun hp => ?_)
    rw [Machine.next, Pool.prog?_append] at hp
    split at hp
    · cases hp
    · exact hp
  balance := by
    show (_ ++ (List.range (s.threads ++ [some _]).length).flatMap owed).Perm _
    rw [List.length_append, List.length_singleton, List.range_succ, List.flatMap_append,
      List.flatMap_singleton, hb.silent _ (.inr s.prog?_length), List.append_nil]
    exact hb.balance

/-- What a thread owes next. -/
abbrev owing (owed : Nat → List (String × BusEvent)) (i : Nat) (l : List (String × BusEvent)) :
    Nat → List (String × BusEvent) :=
  fun j => if j = i then l else owed j

theorem announced_step {r : Req} {k : r.Ans → Running} {i : Nat} (e : Env)
    (hk : s.prog? i = some (.call r k)) :
    (announced (system.next s (.step i e))).reverse = (announced s).reverse ++ r.event? := by
  rw [Machine.next_step_of_asks e hk, announced, List.filterMap_cons]
  cases r <;> simp [Req.event?, announced]

/-- A step of a call, or of the subscription once it has been made. -/
theorem Balance.step {new : Bool} {owed : Nat → List (String × BusEvent)} {r : Req}
    {k : r.Ans → Running} {i : Nat} {e : Env} (hb : Balance topics h w new owed s)
    (hk : s.prog? i = some (.call r k)) (hi : new = true ∨ i ≠ 0)
    (hraises : ∀ topic event, s.Asks i (.deliver h topic event) → e.raises = false) :
    ∃ l, Balance topics h w new (owing owed i l) (system.next s (.step i e)) := by
  have hlt := Pool.prog?_some_lt hk
  obtain ⟨hgoes, l, howes, hsum⟩ := (hb.owes i _ hk hi).step hb.closed hb.listens e
    fun topic event heq => hraises topic event ⟨heq ▸ k, by subst heq; exact hk⟩
  have hannounced := announced_step e hk
  have hlen : (system.next s (.step i e)).threads.length = s.threads.length := by
    rw [Machine.next_step_of_asks e hk]
    exact List.length_set
  have hworld : (system.next s (.step i e)).world = (handle r e s.world).2 := by
    rw [Machine.next_step_of_asks e hk]
    rfl
  have hprog (j : Nat) : (system.next s (.step i e)).prog? j =
      if j = i then some (k (handle r e s.world).1) else s.prog? j := by
    rw [Machine.next_step_of_asks e hk]
    exact Pool.prog?_set _ _ _ hlt
  refine ⟨l, ?_, ?_, ?_, fun hnew => ?_, fun j p hp hj => ?_, fun j hj => ?_, ?_⟩
  · rw [hworld]
    exact hgoes.closed
  · rw [hworld]
    exact hgoes.listens hb.listens
  · rw [hworld, hgoes.published, hannounced, hb.published, List.append_assoc]
  · have h0 : 0 ≠ i := by
      rcases hi with hi | hi
      · rw [hnew] at hi
        cases hi
      · exact hi.symm
    rw [hprog, if_neg h0]
    exact hb.subscriber hnew
  · rw [hprog] at hp
    by_cases hji : j = i
    · rw [if_pos hji] at hp
      cases hp
      rw [owing, if_pos hji]
      exact howes
    · rw [if_neg hji] at hp
      rw [owing, if_neg hji]
      exact hb.owes j p hp hj
  · rcases hj with ⟨hnew, rfl⟩ | hj
    · have h0 : 0 ≠ i := by
        rcases hi with hi | hi
        · rw [hnew] at hi
          cases hi
        · exact hi.symm
      rw [owing, if_neg h0]
      exact hb.silent 0 (.inl ⟨hnew, rfl⟩)
    · rw [hprog] at hj
      by_cases hji : j = i
      · rw [if_pos hji] at hj
        cases hj
      · rw [if_neg hji] at hj
        rw [owing, if_neg hji]
        exact hb.silent j (.inr hj)
  · obtain ⟨rest, hold, hnext⟩ := range_flatMap_update owed l hlt
    rw [hlen, hworld, hgoes.published, due_append]
    have hbefore := (hold.append_left (received h s.world)).symm.trans hb.balance
    refine (hnext.append_left _).trans ?_
    rw [← List.append_assoc, hsum, List.append_assoc]
    refine (List.perm_append_comm.append_left _).trans ?_
    rw [List.append_assoc, ← List.append_assoc (owed i), ← List.append_assoc]
    exact hbefore.append_right _

/-- The subscription is made: what has been published is in its snapshot, and nothing of it
in any other's. -/
theorem Balance.subscribe {owed : Nat → List (String × BusEvent)} {e : Env}
    (hb : Balance topics h w false owed s) :
    Balance topics h w true (owing owed 0 (due topics h true s.world.provider.published))
      (system.next s (.step 0 e)) := by
  have hk := hb.subscriber rfl
  rw [subscribe_eq] at hk
  have hlt := Pool.prog?_some_lt hk
  have hhandle : handle (.subscribe topics h) e s.world =
      (.ok s.world.provider.published,
        { s.world with
          provider := { s.world.provider with handlers := [⟨topicSet topics, h⟩] } }) := by
    simp only [handle, hb.closed, Bool.false_eq_true, if_false]
  have hannounced := announced_step e hk
  have hnext := Machine.next_step_of_asks (M := system) e hk
  rw [show system.handle = handle from rfl, hhandle] at hnext
  have howes : Owes h (replay ⟨topicSet topics, h⟩ s.world.provider.published ())
      (due topics h true s.world.provider.published) := by
    rw [replay_eq_sendAll]
    exact .news _
  have hprog (j : Nat) : (system.next s (.step 0 e)).prog? j =
      if j = 0 then some (replay ⟨topicSet topics, h⟩ s.world.provider.published ())
      else s.prog? j := by
    rw [hnext]
    exact Pool.prog?_set _ _ _ hlt
  refine ⟨?_, ?_, ?_, fun hnew => ?_, fun j p hp _ => ?_, fun j hj => ?_, ?_⟩
  · rw [hnext]
    exact hb.closed
  · rw [hnext]
    exact rfl
  · rw [hannounced, hnext]
    exact hb.published.trans (congrArg _ (List.append_nil _).symm)
  · cases hnew
  · rw [hprog] at hp
    by_cases hj : j = 0
    · rw [if_pos hj] at hp
      cases hp
      rw [owing, if_pos hj]
      exact howes
    · rw [if_neg hj] at hp
      rw [owing, if_neg hj]
      exact hb.owes j p hp (.inr hj)
  · rcases hj with ⟨hnew, -⟩ | hj
    · cases hnew
    · rw [hprog] at hj
      by_cases hj0 : j = 0
      · rw [if_pos hj0] at hj
        cases hj
      · rw [if_neg hj0] at hj
        rw [owing, if_neg hj0]
        exact hb.silent j (.inr hj)
  · obtain ⟨rest, hold, hnew⟩ :=
      range_flatMap_update owed (due topics h true s.world.provider.published) hlt
    rw [hb.silent 0 (.inl ⟨rfl, rfl⟩), List.nil_append] at hold
    -- nothing has been received or is owed before
    have hnone := (hold.append_left (received h s.world)).symm.trans hb.balance
    rw [hnext]
    show (received h s.world ++ (List.range (s.threads.set 0 _).length).flatMap _).Perm _
    rw [List.length_set]
    refine (hnew.append_left _).trans ((List.perm_append_comm_assoc _ _ _).trans ?_)
    rw [List.Perm.eq_nil hnone, List.append_nil]

theorem balance_reach (hopen : w.provider.closed = false) (hnew : Unknown h w)
    (hs : system.Reach (· = subscribing topics h w) (Publishing h) s) :
    ∃ new owed, Balance topics h w new owed s := by
  refine hs.invariant (P := fun s => ∃ new owed, Balance topics h w new owed s) ?_ ?_
  · rintro s rfl
    exact ⟨false, _, balance_init hopen hnew⟩
  · rintro s ev ⟨new, owed, hb⟩ hev
    cases ev with
    | start c =>
        obtain ⟨topic, event, rfl⟩ := hev
        exact ⟨new, owed, hb.start topic event⟩
    | step i e =>
        rcases Machine.step_cases (M := system) s i e with ⟨r, k, hk, -⟩ | heq
        · by_cases hi : new = true ∨ i ≠ 0
          · obtain ⟨l, hb'⟩ := hb.step hk hi hev
            exact ⟨new, _, hb'⟩
          · obtain ⟨hnew', rfl⟩ : new = false ∧ i = 0 := by
              rw [not_or, Bool.not_eq_true, not_not] at hi
              exact hi
            subst hnew'
            exact ⟨true, _, hb.subscribe⟩
        · rw [heq]
          exact ⟨new, owed, hb⟩
    | crash i => exact hev.elim
    | tick v => exact v.elim

end Run

/-- A provider that has not been closed delivers to a new handler once. -/
theorem deliversOnce_of_open (topics : List String) (h : Handler) (w : World)
    (hopen : w.provider.closed = false) (hnew : Unknown h w) : DeliversOnce topics h w := by
  intro s hs
  obtain ⟨new, owed, hb⟩ := balance_reach hopen hnew hs
  have hdue : (due topics h new s.world.provider.published).Subperm (wanted topics h s.world) := by
    cases new with
    | false => exact List.nil_subperm
    | true => exact (List.Perm.refl _).subperm
  refine ⟨hb.published, ?_, fun hdone => ?_⟩
  · exact (List.sublist_append_left _ _).subperm.trans (hb.balance.subperm.trans hdue)
  · have hnew' : new = true := by
      cases new with
      | true => rfl
      | false =>
          obtain ⟨a, ha⟩ := hdone 0 _ (hb.subscriber rfl)
          rw [subscribe_eq] at ha
          cases ha
    subst hnew'
    have howed : (List.range s.threads.length).flatMap owed = [] := by
      rw [List.flatMap_eq_nil_iff]
      intro i _
      cases hp : s.prog? i with
      | none => exact hb.silent i (.inr hp)
      | some p =>
          obtain ⟨a, rfl⟩ := hdone i p hp
          exact (hb.owes i _ hp (.inl rfl)).ret
    have hbalance := hb.balance
    rw [howed, List.append_nil] at hbalance
    exact hbalance

/-- An order event has been published, and is replayed beside a handler that there is. -/
theorem deliversOnce_of_open_orders :
    DeliversOnce ["orders"] .consumer
      { provider := { published := [("orders", {})], handlers := [⟨none, .other 0⟩] } } :=
  deliversOnce_of_open ["orders"] .consumer _ rfl
    ⟨fun r hr => by rw [List.mem_singleton.mp hr]; exact Handler.noConfusion,
      fun d hd => by cases hd⟩

/-- A provider that has been closed, with an event. -/
def closedWorld : World where
  provider := { published := [("orders", {})], closed := true }

/-- A closed provider refuses the subscription, and what it has published stays there. -/
theorem not_deliversOnce_closed :
    Unknown (.other 0) closedWorld ∧ ¬ DeliversOnce [] (.other 0) closedWorld := by
  refine ⟨⟨fun r hr => (by cases hr), fun d hd => (by cases hd)⟩, fun h => ?_⟩
  have hstart : system.Reach (· = subscribing [] (.other 0) closedWorld) (Publishing (.other 0))
      (subscribing [] (.other 0) closedWorld) := .init rfl
  have hcalm : Publishing (.other 0) (subscribing [] (.other 0) closedWorld) (.step 0 {}) :=
    fun _ _ _ => rfl
  obtain ⟨-, -, hquiet⟩ := h _ (hstart.step hcalm)
  have hdone : ∀ i p, (system.next (subscribing [] (.other 0) closedWorld) (.step 0 {})).prog? i =
      some p → ∃ a, p = .ret a := by
    intro i p hp
    cases i with
    | zero => exact ⟨_, (Option.some.inj hp).symm⟩
    | succ i => cases hp
  have hlen := (hquiet hdone).length_eq
  cases hlen

end BrokerBridge.Events
