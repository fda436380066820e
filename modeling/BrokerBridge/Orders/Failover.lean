import BrokerBridge.Orders.Desk

/-!
# The failover loop

What `_submit_inline` does over a chain of brokers, for every way the limiter and the
brokers can answer: an outcome for each broker it comes to, the rows it leaves, and how
it ends.
-/

namespace BrokerBridge

open Conc

/-! ## What the parts of the loop leave -/

/-- A desk with nothing pending. -/
def Desk.idle (B : Book) (es : List Asked) : Desk := ⟨B, B, true, es⟩

/-- The order moved to SUBMITTING at a broker. -/
def Order.taken (o : Order) (c : RouteCandidate) : Order :=
  { o with status := .submitting, brokerAccountId := some c.broker.id, staticIpId := c.staticIpId }

def Order.submittedAs (o : Order) (bo : BrokerOrderId) : Order :=
  { o with status := .submitted, brokerOrderId := some bo, errorCode := none }

def Order.failedWith (o : Order) (code : String) : Order :=
  { o with status := .failed, errorCode := some code }

/-- `order.submitted` -/
def Order.submission (o : Order) (c : RouteCandidate) (bo : BrokerOrderId) : EventPayload :=
  .orderSubmitted o.id o.clientId o.clientOrderId c.broker.id c.staticIpId
    o.side o.symbol o.quantity
    (some bo)

/-- The attempt as it is inserted. -/
def attemptRow (o : Order) (c : RouteCandidate) (n : Nat) (id : AttemptId) : OrderAttempt where
  id := id
  orderId := o.id
  attemptNo := n
  brokerAccountId := c.broker.id
  staticIpId := c.staticIpId
  requestPayload := orderPayload o c
  idempotencyKey := idemKey o c.broker.id

def OrderAttempt.submittedAs (a : OrderAttempt) (bo : BrokerOrderId) : OrderAttempt :=
  { a with status := .submitted, brokerOrderId := some bo }

def OrderAttempt.failedWith (a : OrderAttempt) (error : String) : OrderAttempt :=
  { a with status := .failed, error := some error }

/-- `config.exceed_policy`, as the limiter reads it. -/
def Book.policy (B : Book) : String := Text.upper (B.config.exceedPolicy.getD "REROUTE")

/-- The book with the failover from `c` to the first broker of `rest`, if there is one. -/
def Book.failsOver (B : Book) (o : Order) (c : RouteCandidate) (reason : String)
    (rest : List RouteCandidate) : Book :=
  { B with failovers := B.failovers ++ rest.head?.toList.map fun next =>
      ⟨o.id, c.broker.id, next.broker.id, reason⟩ }

/-- The same book with these attempts. -/
def Book.withAttempts (B : Book) (T : Table OrderAttempt) : Book := { B with attempts := T }

section Parts

variable {B : Book} {es : List Asked} {o : Order} {c : RouteCandidate}
  {R : Exn → Session → World × List Asked → Prop}

theorem putOrder_get (B : Book) (o : Order) : (B.putOrder o).orders o.id = some o.undated :=
  Function.update_self ..

/-- An attribute of the order that is put already. -/
theorem works_reassign {K : Book} {clean : Bool} {f : OrderField} {Q : Order → Desk → Prop}
    (h : Q (f.set o) ⟨K, B.putOrder (f.set o), false, es⟩) :
    Works ⟨K, B.putOrder o, clean, es⟩ (assign o f) Q R := by
  refine Works.assignOrder (putOrder_get B o) ?_
  have hbook : (B.putOrder o).putOrder (f.set o) = B.putOrder (f.set o) :=
    putOrder_putOrder _ _ (Row.key_set f o)
  rw [Desk.drafting, hbook]
  exact h

theorem works_failOrder (ho : B.orders o.id = some o.undated) (code : String) :
    Works (.idle B es) (failOrder o code)
      (fun _ dk => dk = .idle (B.putOrder (o.failedWith code)) es) R := by
  refine Works.bind (Works.assignOrder ho ?_)
  refine Works.bind (works_reassign ?_)
  exact Works.commit rfl

theorem works_failAttempt {as : List OrderAttempt} {a : OrderAttempt} (ha : B.Last as a)
    (error : String) :
    Works (.idle B es) (failAttempt a error)
      (fun _ dk => ∃ T, T.rows = as ++ [a.failedWith error] ∧
        dk = .idle (B.withAttempts T) es) R := by
  refine Works.bind (Works.assignAttempt ha ?_)
  have ha' := ha.set (.status .failed)
  refine Works.bind (Works.assignAttempt ha' ?_)
  refine Works.commit ⟨_, ha'.set (.error (some error)), rfl⟩

theorem works_recordFailover (reason : String) (rest : List RouteCandidate) :
    Works (.idle B es) (recordFailover o c reason rest)
      (fun _ dk => dk = .idle (B.failsOver o c reason rest) es) R := by
  cases rest with
  | nil =>
      refine Works.pure (congrArg (Desk.idle · es) ?_)
      rw [Book.failsOver, List.head?_nil, Option.toList_none, List.map_nil, List.append_nil]
  | cons next rest =>
      refine Works.bind (Works.stage (turns_addFailover _) ?_)
      exact Works.commit rfl

theorem works_exceedPolicy :
    Works (.idle B es) exceedPolicy (fun p dk => p = B.policy ∧ dk = .idle B es) R := by
  refine Works.bind (Works.execute (fun _ _ _ => rfl) fun e now d hd => ?_)
  refine Works.pure ⟨?_, rfl⟩
  have hconfig : d.config = B.config := congrArg Book.config hd
  show Text.upper (d.config.exceedPolicy.getD "REROUTE") = B.policy
  rw [hconfig, Book.policy]

/-- An attempt that is stored is read back. -/
theorem eval_attempt {d : Db} {a : OrderAttempt} (h : d.attempts.get? a.id = some a) (e : Env)
    (now : Instant) :
    Query.eval e now d (.attempt a.orderId a.id) = some ⟨a, rfl, rfl⟩ := by
  have hlook : d.attempts.lookup a.id = some ⟨a, rfl⟩ := Table.lookup_eq_some.mpr h
  simp [Query.eval, hlook]

theorem works_openAttempt (ho : B.orders o.id = some o.undated) (n : Nat) :
    Works (.idle B es) (openAttempt o c n)
      (fun x dk => ∃ id T, T.rows = B.attempts.rows ++ [attemptRow o c n id] ∧
        x = (o.taken c, attemptRow o c n id) ∧
        dk = .idle ((B.putOrder (o.taken c)).withAttempts T) es) R := by
  refine Works.bind (Works.newId fun id hid => ?_)
  refine Works.bind (Works.stage (turns_addAttempt hid) ?_)
  refine Works.bind (Works.assignOrder ho ?_)
  refine Works.bind (works_reassign ?_)
  refine Works.bind (works_reassign ?_)
  refine Works.bind (Works.commit ?_)
  refine Works.bind (Works.execute (fun _ _ _ => rfl) fun e now d hd => ?_)
  have hstored : d.attempts.get? id = some (attemptRow o c n id) := by
    rw [show d.attempts = B.attempts.insert (attemptRow o c n id) from congrArg Book.attempts hd]
    exact Table.get?_insert_self hid
  have hread : Query.eval e now d (.attempt o.id id) = some ⟨attemptRow o c n id, rfl, rfl⟩ :=
    eval_attempt (a := attemptRow o c n id) hstored e now
  have hrefreshed : refreshed (Query.eval e now d (.attempt o.id id)) =
      pure ⟨attemptRow o c n id, rfl, rfl⟩ := congrArg refreshed hread
  refine Works.bind ?_
  refine (congrArg (fun t => Works _ t _ R) hrefreshed).mpr ?_
  exact Works.pure (Works.pure ⟨id, B.attempts.insert (attemptRow o c n id),
    Table.rows_insert hid, rfl, rfl⟩)

theorem works_recordSubmitted {as : List OrderAttempt} {a : OrderAttempt} (ha : B.Last as a)
    (ho : B.orders o.id = some o.undated) (bo : BrokerOrderId) :
    Works (.idle B es) (recordSubmitted o a c bo)
      (fun _ dk => ∃ T, T.rows = as ++ [a.submittedAs bo] ∧
        dk = .idle (((B.putOrder (o.submittedAs bo)).withAttempts T).announce
          (o.submission c bo)) es)
      R := by
  refine Works.bind (Works.assignAttempt ha ?_)
  have ha' := ha.set (.status .submitted)
  refine Works.bind (Works.assignAttempt ha' ?_)
  have ha'' := ha'.set (.brokerOrderId (some bo))
  refine Works.bind (Works.assignOrder ho ?_)
  refine Works.bind (works_reassign ?_)
  refine Works.bind (works_reassign ?_)
  refine Works.bind (Works.stage (turns_enqueue _) ?_)
  exact Works.commit ⟨_, ha'', rfl⟩

end Parts

/-! ## Outcomes -/

/-- What came of trying a broker: the limiter refused it, or it answered an attempt. -/
inductive Tried where
  | limited
  | answered (attempt : AttemptId) (x : Except Exn BrokerOrderId)

/-- What the loop remembers of an exception of `place_order`. -/
def errorOf : Exn → LastError
  | .broker code message _ _ => ⟨message, code⟩
  | e => ⟨e.str, "BROKER_ERROR"⟩

/-- The exception that ends the chain, and the code the order is left with. An empty text
counts as none. -/
def exhausted (last : Option LastError) : Exn × String :=
  (.app "FAILOVER_EXHAUSTED"
    (orDefault (last.map (·.error)) "All brokers in failover chain failed") 502,
   orDefault (last.map (·.code)) "FAILOVER_EXHAUSTED")

namespace Tried

def accepted? : Tried → Option BrokerOrderId
  | .answered _ (.ok bo) => some bo
  | _ => none

def why : Tried → Option LastError
  | .limited => some ⟨"rate limited", "RATE_LIMITED"⟩
  | .answered _ (.ok _) => none
  | .answered _ (.error e) => some (errorOf e)

/-- The loop goes no further: an acceptance, an error that is not retried, a refusal under
REJECT. -/
def stops (policy : String) : Tried → Bool
  | .limited => policy = "REJECT"
  | .answered _ (.ok _) => true
  | .answered _ (.error (.broker _ _ _ retryable)) => !retryable
  | .answered _ (.error _) => false

/-- The exception of a submission that ends with it, and the order's error code. -/
def failure (policy : String) (out : Tried) : Exn × String :=
  match out with
  | .limited =>
      if policy = "REJECT" then
        (.app "RATE_LIMITED" "Broker rate limit exceeded" 429, "RATE_LIMITED")
      else exhausted out.why
  | .answered _ (.error (.broker code message _ false)) => (.app code message 400, code)
  | _ => exhausted out.why

/-- What the limiter and the broker were asked. -/
def asked (o : Order) (c : RouteCandidate) : Tried → List Asked
  | .limited => [.consumed c.broker.id false]
  | .answered _ x => [.consumed c.broker.id true, .placed (orderPayload o c) x]

/-- The attempt it leaves: one for each `place_order`. -/
def attempt? (o : Order) (c : RouteCandidate) (n : Nat) : Tried → Option OrderAttempt
  | .limited => none
  | .answered id (.ok bo) => some ((attemptRow o c n id).submittedAs bo)
  | .answered id (.error e) => some ((attemptRow o c n id).failedWith (errorOf e).error)

end Tried

/-- The outcomes of a chain, in its order, up to the first one that stops the loop. -/
structure Course (policy : String) (chain : List RouteCandidate) (outs : List Tried) : Prop where
  length_le : outs.length ≤ chain.length
  goes_on : ∀ out ∈ outs.dropLast, out.stops policy = false
  stops : outs.length < chain.length → ∃ out ∈ outs.getLast?, out.stops policy = true

def askedOf (o : Order) (chain : List RouteCandidate) (outs : List Tried) : List Asked :=
  (chain.zip outs).flatMap fun p => p.2.asked o p.1

/-- The attempts, numbered by the place of their broker in the chain. -/
def attemptsFrom (o : Order) (n : Nat) (chain : List RouteCandidate) (outs : List Tried) :
    List OrderAttempt :=
  ((chain.zip outs).zipIdx n).filterMap fun p => p.1.2.attempt? o p.1.1 p.2

def failoverEvent (o : Order) (c : RouteCandidate) (out : Tried) (next : RouteCandidate) :
    FailoverEvent :=
  ⟨o.id, c.broker.id, next.broker.id, (out.why.map (·.code)).getD ""⟩

/-- One failover for each move to the next broker of the chain. -/
def failoversOf (o : Order) (chain : List RouteCandidate) (outs : List Tried) :
    List FailoverEvent :=
  ((chain.zip outs).dropLast.zip chain.tail).map fun p => failoverEvent o p.1.1 p.1.2 p.2

/-- How a submission fails; `last` is the error before the first of the outcomes. -/
def failureOf (policy : String) (last : Option LastError) (outs : List Tried) : Exn × String :=
  match outs.getLast? with
  | some out => out.failure policy
  | none => exhausted last

section Courses

variable {policy : String} {c : RouteCandidate} {rest : List RouteCandidate} {out : Tried}
  {outs : List Tried}

theorem Course.nil : Course policy [] [] := ⟨Nat.le_refl 0, nofun, nofun⟩

theorem Course.single (h : out.stops policy = true) : Course policy (c :: rest) [out] :=
  ⟨Nat.succ_le_succ (Nat.zero_le _), nofun, fun _ => ⟨out, rfl, h⟩⟩

theorem Course.cons (h : Course policy rest outs) (hout : out.stops policy = false) :
    Course policy (c :: rest) (out :: outs) := by
  refine ⟨Nat.succ_le_succ h.length_le, ?_, fun hlt => ?_⟩
  · cases outs with
    | nil => exact nofun
    | cons out' outs =>
        intro x hx
        rcases List.mem_cons.mp hx with rfl | hx
        · exact hout
        · exact h.goes_on x hx
  · obtain ⟨x, hx, hstops⟩ := h.stops (Nat.lt_of_succ_lt_succ hlt)
    cases outs with
    | nil => cases hx
    | cons out' outs => exact ⟨x, hx, hstops⟩

theorem Course.ne_nil (h : Course policy (c :: rest) outs) : outs ≠ [] := by
  rintro rfl
  obtain ⟨x, hx, _⟩ := h.stops (Nat.succ_pos _)
  cases hx

theorem failureOf_cons (hout : out.stops policy = false) (last : Option LastError) :
    failureOf policy last (out :: outs) = failureOf policy out.why outs := by
  cases outs with
  | cons out' outs => rfl
  | nil =>
      show out.failure policy = exhausted out.why
      match out with
      | .limited => exact if_neg (of_decide_eq_false hout)
      | .answered _ (.ok _) => cases hout
      | .answered _ (.error (.broker _ _ _ true)) => rfl
      | .answered _ (.error (.broker _ _ _ false)) => cases hout
      | .answered _ (.error (.app ..)) => rfl
      | .answered _ (.error (.infra ..)) => rfl
      | .answered _ (.error .integrity) => rfl
      | .answered _ (.error .redisUnavailable) => rfl
      | .answered _ (.error (.other _)) => rfl
      | .answered _ (.error .cancelled) => rfl

end Courses

/-- The rows that `n, n + 1, …` the attempts on `chain` leave, and how the submission ends,
with `x`. -/
structure Concludes (o : Order) (n : Nat) (last : Option LastError) (chain : List RouteCandidate)
    (outs : List Tried) (B : Book) (x : Except Exn Unit) (B' : Book) : Prop where
  attempts : B'.attempts.rows = B.attempts.rows ++ attemptsFrom o n chain outs
  failovers : B'.failovers = B.failovers ++ failoversOf o chain outs
  others : ∀ i, i ≠ o.id → B'.orders i = B.orders i
  accepted : ∀ c a bo, (c, .answered a (.ok bo)) ∈ chain.zip outs →
    x = .ok () ∧ B'.orders o.id = some ((o.taken c).submittedAs bo).undated ∧
    B'.outbox = B.outbox ++ [{ payload := o.submission c bo }]
  failed : (∀ out ∈ outs, out.accepted? = none) →
    x = .error (failureOf B.policy last outs).1 ∧
    (∃ r, B'.orders o.id = some r ∧ r.status = .failed ∧
      r.errorCode = some (failureOf B.policy last outs).2) ∧
    B'.outbox = B.outbox

/-- What one more broker leaves, of the order `o` and in the order of the chain. -/
structure Leaves (o : Order) (n : Nat) (c : RouteCandidate) (rest : List RouteCandidate)
    (out : Tried) (B B' : Book) : Prop where
  attempts : B'.attempts.rows = B.attempts.rows ++ (out.attempt? o c n).toList
  failovers : B'.failovers = B.failovers ++ rest.head?.toList.map (failoverEvent o c out)
  others : ∀ i, i ≠ o.id → B'.orders i = B.orders i
  outbox : B'.outbox = B.outbox
  config : B'.config = B.config

section Composing

variable {o : Order} {n : Nat} {last : Option LastError} {c : RouteCandidate}
  {rest : List RouteCandidate} {out : Tried} {outs : List Tried} {B B₁ B' : Book}
  {x : Except Exn Unit}

theorem attemptsFrom_cons : attemptsFrom o n (c :: rest) (out :: outs) =
    (out.attempt? o c n).toList ++ attemptsFrom o (n + 1) rest outs := by
  rw [attemptsFrom, List.zip_cons_cons, List.zipIdx_cons, List.filterMap_cons]
  cases h : out.attempt? o c n with
  | none => rfl
  | some a => rfl

theorem failoversOf_cons (h : Course B.policy rest outs) :
    failoversOf o (c :: rest) (out :: outs) =
      rest.head?.toList.map (failoverEvent o c out) ++ failoversOf o rest outs := by
  match rest, outs, h with
  | [], [], _ => rfl
  | [], _ :: _, h => exact absurd h.length_le (Nat.not_succ_le_zero _)
  | _ :: _, [], h => exact absurd rfl h.ne_nil
  | _ :: _, _ :: _, _ => rfl

/-! The rows do not depend on where the order was before. -/

theorem attempt?_taken (out : Tried) (c' : RouteCandidate) (m : Nat) :
    out.attempt? (o.taken c) c' m = out.attempt? o c' m := by
  match out with
  | .limited => rfl
  | .answered _ (.ok _) => rfl
  | .answered _ (.error _) => rfl

theorem asked_taken (out : Tried) (c' : RouteCandidate) :
    out.asked (o.taken c) c' = out.asked o c' := by
  cases out <;> rfl

theorem attemptsFrom_taken : attemptsFrom (o.taken c) n rest outs = attemptsFrom o n rest outs := by
  simp only [attemptsFrom, attempt?_taken]

theorem askedOf_taken : askedOf (o.taken c) rest outs = askedOf o rest outs := by
  simp only [askedOf, asked_taken]

theorem Concludes.of_taken (h : Concludes (o.taken c) n last rest outs B x B') :
    Concludes o n last rest outs B x B' :=
  ⟨h.attempts.trans (congrArg _ attemptsFrom_taken), h.failovers, h.others, h.accepted, h.failed⟩

/-- The rest of the chain, after a broker that does not stop the loop. -/
theorem Concludes.cons (h : Concludes o (n + 1) out.why rest outs B₁ x B')
    (hcourse : Course B.policy rest outs) (hout : out.stops B.policy = false)
    (hleaves : Leaves o n c rest out B B₁) :
    Concludes o n last (c :: rest) (out :: outs) B x B' := by
  have hpolicy : B₁.policy = B.policy := by rw [Book.policy, hleaves.config, Book.policy]
  refine ⟨?_, ?_, fun i hi => (h.others i hi).trans (hleaves.others i hi), ?_, ?_⟩
  · rw [h.attempts, hleaves.attempts, attemptsFrom_cons, List.append_assoc]
  · rw [h.failovers, hleaves.failovers, failoversOf_cons hcourse, List.append_assoc]
  · intro c' a bo hmem
    rcases List.mem_cons.mp hmem with heq | hmem
    · obtain ⟨-, rfl⟩ := Prod.mk.inj heq
      cases hout
    · have hacc := h.accepted c' a bo hmem
      rw [hleaves.outbox] at hacc
      exact hacc
  · intro hnone
    have hfailed := h.failed fun out' hout' => hnone out' (List.mem_cons_of_mem _ hout')
    rw [hpolicy, hleaves.outbox] at hfailed
    rw [failureOf_cons hout]
    exact hfailed

end Composing

/-! ## The loop -/

/-- One course of outcomes accounts for what a submission leaves and what it asked. -/
def Ends (o : Order) (n : Nat) (last : Option LastError) (chain : List RouteCandidate) (B : Book)
    (es : List Asked) (x : Except Exn Unit) (B' : Book) (es' : List Asked) : Prop :=
  ∃ outs, Course B.policy chain outs ∧ Concludes o n last chain outs B x B' ∧
    es' = es ++ askedOf o chain outs

section Loop

variable {o : Order} {n : Nat} {last : Option LastError} {c : RouteCandidate}
  {rest chain : List RouteCandidate} {out : Tried} {B B₁ B' : Book} {es es' : List Asked}
  {x : Except Exn Unit} {held : List BrokerAccount}
  {R : Exn → Session → World × List Asked → Prop}

theorem Ends.cons (h : Ends o (n + 1) out.why rest B₁ (es ++ out.asked o c) x B' es')
    (hout : out.stops B.policy = false) (hleaves : Leaves o n c rest out B B₁) :
    Ends o n last (c :: rest) B es x B' es' := by
  obtain ⟨outs, hcourse, hconcludes, hasked⟩ := h
  have hpolicy : B₁.policy = B.policy := by rw [Book.policy, hleaves.config, Book.policy]
  rw [hpolicy] at hcourse
  refine ⟨out :: outs, hcourse.cons hout, hconcludes.cons hcourse hout hleaves, ?_⟩
  rw [hasked, List.append_assoc]
  rfl

theorem Ends.of_taken (h : Ends (o.taken c) n last rest B es x B' es') :
    Ends o n last rest B es x B' es' := by
  obtain ⟨outs, hcourse, hconcludes, hasked⟩ := h
  exact ⟨outs, hcourse, hconcludes.of_taken, hasked.trans (congrArg _ askedOf_taken)⟩

/-- The loop stops at this broker. -/
theorem Ends.single (hstops : out.stops B.policy = true)
    (hattempts : B'.attempts.rows = B.attempts.rows ++ (out.attempt? o c n).toList)
    (hfailovers : B'.failovers = B.failovers) (hothers : ∀ i, i ≠ o.id → B'.orders i = B.orders i)
    (haccepted : ∀ a bo, out = .answered a (.ok bo) →
      x = .ok () ∧ B'.orders o.id = some ((o.taken c).submittedAs bo).undated ∧
      B'.outbox = B.outbox ++ [{ payload := o.submission c bo }])
    (hfailed : out.accepted? = none → x = .error (out.failure B.policy).1 ∧
      (∃ r, B'.orders o.id = some r ∧ r.status = .failed ∧
        r.errorCode = some (out.failure B.policy).2) ∧ B'.outbox = B.outbox) :
    Ends o n last (c :: rest) B es x B' (es ++ out.asked o c) := by
  have hzip : (c :: rest).zip [out] = [(c, out)] := by rw [List.zip_cons_cons, List.zip_nil_right]
  refine ⟨[out], .single hstops, ⟨?_, ?_, hothers, ?_, ?_⟩, ?_⟩
  · rw [hattempts, attemptsFrom_cons, attemptsFrom, List.zip_nil_right]
    exact congrArg _ (List.append_nil _).symm
  · rw [hfailovers, failoversOf, hzip]
    exact (List.append_nil _).symm
  · intro c' a bo hmem
    rw [hzip] at hmem
    obtain ⟨rfl, heq⟩ := Prod.mk.inj (List.mem_singleton.mp hmem)
    exact haccepted a bo heq.symm
  · exact fun hnone => hfailed (hnone out (List.mem_singleton_self out))
  · rw [askedOf, hzip]
    exact congrArg _ (List.append_nil _).symm

theorem failedWith_get (B : Book) (o : Order) (code : String) :
    ∃ r, (B.putOrder (o.failedWith code)).orders o.id = some r ∧ r.status = .failed ∧
      r.errorCode = some code :=
  ⟨_, putOrder_get B (o.failedWith code), rfl, rfl⟩

theorem putOrder_of_ne (B : Book) (o : Order) {i : OrderId} (hi : i ≠ o.id) :
    (B.putOrder o).orders i = B.orders i :=
  Function.update_of_ne hi ..

theorem works_failoverExhausted (ho : B.orders o.id = some o.undated) :
    Works (.idle B es) (failoverExhausted o last) (fun _ _ => False)
      fun e _ v => Ends o n last [] B es (.error e) v.1.db.book v.2 := by
  refine Works.bind ((works_failOrder ho _).mono ?_ fun _ _ _ => id)
  rintro _ _ rfl
  refine Works.raise fun s v hs => ⟨[], .nil, ⟨?_, ?_, ?_, nofun, fun _ => ⟨rfl, ?_, ?_⟩⟩, ?_⟩
  all_goals first | rw [hs.kept] | rw [hs.asked]
  · exact (List.append_nil _).symm
  · exact (List.append_nil _).symm
  · exact fun i hi => putOrder_of_ne B (o.failedWith _) hi
  · exact failedWith_get B o _
  · rfl
  · exact (List.append_nil _).symm

/-- A broker over its limit: the order is rejected, or the next broker is tried. -/
theorem works_rateLimited (ho : B.orders o.id = some o.undated) :
    Works (.idle B (es ++ Tried.limited.asked o c)) (rateLimited o c rest)
      (fun why dk => Tried.limited.why = some why ∧ Tried.limited.stops B.policy = false ∧
        ∃ B₁, Leaves o n c rest .limited B B₁ ∧ B₁.orders = B.orders ∧
          dk = .idle B₁ (es ++ Tried.limited.asked o c))
      fun e _ v => Ends o n last (c :: rest) B es (.error e) v.1.db.book v.2 := by
  refine Works.bind (works_exceedPolicy.mono ?_ fun _ _ _ => id)
  rintro policy _ ⟨rfl, rfl⟩
  split
  · next hpolicy =>
      refine Works.bind ((works_failOrder ho _).mono ?_ fun _ _ _ => id)
      rintro _ _ rfl
      refine Works.raise fun s v hs => ?_
      rw [hs.kept, hs.asked]
      have hfailure : Tried.limited.failure B.policy =
          (.app "RATE_LIMITED" "Broker rate limit exceeded" 429, "RATE_LIMITED") := if_pos hpolicy
      refine Ends.single (decide_eq_true hpolicy) (List.append_nil _).symm rfl
        (fun i hi => putOrder_of_ne B _ hi) nofun fun _ => ?_
      rw [hfailure]
      exact ⟨rfl, failedWith_get B o _, rfl⟩
  · next hpolicy =>
      refine Works.bind ((works_recordFailover _ _).mono ?_ fun _ _ _ => id)
      rintro _ _ rfl
      refine Works.pure ⟨rfl, decide_eq_false hpolicy, B.failsOver o c "RATE_LIMITED" rest, ?_, rfl,
        rfl⟩
      exact ⟨(List.append_nil _).symm, rfl, fun _ _ => rfl, rfl, rfl⟩

/-- The `try`: the attempt is marked, and the order when that ends the loop. -/
theorem works_trySubmit {T : Table OrderAttempt} {as : List OrderAttempt} {a : AttemptId}
    (hT : T.rows = as ++ [attemptRow o c n a]) (ho : B.orders o.id = some o.undated) :
    Works (.idle (B.withAttempts T) es) (trySubmit o (attemptRow o c n a) c)
      (fun r dk => ∃ x T', T'.rows = as ++ ((Tried.answered a x).attempt? o c n).toList ∧
        r = (Tried.answered a x).why ∧
        match x with
        | .ok bo => dk = .idle (((B.putOrder (o.submittedAs bo)).withAttempts T').announce
            (o.submission c bo)) (es ++ [.placed (orderPayload o c) x])
        | .error _ => (∀ policy, (Tried.answered a x).stops policy = false) ∧
            dk = .idle (B.withAttempts T') (es ++ [.placed (orderPayload o c) x]))
      fun e _ v => ∃ code message status T',
        T'.rows = as ++ [(attemptRow o c n a).failedWith message] ∧
        e = .app code message 400 ∧
        v.1.db.book = (B.putOrder (o.failedWith code)).withAttempts T' ∧
        v.2 = es ++ [.placed (orderPayload o c) (.error (.broker code message status false))] := by
  have hlast : (B.withAttempts T).Last as (attemptRow o c n a) := hT
  refine Works.catching (Works.bind (Works.placeOrder fun x hx => ?_))
  cases x with
  | ok bo =>
      refine Works.bind (Works.pure (Works.bind ?_))
      refine (works_recordSubmitted hlast ho bo).mono ?_ fun _ _ _ => id
      rintro _ _ ⟨T', hrows, rfl⟩
      exact Works.pure ⟨.ok bo, T', hrows, rfl, rfl⟩
  | error e =>
      refine Works.bind (Works.raise fun s v hs => ⟨_, hs, ?_⟩)
      cases e with
      | broker code message status retryable =>
          refine Works.bind ((works_failAttempt hlast message).mono ?_ fun _ _ _ => id)
          rintro _ _ ⟨T', hrows, rfl⟩
          cases retryable with
          | true =>
              exact Works.pure ⟨.error (.broker code message status true), T', hrows, rfl,
                fun _ => rfl, rfl⟩
          | false =>
              refine Works.bind ((works_failOrder (B := B.withAttempts T') ho code).mono ?_
                fun _ _ _ => id)
              rintro _ _ rfl
              refine Works.raise fun s v hs => ⟨code, message, status, T', hrows, rfl, ?_, hs.asked⟩
              exact hs.kept
      | other message =>
          refine Works.bind ((works_failAttempt hlast _).mono ?_ fun _ _ _ => id)
          rintro _ _ ⟨T', hrows, rfl⟩
          exact Works.pure ⟨.error (.other message), T', hrows, rfl, fun _ => rfl, rfl⟩
      | app | infra | integrity | redisUnavailable | cancelled => exact hx.elim

/-- How the loop raises: its outcomes account for it, unless a session was refused. -/
def Fails (o : Order) (n : Nat) (last : Option LastError) (chain : List RouteCandidate) (B : Book)
    (es : List Asked) (e : Exn) (_ : Session) (v : World × List Asked) : Prop :=
  Ends o n last chain B es (.error e) v.1.db.book v.2 ∨ .refused ∈ v.2

theorem Fails.cons {e : Exn} {s : Session} {v : World × List Asked}
    (h : Fails o (n + 1) out.why rest B₁ (es ++ out.asked o c) e s v)
    (hout : out.stops B.policy = false) (hleaves : Leaves o n c rest out B B₁) :
    Fails o n last (c :: rest) B es e s v :=
  h.imp_left fun hends => hends.cons hout hleaves

theorem Fails.of_taken {e : Exn} {s : Session} {v : World × List Asked}
    (h : Fails (o.taken c) n last rest B es e s v) : Fails o n last rest B es e s v :=
  h.imp_left Ends.of_taken

/-- An attempt that did not stop the loop, with its failover. -/
theorem leaves_answered {T : Table OrderAttempt} {why : LastError}
    (hT : T.rows = B.attempts.rows ++ (out.attempt? o c n).toList) (hwhy : out.why = some why) :
    Leaves o n c rest out B
      (((B.putOrder (o.taken c)).withAttempts T).failsOver (o.taken c) c why.code rest) := by
  refine ⟨hT, ?_, fun i hi => putOrder_of_ne B (o.taken c) hi, rfl, rfl⟩
  have hcode : (out.why.map (·.code)).getD "" = why.code := by rw [hwhy]; rfl
  refine congrArg (B.failovers ++ ·) (List.map_congr_left fun next _ => ?_)
  rw [failoverEvent, hcode]
  rfl

theorem taken_others (B : Book) (o o' : Order) (c : RouteCandidate) (ho' : o'.id = o.id)
    (i : OrderId) (hi : i ≠ o.id) :
    ((B.putOrder (o.taken c)).putOrder o').orders i = B.orders i :=
  (putOrder_of_ne _ o' (ho' ▸ hi)).trans (putOrder_of_ne B (o.taken c) hi)

theorem ends_accepted {T : Table OrderAttempt} {a : AttemptId} {bo : BrokerOrderId}
    (hT : T.rows = B.attempts.rows ++ ((Tried.answered a (.ok bo)).attempt? o c n).toList) :
    Ends o n last (c :: rest) B es (.ok ())
      ((((B.putOrder (o.taken c)).putOrder ((o.taken c).submittedAs bo)).withAttempts T).announce
        (o.submission c bo)) (es ++ (Tried.answered a (.ok bo)).asked o c) := by
  have hothers := taken_others B o ((o.taken c).submittedAs bo) c rfl
  refine Ends.single rfl hT rfl hothers ?_ nofun
  rintro _ _ ⟨⟩
  exact ⟨rfl, putOrder_get (B.putOrder (o.taken c)) ((o.taken c).submittedAs bo), rfl⟩

theorem ends_refused {T : Table OrderAttempt} {a : AttemptId} {code message : String} {status : Nat}
    (hT : T.rows = B.attempts.rows ++
      ((Tried.answered a (.error (.broker code message status false))).attempt? o c n).toList) :
    Ends o n last (c :: rest) B es (.error (.app code message 400))
      (((B.putOrder (o.taken c)).putOrder ((o.taken c).failedWith code)).withAttempts T)
      (es ++ (Tried.answered a (.error (.broker code message status false))).asked o c) := by
  have hothers := taken_others B o ((o.taken c).failedWith code) c rfl
  refine Ends.single rfl hT rfl hothers nofun fun _ => ⟨rfl, ?_, rfl⟩
  exact failedWith_get (B.putOrder (o.taken c)) (o.taken c) code

/-- From the opened attempt on, when the rest of the chain is known to end so. -/
theorem works_attempt (ho : B.orders o.id = some o.undated)
    (ih : ∀ {o : Order} {n : Nat} {last : Option LastError} {B : Book} {es : List Asked},
      B.orders o.id = some o.undated → Works (.idle B es) (submitChain held o n last rest)
        (fun _ dk => Ends o n last rest B es (.ok ()) dk.kept dk.asked)
        (Fails o n last rest B es)) :
    Works (.idle B (es ++ [.consumed c.broker.id true]))
      (do
        let (order, attempt) ← openAttempt o c n
        match ← trySubmit order attempt c with
        | none => pure ()
        | some why =>
            recordFailover order c why.code rest
            submitChain held order (n + 1) (some why) rest)
      (fun _ dk => Ends o n last (c :: rest) B es (.ok ()) dk.kept dk.asked)
      (Fails o n last (c :: rest) B es) := by
  refine Works.bind ((works_openAttempt ho n).mono ?_ fun _ _ _ => id)
  rintro _ _ ⟨a, T, hT, rfl, rfl⟩
  have htaken : (B.putOrder (o.taken c)).orders (o.taken c).id = some (o.taken c).undated :=
    putOrder_get B (o.taken c)
  have hasked : ∀ x, es ++ [.consumed c.broker.id true] ++
    [.placed (orderPayload (o.taken c) c) x] =
      es ++ (Tried.answered a x).asked o c := fun x => List.append_assoc es _ _
  have htry : Works (.idle ((B.putOrder (o.taken c)).withAttempts T)
    (es ++ [.consumed c.broker.id true]))
      (trySubmit (o.taken c) (attemptRow (o.taken c) c n a) c) _ _ := works_trySubmit hT htaken
  simp only [attempt?_taken, hasked] at htry
  refine Works.bind (htry.mono ?_ ?_)
  · rintro _ _ ⟨x, T', hT', rfl, hx⟩
    cases x with
    | ok bo =>
        subst hx
        exact Works.pure (ends_accepted hT')
    | error e =>
        obtain ⟨hstops, rfl⟩ := hx
        refine Works.bind ((works_recordFailover _ _).mono ?_ fun _ _ _ => id)
        rintro _ _ rfl
        have hleaves : Leaves o n c rest (.answered a (.error e)) _ _ := leaves_answered hT' rfl
        have hrest : (((B.putOrder (o.taken c)).withAttempts T').failsOver (o.taken c) c
            (errorOf e).code rest).orders (o.taken c).id = some (o.taken c).undated := htaken
        refine (ih hrest).mono (fun _ _ h => ?_) fun _ _ _ h => ?_
        · exact h.of_taken.cons (hstops _) hleaves
        · exact h.of_taken.cons (hstops _) hleaves
  · rintro e s v ⟨code, message, status, T', hT', rfl, hbook, hplaced⟩
    rw [Fails, hbook, hplaced]
    exact .inl (ends_refused hT')

/-- By induction on the chain; the order and the error are those of the broker before. -/
theorem works_submitChain (henabled : ∀ b ∈ held, b.enabled = true)
    (hheld : ∀ c ∈ chain, c.broker ∈ held) (ho : B.orders o.id = some o.undated) :
    Works (.idle B es) (submitChain held o n last chain)
      (fun _ dk => Ends o n last chain B es (.ok ()) dk.kept dk.asked)
      (Fails o n last chain B es) := by
  induction chain generalizing o n last B es with
  | nil =>
      refine (works_failoverExhausted ho).mono (fun _ _ h => h.elim) fun _ _ _ h => .inl h
  | cons c rest ih =>
      have hrest : ∀ c' ∈ rest, c'.broker ∈ held := fun c' hc' =>
        hheld c' (List.mem_cons_of_mem _ hc')
      refine Works.bind (Works.rateConsume fun rl => ?_)
      split
      · next hrl =>
          have hasked : (Desk.idle B es).hears (.consumed c.broker.id rl.allowed) =
              .idle B (es ++ Tried.limited.asked o c) := by
            rw [Bool.not_eq_true'] at hrl
            rw [hrl]
            rfl
          rw [hasked]
          refine Works.bind ((works_rateLimited ho).mono ?_ fun _ _ _ h => .inl h)
          rintro why _ ⟨hwhy, hstops, B₁, hleaves, horders, rfl⟩
          have ho₁ : B₁.orders o.id = some o.undated := by rw [horders, ho]
          refine (ih hrest ho₁).mono (fun _ _ h => ?_) fun e s v h => ?_
          · rw [← hwhy] at h
            exact h.cons hstops hleaves
          · rw [← hwhy] at h
            exact h.cons hstops hleaves
      · next hrl =>
          have hallowed : rl.allowed = true := by
            rw [Bool.not_eq_true', Bool.not_eq_false] at hrl
            exact hrl
          rw [hallowed]
          have hmem : ∃ row ∈ held, row.id = c.broker.id := ⟨_, hheld c List.mem_cons_self, rfl⟩
          refine Works.bind ((works_ensure rfl hmem henabled).mono ?_ fun _ _ _ h => .inr h)
          rintro _ _ rfl
          exact works_attempt ho (ih hrest)

end Loop

/-! ## The submission -/

/-- A submission of `o` over `chain` that began with the book `B` and came to these outcomes:
what it returns or raises, what it leaves, and what it asked. -/
structure SubmitsInOrder (o : Order) (chain : List RouteCandidate) (outs : List Tried) (B : Book)
    (x : Except Exn Unit) (B' : Book) (es : List Asked) : Prop where
  course : Course B.policy chain outs
  once : ((chain.zip outs).map (·.1.broker.id)).Nodup
  asked : es = askedOf o chain outs
  attempts : B'.attempts.rows = B.attempts.rows ++ attemptsFrom o 1 chain outs
  failovers : B'.failovers = B.failovers ++ failoversOf o chain outs
  others : ∀ i, i ≠ o.id → B'.orders i = B.orders i
  accepted : ∀ c a bo, (c, .answered a (.ok bo)) ∈ chain.zip outs →
    x = .ok () ∧ B'.orders o.id = some ((o.taken c).submittedAs bo).undated ∧
    B'.outbox = B.outbox ++ [{ payload := o.submission c bo }]
  failed : (∀ out ∈ outs, out.accepted? = none) →
    (∃ code message status, x = .error (.app code message status)) ∧
    (∃ r why, B'.orders o.id = some r ∧ outs.getLast?.bind Tried.why = some why ∧
      r.status = .failed ∧ (why.code ≠ "" → r.errorCode = some why.code)) ∧
    B'.outbox = B.outbox

theorem failure_app (policy : String) (out : Tried) :
    ∃ code message status, (out.failure policy).1 = .app code message status := by
  unfold Tried.failure
  split
  · split
    · exact ⟨_, _, _, rfl⟩
    · exact ⟨_, _, _, rfl⟩
  · exact ⟨_, _, _, rfl⟩
  · exact ⟨_, _, _, rfl⟩

theorem failure_code (policy : String) {out : Tried} {why : LastError} (h : out.why = some why)
    (hcode : why.code ≠ "") : (out.failure policy).2 = why.code := by
  have hexhausted : (exhausted out.why).2 = why.code := by
    rw [h]
    exact if_neg hcode
  unfold Tried.failure
  split
  · split
    · exact congrArg LastError.code (Option.some.inj h)
    · exact hexhausted
  · exact congrArg LastError.code (Option.some.inj h)
  · exact hexhausted

theorem why_of_not_accepted {out : Tried} (h : out.accepted? = none) :
    ∃ why, out.why = some why := by
  match out, h with
  | .limited, _ => exact ⟨_, rfl⟩
  | .answered _ (.error _), _ => exact ⟨_, rfl⟩

theorem map_fst_zip_sublist {α β : Type} (l : List α) (m : List β) :
    ((l.zip m).map Prod.fst).Sublist l := by
  induction l generalizing m with
  | nil => rw [List.zip_nil_left, List.map_nil]
  | cons a l ih =>
      cases m with
      | nil => exact List.nil_sublist _
      | cons b m => exact (ih m).cons_cons a

theorem Ends.submits {o : Order} {chain : List RouteCandidate} {B B' : Book} {x : Except Exn Unit}
    {es : List Asked} (hchain : chain ≠ []) (hdistinct : (chain.map (·.broker.id)).Nodup)
    (h : Ends o 1 none chain B [] x B' es) : ∃ outs, SubmitsInOrder o chain outs B x B' es := by
  obtain ⟨outs, hcourse, hc, hasked⟩ := h
  refine ⟨outs, hcourse, ?_, hasked, hc.attempts, hc.failovers, hc.others, hc.accepted,
    fun hno => ?_⟩
  · have hsub := (map_fst_zip_sublist chain outs).map (·.broker.id)
    rw [List.map_map] at hsub
    exact hdistinct.sublist hsub
  · obtain ⟨hx, ⟨r, hr, hstatus, hcode⟩, houtbox⟩ := hc.failed hno
    obtain ⟨c, rest, rfl⟩ := List.exists_cons_of_ne_nil hchain
    have hlast : outs.getLast? = some (outs.getLast hcourse.ne_nil) :=
      List.getLast?_eq_getLast_of_ne_nil hcourse.ne_nil
    obtain ⟨why, hwhy⟩ := why_of_not_accepted (hno _ (List.getLast_mem hcourse.ne_nil))
    rw [failureOf, hlast] at hx hcode
    obtain ⟨code, message, status, happ⟩ := failure_app B.policy (outs.getLast hcourse.ne_nil)
    refine ⟨⟨code, message, status, hx.trans (congrArg Except.error happ)⟩,
      ⟨r, why, hr, ?_, hstatus, ?_⟩,
      houtbox⟩
    · rw [hlast]
      exact hwhy
    · intro hne
      exact hcode.trans (congrArg some (failure_code B.policy hwhy hne))

/-- The submission run alone: how it ends, the world it leaves and what it asked. -/
def submissionRun (by_ : Actor) (o : Order) (chain : List RouteCandidate) (env : Nat → Nat × Env)
    (w : World) : (Except Exn Unit × Session) × World × List Asked :=
  (submitInline by_ o chain {}).solo noted env (w, [])

theorem noting_of_granted {r : Req} {x : r.Ans} {es : List Asked} (hes : .refused ∉ es)
    (h : granted r x = true) : .refused ∉ noting es r x := by
  unfold noting
  split
  · simpa using hes
  · simpa using hes
  · rw [if_pos h]
    exact hes

/-- Where everything is granted, no refusal is noted. -/
theorem not_refused {xs : List ((r : Req) × r.Ans)} {es : List Asked} (hes : .refused ∉ es)
    (hxs : ∀ x ∈ xs, granted x.1 x.2 = true) :
    .refused ∉ xs.foldl (fun es x => noting es x.1 x.2) es := by
  induction xs generalizing es with
  | nil => exact hes
  | cons x xs ih =>
      exact ih (noting_of_granted hes (hxs x List.mem_cons_self))
        fun y hy => hxs y (List.mem_cons_of_mem _ hy)

/-- For every chain and every way the limiter and the brokers answer, the submission does what
its outcomes say, when the commits succeed and every `ensure` is granted what it needs. -/
theorem submits_in_order (by_ : Actor) (o : Order) (chain : List RouteCandidate)
    (env : Nat → Nat × Env) (w : World) (hchain : chain ≠ [])
    (hdistinct : (chain.map (·.broker.id)).Nodup)
    (henabled : ∀ c ∈ chain, c.broker.enabled = true)
    (hrow : (w.db.orders.get? o.id).map Order.undated = some o.undated)
    (henv : (submitInline by_ o chain {}).Suits passing (Failing Elsewhere) env w)
    (hgranted : ∀ x ∈ (submitInline by_ o chain {}).heard passing env w, granted x.1 x.2 = true) :
    ∃ outs, SubmitsInOrder o chain outs w.db.book (submissionRun by_ o chain env w).1.1
      (submissionRun by_ o chain env w).2.1.db.book (submissionRun by_ o chain env w).2.2 := by
  have hworks : Works (.idle w.db.book []) (submitInline by_ o chain)
      (fun _ dk => Ends o 1 none chain w.db.book [] (.ok ()) dk.kept dk.asked)
      (Fails o 1 none chain w.db.book []) := by
    refine Works.bind (Works.mark ?_)
    refine Works.bind (Works.execute (fun _ _ _ => rfl) fun _ _ _ _ => ?_)
    refine works_submitChain (fun b hb => ?_) (fun c hc => List.mem_map_of_mem hc) hrow
    obtain ⟨c, hc, rfl⟩ := List.mem_map.mp hb
    exact henabled c hc
  have hshown : (Desk.idle w.db.book []).Shown {} (w, []) :=
    ⟨rfl, rfl, fun _ => ⟨w.db, rfl, rfl⟩, fun _ => rfl, rfl⟩
  have hrun := Prog.solo_of_turn (hworks {} (w, []) hshown) (Prog.suits_tracked noting henv [])
  have hnone : .refused ∉ (submissionRun by_ o chain env w).2.2 := by
    rw [submissionRun, Prog.solo_tracked]
    exact not_refused List.not_mem_nil hgranted
  rw [← submissionRun] at hrun
  generalize submissionRun by_ o chain env w = x at hrun hnone ⊢
  obtain ⟨⟨_ | _, s⟩, v⟩ := x
  · exact (hrun.resolve_right hnone).submits hchain hdistinct
  · obtain ⟨dk, hdk, hends⟩ := hrun
    rw [← hdk.kept, ← hdk.asked] at hends
    exact hends.submits hchain hdistinct

/-- An order, and three brokers with sessions that last. -/
def atThreeBrokers : World where
  db :=
    { clients := .of [{ id := 1 }]
      brokers := .of [{ id := 2, clientId := 1 }, { id := 3, clientId := 1 },
        { id := 4, clientId := 1 }]
      sessions := .of [⟨2, .valid, some 9, true⟩, ⟨3, .valid, some 9, true⟩,
        ⟨4, .valid, some 9, true⟩]
      orders := .of [⟨5, 1, "a", "BUY", "X", 1, "MARKET", "DAY", .created, none, none, none,
        none, none, none, 0⟩] }

def unsent : Order := { id := 5, clientId := 1, clientOrderId := "a", side := "BUY", symbol := "X",
                        quantity := 1 }

def candidate (b : BrokerId) : RouteCandidate :=
  ⟨{ id := b, clientId := 1 }, none, 90, "healthy", 0, 90, []⟩

/-- The first broker is over its limit, the second one cannot be reached. -/
def secondRefuses (n : Nat) : Nat × Env :=
  (0, { rate := ⟨n != 2, 0⟩
        reply := if n = 15 then .rejected "BROKER_UNAVAILABLE" "down" 503 true else .accepted })

theorem submits_secondRefuses :
    ∃ outs, SubmitsInOrder unsent [candidate 2, candidate 3, candidate 4] outs
      atThreeBrokers.db.book
      (submissionRun .place unsent [candidate 2, candidate 3, candidate 4] secondRefuses
        atThreeBrokers).1.1
      (submissionRun .place unsent [candidate 2, candidate 3, candidate 4] secondRefuses
        atThreeBrokers).2.1.db.book
      (submissionRun .place unsent [candidate 2, candidate 3, candidate 4] secondRefuses
        atThreeBrokers).2.2 := by
  refine submits_in_order .place unsent [candidate 2, candidate 3, candidate 4] secondRefuses
    atThreeBrokers (List.cons_ne_nil _ _) (by decide) (by decide) rfl
    (Prog.suits_of_forall (fun _ _ h => absurd rfl h) _ _) ?_
  exact List.all_eq_true.mp (by decide +kernel)

end BrokerBridge
