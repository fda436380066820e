import BrokerBridge.Orders.Offers
import BrokerBridge.Orders.Once

/-!
# What a failed `place` leaves behind

A `place` that has inserted its row and then raises has told its caller that the
order failed. The row says so too only where the submission loop wrote it: the
loop marks the order FAILED before it raises on its own account, but an exception
that comes up from routing, from the rate limiter, from the session service or
from the database passes through it.

`reported_iff` says exactly when the row is FAILED in the end.
-/

namespace BrokerBridge

open Conc

variable {α : Type} {o i : OrderId} {bs : List BrokerId} {v : BrokerBridge.Standing}
  {S S' : List Write → Prop} {P : World → Prop}

/-! ## Answers that raise -/

theorem stable_const (p : Prop) : Stable o fun _ => p := fun _ _ _ => id

/-- A request and what is made of its answer, when that is the value or an exception. -/
theorem answer_stretch {r : Req} {f : r.Ans → Coro α} (hc : ∀ ws, r ≠ .commit ws)
    (hr : r.handsOver = false) (hP : Stable o P)
    (hgood : ∀ x, harmful r x = false → ∃ a, f x = pure a)
    (hbad : ∀ x, harmful r x = true → Raises (f x)) :
    Stretch o i bs v S P (await r >>= f) S fun _ => P := by
  refine Stretch.ask hc hr hP (fun x hx => ?_) hbad
  obtain ⟨a, ha⟩ := hgood x hx
  rw [ha]
  exact Stretch.pure fun _ h => h

theorem ofAnswer_good {x : Except Exn α} (h : failed x = false) : ∃ a, ofAnswer x = pure a := by
  cases x with
  | ok a => exact ⟨a, rfl⟩
  | error e => cases h

theorem ofAnswer_bad {x : Except Exn α} (h : failed x = true) : Raises (ofAnswer x) := by
  cases x with
  | ok a => cases h
  | error e => exact ⟨e, rfl⟩

theorem ofRedisAnswer_good {op : String} {x : Except Exn α} (h : failed x = false) :
    ∃ a, ofRedisAnswer op x = pure a := by
  cases x with
  | ok a => exact ⟨a, rfl⟩
  | error e => cases h

theorem ofRedisAnswer_bad {op : String} {x : Except Exn α} (h : failed x = true) :
    Raises (ofRedisAnswer op x) := by
  cases x with
  | ok a => cases h
  | error e => cases e <;> exact ⟨_, rfl⟩

theorem rateCheck_stretch (b : BrokerId) (limit : Rat) (hP : Stable o P) :
    Stretch o i bs v S P (rateCheck b limit) S fun _ => P :=
  answer_stretch nofun rfl hP (fun _ => ofRedisAnswer_good) fun _ => ofRedisAnswer_bad

theorem rateConsume_stretch (b : BrokerId) (limit : Rat) (hP : Stable o P) :
    Stretch o i bs v S P (rateConsume b limit) S fun _ => P :=
  answer_stretch nofun rfl hP (fun _ => ofRedisAnswer_good) fun _ => ofRedisAnswer_bad

/-- A read, when nothing is asked of what it finds. -/
theorem read_stretch {q : Query} (hP : Stable o P) :
    Stretch o i bs v (· = []) P (execute q) (· = []) fun _ => P :=
  Stretch.execute hP fun _ _ h => h

/-! ## Routing -/

/-- The broker is there, and was enabled when it was loaded. -/
def Routable (d : Db) (b : BrokerAccount) : Prop :=
  b.enabled = true ∧ (d.brokers.get? b.id).isSome

theorem stable_routable {bs : List BrokerAccount} :
    Stable o fun w => ∀ b ∈ bs, Routable w.db b :=
  fun _ _ hm h b hb => ⟨(h b hb).1, hm.brokers (h b hb).2⟩

theorem considerBroker_stretch (q : RouteQuery) (c : RouteContext) (b : BrokerAccount)
    (hP : Stable o P) :
    Stretch o i bs v (· = []) P (considerBroker q c b) (· = [])
      fun x w => (∀ cand, x = .ok cand → cand.broker = b) ∧ P w := by
  refine Stretch.bind (read_stretch hP) fun assignment => ?_
  split
  · exact Stretch.pure fun _ h => ⟨nofun, h⟩
  split
  · exact Stretch.pure fun _ h => ⟨nofun, h⟩
  refine Stretch.bind (T := (· = [])) (Q := fun _ => P) ?_ fun rl => ?_
  · exact Stretch.ite (fun _ => rateConsume_stretch _ _ hP) fun _ => rateCheck_stretch _ _ hP
  · refine Stretch.ite (fun _ => Stretch.pure fun _ h => ⟨nofun, h⟩) fun _ => ?_
    refine Stretch.pure fun _ h => ⟨fun cand hcand => ?_, h⟩
    cases hcand
    rfl

theorem considerBrokers_stretch (q : RouteQuery) (c : RouteContext)
    (brokers : List BrokerAccount) (hP : Stable o P) :
    Stretch o i bs v (· = []) P (considerBrokers q c brokers) (· = [])
      fun x w => (∀ cand ∈ x.1, cand.broker ∈ brokers) ∧ P w := by
  induction brokers with
  | nil => exact Stretch.pure fun _ h => ⟨List.forall_mem_nil _, h⟩
  | cons b rest ih =>
      refine Stretch.bind (considerBroker_stretch q c b hP) fun x => Stretch.given fun hx => ?_
      refine Stretch.bind ih fun y => Stretch.given fun hy => ?_
      obtain ⟨cs, xs⟩ := y
      cases x with
      | error ex =>
          exact Stretch.pure fun _ h => ⟨fun cand hc => List.mem_cons_of_mem _ (hy cand hc), h⟩
      | ok cand =>
          refine Stretch.pure fun _ h => ⟨fun cand' hc => ?_, h⟩
          rcases List.mem_cons.mp hc with rfl | hc
          · rw [hx cand' rfl]
            exact List.mem_cons_self
          · exact List.mem_cons_of_mem _ (hy cand' hc)

theorem mem_chainOf {q : RouteQuery} {cs : List RouteCandidate} {cand : RouteCandidate}
    (h : cand ∈ chainOf (primaryOf q (sortCandidates cs)) (sortCandidates cs)) : cand ∈ cs := by
  rw [← List.mem_insertionSort fun a b : RouteCandidate => b.routeScore ≤ a.routeScore]
  show cand ∈ sortCandidates cs
  cases hp : primaryOf q (sortCandidates cs) with
  | none => rw [hp] at h; cases h
  | some p =>
      rw [hp] at h
      rcases List.mem_cons.mp h with rfl | h
      · rcases Option.or_eq_some_iff.mp hp with hp | ⟨_, hp⟩
        · obtain ⟨b, _, hp⟩ := Option.bind_eq_some_iff.mp hp
          exact List.mem_of_find?_eq_some hp
        · exact List.mem_of_mem_head? hp
      · exact List.mem_of_mem_filter h

/-- Routing leads to brokers that are there. -/
theorem selectOrRaise_stretch (q : RouteQuery) (hv : v ≠ .routed) :
    Stretch o i bs v (· = []) (fun _ => True) (selectOrRaise q) (· = [])
      fun x w => ∀ c ∈ x.chain, Routable w.db c.broker := by
  refine Stretch.bind (Q := fun x w => ∀ c ∈ x.chain, Routable w.db c.broker) ?_ fun x =>
    Stretch.ite (fun _ => Stretch.raise hv) fun _ => Stretch.pure fun _ h => h
  have htrue : Stable o fun _ => True := stable_const True
  refine Stretch.bind (read_stretch htrue) fun config => ?_
  refine Stretch.bind (T := (· = [])) (Q := fun _ _ => True) ?_ fun degradedMin => ?_
  · unfold degradedMinOf
    split
    · exact Stretch.pure fun _ _ => trivial
    · exact Stretch.raise hv
    · exact Stretch.pure fun _ _ => trivial
  refine Stretch.bind (read_stretch htrue) fun config => ?_
  have hpolicy : Stretch o i bs v (· = []) (fun _ => True) exceedPolicy (· = [])
      fun _ _ => True := Stretch.bind (read_stretch htrue) fun _ => Stretch.pure fun _ h => h
  refine Stretch.bind hpolicy fun policy => ?_
  refine Stretch.bind (Stretch.execute htrue (Q := fun l w => ∀ b ∈ l, Routable w.db b) ?_)
    fun brokers => ?_
  · intro e w _ b hb
    obtain ⟨hb, hen⟩ := List.mem_filter.mp hb
    rw [Bool.and_eq_true] at hen
    exact ⟨hen.2, Option.isSome_iff_exists.mpr ⟨b, Table.get?_of_mem hb⟩⟩
  refine Stretch.bind (read_stretch stable_routable) fun health => ?_
  refine Stretch.bind (considerBrokers_stretch q _ brokers stable_routable) fun x => ?_
  obtain ⟨cs, xs⟩ := x
  exact Stretch.given fun hcs => Stretch.pure fun w h c hc => h _ (hcs c (mem_chainOf hc))

/-! ## Ensuring a session -/

theorem proceeds_of_session {u : Write} (h : u.ofSession) : u.proceeds i := by
  cases u with
  | addSession | setSession => exact ⟨trivial, nofun⟩
  | _ => exact h.elim

theorem proceeds_snoc {ws : List Write} {u : Write} (h : ∀ u ∈ ws, u.proceeds i)
    (hu : u.proceeds i) : ∀ u' ∈ ws ++ [u], u'.proceeds i := by
  intro u' hu'
  rcases List.mem_append.mp hu' with hu' | hu'
  · exact h u' hu'
  · exact List.mem_singleton.mp hu' ▸ hu

/-- The session of the broker is there once the writes are done. -/
def StoresSession (b : BrokerId) (existing : Option BrokerSession) (ws : List Write) : Prop :=
  (∀ u ∈ ws, u.ofSession) ∧
    (existing = none → ∃ row, row.brokerAccountId = b ∧ ws = [.addSession row])

theorem storeTokens_stretch (b : BrokerId) (existing : Option BrokerSession) (t : Tokens)
    (now : Instant) :
    Stretch o i bs v (· = []) P (storeTokens b existing t now) (StoresSession b existing)
      fun _ => P := by
  cases existing with
  | none =>
      refine Stretch.stage fun ws hws => ?_
      rw [hws]
      refine ⟨fun u hu => ?_, fun _ => ⟨_, rfl, rfl⟩⟩
      rw [List.mem_singleton.mp hu]
      trivial
  | some s =>
      have hset : ∀ ws, (∀ u ∈ ws, u.ofSession) → ∀ (r : BrokerSession) (f : BrokerSessionField),
          ∀ u ∈ ws ++ [Stored.write r f], u.ofSession := fun ws hws r f u hu =>
        (List.mem_append.mp hu).elim (hws u) fun h => by rw [List.mem_singleton.mp h]; trivial
      intro s' w hb hS hu hP
      have hrun : Stretch o i bs v (fun ws => ∀ u ∈ ws, u.ofSession) P
          (storeTokens b (some s) t now) (fun ws => ∀ u ∈ ws, u.ofSession) fun _ => P :=
        Stretch.assignThen (fun ws hws => hset ws hws _ _) <|
          Stretch.assignThen (fun ws hws => hset ws hws _ _) <|
            Stretch.assignThen (fun ws hws => hset ws hws _ _) <| Stretch.pure fun _ h => h
      refine Task.wp_alone_mono (hrun s' w hb (by rw [hS]; exact List.forall_mem_nil _) hu hP) ?_
        fun _ _ _ => id
      rintro _ _ _ ⟨h1, h2, h3⟩
      exact ⟨h1, ⟨h2, nofun⟩, h3⟩

theorem Write.apply_sessions {u : Write} {now : Instant} {d : Db} {b : BrokerId}
    (h : (d.sessions.get? b).isSome) : ((u.apply now d).sessions.get? b).isSome := by
  obtain ⟨r, hr⟩ := Option.isSome_iff_exists.mp h
  cases u with
  | addSession r' => exact Option.isSome_iff_exists.mpr ⟨r, Table.get?_insert_of_some hr⟩
  | setSession b' f =>
      simp only [Write.apply, Table.get?_update]
      split
      · next he => rw [← he, hr]; rfl
      · exact h
  | setAttempt o' a f =>
      simp only [Write.apply]
      split <;> exact h
  | _ => exact h

theorem StoresSession.stored {b : BrokerId} {existing : Option BrokerSession} {ws : List Write}
    {now : Instant} {d d' : Db} (h : StoresSession b existing ws)
    (hex : existing.isSome → (d.sessions.get? b).isSome) (hd : d.write? now ws = some d') :
    (d'.sessions.get? b).isSome := by
  cases existing with
  | some s =>
      exact Db.write?_preserves (P := fun d => (d.sessions.get? b).isSome)
        (fun _ _ _ _ => Write.apply_sessions) hd (hex rfl)
  | none =>
      obtain ⟨row, rfl, rfl⟩ := h.2 rfl
      obtain ⟨hc, rfl⟩ := Db.write?_singleton.mp hd
      have hnone : d.sessions.get? row.brokerAccountId = none := by
        rwa [Write.conflicts, Option.isSome_eq_false_iff, Option.isNone_iff_eq_none] at hc
      show ((d.sessions.insert row).get? _).isSome
      exact Option.isSome_iff_exists.mpr ⟨row, Table.get?_insert_self hnone⟩

theorem fetchTokens_stretch (b : BrokerId) (existing : Option BrokerSession) (force : Bool)
    (hP : Stable o P) : Stretch o i bs v S P (fetchTokens b existing force) S fun _ => P :=
  Stretch.ite
    (fun _ => answer_stretch nofun rfl hP (fun _ => ofAnswer_good) fun _ => ofAnswer_bad)
    fun _ => answer_stretch nofun rfl hP (fun _ => ofAnswer_good) fun _ => ofAnswer_bad

theorem stable_session {b : BrokerId} {p : Prop} :
    Stable o fun w => p → (w.db.sessions.get? b).isSome :=
  fun _ _ hm h hp => hm.sessions (h hp)

theorem ensureLocked_stretch (b : BrokerId) (force : Bool) :
    Stretch o i bs v (· = []) (fun _ => True) (ensureLocked b force) (· = [])
      fun _ _ => True := by
  refine Stretch.bind (Stretch.execute (stable_const True)
    (Q := fun (x : Option BrokerSession) w => x.isSome → (w.db.sessions.get? b).isSome)
    fun e w _ h => h) fun existing => ?_
  refine Stretch.bind (Stretch.await nofun rfl (fun _ => rfl) stable_session) fun now => ?_
  split
  · exact Stretch.pure fun _ _ => trivial
  refine Stretch.bind (read_stretch stable_session) fun _ => ?_
  refine Stretch.bind (fetchTokens_stretch b existing force stable_session) fun tokens => ?_
  refine Stretch.bind (storeTokens_stretch b existing tokens now) fun _ => ?_
  refine Stretch.bind (Stretch.commit (Q := fun w => True → (w.db.sessions.get? b).isSome)
    (fun ws hws u hu => proceeds_of_session (hws.1 u hu)) stable_session ?_) fun _ => ?_
  · exact fun w d ws hws hex hd _ => hws.stored hex hd
  refine Stretch.bind (Stretch.execute stable_session
    (Q := fun (x : Option BrokerSession) _ => x.isSome)
    fun e w h => h trivial) fun row => ?_
  cases row with
  | none => exact fun _ _ _ _ _ h => nomatch h
  | some s =>
      refine Stretch.bind (Stretch.pure (Q := fun _ _ => True) fun _ _ => trivial) fun s => ?_
      refine Stretch.ask nofun rfl (stable_const True) (fun x hx => ?_) fun x hx => ?_
      · obtain ⟨a, ha⟩ := ofRedisAnswer_good hx
        rw [ha]
        exact Stretch.pure fun _ _ => trivial
      · obtain ⟨e, he⟩ := @ofRedisAnswer_bad _ "session cache" _ hx
        rw [he]
        exact ⟨e, rfl⟩

/-- What a call that is undone does on its way out keeps it so. -/
theorem undone_ask {r : Req} (hc : ∀ ws, r ≠ .commit ws) (hr : r.handsOver = false) {x : Turn}
    (hx : x.spares o) {y : World × Standing} (h : Undone o i y) : Undone o i (turn r x y).2 :=
  ⟨h.1.meanwhile (turn_meanwhile hc hx y.1), hear_ne_routed h.2 hr⟩

theorem undone_releaseLock {k : LockKey} {t : Nat} {s : Session} {y : World × Standing}
    (h : Undone o i y) :
    Task.wp (alone turn (Turn.spares o)) (releaseLock k t) (fun _ _ y => Undone o i y)
      (fun _ _ y => Undone o i y) s y := by
  unfold releaseLock
  rw [Task.wp_bind]
  intro x hx
  have hundone := undone_ask (r := .release k t) nofun rfl hx h
  generalize (turn (.release k t) x y).1 = a at *
  cases a with
  | ok a => exact hundone
  | error e => cases e <;> exact hundone

/-- Giving a lock back is harmless, or it raises. -/
theorem releaseLock_stretch {k : LockKey} {t : Nat} (hP : Stable o P) :
    Stretch o i bs v S P (releaseLock k t) S fun _ => P := by
  refine Stretch.ask nofun rfl hP (fun x hx => ?_) fun x hx => ?_
  · cases x with
    | ok a => exact Stretch.pure fun _ h => h
    | error e =>
        cases e with
        | redisUnavailable => exact Stretch.pure fun _ h => h
        | _ => cases hx
  · cases x with
    | ok a => cases hx
    | error e =>
        cases e with
        | redisUnavailable => cases hx
        | _ => exact ⟨_, rfl⟩

theorem Stretch.underLock {t : Coro α} {k : LockKey} {n : Nat}
    (ht : Stretch o i bs v S P t S' fun _ _ => True) :
    Stretch o i bs v S P (Task.finally' t (releaseLock k n)) S' fun _ _ => True := by
  intro s w hb hS hu hP
  rw [Task.wp_finally']
  refine Task.wp_alone_mono (ht s w hb hS hu hP) ?_ fun _ _ _ => undone_releaseLock
  rintro a s' ⟨w', v'⟩ ⟨hb', hS', hu', rfl, _⟩
  exact releaseLock_stretch (P := fun _ => True) (stable_const True) s' w' hb' hS' hu' trivial

/-- A lock that another holds ends the call, and so does an outage. -/
theorem acquireLock_stretch {k : LockKey} {ttl : Int} {t : Nat} {op : String} {f : Bool → Coro α}
    {Q : α → World → Prop} (hP : Stable o P) (hf : Stretch o i bs v S P (f true) S' Q)
    (hf' : Raises (f false)) :
    Stretch o i bs v S P (acquireLock k ttl t op >>= f) S' Q := by
  intro s w hb hS hu hPw
  rw [Task.wp_bind, acquireLock, Task.wp_bind, wp_await]
  intro x hx
  have hm := turn_meanwhile (r := .acquire k ttl t) nofun hx w
  show Task.wp (alone turn (Turn.spares o))
    (ofRedisAnswer op (amid handle (.acquire k ttl t) x w).1) _ _ s
    ((amid handle (.acquire k ttl t) x w).2, v.hear (.acquire k ttl t)
      (amid handle (.acquire k ttl t) x w).1)
  generalize (amid handle (.acquire k ttl t) x w).1 = a at *
  have hundone : ∀ y, harmful (.acquire k ttl t) y = true → Undone o i
      ((amid handle (.acquire k ttl t) x w).2, v.hear (.acquire k ttl t) y) := fun y hy => by
    rw [hear_harmful hy]
    exact ⟨(hu.meanwhile hm).forget, nofun⟩
  match a with
  | .ok true =>
      rw [hear_harmless (r := .acquire k ttl t) (x := .ok true) rfl rfl]
      exact hf s _ hb hS (hu.meanwhile hm) (hP hm hPw)
  | .ok false =>
      obtain ⟨e, he⟩ := hf'
      rw [show ofRedisAnswer op (.ok false) = pure false from rfl, Task.wp_pure, he]
      exact hundone (.ok false) rfl
  | .error e =>
      obtain ⟨e', he⟩ := @ofRedisAnswer_bad Bool op (.error e) rfl
      rw [he]
      exact hundone (.error e) rfl

/-- The brokers of the chain, which the service finds in its session again. -/
theorem ensure_stretch {held : List BrokerAccount} {b : BrokerId} (hheld : b ∈ held.map (·.id))
    (hen : ∀ br ∈ held, br.enabled = true) :
    Stretch o i (held.map (·.id)) v (· = []) (fun _ => True) (ensure held b false) (· = [])
      fun _ _ => True := by
  intro s w hb hS hu _
  have hrow : Stretch o i (held.map (·.id)) v (· = [])
      (fun w => (w.db.brokers.get? b).isSome) (ensure held b false) (· = []) fun _ _ => True := by
    refine Stretch.bind (Stretch.execute (Q := fun (x : Option BrokerAccount) _ => x.isSome)
      (fun _ _ hm h => hm.brokers h) fun e w h => h) fun row => ?_
    cases row with
    | none => exact fun _ _ _ _ _ h => nomatch h
    | some row =>
        have henabled : ((held.find? (·.id == b)).getD row).enabled = true := by
          obtain ⟨br, hbr, hid⟩ := List.mem_map.mp hheld
          cases hf : held.find? (·.id == b) with
          | none =>
              have := List.find?_eq_none.mp hf br hbr
              simp [hid] at this
          | some br' => exact hen br' (List.mem_of_find?_eq_some hf)
        refine Stretch.ite (fun h => by simp [henabled] at h) fun _ => ?_
        refine Stretch.bind (Stretch.await nofun rfl (fun _ => rfl) (stable_const _))
          fun token => ?_
        refine acquireLock_stretch (stable_const _) ?_ ⟨_, rfl⟩
        exact Stretch.underLock ((ensureLocked_stretch b false).mono (fun _ _ => trivial)
          fun _ _ h => h)
  exact hrow s w hb hS hu (hu.brokers b hheld)

/-! ## One attempt -/

theorem Write.apply_attempt_stored {u : Write} {now : Instant} {d : Db} {a : AttemptId}
    {r : OrderAttempt} (h : d.attempts.get? a = some r) :
    ∃ r', (u.apply now d).attempts.get? a = some r' ∧ r'.orderId = r.orderId := by
  cases u with
  | addAttempt r' => exact ⟨r, Table.get?_insert_of_some h, rfl⟩
  | setAttempt o' a' f =>
      simp only [Write.apply]
      split
      · rw [Table.get?_update]
        split
        · next ha =>
            rw [← ha, h]
            exact ⟨_, rfl, OrderAttemptField.set_orderId f r⟩
        · exact ⟨r, h, rfl⟩
      · exact ⟨r, h, rfl⟩
  | _ => exact ⟨r, h, rfl⟩

/-- The attempt is stored, for this order. -/
def Db.HasAttempt (d : Db) (oid : OrderId) (a : AttemptId) : Prop :=
  ∃ r, d.attempts.get? a = some r ∧ r.orderId = oid

theorem stable_hasAttempt {oid : OrderId} {a : AttemptId} :
    Stable o fun w => w.db.HasAttempt oid a := by
  rintro w w' hm ⟨r, hr, ho⟩
  obtain ⟨r', hr', ho'⟩ := hm.attempts hr
  exact ⟨r', hr', ho'.trans ho⟩

theorem Db.HasAttempt.read {d : Db} {oid : OrderId} {a : AttemptId} (h : d.HasAttempt oid a)
    (e : Env) (now : Instant) :
    (Query.eval e now d (.attempt oid a) :
      Option {r : OrderAttempt // r.id = a ∧ r.orderId = oid}).isSome := by
  obtain ⟨r, hr, ho⟩ := h
  have hlook : d.attempts.lookup a = some ⟨r, Table.get?_key hr⟩ := Table.lookup_eq_some.mpr hr
  simp [Query.eval, hlook, ho]

/-- A commit that inserts the attempt stores it. -/
theorem Db.write?_hasAttempt {now : Instant} {ws : List Write} {d d' : Db} {row : OrderAttempt}
    (hd : d.write? now (.addAttempt row :: ws) = some d') : d'.HasAttempt row.orderId row.id := by
  obtain ⟨hc, hd⟩ := Db.write?_cons.mp hd
  have hnone : d.attempts.get? row.id = none := by
    rwa [Write.conflicts, Option.isSome_eq_false_iff, Option.isNone_iff_eq_none] at hc
  refine Db.write?_preserves (P := fun d => d.HasAttempt row.orderId row.id) ?_ hd
    ⟨row, Table.get?_insert_self hnone, rfl⟩
  rintro u _ d _ ⟨r, hr, ho⟩
  obtain ⟨r', hr', ho'⟩ := u.apply_attempt_stored hr
  exact ⟨r', hr', ho'.trans ho⟩

/-- The pending writes of an attempt that is being opened. -/
def Opens (i : OrderId) (a : AttemptId) (ws : List Write) : Prop :=
  ∃ row rest, ws = .addAttempt row :: rest ∧ row.orderId = i ∧ row.id = a ∧
    ∀ u ∈ rest, u.proceeds i

theorem Opens.snoc {a : AttemptId} {ws : List Write} {u : Write} (h : Opens i a ws)
    (hu : u.proceeds i) : Opens i a (ws ++ [u]) := by
  obtain ⟨row, rest, rfl, ho, ha, hrest⟩ := h
  exact ⟨row, rest ++ [u], rfl, ho, ha, proceeds_snoc hrest hu⟩

theorem Opens.proceeds {a : AttemptId} {ws : List Write} (h : Opens i a ws) :
    ∀ u ∈ ws, u.proceeds i := by
  obtain ⟨row, rest, rfl, ho, _, hrest⟩ := h
  intro u hu
  rcases List.mem_cons.mp hu with rfl | hu
  · exact ⟨ho, nofun⟩
  · exact hrest u hu

/-- An opened attempt, with the order it is for. -/
def Opened (i : OrderId) (x : Order × OrderAttempt) : Prop :=
  x.1.id = i ∧ x.1.status = .submitting ∧ x.2.orderId = i

theorem openAttempt_stretch {order : Order} (c : RouteCandidate) (n : Nat) (ho : order.id = i) :
    Stretch o i bs v (· = []) (fun _ => True) (openAttempt order c n) (· = [])
      fun x _ => Opened i x := by
  subst ho
  have htrue : Stable o fun _ => True := stable_const True
  refine Stretch.bind (Stretch.await nofun rfl (fun _ => rfl) htrue) fun (a : Nat) => ?_
  refine Stretch.bind (Stretch.stage (T := Opens order.id a) fun ws hws => ?_) fun _ => ?_
  · rw [hws]
    exact ⟨_, [], rfl, rfl, rfl, List.forall_mem_nil _⟩
  refine Stretch.assignThen (fun _ h => h.snoc ⟨⟨rfl, nofun⟩, nofun⟩) ?_
  refine Stretch.assignThen (fun _ h => h.snoc ⟨⟨rfl, nofun⟩, nofun⟩) ?_
  refine Stretch.assignThen (fun _ h => h.snoc ⟨⟨rfl, nofun⟩, nofun⟩) ?_
  refine Stretch.bind (Stretch.commit (Q := fun w => w.db.HasAttempt order.id a)
    (fun _ h => h.proceeds) htrue ?_) fun _ => ?_
  · rintro w d _ ⟨row, rest, rfl, hoid, rfl, _⟩ _ hd
    exact hoid ▸ Db.write?_hasAttempt hd
  refine Stretch.bind (Stretch.execute stable_hasAttempt
    (Q := fun (x : Option {r : OrderAttempt // r.id = a ∧ r.orderId = order.id}) _ => x.isSome)
    fun e w h => ?_) fun row => ?_
  · exact h.read e w.clock
  cases row with
  | none => exact fun _ _ _ _ _ h => nomatch h
  | some row =>
      obtain ⟨attempt, ha, hao⟩ := row
      exact Stretch.bind (Stretch.pure (Q := fun x _ => x.1.orderId = order.id) fun _ _ => hao)
        fun x => Stretch.given (P := fun _ => True) (fun hx => Stretch.pure fun _ _ =>
          ⟨rfl, rfl, hx⟩)
        |>.mono (fun _ h => ⟨h, trivial⟩) fun _ _ h => h

/-! ## The submission loop -/

/-- A part of the submission loop: it may end by saying that the order failed. -/
def Submits (o i : OrderId) (bs : List BrokerId) (t : Coro α) (Q : α → Prop) : Prop :=
  ∀ s w, s.broken = false → s.pending = [] → Underway o i bs w →
    Task.wp (alone turn (Turn.spares o)) t
      (fun a s' x => s'.broken = false ∧ s'.pending = [] ∧ Underway o i bs x.1 ∧
        x.2 = .routed ∧ Q a)
      (fun _ _ x => Settled o x) s (w, .routed)

variable {β : Type} {t : Coro α} {Q : α → Prop} {Q' : β → Prop} {order : Order}

theorem Stretch.submits
    (h : Stretch o i bs .routed (· = []) (fun _ => True) t (· = []) fun a _ => Q a) :
    Submits o i bs t Q :=
  fun s w hb hS hu => Task.wp_alone_mono (h s w hb hS hu trivial) (fun _ _ _ => id)
    fun _ _ _ h => h.settled

theorem Submits.bind {f : α → Coro β} (ht : Submits o i bs t Q)
    (hf : ∀ a, Q a → Submits o i bs (f a) Q') : Submits o i bs (t >>= f) Q' := by
  intro s w hb hS hu
  rw [Task.wp_bind]
  refine Task.wp_alone_mono (ht s w hb hS hu) ?_ fun _ _ _ => id
  rintro a s' ⟨w', v'⟩ ⟨hb', hS', hu', rfl, hQ⟩
  exact hf a hQ s' w' hb' hS' hu'

/-- Every row there is says that the order failed. -/
def Db.SaysFailed (o : OrderId) (d : Db) : Prop :=
  ∀ row, d.orders.get? o = some row → row.status = .failed

/-- A write of the commit that fails the order. -/
def Write.fails (i : OrderId) (u : Write) : Prop :=
  u = .setOrder i (.status .failed) ∨ ∃ c, u = .setOrder i (.errorCode c)

/-- That commit: the row of the order says that it failed, and there is no other. -/
theorem Underway.fails {w : World} {now : Instant} {ws : List Write} {d : Db}
    (h : Underway o i bs w) (hws : ∀ u ∈ ws, u.fails i)
    (hhead : o = i → ∃ rest, ws = .setOrder i (.status .failed) :: rest)
    (hd : w.db.write? now ws = some d) : d.SaysFailed o := by
  by_cases ho : o = i
  · subst ho
    obtain ⟨rest, rfl⟩ := hhead rfl
    obtain ⟨_, hd⟩ := Db.write?_cons.mp hd
    refine Db.write?_preserves (P := Db.SaysFailed o) ?_ hd fun row hr => ?_
    · intro u hu d _ hsays row hr
      rcases hws u (List.mem_cons_of_mem _ hu) with rfl | ⟨c, rfl⟩
      all_goals
        rw [Write.apply_setOrder] at hr
        obtain ⟨r, hr', rfl⟩ := Option.map_eq_some_iff.mp hr
      · rfl
      · exact hsays r hr'
    · rw [Write.apply_setOrder] at hr
      obtain ⟨r, _, rfl⟩ := Option.map_eq_some_iff.mp hr
      rfl
  · intro row hr
    have hkept : d.orders.get? o = w.db.orders.get? o := by
      refine Db.write?_eq (f := fun d => d.orders.get? o) (fun u hu d => ?_) hd
      rcases hws u hu with rfl | ⟨c, rfl⟩
      all_goals exact Write.apply_orders fun he => ho (Option.some.inj he).symm
    exact absurd (h.row (hkept ▸ hr)).1 ho

theorem fails_commit {s : Session} {w : World} (hb : s.broken = false)
    (hu : Underway o i bs w) (hws : ∀ u ∈ s.pending, u.fails i)
    (hhead : o = i → ∃ rest, s.pending = .setOrder i (.status .failed) :: rest) :
    Task.wp (alone turn (Turn.spares o)) commit (fun _ _ x => Settled o x)
      (fun _ _ x => Settled o x) s (w, .routed) := by
  rw [wp_commit, if_neg (by rw [hb]; exact Bool.false_ne_true)]
  intro x hx
  have hm := hx w
  obtain ⟨f, hf⟩ | ⟨d, hd, hok⟩ := commit_cases s.pending x.2 (x.1 w)
  · have hans : amid handle (.commit s.pending) x w = (.error f, x.1 w) := hf
    simp only [turn, tracked, hans]
    have hundone : Undone o i
        (x.1 w, Standing.hear .routed (.commit s.pending) (.error f)) := by
      rw [hear_harmful rfl]
      refine ⟨(hu.meanwhile hm).forget, ?_⟩
      rintro ⟨⟩
    exact hundone.settled
  · have hans : amid handle (.commit s.pending) x w = (.ok (), { x.1 w with db := d }) := hok
    have hsays := (hu.meanwhile hm).fails hws hhead hd
    simp only [turn, tracked, hans]
    rw [dbCases_ok, hear_harmless (r := .commit s.pending) (x := .ok ()) rfl rfl]
    exact fun row hr => ⟨fun _ => rfl, fun _ => hsays row hr⟩

theorem wp_assign_all {F : Type} [Stored α F] [DecidableEq α] {r : α} {f : F} {X : Type}
    {g : (r : Req) → (r.Ans → X → Prop) → X → Prop} {Q : α → Session → X → Prop}
    {E : Exn → Session → X → Prop} {s : Session} {x : X} (h : Q (Stored.set f r) s x)
    (h' : Q (Stored.set f r) { s with pending := s.pending ++ [Stored.write r f] } x) :
    Task.wp g (assign r f) Q E s x := by
  rcases wp_assign_cases (g := g) r f Q E s with heq | heq
  · exact heq ▸ h
  · exact heq ▸ h'

theorem failOrder_settles (code : String) (ho : order.id = i)
    (hst : o = i → order.status ≠ .failed) {s : Session} {w : World} (hb : s.broken = false)
    (hS : s.pending = []) (hu : Underway o i bs w) :
    Task.wp (alone turn (Turn.spares o)) (failOrder order code) (fun _ _ x => Settled o x)
      (fun _ _ x => Settled o x) s (w, .routed) := by
  subst ho
  have hcode : ∀ (r : Order) s', r.id = order.id → s'.broken = false →
      (∀ u ∈ s'.pending, u.fails order.id) →
      (o = order.id → ∃ rest, s'.pending = .setOrder order.id (.status .failed) :: rest) →
      Task.wp (alone turn (Turn.spares o)) (do
        let _ ← assign r (.errorCode (some code))
        commit) (fun _ _ x => Settled o x) (fun _ _ x => Settled o x) s' (w, .routed) := by
    intro r s' hr hb' hws hhead
    rw [Task.wp_bind]
    refine wp_assign_all (fails_commit hb' hu hws hhead) (fails_commit hb' hu ?_ fun h => ?_)
    · intro u hmem
      rcases List.mem_append.mp hmem with hmem | hmem
      · exact hws u hmem
      · rw [List.mem_singleton.mp hmem]
        exact .inr ⟨_, congrArg (Write.setOrder · _) hr⟩
    · obtain ⟨rest, hrest⟩ := hhead h
      exact ⟨rest ++ _, by rw [hrest]; rfl⟩
  unfold failOrder
  rw [Task.wp_bind, wp_assign]
  split
  · next heq =>
      refine hcode order s rfl hb (by rw [hS]; exact List.forall_mem_nil _) fun h => ?_
      exact absurd (congrArg Order.status heq).symm (hst h)
  · refine hcode _ _ rfl hb (fun u hmem => ?_) fun _ => ⟨[], by rw [hS]; rfl⟩
    rw [hS] at hmem
    exact .inl (List.mem_singleton.mp hmem)

/-- The loop fails the order and raises. -/
theorem submits_failure (code : String) (e : Exn) (ho : order.id = i)
    (hst : o = i → order.status ≠ .failed) :
    Submits o i bs (do
      failOrder order code
      Task.raise e) Q := by
  intro s w hb hS hu
  rw [Task.wp_bind]
  exact Task.wp_alone_mono (failOrder_settles code ho hst hb hS hu) (fun _ _ _ => id)
    fun _ _ _ => id

theorem proceeds_commit :
    Stretch o i bs v (fun ws => ∀ u ∈ ws, u.proceeds i) (fun _ => True) commit (· = [])
      fun _ _ => True :=
  Stretch.commit (fun _ h => h) (stable_const _) fun _ _ _ _ _ _ => trivial

/-- From nothing pending. -/
theorem Stretch.begin {P : World → Prop} {Q : α → World → Prop}
    (h : Stretch o i bs v (fun ws => ∀ u ∈ ws, u.proceeds i) P t S' Q) :
    Stretch o i bs v (· = []) P t S' Q := fun s w hb hS hu hP =>
  h s w hb (by rw [hS]; exact List.forall_mem_nil _) hu hP

theorem failAttempt_stretch (attempt : OrderAttempt) (error : String)
    (ha : attempt.orderId = i) :
    Stretch o i bs v (· = []) (fun _ => True) (failAttempt attempt error) (· = [])
      fun _ _ => True :=
  Stretch.begin <| Stretch.assignThen (fun _ h => proceeds_snoc h ⟨ha, nofun⟩) <|
    Stretch.assignThen (fun _ h => proceeds_snoc h ⟨ha, nofun⟩) proceeds_commit

theorem recordFailover_stretch (c : RouteCandidate) (reason : String)
    (rest : List RouteCandidate) :
    Stretch o i bs v (· = []) (fun _ => True) (recordFailover order c reason rest) (· = [])
      fun _ _ => True := by
  cases rest with
  | nil => exact Stretch.pure fun _ h => h
  | cons next _ =>
      refine Stretch.begin (Stretch.bind (Stretch.stage fun _ h => ?_) fun _ => proceeds_commit)
      exact proceeds_snoc h ⟨trivial, nofun⟩

theorem recordSubmitted_stretch (attempt : OrderAttempt) (c : RouteCandidate)
    (bo : BrokerOrderId) (ha : attempt.orderId = i) (ho : order.id = i) :
    Stretch o i bs v (· = []) (fun _ => True) (recordSubmitted order attempt c bo) (· = [])
      fun _ _ => True := by
  refine Stretch.begin ?_
  refine Stretch.assignThen (fun _ h => proceeds_snoc h ⟨ha, nofun⟩) ?_
  refine Stretch.assignThen (fun _ h => proceeds_snoc h ⟨ha, nofun⟩) ?_
  refine Stretch.assignThen (fun _ h => proceeds_snoc h ⟨⟨ho, nofun⟩, nofun⟩) ?_
  refine Stretch.assignThen (fun _ h => proceeds_snoc h ⟨⟨ho, nofun⟩, nofun⟩) ?_
  refine Stretch.assignThen (fun _ h => proceeds_snoc h ⟨⟨ho, nofun⟩, nofun⟩) ?_
  refine Stretch.bind (Stretch.stage fun _ h => ?_) fun _ => proceeds_commit
  exact proceeds_snoc h ⟨ho, nofun⟩

/-- The broker does not cancel the task that asks it. -/
theorem placeOrder_not_cancelled (oid : OrderId) (p : OrderPayload) (e : Env) (w : World) :
    (handle (.placeOrder oid p) e w).1 ≠ .error .cancelled := by
  simp only [handle]
  cases e.reply <;>
    · intro heq
      cases heq

/-- The handler on a session that is not in the way. -/
theorem submitHandler_submits (attempt : OrderAttempt) (e : Exn) (he : e ≠ .cancelled)
    (ha : attempt.orderId = i) (ho : order.id = i) (hst : o = i → order.status ≠ .failed) :
    Submits o i bs (submitHandler order attempt e) fun _ => True := by
  have hfail : ∀ error, Submits o i bs (failAttempt attempt error) fun _ => True := fun error =>
    (failAttempt_stretch attempt error ha).submits
  have hpure : ∀ x : Option LastError, Submits o i bs (pure x) fun _ => True := fun x =>
    (Stretch.pure fun _ _ => trivial).submits
  cases e with
  | broker code message status retryable =>
      refine (hfail message).bind fun _ _ => ?_
      split
      · exact hpure _
      · exact submits_failure code _ ho hst
  | cancelled => exact absurd rfl he
  | _ => exact (hfail _).bind fun _ _ => hpure _

theorem trySubmit_submits (attempt : OrderAttempt) (c : RouteCandidate)
    (ha : attempt.orderId = i) (ho : order.id = i) (hst : o = i → order.status ≠ .failed) :
    Submits o i bs (trySubmit order attempt c) fun _ => True := by
  intro s w hb hS hu
  unfold trySubmit
  rw [Task.wp_catching, Task.wp_bind, wp_await]
  intro x hx
  have hm := turn_meanwhile (r := .placeOrder order.id (orderPayload order c)) nofun hx w
  have hnc := placeOrder_not_cancelled order.id (orderPayload order c) x.2 (x.1 w)
  show Task.wp (alone turn (Turn.spares o))
    (ofAnswer (amid handle (.placeOrder order.id (orderPayload order c)) x w).1 >>= fun bo => do
      recordSubmitted order attempt c bo
      pure none) _ _ s
    ((amid handle (.placeOrder order.id (orderPayload order c)) x w).2,
      Standing.hear .routed (.placeOrder order.id (orderPayload order c))
        (amid handle (.placeOrder order.id (orderPayload order c)) x w).1)
  rw [hear_harmless rfl rfl]
  have hu' := hu.meanwhile hm
  generalize hans : amid handle (.placeOrder order.id (orderPayload order c)) x w = y at *
  obtain ⟨y | y, w'⟩ := y
  · refine submitHandler_submits attempt y (fun he => hnc ?_) ha ho hst s w' hb hS hu'
    exact (congrArg Prod.fst hans).trans (congrArg Except.error he)
  · show Task.wp (alone turn (Turn.spares o)) (recordSubmitted order attempt c y >>= _) _ _ s _
    rw [Task.wp_bind]
    have hstretch : Stretch o i bs .routed (· = []) (fun _ => True)
        (recordSubmitted order attempt c y) (· = []) fun _ _ => True :=
      recordSubmitted_stretch attempt c y ha ho
    have hrec := hstretch s w' hb hS hu' trivial
    have hbreaks := Task.wp_alone_and_only hrec (recordSubmitted_breaks order attempt c y s)
    refine Task.wp_alone_mono hbreaks ?_ ?_
    · rintro a s' y' ⟨⟨h1, h2, h3, h4, _⟩, _⟩
      exact ⟨h1, h2, h3, h4, trivial⟩
    · rintro a s' y' ⟨h, hbroken⟩
      obtain ⟨e', s'', _, heq⟩ := wp_submitHandler_broken (g := alone turn (Turn.spares o))
        (Q := fun _ s' x => s'.broken = false ∧ s'.pending = [] ∧ Underway o i bs x.1 ∧
          x.2 = .routed ∧ True) (E := fun _ _ x => Settled o x) order attempt a hbroken
      rw [heq]
      exact h.settled

theorem exceedPolicy_stretch :
    Stretch o i bs v (· = []) (fun _ => True) exceedPolicy (· = []) fun _ _ => True :=
  Stretch.bind (read_stretch (stable_const _)) fun _ => Stretch.pure fun _ h => h

theorem rateLimited_submits (c : RouteCandidate) (rest : List RouteCandidate)
    (ho : order.id = i) (hst : o = i → order.status ≠ .failed) :
    Submits o i bs (rateLimited order c rest) fun _ => True := by
  refine exceedPolicy_stretch.submits.bind fun policy _ => ?_
  split
  · exact submits_failure _ _ ho hst
  · exact (Stretch.bind (recordFailover_stretch c _ rest) fun _ =>
      Stretch.pure fun _ _ => trivial).submits

/-- The loop over what is left of the chain. -/
theorem submitChain_submits {held : List BrokerAccount} (hen : ∀ br ∈ held, br.enabled = true)
    (chain : List RouteCandidate) (hchain : ∀ c ∈ chain, c.broker ∈ held) (n : Nat)
    (last : Option LastError) (ho : order.id = i) (hst : o = i → order.status ≠ .failed) :
    Submits o i (held.map (·.id)) (submitChain held order n last chain) fun _ => True := by
  induction chain generalizing order n last with
  | nil => exact submits_failure _ _ ho hst
  | cons c rest ih =>
      have hrest : ∀ c' ∈ rest, c'.broker ∈ held := fun c' h =>
        hchain c' (List.mem_cons_of_mem _ h)
      have hheld : c.broker.id ∈ held.map (·.id) :=
        List.mem_map_of_mem (hchain c List.mem_cons_self)
      rw [submitChain]
      refine (rateConsume_stretch _ _ (stable_const True)).submits.bind fun rl _ => ?_
      split
      · exact (rateLimited_submits c rest ho hst).bind fun _ _ => ih hrest _ _ ho hst
      refine (ensure_stretch hheld hen).submits.bind fun _ _ => ?_
      refine (openAttempt_stretch c n ho).submits.bind fun x hx => ?_
      obtain ⟨order', attempt⟩ := x
      obtain ⟨ho', hst', ha⟩ := hx
      have hst'' : o = i → order'.status ≠ .failed := fun _ => by
        rw [hst']
        intro heq
        cases heq
      refine (trySubmit_submits attempt c ha ho' hst'').bind fun why _ => ?_
      cases why with
      | none => exact (Stretch.pure fun _ _ => trivial).submits
      | some why =>
          exact (recordFailover_stretch c _ rest).submits.bind fun _ _ => ih hrest _ _ ho' hst''

/-- The order is handed over, and from then on nothing but the loop may fail it. -/
theorem submitInline_ends {chain : List RouteCandidate} (by_ : Actor) {s : Session} {w : World}
    (ho : order.id = i) (hst : o = i → order.status ≠ .failed)
    (hchain : ∀ c ∈ chain, Routable w.db c.broker) (hb : s.broken = false) (hS : s.pending = [])
    (hu : Underway o i [] w) :
    Task.wp (alone turn (Turn.spares o)) (submitInline by_ order chain)
      (fun _ s' x => s'.broken = false ∧ s'.pending = [] ∧ Underway o i [] x.1 ∧ x.2 = .routed)
      (fun _ _ x => Settled o x) s (w, .unrouted) := by
  unfold submitInline
  rw [Task.wp_bind, wp_mark]
  intro x hx
  have hm := turn_meanwhile (r := .mark (.submitInline by_ order chain)) nofun hx w
  have hall : ∀ b ∈ chain.map (·.broker), Routable _ b :=
    stable_routable hm (List.forall_mem_map.mpr hchain)
  have hu' : Underway o i ((chain.map (·.broker)).map (·.id))
      (amid handle (.mark (.submitInline by_ order chain)) x w).2 := by
    refine ⟨(hu.meanwhile hm).row, (hu.meanwhile hm).stored, ?_⟩
    exact List.forall_mem_map.mpr fun br hbr => (hall br hbr).2
  have hloop : Submits o i ((chain.map (·.broker)).map (·.id)) (do
      getProvider
      submitChain (chain.map (·.broker)) order 1 none chain) fun _ => True :=
    (read_stretch (stable_const True)).submits.bind fun _ _ =>
      submitChain_submits (fun br hbr => (hall br hbr).1) chain
        (fun c hc => List.mem_map_of_mem hc) 1 none ho hst
  refine Task.wp_alone_mono (hloop s _ hb hS hu') ?_ fun _ _ _ => id
  exact fun _ _ _ ⟨h1, h2, h3, h4, _⟩ => ⟨h1, h2, h3.forget, h4⟩

/-! ## Inserting the row -/

/-- No row says that the order failed, or should. -/
def Unsaid (o : OrderId) (x : World × Standing) : Prop :=
  ∀ row, x.1.db.orders.get? o = some row → row.status ≠ .failed ∧ x.2 ≠ .routed

theorem Undone.unsaid {x : World × Standing} (h : Undone o i x) : Unsaid o x :=
  fun _ hr => ⟨(h.1.row hr).2, h.2⟩

theorem Unsaid.settled {x : World × Standing} (h : Unsaid o x) : Settled o x := fun row hr =>
  ⟨fun hf => absurd hf (h row hr).1, fun hv => absurd hv (h row hr).2⟩

theorem Unsaid.turn {r : Req} {y : World × Standing} {x : Turn} (h : Unsaid o y)
    (hc : ∀ ws, r ≠ .commit ws) (hr : r.handsOver = false) (hx : x.spares o) :
    Unsaid o (turn r x y).2 := by
  intro row hrow
  have hrow' := (turn_meanwhile hc hx y.1).order.symm.trans hrow
  exact ⟨(h row hrow').1, hear_ne_routed (h row hrow').2 hr⟩

/-- A request that commits nothing and hands nothing over. -/
def Req.idle (r : Req) : Prop := (∀ ws, r ≠ .commit ws) ∧ r.handsOver = false

theorem insertHandler_idle (e : Exn) : Calm Req.idle (insertHandler order e) := by
  cases e with
  | integrity =>
      refine Steps.bind (Steps.rollback ⟨nofun, rfl⟩) fun _ => ?_
      refine Steps.bind (Steps.execute fun _ _ => ⟨nofun, rfl⟩) fun prior => ?_
      cases prior
      · exact Steps.raise _
      · exact Steps.pure _
  | _ => exact Steps.raise _

theorem insertHandler_unsaid (e : Exn) {s : Session} {y : World × Standing} (hs : s.Clean)
    (h : Unsaid o y) :
    Task.wp (alone turn (Turn.spares o)) (insertHandler order e)
      (fun z _ _ => ∃ prior, z = .error prior) (fun _ _ y => Unsaid o y) s y := by
  have hcalm := (insertHandler_idle e).returning (insertHandler_returns order e) hs
  refine Task.wp_alone_mono (Task.wp_alone_of_only (J := Unsaid o) ?_ hcalm h) ?_ ?_
  · exact fun r hr x hx y hy => hy.turn hr.1 hr.2 hx
  · exact fun z s' y h => h.1.1
  · exact fun e' s' y h => h.2

/-- The row is in, and the object is made of it. -/
def Inserted (o i : OrderId) (order : Order) (s : Session) (x : World × Standing) : Prop :=
  s.broken = false ∧ s.pending = [] ∧ Underway o i [] x.1 ∧ x.2 = .unrouted ∧ order.id = i ∧
    (o = i → order.status ≠ .failed)

theorem readBack_stretch :
    Stretch o order.id [] .unrouted (· = []) (fun _ => True) (readBack order) (· = [])
      fun z _ => ∀ row, z = .ok row → row.id = order.id ∧
        (o = order.id → row.status ≠ .failed) := by
  intro s w hb hS hu _
  have hread : Stretch o order.id [] .unrouted (· = []) (Underway o order.id [])
      (readBack order) (· = []) fun z _ => ∀ row, z = .ok row →
        row.id = order.id ∧ (o = order.id → row.status ≠ .failed) := by
    refine Stretch.bind (Stretch.execute (fun _ _ hm h => h.meanwhile hm)
      (Q := fun (x : Option {r : Order // r.id = order.id}) _ => ∀ row, x = some row →
        o = order.id → row.1.status ≠ .failed) fun e w h row hrow ho => ?_) fun x => ?_
    · subst ho
      exact (h.row (Table.lookup_eq_some.mp hrow)).2
    · cases x with
      | none => exact Stretch.raise nofun
      | some row =>
          refine Stretch.bind (Stretch.pure (Q := fun x _ => o = order.id → x.1.status ≠ .failed)
            fun w h => h row rfl) fun x => Stretch.pure fun w h row' hrow => ?_
          cases hrow
          exact ⟨x.2, h⟩
  exact hread s w hb hS hu hu

theorem underway_inserted {w : World} {now : Instant} (hnew : order.status = .created)
    (habsent : w.db.orders.get? o = none) :
    Underway o order.id [] { w with db := (Write.addOrder order).apply now w.db } := by
  have hkey : Row.key (order.stored now) = order.id := rfl
  have hget : (w.db.orders.insert (order.stored now)).get? o =
      if o = order.id then some (order.stored now) else none := by
    split
    · next ho =>
        subst ho
        exact Table.get?_insert_self (a := order.stored now) habsent
    · next ho => rw [Table.get?_insert_of_ne (hkey ▸ ho), habsent]
  refine ⟨fun {row} hrow => ?_, fun ho => ?_, fun _ h => nomatch h⟩
  · have hrow' := hget.symm.trans hrow
    split at hrow'
    · next ho =>
        cases hrow'
        refine ⟨ho, ?_⟩
        show order.status ≠ .failed
        rw [hnew]
        nofun
    · cases hrow'
  · show ((w.db.orders.insert (order.stored now)).get? o).isSome
    rw [hget, if_pos ho]
    rfl

theorem insertOrder_ends {s : Session} {w : World} (hnew : order.status = .created)
    (hb : s.broken = false) (hS : s.pending = []) (habsent : w.db.orders.get? o = none) :
    Task.wp (alone turn (Turn.spares o)) (insertOrder order)
      (fun z s' x => ∀ row, z = .ok row → Inserted o order.id row s' x)
      (fun _ _ x => Settled o x) s (w, .unrouted) := by
  have hhandle : ∀ e s' x, s'.Clean → Unsaid o x →
      Task.wp (alone turn (Turn.spares o)) (insertHandler order e)
        (fun z s' x => ∀ row, z = .ok row → Inserted o order.id row s' x)
        (fun _ _ x => Settled o x) s' x := by
    intro e s' x hs hx
    refine Task.wp_alone_mono (insertHandler_unsaid e hs hx) ?_ fun _ _ _ h => h.settled
    rintro z _ _ ⟨prior, hz⟩ row hrow
    cases hz.symm.trans hrow
  unfold insertOrder
  rw [Task.wp_catching, Task.wp_bind, wp_stage, Task.wp_bind, wp_commit, hS,
    if_neg (by rw [hb]; exact Bool.false_ne_true)]
  intro x hx
  have hm := hx w
  have habsent' : (x.1 w).db.orders.get? o = none := hm.order.trans habsent
  obtain ⟨f, hf⟩ | ⟨d, hd, hok⟩ := commit_cases ([] ++ [.addOrder order]) x.2 (x.1 w)
  · have hans : amid handle (.commit ([] ++ [.addOrder order])) x w = (.error f, x.1 w) := hf
    simp only [turn, tracked, hans]
    exact hhandle f _ _ Session.clean_broken fun row hrow => by cases habsent'.symm.trans hrow
  · have hans : amid handle (.commit ([] ++ [.addOrder order])) x w =
        (.ok (), { x.1 w with db := d }) := hok
    simp only [turn, tracked, hans]
    obtain ⟨hc, rfl⟩ := Db.write?_singleton.mp hd
    have hu : Underway o order.id [] { x.1 w with
        db := (Write.addOrder order).apply (x.1 w).clock (x.1 w).db } :=
      underway_inserted hnew habsent'
    rw [dbCases_ok]
    show Task.wp (alone turn (Turn.spares o)) (readBack order) _ _ _ (_, Standing.unrouted)
    have hread := readBack_stretch { broken := s.broken } _ hb rfl hu trivial
    have hclean := readBack_calm order { broken := s.broken } (.inr (List.forall_mem_nil _))
    refine Task.wp_alone_mono (Task.wp_alone_and_only hread hclean) ?_ ?_
    · rintro z s' y ⟨⟨h1, h2, h3, h4, h5⟩, _⟩ row hrow
      exact ⟨h1, h2, h3, h4, h5 row hrow⟩
    · exact fun e s' y h => hhandle e s' y h.2 h.1.unsaid

/-! ## Placing -/

/-- What a call does on its way out, when nothing it does can fail. -/
theorem settled_last {r : Req} (hr : r.idle) (hx : ∀ x, harmful r x = false) {s : Session}
    {y : World × Standing} (h : Settled o y) :
    Task.wp (alone turn (Turn.spares o)) (await r) (fun _ _ y => Settled o y)
      (fun _ _ y => Settled o y) s y := by
  intro x hx' row hrow
  have hm := turn_meanwhile hr.1 hx' y.1
  have hv : y.2.hear r (turn r x y).1 = y.2 := hear_harmless (hx _) hr.2
  rw [h row (hm.order.symm.trans hrow)]
  show _ ↔ y.2.hear r (turn r x y).1 = .routed
  rw [hv]

/-- The order read back at the end. If it is `o`, it is there. -/
theorem refreshed_ends {α : Type} {f : {r : Order // r.id = i} → Coro α} {s : Session}
    {w : World} (hf : ∀ x, ∃ a, f x = pure a) (hb : s.broken = false) (hS : s.pending = [])
    (hu : Underway o i [] w) :
    Task.wp (alone turn (Turn.spares o)) (do
        let x ← execute (.order i)
        let x ← refreshed x
        f x) (fun _ _ _ => True) (fun _ _ x => Settled o x) s (w, .routed) := by
  have hread : Stretch o i [] .routed (· = []) (Underway o i []) (execute (.order i)) (· = [])
      fun (x : Option {r : Order // r.id = i}) w => x = none → w.db.orders.get? o = none := by
    refine Stretch.execute (fun _ _ hm h => h.meanwhile hm) fun e w h hx => ?_
    cases hr : w.db.orders.get? o with
    | none => rfl
    | some row =>
        have hnone := Table.lookup_eq_none.mp hx
        rw [← (h.row hr).1, hr] at hnone
        cases hnone
  rw [Task.wp_bind]
  refine Task.wp_alone_mono (hread s w hb hS hu hu) ?_ fun _ _ _ h => h.settled
  rintro x s' ⟨w', v'⟩ ⟨_, _, _, rfl, hnone⟩
  cases x with
  | none => exact fun row hrow => nomatch (hnone rfl).symm.trans hrow
  | some x =>
      obtain ⟨a, ha⟩ := hf x
      show Task.wp (alone turn (Turn.spares o)) (f x) _ _ _ _
      rw [ha]
      trivial

theorem placeNew_ends (oid : OrderId) (r : PlaceRequest) {s : Session} {w : World}
    (hb : s.broken = false) (hS : s.pending = []) (habsent : w.db.orders.get? o = none) :
    Task.wp (alone turn (Turn.spares o)) (placeNew oid r) (fun _ _ _ => True)
      (fun _ _ x => Settled o x) s (w, .unrouted) := by
  unfold placeNew
  rw [Task.wp_bind]
  refine Task.wp_alone_mono (insertOrder_ends rfl hb hS habsent) ?_ fun _ _ _ => id
  rintro (prior | order) s1 ⟨w1, v1⟩ hins
  · trivial
  obtain ⟨hb1, hS1, hu1, rfl, hid, hst⟩ := hins order rfl
  let q : RouteQuery :=
    { clientId := r.clientId
      preferredBrokerId := r.preferredBrokerId
      regionPreference := r.regionPreference }
  have hstretch : Stretch o (r.order oid).id [] .unrouted (· = []) (fun _ => True)
      (selectOrRaise q) (· = []) fun x w => ∀ c ∈ x.chain, Routable w.db c.broker :=
    selectOrRaise_stretch q nofun
  have hselect := hstretch s1 w1 hb1 hS1 hu1 trivial
  rw [Task.wp_bind]
  refine Task.wp_alone_mono hselect ?_ fun _ _ _ h => h.settled
  rintro decision s2 ⟨w2, v2⟩ ⟨hb2, hS2, hu2, rfl, hchain⟩
  rw [Task.wp_bind]
  refine Task.wp_alone_mono (submitInline_ends .place hid hst hchain hb2 hS2 hu2) ?_
    fun _ _ _ => id
  rintro _ s3 ⟨w3, v3⟩ ⟨hb3, hS3, hu3, rfl⟩
  rw [← hid] at hu3
  exact refreshed_ends (fun x => ⟨(x.1, true), rfl⟩) hb3 hS3 hu3

/-! ## The call -/

theorem underway_other {w : World} (h : w.db.orders.get? o = none) : Underway o (o + 1) [] w :=
  ⟨fun hr => absurd (h.symm.trans hr) nofun, fun ho => absurd ho (Nat.ne_of_lt o.lt_succ_self),
    List.forall_mem_nil _⟩

theorem Underway.absent {w : World} (h : Underway o (o + 1) [] w) :
    w.db.orders.get? o = none := by
  cases hr : w.db.orders.get? o with
  | none => rfl
  | some row => exact absurd (h.row hr).1 (Nat.ne_of_lt o.lt_succ_self)

section Prefix

variable (hv : v ≠ .routed)
include hv

theorem assertTradingAllowed_stretch (c : ClientId) :
    Stretch o i bs v (· = []) (fun _ => True) (assertTradingAllowed c) (· = [])
      fun _ _ => True := by
  have hread : ∀ q, Stretch o i bs v (· = []) (fun _ => True) (execute q) (· = [])
      fun _ _ => True := fun q => read_stretch (stable_const _)
  have hallowed : Stretch o i bs v (· = []) (fun _ => True) (clientTradingAllowed c) (· = [])
      fun _ _ => True := by
    refine Stretch.bind (hread _) fun client => ?_
    split
    · exact Stretch.pure fun _ h => h
    · exact Stretch.bind (hread _) fun _ => Stretch.ite (fun _ => Stretch.pure fun _ h => h)
        fun _ => Stretch.pure fun _ h => h
  refine Stretch.bind hallowed fun allowed => Stretch.ite (fun _ => ?_) fun _ => ?_
  · refine Stretch.bind (hread _) fun client => ?_
    split
    · refine Stretch.ite (fun _ => Stretch.begin ?_) fun _ => Stretch.pure fun _ h => h
      exact Stretch.assignThen (fun _ h => proceeds_snoc h ⟨trivial, nofun⟩) proceeds_commit
    · exact Stretch.pure fun _ h => h
  · exact Stretch.bind (hread _) fun _ => Stretch.bind (hread _) fun _ => Stretch.raise hv

theorem acquireInflight_stretch (holder : Nat) :
    Stretch o i bs v (· = []) (fun _ => True) (acquireInflight holder) (· = [])
      fun _ _ => True := by
  refine Stretch.ask nofun rfl (stable_const _) (fun x _ => ?_) fun x hx => nomatch hx
  refine Stretch.bind (T := (· = [])) (Q := fun _ _ => True) ?_ fun b =>
    Stretch.ite (fun _ => Stretch.pure fun _ h => h) fun _ => Stretch.raise hv
  cases x with
  | error e => exact Stretch.raise hv
  | ok b => exact Stretch.pure fun _ h => h

end Prefix

/-- The part that counts as in flight. -/
theorem whileInflight_ends (oid : OrderId) (r : PlaceRequest) {s : Session} {w : World}
    (hb : s.broken = false) (hS : s.pending = []) (habsent : w.db.orders.get? o = none) :
    Task.wp (alone turn (Turn.spares o)) (Task.finally' (do
        await .inflightUp
        Task.finally' (placeNew oid r) (await .inflightDown)) (await (.semRelease oid)))
      (fun _ _ _ => True) (fun _ _ x => Settled o x) s (w, .unrouted) := by
  have hdown : ∀ s y, Settled o y → Task.wp (alone turn (Turn.spares o)) (await .inflightDown)
      (fun _ _ y => Settled o y) (fun _ _ y => Settled o y) s y := fun _ _ h =>
    settled_last (r := .inflightDown) ⟨nofun, rfl⟩ (fun _ => rfl) h
  have hrelease : ∀ s y, Settled o y →
      Task.wp (alone turn (Turn.spares o)) (await (.semRelease oid))
        (fun _ _ y => Settled o y) (fun _ _ y => Settled o y) s y := fun _ _ h =>
    settled_last (r := .semRelease oid) ⟨nofun, rfl⟩ (fun _ => rfl) h
  rw [Task.wp_finally', Task.wp_bind, wp_await]
  intro x hx
  have hm := turn_meanwhile (r := .inflightUp) nofun hx w
  rw [Task.wp_finally']
  refine Task.wp_alone_mono (placeNew_ends oid r hb hS (hm.order.trans habsent)) ?_ ?_
  · exact fun _ _ _ _ _ _ _ _ => trivial
  · exact fun _ s' y h => Task.wp_alone_mono (hdown s' y h) (fun _ => hrelease) fun _ => hrelease

theorem place_ends (r : PlaceRequest) {w : World} (habsent : w.db.orders.get? o = none) :
    Task.wp (alone turn (Turn.spares o)) (place r) (fun _ _ _ => True)
      (fun _ _ x => Settled o x) {} (w, .unrouted) := by
  have hv : Standing.unrouted ≠ .routed := nofun
  unfold place
  rw [Task.wp_bind]
  refine Task.wp_alone_mono (assertTradingAllowed_stretch hv r.clientId {} w rfl rfl
    (underway_other habsent) trivial) ?_ fun _ _ _ h => h.settled
  rintro _ s1 ⟨w1, v1⟩ ⟨hb1, hS1, hu1, rfl, _⟩
  rw [Task.wp_bind]
  refine Task.wp_alone_mono (read_stretch (stable_const True) s1 w1 hb1 hS1 hu1 trivial) ?_
    fun _ _ _ h => h.settled
  rintro prior s2 ⟨w2, v2⟩ ⟨hb2, hS2, hu2, rfl, _⟩
  cases prior with
  | some prior => trivial
  | none =>
      have hmode : Stretch o (o + 1) [] .unrouted (· = []) (fun _ => True) executionMode (· = [])
          fun _ _ => True :=
        Stretch.bind (read_stretch (stable_const _)) fun _ => Stretch.pure fun _ h => h
      show Task.wp (alone turn (Turn.spares o)) (executionMode >>= _) _ _ _ _
      rw [Task.wp_bind]
      refine Task.wp_alone_mono (hmode s2 w2 hb2 hS2 hu2 trivial) ?_ fun _ _ _ h => h.settled
      rintro mode s3 ⟨w3, v3⟩ ⟨hb3, hS3, hu3, rfl, _⟩
      split
      · exact (Undone.settled ⟨hu3, hv⟩ : Settled o (w3, .unrouted))
      rw [Task.wp_bind]
      have hid : Stretch o (o + 1) [] .unrouted (· = []) (fun _ => True) newId (· = [])
          fun _ _ => True := Stretch.await nofun rfl (fun _ => rfl) (stable_const _)
      refine Task.wp_alone_mono (hid s3 w3 hb3 hS3 hu3 trivial) ?_ fun _ _ _ h => h.settled
      rintro oid s4 ⟨w4, v4⟩ ⟨hb4, hS4, hu4, rfl, _⟩
      rw [Task.wp_bind]
      refine Task.wp_alone_mono (acquireInflight_stretch hv oid s4 w4 hb4 hS4 hu4 trivial) ?_
        fun _ _ _ h => h.settled
      rintro _ s5 ⟨w5, v5⟩ ⟨hb5, hS5, hu5, rfl, _⟩
      exact whileInflight_ends oid r hb5 hS5 hu5.absent

/-! ## Whether there was a route -/

/-- Neither reads the brokers nor hands the order over. -/
def Req.preliminary : Req → Prop
  | .query _ (.enabledBrokers _) => False
  | .mark (.submitInline ..) => False
  | _ => True

/-- The order was handed over exactly if there was a route, or something went wrong. -/
def Traced (q : RouteQuery) (l : List Heard) : Prop := Harmful l ∨ (Routed l ↔ RouteFound q l)

/-- What a call is told before it routes. -/
def Preliminary (l : List Heard) : Prop := ∀ y ∈ l, y.1.preliminary

section Tracing

variable {q : RouteQuery} {l seg : List Heard}

theorem Preliminary.append (h : Preliminary l) (h' : Preliminary seg) : Preliminary (l ++ seg) :=
  List.forall_mem_append.mpr ⟨h, h'⟩

theorem Preliminary.unrouted (h : Preliminary l) : Unrouted l := by
  intro y hy
  have hpre := h y hy
  unfold Heard.readsBrokers
  split
  · exact hpre.elim
  · rfl

theorem Preliminary.not_routed (h : Preliminary l) : ¬ Routed l := by
  rintro ⟨y, hy, hover⟩
  have hpre := h y hy
  unfold Req.handsOver at hover
  split at hover
  · next heq =>
      rw [heq] at hpre
      exact hpre
  · cases hover

theorem Preliminary.traced (h : Preliminary l) : Traced q l :=
  .inr (iff_of_false h.not_routed h.unrouted.not_routeFound)

theorem routed_append : Routed (l ++ seg) ↔ Routed l ∨ Routed seg := by
  simp only [Routed, List.mem_append, or_and_right, exists_or]

/-- What has nothing to do with routes. -/
theorem Traced.aside {y : Heard} (h : Traced q l) (hy : y.aside = true)
    (hover : y.1.handsOver = false) :
    Traced q (l ++ [y]) := by
  have hnot : ¬ Routed [y] := by
    rintro ⟨y', hmem, hy'⟩
    rw [List.mem_singleton.mp hmem, hover] at hy'
    cases hy'
  have hrouted : Routed (l ++ [y]) ↔ Routed l := routed_append.trans (or_iff_left hnot)
  refine h.imp (·.append_left) fun hiff => ?_
  rw [hrouted, hiff]
  exact ⟨RouteFound.later, fun h => h.before hy⟩

/-- A stretch before routing, with what it is told. -/
theorem Stretch.told {t : Coro α} {Q : α → World → Prop} {s : Session} {w : World}
    (h : Stretch o i [] .unrouted S P t S' Q) (ht : Calm Req.preliminary t) (hs : s.Clean)
    (hb : s.broken = false) (hS : S s.pending) (hu : Underway o i [] w) (hP : P w)
    (hl : Preliminary l) :
    Task.wp (alone heeded (Turn.spares o)) t
      (fun a s' y => s'.broken = false ∧ S' s'.pending ∧ Underway o i [] y.1 ∧
        Preliminary y.2 ∧ Q a y.1)
      (fun _ _ y => Preliminary y.2) s (w, l) := by
  refine Task.wp_alone_mono (Task.wp_alone_and (Task.wp_alone_listened (h s w hb hS hu hP) l)
    (Task.wp_listened_of_only (ht s hs) l)) ?_ ?_
  · rintro a s' ⟨w', l'⟩ ⟨⟨seg, rfl, hb', hS', hu', -, hQ⟩, -, seg', hseg', hpre⟩
    cases List.append_cancel_left hseg'
    exact ⟨hb', hS', hu', hl.append hpre, hQ⟩
  · rintro e s' ⟨w', l'⟩ ⟨-, -, seg', rfl, hpre⟩
    exact hl.append hpre

/-- After a stretch before routing only the rest has to be traced. -/
theorem Stretch.traced_bind {t : Coro α} {f : α → Coro β} {Q : α → World → Prop} {s : Session}
    {w : World} (h : Stretch o i [] .unrouted (· = []) P t (· = []) Q)
    (ht : Calm Req.preliminary t) (hb : s.broken = false) (hS : s.pending = [])
    (hu : Underway o i [] w) (hP : P w) (hl : Preliminary l)
    (hf : ∀ a s' w' l', s'.broken = false → s'.pending = [] → Underway o i [] w' →
      Preliminary l' → Q a w' → Task.wp (alone heeded (Turn.spares o)) (f a) (fun _ _ _ => True)
        (fun _ _ y => Traced q y.2) s' (w', l')) :
    Task.wp (alone heeded (Turn.spares o)) (t >>= f) (fun _ _ _ => True)
      (fun _ _ y => Traced q y.2) s (w, l) := by
  have hclean : s.Clean := .inr (by rw [hS]; exact List.forall_mem_nil _)
  rw [Task.wp_bind]
  refine Task.wp_alone_mono (h.told ht hclean hb hS hu hP hl) ?_ fun _ _ _ h => h.traced
  rintro a s' ⟨w', l'⟩ ⟨hb', hS', hu', hl', hQ⟩
  exact hf a s' w' l' hb' hS' hu' hl' hQ

/-! ### The stretches before routing -/

theorem insertOrder_preliminary (order : Order) : Calm Req.preliminary (insertOrder order) :=
  insertOrder_calm order (fun _ _ => trivial) trivial trivial trivial

theorem gating_preliminary {c : ClientId} (r : Req) (h : r.gating c) : r.preliminary := by
  cases r with
  | query ws q => cases q <;> first | trivial | exact h.2.elim
  | mark m => exact h.elim
  | _ => trivial

theorem routing_handsOver {r : Req} (h : r.routing) : r.handsOver = false := by
  cases r with
  | mark m => exact h.elim
  | _ => rfl

theorem acquireInflight_preliminary (holder : Nat) :
    Calm Req.preliminary (acquireInflight holder) :=
  Steps.bind (Steps.await trivial) fun x => Steps.bind (Steps.ofAnswer x) fun _ =>
    Steps.ite (Steps.pure _) (Steps.raise _)

theorem executionMode_preliminary : Calm Req.preliminary executionMode :=
  Steps.bind (calm_read trivial) fun _ => Steps.pure _

/-- The route of a request. -/
def PlaceRequest.route (r : PlaceRequest) : RouteQuery where
  clientId := r.clientId
  preferredBrokerId := r.preferredBrokerId
  regionPreference := r.regionPreference

theorem placeNew_traced (oid : OrderId) (r : PlaceRequest) {s : Session} {w : World}
    (hb : s.broken = false) (hS : s.pending = []) (habsent : w.db.orders.get? o = none)
    (hl : Preliminary l) :
    Task.wp (alone heeded (Turn.spares o)) (placeNew oid r) (fun _ _ _ => True)
      (fun _ _ y => Traced r.route y.2) s (w, l) := by
  unfold placeNew
  rw [Task.wp_bind]
  refine Task.wp_alone_mono (Task.wp_alone_and
    (Task.wp_alone_listened (insertOrder_ends rfl hb hS habsent) l)
    (Task.wp_listened_of_only (insertOrder_preliminary (r.order oid) s
      (.inr (by rw [hS]; exact List.forall_mem_nil _))) l)) ?_ ?_
  · rintro (prior | order) s' ⟨w', l'⟩ ⟨⟨seg, rfl, hins⟩, -, seg', hseg', hpre⟩
    · trivial
    cases List.append_cancel_left hseg'
    obtain ⟨hb', hS', -⟩ := hins order rfl
    have hpre' := hl.append hpre
    rw [Task.wp_bind]
    refine Task.wp_alone_mono (Task.wp_alone_and
      (selectOrRaise_tells (q := r.route) rfl s' w' (l ++ seg) hb' hS')
      (Task.wp_listened_of_only (selectOrRaise_calm r.route s'
        (.inr (by rw [hS']; exact List.forall_mem_nil _))) (l ++ seg))) ?_ ?_
    · rintro decision s'' ⟨w'', l''⟩ ⟨⟨-, -, seg', rfl, hfound⟩, -⟩
      have htraced : ∀ y : World × List Heard,
          (∃ seg'', y.2 = l ++ seg ++ seg' ++ seg'' ∧ Routed seg'') → Traced r.route y.2 := by
        rintro ⟨w, l⟩ ⟨seg'', rfl, hrouted⟩
        exact .inr (iff_of_true (routed_append.mpr (.inr hrouted)) hfound.append.later)
      rw [Task.wp_bind]
      refine Task.wp_alone_mono (submitInline_told .place order decision.chain) ?_
        fun _ _ => htraced
      rintro _ s₃ ⟨w₃, l₃⟩ ⟨seg'', rfl, hrouted⟩
      refine Task.wp_alone_mono (told_more _) (fun _ _ _ _ => trivial) ?_
      rintro e s₄ ⟨w₄, l₄⟩ ⟨seg₄, rfl⟩
      refine htraced _ ⟨seg'' ++ seg₄, List.append_assoc .., ?_⟩
      exact routed_append.mpr (.inl hrouted)
    · rintro e s'' ⟨w'', l''⟩ ⟨⟨seg', rfl, hraised⟩, -, seg'', hseg'', hrouting⟩
      cases List.append_cancel_left hseg''
      rcases hraised with hharm | hnone
      · exact .inl hharm.append_right
      · refine .inr (iff_of_false (fun hrouted => ?_) (hnone _ hpre'.unrouted))
        rcases routed_append.mp hrouted with hrouted | ⟨y, hy, hover⟩
        · exact hpre'.not_routed hrouted
        · rw [routing_handsOver (hrouting y hy)] at hover
          cases hover
  · rintro e s' ⟨w', l'⟩ ⟨-, -, seg', rfl, hpre⟩
    exact (hl.append hpre).traced

/-- What is done on the way out has nothing to do with routes. -/
theorem traced_last {r : Req} (hr : ∀ x, Heard.aside ⟨r, x⟩ = true) (hover : r.handsOver = false)
    {s : Session} {y : World × List Heard} (h : Traced q y.2) :
    Task.wp (alone heeded (Turn.spares o)) (await r) (fun _ _ y => Traced q y.2)
      (fun _ _ y => Traced q y.2) s y :=
  fun _ _ => h.aside (hr _) hover

theorem whileInflight_traced (oid : OrderId) (r : PlaceRequest) {s : Session} {w : World}
    (hb : s.broken = false) (hS : s.pending = []) (habsent : w.db.orders.get? o = none)
    (hl : Preliminary l) :
    Task.wp (alone heeded (Turn.spares o)) (Task.finally' (do
        await .inflightUp
        Task.finally' (placeNew oid r) (await .inflightDown)) (await (.semRelease oid)))
      (fun _ _ _ => True) (fun _ _ y => Traced r.route y.2) s (w, l) := by
  have hrelease : ∀ s y, Traced r.route y.2 →
      Task.wp (alone heeded (Turn.spares o)) (await (.semRelease oid))
        (fun _ _ y => Traced r.route y.2)
        (fun _ _ y => Traced r.route y.2) s y := fun _ _ => traced_last (fun _ => rfl) rfl
  rw [Task.wp_finally', Task.wp_bind, wp_await]
  intro x hx
  have hm := turn_meanwhile (r := .inflightUp) (fun _ heq => by cases heq) hx w
  have hup : Preliminary (l ++ [⟨.inflightUp, (amid handle .inflightUp x w).1⟩]) :=
    hl.append (List.forall_mem_singleton.mpr trivial)
  rw [Task.wp_finally']
  refine Task.wp_alone_mono (placeNew_traced oid r hb hS (hm.order.trans habsent) hup) ?_ ?_
  · exact fun _ _ _ _ _ _ _ _ => trivial
  · exact fun _ s' y h => Task.wp_alone_mono (traced_last (fun _ => rfl) rfl h) (fun _ => hrelease)
      fun _ => hrelease

theorem place_traced (r : PlaceRequest) {w : World} (habsent : w.db.orders.get? o = none) :
    Task.wp (alone heeded (Turn.spares o)) (place r) (fun _ _ _ => True)
      (fun _ _ y => Traced r.route y.2) {} (w, []) := by
  have hv : Standing.unrouted ≠ .routed := fun heq => by cases heq
  have hread : ∀ {q : Query}, Req.preliminary (.query [] q) → Calm Req.preliminary (execute q) :=
    calm_read
  have hmode : Stretch o (o + 1) [] .unrouted (· = []) (fun _ => True) executionMode (· = [])
      fun _ _ => True :=
    Stretch.bind (read_stretch (stable_const _)) fun _ => Stretch.pure fun _ h => h
  have hid : Stretch o (o + 1) [] .unrouted (· = []) (fun _ => True) newId (· = [])
      fun _ _ => True :=
    Stretch.await (fun _ heq => by cases heq) rfl (fun _ => rfl) (stable_const _)
  unfold place
  refine (assertTradingAllowed_stretch hv r.clientId).traced_bind
    ((assertTradingAllowed_calm r.clientId).mono gating_preliminary) rfl rfl
    (underway_other habsent) trivial (List.forall_mem_nil _) ?_
  intro _ s₁ w₁ l₁ hb₁ hS₁ hu₁ hl₁ _
  refine (read_stretch (stable_const True)).traced_bind (hread trivial) hb₁ hS₁ hu₁ trivial hl₁ ?_
  intro prior s₂ w₂ l₂ hb₂ hS₂ hu₂ hl₂ _
  cases prior with
  | some prior => trivial
  | none =>
      refine hmode.traced_bind executionMode_preliminary hb₂ hS₂ hu₂ trivial hl₂ ?_
      intro mode s₃ w₃ l₃ hb₃ hS₃ hu₃ hl₃ _
      split
      · exact hl₃.traced
      refine hid.traced_bind (Steps.newId trivial) hb₃ hS₃ hu₃ trivial hl₃ ?_
      intro oid s₄ w₄ l₄ hb₄ hS₄ hu₄ hl₄ _
      refine (acquireInflight_stretch hv oid).traced_bind (acquireInflight_preliminary oid)
        hb₄ hS₄ hu₄ trivial hl₄ ?_
      intro _ s₅ w₅ l₅ hb₅ hS₅ hu₅ hl₅ _
      exact whileInflight_traced oid r hb₅ hS₅ hu₅.absent hl₅

end Tracing

/-! ## Reported failures -/

/-- The world that `place(r)` leaves, with others having their turns in between. -/
def placed (r : PlaceRequest) (turns : Nat → Turn) (w : World) : Except Exn Reply × World :=
  ((place r).program fun x => .placed x.1 x.2).solo (amid handle) turns w

/-- What `place(r)` is told meanwhile. -/
def heardBy (r : PlaceRequest) (turns : Nat → Turn) (w : World) : List ((r : Req) × r.Ans) :=
  ((place r).program fun x => .placed x.1 x.2).heard (amid handle) turns w

section Reporting

variable (r : PlaceRequest) (turns : Nat → Turn) (w : World) (o : OrderId) (row : Order) (e : Exn)
  (hothers : ∀ n, (turns n).spares o) (habsent : w.db.orders.get? o = none)
  (hrow : (placed r turns w).2.db.orders.get? o = some row)
  (hraised : (placed r turns w).1 = .error e)

include hothers habsent hraised

theorem traced_heardBy : Traced r.route (heardBy r turns w) := by
  have hrun := Coro.program_solo (fun x => Reply.placed x.1 x.2)
    (place_traced r habsent) turns hothers
  rw [Prog.solo_tracked, foldl_listening, List.nil_append] at hrun
  obtain ⟨_, _, _, hok⟩ | ⟨_, _, htraced, _⟩ := hrun
  · cases hok.symm.trans hraised
  · exact htraced

include hrow

theorem failed_iff_handedOver :
    row.status = .failed ↔ Routed (heardBy r turns w) ∧ Harmless (heardBy r turns w) := by
  have hrun := Coro.program_solo (fun x => Reply.placed x.1 x.2)
    (place_ends r habsent) turns hothers
  rw [Prog.solo_tracked] at hrun
  obtain ⟨_, _, _, hok⟩ | ⟨_, _, hsettled, _⟩ := hrun
  · cases hok.symm.trans hraised
  · rw [hsettled row hrow]
    refine (foldl_hear (heardBy r turns w) .unrouted).trans ?_
    simp

/-- A `place` that has inserted the row of `o` and raises leaves it FAILED exactly when by the
answers it got there was a route and nothing went wrong that the submission loop has no
answer to. -/
theorem reported_iff :
    row.status = .failed ↔
      RouteFound r.route (heardBy r turns w) ∧ Harmless (heardBy r turns w) := by
  rw [failed_iff_handedOver r turns w o row e hothers habsent hrow hraised]
  refine and_congr_left fun hharmless => ?_
  rcases traced_heardBy r turns w o e hothers habsent hraised with ⟨x, hx, hharm⟩ | hiff
  · rw [hharmless x hx] at hharm
    cases hharm
  · exact hiff

end Reporting

/-! ## A rejection, and an order without a route -/

theorem spares_id (o : OrderId) (e : Env) : Turn.spares o (id, e) := fun _ => .of_db rfl

/-- Every await succeeds, and the broker refuses for good. -/
def refusing : Env := { fine with reply := .rejected "INVALID" "rejected" 422 false }

theorem reported_rejected :
    ∃ row, (placed buyOne (fun _ => (id, refusing)) oneBroker).2.db.orders.get? 3 = some row ∧
      (row.status = .failed ↔ RouteFound buyOne.route
        (heardBy buyOne (fun _ => (id, refusing)) oneBroker) ∧
        Harmless (heardBy buyOne (fun _ => (id, refusing)) oneBroker)) := by
  have hstored : ((placed buyOne (fun _ => (id, refusing)) oneBroker).2.db.orders.get? 3).isSome
      = true := by decide +kernel
  have hfailed : failed (placed buyOne (fun _ => (id, refusing)) oneBroker).1 = true := by
    decide +kernel
  obtain ⟨row, hrow⟩ := Option.isSome_iff_exists.mp hstored
  cases hres : (placed buyOne (fun _ => (id, refusing)) oneBroker).1 with
  | ok x => rw [hres] at hfailed; cases hfailed
  | error e =>
      exact ⟨row, hrow, reported_iff buyOne (fun _ => (id, refusing)) oneBroker 3 row e
        (fun _ => spares_id _ _) rfl hrow hres⟩

/-- Whenever `place` has inserted a row and raises, the row is FAILED. -/
def ReportedFinal : Prop :=
  ∀ (r : PlaceRequest) (turns : Nat → Turn) (w : World) (o : OrderId) (row : Order) (e : Exn),
    (∀ n, (turns n).spares o) → w.db.orders.get? o = none →
    (placed r turns w).2.db.orders.get? o = some row → (placed r turns w).1 = .error e →
    row.status = .failed

/-- A client without brokers. -/
def noBroker : World where
  db := { clients := .of [{ id := 1 }] }

/-- The order finds no route, and stays CREATED. -/
theorem not_reportedFinal : ¬ ReportedFinal := by
  intro h
  have hcreated : ((placed buyOne (fun _ => (id, fine)) noBroker).2.db.orders.get? 2).map
      (·.status) = some .created := by decide +kernel
  have hfailed : failed (placed buyOne (fun _ => (id, fine)) noBroker).1 = true := by
    decide +kernel
  obtain ⟨row, hrow, hst⟩ := Option.map_eq_some_iff.mp hcreated
  cases hres : (placed buyOne (fun _ => (id, fine)) noBroker).1 with
  | ok x => rw [hres] at hfailed; cases hfailed
  | error e =>
      have := h buyOne _ noBroker 2 row e (fun _ => spares_id _ _) rfl hrow hres
      rw [hst] at this
      cases this

end BrokerBridge
