import BrokerBridge.Code.Keeps
import BrokerBridge.Code.System
import BrokerBridge.Ips.Active

/-!
# Where a call is with a broker's lock

An assignment is made active only by `assign` and `rotate`, under the lock of the
broker. Before that, `assign` has found no active assignment of the broker, and
`rotate` the one that it ends or puts back. The phases of the protocol are that: the
token drawn, the lock held, nothing found, one found.

Everything else these calls do, and everything the other IP calls do, activates
nothing and leaves the brokers' locks alone.
-/

namespace BrokerBridge

open Conc

inductive Tenure where
  | out
  | drawn (t : Nat)
  /-- The lock was not to be had; the call is over. -/
  | refused
  | held (b : BrokerId) (t : Nat)
  | clear (b : BrokerId) (t : Nat)
  | found (b : BrokerId) (t : Nat) (a : AssignmentId)
  /-- An answer came that no world gives. -/
  | lost

/-- The lock that is held in the phase. -/
def Tenure.lock : Tenure → Option (BrokerId × Nat)
  | .held b t | .clear b t | .found b t _ => some (b, t)
  | _ => none

/-- The writes make one row active, a new one of this broker. -/
def Installs (b : BrokerId) (ws : List Write) : Prop :=
  ∃ l r l', ws = l ++ .addAssignment r :: l' ∧ Quiet l ∧ Quiet l' ∧ r.brokerAccountId = b

/-- The same, after ending another. -/
def Replaces (b : BrokerId) (a : AssignmentId) (ws : List Write) : Prop :=
  ∃ l r l', ws = l ++ .addAssignment r :: l' ∧ Quiet l ∧ Quiet l' ∧ r.brokerAccountId = b ∧
    .setAssignment a (.status .released) ∈ l

/-- The writes make one row active, and it is this one. -/
def Restores (a : AssignmentId) (ws : List Write) : Prop :=
  ∃ l l', ws = l ++ .setAssignment a (.status .active) :: l' ∧ Quiet l ∧ Quiet l'

def Tenure.commits : Tenure → List Write → Prop
  | .clear b _, ws => Quiet ws ∨ Installs b ws
  | .found b _ a, ws => Quiet ws ∨ Replaces b a ws ∨ Restores a ws
  | .lost, _ => True
  | _, ws => Quiet ws

/-- What a call may ask for that is not over. -/
def Tenure.admits (ph : Tenure) : Req → Prop
  | .commit ws => ph.commits ws
  | .acquire (.brokerIp _) ttl t => ph = .drawn t ∧ 0 < ttl ∨ ph = .lost
  | .release (.brokerIp b) t => ph.lock = some (b, t) ∨ ph = .lost
  | _ => True

def tenure : Protocol Req Req.Ans Tenure where
  allows ph r := ph ≠ .refused ∧ ph.admits r
  advance
    | .lost, _, _ => .lost
    | .out, .newId, t => .drawn t
    | .drawn _, .newId, t => .drawn t
    | .drawn t, .acquire (.brokerIp b) _ _, .ok true => .held b t
    | .drawn _, .acquire (.brokerIp _) _ _, _ => .refused
    | .held b t, .query [] (.activeAssignmentsOfBroker b'), .ok [] =>
        if b' = b then .clear b t else .held b t
    | .held b t, .query [] (.activeAssignment b'), .ok (some x) =>
        if b' = b then .found b t x.1.id else .held b t
    | .found b t a, .query _ (.assignment a'), .ok (some r) =>
        if r.id = a' then .found b t a else .lost
    | .clear b t, .commit ws, .ok _ => if Quiet ws then .clear b t else .held b t
    | .found b t a, .commit ws, .ok _ => if Quiet ws then .found b t a else .held b t
    | _, .release (.brokerIp _) _, _ => .out
    | ph, _, _ => ph

/-! ## Requests that leave the phase where it is -/

/-- Every phase of a call that is not over allows the request, and it goes on. -/
def Free (r : Req) : Prop :=
  ∀ ph : Tenure, ph ≠ .refused → tenure.allows ph r ∧ ∀ x, tenure.advance ph r x ≠ .refused

/-- Every phase in which a lock is held allows the request, and stays. -/
def Still (r : Req) : Prop :=
  ∀ ph : Tenure, ph.lock.isSome → tenure.allows ph r ∧ ∀ x, tenure.advance ph r x = ph

theorem commits_of_quiet {ws : List Write} (h : Quiet ws) (ph : Tenure) : ph.commits ws := by
  cases ph with
  | clear b t => exact .inl h
  | found b t a => exact .inl h
  | lost => trivial
  | _ => exact h

theorem not_refused_of_lock {ph : Tenure} (h : ph.lock.isSome) : ph ≠ .refused := by
  rintro rfl
  cases h

/-- Only the refusal of a broker's lock leads there. -/
theorem advance_ne_refused {ph : Tenure} {r : Req} (hph : ph ≠ .refused)
    (hr : ∀ b ttl t, r ≠ .acquire (.brokerIp b) ttl t) (x : r.Ans) :
    tenure.advance ph r x ≠ .refused := by
  intro h
  unfold tenure at h
  simp only at h
  split at h <;> first
    | exact hph h
    | exact hr _ _ _ rfl
    | (split at h <;> cases h)
    | cases h

/-- The writes of housekeeping, and any other that activates nothing. -/
def Idles (w : Write) : Prop := w.engages = false

theorem idles_of_keepsHouse {w : Write} (h : w.keepsHouse) : Idles w := by
  cases w with
  | setAssignment x f =>
      cases f with
      | status st =>
          have hst : st = .released := h
          subst hst
          rfl
      | releasedAt t => rfl
  | addIp | setIp | setHistory | enqueue => rfl
  | _ => exact h.elim

/-- A request that every phase admits, and that is not for a broker's lock. -/
theorem free_of_admits {r : Req} (h : ∀ ph : Tenure, ph.admits r)
    (hr : ∀ b ttl t, r ≠ .acquire (.brokerIp b) ttl t) : Free r :=
  fun ph hph => ⟨⟨hph, h ph⟩, advance_ne_refused hph hr⟩

theorem free_housekeeping : Housekeeping Free (·.Staged Idles) := by
  refine housekeeping_staged (fun {r} h => ?_) (fun _ _ => free_of_admits (fun _ => trivial) nofun)
    (fun h => free_of_admits (commits_of_quiet h) nofun)
    (fun _ => free_of_admits (fun _ => trivial) nofun) idles_of_keepsHouse
  cases r with
  | acquire k ttl t =>
      obtain ⟨x, rfl⟩ := h
      exact free_of_admits (fun _ => trivial) nofun
  | release k t =>
      obtain ⟨x, rfl⟩ := h
      exact free_of_admits (fun _ => trivial) nofun
  | rollback | newId | now | infra | fetchWhitelist | drainPolls | sleep =>
      exact free_of_admits (fun _ => trivial) nofun
  | _ => exact h.elim

theorem still_commit {ws : List Write} (h : Quiet ws) : Still (.commit ws) := by
  intro ph hph
  refine ⟨⟨not_refused_of_lock hph, commits_of_quiet h ph⟩, fun x => ?_⟩
  cases ph with
  | clear b t =>
      cases x with
      | ok _ => exact if_pos h
      | error _ => rfl
  | found b t a =>
      cases x with
      | ok _ => exact if_pos h
      | error _ => rfl
  | held b t => rfl
  | out | drawn | refused | lost => cases hph

theorem still_query {ws : List Write} {q : Query} (h : q.keepsHouse) : Still (.query ws q) := by
  intro ph hph
  refine ⟨⟨not_refused_of_lock hph, trivial⟩, fun x => ?_⟩
  cases ph with
  | held b t => cases q <;> first | exact h.elim | cases ws <;> rfl
  | clear b t => rfl
  | found b t a => cases q <;> first | exact h.elim | rfl
  | out | drawn | refused | lost => cases hph

/-- A lock of an IP is none of the phases' business. -/
theorem still_ipLock (x : IpId) (ttl : Int) (t : Nat) :
    Still (.acquire (.ip x) ttl t) ∧ Still (.release (.ip x) t) := by
  constructor <;>
  · intro ph hph
    refine ⟨⟨not_refused_of_lock hph, trivial⟩, fun _ => ?_⟩
    cases ph with
    | out | drawn | refused | lost => cases hph
    | _ => rfl

theorem still_flush (ws : List Write) : Still (.flush ws) := by
  intro ph hph
  refine ⟨⟨not_refused_of_lock hph, trivial⟩, fun _ => ?_⟩
  cases ph with
  | out | drawn | refused | lost => cases hph
  | _ => rfl

theorem still_request {r : Req} (h : r.keepsHouse) : Still r := by
  cases r with
  | acquire k ttl t =>
      obtain ⟨x, rfl⟩ := h
      exact (still_ipLock x ttl t).1
  | release k t =>
      obtain ⟨x, rfl⟩ := h
      exact (still_ipLock x 0 t).2
  | rollback | newId | now | infra | fetchWhitelist | drainPolls | sleep =>
      intro ph hph
      refine ⟨⟨not_refused_of_lock hph, trivial⟩, fun _ => ?_⟩
      cases ph with
      | out | drawn | refused | lost => cases hph
      | _ => rfl
  | _ => exact h.elim

theorem still_housekeeping : Housekeeping Still (·.Staged Idles) :=
  housekeeping_staged still_request (fun _ => still_query) still_commit (fun _ => still_flush _)
    idles_of_keepsHouse

/-- Housekeeping that only reads leaves what is pending as it is. -/
theorem still_reading {S : Session → Prop} (hb : ∀ s, S s → S { s with broken := true }) :
    Reading Still S where
  request := still_request
  query _ _ := still_query
  broken := hb _

/-! ## Stretches under the lock -/

section Stretches

variable {α : Type} {ph : Tenure} {s : Session} {Q : α → Session → Tenure → Prop}
  {E : Exn → Session → Tenure → Prop}

/-- A stretch under the lock that activates nothing. -/
theorem wp_still {S : Session → Prop} {t : Coro α} (ht : Keeps Still S t) (hph : ph.lock.isSome)
    (hs : S s) (hQ : ∀ a s', S s' → Q a s' ph) (hE : ∀ e s', S s' → E e s' ph) :
    Task.wp tenure.step t Q E s ph :=
  Task.wp_quiet (N := fun r => tenure.allows ph r ∧ ∀ x, tenure.advance ph r x = ph)
    (fun _ => id) (Task.wp_only_mono (fun _ hr => hr ph hph) (ht s hs) hQ hE)

/-- The lock, asked for with the token that was drawn. -/
theorem wp_takeLock {b : BrokerId} {ttl : Int} {t : Nat} {op : String} {s : Session}
    {Q : Bool → Session → Tenure → Prop} {E : Exn → Session → Tenure → Prop} (httl : 0 < ttl)
    (hgot : Q true s (.held b t)) (hnot : Q false s .refused) (hE : ∀ e, E e s .refused) :
    Task.wp tenure.step (acquireLock (.brokerIp b) ttl t op) Q E s (.drawn t) := by
  unfold acquireLock
  rw [Task.wp_bind, wp_await]
  refine ⟨⟨nofun, .inl ⟨rfl, httl⟩⟩, fun x => ?_⟩
  match x with
  | .ok true => exact hgot
  | .ok false => exact hnot
  | .error e => cases e <;> exact hE _

/-- The lock given back. -/
theorem wp_giveLock {b : BrokerId} {t : Nat} (hph : ph.lock = some (b, t))
    {Q : Unit → Session → Tenure → Prop} {E : Exn → Session → Tenure → Prop}
    (hQ : Q () s .out) (hE : ∀ e, E e s .out) :
    Task.wp tenure.step (releaseLock (.brokerIp b) t) Q E s ph := by
  unfold releaseLock
  rw [Task.wp_bind, wp_await]
  have hlocked : ph.lock.isSome := by rw [hph]; rfl
  refine ⟨⟨not_refused_of_lock hlocked, .inl hph⟩, fun x => ?_⟩
  have hout : tenure.advance ph (.release (.brokerIp b) t) x = .out := by
    cases ph with
    | lost => cases hph
    | _ => rfl
  rw [hout]
  match x with
  | .ok _ => exact hQ
  | .error e =>
      cases e with
      | redisUnavailable => exact hQ
      | _ => exact hE _

theorem wp_assignTo {F : Type} [Stored α F] [DecidableEq α] {r : α} {f : F}
    (h : Q (Stored.set f r) s ph)
    (h' : Q (Stored.set f r) { s with pending := s.pending ++ [Stored.write r f] } ph) :
    Task.wp tenure.step (assign r f) Q E s ph := by
  rcases wp_assign_cases (g := tenure.step) r f Q E s with heq | heq
  · exact heq ▸ h
  · exact heq ▸ h'

theorem lost_allows (r : Req) : tenure.allows .lost r := by
  refine ⟨nofun, ?_⟩
  cases r with
  | acquire k ttl t => cases k <;> first | exact .inr rfl | trivial
  | release k t => cases k <;> first | exact .inr rfl | trivial
  | _ => trivial

theorem wp_lost {t : Coro α} (hQ : ∀ a s, Q a s .lost) (hE : ∀ e s, E e s .lost) :
    Task.wp tenure.step t Q E s .lost := by
  refine Task.wp_quiet (N := fun _ => True) (fun r _ => ⟨lost_allows r, fun _ => rfl⟩)
    (Prog.only_true (fun r => ?_) (t s))
  obtain ⟨a | a, s'⟩ := r
  · exact hE a s'
  · exact hQ a s'

/-- An assignment selected by its id. -/
theorem wp_assignment {a' : AssignmentId} {Q : Option IpAssignment → Session → Tenure → Prop}
    (hph : ph.lock.isSome) (hlost : ∀ y, Q y s .lost)
    (hQ : ∀ y, (∀ b t a, ph = .found b t a → ∀ r, y = some r → r.id = a') → Q y s ph)
    (hself : ∀ e, E e s ph) (hbroken : ∀ e, E e { s with broken := true } ph) :
    Task.wp tenure.step (execute (.assignment a')) Q E s ph := by
  rw [wp_execute]
  split
  · exact hself _
  refine ⟨⟨not_refused_of_lock hph, trivial⟩, fun x => ?_⟩
  cases ph with
  | out | drawn | refused | lost => cases hph
  | held b t =>
      cases x with
      | error e => cases s.pending <;> exact hbroken e
      | ok y => cases s.pending <;> exact hQ y fun _ _ _ h => nomatch h
  | clear b t =>
      cases x with
      | error e => exact hbroken e
      | ok y => exact hQ y fun _ _ _ h => nomatch h
  | found b t a =>
      cases x with
      | error e => exact hbroken e
      | ok y =>
          cases y with
          | none => exact hQ none fun _ _ _ _ _ h => nomatch h
          | some r =>
              by_cases hr : r.id = a'
              · have hstay : tenure.advance (.found b t a) (.query s.pending (.assignment a'))
                    (.ok (some r)) = .found b t a := if_pos hr
                rw [hstay]
                exact hQ (some r) fun _ _ _ _ r' h => Option.some_inj.mp h ▸ hr
              · have hleave : tenure.advance (.found b t a) (.query s.pending (.assignment a'))
                    (.ok (some r)) = .lost := if_neg hr
                rw [hleave]
                exact hlost _

end Stretches

end BrokerBridge
