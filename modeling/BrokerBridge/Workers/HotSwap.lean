import Mathlib.Data.List.Nodup
import Mathlib.Data.List.Perm.Basic

/-!
# Hot swap of the event provider in the worker

The publisher's and the consumer's loop share one provider manager, and each keeps its
own last version of the active row. When a loop reads another version, it puts the
cached provider away and asks for one, and a call for a provider first closes what is
put away. Every `await` lets the other loop run, and may raise.

The cached provider is never closed. Which provider the consumer ends with depends on
the order: if the publisher's swap comes first, the consumer is subscribed to the
cached provider; if it comes second, the consumer stays with a closed one until the
next activation.
-/

namespace BrokerBridge.Workers

/-! ## The manager -/

/-- `ProviderManager`, as far as it keeps the event provider. A provider is the number
of those built before it, and `stale` begins with the one that `pop()` takes. -/
structure EventManager where
  cached : Option Nat := none
  eventVersion : Option Int := none
  stale : List Nat := []
  closed : List Nat := []
  built : Nat := 0
  deriving DecidableEq

/-- `_event_version` of what is built for the active row, or for the environment. -/
def versionOf : Option Nat → Int
  | some version => version
  | none => -1

namespace EventManager

/-- `self._stale.append(self._cache.pop("event"))` -/
def putAway (m : EventManager) : EventManager :=
  { m with cached := none, stale := m.cached.toList ++ m.stale }

/-- `invalidate("event")` -/
def invalidate (m : EventManager) : EventManager :=
  { m.putAway with eventVersion := none }

/-- `_close_stale` up to its next `aclose`; none if nothing is left to close. Both
providers are closed before the first `await` of `aclose`. -/
def closeNext (m : EventManager) : Option EventManager :=
  match m.stale with
  | [] => none
  | p :: rest => some { m with stale := rest, closed := p :: m.closed }

/-- `_build_event_provider`, with the new provider put in the slot. -/
def build (row : Option Nat) (m : EventManager) : EventManager :=
  { m with
    cached := some m.built
    eventVersion := some (versionOf row)
    built := m.built + 1 }

/-- The provider in the slot, if it is of this row's version. -/
def cachedFor (row : Option Nat) (m : EventManager) : Option Nat :=
  if m.eventVersion = some (versionOf row) then m.cached else none

end EventManager

/-- Where a call of `get_event_provider` is suspended: in the first `_close_stale`, in
the query for the active row, with its answer, or in the second `_close_stale`. -/
inductive Getting where
  | closing
  | asked
  | answered (row : Option Nat)
  | closingAgain (row : Option Nat)
  deriving DecidableEq

inductive Progress where
  | waits (g : Getting)
  | returns (p : Nat)
  | raises
  deriving DecidableEq

namespace EventManager

/-- `get_event_provider` from its start, or out of the first `aclose`. -/
def enter (m : EventManager) : Getting × EventManager :=
  match m.closeNext with
  | some m => (.closing, m)
  | none => (.asked, m)

/-- From the second `_close_stale` on. -/
def replace (row : Option Nat) (m : EventManager) : Progress × EventManager :=
  match m.closeNext with
  | some m => (.waits (.closingAgain row), m)
  | none => (.returns m.built, m.build row)

/-- `get_event_provider` from one suspension to the next, with `row` active. -/
def resume (row : Option Nat) (ok : Bool) (m : EventManager) : Getting → Progress × EventManager
  | .closing => (.waits m.enter.1, m.enter.2)
  | .asked => (if ok then .waits (.answered row) else .raises, m)
  | .answered seen =>
      match m.cachedFor seen with
      | some p => (.returns p, m)
      | none =>
          if m.cached.isSome then m.putAway.replace seen
          else (.returns m.built, m.build seen)
  | .closingAgain seen => m.replace seen

end EventManager

/-! ## The loops -/

inductive Publishing where
  | sleeping
  | asked
  | answered (version : Option Nat)
  | swapping (version : Option Nat) (g : Getting)
  | selecting
  | fetching (g : Getting)
  | publishing (p : Nat)
  deriving DecidableEq

structure Publisher where
  last : Option Nat := none
  pc : Publishing := .sleeping
  deriving DecidableEq

/-- `outbox_publisher_loop` from one suspension to the next; `more` tells whether there
is a pending row to publish. -/
def Publisher.step (row : Option Nat) (ok more : Bool) (c : Publisher) (m : EventManager) :
    Publisher × EventManager :=
  match c.pc with
  | .sleeping => ({ c with pc := .asked }, m)
  | .asked => ({ c with pc := if ok then .answered row else .sleeping }, m)
  | .answered version =>
      if version = c.last then ({ c with pc := .selecting }, m)
      else ({ c with pc := .swapping version m.invalidate.enter.1 }, m.invalidate.enter.2)
  | .swapping version g =>
      match m.resume row ok g with
      | (.waits g, m) => ({ c with pc := .swapping version g }, m)
      | (.returns _, m) => ({ last := version, pc := .selecting }, m)
      | (.raises, m) => ({ c with pc := .sleeping }, m)
  | .selecting =>
      if ok && more then ({ c with pc := .fetching m.enter.1 }, m.enter.2)
      else ({ c with pc := .sleeping }, m)
  | .fetching g =>
      match m.resume row ok g with
      | (.waits g, m) => ({ c with pc := .fetching g }, m)
      | (.returns p, m) => ({ c with pc := .publishing p }, m)
      | (.raises, m) => ({ c with pc := .sleeping }, m)
  -- what `publish` raises is caught for each row
  | .publishing p => ({ c with pc := if more then .publishing p else .sleeping }, m)

inductive Consuming where
  | sleeping
  | asked
  | answered (version : Option Nat)
  | cancelling (version : Option Nat)
  | getting (version : Option Nat) (g : Getting)
  | subscribing (version : Option Nat) (p : Nat)
  deriving DecidableEq

/-- `last` is none as long as it is the `object()` that equals no version; `current`
stands for the consume task as well. -/
structure Consumer where
  last : Option (Option Nat) := none
  current : Option Nat := none
  pc : Consuming := .sleeping
  deriving DecidableEq

/-- `event_consumer_loop` from one suspension to the next. -/
def Consumer.step (row : Option Nat) (ok : Bool) (c : Consumer) (m : EventManager) :
    Consumer × EventManager :=
  match c.pc with
  | .sleeping => ({ c with pc := .asked }, m)
  | .asked => ({ c with pc := if ok then .answered row else .sleeping }, m)
  | .answered version =>
      if c.last = some version then ({ c with pc := .sleeping }, m)
      else if c.current.isSome then ({ c with pc := .cancelling version }, m)
      else ({ c with pc := .getting version m.invalidate.enter.1 }, m.invalidate.enter.2)
  | .cancelling version =>
      ({ c with current := none, pc := .getting version m.invalidate.enter.1 },
        m.invalidate.enter.2)
  | .getting version g =>
      match m.resume row ok g with
      | (.waits g, m) => ({ c with pc := .getting version g }, m)
      -- `subscribe` raises on a closed provider
      | (.returns p, m) =>
          ({ c with pc := if p ∈ m.closed then .sleeping else .subscribing version p }, m)
      | (.raises, m) => ({ c with pc := .sleeping }, m)
  | .subscribing version p =>
      if ok then ({ last := some version, current := some p, pc := .sleeping }, m)
      else ({ c with pc := .sleeping }, m)

/-- The worker process, with the version of the active row in the database. -/
structure Worker where
  row : Option Nat := none
  manager : EventManager := {}
  publisher : Publisher := {}
  consumer : Consumer := {}
  deriving DecidableEq

/-- An activation of another row, or one of the loops goes on. -/
inductive Event where
  | activates (version : Nat)
  | publisher (ok more : Bool)
  | consumer (ok : Bool)
  deriving DecidableEq

def Worker.step (s : Worker) : Event → Worker
  | .activates version => { s with row := some version }
  | .publisher ok more =>
      let (c, m) := s.publisher.step s.row ok more s.manager
      { s with publisher := c, manager := m }
  | .consumer ok =>
      let (c, m) := s.consumer.step s.row ok s.manager
      { s with consumer := c, manager := m }

def Worker.run (s : Worker) (es : List Event) : Worker := es.foldl Worker.step s

/-! ## What the loops do to the manager -/

/-- Kept by whatever the manager does to the event provider. -/
structure Kept (P : EventManager → Prop) : Prop where
  putAway : ∀ {m : EventManager} {v : Option Int}, P m → P { m.putAway with eventVersion := v }
  closeNext : ∀ {m m' : EventManager}, P m → m.closeNext = some m' → P m'
  build : ∀ {m : EventManager} {row : Option Nat}, P m → P (m.build row)

namespace Kept

variable {P : EventManager → Prop} {m : EventManager} {row : Option Nat} {ok more : Bool}

theorem enter (h : Kept P) (hm : P m) : P m.enter.2 := by
  unfold EventManager.enter
  split
  · exact h.closeNext hm ‹_›
  · exact hm

theorem swap (h : Kept P) (hm : P m) : P m.invalidate.enter.2 :=
  h.enter (h.putAway hm)

theorem replace (h : Kept P) (hm : P m) : P (m.replace row).2 := by
  unfold EventManager.replace
  split
  · exact h.closeNext hm ‹_›
  · exact h.build hm

theorem resume (h : Kept P) (hm : P m) (g : Getting) : P (m.resume row ok g).2 := by
  cases g with
  | closing => exact h.enter hm
  | asked => exact hm
  | closingAgain seen => exact h.replace hm
  | answered seen =>
    simp only [EventManager.resume]
    split
    · exact hm
    · split
      · exact h.replace (h.putAway (v := m.eventVersion) hm)
      · exact h.build hm

theorem publisher (h : Kept P) (hm : P m) (c : Publisher) : P (c.step row ok more m).2 := by
  have hg : ∀ g, P (m.resume row ok g).2 := fun g => h.resume hm g
  unfold Publisher.step
  split
  · exact hm
  · exact hm
  · split
    · exact hm
    · exact h.swap hm
  · rename_i g _
    have := hg g
    split <;> simp_all
  · split
    · exact h.enter hm
    · exact hm
  · rename_i g _
    have := hg g
    split <;> simp_all
  · exact hm

theorem consumer (h : Kept P) (hm : P m) (c : Consumer) : P (c.step row ok m).2 := by
  have hg : ∀ g, P (m.resume row ok g).2 := fun g => h.resume hm g
  unfold Consumer.step
  split
  · exact hm
  · exact hm
  · split
    · exact hm
    · split
      · exact hm
      · exact h.swap hm
  · exact h.swap hm
  · rename_i g _
    have := hg g
    split <;> simp_all
  · split
    · exact hm
    · exact hm

theorem step (h : Kept P) {s : Worker} (hs : P s.manager) (e : Event) : P (s.step e).manager := by
  cases e with
  | activates version => exact hs
  | publisher ok more => exact h.publisher hs s.publisher
  | consumer ok => exact h.consumer hs s.consumer

theorem run (h : Kept P) (es : List Event) {s : Worker} (hs : P s.manager) :
    P (s.run es).manager := by
  induction es generalizing s with
  | nil => exact hs
  | cons e es ih => exact ih (h.step hs e)

end Kept

/-! ## Objects -/

/-- The providers the manager still knows of. -/
def EventManager.objects (m : EventManager) : List Nat := m.cached.toList ++ m.stale ++ m.closed

/-- No provider is in two places, or twice in one. -/
structure Sound (m : EventManager) : Prop where
  nodup : m.objects.Nodup
  lt_built : ∀ p ∈ m.objects, p < m.built

theorem closeNext_cases {m m' : EventManager} (h : m.closeNext = some m') :
    ∃ p rest, m.stale = p :: rest ∧ m' = { m with stale := rest, closed := p :: m.closed } := by
  unfold EventManager.closeNext at h
  cases hst : m.stale with
  | nil => simp [hst] at h
  | cons p rest =>
    rw [hst] at h
    exact ⟨p, rest, rfl, (Option.some.inj h).symm⟩

theorem sound_kept : Kept Sound where
  putAway := by
    intro m v h
    exact ⟨by simpa [EventManager.objects, EventManager.putAway] using h.nodup,
      by simpa [EventManager.objects, EventManager.putAway] using h.lt_built⟩
  closeNext := by
    intro m m' h heq
    obtain ⟨p, rest, hst, rfl⟩ := closeNext_cases heq
    have hperm : (m.cached.toList ++ rest ++ p :: m.closed).Perm m.objects := by
      simp only [EventManager.objects, hst, List.append_assoc, List.cons_append]
      exact List.perm_middle.append_left _
    exact ⟨hperm.nodup_iff.2 h.nodup, fun q hq => h.lt_built q (hperm.mem_iff.1 hq)⟩
  build := by
    intro m row h
    have hsub : (m.stale ++ m.closed).Sublist m.objects := by
      simp [EventManager.objects]
    have hlt : ∀ p ∈ m.stale ++ m.closed, p < m.built := fun p hp => h.lt_built p (hsub.subset hp)
    constructor
    · have hnew : m.built ∉ m.stale ++ m.closed := fun hp => Nat.lt_irrefl _ (hlt _ hp)
      simpa [EventManager.objects, EventManager.build] using
        List.nodup_cons.2 ⟨hnew, hsub.nodup h.nodup⟩
    · intro p hp
      have hp : p = m.built ∨ p ∈ m.stale ++ m.closed := by
        simpa [EventManager.objects, EventManager.build] using hp
      show p < m.built + 1
      obtain rfl | hp := hp
      · omega
      · have := hlt p hp
        omega

theorem Sound.not_closed {m : EventManager} (h : Sound m) {p : Nat} (hp : m.cached = some p) :
    p ∉ m.closed := by
  have := h.nodup
  simp only [EventManager.objects, hp, Option.toList_some, List.cons_append,
    List.nodup_cons, List.mem_append, not_or] at this
  exact this.1.2

theorem sound_run (es : List Event) : Sound (Worker.run {} es).manager :=
  sound_kept.run es ⟨List.nodup_nil, fun _ hp => by cases hp⟩

/-- A provider that is closed, and not the cached one. -/
structure Past (p : Nat) (m : EventManager) : Prop where
  closed : p ∈ m.closed
  lt_built : p < m.built
  not_cached : m.cached ≠ some p

theorem past_kept (p : Nat) : Kept (Past p) where
  putAway := fun h => ⟨h.closed, h.lt_built, by simp [EventManager.putAway]⟩
  closeNext := by
    intro m m' h heq
    obtain ⟨q, rest, _, rfl⟩ := closeNext_cases heq
    exact ⟨List.mem_cons_of_mem _ h.closed, h.lt_built, h.not_cached⟩
  build := by
    intro m row h
    refine ⟨h.closed, Nat.lt_succ_of_lt h.lt_built, ?_⟩
    have := h.lt_built
    simp only [EventManager.build, ne_eq, Option.some.injEq]
    omega

/-- The swap closes the provider that was cached: it is put away last, and taken first. -/
theorem past_of_swap {m : EventManager} (hm : Sound m) {p : Nat} (hp : m.cached = some p) :
    Past p m.invalidate.enter.2 := by
  have hlt : p < m.built := hm.lt_built p (by simp [EventManager.objects, hp])
  have heq : m.invalidate.enter.2 =
      { m with cached := none, eventVersion := none, closed := p :: m.closed } := by
    simp [EventManager.invalidate, EventManager.putAway, EventManager.enter,
      EventManager.closeNext, hp]
  rw [heq]
  exact ⟨List.mem_cons_self, hlt, by simp⟩

/-! ## After the publisher's swap -/

/-- No activation, and no `await` of the publisher raises. -/
def Event.calm : Event → Prop
  | .activates _ => False
  | .publisher ok _ => ok = true
  | .consumer _ => True

/-- Goes on with this row only. -/
def Getting.Of (row : Option Nat) : Getting → Prop
  | .closing => True
  | .asked => True
  | .answered seen => seen = row
  | .closingAgain seen => seen = row

/-- In its tick, the consumer has not found that the row is another one. -/
def Consuming.Resting (row : Option Nat) : Consuming → Prop
  | .sleeping => True
  | .asked => True
  | .answered version => version = row
  | _ => False

/-- The consumer has still to swap for this row, and has no provider for an older one in
the making. -/
def Consumer.Clear (row : Option Nat) (c : Consumer) : Prop :=
  c.last ≠ some row ∧
    match c.pc with
    | .getting _ g => g.Of row
    | .subscribing version _ => version ≠ row
    | _ => True

/-- The consumer has swapped for this row, and has this provider. -/
structure Consumer.Attached (row : Option Nat) (p : Nat) (c : Consumer) : Prop where
  last : c.last = some row
  current : c.current = some p
  pc : c.pc.Resting row

theorem Consumer.Attached.step {row : Option Nat} {p : Nat} {c : Consumer} (h : c.Attached row p)
    (ok : Bool) (m : EventManager) :
    (c.step row ok m).1.Attached row p ∧ (c.step row ok m).2 = m := by
  have hpc := h.pc
  unfold Consumer.step
  cases hc : c.pc with
  | sleeping => exact ⟨⟨h.last, h.current, trivial⟩, rfl⟩
  | asked =>
    refine ⟨⟨h.last, h.current, ?_⟩, rfl⟩
    cases ok <;> trivial
  | answered version =>
    rw [hc] at hpc
    have heq : c.last = some version := h.last.trans (congrArg some hpc.symm)
    dsimp only
    rw [if_pos heq]
    exact ⟨⟨h.last, h.current, trivial⟩, rfl⟩
  | cancelling version => rw [hc] at hpc; cases hpc
  | getting version g => rw [hc] at hpc; cases hpc
  | subscribing version p => rw [hc] at hpc; cases hpc

/-- The consumer is left with a closed provider. -/
structure Orphaned (row : Option Nat) (p : Nat) (s : Worker) : Prop where
  active : s.row = row
  consumer : s.consumer.Attached row p
  past : Past p s.manager

theorem Orphaned.step {row : Option Nat} {p : Nat} {s : Worker} (h : Orphaned row p s) {e : Event}
    (he : e.calm) : Orphaned row p (s.step e) := by
  have hpast := (past_kept p).step h.past e
  cases e with
  | activates version => cases he
  | publisher ok more => exact ⟨h.active, h.consumer, hpast⟩
  | consumer ok =>
    refine ⟨h.active, ?_, hpast⟩
    show (s.consumer.step s.row ok s.manager).1.Attached row p
    rw [h.active]
    exact (h.consumer.step ok s.manager).1

theorem Orphaned.run {row : Option Nat} {p : Nat} {s : Worker} (h : Orphaned row p s)
    {es : List Event} (hes : ∀ e ∈ es, e.calm) : Orphaned row p (s.run es) := by
  induction es generalizing s with
  | nil => exact h
  | cons e es ih =>
    exact ih (h.step (hes e List.mem_cons_self)) fun e' he => hes e' (List.mem_cons_of_mem e he)

/-- A provider in the slot is of this row's version. -/
def EventManager.Fits (row : Option Nat) (m : EventManager) : Prop :=
  ∀ p, m.cached = some p → m.eventVersion = some (versionOf row)

/-- As `Of`, and never found another version in the slot. -/
def Getting.First (row : Option Nat) : Getting → Prop
  | .closing => True
  | .asked => True
  | .answered seen => seen = row
  | .closingAgain _ => False

/-- The publisher has read this row, and puts nothing away any more. -/
def Publisher.Seen (row : Option Nat) (c : Publisher) : Prop :=
  match c.pc with
  | .swapping version g => version = row ∧ g.First row
  | .answered version => version = row ∧ c.last = row
  | .fetching g => g.First row ∧ c.last = row
  | _ => c.last = row

/-- The consumer has this provider, or is about to. -/
def Consumer.Took (row : Option Nat) (p : Nat) (c : Consumer) : Prop :=
  c.Attached row p ∨ c.pc = .subscribing row p ∧ c.last ≠ some row

/-- The consumer has still to swap, or has the cached provider. -/
structure Following (row : Option Nat) (s : Worker) : Prop where
  active : s.row = row
  fits : s.manager.Fits row
  publisher : s.publisher.Seen row
  consumer : s.consumer.Clear row ∨ ∃ p, s.manager.cached = some p ∧ s.consumer.Took row p

section Gets

variable {row : Option Nat} {ok more : Bool} {m : EventManager} {g : Getting}

theorem Getting.First.of (h : g.First row) : g.Of row := by
  cases g with
  | closing => trivial
  | asked => trivial
  | answered seen => exact h
  | closingAgain seen => cases h

theorem closeNext_slot {m' : EventManager} (h : m.closeNext = some m') :
    m'.cached = m.cached ∧ m'.eventVersion = m.eventVersion := by
  obtain ⟨p, rest, -, rfl⟩ := closeNext_cases h
  exact ⟨rfl, rfl⟩

theorem enter_slot (m : EventManager) (row : Option Nat) :
    m.enter.2.cached = m.cached ∧ m.enter.2.eventVersion = m.eventVersion ∧
      m.enter.1.First row := by
  unfold EventManager.enter
  split
  · obtain ⟨hcached, hversion⟩ := closeNext_slot ‹_›
    exact ⟨hcached, hversion, trivial⟩
  · exact ⟨rfl, rfl, trivial⟩

theorem fits_enter (h : m.Fits row) : m.enter.2.Fits row := by
  obtain ⟨hcached, hversion, -⟩ := enter_slot m row
  intro p hp
  rw [hversion]
  exact h p (hcached.symm.trans hp)

theorem fits_swap : m.invalidate.enter.2.Fits row :=
  fits_enter fun p hp => by cases hp

theorem fits_build : (m.build row).Fits row := fun _ _ => rfl

theorem cachedFor_of_fits (h : m.Fits row) : m.cachedFor row = m.cached := by
  unfold EventManager.cachedFor
  split
  · rfl
  · cases hc : m.cached with
    | none => rfl
    | some p => exact absurd (h p hc) ‹_›

/-- What a call for a provider comes to when it goes on with this row. -/
structure Gets (row : Option Nat) (x : Progress × EventManager) : Prop where
  fits : x.2.Fits row
  waits : ∀ g, x.1 = .waits g → g.Of row
  returns : ∀ p, x.1 = .returns p → x.2.cached = some p

theorem resume_of (hm : m.Fits row) (hg : g.Of row) : Gets row (m.resume row ok g) := by
  cases g with
  | closing =>
    refine ⟨fits_enter hm, ?_, fun p hp => by cases hp⟩
    intro g hg
    obtain rfl := Progress.waits.inj hg
    exact (enter_slot _ _).2.2.of
  | asked =>
    refine ⟨hm, ?_, ?_⟩
    · intro g hg
      cases ok with
      | false => cases hg
      | true => obtain rfl := Progress.waits.inj hg; rfl
    · intro p hp
      cases ok <;> cases hp
  | answered seen =>
    obtain rfl : seen = row := hg
    simp only [EventManager.resume, cachedFor_of_fits hm]
    cases hc : m.cached with
    | none => exact ⟨fits_build, fun g hg => (by cases hg), fun p hp => by cases hp; rfl⟩
    | some p => exact ⟨hm, fun g hg => (by cases hg), fun q hq => by cases hq; exact hc⟩
  | closingAgain seen =>
    obtain rfl : seen = row := hg
    simp only [EventManager.resume, EventManager.replace]
    split
    · rename_i m' hclose
      obtain ⟨hcached, hversion⟩ := closeNext_slot hclose
      refine ⟨?_, fun g hg => (by cases hg; rfl), fun p hp => by cases hp⟩
      intro p hp
      exact hversion.trans (hm p (hcached.symm.trans hp))
    · exact ⟨fits_build, fun g hg => (by cases hg), fun p hp => by cases hp; rfl⟩

theorem resume_first (hm : m.Fits row) (hg : g.First row) :
    (∀ g', (m.resume row true g).1 = .waits g' → g'.First row) ∧
      (m.resume row true g).1 ≠ .raises ∧
      ∀ p, m.cached = some p → (m.resume row true g).2.cached = some p := by
  cases g with
  | closing =>
    refine ⟨?_, fun h => (by cases h), fun p hp => (enter_slot m row).1.trans hp⟩
    intro g hg
    obtain rfl := Progress.waits.inj hg
    exact (enter_slot _ _).2.2
  | asked => exact ⟨fun g hg => (by cases hg; rfl), fun h => (by cases h), fun p hp => hp⟩
  | answered seen =>
    obtain rfl : seen = row := hg
    simp only [EventManager.resume, cachedFor_of_fits hm]
    cases hc : m.cached with
    | none => exact ⟨fun g hg => (by cases hg), fun h => (by cases h), fun p hp => by cases hp⟩
    | some p => exact ⟨fun g hg => (by cases hg), fun h => (by cases h), fun q hq => hc.trans hq⟩
  | closingAgain seen => cases hg

end Gets

section Following

variable {row : Option Nat} {s : Worker} {c : Publisher} {m : EventManager}

/-- What a publisher that has seen the row leaves of the slot. -/
structure Spares (row : Option Nat) (m : EventManager) (x : Publisher × EventManager) : Prop where
  seen : x.1.Seen row
  fits : x.2.Fits row
  cached : ∀ p, m.cached = some p → x.2.cached = some p

theorem Publisher.Seen.step (hc : c.Seen row) (hm : m.Fits row) (more : Bool) :
    Spares row m (c.step row true more m) := by
  obtain ⟨last, pc⟩ := c
  cases pc with
  | sleeping => exact ⟨hc, hm, fun p hp => hp⟩
  | asked => exact ⟨⟨rfl, hc⟩, hm, fun p hp => hp⟩
  | answered version =>
    obtain ⟨rfl, rfl⟩ : version = row ∧ last = row := hc
    simp only [Publisher.step, if_true]
    exact ⟨rfl, hm, fun p hp => hp⟩
  | swapping version g =>
    obtain ⟨rfl, hg⟩ : version = row ∧ g.First row := hc
    obtain ⟨hwaits, hraises, hcached⟩ := resume_first hm hg
    have hfits : (m.resume version true g).2.Fits version := (resume_of hm hg.of).fits
    simp only [Publisher.step]
    cases hr : m.resume version true g with
    | mk x m' =>
      rw [hr] at hwaits hraises hcached hfits
      cases x with
      | waits g' => exact ⟨⟨rfl, hwaits g' rfl⟩, hfits, hcached⟩
      | returns p => exact ⟨rfl, hfits, hcached⟩
      | raises => exact absurd rfl hraises
  | selecting =>
    cases more with
    | false => exact ⟨hc, hm, fun p hp => hp⟩
    | true =>
      obtain ⟨hcached, -, hg⟩ := enter_slot m row
      exact ⟨⟨hg, hc⟩, fits_enter hm, fun p hp => hcached.trans hp⟩
  | fetching g =>
    obtain ⟨hg, rfl⟩ : g.First row ∧ last = row := hc
    obtain ⟨hwaits, hraises, hcached⟩ := resume_first hm hg
    have hfits : (m.resume last true g).2.Fits last := (resume_of hm hg.of).fits
    simp only [Publisher.step]
    cases hr : m.resume last true g with
    | mk x m' =>
      rw [hr] at hwaits hraises hcached hfits
      cases x with
      | waits g' => exact ⟨⟨hwaits g' rfl, rfl⟩, hfits, hcached⟩
      | returns p => exact ⟨rfl, hfits, hcached⟩
      | raises => exact absurd rfl hraises
  | publishing p => cases more <;> exact ⟨hc, hm, fun p hp => hp⟩

/-- The consumer in a manager that fits: it still has to swap, or has the cached one. -/
structure Holds (row : Option Nat) (x : Consumer × EventManager) : Prop where
  fits : x.2.Fits row
  consumer : x.1.Clear row ∨ ∃ p, x.2.cached = some p ∧ x.1.Took row p

theorem Consumer.Clear.step {c : Consumer} (hc : c.Clear row) (hm : m.Fits row) (ok : Bool)
    (hsound : Sound (c.step row ok m).2) : Holds row (c.step row ok m) := by
  obtain ⟨last, current, pc⟩ := c
  obtain ⟨hlast, hpc⟩ := hc
  cases pc with
  | sleeping => exact ⟨hm, .inl ⟨hlast, trivial⟩⟩
  | asked =>
    refine ⟨hm, .inl ⟨hlast, ?_⟩⟩
    cases ok <;> trivial
  | answered version =>
    simp only [Consumer.step]
    split
    · exact ⟨hm, .inl ⟨hlast, trivial⟩⟩
    · split
      · exact ⟨hm, .inl ⟨hlast, trivial⟩⟩
      · exact ⟨fits_swap, .inl ⟨hlast, (enter_slot _ _).2.2.of⟩⟩
  | cancelling version => exact ⟨fits_swap, .inl ⟨hlast, (enter_slot _ _).2.2.of⟩⟩
  | getting version g =>
    have hgets : Gets row (m.resume row ok g) := resume_of hm hpc
    simp only [Consumer.step] at hsound ⊢
    cases hr : m.resume row ok g with
    | mk x m' =>
      rw [hr] at hgets hsound
      cases x with
      | waits g' => exact ⟨hgets.fits, .inl ⟨hlast, hgets.waits g' rfl⟩⟩
      | raises => exact ⟨hgets.fits, .inl ⟨hlast, trivial⟩⟩
      | returns p =>
        have hcached := hgets.returns p rfl
        have hopen := Sound.not_closed hsound hcached
        simp only [if_neg hopen]
        refine ⟨hgets.fits, ?_⟩
        by_cases hv : version = row
        · subst hv
          exact .inr ⟨p, hcached, .inr ⟨rfl, hlast⟩⟩
        · exact .inl ⟨hlast, hv⟩
  | subscribing version p =>
    cases ok with
    | false => exact ⟨hm, .inl ⟨hlast, trivial⟩⟩
    | true => exact ⟨hm, .inl ⟨fun h => hpc (Option.some.inj h), trivial⟩⟩

theorem Consumer.Took.step {c : Consumer} {p : Nat} (hc : c.Took row p) (hm : m.Fits row)
    (hp : m.cached = some p) (ok : Bool) : Holds row (c.step row ok m) := by
  obtain hc | ⟨hpc, hlast⟩ := hc
  · obtain ⟨hattached, heq⟩ := hc.step ok m
    rw [show c.step row ok m = ((c.step row ok m).1, m) from Prod.ext rfl heq]
    exact ⟨hm, .inr ⟨p, hp, .inl hattached⟩⟩
  · unfold Consumer.step
    rw [hpc]
    cases ok with
    | false => exact ⟨hm, .inl ⟨hlast, trivial⟩⟩
    | true => exact ⟨hm, .inr ⟨p, hp, .inl ⟨rfl, rfl, trivial⟩⟩⟩

theorem Following.step (h : Following row s) (hs : Sound s.manager) {e : Event} (he : e.calm) :
    Following row (s.step e) := by
  have hsound := sound_kept.step hs e
  obtain ⟨rfl, hm, hpub, hcon⟩ := h
  cases e with
  | activates version => cases he
  | publisher ok more =>
    obtain rfl : ok = true := he
    have hstep := hpub.step hm more
    refine ⟨rfl, hstep.fits, hstep.seen, ?_⟩
    obtain hclear | ⟨p, hp, htook⟩ := hcon
    · exact .inl hclear
    · exact .inr ⟨p, hstep.cached p hp, htook⟩
  | consumer ok =>
    have hstep : Holds s.row (s.consumer.step s.row ok s.manager) := by
      obtain hclear | ⟨p, hp, htook⟩ := hcon
      · exact hclear.step hm ok hsound
      · exact htook.step hm hp ok
    exact ⟨rfl, hstep.fits, hpub, hstep.consumer⟩

theorem Following.run (h : Following row s) (hs : Sound s.manager) {es : List Event}
    (hes : ∀ e ∈ es, e.calm) : Following row (s.run es) := by
  induction es generalizing s with
  | nil => exact h
  | cons e es ih =>
    exact ih (h.step hs (hes e List.mem_cons_self)) (sound_kept.step hs e)
      fun e' he => hes e' (List.mem_cons_of_mem e he)

/-- The publisher's swap for the active row. -/
theorem swap_step (hpc : s.publisher.pc = .answered s.row) (hlast : s.publisher.last ≠ s.row)
    (ok more : Bool) :
    s.step (.publisher ok more) =
      { s with
        publisher :=
          { s.publisher with pc := .swapping s.row s.manager.invalidate.enter.1 }
        manager := s.manager.invalidate.enter.2 } := by
  simp only [Worker.step, Publisher.step, hpc, if_neg hlast.symm]

end Following

/-- If the publisher swaps for the active row, then until the next activation, and as
long as none of its ticks fails: a consumer that swaps for the row afterwards has the
cached provider, and one that already had the cached provider stays with that one, which
is closed. -/
theorem follows_of_swap (es : List Event) {es' : List Event} (hes : ∀ e ∈ es', e.calm)
    (ok more : Bool) (hpc : (Worker.run {} es).publisher.pc = .answered (Worker.run {} es).row)
    (hlast : (Worker.run {} es).publisher.last ≠ (Worker.run {} es).row) :
    let s := Worker.run {} es
    let u := s.run (.publisher ok more :: es')
    (s.consumer.Clear s.row → u.consumer.last = some s.row →
      ∃ p, u.consumer.current = some p ∧ u.manager.cached = some p ∧ p ∉ u.manager.closed) ∧
    (∀ p, s.consumer.Attached s.row p → s.manager.cached = some p →
      u.consumer.Attached s.row p ∧ u.manager.cached ≠ some p ∧ p ∈ u.manager.closed) := by
  intro s u
  have hs : Sound s.manager := sound_run es
  have ht : Sound (s.step (.publisher ok more)).manager := sound_kept.step hs _
  have heq := swap_step hpc hlast ok more
  constructor
  · intro hclear hu
    have hfollowing : Following s.row (s.step (.publisher ok more)) := by
      rw [heq]
      exact ⟨rfl, fits_swap, ⟨rfl, (enter_slot _ _).2.2⟩, .inl hclear⟩
    have hrun := hfollowing.run ht hes
    obtain hclear | ⟨p, hp, htook⟩ := hrun.consumer
    · exact absurd hu hclear.1
    · have hopen := (sound_kept.run es' ht).not_closed hp
      obtain hattached | ⟨-, hne⟩ := htook
      · exact ⟨p, hattached.current, hp, hopen⟩
      · exact absurd hu hne
  · intro p hattached hp
    have horphaned : Orphaned s.row p (s.step (.publisher ok more)) := by
      rw [heq]
      exact ⟨rfl, hattached, past_of_swap hs hp⟩
    have hrun := horphaned.run hes
    exact ⟨hrun.consumer, hrun.past.not_cached, hrun.past.closed⟩

def ticks (n : Nat) (e : Event) : List Event := List.replicate n e

/-- The publisher reads the first activation before, and after, the consumer's swap. -/
theorem follows_of_swap_eitherOrder :
    let ready := ticks 2 (.publisher true false)
    let rest := ticks 3 (.publisher true false) ++ ticks 7 (.consumer true)
    (let u := (Worker.run {} (.activates 1 :: ready)).run (.publisher true false :: rest)
     ∃ p, u.consumer.current = some p ∧ u.manager.cached = some p ∧ p ∉ u.manager.closed) ∧
    (let s := Worker.run {} (.activates 1 :: (ticks 6 (.consumer true) ++ ready))
     let u := s.run (.publisher true false :: rest)
     u.consumer.Attached (some 1) 0 ∧ u.manager.cached ≠ some 0 ∧ 0 ∈ u.manager.closed) := by
  have hcalm : ∀ e ∈ ticks 3 (.publisher true false) ++ ticks 7 (.consumer true), e.calm := by
    simp [ticks, Event.calm]
  constructor
  · exact (follows_of_swap (.activates 1 :: ticks 2 (.publisher true false)) hcalm true false
      rfl (by decide)).1 ⟨by decide, trivial⟩ rfl
  · exact (follows_of_swap
      (.activates 1 :: (ticks 6 (.consumer true) ++ ticks 2 (.publisher true false))) hcalm true
      false rfl (by decide)).2 0 ⟨rfl, rfl, trivial⟩ rfl

end BrokerBridge.Workers
