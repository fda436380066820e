import BrokerBridge.Conc.Pool
import BrokerBridge.Conc.Window
import BrokerBridge.RateLimit.Agree
import Mathlib.Data.List.Nodup
import Mathlib.Data.List.Perm.Subperm

/-!
# One limiter for many processes

Any number of processes call `RedisRateLimit` on one Redis. A step reads the clock or executes
one pipeline; between two of them anything else may happen, and time may pass. A call of `consume`
is allowed when its member is added, and that is when it counts.

Four things can go wrong. The check and the add are two pipelines, so two calls can both find
room for one. Two calls that add the same member count once. A member carries the time at which
the clock was read, and if the pipeline is late the member leaves the set before its call leaves
the window. And the start of the window is rounded, so a check may remove what is not yet too old.
`Roomy` rules these out, and nothing else; then no window holds more than the limit.
-/

namespace BrokerBridge

open Conc

/-- A call of some process. -/
structure RateTask where
  self : Nat
  window : Rat
  call : RateCall

/-- The processes and their server; time passes between the steps. -/
def replicas : Machine Redis Pipeline Pipeline.Ans Unit RateTask {d : Rat // 0 ≤ d} RateAnswer where
  prog c := c.call.prog c.self c.window
  handle := Redis.execute
  tick d r := { r with clock := r.clock + d.1 }

abbrev Replicas : Type := Pool Redis Pipeline Pipeline.Ans RateAnswer

/-- When a call was allowed, and the member it added. -/
structure Grant where
  time : Rat
  member : Member

/-- The grant that a pipeline on the key is. -/
def Pipeline.grant? (key : String) (clock : Rat) : Pipeline → Option Grant
  | .add k member _ => if k = key then some ⟨clock, member⟩ else none
  | _ => none

/-- The calls of `consume` on the key that were allowed, newest first. -/
def allowedOn (key : String) (trace : List (Nat × Pipeline × Redis)) : List Grant :=
  trace.filterMap fun x => x.2.1.grant? key x.2.2.clock

/-- The calls on the key have this window, and those of `consume` this limit. -/
def RateTask.Agreed (key : String) (limit window : Rat) (c : RateTask) : Prop :=
  match c.call with
  | .check k _ => k = key → c.window = window
  | .consume k l => k = key → l = limit ∧ c.window = window

/-- Calls that agree on the key's limit; whatever the order of their pipelines. -/
def Agreeing (key : String) (limit window : Rat) (_ : Replicas) :
    Event Unit RateTask {d : Rat // 0 ≤ d} → Prop
  | .start c => c.Agreed key limit window
  | _ => True

/-- The key has room for a member. -/
structure HasRoom (key : String) (limit window : Rat) (m : Member) (s : Replicas) : Prop where
  /-- A check made now would be passed. -/
  room : (((s.world.get key).members.filter fun x => s.world.clock - window < x.2).length : Rat) <
    limit
  new : m ∉ (s.world.get key).members.map (·.1)
  /-- No call that was allowed within the window has put an older time into the set. -/
  timely : ∀ g ∈ allowedOn key s.trace, s.world.clock - window < g.time →
    s.world.clock - window < g.member.now

/-- Wherever a member is added on the key there is room for it, and where the key is checked the
start of the window is not too late. -/
def Roomy (key : String) (limit window : Rat) (s : Replicas) :
    Event Unit RateTask {d : Rat // 0 ≤ d} → Prop
  | .step i _ =>
      (∀ m e k, s.prog? i = some (.call (.add key m e) k) → HasRoom key limit window m s) ∧
      ∀ start k, s.prog? i = some (.call (.count key start) k) → start ≤ s.world.clock - window
  | _ => True

/-- Nobody has called yet. -/
def Untouched (s : Replicas) : Prop := s.threads = [] ∧ s.trace = []

/-! ## What the set holds -/

/-- The call was allowed within the window, and its member is not older either. -/
def Grant.Recent (window clock : Rat) (g : Grant) : Prop :=
  clock - window < g.time ∧ clock - window < g.member.now

instance (window clock : Rat) (g : Grant) : Decidable (g.Recent window clock) :=
  inferInstanceAs (Decidable (_ ∧ _))

/-- The set of the key has a member for each call that was allowed within the window. -/
structure Held (key : String) (limit window : Rat) (allowed : List Grant) (r : Redis) : Prop where
  past : ∀ g ∈ allowed, g.time ≤ r.clock
  kept : ∀ g ∈ allowed, g.Recent window r.clock → (g.member, g.member.now) ∈ (r.sets key).members
  distinct : ((allowed.filter fun g => g.Recent window r.clock).map (·.member)).Nodup
  expiry : ∀ e, (r.sets key).expiresAt = some e → ∀ g ∈ allowed, g.time + window ≤ e
  sparse : Sparse window ⌈limit⌉₊ (allowed.map (·.time))

theorem Grant.Recent.earlier {window clock clock' : Rat} {g : Grant} (h : g.Recent window clock')
    (hle : clock ≤ clock') : g.Recent window clock :=
  ⟨(sub_le_sub_right hle window).trans_lt h.1, (sub_le_sub_right hle window).trans_lt h.2⟩

namespace Held

variable {key k : String} {limit window : Rat} {allowed : List Grant} {r : Redis}

theorem new (key : String) (limit window : Rat) (r : Redis) : Held key limit window [] r :=
  ⟨nofun, nofun, List.nodup_nil, fun _ _ => nofun, sparse_nil _ _⟩

theorem tick (h : Held key limit window allowed r) {d : Rat} (hd : 0 ≤ d) :
    Held key limit window allowed { r with clock := r.clock + d } := by
  have hlater : r.clock ≤ r.clock + d := le_add_of_nonneg_right hd
  refine ⟨fun g hg => (h.past g hg).trans hlater, fun g hg hrecent => ?_, ?_, h.expiry, h.sparse⟩
  · exact h.kept g hg (hrecent.earlier hlater)
  · have hsub : (allowed.filter fun g => g.Recent window (r.clock + d)).Sublist
        (allowed.filter fun g => g.Recent window r.clock) :=
      List.monotone_filter_right _ fun g hg => by
        have hrecent : g.Recent window (r.clock + d) := of_decide_eq_true hg
        exact decide_eq_true (hrecent.earlier hlater)
    exact h.distinct.sublist (hsub.map _)

/-- A key that has expired held nothing of the window. -/
theorem live (h : Held key limit window allowed r) {g : Grant} (hg : g ∈ allowed)
    (hrecent : g.Recent window r.clock) : (g.member, g.member.now) ∈ (r.get key).members := by
  have hkept := h.kept g hg hrecent
  rcases SortedSet.asOf_cases (r.sets key) r.clock with ⟨_, e, he, hle⟩ | ⟨heq, _⟩
  · have hold := h.expiry e he g hg
    have hlate := hrecent.1
    linarith
  · rw [Redis.get, heq]
    exact hkept

theorem get_expiry (h : Held key limit window allowed r) {e : Rat}
    (he : (r.get key).expiresAt = some e) : ∀ g ∈ allowed, g.time + window ≤ e := by
  rcases SortedSet.asOf_cases (r.sets key) r.clock with ⟨heq, _⟩ | ⟨heq, _⟩
  · rw [Redis.get, heq] at he
    cases he
  · rw [Redis.get, heq] at he
    exact h.expiry e he

theorem other (h : Held key limit window allowed r) (hk : k ≠ key) (z : SortedSet) :
    Held key limit window allowed (r.put k z) := by
  have hset : (r.put k z).sets key = r.sets key := if_neg (Ne.symm hk)
  refine ⟨h.past, ?_, h.distinct, ?_, h.sparse⟩
  · rw [hset]
    exact h.kept
  · rw [hset]
    exact h.expiry

/-- What the first pipeline removes is as old as the window. -/
theorem count (h : Held key limit window allowed r) {start : Rat}
    (hstart : start ≤ r.clock - window) :
    Held key limit window allowed (r.put key ((r.get key).zremrangebyscore 0 start)) := by
  have hset : (r.put key ((r.get key).zremrangebyscore 0 start)).sets key =
      (r.get key).zremrangebyscore 0 start := if_pos rfl
  refine ⟨h.past, fun g hg hrecent => ?_, h.distinct, fun e he => ?_, h.sparse⟩
  · rw [hset]
    refine List.mem_filter.mpr ⟨h.live hg hrecent, ?_⟩
    simp only [Bool.not_eq_true', Bool.and_eq_false_iff, decide_eq_false_iff_not]
    exact .inr (not_le.mpr (hstart.trans_lt hrecent.2))
  · rw [hset, SortedSet.zremrangebyscore] at he
    refine h.get_expiry ?_
    split at he
    · cases he
    · exact he

/-- There is room among the calls when there is room in the set. -/
theorem room (h : Held key limit window allowed r)
    (hroom : (((r.get key).members.filter fun x => r.clock - window < x.2).length : Rat) < limit)
    (htimely : ∀ g ∈ allowed, r.clock - window < g.time → r.clock - window < g.member.now) :
    (younger window r.clock (allowed.map (·.time))).length < ⌈limit⌉₊ := by
  have hrecent : allowed.filter (fun g => r.clock - window < g.time) =
      allowed.filter fun g => g.Recent window r.clock :=
    List.filter_congr fun g hg => decide_eq_decide.mpr ⟨fun h => ⟨h, htimely g hg h⟩, fun h => h.1⟩
  have hpairs : ((allowed.filter fun g => g.Recent window r.clock).map
      fun g => (g.member, g.member.now)).Nodup := by
    have hmap := h.distinct.map (f := fun m : Member => (m, m.now)) fun _ _ heq =>
      (Prod.mk.inj heq).1
    rw [List.map_map] at hmap
    exact hmap
  have hsub : (allowed.filter fun g => g.Recent window r.clock).map
      (fun g => (g.member, g.member.now)) ⊆
      (r.get key).members.filter fun x => r.clock - window < x.2 := by
    intro x hx
    obtain ⟨g, hg, rfl⟩ := List.mem_map.mp hx
    obtain ⟨hg, hgrecent⟩ := List.mem_filter.mp hg
    have hgrecent : g.Recent window r.clock := of_decide_eq_true hgrecent
    exact List.mem_filter.mpr ⟨h.live hg hgrecent, decide_eq_true hgrecent.2⟩
  have hle := (hpairs.subperm hsub).length_le
  rw [List.length_map] at hle
  have hyounger : (younger window r.clock (allowed.map (·.time))).length =
      (allowed.filter fun g => g.Recent window r.clock).length := by
    rw [← hrecent, younger, List.filter_map, List.length_map]
    rfl
  rw [hyounger]
  refine Nat.lt_ceil.mpr (lt_of_le_of_lt ?_ hroom)
  exact_mod_cast hle

theorem add (h : Held key limit window allowed r) (m : Member)
    (hroom : (((r.get key).members.filter fun x => r.clock - window < x.2).length : Rat) < limit)
    (hnew : m ∉ (r.get key).members.map (·.1))
    (htimely : ∀ g ∈ allowed, r.clock - window < g.time → r.clock - window < g.member.now) :
    Held key limit window (⟨r.clock, m⟩ :: allowed)
      (r.put key (((r.get key).zadd m m.now).expire r.clock (expiryOf window))) := by
  have hset : (r.put key (((r.get key).zadd m m.now).expire r.clock (expiryOf window))).sets key =
      ((r.get key).zadd m m.now).expire r.clock (expiryOf window) := if_pos rfl
  have hmembers : ((r.get key).zadd m m.now).members = (r.get key).members ++ [(m, m.now)] := by
    rw [SortedSet.zadd, List.filter_eq_self.mpr]
    exact fun x hx => decide_eq_true fun heq => hnew (heq ▸ List.mem_map_of_mem hx)
  have hpast : ∀ g ∈ ⟨r.clock, m⟩ :: allowed, g.time ≤ r.clock := by
    intro g hg
    rcases List.mem_cons.mp hg with rfl | hg
    · exact le_refl _
    · exact h.past g hg
  refine ⟨hpast, fun g hg hrecent => ?_, ?_, fun e he g hg => ?_, ?_⟩
  · rw [hset]
    show _ ∈ ((r.get key).zadd m m.now).members
    rw [hmembers]
    rcases List.mem_cons.mp hg with rfl | hg
    · exact List.mem_append_right _ (List.mem_singleton_self _)
    · exact List.mem_append_left _ (h.live hg hrecent)
  · show ((List.filter _ (⟨r.clock, m⟩ :: allowed)).map (·.member)).Nodup
    rw [List.filter_cons]
    split
    · refine List.nodup_cons.mpr ⟨fun hmem => ?_, h.distinct⟩
      obtain ⟨g, hg, rfl⟩ := List.mem_map.mp hmem
      obtain ⟨hg, hrecent⟩ := List.mem_filter.mp hg
      exact hnew (List.mem_map_of_mem (h.live hg (of_decide_eq_true hrecent)))
    · exact h.distinct
  · rw [hset] at he
    have he' : r.clock + expiryOf window = e := Option.some.inj he
    have hle := hpast g hg
    have hlt := lt_expiryOf window
    linarith
  · exact h.sparse.cons (h.room hroom htimely)

end Held

/-! ## Runs -/

/-- A pipeline that adds on the key asks for the expiry of its window. -/
def Pipeline.Agreed (key : String) (window : Rat) : Pipeline → Prop
  | .add k _ e => k = key → e = expiryOf window
  | _ => True

theorem RateTask.Agreed.all {key : String} {limit window : Rat} {c : RateTask}
    (h : c.Agreed key limit window) :
    (c.call.prog c.self c.window).All (Pipeline.Agreed key window) := by
  obtain ⟨self, w, call⟩ := c
  cases call with
  | check k l => exact ⟨trivial, fun _ => ⟨trivial, fun _ => trivial⟩⟩
  | consume k l =>
      refine ⟨trivial, fun now => ⟨trivial, fun used => ?_⟩⟩
      show (if _ then _ else _ : Prog Pipeline Pipeline.Ans RateAnswer).fold _ _
      split
      · trivial
      · exact ⟨trivial, fun _ => ⟨fun hk => congrArg expiryOf (h hk).2, fun _ => trivial⟩⟩

section Runs

variable {key : String} {limit window : Rat} {s : Replicas}

/-- The calls on the key agree, and where one adds its member there is room for it. -/
def Spaced (key : String) (limit window : Rat) (s : Replicas)
    (ev : Event Unit RateTask {d : Rat // 0 ≤ d}) : Prop :=
  Agreeing key limit window s ev ∧ Roomy key limit window s ev

/-- `consume` is allowed exactly when it comes to its second pipeline. -/
theorem consume_eq (self : Nat) (key : String) (limit window : Rat) :
    RedisRateLimit.consume self key limit window =
      .call .time fun (now : Rat) => .call (.count key (Binary64.double (now - window)))
        fun (used : Nat) =>
        if (used : Rat) < limit then
          .call .time fun (now : Rat) =>
            .call (.add key ⟨now, self⟩ (expiryOf window)) fun (n : Nat) =>
              .ret (rateAnswer Binary64.double true limit window n)
        else .ret (rateAnswer Binary64.double false limit window used) := by
  refine congrArg (Prog.call _) (funext fun now => congrArg (Prog.call _) (funext fun used => ?_))
  show (if !(decide ((used : Nat) < limit)) then Prog.ret _ else _) = _
  by_cases hroom : ((used : Nat) : Rat) < limit
  · rw [if_pos hroom, decide_eq_true hroom]
    rfl
  · rw [if_neg hroom, decide_eq_false hroom]
    rfl

theorem untouched : replicas.Reach Untouched (Spaced "rl:broker:1" 1 1) { world := {} } :=
  .init ⟨rfl, rfl⟩

end Runs

end BrokerBridge
