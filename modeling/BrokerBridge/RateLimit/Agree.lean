import BrokerBridge.RateLimit.Limiters
import Mathlib.Tactic.Linarith

/-!
# Where the two limiters agree

Calls one after another, made at increasing readings of one clock, are answered by
`MemoryRateLimit` and by `RedisRateLimit`. Both keep a list of times for each key and
forget some of them only when the key is used; that a key expires in Redis makes no
difference, for by then all its members are too old.

The one compares the age of a hit with the window, the other one the hit with the start of the
window. On exact numbers that is the same. Of doubles both differences are rounded, and then
a hit may be in the window for the one and not for the other (`SameSide`). Where that never
happens the lists are equal throughout and so are the answers; and where it happens for two
readings, there are calls at these readings that tell the limiters apart.
-/

namespace BrokerBridge

open Conc Binary64

/-- The two limiters judge alike, at `now`, of a hit at `t`. -/
def SameSide (window t now : Rat) : Prop :=
  double (now - t) < window ↔ double (now - window) < t

instance (window t now : Rat) : Decidable (SameSide window t now) :=
  inferInstanceAs (Decidable (_ ↔ _))

/-- The times of a key in memory and its sorted set, some time after `last`. -/
structure Matches (window last : Rat) (hits : List Rat) (z : SortedSet) : Prop where
  scores : z.members.map (·.2) = hits
  earlier : ∀ x ∈ z.members, x.1.now = x.2 ∧ 0 ≤ x.2 ∧ x.2 ≤ last
  expiry : ∀ e, z.expiresAt = some e → ∀ x ∈ z.members, x.2 + window ≤ e

theorem lt_expiryOf (window : Rat) : window < expiryOf window := by
  have hmax : intOf window + 1 ≤ expiryOf window := le_max_right _ _
  have hone : (1 : Int) ≤ expiryOf window := le_max_left _ _
  have hmaxRat : ((intOf window : Int) : Rat) + 1 ≤ expiryOf window := by exact_mod_cast hmax
  have honeRat : (1 : Rat) ≤ expiryOf window := by exact_mod_cast hone
  rcases le_or_gt 0 window with h | h
  · have hfloor : intOf window = ⌊window⌋ := if_pos h
    rw [hfloor] at hmaxRat
    exact lt_of_lt_of_le (Int.lt_floor_add_one window) hmaxRat
  · linarith

namespace SortedSet

variable {z : SortedSet} {now : Rat}

theorem asOf_cases (z : SortedSet) (now : Rat) :
    (z.asOf now = {} ∧ ∃ e, z.expiresAt = some e ∧ e ≤ now) ∨
    (z.asOf now = z ∧ ∀ e, z.expiresAt = some e → now < e) := by
  unfold asOf
  cases h : z.expiresAt with
  | none => exact .inr ⟨rfl, nofun⟩
  | some e =>
      by_cases he : e ≤ now
      · exact .inl ⟨if_pos (decide_eq_true he), e, rfl, he⟩
      · refine .inr ⟨if_neg fun hd => he (of_decide_eq_true hd), ?_⟩
        rintro _ ⟨⟩
        exact not_le.mp he

theorem asOf_of_lasting (h : ∀ e, z.expiresAt = some e → now < e) : z.asOf now = z := by
  rcases asOf_cases z now with ⟨_, e, he, hle⟩ | ⟨heq, _⟩
  · exact absurd (h e he) (not_lt.mpr hle)
  · exact heq

/-- What a pipeline has looked at does not expire in the same moment. -/
theorem asOf_zremrangebyscore (low high : Rat) :
    ((z.asOf now).zremrangebyscore low high).asOf now = (z.asOf now).zremrangebyscore low high := by
  refine asOf_of_lasting fun e he => ?_
  have hkept : (z.asOf now).expiresAt = some e := by
    rw [zremrangebyscore] at he
    split at he
    · cases he
    · exact he
  rcases asOf_cases z now with ⟨heq, _⟩ | ⟨heq, hlasting⟩
  · rw [heq] at hkept
    cases hkept
  · rw [heq] at hkept
    exact hlasting e hkept

end SortedSet

namespace Matches

variable {window last now : Rat} {hits : List Rat} {z : SortedSet}

theorem new (window last : Rat) : Matches window last [] {} := ⟨rfl, nofun, nofun⟩

theorem later (h : Matches window last hits z) {last' : Rat} (hlast : last ≤ last') :
    Matches window last' hits z :=
  ⟨h.scores, fun x hx => ⟨(h.earlier x hx).1, (h.earlier x hx).2.1,
    (h.earlier x hx).2.2.trans hlast⟩, h.expiry⟩

/-- What the first pipeline leaves of the set is what pruning leaves of the list: an expired
key has only members that are too old. -/
theorem prune (h : Matches window last hits z) (hwindow : IsDouble window)
    (hsame : ∀ t ∈ hits, SameSide window t now) :
    Matches window last (hits.filter fun t => double (now - t) < window)
      ((z.asOf now).zremrangebyscore 0 (double (now - window))) := by
  rcases SortedSet.asOf_cases z now with ⟨heq, e, he, hle⟩ | ⟨heq, _⟩
  · have hnone : (hits.filter fun t => decide (double (now - t) < window)) = [] := by
      rw [← h.scores]
      refine List.filter_eq_nil_iff.mpr fun t ht hyoung => ?_
      obtain ⟨x, hx, rfl⟩ := List.mem_map.mp ht
      have hold := h.expiry e he x hx
      have hage : window ≤ now - x.2 := by linarith
      exact absurd (of_decide_eq_true hyoung) (not_lt.mpr (le_double_of_le hwindow hage))
    rw [heq, hnone]
    exact new window last
  · rw [heq]
    have hkept : ∀ x ∈ z.members,
        (!(decide (0 ≤ x.2) && decide (x.2 ≤ double (now - window)))) =
          decide (double (now - x.2) < window) := by
      intro x hx
      have hpos := (h.earlier x hx).2.1
      rw [decide_eq_true hpos, Bool.true_and, ← decide_not, decide_eq_decide, not_le]
      exact (hsame x.2 (h.scores ▸ List.mem_map_of_mem hx)).symm
    refine ⟨?_, fun x hx => h.earlier x (List.mem_of_mem_filter hx), fun e he x hx => ?_⟩
    · rw [← h.scores, List.filter_map]
      exact congrArg (List.map Prod.snd) (List.filter_congr hkept)
    · refine h.expiry e ?_ x (List.mem_of_mem_filter hx)
      rw [SortedSet.zremrangebyscore] at he
      split at he
      · cases he
      · exact he

/-- The second pipeline adds a member that is new. -/
theorem add (h : Matches window last hits z) (self : Nat) (hlast : last < now) (hnow : 0 ≤ now) :
    Matches window now (hits ++ [now])
      ((z.zadd ⟨now, self⟩ now).expire now (expiryOf window)) := by
  have hnew : z.members.filter (·.1 ≠ ⟨now, self⟩) = z.members := by
    refine List.filter_eq_self.mpr fun x hx => decide_eq_true fun heq => ?_
    obtain ⟨hname, _, hle⟩ := h.earlier x hx
    rw [heq] at hname
    simp only at hname
    linarith
  have hmembers : (z.zadd ⟨now, self⟩ now).members = z.members ++ [(⟨now, self⟩, now)] := by
    rw [SortedSet.zadd, hnew]
  have hearlier : ∀ x ∈ z.members ++ [(⟨now, self⟩, now)],
      x.1.now = x.2 ∧ 0 ≤ x.2 ∧ x.2 ≤ now := by
    intro x hx
    rcases List.mem_append.mp hx with hx | hx
    · exact (h.later hlast.le).earlier x hx
    · rw [List.mem_singleton.mp hx]
      exact ⟨rfl, hnow, le_refl now⟩
  refine ⟨?_, ?_, ?_⟩
  · show (z.zadd ⟨now, self⟩ now).members.map (·.2) = _
    rw [hmembers, List.map_append, h.scores]
    rfl
  · intro x hx
    change x ∈ (z.zadd ⟨now, self⟩ now).members at hx
    rw [hmembers] at hx
    exact hearlier x hx
  · rintro _ ⟨⟩ x hx
    change x ∈ (z.zadd ⟨now, self⟩ now).members at hx
    rw [hmembers] at hx
    have hle := (hearlier x hx).2.2
    have hwindow := lt_expiryOf window
    linarith

end Matches

/-! ## Sequences of calls -/

inductive RateCall where
  | check (key : String) (limit : Rat)
  | consume (key : String) (limit : Rat)

namespace RateCall

variable (fl : Rat → Rat) (self : Nat) (window now : Rat)

def key : RateCall → String
  | .check key _ | .consume key _ => key

def onMemory (m : MemoryRateLimit) : RateCall → RateAnswer × MemoryRateLimit
  | .check key limit => m.check fl key limit window now
  | .consume key limit => m.consume fl key limit window now

def prog : RateCall → Prog Pipeline Pipeline.Ans RateAnswer
  | .check key limit => RedisRateLimit.check key limit window
  | .consume key limit => RedisRateLimit.consume self key limit window

/-- The call run alone, all of it at one reading of the clock. -/
def onRedis (r : Redis) (c : RateCall) : RateAnswer × Redis :=
  (c.prog self window).solo Redis.execute (fun _ => ()) { r with clock := now }

end RateCall

/-- The answers to calls made one after another, each at its time. -/
def memoryAnswers (fl : Rat → Rat) (window : Rat) :
    MemoryRateLimit → List (Rat × RateCall) → List RateAnswer
  | _, [] => []
  | m, (now, c) :: calls =>
      (c.onMemory fl window now m).1 :: memoryAnswers fl window (c.onMemory fl window now m).2 calls

def redisAnswers (self : Nat) (window : Rat) : Redis → List (Rat × RateCall) → List RateAnswer
  | _, [] => []
  | r, (now, c) :: calls =>
      (c.onRedis self window now r).1 :: redisAnswers self window
        (c.onRedis self window now r).2 calls

/-- The two limiters, some time after `last`. -/
def Simulates (window last : Rat) (m : MemoryRateLimit) (r : Redis) : Prop :=
  ∀ key, Matches window last (m.hits key) (r.sets key)

section Simulation

variable {fl : Rat → Rat} {window last now t : Rat} {m : MemoryRateLimit} {r : Redis} {self : Nat}

/-- One key has been used, and the others are as they were. -/
theorem Simulates.update (h : Simulates window last m r) (hlast : last ≤ now) (key : String)
    {hits : List Rat} {z : SortedSet} (hz : Matches window now hits z) (clock : Rat) :
    Simulates window now { hits := fun k => if k = key then hits else m.hits k }
      { sets := fun k => if k = key then z else r.sets k, clock := clock } := by
  intro k
  show Matches window now (if k = key then hits else m.hits k) (if k = key then z else r.sets k)
  split
  · exact hz
  · exact (h k).later hlast

theorem Matches.zcard {hits : List Rat} {z : SortedSet} (h : Matches window last hits z) :
    z.zcard = hits.length := by
  rw [← h.scores, List.length_map]
  rfl

theorem onRedis_check (key : String) (limit : Rat) {z : SortedSet}
    (hz : ((r.sets key).asOf now).zremrangebyscore 0 (double (now - window)) = z) :
    (RateCall.check key limit).onRedis self window now r =
      (rateAnswer double ((z.zcard : Rat) < limit) limit window z.zcard,
        Redis.put { r with clock := now } key z) := by
  subst hz
  rfl

theorem Simulates.check (h : Simulates window last m r) (hlast : last ≤ now)
    (hwindow : IsDouble window) (key : String) (limit : Rat)
    (hsame : ∀ t ∈ m.hits key, SameSide window t now) :
    ((RateCall.check key limit).onMemory double window now m).1 =
      ((RateCall.check key limit).onRedis self window now r).1 ∧
    Simulates window now ((RateCall.check key limit).onMemory double window now m).2
      ((RateCall.check key limit).onRedis self window now r).2 := by
  have hpruned := (h key).prune hwindow hsame
  rw [onRedis_check key limit rfl]
  refine ⟨?_, h.update hlast key (hpruned.later hlast) now⟩
  rw [hpruned.zcard]
  rfl

theorem Redis.get_put (r : Redis) (key : String) (z : SortedSet) :
    (r.put key z).get key = z.asOf r.clock := by
  show (if key = key then z else r.sets key).asOf r.clock = _
  rw [if_pos rfl]

/-- The two pipelines of `consume`, with nothing in between. -/
theorem onRedis_consume (key : String) (limit : Rat) {z : SortedSet}
    (hz : ((r.sets key).asOf now).zremrangebyscore 0 (double (now - window)) = z) :
    (RateCall.consume key limit).onRedis self window now r =
      if (z.zcard : Rat) < limit then
        (rateAnswer double true limit window ((z.asOf now).zadd ⟨now, self⟩ now).zcard,
         (Redis.put { r with clock := now } key z).put key
          (((z.asOf now).zadd ⟨now, self⟩ now).expire now (expiryOf window)))
      else
        (rateAnswer double false limit window z.zcard,
          Redis.put { r with clock := now } key z) := by
  have hget : (Redis.put { r with clock := now } key z).get key = z.asOf now := Redis.get_put ..
  have hrun : (RateCall.consume key limit).onRedis self window now r =
      (if !(decide ((z.zcard : Rat) < limit)) then
        .ret (rateAnswer double ((z.zcard : Rat) < limit) limit window z.zcard)
      else .call .time fun (now : Rat) =>
        .call (.add key ⟨now, self⟩ (expiryOf window)) fun (used : Nat) =>
          .ret (rateAnswer double true limit window used) :
            Prog Pipeline Pipeline.Ans RateAnswer).solo
            Redis.execute (fun _ => ()) (Redis.put { r with clock := now } key z) := by
    subst hz
    rfl
  rw [hrun]
  by_cases hroom : (z.zcard : Rat) < limit
  · rw [if_pos hroom, decide_eq_true hroom, ← hget]
    rfl
  · rw [if_neg hroom, decide_eq_false hroom]
    rfl

/-- Memory does the same to the pruned list. -/
theorem onMemory_consume (key : String) (limit : Rat) {hits : List Rat}
    (hhits : (m.hits key).filter (fun t => fl (now - t) < window) = hits) :
    (RateCall.consume key limit).onMemory fl window now m =
      if limit ≤ (hits.length : Rat) then
        ({ rateAnswer fl false limit window hits.length with remaining := 0 },
         { hits := fun k => if k = key then hits else m.hits k })
      else
        (rateAnswer fl true limit window (hits ++ [now]).length,
         { hits := fun k => if k = key then hits ++ [now] else
            if k = key then hits else m.hits k }) := by
  subst hhits
  rfl

/-- Rounding of what is not positive gives nothing positive. -/
theorem rateAnswer_full (hfl : ∀ x, x ≤ 0 → fl x ≤ 0) {limit window : Rat} {n : Nat}
    (h : limit ≤ (n : Rat)) :
    ({ rateAnswer fl false limit window n with remaining := 0 } : RateAnswer) =
      rateAnswer fl false limit window n := by
  have hnone : max 0 (fl (limit - (n : Rat))) = 0 := max_eq_left (hfl _ (sub_nonpos.mpr h))
  rw [rateAnswer]
  simp only [hnone]

theorem double_nonpos (x : Rat) (h : x ≤ 0) : double x ≤ 0 := double_le_of_le (by decide +kernel) h

theorem Simulates.consume (h : Simulates window last m r) (hlast : last < now) (hnow : 0 ≤ now)
    (hwindow : IsDouble window) (key : String) (limit : Rat)
    (hsame : ∀ t ∈ m.hits key, SameSide window t now) :
    ((RateCall.consume key limit).onMemory double window now m).1 =
      ((RateCall.consume key limit).onRedis self window now r).1 ∧
    Simulates window now ((RateCall.consume key limit).onMemory double window now m).2
      ((RateCall.consume key limit).onRedis self window now r).2 := by
  have hpruned := (h key).prune hwindow hsame
  have hlasting := @SortedSet.asOf_zremrangebyscore (r.sets key) now 0 (double (now - window))
  rw [onRedis_consume key limit rfl, hlasting, onMemory_consume key limit rfl]
  generalize ((r.sets key).asOf now).zremrangebyscore 0 (double (now - window)) = z at hpruned ⊢
  generalize (m.hits key).filter (fun t => double (now - t) < window) = hits at hpruned ⊢
  have hadded := hpruned.add self hlast hnow
  by_cases hfull : limit ≤ (hits.length : Rat)
  · rw [if_pos hfull, if_neg (by rw [hpruned.zcard]; exact not_lt.mpr hfull), hpruned.zcard]
    exact ⟨rateAnswer_full double_nonpos hfull, h.update hlast.le key (hpruned.later hlast.le) now⟩
  · rw [if_neg hfull, if_pos (by rw [hpruned.zcard]; exact not_le.mp hfull)]
    have hcard : (z.zadd ⟨now, self⟩ now).zcard = (hits ++ [now]).length := hadded.zcard
    refine ⟨by rw [hcard], ?_⟩
    have hpruned' := h.update hlast.le key (hpruned.later hlast.le) now
    exact hpruned'.update (le_refl now) key hadded now

theorem Simulates.call (h : Simulates window last m r) (hlast : last < now) (hnow : 0 ≤ now)
    (hwindow : IsDouble window) (c : RateCall) (hsame : ∀ t ∈ m.hits c.key, SameSide window t now) :
    (c.onMemory double window now m).1 = (c.onRedis self window now r).1 ∧
    Simulates window now (c.onMemory double window now m).2 (c.onRedis self window now r).2 := by
  cases c with
  | check key limit => exact h.check hlast.le hwindow key limit hsame
  | consume key limit => exact h.consume hlast hnow hwindow key limit hsame

/-- A call remembers nothing but its own time. -/
theorem mem_onMemory_hits {c : RateCall} {k : String}
    (ht : t ∈ (c.onMemory fl window now m).2.hits k) : t ∈ m.hits k ∨ t = now := by
  have hpruned : ∀ {key}, t ∈ (if k = key then
      (m.hits key).filter (fun t => fl (now - t) < window) else m.hits k) → t ∈ m.hits k := by
    intro key ht
    split at ht
    · next hk => exact hk ▸ List.mem_of_mem_filter ht
    · exact ht
  cases c with
  | check key limit => exact .inl (hpruned ht)
  | consume key limit =>
      rw [onMemory_consume key limit rfl] at ht
      split at ht
      · exact .inl (hpruned ht)
      · change t ∈ (if k = key then _ else _) at ht
        split at ht
        · next hk =>
            obtain ht | ht := List.mem_append.mp ht
            · exact .inl (hk ▸ List.mem_of_mem_filter ht)
            · exact .inr (List.mem_singleton.mp ht)
        · exact .inl ht

/-- By induction on the calls. -/
theorem Simulates.answers (h : Simulates window last m r) (hwindow : IsDouble window)
    {calls : List (Rat × RateCall)} (hafter : ∀ c ∈ calls, last < c.1 ∧ 0 ≤ c.1)
    (hincreasing : (calls.map (·.1)).Pairwise (· < ·))
    (hsame : (calls.map (·.1)).Pairwise (SameSide window))
    (hhits : ∀ k, ∀ t ∈ m.hits k, ∀ c ∈ calls, SameSide window t c.1) :
    memoryAnswers double window m calls = redisAnswers self window r calls := by
  induction calls generalizing last m r with
  | nil => rfl
  | cons c calls ih =>
      obtain ⟨hlast, hnow⟩ := hafter c List.mem_cons_self
      obtain ⟨hanswer, hsim⟩ := h.call hlast hnow hwindow c.2 fun t ht =>
        hhits _ t ht c List.mem_cons_self
      obtain ⟨hfirst, hrest⟩ := List.pairwise_cons.mp hincreasing
      obtain ⟨hsameFirst, hsameRest⟩ := List.pairwise_cons.mp hsame
      have hafter' : ∀ c' ∈ calls, c.1 < c'.1 ∧ 0 ≤ c'.1 := fun c' hc' =>
        ⟨hfirst _ (List.mem_map_of_mem hc'), (hafter c' (List.mem_cons_of_mem _ hc')).2⟩
      have hhits' : ∀ k, ∀ t ∈ (c.2.onMemory double window c.1 m).2.hits k, ∀ c' ∈ calls,
          SameSide window t c'.1 := by
        intro k t ht c' hc'
        obtain ht | rfl := mem_onMemory_hits ht
        · exact hhits k t ht c' (List.mem_cons_of_mem _ hc')
        · exact hsameFirst _ (List.mem_map_of_mem hc')
      show _ :: _ = _ :: _
      rw [hanswer, ih hsim hafter' hrest hsameRest hhits']

end Simulation

/-! ## Calls that tell the limiters apart -/

/-- The limiters after the calls. -/
def memoryAfter (fl : Rat → Rat) (window : Rat) (m : MemoryRateLimit)
    (calls : List (Rat × RateCall)) :
    MemoryRateLimit :=
  calls.foldl (fun m c => (c.2.onMemory fl window c.1 m).2) m

def redisAfter (self : Nat) (window : Rat) (r : Redis) (calls : List (Rat × RateCall)) : Redis :=
  calls.foldl (fun r c => (c.2.onRedis self window c.1 r).2) r

section Apart

variable {fl : Rat → Rat} {window now t : Rat} {m : MemoryRateLimit} {r : Redis} {self : Nat}
  {calls before after : List (Rat × RateCall)} {k : String}

theorem length_memoryAnswers (m : MemoryRateLimit) (calls : List (Rat × RateCall)) :
    (memoryAnswers fl window m calls).length = calls.length := by
  induction calls generalizing m with
  | nil => rfl
  | cons c calls ih => exact congrArg (· + 1) (ih _)

theorem length_redisAnswers (r : Redis) (calls : List (Rat × RateCall)) :
    (redisAnswers self window r calls).length = calls.length := by
  induction calls generalizing r with
  | nil => rfl
  | cons c calls ih => exact congrArg (· + 1) (ih _)

theorem memoryAnswers_append (m : MemoryRateLimit) (before after : List (Rat × RateCall)) :
    memoryAnswers fl window m (before ++ after) = memoryAnswers fl window m before ++
      memoryAnswers fl window (memoryAfter fl window m before) after := by
  induction before generalizing m with
  | nil => rfl
  | cons c before ih => exact congrArg (_ :: ·) (ih _)

theorem redisAnswers_append (r : Redis) (before after : List (Rat × RateCall)) :
    redisAnswers self window r (before ++ after) = redisAnswers self window r before ++
      redisAnswers self window (redisAfter self window r before) after := by
  induction before generalizing r with
  | nil => rfl
  | cons c before ih => exact congrArg (_ :: ·) (ih _)

/-- Each call of a sequence is answered alike if the sequence is. -/
theorem answer_of_answers {c : Rat × RateCall}
    (h : memoryAnswers fl window m (before ++ c :: after) =
      redisAnswers self window r (before ++ c :: after)) :
    (c.2.onMemory fl window c.1 (memoryAfter fl window m before)).1 =
      (c.2.onRedis self window c.1 (redisAfter self window r before)).1 := by
  rw [memoryAnswers_append, redisAnswers_append] at h
  have hlength : (memoryAnswers fl window m before).length =
    (redisAnswers self window r before).length :=
    (length_memoryAnswers m before).trans (length_redisAnswers r before).symm
  exact (List.cons.inj (List.append_inj h hlength).2).1

/-- A key that is not called stays as it is. -/
theorem memoryAfter_hits (h : ∀ c ∈ calls, k ≠ c.2.key) :
    (memoryAfter fl window m calls).hits k = m.hits k := by
  induction calls generalizing m with
  | nil => rfl
  | cons c calls ih =>
      have hk : k ≠ c.2.key := h c List.mem_cons_self
      show (memoryAfter fl window (c.2.onMemory fl window c.1 m).2 calls).hits k = _
      rw [ih fun c' hc' => h c' (List.mem_cons_of_mem _ hc')]
      obtain ⟨now, c⟩ := c
      cases c with
      | check key limit => exact if_neg hk
      | consume key limit =>
          rw [onMemory_consume key limit rfl]
          split
          · exact if_neg hk
          · exact (if_neg hk).trans (if_neg hk)

theorem redisAfter_sets (h : ∀ c ∈ calls, k ≠ c.2.key) :
    (redisAfter self window r calls).sets k = r.sets k := by
  induction calls generalizing r with
  | nil => rfl
  | cons c calls ih =>
      have hk : k ≠ c.2.key := h c List.mem_cons_self
      show (redisAfter self window (c.2.onRedis self window c.1 r).2 calls).sets k = _
      rw [ih fun c' hc' => h c' (List.mem_cons_of_mem _ hc')]
      obtain ⟨now, c⟩ := c
      cases c with
      | check key limit => exact if_neg hk
      | consume key limit =>
          rw [onRedis_consume key limit rfl]
          split
          · exact (if_neg hk).trans (if_neg hk)
          · exact if_neg hk

/-- What a first consume with limit one leaves. -/
theorem onMemory_first (h : m.hits k = []) :
    ((RateCall.consume k 1).onMemory fl window t m).2.hits k = [t] := by
  have hhits : (m.hits k).filter (fun t' => fl (t - t') < window) = [] := by
    rw [h]
    rfl
  rw [onMemory_consume k 1 hhits]
  have hroom : ¬ (1 : Rat) ≤ (([] : List Rat).length : Rat) := by simp
  rw [if_neg hroom]
  exact if_pos rfl

theorem onRedis_first (h : r.sets k = {}) :
    ((RateCall.consume k 1).onRedis self window t r).2.sets k =
      ⟨[(⟨t, self⟩, t)], some (t + expiryOf window)⟩ := by
  rw [onRedis_consume (z := {}) k 1 (by rw [h]; rfl)]
  have hroom : ((({} : SortedSet).zcard : Nat) : Rat) < 1 := by
    show ((0 : Nat) : Rat) < 1
    rw [Nat.cast_zero]
    exact one_pos
  rw [if_pos hroom]
  exact if_pos rfl

/-- If a later check of that key is answered alike, the two judge alike of the hit. -/
theorem sameSide_of_check (hwindow : IsDouble window) (ht : IsDouble t) (hpos : 0 ≤ t)
    (hm : m.hits k = [t]) (hr : r.sets k = ⟨[(⟨t, self⟩, t)], some (t + expiryOf window)⟩)
    (h : ((RateCall.check k 0).onMemory double window now m).1 =
      ((RateCall.check k 0).onRedis self window now r).1) : SameSide window t now := by
  have hused : ((m.hits k).filter fun t => double (now - t) < window).length =
      (((r.sets k).asOf now).zremrangebyscore 0 (double (now - window))).zcard := by
    rw [onRedis_check k 0 rfl] at h
    have hsame : (((m.hits k).filter fun t => double (now - t) < window).length : Rat) =
        (((r.sets k).asOf now).zremrangebyscore 0 (double (now - window))).zcard :=
      congrArg RateAnswer.used h
    exact_mod_cast hsame
  rw [hm, hr] at hused
  have hlater := lt_expiryOf window
  rcases SortedSet.asOf_cases ⟨[(⟨t, self⟩, t)], some (t + expiryOf window)⟩ now with
    ⟨-, e, he, hle⟩ | ⟨heq, -⟩
  · -- The key has expired, and the hit is too old for both.
    obtain rfl : t + expiryOf window = e := Option.some.inj he
    have hage : window ≤ double (now - t) := le_double_of_le hwindow (by linarith)
    have hstart : t ≤ double (now - window) := le_double_of_le ht (by linarith)
    exact iff_of_false (not_lt.mpr hage) (not_lt.mpr hstart)
  · rw [heq] at hused
    have hkept : (!(decide (0 ≤ t) && decide (t ≤ double (now - window)))) =
        decide (double (now - window) < t) := by
      rw [decide_eq_true hpos, Bool.true_and, ← decide_not, decide_eq_decide, not_le]
    have hone : ∀ {α : Type} (p : α → Bool) (x : α), ([x].filter p).length = (p x).toNat := by
      intro α p x
      rw [List.filter_singleton]
      cases p x <;> rfl
    have hright : (SortedSet.zremrangebyscore ⟨[(⟨t, self⟩, t)], some (t + expiryOf window)⟩ 0
        (double (now - window))).zcard = (decide (double (now - window) < t)).toNat := by
      rw [← hkept]
      exact hone (fun x : Member × Rat =>
        !(decide (0 ≤ x.2) && decide (x.2 ≤ double (now - window)))) _
    rw [hone, hright] at hused
    have hinj : ∀ a b : Bool, a.toNat = b.toNat → a = b := by decide
    exact decide_eq_decide.mp (hinj _ _ hused)

end Apart

/-! ## The readings at which they agree -/

/-- The limiters answer alike, whatever is called at these readings. -/
def AgreeAt (self : Nat) (window : Rat) (times : List Rat) : Prop :=
  ∀ calls, calls.map (·.1) = times → memoryAnswers double window
    {} calls = redisAnswers self window {} calls

theorem agreeAt_of_sameSide {self : Nat} {window : Rat} {times : List Rat}
    (hwindow : IsDouble window)
    (hepoch : ∀ t ∈ times, 0 ≤ t) (hincreasing : times.Pairwise (· < ·))
    (hsame : times.Pairwise (SameSide window)) : AgreeAt self window times := by
  rintro calls rfl
  have hnew : Simulates window (-1) {} {} := fun _ => Matches.new window (-1)
  refine hnew.answers hwindow (fun c hc => ?_) hincreasing hsame fun _ _ ht => by cases ht
  have hpos := hepoch c.1 (List.mem_map_of_mem hc)
  exact ⟨by linarith, hpos⟩

/-- A check that is of no consequence for other keys. -/
def idle (t : Rat) : Rat × RateCall := (t, .check "" 0)

theorem sameSide_of_agreeAt {self : Nat} {window t now : Rat} {before between after : List Rat}
    (hwindow : IsDouble window) (ht : IsDouble t) (hpos : 0 ≤ t)
    (h : AgreeAt self window (before ++ t :: (between ++ now :: after))) :
    SameSide window t now := by
  have hidle : ∀ ts : List Rat, (ts.map idle).map (·.1) = ts := fun ts => by
    rw [List.map_map]
    exact List.map_id ts
  have hother : ∀ ts : List Rat, ∀ c ∈ ts.map idle, "k" ≠ c.2.key := by
    intro ts c hc
    obtain ⟨s, -, rfl⟩ := List.mem_map.mp hc
    show "k" ≠ ""
    decide
  have hanswers := h (before.map idle ++ (t, .consume "k" 1) ::
    (between.map idle ++ (now, .check "k" 0) :: after.map idle)) (by
      simp only [List.map_append, List.map_cons, hidle])
  rw [← List.cons_append, ← List.append_assoc] at hanswers
  refine sameSide_of_check hwindow ht hpos ?_ ?_ (answer_of_answers hanswers)
  · rw [memoryAfter, List.foldl_append, List.foldl_cons]
    refine (memoryAfter_hits (hother between)).trans (onMemory_first ?_)
    exact memoryAfter_hits (hother before)
  · rw [redisAfter, List.foldl_append, List.foldl_cons]
    refine (redisAfter_sets (hother between)).trans (onRedis_first ?_)
    exact redisAfter_sets (hother before)

/-- Whatever is called at increasing readings of the clock is answered alike, if and only if the
two differences are on the same side for every two of the readings. -/
theorem answers_agree_iff (self : Nat) (window : Rat) (times : List Rat) (hwindow : IsDouble window)
    (hreadings : ∀ t ∈ times, IsDouble t ∧ 0 ≤ t) (hincreasing : times.Pairwise (· < ·)) :
    AgreeAt self window times ↔ times.Pairwise (SameSide window) := by
  refine ⟨fun h => ?_, agreeAt_of_sameSide hwindow (fun t ht => (hreadings t ht).2) hincreasing⟩
  rw [List.pairwise_iff_forall_sublist]
  intro t now hsub
  obtain ⟨r₁, r₂, rfl, ht, hnow⟩ := List.cons_sublist_iff.mp hsub
  obtain ⟨hdouble, hpos⟩ := hreadings t (List.mem_append_left _ ht)
  obtain ⟨before, between, rfl⟩ := List.append_of_mem ht
  obtain ⟨between', after, rfl⟩ := List.append_of_mem (List.singleton_sublist.mp hnow)
  rw [List.append_assoc, List.cons_append, ← List.append_assoc between] at h
  exact sameSide_of_agreeAt hwindow hdouble hpos h

/-- At a reading of the clock, and at another one a little more than a tenth of a second later. -/
def atTheEdge : List (Rat × RateCall) :=
  [(1700000000, .consume "rl:broker:1" 1), (1700000000 + 419430 / 2 ^ 22, .consume "rl:broker:1" 1)]

/-- Of the tenth of a second that is nearest among the doubles the second call is refused in memory,
where the age is compared, and allowed by Redis, where the start of the window is. -/
theorem not_limitersAgree : ¬ ∀ self window times, IsDouble window →
    (∀ t ∈ times, IsDouble t ∧ 0 ≤ t) → times.Pairwise (· < ·) → AgreeAt self window times := by
  intro h
  have hagree := h 0 (double (1 / 10)) (atTheEdge.map (·.1)) (double_double _) (by decide +kernel)
    (by decide +kernel) atTheEdge rfl
  have hdiffer : memoryAnswers double (double (1 / 10)) {} atTheEdge ≠
      redisAnswers 0 (double (1 / 10)) {} atTheEdge := by decide +kernel
  exact hdiffer hagree

/-- Half a second after the first reading, a full second after it, and at a later one. -/
theorem answers_agree_second :
    AgreeAt 0 1 [1700000000, 1700000000 + 1 / 2, 1700000001, 1700000001 + 3 / 2 ^ 22] :=
  (answers_agree_iff 0 1 _ (by decide +kernel) (by decide +kernel) (by decide +kernel)).mpr
    (by decide +kernel)

/-- In units of one place that all of them have, nothing is rounded. -/
theorem sameSide_of_grid {n a b k : Int} (hk : -1074 ≤ k) (hage : |b - a| < 2 ^ 53)
    (hstart : |b - n| < 2 ^ 53) : SameSide (n * 2 ^ k) (a * 2 ^ k) (b * 2 ^ k) := by
  have hexact : ∀ x : Int, |b - x| < 2 ^ 53 →
      double ((b : Rat) * 2 ^ k - x * 2 ^ k) = b * 2 ^ k - x * 2 ^ k := by
    intro x hx
    have hgrid := isDouble_of_grid hx hk
    rw [Int.cast_sub, sub_mul] at hgrid
    exact hgrid
  unfold SameSide
  rw [hexact a hage, hexact n hstart]
  exact sub_lt_comm

/-- The services ask for a window of one second, and since 2004 the clock is read in steps of
`2⁻²²` seconds: there the limiters agree. -/
theorem agreeAt_one (self : Nat) (ticks : List Nat) (hticks : ∀ n ∈ ticks, n < 2 ^ 53)
    (hincreasing : ticks.Pairwise (· < ·)) :
    AgreeAt self 1 (ticks.map fun (n : Nat) => (n : Rat) / 2 ^ 22) := by
  have hpow : (2 : Rat) ^ (-22 : Int) = 1 / 2 ^ 22 := by norm_num
  have hone : (1 : Rat) = ((2 ^ 22 : Int) : Rat) * 2 ^ (-22 : Int) := by norm_num
  have hcast : ∀ n : Nat, (n : Rat) / 2 ^ 22 = ((n : Int) : Rat) * 2 ^ (-22 : Int) := fun n => by
    rw [hpow, Int.cast_natCast]
    ring
  refine agreeAt_of_sameSide (by decide +kernel) ?_ ?_ ?_
  · intro t ht
    obtain ⟨n, -, rfl⟩ := List.mem_map.mp ht
    positivity
  · refine hincreasing.map _ fun m n hlt => ?_
    have hlt' : (m : Rat) < n := by exact_mod_cast hlt
    exact div_lt_div_of_pos_right hlt' (by norm_num)
  · refine List.Pairwise.map _ (fun m n hlt => ?_) (List.Pairwise.and_mem.mp hincreasing)
    obtain ⟨hm, hn, -⟩ := hlt
    have hm' := hticks m hm
    have hn' := hticks n hn
    rw [hone, hcast, hcast]
    exact sameSide_of_grid (by decide) (abs_lt.mpr (by omega)) (abs_lt.mpr (by omega))

end BrokerBridge
