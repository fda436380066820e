import BrokerBridge.Conc.Window
import BrokerBridge.RateLimit.Agree

/-!
# The window of the limiter in memory

Every call prunes the list of its key, a `check` too, so the list is not the history of the
key. But what has been pruned is too old for every later call: from now on the list is as good
as all the times at which a consume of the key was allowed, and each answer is a function of
these (`answer_of_log`). The numbers are exact in this module.
-/

namespace BrokerBridge

open Conc

namespace RateCall

def limit : RateCall → Rat
  | .check _ limit | .consume _ limit => limit

def consumes (key : String) : RateCall → Bool
  | .consume k _ => k = key
  | .check _ _ => false

/-- The answer, given how many hits of the key are in the window. -/
def answerTo (window : Rat) (n : Nat) : RateCall → RateAnswer
  | .check _ limit => rateAnswer id ((n : Rat) < limit) limit window n
  | .consume _ limit =>
      if (n : Rat) < limit then rateAnswer id true limit window (n + 1)
      else rateAnswer id false limit window n

theorem key_of_consumes {c : RateCall} {key : String} (h : c.consumes key = true) :
    c.key = key := by
  cases c with
  | check => cases h
  | consume k l => exact of_decide_eq_true h

theorem allowed_answerTo (window : Rat) (n : Nat) (c : RateCall) :
    (c.answerTo window n).allowed = true ↔ (n : Rat) < c.limit := by
  cases c with
  | check k l => exact decide_eq_true_iff
  | consume k l =>
      show (if (n : Rat) < l then _ else _ : RateAnswer).allowed = true ↔ (n : Rat) < l
      by_cases h : (n : Rat) < l
      · rw [if_pos h]
        exact ⟨fun _ => h, fun _ => rfl⟩
      · rw [if_neg h]
        exact ⟨fun hf => Bool.noConfusion hf, fun hl => absurd hl h⟩

/-- With the same hits in the window, a check answers as a consume does. -/
theorem answerTo_check (window : Rat) (n : Nat) (key : String) (limit : Rat) :
    ((check key limit).answerTo window n).allowed =
      ((consume key limit).answerTo window n).allowed ∧
      (((consume key limit).answerTo window n).allowed = false →
        (check key limit).answerTo window n = (consume key limit).answerTo window n) := by
  have hcheck := allowed_answerTo window n (check key limit)
  have hconsume := allowed_answerTo window n (consume key limit)
  refine ⟨Bool.eq_iff_iff.mpr (hcheck.trans hconsume.symm), fun hfalse => ?_⟩
  have hfull : ¬ (n : Rat) < limit := fun h => by
    rw [hconsume.mpr h] at hfalse
    cases hfalse
  show rateAnswer id _ limit window n = if _ then _ else _
  rw [if_neg hfull, decide_eq_false hfull]

end RateCall

/-- A call of a sequence, with the answer it got. -/
structure RateEntry where
  time : Rat
  call : RateCall
  answer : RateAnswer

/-- The calls, made one after another. -/
def rateLog (window : Rat) : MemoryRateLimit → List (Rat × RateCall) → List RateEntry
  | _, [] => []
  | m, (now, c) :: calls =>
      ⟨now, c, (c.onMemory id window now m).1⟩ :: rateLog window
        (c.onMemory id window now m).2 calls

/-- When the consumes of a key were allowed. -/
def grants (key : String) (log : List RateEntry) : List Rat :=
  (log.filter fun e => e.call.consumes key && e.answer.allowed).map (·.time)

section Grants

variable {key : String} {log log' : List RateEntry} {e : RateEntry}

theorem grants_append : grants key (log ++ log') = grants key log ++ grants key log' := by
  rw [grants, List.filter_append, List.map_append]
  rfl

theorem grants_eq_nil (h : ∀ e ∈ log, e.call.consumes key = false) : grants key log = [] := by
  have hnone : log.filter (fun e => e.call.consumes key && e.answer.allowed) = [] :=
    List.filter_eq_nil_iff.mpr fun e he => by simp [h e he]
  rw [grants, hnone, List.map_nil]

theorem grants_singleton :
    grants key [e] = if e.call.consumes key && e.answer.allowed then [e.time] else [] := by
  show List.map _ (List.filter _ [e]) = _
  rw [List.filter_singleton]
  cases e.call.consumes key && e.answer.allowed <;> rfl

theorem eq_of_mem_grants_singleton {t : Rat} (ht : t ∈ grants key [e]) : t = e.time := by
  rw [grants_singleton] at ht
  split at ht
  · exact List.mem_singleton.mp ht
  · cases ht

end Grants

/-! ## One call -/

section Step

variable {window now : Rat} {m : MemoryRateLimit}

theorem prune_hits (key : String) : (m.prune id key window now).1 = younger window now
    (m.hits key) :=
  List.filter_congr fun _ _ => decide_eq_decide.mpr sub_lt_comm

theorem onMemory_answer (c : RateCall) :
    (c.onMemory id window now m).1 = c.answerTo window
      (younger window now (m.hits c.key)).length := by
  cases c with
  | check k l =>
      rw [← prune_hits]
      rfl
  | consume k l =>
      rw [onMemory_consume k l (prune_hits k)]
      show _ = if ((younger window now (m.hits k)).length : Rat) < l then _ else _
      by_cases hfull : l ≤ ((younger window now (m.hits k)).length : Rat)
      · rw [if_pos hfull, if_neg (not_lt.mpr hfull)]
        exact rateAnswer_full (fun _ h => h) hfull
      · rw [if_neg hfull, if_pos (not_le.mp hfull), List.length_append]
        rfl

/-- The list of the call's key is pruned, and the call added if it is an allowed consume. -/
theorem onMemory_hits (c : RateCall) (k : String) :
    (c.onMemory id window now m).2.hits k =
      if k = c.key then younger window now (m.hits k) ++
        grants k [⟨now, c, (c.onMemory id window now m).1⟩]
      else m.hits k := by
  rw [grants_singleton]
  cases c with
  | check key l =>
      show (if k = key then (m.prune id key window now).1 else m.hits k) = if k = key then _ else _
      by_cases hk : k = key
      · subst hk
        rw [if_pos rfl, if_pos rfl, prune_hits]
        exact (List.append_nil _).symm
      · rw [if_neg hk, if_neg hk]
  | consume key l =>
      rw [onMemory_consume key l (prune_hits key)]
      show _ = if k = key then _ else _
      by_cases hk : k = key
      · subst hk
        rw [if_pos rfl]
        by_cases hfull : l ≤ ((younger window now (m.hits k)).length : Rat)
        · simp [hfull, rateAnswer]
        · simp [hfull, rateAnswer, RateCall.consumes]
      · rw [if_neg hk]
        by_cases hfull : l ≤ ((younger window now (m.hits key)).length : Rat)
        · simp [hfull, hk]
        · simp [hfull, hk]

end Step

/-! ## Lists that are as good as each other -/

/-- From `last` on, the window never tells the two lists apart. -/
def AsGood (window last : Rat) (hits hits' : List Rat) : Prop :=
  ∀ now, last ≤ now → younger window now hits = younger window now hits'

namespace AsGood

variable {window last now : Rat} {hits hits' hits'' : List Rat}

theorem refl (window last : Rat) (hits : List Rat) : AsGood window last hits hits :=
  fun _ _ => rfl

theorem symm (h : AsGood window last hits hits') : AsGood window last hits' hits :=
  fun now hnow => (h now hnow).symm

theorem trans (h : AsGood window last hits hits') (h' : AsGood window last hits' hits'') :
    AsGood window last hits hits'' :=
  fun now hnow => (h now hnow).trans (h' now hnow)

theorem later (h : AsGood window last hits hits') (hlast : last ≤ now) :
    AsGood window now hits hits' :=
  fun now' hnow => h now' (hlast.trans hnow)

theorem append (h : AsGood window last hits hits') (ts : List Rat) :
    AsGood window last (hits ++ ts) (hits' ++ ts) := by
  intro now hnow
  have hmain := h now hnow
  unfold younger at hmain ⊢
  rw [List.filter_append, List.filter_append, hmain]

/-- What is too old now is too old later. -/
theorem younger (window now : Rat) (hits : List Rat) :
    AsGood window now (younger window now hits) hits := by
  intro now' hnow
  unfold Conc.younger
  rw [List.filter_filter]
  refine List.filter_congr fun t _ => ?_
  rw [← Bool.decide_and, decide_eq_decide]
  refine ⟨fun h => h.1, fun h => ⟨h, ?_⟩⟩
  linarith

/-- What a call does to the list of any key. -/
theorem call (m : MemoryRateLimit) (c : RateCall) (k : String) :
    AsGood window now ((c.onMemory id window now m).2.hits k)
      (m.hits k ++ grants k [⟨now, c, (c.onMemory id window now m).1⟩]) := by
  rw [onMemory_hits]
  by_cases hk : k = c.key
  · rw [if_pos hk]
    exact (AsGood.younger window now (m.hits k)).append _
  · have hnone : grants k [⟨now, c, (c.onMemory id window now m).1⟩] = [] := by
      refine grants_eq_nil fun e he => ?_
      rw [List.mem_singleton.mp he]
      exact Bool.eq_false_iff.mpr fun hc => hk (RateCall.key_of_consumes hc).symm
    rw [if_neg hk, hnone, List.append_nil]
    exact refl _ _ _

end AsGood

/-! ## Sequences of calls -/

section Sequences

variable {window last : Rat} {m m' : MemoryRateLimit} {calls : List (Rat × RateCall)}

/-- Each answer is the one for the grants of the key that are in the window: the past is what
the limiter has been through. By induction on the calls. -/
theorem answer_of_tracked {past : List RateEntry}
    (htracked : ∀ k, AsGood window last (m.hits k) (grants k past))
    (hpast : ∀ k, ∀ t ∈ grants k past, t ≤ last) (hafter : ∀ c ∈ calls, last ≤ c.1)
    (hsorted : (calls.map (·.1)).Pairwise (· ≤ ·)) {mid : List RateEntry} {e : RateEntry}
    {future : List RateEntry} (hlog : rateLog window m calls = mid ++ e :: future) :
    e.answer = e.call.answerTo window
      (countIn window e.time (grants e.call.key (past ++ mid))) := by
  induction calls generalizing last m past mid with
  | nil => exact absurd hlog (by simp [rateLog])
  | cons c calls ih =>
      obtain ⟨now, c⟩ := c
      have hlast : last ≤ now := hafter _ List.mem_cons_self
      obtain ⟨hfirst, hrest⟩ := List.pairwise_cons.mp hsorted
      cases mid with
      | nil =>
          obtain ⟨rfl, -⟩ := List.cons.inj hlog
          have hcount : (younger window now (m.hits c.key)).length =
              countIn window now (grants c.key past) := by
            rw [htracked c.key now hlast, younger, countIn, ← List.countP_eq_length_filter]
            refine List.countP_congr fun t ht => ?_
            have hle := (hpast c.key t ht).trans hlast
            rw [decide_eq_true_iff, decide_eq_true_iff]
            exact ⟨fun h => ⟨h, hle⟩, fun h => h.1⟩
          show (c.onMemory id window now m).1 = _
          rw [onMemory_answer, hcount, List.append_nil]
      | cons e₁ mid =>
          obtain ⟨rfl, htail⟩ := List.cons.inj hlog
          have htracked' : ∀ k, AsGood window now ((c.onMemory id window now m).2.hits k)
              (grants k (past ++ [⟨now, c, (c.onMemory id window now m).1⟩])) := fun k => by
            rw [grants_append]
            exact (AsGood.call m c k).trans (((htracked k).later hlast).append _)
          have hpast' : ∀ k, ∀ t ∈ grants k (past ++ [⟨now, c, (c.onMemory id window now m).1⟩]),
              t ≤ now := fun k t ht => by
            rw [grants_append, List.mem_append] at ht
            rcases ht with ht | ht
            · exact (hpast k t ht).trans hlast
            · exact le_of_eq (eq_of_mem_grants_singleton ht)
          rw [List.append_cons]
          exact ih htracked' hpast' (fun c' hc' => hfirst _ (List.mem_map_of_mem hc')) hrest htail

/-- The answers of a fresh limiter. -/
theorem answer_of_log (hsorted : (calls.map (·.1)).Pairwise (· ≤ ·)) {past : List RateEntry}
    {e : RateEntry} {future : List RateEntry}
    (hlog : rateLog window {} calls = past ++ e :: future) :
    e.answer = e.call.answerTo window (countIn window e.time (grants e.call.key past)) := by
  cases calls with
  | nil => exact absurd hlog (by simp [rateLog])
  | cons c calls =>
      have hgood : ∀ k, AsGood window c.1 (({} : MemoryRateLimit).hits k) (grants k []) := fun k =>
        AsGood.refl _ _ _
      have hpast : ∀ k, ∀ t ∈ grants k [], t ≤ c.1 := fun _ _ ht => nomatch ht
      refine answer_of_tracked hgood hpast (fun c' hc' => ?_) hsorted hlog
      rcases List.mem_cons.mp hc' with rfl | hc'
      · exact le_refl _
      · exact (List.pairwise_cons.mp hsorted).1 _ (List.mem_map_of_mem hc')

/-- Calls that are no consumes of the key may be left out: the rest gets the same answers on it. By
induction on the calls, from limiters whose lists of the key are as good as each other. -/
theorem spared_of_asGood {key : String} {p : Rat × RateCall → Bool}
    (hgood : AsGood window last (m.hits key) (m'.hits key)) (hafter : ∀ c ∈ calls, last ≤ c.1)
    (hsorted : (calls.map (·.1)).Pairwise (· ≤ ·))
    (hp : ∀ c ∈ calls, c.2.consumes key = true → p c = true) :
    (rateLog window m calls).filter (fun e => p (e.time, e.call) && e.call.key = key) =
      (rateLog window m' (calls.filter p)).filter fun e => e.call.key = key := by
  induction calls generalizing last m m' with
  | nil => rfl
  | cons c calls ih =>
      obtain ⟨now, c⟩ := c
      have hlast : last ≤ now := hafter _ List.mem_cons_self
      obtain ⟨hfirst, hrest⟩ := List.pairwise_cons.mp hsorted
      have hafter' : ∀ c' ∈ calls, now ≤ c'.1 := fun c' hc' => hfirst _ (List.mem_map_of_mem hc')
      have hp' : ∀ c' ∈ calls, c'.2.consumes key = true → p c' = true := fun c' hc' =>
        hp c' (List.mem_cons_of_mem _ hc')
      have hcall := @AsGood.call window now m c key
      rw [rateLog]
      by_cases hpc : p (now, c) = true
      · rw [List.filter_cons_of_pos hpc, rateLog]
        have hcall' := @AsGood.call window now m' c key
        have hgood' := (hgood.later hlast)
        by_cases hkey : c.key = key
        · have hanswer : (c.onMemory id window now m).1 = (c.onMemory id window now m').1 := by
            rw [onMemory_answer, onMemory_answer, hkey, hgood now hlast]
          rw [← hanswer] at hcall' ⊢
          rw [List.filter_cons_of_pos (by simp [hpc, hkey]),
            List.filter_cons_of_pos (by simp [hkey])]
          congr 1
          exact ih (hcall.trans ((hgood'.append _).trans hcall'.symm)) hafter' hrest hp'
        · have hnone : ∀ x : RateAnswer, grants key [⟨now, c, x⟩] = [] := fun x => by
            refine grants_eq_nil fun e he => ?_
            rw [List.mem_singleton.mp he]
            exact Bool.eq_false_iff.mpr fun hc => hkey (RateCall.key_of_consumes hc)
          rw [hnone, List.append_nil] at hcall hcall'
          rw [List.filter_cons_of_neg (by simp [hkey]), List.filter_cons_of_neg (by simp [hkey])]
          exact ih (hcall.trans (hgood'.trans hcall'.symm)) hafter' hrest hp'
      · have hnone : grants key [⟨now, c, (c.onMemory id window now m).1⟩] = [] := by
          refine grants_eq_nil fun e he => ?_
          rw [List.mem_singleton.mp he]
          exact Bool.eq_false_iff.mpr fun hc => hpc (hp _ List.mem_cons_self hc)
        rw [hnone, List.append_nil] at hcall
        rw [List.filter_cons_of_neg hpc, List.filter_cons_of_neg (by simp [hpc])]
        exact ih (hcall.trans (hgood.later hlast)) hafter' hrest hp'

end Sequences

/-- What is claimed of a sequence of calls to a fresh limiter, wherever it is split. -/
structure SlidingWindow (window : Rat) (calls : List (Rat × RateCall)) : Prop where
  /-- A call is allowed if fewer than its limit were in the window before it. -/
  decided : ∀ past e future, rateLog window {} calls = past ++ e :: future →
    (e.answer.allowed = true ↔
      (countIn window e.time (grants e.call.key past) : Rat) < e.call.limit)
  /-- The window that ends with an allowed consume holds no more than its limit. -/
  bounded : ∀ past e future key, rateLog window {} calls = past ++ e :: future →
    e.call.consumes key = true → e.answer.allowed = true →
    (countIn window e.time (grants key (past ++ [e])) : Int) ≤ ⌈e.call.limit⌉
  refused : ∀ e ∈ rateLog window {} calls, e.call.limit ≤ 0 → e.answer.allowed = false
  /-- A check answers as the next consume of the key in the same instant does. -/
  foreseen : ∀ past e mid e' future key limit,
    rateLog window {} calls = past ++ e :: (mid ++ e' :: future) → e.call = .check key limit →
    e'.call = .consume key limit → e'.time = e.time → (∀ x ∈ mid, x.call.consumes key = false) →
    e.answer.allowed = e'.answer.allowed ∧ (e'.answer.allowed = false → e.answer = e'.answer)
  /-- Leaving out checks, and calls on other keys, changes no answer on a key. -/
  spared : ∀ key p, (∀ c ∈ calls, c.2.consumes key = true → p c = true) →
    (rateLog window {} calls).filter (fun e => p (e.time, e.call) && e.call.key = key) =
      (rateLog window {} (calls.filter p)).filter fun e => e.call.key = key

/-- The limiter in memory keeps its window, whatever the keys and the limits. -/
theorem slidingWindow_of_sorted (window : Rat) (calls : List (Rat × RateCall))
    (hsorted : (calls.map (·.1)).Pairwise (· ≤ ·)) : SlidingWindow window calls := by
  have hdecided : ∀ past e future, rateLog window {} calls = past ++ e :: future →
      (e.answer.allowed = true ↔
        (countIn window e.time (grants e.call.key past) : Rat) < e.call.limit) := by
    intro past e future hlog
    rw [answer_of_log hsorted hlog]
    exact RateCall.allowed_answerTo ..
  refine ⟨hdecided, ?_, ?_, ?_, ?_⟩
  · intro past e future key hlog hconsumes hallowed
    have hroom := (hdecided past e future hlog).mp hallowed
    rw [RateCall.key_of_consumes hconsumes] at hroom
    have hgrants : grants key (past ++ [e]) = grants key past ++ [e.time] := by
      rw [grants_append, grants_singleton, hconsumes, hallowed]
      rfl
    have hone : countIn window e.time (grants key (past ++ [e])) ≤
        countIn window e.time (grants key past) + 1 := by
      rw [hgrants, countIn, List.countP_append]
      exact Nat.add_le_add_left List.countP_le_length _
    have hceil : (countIn window e.time (grants key past) : Int) < ⌈e.call.limit⌉ := by
      rw [Int.lt_ceil]
      exact_mod_cast hroom
    omega
  · intro e he hlimit
    obtain ⟨past, future, hlog⟩ := List.append_of_mem he
    rw [Bool.eq_false_iff]
    intro hallowed
    have hroom := (hdecided past e future hlog).mp hallowed
    exact absurd (hroom.trans_le hlimit) (not_lt.mpr (Nat.cast_nonneg _))
  · intro past e mid e' future key limit hlog hcheck hconsume htime hmid
    have hsplit : rateLog window {} calls = (past ++ e :: mid) ++ e' :: future := by
      rw [hlog, List.append_assoc, List.cons_append]
    have hsame : grants key (past ++ e :: mid) = grants key past := by
      rw [grants_append, @grants_eq_nil key (e :: mid), List.append_nil]
      intro x hx
      rcases List.mem_cons.mp hx with rfl | hx
      · rw [hcheck]
        rfl
      · exact hmid x hx
    have hsame' : grants (RateCall.consume key limit).key (past ++ e :: mid) = grants key past :=
      hsame
    rw [answer_of_log hsorted hlog, answer_of_log hsorted hsplit, hcheck, hconsume, htime, hsame']
    exact RateCall.answerTo_check ..
  · intro key p hp
    cases calls with
    | nil => rfl
    | cons c calls =>
        have hgood : AsGood window c.1 [] [] := AsGood.refl _ _ _
        refine spared_of_asGood hgood (fun c' hc' => ?_) hsorted hp
        rcases List.mem_cons.mp hc' with rfl | hc'
        · exact le_refl _
        · exact (List.pairwise_cons.mp hsorted).1 _ (List.mem_map_of_mem hc')

/-- A limit of one and a half allows two in a window; the last call finds it empty. -/
theorem slidingWindow_fractional : SlidingWindow 1
    [(0, .consume "rl:broker:1" (3 / 2)), (1 / 2, .check "rl:broker:1" (3 / 2)),
      (1 / 2, .consume "rl:broker:1" (3 / 2)), (3 / 4, .consume "rl:broker:2" 1),
      (3 / 4, .consume "rl:broker:1" (3 / 2)), (3 / 2, .consume "rl:broker:1" 1)] :=
  slidingWindow_of_sorted 1 _ (by decide +kernel)

end BrokerBridge
