import Mathlib.Data.List.Basic

/-!
# Addresses of the mock provider

`DocNetIpAllocator` draws addresses from two documentation networks. The network and the
host of a candidate come from one sum, by its remainders modulo 2 and 254, and 254 is
even: the host tells the network. So the candidates are the odd hosts of one network and
the even hosts of the other, half of the pool, and what is left when 64 of them are taken
is one more address that nobody checks.
-/

namespace BrokerBridge.DocNet

def upper (host : Nat) : String := "203.0.113." ++ toString host

def lower (host : Nat) : String := "198.51.100." ++ toString host

/-- The address made of a counter and a salt. -/
def candidate (sum : Nat) : String :=
  let host := sum % 254 + 1
  if sum % 2 = 0 then upper host else lower host

/-- The address that is not checked. -/
def fallback (n : Nat) : String := lower (n % 254 + 1)

/-- The loop of `next_address`: with so many tries left and this value next on the
counter, the address and the counter after it. `salts` are the salts of the tries. -/
def search (used : List String) : Nat → Nat → (Nat → Nat) → String × Nat
  | 0, n, _ => (fallback n, n + 1)
  | tries + 1, n, salts =>
      let candidate := candidate (n + salts 0)
      if candidate ∉ used then (candidate, n + 1)
      else search used tries (n + 1) fun i => salts (i + 1)

/-- `next_address` -/
def nextAddress (used : List String) (counter : Nat) (salts : Nat → Nat) : String × Nat :=
  search used 64 counter salts

/-! ## The pool -/

/-- The hosts 1 to 254 of both networks. -/
def InPool (address : String) : Prop :=
  ∃ host, 1 ≤ host ∧ host ≤ 254 ∧ (address = upper host ∨ address = lower host)

/-- The address returned is free, if one of the pool is. -/
def Avoids (used : List String) (counter : Nat) (salts : Nat → Nat) : Prop :=
  (∃ address, InPool address ∧ address ∉ used) → (nextAddress used counter salts).1 ∉ used

/-- One of the 64 sums of the counter and a salt comes to this host, modulo 254. -/
def Drawn (counter : Nat) (salts : Nat → Nat) (host : Nat) : Prop :=
  ∃ i < 64, (counter + i + salts i + 1) % 254 = host % 254

/-- An odd host of 203.0.113.0/24 or an even host of 198.51.100.0/24 is drawn and free, or the
host of 198.51.100.0/24 that the counter comes to after the 64 sums is free. -/
def LeavesFree (used : List String) (counter : Nat) (salts : Nat → Nat) : Prop :=
  ∃ host, 1 ≤ host ∧ host ≤ 254 ∧
    ((host % 2 = 1 ∧ upper host ∉ used ∧ Drawn counter salts host) ∨
      (host % 2 = 0 ∧ lower host ∉ used ∧ Drawn counter salts host) ∨
      (lower host ∉ used ∧ (counter + 65) % 254 = host % 254))

theorem inPool_candidate (sum : Nat) : InPool (candidate sum) := by
  have hlt := Nat.mod_lt sum (by decide : 0 < 254)
  refine ⟨sum % 254 + 1, by omega, by omega, ?_⟩
  unfold candidate
  split
  · exact .inl rfl
  · exact .inr rfl

theorem inPool_fallback (n : Nat) : InPool (fallback n) := by
  have hlt := Nat.mod_lt n (by decide : 0 < 254)
  exact ⟨n % 254 + 1, by omega, by omega, .inr rfl⟩

/-- There are 254 candidates, one for each remainder. -/
theorem candidate_mod (sum : Nat) : candidate (sum % 254) = candidate sum := by
  have hparity : sum % 254 % 2 = sum % 2 := Nat.mod_mod_of_dvd sum (by decide)
  unfold candidate
  rw [hparity, Nat.mod_mod]

/-- The parity of the sum is that of the host before it: the host tells the network. -/
theorem candidate_of_mod {sum host : Nat} (h₁ : 1 ≤ host) (h₂ : host ≤ 254)
    (h : (sum + 1) % 254 = host % 254) :
    candidate sum = if host % 2 = 1 then upper host else lower host := by
  have hhost : sum % 254 + 1 = host := by omega
  have hparity : sum % 2 = 0 ↔ host % 2 = 1 := by omega
  unfold candidate
  rw [hhost]
  exact if_congr hparity rfl rfl

theorem fallback_of_mod {n host : Nat} (h₁ : 1 ≤ host) (h₂ : host ≤ 254)
    (h : (n + 1) % 254 = host % 254) : fallback n = lower host := by
  have hhost : n % 254 + 1 = host := by omega
  rw [fallback, hhost]

/-! ## The loop -/

section Search

variable {used : List String} {tries n : Nat} {salts : Nat → Nat}

theorem inPool_search : InPool (search used tries n salts).1 := by
  induction tries generalizing n salts with
  | zero => exact inPool_fallback n
  | succ tries ih =>
      rw [search]
      split
      · exact inPool_candidate _
      · exact ih

theorem search_free_iff :
    (search used tries n salts).1 ∉ used ↔
      (∃ i < tries, candidate (n + i + salts i) ∉ used) ∨ fallback (n + tries) ∉ used := by
  induction tries generalizing n salts with
  | zero =>
      have hnone : ¬ ∃ i < 0, candidate (n + i + salts i) ∉ used := by
        rintro ⟨i, hi, _⟩
        omega
      rw [search, Nat.add_zero]
      exact (or_iff_right hnone).symm
  | succ tries ih =>
      rw [search]
      split
      · next hfree => exact iff_of_true hfree (.inl ⟨0, by omega, hfree⟩)
      · next htaken =>
          rw [ih]
          have hshift : ∀ i, n + 1 + i + salts (i + 1) = n + (i + 1) + salts (i + 1) := by
            intro i
            omega
          have hlast : n + 1 + tries = n + (tries + 1) := by omega
          rw [hlast]
          refine or_congr_left ?_
          constructor
          · rintro ⟨i, hi, hfree⟩
            rw [hshift] at hfree
            exact ⟨i + 1, by omega, hfree⟩
          · rintro ⟨i, hi, hfree⟩
            cases i with
            | zero => exact absurd hfree htaken
            | succ i =>
                rw [← hshift] at hfree
                exact ⟨i, by omega, hfree⟩

end Search

/-- What is drawn decides whether the address returned is free. -/
theorem nextAddress_free_iff {used : List String} {counter : Nat} {salts : Nat → Nat} :
    (nextAddress used counter salts).1 ∉ used ↔ LeavesFree used counter salts := by
  have hhost : ∀ n, 1 ≤ n % 254 + 1 ∧ n % 254 + 1 ≤ 254 ∧ (n + 1) % 254 = (n % 254 + 1) % 254 := by
    intro n
    omega
  refine search_free_iff.trans ⟨?_, ?_⟩
  · rintro (⟨i, hi, hfree⟩ | hfree)
    · obtain ⟨h₁, h₂, hmod⟩ := hhost (counter + i + salts i)
      rw [candidate_of_mod h₁ h₂ hmod] at hfree
      refine ⟨_, h₁, h₂, ?_⟩
      split at hfree
      · next hodd => exact .inl ⟨hodd, hfree, i, hi, hmod⟩
      · next heven => exact .inr (.inl ⟨by omega, hfree, i, hi, hmod⟩)
    · obtain ⟨h₁, h₂, hmod⟩ := hhost (counter + 64)
      rw [fallback_of_mod h₁ h₂ hmod] at hfree
      exact ⟨_, h₁, h₂, .inr (.inr ⟨hfree, hmod⟩)⟩
  · rintro ⟨host, h₁, h₂, ⟨hodd, hfree, i, hi, hmod⟩ | ⟨heven, hfree, i, hi, hmod⟩ | ⟨hfree, hmod⟩⟩
    · refine .inl ⟨i, hi, ?_⟩
      rwa [candidate_of_mod h₁ h₂ hmod, if_pos hodd]
    · refine .inl ⟨i, hi, ?_⟩
      rwa [candidate_of_mod h₁ h₂ hmod, if_neg (by omega)]
    · refine .inr ?_
      rwa [fallback_of_mod h₁ h₂ hmod]

/-- The address returned is of the pool. It is free where one is, exactly when a host that is
drawn or comes last is free, unless there is none. -/
theorem nextAddress_avoids_iff (used : List String) (counter : Nat) (salts : Nat → Nat) :
    InPool (nextAddress used counter salts).1 ∧
      (Avoids used counter salts ↔
        LeavesFree used counter salts ∨ ∀ address, InPool address → address ∈ used) := by
  refine ⟨inPool_search, ?_⟩
  unfold Avoids
  rw [nextAddress_free_iff]
  constructor
  · intro h
    by_cases hfree : LeavesFree used counter salts
    · exact .inl hfree
    · refine .inr fun address hpool => ?_
      by_contra hnot
      exact hfree (h ⟨address, hpool, hnot⟩)
  · rintro (hfree | hall) ⟨address, hpool, hnot⟩
    · exact hfree
    · exact absurd (hall address hpool) hnot

/-- With all the candidates taken there is a free address of the pool, and no salts find it. -/
theorem not_avoids_candidates (salts : Nat → Nat) :
    ¬ Avoids ((List.range 254).map candidate) 1 salts := by
  intro havoids
  have hmem : ∀ sum, candidate sum ∈ (List.range 254).map candidate := by
    intro sum
    rw [← candidate_mod]
    exact List.mem_map_of_mem (List.mem_range.mpr (Nat.mod_lt sum (by decide)))
  have hfree := havoids ⟨upper 2, ⟨2, by decide, by decide, .inl rfl⟩, by decide +kernel⟩
  rw [nextAddress, search_free_iff] at hfree
  rcases hfree with ⟨i, _, hcandidate⟩ | hfallback
  · exact hcandidate (hmem _)
  · exact hfallback (hmem 65)

/-- A new allocator, half of the pool taken, and every salt zero. -/
theorem not_avoids_half : ¬ Avoids ((List.range 254).map candidate) 1 fun _ => 0 :=
  not_avoids_candidates fun _ => 0

end BrokerBridge.DocNet
