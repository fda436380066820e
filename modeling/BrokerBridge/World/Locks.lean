import BrokerBridge.World.Frame
import BrokerBridge.Conc.Annotation

/-!
# Locks and the tokens that own them

A call draws a token and takes a lock with it. No two calls draw the same token,
and a lock is given back only with the token it was taken with, so whoever drew the
token of a lock owns it, until the key expires.

Who drew a token is read off the trace.
-/

namespace BrokerBridge

open Conc

/-! ## Locks -/

/-- A request about this lock. -/
def Req.locks (k : LockKey) : Req → Prop
  | .acquire k' _ _ | .release k' _ => k' = k
  | _ => False

/-- An answer given from the world as it is leaves a lock alone that its success does. -/
theorem Env.answer_locks {α : Type} (e : Env) (documented : Exn) {w w' : World} (x : α)
    {k : LockKey} (h : w'.locks k = w.locks k) :
    (e.answer documented w x w').2.locks k = w.locks k := by
  rcases Env.answer_cases e documented w x w' with ⟨f, hf⟩ | hf
  · rw [hf]
  · rw [hf]
    exact h

theorem InfraCall.eval_locks (c : InfraCall) (e : Env) (w : World) :
    (c.eval e w).2.locks = w.locks := by
  cases c with
  | attachIp =>
      simp only [InfraCall.eval]
      split <;> rfl
  | destroyInstance =>
      simp only [InfraCall.eval]
      split <;> rfl
  | setAutoRenew =>
      simp only [InfraCall.eval]
      split <;> rfl
  | _ => rfl

theorem setLock_ne {w : World} {k k' : LockKey} {t : Option Nat} (h : k ≠ k') :
    (w.setLock k' t).locks k = w.locks k := if_neg h

theorem setLock_self (w : World) (k : LockKey) (t : Option Nat) : (w.setLock k t).locks k = t :=
  if_pos rfl

theorem handle_locks {r : Req} {k : LockKey} (h : ¬ r.locks k) (e : Env) (w : World) :
    (handle r e w).2.locks k = w.locks k := by
  cases r with
  | acquire k' ttl t =>
      simp only [handle]
      split
      · exact Env.answer_locks e _ _ rfl
      · exact Env.answer_locks e _ _ (setLock_ne (Ne.symm h))
  | release k' t =>
      refine Env.answer_locks e _ _ ?_
      split
      · exact setLock_ne (Ne.symm h)
      · rfl
  | commit ws =>
      rcases commit_cases ws e w with ⟨f, hf⟩ | ⟨d, _, hf⟩ <;> rw [hf]
  | flush ws =>
      simp only [handle]
      split
      · rfl
      · exact Env.answer_locks e _ _ rfl
  | semAcquire n =>
      simp only [handle]
      split <;> exact Env.answer_locks e _ _ rfl
  | placeOrder o p =>
      rcases placeOrder_cases o p e w with ⟨f, hf⟩ | hf <;> rw [hf]
  | cancelOrder o bo =>
      rcases cancelOrder_cases o bo e w with ⟨f, hf⟩ | hf <;> rw [hf]
  | infra c => exact Env.answer_locks e _ _ (congrFun (c.eval_locks e w) k)
  | query | rollback | rateCheck | rateConsume => exact Env.answer_locks e _ _ rfl
  | cacheSession | authenticate | refreshSession => exact Env.answer_locks e _ _ rfl
  | fetchWhitelist | sleep => exact Env.answer_locks e _ _ rfl
  | _ => rfl

/-- A lock that is held stays with its token, whatever another token asks. -/
theorem acquire_held {w : World} {k k' : LockKey} {ttl : Int} {t t' : Nat}
    (h : w.locks k = some t) (e : Env) :
    (handle (.acquire k' ttl t') e w).2.locks k = some t := by
  simp only [handle]
  split
  · exact (Env.answer_locks e _ _ rfl).trans h
  · next hfree =>
      have hne : k ≠ k' := by
        rintro rfl
        cases h.symm.trans hfree
      exact (Env.answer_locks e _ _ (setLock_ne hne)).trans h

theorem release_held {w : World} {k k' : LockKey} {t t' : Nat} (h : w.locks k = some t)
    (hne : t' ≠ t) (e : Env) : (handle (.release k' t') e w).2.locks k = some t := by
  refine (Env.answer_locks e _ _ ?_).trans h
  split
  · next hheld =>
      refine setLock_ne ?_
      rintro rfl
      exact hne (Option.some_inj.mp (hheld.symm.trans h))
  · rfl

/-- Who is told that it got a lock has it. -/
theorem acquired {w : World} {k : LockKey} {ttl : Int} {t : Nat} {e : Env}
    (h : (handle (.acquire k ttl t) e w).1 = .ok true) :
    (handle (.acquire k ttl t) e w).2.locks k = some t := by
  simp only [handle] at h ⊢
  split at h
  · next t' heldBy =>
      rcases Env.answer_cases e .redisUnavailable w (t' == t) w with ⟨f, hf⟩ | hf
      · rw [hf] at h
        cases h
      · rw [hf] at h ⊢
        have hsame : t' = t := beq_iff_eq.mp (Except.ok.inj h)
        rw [← hsame]
        exact heldBy
  · rcases Env.answer_cases e .redisUnavailable w true (w.setLock k (some t)) with ⟨f, hf⟩ | hf
    · rw [hf] at h
      cases h
    · rw [hf]
      exact setLock_self w k _

/-! ## Tokens -/

/-- Call `i` has drawn the id `t`. -/
def Drew (i t : Nat) (tr : List (Nat × Req × World)) : Prop :=
  ∃ w, (i, .newId, w) ∈ tr ∧ w.freshId = t

theorem Drew.cons {i t : Nat} {tr : List (Nat × Req × World)} (h : Drew i t tr)
    (x : Nat × Req × World) : Drew i t (x :: tr) := by
  obtain ⟨w, hw, ht⟩ := h
  exact ⟨w, List.mem_cons_of_mem _ hw, ht⟩

theorem drew_newId (i : Nat) (h : Past World Req) :
    Drew i h.1.freshId ((i, .newId, h.1) :: h.2) :=
  ⟨h.1, List.mem_cons_self, rfl⟩

/-- What was drawn is used up, and by one call. -/
structure TokensApart (h : Past World Req) : Prop where
  lt : ∀ i t, Drew i t h.2 → t < h.1.nextId
  unique : ∀ i j t, Drew i t h.2 → Drew j t h.2 → i = j

theorem nextId_le_freshId (w : World) : w.nextId ≤ w.freshId := Nat.le_max_left _ _

theorem Env.answer_nextId {α : Type} (e : Env) (documented : Exn) {w w' : World} (x : α)
    (h : w.nextId ≤ w'.nextId) : w.nextId ≤ (e.answer documented w x w').2.nextId := by
  rcases Env.answer_cases e documented w x w' with ⟨f, hf⟩ | hf
  · rw [hf]
  · rw [hf]
    exact h

theorem InfraCall.eval_nextId (c : InfraCall) (e : Env) (w : World) :
    w.nextId ≤ (c.eval e w).2.nextId := by
  cases c with
  | createIp | createInstance => exact Nat.le_succ_of_le (nextId_le_freshId w)
  | attachIp =>
      simp only [InfraCall.eval]
      split <;> exact Nat.le_refl _
  | destroyInstance =>
      simp only [InfraCall.eval]
      split <;> exact Nat.le_refl _
  | setAutoRenew =>
      simp only [InfraCall.eval]
      split <;> exact Nat.le_refl _
  | _ => exact Nat.le_refl _

/-- Ids are never given back. -/
theorem handle_nextId (r : Req) (e : Env) (w : World) :
    w.nextId ≤ (handle r e w).2.nextId := by
  cases r with
  | newId => exact Nat.le_succ_of_le (nextId_le_freshId w)
  | acquire k' ttl t =>
      simp only [handle]
      split <;> exact Env.answer_nextId e _ _ (Nat.le_refl _)
  | release k' t =>
      refine Env.answer_nextId e _ _ ?_
      split <;> exact Nat.le_refl _
  | commit ws =>
      rcases commit_cases ws e w with ⟨f, hf⟩ | ⟨d, _, hf⟩ <;> rw [hf]
  | flush ws =>
      simp only [handle]
      split
      · exact Nat.le_refl _
      · exact Env.answer_nextId e _ _ (Nat.le_refl _)
  | semAcquire n =>
      simp only [handle]
      split <;> exact Env.answer_nextId e _ _ (Nat.le_refl _)
  | placeOrder o p =>
      rcases placeOrder_cases o p e w with ⟨f, hf⟩ | hf <;> rw [hf]
      exact Nat.le_succ_of_le (nextId_le_freshId w)
  | cancelOrder o bo =>
      rcases cancelOrder_cases o bo e w with ⟨f, hf⟩ | hf <;> rw [hf]
  | infra c => exact Env.answer_nextId e _ _ (c.eval_nextId e w)
  | query | rollback | rateCheck | rateConsume => exact Env.answer_nextId e _ _ (Nat.le_refl _)
  | cacheSession | authenticate | refreshSession =>
      exact Env.answer_nextId e _ _ (Nat.le_refl _)
  | fetchWhitelist | sleep => exact Env.answer_nextId e _ _ (Nat.le_refl _)
  | _ => exact Nat.le_refl _

theorem tokens_nil (w : World) : TokensApart (w, []) where
  lt _ _ h := by
    obtain ⟨_, hw, _⟩ := h
    cases hw
  unique _ _ _ h := by
    obtain ⟨_, hw, _⟩ := h
    cases hw

theorem TokensApart.after {h : Past World Req} (ht : TokensApart h) (i : Nat) (r : Req) (e : Env) :
    TokensApart ((handle r e h.1).2, (i, r, h.1) :: h.2) := by
  -- A token drawn by this very request is not below the counter as it was before.
  have hdrew : ∀ j t, Drew j t ((i, r, h.1) :: h.2) →
      Drew j t h.2 ∨ r = .newId ∧ j = i ∧ t = h.1.freshId := by
    rintro j t ⟨w, hw, rfl⟩
    rcases List.mem_cons.mp hw with heq | hw
    · cases heq
      exact .inr ⟨rfl, rfl, rfl⟩
    · exact .inl ⟨w, hw, rfl⟩
  have hold : ∀ j t, Drew j t h.2 → t < h.1.freshId := fun j t hd =>
    Nat.lt_of_lt_of_le (ht.lt j t hd) (nextId_le_freshId h.1)
  constructor
  · intro j t hd
    rcases hdrew j t hd with hd | ⟨rfl, _, rfl⟩
    · exact Nat.lt_of_lt_of_le (ht.lt j t hd) (handle_nextId r e h.1)
    · exact Nat.lt_succ_self _
  · intro j j' t hj hj'
    rcases hdrew j t hj with hd | ⟨_, hi, heq⟩ <;> rcases hdrew j' t hj' with hd' | ⟨_, hi', heq'⟩
    · exact ht.unique j j' t hd hd'
    · exact absurd heq' (Nat.ne_of_lt (hold j t hd))
    · exact absurd heq (Nat.ne_of_lt (hold j' t hd'))
    · exact hi.trans hi'.symm

end BrokerBridge
