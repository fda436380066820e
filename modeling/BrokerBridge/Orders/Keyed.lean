import BrokerBridge.Ips.Keyed
import BrokerBridge.Code.Replay

/-!
# The order service takes no lock of its own

Placing and replaying lock only through `ensure`, which gives back what it takes, so between
two awaits of theirs outside `ensure` nothing is held.
-/

namespace BrokerBridge

open Conc

/-- Begun with nothing pending and no lock held, `t` ends so. -/
def EmptyHanded {α : Type} (t : Coro α) : Prop :=
  ∀ s ph, s.Clean → Custody.At [] ph →
    Task.wp custody.step t (fun _ s' ph' => Custody.At [] ph' ∧ s'.Clean)
      (fun _ s' ph' => Custody.At [] ph' ∧ s'.Clean) s ph

section Rules

variable {α β : Type}

theorem EmptyHanded.pure {a : α} : EmptyHanded (pure a : Coro α) := fun _ _ hs hph => ⟨hph, hs⟩

theorem EmptyHanded.raise {x : Exn} : EmptyHanded (Task.raise x : Coro α) :=
  fun _ _ hs hph => ⟨hph, hs⟩

theorem EmptyHanded.bind {t : Coro α} {f : α → Coro β} (ht : EmptyHanded t)
    (hf : ∀ a, EmptyHanded (f a)) : EmptyHanded (t >>= f) := by
  intro s ph hs hph
  rw [Task.wp_bind]
  exact Task.wp_step_mono (ht s ph hs hph) (fun a s' ph' h' => hf a s' ph' h'.2 h'.1)
    fun _ _ _ => id

theorem EmptyHanded.catching {t : Coro α} {handler : Exn → Coro α} (ht : EmptyHanded t)
    (hh : ∀ x, EmptyHanded (handler x)) : EmptyHanded (Task.catching t handler) := by
  intro s ph hs hph
  rw [Task.wp_catching]
  exact Task.wp_step_mono (ht s ph hs hph) (fun _ _ _ => id) fun x s' ph' h' =>
    hh x s' ph' h'.2 h'.1

theorem EmptyHanded.finally' {t : Coro α} {last : Coro Unit} (ht : EmptyHanded t)
    (hl : EmptyHanded last) : EmptyHanded (Task.finally' t last) := by
  intro s ph hs hph
  rw [Task.wp_finally']
  exact Task.wp_step_mono (ht s ph hs hph) (fun _ s' ph' h' => hl s' ph' h'.2 h'.1)
    fun _ s' ph' h' => hl s' ph' h'.2 h'.1

theorem EmptyHanded.ite {c : Prop} [Decidable c] {t u : Coro α} (ht : EmptyHanded t)
    (hu : EmptyHanded u) : EmptyHanded (if c then t else u) := by
  split
  · exact ht
  · exact hu

/-- A stretch that takes locks, and gives them back. -/
theorem EmptyHanded.keyed {N : Req → Prop} {t : Coro α} (hk : Keyring [] t [] []) (hc : Calm N t) :
    EmptyHanded t := fun s ph hs hph => Task.wp_step_and (hk s ph hph) (hc s hs)

/-- A stretch that takes none. -/
theorem EmptyHanded.calm {t : Coro α} (hc : Calm Req.keyless t) : EmptyHanded t := by
  intro s ph hs hph
  refine Task.wp_step_mono (Task.wp_staying_in (P := custody) (I := Custody.At [])
    (fun ph r hph hr => ⟨allows_keyless hr hph, advance_keyless hr hph⟩) hph (hc s hs))
    (fun _ _ _ h' => h'.symm) fun _ _ _ h' => h'.symm

/-- The same, with what it returns. -/
theorem EmptyHanded.calmThen {t : Coro α} {f : α → Coro β} {R : α → Prop} (hc : Calm Req.keyless t)
    (hr : Returns R t) (hf : ∀ a, R a → EmptyHanded (f a)) : EmptyHanded (t >>= f) := by
  intro s ph hs hph
  rw [Task.wp_bind]
  refine Task.wp_step_mono (Task.wp_step_and (EmptyHanded.calm hc s ph hs hph) (hr s))
    (fun a s' ph' h' => hf a h'.2 s' ph' h'.1.2 h'.1.1) fun _ _ _ h' => h'.1

end Rules

/-! ## Placing -/

theorem keyless_working (o : OrderId) : Working Req.keyless o where
  newId := trivial
  query _ _ := trivial
  commit _ := trivial
  routing r h := by
    cases r with
    | acquire | release => exact h.elim
    | _ => trivial

theorem routing_keyless (r : Req) (h : r.routing) : r.keyless := (keyless_working 0).routing r h

theorem keyless_read {q : Query} : EmptyHanded (execute q) :=
  EmptyHanded.calm (Steps.execute fun _ _ => trivial)

theorem keyless_refreshed {α : Type} (x : Option α) : EmptyHanded (refreshed x) :=
  EmptyHanded.calm (Steps.refreshed x)

/-- The end of most of these calls: an order read again. -/
theorem reread_emptyHanded {α : Type} {q : Query} {β : Type} {g : q.Res → Option α} {f : α → Coro β}
    (hf : ∀ a, EmptyHanded (f a)) :
    EmptyHanded (execute q >>= fun row => refreshed (g row) >>= f) :=
  EmptyHanded.bind keyless_read fun _ => EmptyHanded.bind (keyless_refreshed _) hf

theorem submitChain_emptyHanded (held : List BrokerAccount) (chain : List RouteCandidate) :
    ∀ (order : Order) (n : Nat) (last : Option LastError),
      EmptyHanded (submitChain held order n last chain) := by
  induction chain with
  | nil =>
      intro order n last
      exact EmptyHanded.calm (failoverExhausted_calm order (keyless_working _) last)
  | cons c rest ih =>
      intro order n last
      rw [submitChain]
      refine EmptyHanded.bind (EmptyHanded.calm ((rateConsume_calm _ _).mono routing_keyless))
        fun rl => EmptyHanded.ite ?_ ?_
      · exact EmptyHanded.bind (EmptyHanded.calm
          (rateLimited_calm order (keyless_working _) c rest))
          fun why => ih order _ _
      refine EmptyHanded.bind (EmptyHanded.keyed (ensure_keyed held c.broker.id false)
        (ensure_calm held c.broker.id false)) fun _ => ?_
      refine EmptyHanded.calmThen (openAttempt_calm order (keyless_working _) c n)
        (openAttempt_returns order c n) fun x hx => ?_
      obtain ⟨order', attempt⟩ := x
      have ha : attempt.orderId = order'.id := hx.2.trans hx.1.symm
      refine EmptyHanded.bind (EmptyHanded.calm (trySubmit_calm order' (keyless_working _)
        (fun _ => trivial) attempt c ha)) fun why => ?_
      cases why with
      | none => exact EmptyHanded.pure
      | some why =>
          exact EmptyHanded.bind (EmptyHanded.calm (recordFailover_calm order' (keyless_working _) c
            why.code rest)) fun _ => ih order' _ _

theorem submitInline_emptyHanded (by_ : Actor) (order : Order) (chain : List RouteCandidate) :
    EmptyHanded (submitInline by_ order chain) :=
  EmptyHanded.bind (EmptyHanded.calm (Steps.mark trivial)) fun _ =>
    EmptyHanded.bind keyless_read fun _ => submitChain_emptyHanded _ _ _ _ _

theorem insertOrder_emptyHanded (order : Order) : EmptyHanded (insertOrder order) := by
  refine EmptyHanded.catching (EmptyHanded.calm ?_) fun e => ?_
  · refine Steps.weaken (U := fun _ => True) (V := fun _ => False) ?_
      (fun _ _ => trivial) fun _ => id
    refine Steps.bind (Steps.stage trivial) fun _ =>
      Steps.bind (Steps.commit fun _ _ => trivial) fun _ => ?_
    exact Steps.bind (Steps.execute fun _ _ => trivial) fun row => Steps.bind (Steps.refreshed row)
      fun _ => Steps.pure _
  · cases e with
    | integrity =>
        refine EmptyHanded.bind (EmptyHanded.calm (Steps.rollback trivial)) fun _ => ?_
        refine EmptyHanded.bind keyless_read fun prior => ?_
        cases prior with
        | some prior => exact EmptyHanded.pure
        | none => exact EmptyHanded.raise
    | _ => exact EmptyHanded.raise

theorem placeNew_emptyHanded (id : OrderId) (r : PlaceRequest) : EmptyHanded (placeNew id r) := by
  refine EmptyHanded.bind (insertOrder_emptyHanded _) fun x => ?_
  cases x with
  | error prior => exact EmptyHanded.pure
  | ok order =>
      refine EmptyHanded.bind (EmptyHanded.calm ((selectOrRaise_calm _).mono routing_keyless))
        fun decision => EmptyHanded.bind (submitInline_emptyHanded _ _ _) fun _ => ?_
      exact reread_emptyHanded fun _ => EmptyHanded.pure

theorem place_emptyHanded (r : PlaceRequest) : EmptyHanded (place r) := by
  have hgating : ∀ q : Req, q.gating r.clientId → q.keyless := fun q h => by
    cases q with
    | acquire | release => exact h.elim
    | _ => trivial
  have hawait : ∀ q : Req, q.keyless → EmptyHanded (await q) := fun q h =>
    EmptyHanded.calm (Steps.await h)
  refine EmptyHanded.bind (EmptyHanded.calm ((assertTradingAllowed_calm _).mono hgating)) fun _ =>
    ?_
  refine EmptyHanded.bind keyless_read fun prior => ?_
  cases prior with
  | some prior => exact EmptyHanded.pure
  | none =>
      refine EmptyHanded.bind (EmptyHanded.bind keyless_read fun _ => EmptyHanded.pure)
        fun mode => ?_
      refine EmptyHanded.ite EmptyHanded.raise
        (EmptyHanded.bind (hawait .newId trivial) fun id => ?_)
      refine EmptyHanded.bind (EmptyHanded.calm ?_) fun _ => ?_
      · exact Steps.bind (Steps.await trivial) fun x => Steps.bind (Steps.ofAnswer x) fun _ =>
          Steps.ite (Steps.pure _) (Steps.raise _)
      refine EmptyHanded.finally' (EmptyHanded.bind (hawait _ trivial) fun _ => ?_)
        (hawait _ trivial)
      exact EmptyHanded.finally' (placeNew_emptyHanded id r) (hawait _ trivial)

/-! ## Replaying and cancelling -/

theorem resubmit_emptyHanded (order : Order) (chain : List RouteCandidate) :
    EmptyHanded (resubmit order chain) := by
  refine EmptyHanded.catching (EmptyHanded.bind (submitInline_emptyHanded _ _ _) fun _ =>
    ?_) fun e => ?_
  · exact reread_emptyHanded fun _ => EmptyHanded.ite EmptyHanded.pure EmptyHanded.pure
  · exact EmptyHanded.ite (reread_emptyHanded fun _ => EmptyHanded.pure) EmptyHanded.raise

theorem recoverOne_emptyHanded (stale : Order) : EmptyHanded (recoverOne stale) := by
  refine EmptyHanded.bind (EmptyHanded.calm (Steps.mark trivial)) fun _ =>
    reread_emptyHanded fun x => ?_
  refine EmptyHanded.ite EmptyHanded.pure (EmptyHanded.bind keyless_read fun attempts => ?_)
  split
  · exact EmptyHanded.calm (adoptAttempt_calm _ (keyless_working _) _ _)
  refine EmptyHanded.bind (EmptyHanded.calm (reopen_calm _ (keyless_working _))) fun order => ?_
  refine EmptyHanded.bind (EmptyHanded.calm ((selectOrRaise_calm _).mono routing_keyless)) fun d =>
    ?_
  exact resubmit_emptyHanded order d.chain

theorem recoverEach_emptyHanded (orders : List Order) : EmptyHanded (recoverEach orders) := by
  induction orders with
  | nil => exact EmptyHanded.pure
  | cons order orders ih =>
      refine EmptyHanded.bind (EmptyHanded.catching (recoverOne_emptyHanded order) fun e => ?_)
        fun _ => EmptyHanded.bind ih fun _ => EmptyHanded.pure
      exact EmptyHanded.ite EmptyHanded.pure EmptyHanded.raise

theorem replayRun_emptyHanded (limit : Nat) : EmptyHanded (replayRun limit) :=
  EmptyHanded.bind keyless_read fun _ => EmptyHanded.bind (recoverEach_emptyHanded _) fun _ =>
    EmptyHanded.pure

theorem markCancelled_emptyHanded (order : Order) : EmptyHanded (markCancelled order) := by
  refine EmptyHanded.calm (Steps.weaken (U := fun _ => True) (V := fun _ => False) ?_
    (fun _ _ => trivial) fun _ => id)
  refine Steps.bind (Steps.assign trivial) fun order => Steps.bind (Steps.stage trivial) fun _ => ?_
  refine Steps.bind (Steps.commit fun _ _ => trivial) fun _ => ?_
  exact Steps.bind (Steps.execute fun _ _ => trivial) fun row => Steps.bind (Steps.refreshed row)
    fun _ => Steps.pure _

theorem cancel_emptyHanded (o : OrderId) : EmptyHanded (cancel o) := by
  refine EmptyHanded.bind (EmptyHanded.calm (Steps.mark trivial)) fun _ => ?_
  refine EmptyHanded.bind keyless_read fun row => ?_
  split
  · exact EmptyHanded.raise
  refine EmptyHanded.ite EmptyHanded.raise ?_
  split
  · exact markCancelled_emptyHanded _
  refine EmptyHanded.bind keyless_read fun _ =>
    EmptyHanded.bind (EmptyHanded.catching ?_ fun e => ?_)
    fun _ => markCancelled_emptyHanded _
  · exact EmptyHanded.calm (Steps.bind (Steps.await trivial) fun x => Steps.ofAnswer x)
  · cases e <;> exact EmptyHanded.raise

/-! ## Every call -/

theorem custody_new : Custody.At [] (.has [] []) := .inr ⟨[], rfl, List.forall_mem_nil _⟩

theorem Keyring.program {α : Type} {t : Coro α} (ht : Keyring [] t [] []) (reply : α → Reply) :
    (t.program reply).Follows custody (fun _ ph => ph.Gone) (.has [] []) :=
  Coro.program_ends (ht {} _ custody_new) (fun _ _ _ => Custody.gone_of_at)
    fun _ _ _ => Custody.gone_of_at

theorem EmptyHanded.program {α : Type} {t : Coro α} (ht : EmptyHanded t) (reply : α → Reply) :
    (t.program reply).Follows custody (fun _ ph => ph.Gone) (.has [] []) :=
  Coro.program_ends (ht {} _ Session.clean_new custody_new) (fun _ _ _ h => Custody.gone_of_at h.1)
    fun _ _ _ h => Custody.gone_of_at h.1

theorem programOf_keyed (s : Settings) (c : Call) :
    (programOf s c).Follows custody (fun _ ph => ph.Gone) (.has [] []) := by
  cases c with
  | place r => exact (place_emptyHanded r).program _
  | replay limit => exact (replayRun_emptyHanded limit).program _
  | cancel o => exact (cancel_emptyHanded o).program _
  | createSubscription c a b m =>
      exact (Keyring.keyless (createSubscription_serves (keyless_serving _) c a b m)).program _
  | enforceExpiry t =>
      exact (Keyring.keyless (enforceExpiry_serves (keyless_serving _) t)).program _
  | expireNow i => exact (Keyring.keyless (expireNow_serves (keyless_serving _) i)).program _
  | ensure b f => exact (ensure_keyed [] b f).program _
  | allocateIp region =>
      exact (Keyring.keyless (allocateIp_keeps (keyless_serving _).house region)).program _
  | assign x b c => exact Coro.program_ends (assignIp_gone x b c) (fun _ _ _ => id) fun _ _ _ => id
  | attach x i => exact (attachIp_keyed x i).program _
  | detach x => exact (detachIp_keyed x).program _
  | release x => exact (releaseIp_keyed s x).program _
  | rotate b f => exact (rotate_keyed s b f).program _

end BrokerBridge
