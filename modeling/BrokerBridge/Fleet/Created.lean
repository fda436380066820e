import BrokerBridge.Code.Instances
import BrokerBridge.Code.Steps
import BrokerBridge.World.Frame

/-!
# What becomes of a created resource

`create_instance` and `allocate_ip` create at the provider first and write the row
afterwards, and neither deletes what it has created when the row cannot be written. So a
resource is accounted for exactly when the writes that follow its creation go through; a
later try of `allocate_ip` succeeds beside what an earlier one has left behind.
-/

namespace BrokerBridge

open Conc

/-! ## What is claimed -/

/-- Every resource that is at the provider now, and was not before, has a committed row or
has been deleted there. -/
structure NoOrphans (w w' : World) : Prop where
  ips : ∀ ip ∈ w'.cloudIps, ip.externalId ∉ w.cloudIps.map CloudIp.externalId →
    ip.status = .released ∨ ∃ row ∈ w'.db.ips.rows, row.externalId = ip.externalId
  instances : ∀ i ∈ w'.cloudInstances, i.1 ∉ w.cloudInstances.map Prod.fst →
    i.2 = .destroyed ∨ ∃ row ∈ w'.db.instances.rows, row.externalId = i.1

/-- The commit of `create_instance` does not fail, if the provider has created the
instance. The third answer is the id of the row. -/
def CommitsInstance (env : Nat → Env) : Prop :=
  (env 0).fault = none → (env 1).fault = none → (env 3).fault = none

/-- The first address that the provider answers is nobody's, and neither the flush nor the
commit of its row fails. -/
def CommitsFirstIp (env : Nat → Env) (w : World) : Prop :=
  (env 0).fault = none → (env 1).fault = none →
    (∀ row ∈ w.db.ips.rows, row.ipAddress ≠ (env 1).address) ∧
      (env 3).fault = none ∧ (env 4).fault = none

/-! ## Resources -/

section Resources

variable {w w' : World}

theorem noOrphans_of_same (hips : w'.cloudIps = w.cloudIps)
    (hinst : w'.cloudInstances = w.cloudInstances) : NoOrphans w w' where
  ips _ hip hnew := absurd (List.mem_map_of_mem (hips ▸ hip)) hnew
  instances _ hi hnew := absurd (List.mem_map_of_mem (hinst ▸ hi)) hnew

theorem lt_freshId_of_cloudIp {ip : CloudIp} (h : ip ∈ w.cloudIps) : ip.externalId < w.freshId := by
  have := List.mem_map_of_mem (f := CloudIp.externalId) h
  exact lt_freshId (by simp only [World.ids, List.mem_append, this, true_or, or_true])

theorem lt_freshId_of_cloudInstance {i : ExternalId × InstanceStatus} (h : i ∈ w.cloudInstances) :
    i.1 < w.freshId := by
  have := List.mem_map_of_mem (f := Prod.fst) h
  exact lt_freshId (by simp only [World.ids, List.mem_append, this, or_true])

theorem lt_freshId_of_ip {row : StaticIp} (h : row ∈ w.db.ips.rows) :
    row.id < w.freshId ∧ row.externalId < w.freshId := by
  have hid := List.mem_map_of_mem (f := StaticIp.id) h
  have hext := List.mem_map_of_mem (f := StaticIp.externalId) h
  constructor <;> refine lt_freshId (mem_ids_of_db ?_)
  · simp only [Db.ids, List.mem_append, hid, true_or, or_true]
  · simp only [Db.ids, List.mem_append, hext, true_or, or_true]

theorem lt_freshId_of_instance {row : Instance} (h : row ∈ w.db.instances.rows) :
    row.id < w.freshId ∧ row.externalId < w.freshId := by
  have hid := List.mem_map_of_mem (f := Instance.id) h
  have hext := List.mem_map_of_mem (f := Instance.externalId) h
  constructor <;> refine lt_freshId (mem_ids_of_db ?_)
  · simp only [Db.ids, List.mem_append, hid, true_or, or_true]
  · simp only [Db.ids, List.mem_append, hext, true_or, or_true]

end Resources

/-! ## Steps of a run -/

/-- A provider call is one request. -/
theorem wp_infra {X : Type} {g : (r : Req) → (r.Ans → X) → X} {E : Exn → Session → X} {s : Session}
    {c : InfraCall} {Q : c.Res → Session → X} :
    Task.wp g (infra c) Q E s =
      g (.infra c) fun x => match x with
        | .ok a => Q a s
        | .error e => E e s := by
  refine congrArg (g _) (funext fun x => ?_)
  cases x <;> rfl

/-- The envelope changes nothing where all exceptions end alike. -/
theorem wp_infraOrApp {X : Type} {g : (r : Req) → (r.Ans → X) → X} {s : Session} {c : InfraCall}
    {Q : c.Res → Session → X} {x : X} :
    Task.wp g (infraOrApp c) Q (fun _ _ => x) s = Task.wp g (infra c) Q (fun _ _ => x) s := by
  unfold infraOrApp
  rw [Task.wp_catching]
  congr 1
  funext e s'
  cases e <;> rfl

section Steps

variable {P : World → Prop} {s : Session} {env : Nat → Env} {w : World}
  {E : Exn → Session → (Nat → Env) → World → Prop}

theorem answer_next {α : Type} {e : Env} {documented : Exn} {x : α} {w' : World}
    {N : Except Exn α → World → Prop} :
    N (e.answer documented w x w').1 (e.answer documented w x w').2 ↔
      (∀ f, e.fault = some f → N (.error (f.exn documented)) w) ∧
        (e.fault = none → N (.ok x) w') := by
  cases hf : e.fault with
  | some f => simp [Env.answer_of_fault hf]
  | none => simp [Env.answer_of_fine hf]

/-- An await whose outcome does not matter. -/
theorem answer_same {e : Env} {A : Fault → Prop} {B C : Prop} (hA : ∀ f, A f ↔ C) (hB : B ↔ C) :
    (∀ f, e.fault = some f → A f) ∧ (e.fault = none → B) ↔ C := by
  cases hf : e.fault with
  | some f => simp [hA]
  | none => simp [hB]

theorem wp_execute_next {q : Query} {Q : q.Res → Session → (Nat → Env) → World → Prop}
    (hs : s.broken = false) :
    Task.wp (nextUp handle) (execute q) Q E s env w ↔
      (∀ f, (env 0).fault = some f →
        E (f.exn dbError) { s with broken := true } (fun n => env (n + 1)) w) ∧
        ((env 0).fault = none →
          Q (q.eval (env 0) w.clock (w.db.view w.clock s.pending)) s (fun n => env (n + 1)) w) := by
  rw [wp_execute, if_neg (by rw [hs]; exact Bool.false_ne_true)]
  exact answer_next (N := fun x w' => dbCases Q E s x (fun n => env (n + 1)) w')

/-- A provider call, with its exceptions in the envelope. -/
theorem wp_infraOrApp_next {c : InfraCall} {Q : c.Res → Session → (Nat → Env) → World → Prop} :
    Task.wp (nextUp handle) (infraOrApp c) Q (fun _ _ _ w' => P w') s env w ↔
      (∀ f, (env 0).fault = some f → P w) ∧
        ((env 0).fault = none →
          Q (c.eval (env 0) w).1 s (fun n => env (n + 1)) (c.eval (env 0) w).2) := by
  rw [wp_infraOrApp, wp_infra]
  exact answer_next (N := fun x w' => (match x with
    | .ok a => Q a s
    | .error _ => fun _ w' => P w') (fun n => env (n + 1)) w')

/-- A commit whose writes meet no constraint. -/
theorem wp_commit_next {Q : Unit → Session → (Nat → Env) → World → Prop} {d : Db}
    (hs : s.broken = false) (hd : w.db.write? w.clock s.pending = some d) :
    Task.wp (nextUp handle) commit Q E s env w ↔
      (∀ f, (env 0).fault = some f →
        E (f.exn dbError) { s with broken := true } (fun n => env (n + 1)) w) ∧
        ((env 0).fault = none →
          Q () { s with pending := [] } (fun n => env (n + 1)) { w with db := d }) := by
  rw [wp_commit, if_neg (by rw [hs]; exact Bool.false_ne_true)]
  show nextUp handle (.commit s.pending) _ env w ↔ _
  unfold nextUp
  simp only [handle, hd]
  exact answer_next (N := fun x w' =>
    dbCases (fun _ s' => Q () { s' with pending := [] }) E s x (fun n => env (n + 1)) w')

/-- A flush whose writes meet no constraint. -/
theorem wp_flush_next {Q : Unit → Session → (Nat → Env) → World → Prop} {d : Db}
    (hs : s.broken = false) (hd : w.db.write? w.clock s.pending = some d) :
    Task.wp (nextUp handle) flush Q E s env w ↔
      (∀ f, (env 0).fault = some f →
        E (f.exn dbError) { s with broken := true } (fun n => env (n + 1)) w) ∧
        ((env 0).fault = none → Q () s (fun n => env (n + 1)) w) := by
  rw [wp_flush, if_neg (by rw [hs]; exact Bool.false_ne_true)]
  show nextUp handle (.flush s.pending) _ env w ↔ _
  unfold nextUp
  simp only [handle, hd]
  exact answer_next (N := fun x w' => dbCases Q E s x (fun n => env (n + 1)) w')

/-- A flush whose writes do. -/
theorem wp_flush_next_conflict {Q : Unit → Session → (Nat → Env) → World → Prop}
    (hs : s.broken = false) (hd : w.db.write? w.clock s.pending = none)
    (hconflict : refusal s.pending = .integrity) :
    Task.wp (nextUp handle) flush Q E s env w ↔
      E .integrity { s with broken := true } (fun n => env (n + 1)) w := by
  rw [wp_flush, if_neg (by rw [hs]; exact Bool.false_ne_true)]
  show nextUp handle (.flush s.pending) _ env w ↔ _
  unfold nextUp
  simp only [handle, hd, hconflict]
  rfl

theorem wp_rollback_next {Q : Unit → Session → (Nat → Env) → World → Prop} :
    Task.wp (nextUp handle) rollback Q E s env w ↔
      (∀ f, (env 0).fault = some f →
        E (f.exn dbError) { s with broken := true } (fun n => env (n + 1)) w) ∧
        ((env 0).fault = none → Q () {} (fun n => env (n + 1)) w) := by
  rw [wp_rollback]
  exact answer_next (N := fun x w' => dbCases (fun _ _ => Q () {}) E s x (fun n => env (n + 1)) w')

theorem wp_newId_next {Q : Nat → Session → (Nat → Env) → World → Prop} :
    Task.wp (nextUp handle) newId Q E s env w =
      Q w.freshId s (fun n => env (n + 1)) { w with nextId := w.freshId + 1 } := rfl

theorem wp_refreshed_next {α : Type} {x : Option α} :
    Task.wp (nextUp handle) (refreshed x) (fun _ _ _ w' => P w') (fun _ _ _ w' => P w') s env w ↔
      P w := by
  cases x <;> rfl

end Steps

/-! ## An instance -/

theorem write?_addInstance {now : Instant} {d : Db} {row : Instance}
    (h : ∀ r ∈ d.instances.rows, r.id ≠ row.id) :
    d.write? now [.addInstance row] =
      some { d with instances := d.instances.insert row } := by
  rw [Db.write?_singleton]
  refine ⟨?_, rfl⟩
  show (d.instances.get? row.id).isSome = false
  rw [get?_none_of_fresh h]
  rfl

section Instance

variable (clientId : ClientId) (region : Region) (status : InstanceStatus) (autoRenew : Bool)

/-- The provider has created it, and an id has been drawn for the row. -/
def instanceCreated (w : World) : World :=
  let w' : World := { w with
    cloudInstances := w.cloudInstances ++ [(w.freshId, .running)]
    nextId := w.freshId + 1 }
  { w' with nextId := w'.freshId + 1 }

/-- The row of the new instance. -/
def newInstance (w : World) : Instance where
  id := (instanceCreated w).nextId - 1
  clientId := clientId
  externalId := w.freshId
  region := region
  status := status
  autoRenew := autoRenew

variable {clientId region status autoRenew} {w : World}

theorem not_noOrphans_instanceCreated : ¬ NoOrphans w (instanceCreated w) := by
  intro h
  have hnew : w.freshId ∉ w.cloudInstances.map Prod.fst := by
    intro hmem
    obtain ⟨i, hi, heq⟩ := List.mem_map.mp hmem
    exact absurd heq (Nat.ne_of_lt (lt_freshId_of_cloudInstance hi))
  rcases h.instances (w.freshId, .running) (List.mem_append_right _ List.mem_cons_self) hnew with
    hst | ⟨row, hrow, heq⟩
  · cases hst
  · exact absurd heq (Nat.ne_of_lt (lt_freshId_of_instance (w := w) hrow).2)

theorem noOrphans_instanceCommitted (h : ∀ r ∈ w.db.instances.rows,
      r.id ≠ (newInstance clientId region status autoRenew w).id) :
    NoOrphans w { instanceCreated w with
      db := { w.db with
        instances := w.db.instances.insert (newInstance clientId region status autoRenew w) } }
          where
  ips _ hip hnew := absurd (List.mem_map_of_mem hip) hnew
  instances i hi hnew := by
    rcases List.mem_append.mp hi with hi | hi
    · exact absurd (List.mem_map_of_mem hi) hnew
    · rw [List.mem_singleton.mp hi]
      refine .inr ⟨newInstance clientId region status autoRenew w, ?_, rfl⟩
      exact (Table.mem_rows_insert (get?_none_of_fresh h)).mpr (.inr rfl)

/-- `create_instance` -/
theorem createInstance_noOrphans_iff {env : Nat → Env} :
    NoOrphans w (((createInstance clientId region status autoRenew) {}).solo handle env w).2 ↔
      CommitsInstance env := by
  have hfresh : ∀ r ∈ w.db.instances.rows,
      r.id ≠ (newInstance clientId region status autoRenew w).id := fun r hr =>
    Nat.ne_of_lt (lt_freshId_of_instance (w := { w with
      cloudInstances := w.cloudInstances ++ [(w.freshId, .running)]
      nextId := w.freshId + 1 }) hr).1
  have hsame : NoOrphans w w := noOrphans_of_same rfl rfl
  have hcommitted := noOrphans_instanceCommitted hfresh
  rw [Task.solo_iff_nextUp (P := NoOrphans w), createInstance]
  rw [Task.wp_bind, getProvider, wp_execute_next rfl, Task.wp_bind, wp_infraOrApp_next]
  rw [Task.wp_bind, wp_newId_next, Task.wp_bind, wp_stage, Task.wp_bind,
    wp_commit_next rfl (write?_addInstance hfresh), Task.wp_bind, wp_execute_next rfl]
  constructor
  · intro h h0 h1
    by_contra h3
    obtain ⟨f, hf⟩ := Option.ne_none_iff_exists'.mp h3
    exact not_noOrphans_instanceCreated (((h.2 h0).2 h1).1 f hf)
  · intro h
    refine ⟨fun _ _ => hsame, fun h0 => ⟨fun _ _ => hsame, fun h1 => ⟨fun f h3 => ?_, fun _ => ?_⟩⟩⟩
    · have h3' : (env 3).fault = some f := h3
      rw [h h0 h1] at h3'
      cases h3'
    · exact ⟨fun _ _ => hcommitted, fun _ => wp_refreshed_next.mpr hcommitted⟩

end Instance

/-! ## An address -/

/-- The rest of a try of `allocate_ip`, when the provider has created the IP. -/
def storeIp (region : Region) (x : ExternalId × String) : Coro (Option StaticIp) := do
  let id ← newId
  Task.catching
    (do
      stage (.addIp { id := id, externalId := x.1, ipAddress := x.2, region := region })
      flush
      enqueueOutbox (.ipAllocated id x.2 region)
      commit
      let row ← refreshed (← execute (.ip id))
      pure (some row))
    fun
    | .integrity => do
        rollback
        pure none
    | e => Task.raise e

theorem tryAllocate_eq (region : Region) :
    tryAllocate region = infraOrApp (.createIp region) >>= storeIp region := rfl

section Address

variable {region : Region} {w : World}

/-- The provider has created it, and an id has been drawn for the row. -/
def ipCreated (address : String) (w : World) : World :=
  let w' : World := { w with
    cloudIps := w.cloudIps ++ [{ externalId := w.freshId, ipAddress := address }]
    nextId := w.freshId + 1 }
  { w' with nextId := w'.freshId + 1 }

/-- The row of the new IP. -/
def newIp (region : Region) (address : String) (w : World) : StaticIp where
  id := (ipCreated address w).nextId - 1
  externalId := w.freshId
  ipAddress := address
  region := region

/-- Its row and its event have been committed. -/
def ipCommitted (region : Region) (address : String) (w : World) : World :=
  { ipCreated address w with
    db := { w.db with
      ips := w.db.ips.insert (newIp region address w)
      outbox := w.db.outbox ++
        [{ payload := .ipAllocated (newIp region address w).id address region }] } }

theorem newIp_fresh {address : String} : ∀ r ∈ w.db.ips.rows, r.id ≠ (newIp region address w).id :=
  fun _ hr => Nat.ne_of_lt (lt_freshId_of_ip (w := { w with
    cloudIps := w.cloudIps ++ [{ externalId := w.freshId, ipAddress := address }]
    nextId := w.freshId + 1 }) hr).1

theorem write?_newIp {address : String} (h : ∀ row ∈ w.db.ips.rows, row.ipAddress ≠ address) :
    w.db.write? w.clock [.addIp (newIp region address w)] =
      some { w.db with ips := w.db.ips.insert (newIp region address w) } := by
  rw [Db.write?_singleton]
  refine ⟨?_, rfl⟩
  have hany : (w.db.ips.rows.any fun r' => r'.ipAddress == address) = false := by
    rw [List.any_eq_false]
    exact fun r hr => by simpa using h r hr
  show ((w.db.ips.get? (newIp region address w).id).isSome ||
    w.db.ips.rows.any fun r' => r'.ipAddress == address) = false
  rw [get?_none_of_fresh newIp_fresh, hany]
  rfl

theorem write?_newIp_taken {address : String} {row : StaticIp} (hrow : row ∈ w.db.ips.rows)
    (h : row.ipAddress = address) :
    w.db.write? w.clock [.addIp (newIp region address w)] = none := by
  have hany : (w.db.ips.rows.any fun r' => r'.ipAddress == address) = true :=
    List.any_eq_true.mpr ⟨row, hrow, beq_iff_eq.mpr h⟩
  have hconflict : Write.conflicts w.db (.addIp (newIp region address w)) = true := by
    show ((w.db.ips.get? (newIp region address w).id).isSome ||
      w.db.ips.rows.any fun r' => r'.ipAddress == address) = true
    rw [hany, Bool.or_true]
  simp only [Db.write?, List.foldlM_cons, Write.checked, hconflict, if_true]
  rfl

theorem write?_newIp_event {address : String} (h : ∀ row ∈ w.db.ips.rows, row.ipAddress ≠ address) :
    w.db.write? w.clock [.addIp (newIp region address w),
      .enqueue (.ipAllocated (newIp region address w).id address region)] =
      some (ipCommitted region address w).db := by
  have hfirst : w.db.write? w.clock [.addIp (newIp region address w)] = _ := write?_newIp h
  rw [Db.write?_singleton] at hfirst
  rw [Db.write?_cons]
  exact ⟨hfirst.1, rfl⟩

/-- One more try, with an address that nobody has. -/
theorem wp_allocateTries_free {P : World → Prop} {env : Nat → Env} {n : Nat}
    (hfree : ∀ row ∈ w.db.ips.rows, row.ipAddress ≠ (env 0).address) :
    Task.wp (nextUp handle) (allocateTries region (n + 1)) (fun _ _ _ w' => P w')
        (fun _ _ _ w' => P w') {} env w ↔
      (∀ f, (env 0).fault = some f → P w) ∧
        ((env 0).fault = none →
          (∀ f, (env 2).fault = some f → P (ipCreated (env 0).address w)) ∧
            ((env 2).fault = none →
              (∀ f, (env 3).fault = some f → P (ipCreated (env 0).address w)) ∧
                ((env 3).fault = none → P (ipCommitted region (env 0).address w)))) := by
  rw [allocateTries, Task.wp_bind, tryAllocate_eq, Task.wp_bind, wp_infraOrApp_next, storeIp,
    Task.wp_bind, wp_newId_next, Task.wp_catching, Task.wp_bind, wp_stage, Task.wp_bind,
    wp_flush_next rfl (write?_newIp hfree), Task.wp_bind, wp_enqueueOutbox, Task.wp_bind,
    wp_commit_next rfl (write?_newIp_event hfree)]
  refine and_congr Iff.rfl (imp_congr Iff.rfl (and_congr ?_ (imp_congr Iff.rfl (and_congr ?_
    (imp_congr Iff.rfl ?_)))))
  · exact forall_congr' fun f => imp_congr Iff.rfl (by cases f <;> rfl)
  · exact forall_congr' fun f => imp_congr Iff.rfl (by cases f <;> rfl)
  · rw [Task.wp_bind, wp_execute_next rfl]
    refine answer_same (fun f => by cases f <;> rfl) ?_
    rw [Task.wp_bind]
    generalize Query.eval _ _ _ (.ip _) = x
    cases x <;> rfl

/-- One more try, with an address that is taken. -/
theorem wp_allocateTries_taken {P : World → Prop} {env : Nat → Env} {n : Nat} {row : StaticIp}
    (hrow : row ∈ w.db.ips.rows) (htaken : row.ipAddress = (env 0).address) :
    Task.wp (nextUp handle) (allocateTries region (n + 1)) (fun _ _ _ w' => P w')
        (fun _ _ _ w' => P w') {} env w ↔
      (∀ f, (env 0).fault = some f → P w) ∧
        ((env 0).fault = none →
          (∀ f, (env 3).fault = some f → P (ipCreated (env 0).address w)) ∧
            ((env 3).fault = none →
              Task.wp (nextUp handle) (allocateTries region n) (fun _ _ _ w' => P w')
                (fun _ _ _ w' => P w') {} (fun k => env (k + 4))
                (ipCreated (env 0).address w))) := by
  rw [allocateTries, Task.wp_bind, tryAllocate_eq, Task.wp_bind, wp_infraOrApp_next, storeIp,
    Task.wp_bind, wp_newId_next, Task.wp_catching, Task.wp_bind, wp_stage, Task.wp_bind,
    wp_flush_next_conflict rfl (write?_newIp_taken hrow htaken) rfl, Task.wp_bind, wp_rollback_next]
  rfl

/-- An IP that is left at the provider without a row. -/
structure Stranded (ext : ExternalId) (w : World) : Prop where
  cloud : ∃ ip ∈ w.cloudIps, ip.externalId = ext ∧ ip.status = .allocated
  row : ∀ row ∈ w.db.ips.rows, row.externalId ≠ ext

theorem not_noOrphans_of_stranded {w' : World} {ext : ExternalId} (h : Stranded ext w')
    (hnew : ext ∉ w.cloudIps.map CloudIp.externalId) : ¬ NoOrphans w w' := by
  intro hacc
  obtain ⟨ip, hip, rfl, hst⟩ := h.cloud
  rcases hacc.ips ip hip hnew with hreleased | ⟨row, hrow, heq⟩
  · rw [hst] at hreleased
    cases hreleased
  · exact h.row row hrow heq

theorem freshId_not_mem_cloudIps : w.freshId ∉ w.cloudIps.map CloudIp.externalId := by
  intro hmem
  obtain ⟨ip, hip, heq⟩ := List.mem_map.mp hmem
  exact absurd heq (Nat.ne_of_lt (lt_freshId_of_cloudIp hip))

theorem stranded_ipCreated {address : String} : Stranded w.freshId (ipCreated address w) where
  cloud := ⟨{ externalId := w.freshId, ipAddress := address },
    List.mem_append_right _ List.mem_cons_self, rfl, rfl⟩
  row _ hrow := Nat.ne_of_lt (lt_freshId_of_ip (w := w) hrow).2

section Stays

variable {ext : ExternalId} {address : String}

theorem Stranded.ipCreated (h : Stranded ext w) : Stranded ext (ipCreated address w) where
  cloud := by
    obtain ⟨ip, hip, hext⟩ := h.cloud
    exact ⟨ip, List.mem_append_left _ hip, hext⟩
  row := h.row

theorem Stranded.ipCommitted (h : Stranded ext w) :
    Stranded ext (ipCommitted region address w) where
  cloud := h.ipCreated.cloud
  row row hrow := by
    rcases (Table.mem_rows_insert (get?_none_of_fresh newIp_fresh)).mp hrow with hrow | rfl
    · exact h.row row hrow
    · obtain ⟨ip, hip, hext, -⟩ := h.cloud
      have hlt := lt_freshId_of_cloudIp hip
      rw [hext] at hlt
      exact Nat.ne_of_gt hlt

/-- No later try does anything about it. -/
theorem Stranded.tries {n : Nat} {env : Nat → Env} (h : Stranded ext w) :
    Task.wp (nextUp handle) (allocateTries region n) (fun _ _ _ w' => Stranded ext w')
      (fun _ _ _ w' => Stranded ext w') {} env w := by
  induction n generalizing w env with
  | zero => exact h
  | succ n ih =>
      by_cases htaken : ∃ row ∈ w.db.ips.rows, row.ipAddress = (env 0).address
      · obtain ⟨row, hrow, haddress⟩ := htaken
        rw [wp_allocateTries_taken hrow haddress]
        exact ⟨fun _ _ => h, fun _ => ⟨fun _ _ => h.ipCreated, fun _ => ih h.ipCreated⟩⟩
      · rw [wp_allocateTries_free fun row hrow heq => htaken ⟨row, hrow, heq⟩]
        exact ⟨fun _ _ => h, fun _ => ⟨fun _ _ => h.ipCreated,
          fun _ => ⟨fun _ _ => h.ipCreated, fun _ => h.ipCommitted⟩⟩⟩

end Stays

theorem noOrphans_ipCommitted {address : String} : NoOrphans w (ipCommitted region address w) where
  ips ip hip hnew := by
    rcases List.mem_append.mp hip with hip | hip
    · exact absurd (List.mem_map_of_mem hip) hnew
    · rw [List.mem_singleton.mp hip]
      refine .inr ⟨newIp region address w, ?_, rfl⟩
      exact (Table.mem_rows_insert (get?_none_of_fresh newIp_fresh)).mpr (.inr rfl)
  instances _ hi hnew := absurd (List.mem_map_of_mem hi) hnew

/-- `allocate_ip` -/
theorem allocateIp_noOrphans_iff {env : Nat → Env} :
    NoOrphans w ((allocateIp region {}).solo handle env w).2 ↔ CommitsFirstIp env w := by
  have hsame : NoOrphans w w := noOrphans_of_same rfl rfl
  have hfault {f : Fault} {n : Nat} (h : (env n).fault = none) : ¬ (env n).fault = some f := by
    rw [h]
    exact nofun
  constructor
  · intro h h0 h1
    by_contra hnot
    -- the first IP stays at the provider, whatever comes after
    have hstranded : Stranded w.freshId ((allocateIp region {}).solo handle env w).2 := by
      rw [Task.solo_iff_nextUp (P := Stranded w.freshId), allocateIp, Task.wp_bind, getProvider,
        wp_execute_next rfl]
      refine ⟨fun f hf => absurd hf (hfault h0), fun _ => ?_⟩
      by_cases htaken : ∃ row ∈ w.db.ips.rows, row.ipAddress = (env 1).address
      · obtain ⟨row, hrow, haddress⟩ := htaken
        rw [wp_allocateTries_taken hrow haddress]
        exact ⟨fun f hf => absurd hf (hfault h1), fun _ =>
          ⟨fun _ _ => stranded_ipCreated, fun _ => stranded_ipCreated.tries⟩⟩
      · have hfree : ∀ row ∈ w.db.ips.rows, row.ipAddress ≠ (env 1).address :=
          fun row hrow heq => htaken ⟨row, hrow, heq⟩
        rw [wp_allocateTries_free hfree]
        refine ⟨fun f hf => absurd hf (hfault h1), fun _ =>
          ⟨fun _ _ => stranded_ipCreated, fun h3 => ⟨fun _ _ => stranded_ipCreated, fun h4 => ?_⟩⟩⟩
        exact absurd ⟨hfree, h3, h4⟩ hnot
    exact not_noOrphans_of_stranded hstranded freshId_not_mem_cloudIps h
  · intro h
    rw [Task.solo_iff_nextUp (P := NoOrphans w), allocateIp, Task.wp_bind, getProvider,
      wp_execute_next rfl]
    refine ⟨fun _ _ => hsame, fun h0 => ?_⟩
    by_cases h1 : (env 1).fault = none
    · obtain ⟨hfree, h3, h4⟩ := h h0 h1
      rw [wp_allocateTries_free hfree]
      exact ⟨fun _ _ => hsame, fun _ => ⟨fun f hf => absurd hf (hfault h3), fun _ =>
        ⟨fun f hf => absurd hf (hfault h4), fun _ => noOrphans_ipCommitted⟩⟩⟩
    · -- nothing has been created
      by_cases htaken : ∃ row ∈ w.db.ips.rows, row.ipAddress = (env 1).address
      · obtain ⟨row, hrow, haddress⟩ := htaken
        rw [wp_allocateTries_taken hrow haddress]
        exact ⟨fun _ _ => hsame, fun h1' => absurd h1' h1⟩
      · rw [wp_allocateTries_free fun row hrow heq => htaken ⟨row, hrow, heq⟩]
        exact ⟨fun _ _ => hsame, fun h1' => absurd h1' h1⟩

end Address

/-- Both calls leave nothing unaccounted for at the provider exactly when the writes after
the first creation go through. -/
theorem created_noOrphans_iff (clientId : ClientId) (region : Region) (status : InstanceStatus)
    (autoRenew : Bool) (env : Nat → Env) (w : World) :
    (NoOrphans w ((createInstance clientId region status autoRenew {}).solo handle env w).2 ↔
      CommitsInstance env) ∧
    (NoOrphans w ((allocateIp region {}).solo handle env w).2 ↔ CommitsFirstIp env w) :=
  ⟨createInstance_noOrphans_iff, allocateIp_noOrphans_iff⟩

/-- A row that has an address. -/
def takenIp : StaticIp where
  id := 1
  externalId := 2
  ipAddress := "198.51.100.1"
  region := "fra"

def addressTaken : World where
  db := { ips := .of [takenIp] }

/-- The provider answers that address first and another one then. -/
def secondAddress : Nat → Env
  | 1 => { address := "198.51.100.1" }
  | _ => { address := "198.51.100.2" }

/-- The call returns the second IP, and the first stays at the provider. -/
theorem not_noOrphans_addressTaken :
    (∃ ip, ((allocateIp "fra" {}).solo handle secondAddress addressTaken).1.1 = .ok ip) ∧
      ¬ NoOrphans addressTaken
        ((allocateIp "fra" {}).solo handle secondAddress addressTaken).2 := by
  refine ⟨⟨_, rfl⟩, fun h => ?_⟩
  obtain ⟨hfree, -⟩ := allocateIp_noOrphans_iff.mp h rfl rfl
  exact hfree takenIp List.mem_cons_self rfl

end BrokerBridge
