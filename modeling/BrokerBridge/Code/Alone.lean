import BrokerBridge.Code.System
import BrokerBridge.World.Frame

/-!
# Calls one after another

A call that runs alone, with time passing before each of its awaits. What it reads
off the clock is kept beside the world. A sequential run is a list of such calls, with
changes of the configuration between them; `record` lists them with what came of each.
-/

namespace BrokerBridge

open Conc

/-- Some time passes, and the request is answered. -/
def passing (r : Req) (x : Nat × Env) (w : World) : r.Ans × World :=
  handle r x.2 { w with clock := w.clock + x.1 }

/-- The clock's readings, in order. -/
def reading (ts : List Instant) : (r : Req) → r.Ans → List Instant
  | .now, t => ts ++ [t]
  | _, _ => ts

/-- Time has passed, and what the clock has shown meanwhile lies in between. -/
structure Onward (v v' : World × List Instant) : Prop where
  clock : v.1.clock ≤ v'.1.clock
  readings : ∃ ts, v'.2 = v.2 ++ ts ∧ ∀ t ∈ ts, v.1.clock ≤ t ∧ t ≤ v'.1.clock

theorem Onward.refl (v : World × List Instant) : Onward v v :=
  ⟨Int.le_refl _, [], (List.append_nil _).symm, List.forall_mem_nil _⟩

theorem Onward.trans {u v w : World × List Instant} (h : Onward u v) (h' : Onward v w) :
    Onward u w := by
  obtain ⟨ts, hts, hin⟩ := h.readings
  obtain ⟨ts', hts', hin'⟩ := h'.readings
  refine ⟨h.clock.trans h'.clock, ts ++ ts', by rw [hts', hts, List.append_assoc], fun t ht => ?_⟩
  rcases List.mem_append.mp ht with ht | ht
  · exact ⟨(hin t ht).1, (hin t ht).2.trans h'.clock⟩
  · exact ⟨h.clock.trans (hin' t ht).1, (hin' t ht).2⟩

theorem onward_passing (r : Req) (x : Nat × Env) (v : World × List Instant) :
    Onward v (tracked passing reading r x v).2 := by
  have hclock : (passing r x v.1).2.clock = v.1.clock + x.1 := handle_clock r x.2 _
  have hle : v.1.clock ≤ (passing r x v.1).2.clock := by
    rw [hclock]
    exact Int.le_add_of_nonneg_right (Int.natCast_nonneg x.1)
  refine ⟨hle, ?_⟩
  cases r with
  | now =>
      refine ⟨[v.1.clock + x.1], rfl, fun t ht => ?_⟩
      rw [List.mem_singleton.mp ht, ← hclock]
      exact ⟨hle, Int.le_refl _⟩
  | _ => exact ⟨[], (List.append_nil _).symm, List.forall_mem_nil _⟩

/-! ## What may go wrong -/

/-- Only the awaits in `F` may go wrong. -/
def Failing (F : Req → Prop) (r : Req) (x : Nat × Env) : Prop := x.2.fault ≠ none → F r

def Req.asksDb : Req → Prop
  | .query _ _ | .commit _ | .flush _ | .rollback => True
  | _ => False

/-- Something that is asked of the database may go wrong. -/
def DbFails (F : Req → Prop) : Prop := ∃ r, r.asksDb ∧ F r

/-- The calls of the infrastructure provider succeed. -/
def ProviderUp (r : Req) : Prop := ∀ c, r ≠ .infra c

/-! ## A process that dies -/

/-- From here on no commit succeeds, and nothing else fails. -/
theorem exists_unwritten {α : Type} {F : Req → Prop} (hF : ∀ ws, F (.commit ws))
    (p : Prog Req Req.Ans α) (w : World) :
    ∃ env, p.Suits passing (Failing F) env w ∧ (p.solo passing env w).2.db = w.db := by
  induction p generalizing w with
  | ret a => exact ⟨fun _ => (0, {}), trivial, rfl⟩
  | call r k ih =>
      obtain ⟨x, hx, hdb⟩ : ∃ x, Failing F r x ∧ (passing r x w).2.db = w.db := by
        by_cases hr : ∃ ws, r = .commit ws
        · obtain ⟨ws, rfl⟩ := hr
          refine ⟨(0, { fault := some .failed }), fun _ => hF ws, ?_⟩
          show (handle (.commit ws) _ _).2.db = w.db
          simp only [handle]
          split <;> rfl
        · exact ⟨(0, {}), fun h => absurd rfl h, handle_db (fun ws h => hr ⟨ws, h⟩) _ _⟩
      obtain ⟨env, henv, hend⟩ := ih (passing r x w).1 (passing r x w).2
      exact ⟨follow x env, ⟨hx, henv⟩, hend.trans hdb⟩

/-- What a process that dies leaves in the database, a call leaves whose later commits
fail. -/
theorem exists_halted {α : Type} {F : Req → Prop} (hF : ∀ ws, F (.commit ws))
    {p : Prog Req Req.Ans α} {env : Nat → Nat × Env} {w : World}
    (h : p.Suits passing (Failing F) env w) (n : Nat) :
    ∃ env', p.Suits passing (Failing F) env' w ∧
      (p.solo passing env' w).2.db = (p.partway passing n env w).db := by
  induction p generalizing n env w with
  | ret a => exact ⟨env, trivial, rfl⟩
  | call r k ih =>
      cases n with
      | zero => exact exists_unwritten hF (.call r k) w
      | succ n =>
          obtain ⟨env', henv, hend⟩ := ih _ h.2 n
          exact ⟨follow (env 0) env', ⟨h.1, henv⟩, hend⟩

/-! ## Sequential runs -/

namespace Call

variable (s : Settings) (c : Call) (env : Nat → Nat × Env) (w : World)

def outcome : Except Exn Reply × World := (programOf s c).solo passing env w

def readings : List Instant :=
  ((programOf s c).heard passing env w).foldl (fun ts x => reading ts x.1 x.2) []

/-- The world after the call's first `n` awaits. -/
def partway (n : Nat) : World := (programOf s c).partway passing n env w

/-- Only what `F` lists goes wrong in the call. -/
def Meets (F : Req → Prop) : Prop := (programOf s c).Suits passing (Failing F) env w

/-- The calls that `IpManagerService` and `RotationService` make on static IPs. -/
def onIps : Call → Bool
  | .allocateIp _ | .assign _ _ _ | .attach _ _ | .detach _ | .release _ | .rotate _ _ => true
  | _ => false

/-- What a call reads off the clock lies between its beginning and its end. -/
theorem onward : Onward (w, []) ((c.outcome s env w).2, c.readings s env w) := by
  have h := Prog.solo_along Onward.refl Onward.trans onward_passing (programOf s c) env (w, [])
  rw [Prog.solo_tracked] at h
  exact h

end Call

inductive Deed where
  | call (c : Call) (env : Nat → Nat × Env)
  | configure (c : Config)

/-- A call of a sequential run: where it began, and what came of it. -/
structure Entry where
  before : World
  call : Call
  reply : Except Exn Reply
  readings : List Instant
  after : World

def World.configure (w : World) (c : Config) : World := { w with db := { w.db with config := c } }

def Deed.entry (s : Settings) (c : Call) (env : Nat → Nat × Env) (w : World) : Entry where
  before := w
  call := c
  reply := (c.outcome s env w).1
  readings := c.readings s env w
  after := (c.outcome s env w).2

/-- The world a run leaves. -/
def worldAfter (s : Settings) : World → List Deed → World
  | w, [] => w
  | w, .configure c :: ds => worldAfter s (w.configure c) ds
  | w, .call c env :: ds => worldAfter s (Deed.entry s c env w).after ds

/-- The calls of a run. -/
def record (s : Settings) : World → List Deed → List Entry
  | _, [] => []
  | w, .configure c :: ds => record s (w.configure c) ds
  | w, .call c env :: ds => Deed.entry s c env w :: record s (Deed.entry s c env w).after ds

/-- Every deed of the run satisfies `P` where it is done. -/
def Throughout (s : Settings) (P : World → Deed → Prop) : World → List Deed → Prop
  | _, [] => True
  | w, d :: ds => P w d ∧ Throughout s P (worldAfter s w [d]) ds

theorem throughout_append {s : Settings} {P : World → Deed → Prop} {w : World} {ds : List Deed}
    {d : Deed} : Throughout s P w (ds ++ [d]) ↔ Throughout s P w ds ∧ P (worldAfter s w ds) d := by
  induction ds generalizing w with
  | nil => exact ⟨fun h => ⟨trivial, h.1⟩, fun h => ⟨h.2, trivial⟩⟩
  | cons d' ds ih =>
      have hstep : ∀ ds', worldAfter s w (d' :: ds') = worldAfter s (worldAfter s w [d']) ds' := by
        intro ds'
        cases d' <;> rfl
      rw [List.cons_append, Throughout, Throughout, ih, ← hstep, and_assoc]

/-- Each call is about static IPs, and only what `F` lists goes wrong in it. -/
def Deed.OnIps (s : Settings) (F : World → Req → Prop) (w : World) : Deed → Prop
  | .call c env => c.onIps = true ∧ c.Meets s env w (F w)
  | .configure _ => True

end BrokerBridge
