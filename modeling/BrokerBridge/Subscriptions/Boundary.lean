import BrokerBridge.Code.Subscriptions

/-!
# Where a window ends

The trading gate compares datetimes in Python, the expiry teardown compares columns in
SQL. At the end of a window both take the row: it still covers, and it is due.
-/

namespace BrokerBridge

/-- A Python datetime: the wall clock, and its distance from UTC if it has a time zone. -/
structure DateTime where
  wall : Instant
  utcOffset : Option Instant := none
  deriving DecidableEq

namespace DateTime

/-- `_as_utc` -/
def asUtc (value : DateTime) : DateTime :=
  match value.utcOffset with
  | none => { value with utcOffset := some 0 }
  | some offset => ⟨value.wall - offset, some 0⟩

/-- The instant that a datetime stands for; one without a time zone is read as UTC. -/
def instant (value : DateTime) : Instant := value.wall - value.utcOffset.getD 0

/-- Datetimes with a time zone are compared in UTC. -/
instance : LE DateTime := ⟨fun a b => a.instant ≤ b.instant⟩

instance (a b : DateTime) : Decidable (a ≤ b) := inferInstanceAs (Decidable (_ ≤ _))

@[simp] theorem instant_asUtc (value : DateTime) : value.asUtc.instant = value.instant := by
  obtain ⟨wall, _ | offset⟩ := value
  · rfl
  · exact Int.sub_zero _

end DateTime

/-- A subscription as the session has loaded it; which time zones its columns come back with
is up to the database. -/
structure LoadedSubscription where
  id : SubscriptionId
  clientId : ClientId
  status : SubscriptionStatus
  startsAt : DateTime
  endsAt : DateTime
  teardownMode : TeardownMode
  teardownCompletedAt : Option DateTime

namespace LoadedSubscription

variable (r : LoadedSubscription) (now : DateTime)

/-- The row in the database. -/
def stored : Subscription where
  id := r.id
  clientId := r.clientId
  status := r.status
  startsAt := r.startsAt.instant
  endsAt := r.endsAt.instant
  teardownMode := r.teardownMode
  teardownCompletedAt := r.teardownCompletedAt.map (·.instant)

/-- The test of `_covering_active`, over datetimes. -/
def covering : Bool :=
  r.status = .active && (r.startsAt.asUtc ≤ now.asUtc && now.asUtc ≤ r.endsAt.asUtc) &&
    r.teardownCompletedAt.isNone

/-- It comes to the one over instants. -/
theorem covering_stored : r.covering now = r.stored.covering now.instant := by
  have hle : ∀ a b : DateTime, decide (a.asUtc ≤ b.asUtc) = decide (a.instant ≤ b.instant) := by
    intro a b
    show decide (a.asUtc.instant ≤ b.asUtc.instant) = _
    rw [DateTime.instant_asUtc, DateTime.instant_asUtc]
  have hnone : (r.teardownCompletedAt.map (·.instant)).isNone = r.teardownCompletedAt.isNone :=
    Option.isNone_map
  show (_ && (_ && _) && _) = (_ && _ && _ && (r.teardownCompletedAt.map (·.instant)).isNone)
  rw [hle, hle, hnone, Bool.and_assoc (decide (r.stored.status = .active))]
  rfl

/-- The gate and the teardown agree about the row at this time. -/
def Agrees : Prop :=
  r.covering now = true ↔
    r.startsAt.instant ≤ now.instant ∧ ¬ r.stored.due now.instant = true

variable {r now}

/-- A closed interval and a half-open one differ at the end. -/
theorem closed_iff_open (a b t : Int) :
    (a ≤ t ∧ t ≤ b ↔ a ≤ t ∧ ¬ b ≤ t) ↔ ¬ (a ≤ t ∧ t = b) := by omega

/-- They agree about an open row but at the end of its window. -/
theorem agrees_iff (hactive : r.status = .active) (hopen : r.teardownCompletedAt = none) :
    r.Agrees now ↔ ¬ (r.startsAt.instant ≤ now.instant ∧ now.instant = r.endsAt.instant) := by
  have hcovering : r.covering now = true ↔
      r.startsAt.instant ≤ now.instant ∧ now.instant ≤ r.endsAt.instant := by
    rw [covering_stored]
    simp [Subscription.covering, stored, hactive, hopen]
  have hdue : r.stored.due now.instant = true ↔ r.endsAt.instant ≤ now.instant := by
    simp [Subscription.due, stored, hactive, hopen]
  rw [Agrees, hcovering, hdue]
  exact closed_iff_open _ _ _

end LoadedSubscription

/-- A window of a day, read back without a time zone. -/
def dayLong : LoadedSubscription where
  id := 1
  clientId := 2
  status := .active
  startsAt := ⟨0, none⟩
  endsAt := ⟨86400, none⟩
  teardownMode := .suspend
  teardownCompletedAt := none

/-- At noon, by a clock an hour ahead of UTC. -/
theorem agrees_dayLong : dayLong.Agrees ⟨46800, some 3600⟩ :=
  (LoadedSubscription.agrees_iff rfl rfl).mpr (by decide)

/-- When it ends the row covers, and is due. -/
theorem not_agrees_dayLong : ¬ ∀ (r : LoadedSubscription) (now : DateTime), r.status = .active →
    r.teardownCompletedAt = none → r.Agrees now := by
  intro h
  have hcovering : dayLong.covering ⟨86400, none⟩ = true := by decide
  exact ((h dayLong ⟨86400, none⟩ rfl rfl).mp hcovering).2 (by decide)

end BrokerBridge
