import Honryu.Quota.Capacity

/-!
The capacity of a cluster, as `ClusterCapacity` reports it.

It goes through the tenants that have a quota row on the cluster. A tenant without one
is admitted under the default ceiling all the same, and what it uses is not part of
the figure.
-/

namespace Honryu.Quota

variable {p : Precision}

/-! ### The report -/

structure TenantQuota where
  tenantId : ℤ
  ceiling : ℤ

/-- What `ListClusterQuotas` finds. A tenant has at most one row for a cluster. -/
structure ClusterQuotas where
  rows : List TenantQuota
  nodup : (rows.map (·.tenantId)).Nodup

def ClusterQuotas.tenants (quotas : ClusterQuotas) : List ℤ := quotas.rows.map (·.tenantId)

theorem ClusterQuotas.nodup_tenants (quotas : ClusterQuotas) : quotas.tenants.Nodup := quotas.nodup

/-- The clock as `ClusterCapacity` reads it: once for the instant it asks about, and
then for every tenant when it looks for what overruns. -/
structure Readings where
  now : ℤ
  later : ℤ → ℤ
  le : ∀ tenantId, now ≤ later tenantId

/-- `ClusterCapacity`: what is used, and the sum of the ceilings. -/
def clusterCapacity (w : World p) (quotas : ClusterQuotas) (cluster : String) (clock : Readings) :
    ℤ × ℤ :=
  quotas.rows.foldl
    (fun (used, ceiling) q =>
      (used + (usedCapacity w (clock.later q.tenantId) q.tenantId cluster clock.now clock.now).1,
        ceiling + q.ceiling))
    (0, 0)

theorem clusterCapacity_used (w : World p) (quotas : ClusterQuotas) (cluster : String)
    (clock : Readings) :
    (clusterCapacity w quotas cluster clock).1 =
      (quotas.tenants.map fun tenantId =>
        (usedCapacity w (clock.later tenantId) tenantId cluster clock.now clock.now).1).sum := by
  have hfold : ∀ (rows : List TenantQuota) (used ceiling : ℤ),
      (rows.foldl
        (fun (acc : ℤ × ℤ) q =>
          (acc.1 + (usedCapacity w (clock.later q.tenantId) q.tenantId cluster clock.now
            clock.now).1, acc.2 + q.ceiling)) (used, ceiling)).1 =
        used + ((rows.map (·.tenantId)).map fun tenantId =>
          (usedCapacity w (clock.later tenantId) tenantId cluster clock.now clock.now).1).sum := by
    intro rows
    induction rows with
    | nil => intro used ceiling; exact (add_zero used).symm
    | cons q rows ih =>
        intro used ceiling
        rw [List.foldl_cons, ih, List.map_cons, List.map_cons, List.sum_cons, add_assoc]
  exact (hfold quotas.rows 0 0).trans (zero_add _)

/-! ### What is in use -/

section InUse

variable (w : World p) (cluster : String) (now : ℤ)

def SpansNow (r : Reservation) : Prop := r.startTime < now ∧ now < r.endTime

def PastDue (r : Reservation) : Prop := r.endTime < now ∧ w.running r.executionId

instance (r : Reservation) : Decidable (SpansNow now r) := inferInstanceAs (Decidable (_ ∧ _))

instance (r : Reservation) : Decidable (PastDue w now r) := inferInstanceAs (Decidable (_ ∧ _))

def inUse : List Reservation :=
  w.ledger.rows.filter fun r => r.cluster = cluster ∧ (SpansNow now r ∨ PastDue w now r)

def ShowsAllUsage (quotas : ClusterQuotas) (clock : Readings) : Prop :=
  (clusterCapacity w quotas cluster clock).1 = engines (inUse w cluster clock.now)

def unlisted (quotas : ClusterQuotas) : List Reservation :=
  (inUse w cluster now).filter fun r => r.tenantId ∉ quotas.tenants

/-- The reservations of tenants with a row that ended between the two readings of the
clock, and whose executions are still running. -/
def endedMeanwhile (quotas : ClusterQuotas) (clock : Readings) : List Reservation :=
  w.ledger.rows.filter fun r => r.cluster = cluster ∧ r.tenantId ∈ quotas.tenants ∧
    clock.now ≤ r.endTime ∧ PastDue w (clock.later r.tenantId) r

end InUse

/-! ### How the two compare -/

section Compare

variable {w : World p} {cluster : String} {now : ℤ} {quotas : ClusterQuotas} {clock : Readings}

theorem engines_filter_congr {l : List Reservation} {P Q : Reservation → Prop} [DecidablePred P]
    [DecidablePred Q] (h : ∀ r ∈ l, P r ↔ Q r) :
    engines (l.filter fun r => P r) = engines (l.filter fun r => Q r) :=
  congrArg engines (List.filter_congr fun r hr => decide_eq_decide.mpr (h r hr))

/-- What different tenants have is what is had by any of them. -/
theorem sum_engines_of_tenants (P : Reservation → Prop) [DecidablePred P] (l : List Reservation)
    {tenants : List ℤ} (hnodup : tenants.Nodup) :
    (tenants.map fun tenantId => engines (l.filter fun r => r.tenantId = tenantId ∧ P r)).sum =
      engines (l.filter fun r => r.tenantId ∈ tenants ∧ P r) := by
  induction tenants with
  | nil => simp [engines]
  | cons tenantId tenants ih =>
      obtain ⟨hnotin, hnodup⟩ := List.nodup_cons.mp hnodup
      have hdisjoint : ∀ r ∈ l, r.tenantId = tenantId ∧ P r → ¬(r.tenantId ∈ tenants ∧ P r) := by
        rintro r - ⟨rfl, -⟩ ⟨hmem, -⟩
        exact hnotin hmem
      rw [List.map_cons, List.sum_cons, ih hnodup]
      refine (sum_filter_add_sum_filter hdisjoint).trans (engines_filter_congr fun r _ => ?_)
      rw [List.mem_cons, or_and_right]

theorem usedCapacity_now (tenantId : ℤ) :
    (usedCapacity w (clock.later tenantId) tenantId cluster clock.now clock.now).1 =
      engines (w.ledger.rows.filter fun r =>
        r.tenantId = tenantId ∧ r.cluster = cluster ∧ SpansNow clock.now r) +
      engines (w.ledger.rows.filter fun r =>
        r.tenantId = tenantId ∧ r.cluster = cluster ∧ PastDue w (clock.later r.tenantId) r) := by
  rw [usedCapacity, overrunReservations, Ledger.forTenant, List.filter_filter]
  refine congrArg₂ (· + ·) rfl (congrArg engines (List.filter_congr fun r _ => ?_))
  rw [← Bool.decide_and, decide_eq_decide, PastDue]
  constructor
  · rintro ⟨hdue, rfl, hcluster⟩
    exact ⟨rfl, hcluster, hdue⟩
  · rintro ⟨rfl, hcluster, hdue⟩
    exact ⟨hdue, rfl, hcluster⟩

theorem clusterCapacity_eq :
    (clusterCapacity w quotas cluster clock).1 =
      engines (w.ledger.rows.filter fun r =>
        r.tenantId ∈ quotas.tenants ∧ r.cluster = cluster ∧ SpansNow clock.now r) +
      engines (w.ledger.rows.filter fun r =>
        r.tenantId ∈ quotas.tenants ∧ r.cluster = cluster ∧
          PastDue w (clock.later r.tenantId) r) := by
  rw [clusterCapacity_used, ← sum_engines_of_tenants _ _ quotas.nodup_tenants,
    ← sum_engines_of_tenants _ _ quotas.nodup_tenants, ← List.sum_map_add]
  exact congrArg List.sum (List.map_congr_left fun tenantId _ => usedCapacity_now tenantId)

/-- The figure leaves out what tenants without a row use, and counts what ended
meanwhile although it was not past due, or once too often. -/
theorem clusterCapacity_add_unlisted (w : World p) (cluster : String) (quotas : ClusterQuotas)
    (clock : Readings) :
    (clusterCapacity w quotas cluster clock).1 + engines (unlisted w cluster clock.now quotas) =
      engines (inUse w cluster clock.now) + engines (endedMeanwhile w cluster quotas clock) := by
  -- past due at the later reading is past due at the first one, or ended meanwhile
  have hlater : engines (w.ledger.rows.filter fun r =>
        r.tenantId ∈ quotas.tenants ∧ r.cluster = cluster ∧
          PastDue w (clock.later r.tenantId) r) =
      engines (w.ledger.rows.filter fun r =>
        r.tenantId ∈ quotas.tenants ∧ r.cluster = cluster ∧ PastDue w clock.now r) +
      engines (endedMeanwhile w cluster quotas clock) := by
    refine (Eq.trans (sum_filter_add_sum_filter ?_) (engines_filter_congr fun r _ => ?_)).symm
    · rintro r - ⟨-, -, hdue, -⟩ ⟨-, -, hnot, -⟩
      exact absurd hdue (not_lt.mpr hnot)
    · have hle := clock.le r.tenantId
      constructor
      · rintro (⟨hlisted, hcluster, hends, hrunning⟩ | ⟨hcluster, hlisted, -, hdue⟩)
        · exact ⟨hlisted, hcluster, hends.trans_le hle, hrunning⟩
        · exact ⟨hlisted, hcluster, hdue⟩
      · rintro ⟨hlisted, hcluster, hdue⟩
        rcases lt_or_ge r.endTime clock.now with hends | hends
        · exact .inl ⟨hlisted, hcluster, hends, hdue.2⟩
        · exact .inr ⟨hcluster, hlisted, hends, hdue⟩
  have hnow : engines (w.ledger.rows.filter fun r =>
        r.tenantId ∈ quotas.tenants ∧ r.cluster = cluster ∧ SpansNow clock.now r) +
      engines (w.ledger.rows.filter fun r =>
        r.tenantId ∈ quotas.tenants ∧ r.cluster = cluster ∧ PastDue w clock.now r) =
      engines ((inUse w cluster clock.now).filter fun r => r.tenantId ∈ quotas.tenants) := by
    rw [inUse, List.filter_filter]
    refine (sum_filter_add_sum_filter ?_).trans (congrArg engines (List.filter_congr fun r _ => ?_))
    · rintro r - ⟨-, -, -, hspans⟩ ⟨-, -, hends, -⟩
      exact lt_asymm hspans hends
    · rw [← Bool.decide_and, decide_eq_decide]
      tauto
  have hsplit : engines ((inUse w cluster clock.now).filter fun r => r.tenantId ∈ quotas.tenants) +
      engines (unlisted w cluster clock.now quotas) = engines (inUse w cluster clock.now) := by
    refine (sum_filter_add_sum_filter fun r _ hlisted hnot => hnot hlisted).trans ?_
    refine congrArg engines (List.filter_eq_self.mpr fun r _ => ?_)
    exact decide_eq_true (Decidable.em _)
  rw [clusterCapacity_eq, hlater]
  omega

/-- The used figure shows all usage if and only if the engines in use by tenants
without a quota row are as many as those of reservations that ended meanwhile. -/
theorem showsAllUsage_iff (w : World p) (cluster : String) (quotas : ClusterQuotas)
    (clock : Readings) :
    ShowsAllUsage w cluster quotas clock ↔
      engines (unlisted w cluster clock.now quotas) =
        engines (endedMeanwhile w cluster quotas clock) := by
  have hsum := clusterCapacity_add_unlisted w cluster quotas clock
  rw [ShowsAllUsage]
  constructor <;> intro h <;> omega

end Compare

def Readings.still (now : ℤ) : Readings := { now, later := fun _ => now, le := fun _ => le_rfl }

/-- Eight engines of a tenant without a row are in use, and the figure is zero. -/
theorem clusterCapacity_oneBooking :
    let quotas : ClusterQuotas := { rows := [], nodup := List.nodup_nil }
    clusterCapacity oneBooking quotas "eu" (.still (10 * 10 ^ 9)) = (0, 0) ∧
      engines (inUse oneBooking "eu" (10 * 10 ^ 9)) = 8 ∧
      ¬ShowsAllUsage oneBooking "eu" quotas (.still (10 * 10 ^ 9)) := by
  refine ⟨by decide, by decide, ?_⟩
  unfold ShowsAllUsage
  decide

end Honryu.Quota
