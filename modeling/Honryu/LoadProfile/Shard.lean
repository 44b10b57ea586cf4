import Honryu.Lib.EvenSplit
import Honryu.LoadProfile.Profile
import Mathlib.Data.Nat.Cast.Order.Ring

/-!
Dividing one entry's load across the engine pods that will produce it.
-/

namespace Honryu.LoadProfile

inductive PlanError
  | shardsInvalid (n : ℤ)
  | concurrencyInvalid (concurrency : ℤ)
  deriving DecidableEq

/-- `Shard` is one engine pod's portion of a scenario's load. A throughput of
zero means unlimited. -/
structure Shard where
  index : ℤ
  concurrency : ℤ
  throughput : ℤ
  rampupSeconds : ℤ
  durationSeconds : ℤ
  deriving DecidableEq

/-- `Split` gives a shard's share of a total: the base division, with the
remainder going to the earliest shards. -/
def split (total n i : ℤ) : ℤ :=
  let base := total.tdiv n
  let extra := total.tmod n
  if i < extra then base + 1 else base

/-- `Plan` divides an entry's load across `n` shards, or across fewer if there
are not enough virtual users to give each of them one. -/
def plan (e : Entry) (n : ℤ) : Except PlanError (List Shard) :=
  if n ≤ 0 then .error (.shardsInvalid n)
  else if e.concurrency ≤ 0 then .error (.concurrencyInvalid e.concurrency)
  else
    let n := if e.concurrency < n then e.concurrency else n
    .ok ((List.range n.toNat).map fun i : ℕ =>
      { index := i, concurrency := split e.concurrency n i, throughput := split e.throughput n i
        rampupSeconds := e.rampup, durationSeconds := e.duration })

/-! ### Shares -/

theorem split_eq_share (total n i : ℕ) :
    split total n i = (EvenSplit.share total n i : ℕ) := by
  simp only [split, EvenSplit.share, ← Int.ofNat_tdiv, ← Int.ofNat_tmod, Nat.cast_lt]
  split <;> simp

section Shares

variable {total total' : ℤ} {pods : ℕ} {i j : ℕ}

theorem split_of_nonneg (h : 0 ≤ total) :
    split total pods i = (EvenSplit.share total.toNat pods i : ℕ) := by
  rw [← split_eq_share, Int.toNat_of_nonneg h]

theorem split_le_succ (h : 0 ≤ total) : split total pods i ≤ split total pods j + 1 := by
  rw [split_of_nonneg h, split_of_nonneg h]
  exact_mod_cast EvenSplit.share_le_succ

theorem one_le_split (hpods : 0 < pods) (h : (pods : ℤ) ≤ total) : 1 ≤ split total pods i := by
  rw [split_of_nonneg (by omega)]
  exact_mod_cast EvenSplit.one_le_share hpods (by omega)

theorem one_le_split_last (hpods : 0 < pods) (h : 0 ≤ total) :
    1 ≤ split total pods (pods - 1 : ℕ) ↔ (pods : ℤ) ≤ total := by
  rw [split_of_nonneg h, Nat.one_le_cast, EvenSplit.one_le_share_last hpods]
  omega

theorem split_mono (h : 0 ≤ total) (hle : total ≤ total') :
    split total pods i ≤ split total' pods i := by
  rw [split_of_nonneg h, split_of_nonneg (h.trans hle)]
  exact_mod_cast EvenSplit.share_mono (Int.toNat_le_toNat hle)

theorem sum_split (hpods : 0 < pods) (h : 0 ≤ total) :
    ((List.range pods).map fun i : ℕ => split total pods i).sum = total := by
  have hmap : ((List.range pods).map fun i : ℕ => split total pods i) =
      ((List.range pods).map (EvenSplit.share total.toNat pods)).map (Nat.cast : ℕ → ℤ) := by
    simp [split_of_nonneg h]
  rw [hmap, ← Nat.cast_list_sum, EvenSplit.sum_share hpods, Int.toNat_of_nonneg h]

theorem sum_max_one_split (hpods : 0 < pods) (h : 0 ≤ total) :
    ((List.range pods).map fun i : ℕ => max 1 (split total pods i)).sum = max total pods := by
  have hmap : ((List.range pods).map fun i : ℕ => max 1 (split total pods i)) =
      ((List.range pods).map fun i => max 1 (EvenSplit.share total.toNat pods i)).map
        (Nat.cast : ℕ → ℤ) := by
    simp [split_of_nonneg h]
  rw [hmap, ← Nat.cast_list_sum, EvenSplit.sum_max_one_share hpods, Nat.cast_max,
    Int.toNat_of_nonneg h]

end Shares

/-! ### Plans -/

def pods (e : Entry) : ℕ := (min e.engines e.concurrency).toNat

variable {e : Entry}

theorem pods_pos (h : e.Valid) : 0 < pods e := by
  have hmin : 0 < min e.engines e.concurrency := lt_min h.engines h.concurrency
  rw [pods]
  omega

theorem cast_pods (h : e.Valid) : (pods e : ℤ) = min e.engines e.concurrency :=
  Int.toNat_of_nonneg (lt_min h.engines h.concurrency).le

def shardOf (e : Entry) (i : ℕ) : Shard :=
  { index := i, concurrency := split e.concurrency (pods e) i
    throughput := split e.throughput (pods e) i
    rampupSeconds := e.rampup, durationSeconds := e.duration }

/-- The plan of a valid entry: as many shards as it has engines, or virtual users
if those are fewer. -/
theorem plan_eq (h : e.Valid) :
    plan e e.engines = .ok ((List.range (pods e)).map (shardOf e)) := by
  have hmin : (if e.concurrency < e.engines then e.concurrency else e.engines) =
      min e.engines e.concurrency := by
    rw [min_comm, min_def_lt]
  have hshard : shardOf e = fun i : ℕ =>
      { index := i, concurrency := split e.concurrency (min e.engines e.concurrency) i
        throughput := split e.throughput (min e.engines e.concurrency) i
        rampupSeconds := e.rampup, durationSeconds := e.duration } := by
    funext i
    rw [shardOf, cast_pods h]
  rw [plan, if_neg h.engines.not_ge, if_neg h.concurrency.not_ge, hmin, hshard]
  rfl

end Honryu.LoadProfile
