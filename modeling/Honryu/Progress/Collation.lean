import Honryu.Lib.TallySum
import Honryu.Progress.Sql

/-!
Histograms under a collation.

The database finds a label's row under the collation of its column, which does
not tell letter cases apart; `mergeLabels` looks up what it read by the exact
text of the label. A label whose row is spelled otherwise is then merged with
nothing, and written over what the row held. This module says exactly how much
a merge loses that way.
-/

namespace Honryu.Progress

open Metrics Report

/-! ### Counting buckets -/

def LabelRow.bucketCount (r : LabelRow) : ℤ := (r.latency.getD ∅).count .sorted

def LabelTable.bucketCount {κ : Type} [LinearOrder κ] {collate : String → κ}
    (t : LabelTable collate) : ℤ :=
  t.rows.sumBy LabelRow.bucketCount

def batchCount (ls : List LabelProgress) : ℤ := (ls.map fun l => l.latency.count .sorted).sum

theorem count_sorted_add (h h' : Histogram) :
    (h + h').count .sorted = h.count .sorted + h'.count .sorted := by
  simp only [Histogram.count_eq_sum]
  exact TallyMap.sumBy_add (AddMonoidHom.id ℤ) h h'

theorem count_sorted_empty : (∅ : Histogram).count .sorted = 0 := rfl

/-! ### What a merge loses -/

section Lost

variable {κ : Type} [LinearOrder κ] {collate : String → κ}

def sharing (collate : String → κ) (ls : List LabelProgress) (k : κ) : List LabelProgress :=
  ls.filter fun l => collate l.label = k

/-- How the row of a primary key is spelled once the batch has opened it: as it
is stored, or as the first label of the batch with that key. -/
def spelling (t : LabelTable collate) (ls : List LabelProgress) (k : κ) : Option String :=
  ((t.rows[k]?).map (·.label)).or ((sharing collate ls k).head?.map (·.label))

/-- The samples lost at a primary key. Only the last label with that key has a
lasting effect; it keeps what was stored if it is spelled as the row is. -/
def lostAt (t : LabelTable collate) (ls : List LabelProgress) (k : κ) : ℤ :=
  let group := sharing collate ls k
  (if group.getLast?.map (·.label) = spelling t ls k then 0
    else t.rows.valueAt LabelRow.bucketCount k) +
  batchCount group.dropLast

def lost (t : LabelTable collate) (ls : List LabelProgress) : ℤ :=
  ∑ k ∈ (ls.map fun l => collate l.label).toFinset, lostAt t ls k

/-! ### The rows of a merge -/

theorem collate_label_opened (t : LabelTable collate) (ls : List LabelProgress) (k : κ)
    (r : LabelRow) (hr : ((labelMerge collate).opened t.rows ls)[k]? = some r) :
    collate r.label = k :=
  TallyMap.forall_upsertAll (P := fun k r => collate r.label = k) ls t.collate_label
    (fun _ => rfl) (fun _ _ h => h) k r hr

theorem opened_row (t : LabelTable collate) {ls : List LabelProgress} {k : κ}
    (hk : sharing collate ls k ≠ []) :
    ∃ r, ((labelMerge collate).opened t.rows ls)[k]? = some r ∧
      some r.label = spelling t ls k ∧
      r.bucketCount = t.rows.valueAt LabelRow.bucketCount k := by
  have hkeep (r : LabelRow) (g : List LabelProgress) :
      g.foldl (fun o d => some (o.elim ((labelMerge collate).blank d) id)) (some r) =
        some r := by
    induction g with
    | nil => rfl
    | cons d g ih => exact ih
  rw [RowMerge.opened, TallyMap.getElem?_upsertAll]
  change ∃ r, (sharing collate ls k).foldl _ _ = some r ∧ _
  unfold spelling TallyMap.valueAt
  cases hrow : t.rows[k]? with
  | some r => exact ⟨r, hkeep r _, rfl, rfl⟩
  | none =>
      obtain ⟨d, g, hg⟩ := List.exists_cons_of_ne_nil hk
      rw [hg]
      exact ⟨_, hkeep _ g, rfl, rfl⟩

theorem stored_row (t : LabelTable collate) {ls : List LabelProgress} {l : LabelProgress}
    (hl : l ∈ ls) {r : LabelRow}
    (hr : ((labelMerge collate).opened t.rows ls)[collate l.label]? = some r) :
    ((labelMerge collate).stored ((labelMerge collate).opened t.rows ls) ls)[l.label]? =
      if r.label = l.label then some r else none := by
  have hkey : collate l.label ∈ ls.map (labelMerge collate).key := List.mem_map_of_mem hl
  rw [RowMerge.getElem?_stored_eq _ collate (collate_label_opened t ls) hkey, hr, Option.filter_some]
  by_cases h : r.label = l.label <;> simp [labelMerge, h]

theorem count_mergedLatency (stored : Option LabelRow) (l : LabelProgress) :
    (mergedLatency stored l).count .sorted =
      stored.elim 0 LabelRow.bucketCount + l.latency.count .sorted := by
  rw [mergedLatency, Histogram.merge_eq, Histogram.merge_eq, count_sorted_add, count_sorted_add,
    count_sorted_empty, zero_add]
  cases stored <;> rfl

/-- The samples a key's histogram counts after the merge: those of the last
label with that key, and of what was read for it. -/
theorem valueAt_mergeLabels (t : LabelTable collate) {ls : List LabelProgress} {k : κ}
    {init : List LabelProgress} {last : LabelProgress}
    (hk : sharing collate ls k = init ++ [last]) :
    (mergeLabels t ls).rows.valueAt LabelRow.bucketCount k =
      (if some last.label = spelling t ls k then t.rows.valueAt LabelRow.bucketCount k else 0) +
        last.latency.count .sorted := by
  obtain ⟨hlast, rfl⟩ : last ∈ ls ∧ collate last.label = k := by
    have hmem : last ∈ sharing collate ls k := by simp [hk]
    simpa [sharing] using hmem
  have hne : sharing collate ls (collate last.label) ≠ [] := by simp [hk]
  obtain ⟨r, hr, hspelling, hcount⟩ := opened_row t hne
  have hstored := stored_row t hlast hr
  have hwrite (o : Option LabelRow) (stored : Option LabelRow) :
      LabelRow.bucketCount (o.elim ((labelMerge collate).fresh stored last)
        ((labelMerge collate).update stored last)) = (mergedLatency stored last).count .sorted := by
    cases o <;> rfl
  change (((labelMerge collate).write ((labelMerge collate).opened t.rows ls)
    ls)[collate last.label]?).elim 0 _ = _
  rw [RowMerge.write, TallyMap.getElem?_upsertAll]
  have hgroup : (ls.filter fun l => (labelMerge collate).key l = collate last.label) =
      init ++ [last] := hk
  have hname : (labelMerge collate).name last = last.label := rfl
  rw [hgroup, List.foldl_append, List.foldl_cons, List.foldl_nil, Option.elim_some, hwrite,
    count_mergedLatency, hname, hstored, ← hspelling, ← hcount]
  -- the program finds the stored row only if it is spelled as the label is
  by_cases hlabel : r.label = last.label
  · simp [hlabel]
  · simp [hlabel, Ne.symm hlabel]

theorem valueAt_mergeLabels_eq (t : LabelTable collate) {ls : List LabelProgress} {k : κ}
    (hk : sharing collate ls k ≠ []) :
    (mergeLabels t ls).rows.valueAt LabelRow.bucketCount k =
      t.rows.valueAt LabelRow.bucketCount k + batchCount (sharing collate ls k) -
        lostAt t ls k := by
  obtain ⟨init, last, hg⟩ := (List.eq_nil_or_concat _).resolve_left hk
  rw [List.concat_eq_append] at hg
  have hbatch : batchCount (sharing collate ls k) =
      batchCount init + last.latency.count .sorted := by
    rw [hg]
    simp [batchCount]
  rw [valueAt_mergeLabels t hg, hbatch, lostAt, hg, List.getLast?_concat,
    List.dropLast_concat, Option.map_some]
  split <;> ring

theorem sum_batchCount_sharing (ls : List LabelProgress) {S : Finset κ}
    (hS : ∀ l ∈ ls, collate l.label ∈ S) :
    ∑ k ∈ S, batchCount (sharing collate ls k) = batchCount ls := by
  induction ls with
  | nil => simp [sharing, batchCount]
  | cons l ls ih =>
      have hcons (k : κ) : batchCount (sharing collate (l :: ls) k) =
          (if collate l.label = k then l.latency.count .sorted else 0) +
            batchCount (sharing collate ls k) := by
        unfold sharing batchCount
        by_cases h : collate l.label = k
        · rw [if_pos h, List.filter_cons_of_pos (by simpa using h), List.map_cons, List.sum_cons]
        · rw [if_neg h, List.filter_cons_of_neg (by simpa using h), zero_add]
      have hl : collate l.label ∈ S := hS l List.mem_cons_self
      rw [Finset.sum_congr rfl fun k _ => hcons k, Finset.sum_add_distrib,
        ih fun x hx => hS x (List.mem_cons_of_mem _ hx), Finset.sum_ite_eq, if_pos hl]
      simp [batchCount]

/-- The account of a merge: what was stored, and what the batch brought, less
what was lost. -/
theorem bucketCount_mergeLabels (t : LabelTable collate) (ls : List LabelProgress) :
    (mergeLabels t ls).bucketCount = t.bucketCount + batchCount ls - lost t ls := by
  have hout : ∀ k : κ, k ∉ (ls.map fun l => collate l.label).toFinset →
      (mergeLabels t ls).rows[k]? = t.rows[k]? := by
    intro k hk
    refine RowMerge.getElem?_run_of_notMem (labelMerge collate) t.rows ?_
    simpa [labelMerge] using hk
  have hin : ∀ k ∈ (ls.map fun l => collate l.label).toFinset,
      (mergeLabels t ls).rows.valueAt LabelRow.bucketCount k -
          t.rows.valueAt LabelRow.bucketCount k =
        batchCount (sharing collate ls k) - lostAt t ls k := by
    intro k hk
    have hne : sharing collate ls k ≠ [] := by
      simpa [sharing, List.filter_eq_nil_iff] using hk
    rw [valueAt_mergeLabels_eq t hne]
    ring
  have hall : ∑ k ∈ (ls.map fun l => collate l.label).toFinset,
      batchCount (sharing collate ls k) = batchCount ls :=
    sum_batchCount_sharing ls fun l hl => by simpa using ⟨l, hl, rfl⟩
  rw [LabelTable.bucketCount, TallyMap.sumBy_eq_add_sum LabelRow.bucketCount hout,
    Finset.sum_congr rfl hin, Finset.sum_sub_distrib, hall, LabelTable.bucketCount, lost]
  ring

/-! ### Sequences of batches -/

def mergeAllLabels (collate : String → κ) (bs : List (List LabelProgress)) :
    LabelTable collate :=
  bs.foldl mergeLabels .empty

/-- Every merge of a sequence keeps all samples: the ones stored before it and
the ones it brings. -/
def KeepsBuckets (collate : String → κ) (bs : List (List LabelProgress)) : Prop :=
  ∀ before b after, bs = before ++ b :: after →
    (mergeAllLabels collate (before ++ [b])).bucketCount =
      (mergeAllLabels collate before).bucketCount + batchCount b

/-- A sequence of batches keeps all samples exactly when no merge of it finds
samples under a key that it writes over: stored ones, if the last label of the
batch with that key is spelled otherwise than the row, or those of an earlier
label of the batch with the same key. -/
theorem keepsBuckets_iff (collate : String → κ) (bs : List (List LabelProgress)) :
    KeepsBuckets collate bs ↔
      ∀ before b after, bs = before ++ b :: after →
        lost (mergeAllLabels collate before) b = 0 := by
  have hstep (before : List (List LabelProgress)) (b : List LabelProgress) :
      (mergeAllLabels collate (before ++ [b])).bucketCount =
        (mergeAllLabels collate before).bucketCount + batchCount b -
          lost (mergeAllLabels collate before) b := by
    rw [← bucketCount_mergeLabels, mergeAllLabels, List.foldl_append]
    rfl
  refine forall₄_congr fun before b after _ => ?_
  rw [hstep]
  omega

end Lost

def oneSample (label : String) : LabelProgress :=
  { label, samples := 1, failed := 0, latency := (∅ : Histogram).insert (1 / 10) 1,
    codes := none }

/-- Two labels that differ in letter case are one row, and the second merge
writes over the first. -/
theorem not_keepsBuckets_toLower :
    ¬KeepsBuckets Text.toLower [[oneSample "Checkout"], [oneSample "checkout"]] := by
  intro h
  have hstep := h [[oneSample "Checkout"]] [oneSample "checkout"] [] rfl
  revert hstep
  decide +kernel

end Honryu.Progress
