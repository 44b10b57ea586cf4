import Honryu.Report.Exemplars
import Honryu.Report.Report
import Honryu.Report.Second

/-!
A report does not depend on how its intervals were accumulated.

Cutting a run into pieces, with the state written to a store and read back
between them, gives the report `Build` gives in one pass. Shuffling the
intervals gives the same report but for which wordings of a failure are kept:
the tally of a run is a sum, and every list in a report is sorted by something
that tells its elements apart.
-/

namespace Honryu.Report

open Metrics

/-! ### The order maps are visited in -/

instance : RightCommutative addTotals where
  right_comm t x y := by
    simp only [addTotals, Histogram.merge_eq, add_right_comm]

instance : RightCommutative higher where
  right_comm n x y := by grind [higher]

instance : RightCommutative widen where
  right_comm span x y := by
    cases span with
    | none => grind [widen]
    | some p => grind [widen]

instance : RightCommutative Attribution.add where
  right_comm attr x y := by
    simp only [Attribution.add]
    cases x.signature.side <;> cases y.signature.side <;> simp [add_right_comm]

theorem dominance_inj {n n' : ℤ} {s s' : String} :
    dominance n s = dominance n' s' ↔ n = n' ∧ s = s' := by simp [dominance]

theorem statusLabels_visit (v v' : Visit) (codes : Option (TallyMap String ℤ)) :
    statusLabels v codes = statusLabels v' codes := by
  refine Visit.insertionSort_key_eq_of_perm
    (fun x : StatusLabel => dominance x.count x.code) ((v.list_perm v' _).map _) ?_
  rintro ⟨code, n⟩ - ⟨code', n'⟩ - h
  obtain ⟨rfl, rfl⟩ := dominance_inj.mp h
  rfl

theorem labelSummary_visit (v v' : Visit) (name : String) (st : LabelState) :
    labelSummary v name st = labelSummary v' name st := by
  rw [labelSummary, labelSummary, statusLabels_visit v v', Histogram.percentiles_visit v v']

namespace Accumulator

variable (v v' : Visit) (a : Accumulator)

theorem peak_visit : a.peak v = a.peak v' := (v.values_perm v' a.seconds).foldl_eq 0

theorem measuredSpanSeconds_visit : a.measuredSpanSeconds v = a.measuredSpanSeconds v' := by
  rw [measuredSpanSeconds, (v.keys_perm v' a.seconds).foldl_eq none, measuredSpanSeconds]

theorem errors_visit : a.errors v = a.errors v' := by
  have hperm : ((v.list a.signatures).map ErrorSignature.ofEntry).Perm
      ((v'.list a.signatures).map ErrorSignature.ofEntry) := (v.list_perm v' _).map _
  refine Prod.ext (Visit.insertionSort_key_eq_of_perm
    (fun x : ErrorSignature => dominance x.count x.signature.string) hperm ?_)
    (hperm.foldl_eq _)
  intro x hx y hy h
  obtain ⟨p, hp, rfl⟩ := List.mem_map.mp hx
  obtain ⟨q, hq, rfl⟩ := List.mem_map.mp hy
  -- no two signatures read alike, and the map holds each of them once
  have hsig : p.1 = q.1 := Signature.string_injective (dominance_inj.mp h).2
  have hp' := Visit.mem_list.mp hp
  rw [hsig, Visit.mem_list.mp hq] at hp'
  rw [Prod.ext hsig (Option.some_inj.mp hp').symm]

/-- A report does not depend on the order maps are visited in. -/
theorem report_visit (m : Meta) : a.report v m = a.report v' m := by
  simp only [report, achievedSeconds, (v.values_perm v' a.labels).foldl_eq, v.sort_keys,
    v'.sort_keys, a.peak_visit v v', a.measuredSpanSeconds_visit v v', a.errors_visit v v',
    labelSummary_visit v v', Histogram.percentiles_visit v v', soakTrend_visit v v',
    soakTrendLabels_visit v v']

end Accumulator

/-! ### Accumulating in pieces -/

/-- Taking up an accumulator again after its snapshot has been stored, and
adding a piece of the run to it. The maps are visited in the order given when
the snapshot is taken. -/
def resume (a : Accumulator) (p : Visit × List Interval) : Accumulator :=
  (restore (a.snapshot p.1)).addAll p.2

def incremental (first : List Interval) (rest : List (Visit × List Interval)) : Accumulator :=
  rest.foldl resume (newAccumulator.addAll first)

theorem foldl_resume (a : Accumulator) (rest : List (Visit × List Interval)) :
    rest.foldl resume a = a.addAll (rest.flatMap Prod.snd) := by
  induction rest generalizing a with
  | nil => rfl
  | cons p rest ih =>
      rw [List.foldl_cons, ih, resume, restore_snapshot, List.flatMap_cons,
        Accumulator.addAll_append]

theorem incremental_eq (first : List Interval) (rest : List (Visit × List Interval)) :
    incremental first rest = newAccumulator.addAll (first ++ rest.flatMap Prod.snd) := by
  rw [incremental, foldl_resume, Accumulator.addAll_append]

/-! ### Intervals in another order -/

def ErrorSignature.outline (e : ErrorSignature) : Signature × ℤ × ℕ :=
  (e.signature, e.count, e.exemplars.length)

set_option linter.dupNamespace false in
/-- Reports that differ at most in which wordings of their failures are kept. -/
structure Report.SameButWording (r r' : Report) : Prop where
  rest : { r with errors := [] } = { r' with errors := [] }
  errors : r.errors.map ErrorSignature.outline = r'.errors.map ErrorSignature.outline

def Accumulator.outlines (a : Accumulator) : TallyMap Signature (ℤ × ℕ) :=
  a.signatures.mapValues fun t => (t.count, t.exemplars.length)

def outlineOrder (x : Signature × ℤ × ℕ) : ℤᵒᵈ ×ₗ String := dominance x.2.1 x.1.string

theorem map_outline_errors (a : Accumulator) :
    (a.errors .sorted).1.map ErrorSignature.outline =
      a.outlines.toList.insertionSort fun x y => outlineOrder x ≤ outlineOrder y := by
  have hlist : (a.signatures.toList.map ErrorSignature.ofEntry).map ErrorSignature.outline =
      a.outlines.toList := by
    rw [Accumulator.outlines, TallyMap.toList_mapValues, List.map_map]
    rfl
  rw [← hlist]
  exact List.map_insertionSort _ _ _ _ fun _ _ _ _ => Iff.rfl

theorem errors_snd (a : Accumulator) :
    (a.errors .sorted).2 =
      (a.outlines.toList.map fun x =>
        { signature := x.1, count := x.2.1, exemplars := [] : ErrorSignature }).foldl
        Attribution.add { target := 0, engine := 0, unknown := 0 } := by
  rw [Accumulator.outlines, TallyMap.toList_mapValues, List.map_map, List.foldl_map]
  exact List.foldl_map

theorem tally_addAll_perm {ivs ivs' : List Interval} (h : ivs.Perm ivs') :
    (newAccumulator.addAll ivs).tally = (newAccumulator.addAll ivs').tally := by
  rw [Accumulator.tally_addAll, Accumulator.tally_addAll, intervalsTally_perm h]

/-- The accumulators of a run whose intervals arrive in another order count the
same failure modes, and keep as many wordings of each. -/
theorem outlines_perm {ivs ivs' : List Interval} (h : ivs.Perm ivs') :
    (newAccumulator.addAll ivs).outlines = (newAccumulator.addAll ivs').outlines := by
  refine TallyMap.ext_getElem? fun sig => ?_
  -- the counts say whether the signature occurs, the messages how many wordings it keeps
  have hcount := congrArg (fun t : Tally => t.counts[sig]?) (tally_addAll_perm h)
  have hlength := length_foldl_addExemplar_perm (messagesOf_perm sig h)
  have hempty : exemplarsAt newAccumulator.signatures sig = [] := by
    simp [exemplarsAt, newAccumulator]
  rw [← hempty, ← exemplarsAt_addAll, ← exemplarsAt_addAll] at hlength
  simp only [Accumulator.tally, TallyMap.getElem?_mapValues, exemplarsAt] at hcount hlength
  simp only [Accumulator.outlines, TallyMap.getElem?_mapValues]
  cases hsig : (newAccumulator.addAll ivs).signatures[sig]? <;>
    cases hsig' : (newAccumulator.addAll ivs').signatures[sig]? <;>
    simp_all

theorem sameButWording_report {a a' : Accumulator} (hlabels : a.labels = a'.labels)
    (hseconds : a.seconds = a'.seconds) (houtlines : a.outlines = a'.outlines) (v v' : Visit)
    (m : Meta) : (a.report v m).SameButWording (a'.report v' m) := by
  rw [a.report_visit v .sorted, a'.report_visit v' .sorted]
  constructor
  · simp only [Accumulator.report, Accumulator.peak, Accumulator.achievedSeconds,
      Accumulator.measuredSpanSeconds, errors_snd, hlabels, hseconds, houtlines]
  · show (a.errors .sorted).1.map _ = (a'.errors .sorted).1.map _
    rw [map_outline_errors, map_outline_errors, houtlines]

/-! ### Both together -/

/-- Whatever the pieces a run is accumulated in, its report is the one `Build`
makes of all its intervals; and whatever the order of the intervals, it is the
same report but for which wordings are kept. -/
theorem report_incremental (v v' : Visit) (m : Meta) :
    (∀ first rest, (incremental first rest).report v m =
        build v' { m with intervals := first ++ rest.flatMap Prod.snd }) ∧
      ∀ ivs ivs' : List Interval, ivs.Perm ivs' →
        (build v { m with intervals := ivs }).SameButWording
          (build v' { m with intervals := ivs' }) := by
  refine ⟨fun first rest => ?_, fun ivs ivs' h => ?_⟩
  · rw [incremental_eq, Accumulator.report_visit v v']
    rfl
  · have htally := tally_addAll_perm h
    exact sameButWording_report (congrArg Tally.labels htally) (congrArg Tally.seconds htally)
      (outlines_perm h) v v' m

def failedWith (msgs : List String) : Interval :=
  { zeroInterval with
    label := "checkout", samples := 4, failed := 4
    errors := msgs.map fun msg => { responseCode := "503", message := msg, count := 1 } }

def blankMeta : Meta :=
  { executionId := 0, scenarioId := 0, runId := 0, engine := ⟨""⟩, cluster := ""
    correlationId := "", startedAt := 0, endedAt := 0, outcome := .unknown ""
    requested :=
      { concurrency := 0, throughput := 0, durationSeconds := 0, steps := [], samples := 0
        failed := 0 } }

/-- With more wordings than are kept, the order does decide which of them are. -/
theorem report_incremental_fourWordings :
    build .sorted { blankMeta with
        intervals := [failedWith ["a", "b", "c"], failedWith ["d"]] } ≠
      build .sorted { blankMeta with
        intervals := [failedWith ["d"], failedWith ["a", "b", "c"]] } ∧
    (build .sorted { blankMeta with
        intervals := [failedWith ["a", "b", "c"], failedWith ["d"]] }).SameButWording
      (build .sorted { blankMeta with
        intervals := [failedWith ["d"], failedWith ["a", "b", "c"]] }) :=
  ⟨fun h => absurd (congrArg (fun r => r.errors.map (·.exemplars)) h) (by decide +kernel),
    (report_incremental .sorted .sorted blankMeta).2 _ _ (.swap ..)⟩

end Honryu.Report
