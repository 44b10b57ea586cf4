import Honryu.Report.Accumulate

/-!
What a run has measured, as a sum.

Leaving aside which wordings of a failure are kept, an accumulator is the sum
of what its intervals contribute, in a commutative monoid: figures add up, and
maps add up key by key. `Interval.tally` is one interval's contribution and
`Accumulator.tally` what an accumulator stands for; `tally_add` says that
`Add` adds the one to the other. Everything that is independent of the order
or the grouping of the intervals follows from this one equation.
-/

namespace Honryu.Report

open Metrics

/-! ### The parts of the state add up -/

instance : Zero LabelState := ⟨{ codes := none, samples := 0, failed := 0, latency := ∅ }⟩

instance : Add LabelState := ⟨fun a b =>
  { codes := a.codes + b.codes, samples := a.samples + b.samples,
    failed := a.failed + b.failed, latency := a.latency + b.latency }⟩

instance : AddCommMonoid LabelState where
  add_assoc _ _ _ :=
    LabelState.ext (add_assoc _ _ _) (add_assoc _ _ _) (add_assoc _ _ _) (add_assoc _ _ _)
  zero_add _ := LabelState.ext (zero_add _) (zero_add _) (zero_add _) (zero_add _)
  add_zero _ := LabelState.ext (add_zero _) (add_zero _) (add_zero _) (add_zero _)
  add_comm _ _ := LabelState.ext (add_comm _ _) (add_comm _ _) (add_comm _ _) (add_comm _ _)
  nsmul := nsmulRec

instance : Zero LabelLatencyTally := ⟨{ sum := 0, samples := 0 }⟩

instance : Add LabelLatencyTally := ⟨fun a b =>
  { sum := a.sum + b.sum, samples := a.samples + b.samples }⟩

instance : AddCommMonoid LabelLatencyTally where
  add_assoc _ _ _ := LabelLatencyTally.ext (add_assoc _ _ _) (add_assoc _ _ _)
  zero_add _ := LabelLatencyTally.ext (zero_add _) (zero_add _)
  add_zero _ := LabelLatencyTally.ext (add_zero _) (add_zero _)
  add_comm _ _ := LabelLatencyTally.ext (add_comm _ _) (add_comm _ _)
  nsmul := nsmulRec

instance : Zero SecondState :=
  ⟨{ engine := 0, labels := 0, latSum := 0, latSamples := 0, labelLatency := none }⟩

instance : Add SecondState := ⟨fun a b =>
  { engine := a.engine + b.engine, labels := a.labels + b.labels,
    latSum := a.latSum + b.latSum, latSamples := a.latSamples + b.latSamples,
    labelLatency := a.labelLatency + b.labelLatency }⟩

instance : AddCommMonoid SecondState where
  add_assoc _ _ _ := SecondState.ext (add_assoc _ _ _) (add_assoc _ _ _) (add_assoc _ _ _)
    (add_assoc _ _ _) (add_assoc _ _ _)
  zero_add _ := SecondState.ext (zero_add _) (zero_add _) (zero_add _) (zero_add _) (zero_add _)
  add_zero _ := SecondState.ext (add_zero _) (add_zero _) (add_zero _) (add_zero _) (add_zero _)
  add_comm _ _ := SecondState.ext (add_comm _ _) (add_comm _ _) (add_comm _ _) (add_comm _ _)
    (add_comm _ _)
  nsmul := nsmulRec

@[ext] structure Tally where
  labels : TallyMap String LabelState
  seconds : TallyMap ℤ SecondState
  counts : TallyMap Signature ℤ

instance : Zero Tally := ⟨{ labels := 0, seconds := 0, counts := 0 }⟩

instance : Add Tally := ⟨fun a b =>
  { labels := a.labels + b.labels, seconds := a.seconds + b.seconds,
    counts := a.counts + b.counts }⟩

instance : AddCommMonoid Tally where
  add_assoc _ _ _ := Tally.ext (add_assoc _ _ _) (add_assoc _ _ _) (add_assoc _ _ _)
  zero_add _ := Tally.ext (zero_add _) (zero_add _) (zero_add _)
  add_zero _ := Tally.ext (add_zero _) (add_zero _) (add_zero _)
  add_comm _ _ := Tally.ext (add_comm _ _) (add_comm _ _) (add_comm _ _)
  nsmul := nsmulRec

@[simp] theorem Tally.labels_add (a b : Tally) : (a + b).labels = a.labels + b.labels := rfl
@[simp] theorem Tally.seconds_add (a b : Tally) : (a + b).seconds = a.seconds + b.seconds := rfl
@[simp] theorem Tally.counts_add (a b : Tally) : (a + b).counts = a.counts + b.counts := rfl

/-! ### What one interval contributes -/

def bucketTally (latency : Histogram) : LabelLatencyTally :=
  (latency.toList.map fun b => (⟨b.1 * b.2, b.2⟩ : LabelLatencyTally)).sum

def nonempty? {K V : Type} [LinearOrder K] (m : TallyMap K V) : Option (TallyMap K V) :=
  if m.isEmpty then none else some m

section Nonempty

variable {K V : Type} [LinearOrder K]

theorem nonempty?_zero :
    nonempty? (0 : TallyMap K V) = none := rfl

theorem isEmpty_eq_true_iff {m : TallyMap K V} :
    m.isEmpty = true ↔ m = 0 :=
  Std.ExtTreeMap.isEmpty_iff

theorem nonempty?_of_ne_zero {m : TallyMap K V} (h : m ≠ 0) :
    nonempty? m = some m := by
  rw [nonempty?, if_neg]
  rwa [isEmpty_eq_true_iff]

theorem getD_nonempty? (m : TallyMap K V) : (nonempty? m).getD ∅ = m := by
  by_cases h : m = 0
  · rw [h, nonempty?_zero]
    rfl
  · rw [nonempty?_of_ne_zero h, Option.getD_some]

theorem nonempty?_add [AddCommMonoid V] (a b : TallyMap K V) :
    nonempty? (a + b) = nonempty? a + nonempty? b := by
  by_cases ha : a = 0
  · rw [ha, zero_add, nonempty?_zero, Option.none_add]
  · by_cases hb : b = 0
    · rw [hb, add_zero, nonempty?_zero, Option.add_none]
    · have hab : a + b ≠ 0 := fun h => ha (TallyMap.add_eq_zero.mp h).1
      rw [nonempty?_of_ne_zero ha, nonempty?_of_ne_zero hb, nonempty?_of_ne_zero hab,
        Option.some_add_some]

end Nonempty

def labelPart (iv : Interval) : LabelState :=
  { codes := nonempty? iv.responseCodes, samples := iv.samples, failed := iv.failed,
    latency := iv.latency }

def latencyPart (label : String) (latency : Histogram) : SecondState :=
  { engine := 0, labels := 0, latSum := (bucketTally latency).sum,
    latSamples := (bucketTally latency).samples,
    labelLatency := (nonempty? latency).map fun l => TallyMap.single label (bucketTally l) }

def secondPart (iv : Interval) : SecondState :=
  { latencyPart iv.label iv.latency with labels := iv.concurrency }

def enginePart (iv : Interval) : SecondState :=
  { engine := iv.concurrency, labels := 0, latSum := 0, latSamples := 0, labelLatency := none }

def countPart (iv : Interval) : TallyMap Signature ℤ :=
  (iv.errors.map fun e => TallyMap.single (newSignature iv.label e) e.count).sum

/-- What an interval contributes to its run. -/
def intervalTally (iv : Interval) : Tally :=
  if iv.label = totalLabel then
    { labels := 0, seconds := TallyMap.single iv.timestamp (enginePart iv), counts := 0 }
  else
    { labels := TallyMap.single iv.label (labelPart iv)
      seconds := TallyMap.single iv.timestamp (secondPart iv)
      counts := countPart iv }

def intervalsTally (ivs : List Interval) : Tally := (ivs.map intervalTally).sum

@[simp] theorem intervalsTally_nil : intervalsTally [] = 0 := rfl

theorem intervalsTally_cons (iv : Interval) (ivs : List Interval) :
    intervalsTally (iv :: ivs) = intervalTally iv + intervalsTally ivs := by
  simp [intervalsTally]

theorem intervalsTally_append (xs ys : List Interval) :
    intervalsTally (xs ++ ys) = intervalsTally xs + intervalsTally ys := by
  simp [intervalsTally]

theorem intervalsTally_perm {xs ys : List Interval} (h : xs.Perm ys) :
    intervalsTally xs = intervalsTally ys :=
  (h.map _).sum_eq

/-! ### An accumulator is the sum of its intervals -/

def Accumulator.tally (a : Accumulator) : Tally :=
  { labels := a.labels, seconds := a.seconds,
    counts := a.signatures.mapValues (·.count) }

@[simp] theorem tally_newAccumulator : newAccumulator.tally = 0 := by
  refine Tally.ext rfl rfl (TallyMap.ext_getElem? fun k => ?_)
  change (TallyMap.mapValues (·.count) (0 : TallyMap Signature ErrorTally))[k]? =
    (0 : TallyMap Signature ℤ)[k]?
  simp

namespace Accumulator

theorem foldl_addBucket (sec : SecondState) (t : LabelLatencyTally) (l : List (ℚ × ℤ)) :
    l.foldl addBucket (sec, t) =
      let s := (l.map fun b => (⟨b.1 * b.2, b.2⟩ : LabelLatencyTally)).sum
      ({ sec with latSum := sec.latSum + s.sum, latSamples := sec.latSamples + s.samples },
        t + s) := by
  induction l generalizing sec t with
  | nil =>
      simp only [List.foldl_nil, List.map_nil, List.sum_nil, add_zero]
      exact Prod.ext (SecondState.ext rfl rfl (add_zero _).symm (add_zero _).symm rfl) rfl
  | cons b l ih =>
      rw [List.foldl_cons, addBucket, ih]
      simp only [List.map_cons, List.sum_cons]
      refine Prod.ext (SecondState.ext rfl rfl ?_ ?_ rfl) ?_
      · exact add_assoc _ _ _
      · exact add_assoc _ _ _
      · exact add_assoc t ⟨b.1 * b.2, b.2⟩ _

theorem addLatency_eq (sec : SecondState) (label : String) (latency : Histogram) :
    addLatency sec label latency = sec + latencyPart label latency := by
  unfold addLatency latencyPart nonempty?
  by_cases h : latency.isEmpty
  · obtain rfl : latency = ∅ := Std.ExtTreeMap.isEmpty_iff.mp h
    exact SecondState.ext (add_zero _).symm (add_zero _).symm (add_zero _).symm
      (add_zero _).symm (add_zero _).symm
  · simp only [h, Bool.false_eq_true, if_false, foldl_addBucket, Option.map_some]
    refine SecondState.ext (add_zero _).symm (add_zero _).symm rfl rfl ?_
    refine (congrArg some ?_).trans (Option.some_getD_add _ _)
    exact TallyMap.insert_getD_add _ _ _

theorem addSamples_eq (st : LabelState) (iv : Interval) :
    addSamples st iv = st + labelPart iv := by
  unfold addSamples labelPart nonempty?
  by_cases h : iv.responseCodes.isEmpty
  · simp only [h, if_true]
    exact LabelState.ext (add_zero _).symm rfl rfl rfl
  · simp only [h, Bool.false_eq_true, if_false]
    exact LabelState.ext (Option.some_getD_add _ _) rfl rfl rfl

theorem mapValues_addError (label : String) (m : TallyMap Signature ErrorTally)
    (e : ErrorGroup) :
    (addError label m e).mapValues (·.count) =
      m.mapValues (·.count) + TallyMap.single (newSignature label e) e.count := by
  rw [← TallyMap.insert_getD_add]
  refine TallyMap.ext_getElem? fun k => ?_
  simp only [addError, TallyMap.getElem?_mapValues, Std.ExtTreeMap.getElem?_insert]
  split
  · cases m[newSignature label e]? <;> rfl
  · rfl

theorem mapValues_foldl_addError (label : String) (m : TallyMap Signature ErrorTally)
    (es : List ErrorGroup) :
    (es.foldl (addError label) m).mapValues (·.count) =
      m.mapValues (·.count) +
        (es.map fun e => TallyMap.single (newSignature label e) e.count).sum := by
  induction es generalizing m with
  | nil => simp
  | cons e es ih =>
      rw [List.foldl_cons, ih, mapValues_addError, List.map_cons, List.sum_cons, add_assoc]

/-- `Add` adds the interval's contribution. -/
theorem tally_add (a : Accumulator) (iv : Interval) :
    (a.add iv).tally = a.tally + intervalTally iv := by
  unfold add intervalTally
  by_cases h : iv.label = totalLabel
  · simp only [h, if_true]
    refine Tally.ext (add_zero _).symm ?_ (add_zero _).symm
    rw [Tally.seconds_add, ← TallyMap.insert_getD_add]
    refine congrArg (a.seconds.insert _) ?_
    exact SecondState.ext rfl (add_zero _).symm (add_zero _).symm (add_zero _).symm
      (add_zero _).symm
  · simp only [h, if_false, addSamples_eq, addLatency_eq]
    refine Tally.ext ?_ ?_ (mapValues_foldl_addError _ _ _)
    · exact TallyMap.insert_getD_add _ _ _
    · rw [Tally.seconds_add, ← TallyMap.insert_getD_add]
      refine congrArg (a.seconds.insert _) ?_
      exact SecondState.ext rfl (add_zero _) rfl rfl rfl

theorem tally_addAll (a : Accumulator) (ivs : List Interval) :
    (a.addAll ivs).tally = a.tally + intervalsTally ivs := by
  induction ivs generalizing a with
  | nil => simp
  | cons iv ivs ih =>
      rw [addAll, List.foldl_cons, ← addAll, ih, tally_add, intervalsTally_cons, add_assoc]

end Accumulator

end Honryu.Report
