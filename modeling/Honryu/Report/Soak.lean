import Honryu.Report.Accumulate

/-!
The latency trend of a run across its own window: the mean response time of
each half, the least-squares slope, and whether the two look like a leak. It is
computed once from the run's seconds, and once more for every label from the
label's own.

Figures are exact rationals. The maps of the state are read in whatever order
they are visited in; `soakTrend_visit` and `soakTrendLabels_visit` say that the
trend does not depend on it.
-/

namespace Honryu.Report

/-! ### The figures of a series -/

def soakTrendMinSampledSeconds : ℕ := 120

def soakLeakHalfGrowth : ℚ := 3 / 2

def msPerSecond : ℚ := 1000

def secondsPerMin : ℚ := 60

/-- `secondMean` is one sampled second's response-time tally. -/
@[ext] structure SecondMean where
  ts : ℤ
  sum : ℚ
  samples : ℤ
  deriving DecidableEq

/-- What `soakFigures` returns. -/
structure SoakFigures where
  firstHalfMs : ℚ
  secondHalfMs : ℚ
  slopeMsPerMin : ℚ
  leakSuspected : Bool
  deriving DecidableEq

def meanMs (sum : ℚ) (n : ℤ) : ℚ := if n ≤ 0 then 0 else sum / n * msPerSecond

structure Halves where
  firstSum : ℚ
  secondSum : ℚ
  firstN : ℤ
  secondN : ℤ

/-- One second of the first loop of `soakFigures`. -/
def Halves.add (half : ℕ) (h : Halves) (p : SecondMean × ℕ) : Halves :=
  if p.2 < half then
    { h with firstSum := h.firstSum + p.1.sum, firstN := h.firstN + p.1.samples }
  else { h with secondSum := h.secondSum + p.1.sum, secondN := h.secondN + p.1.samples }

structure Regression where
  sumX : ℚ
  sumY : ℚ
  sumXY : ℚ
  sumXX : ℚ

/-- One second of the second loop of `soakFigures`. -/
def Regression.add (base : ℤ) (r : Regression) (sec : SecondMean) : Regression :=
  let x : ℚ := (sec.ts - base : ℤ)
  let y : ℚ := sec.sum / sec.samples
  { sumX := r.sumX + x, sumY := r.sumY + y, sumXY := r.sumXY + x * y, sumXX := r.sumXX + x * x }

/-- `soakFigures` is the halves, slope and verdict of a series in time order.
Both callers pass at least `soakTrendMinSampledSeconds` seconds, so there is a
first one to count from. -/
def soakFigures (sampled : List SecondMean) : SoakFigures :=
  let half := sampled.length / 2
  let halves := sampled.zipIdx.foldl (Halves.add half)
    { firstSum := 0, secondSum := 0, firstN := 0, secondN := 0 }
  let firstHalfMs := meanMs halves.firstSum halves.firstN
  let secondHalfMs := meanMs halves.secondSum halves.secondN
  -- seconds count from the first sampled one, so a gap stretches the x axis
  let base := (sampled.head?.map (·.ts)).getD 0
  let r := sampled.foldl (Regression.add base) { sumX := 0, sumY := 0, sumXY := 0, sumXX := 0 }
  let n : ℚ := sampled.length
  let varX := r.sumXX - r.sumX * r.sumX / n
  let slopeMsPerMin :=
    if 0 < varX then (r.sumXY - r.sumX * r.sumY / n) / varX * msPerSecond * secondsPerMin else 0
  { firstHalfMs, secondHalfMs, slopeMsPerMin
    leakSuspected :=
      0 < firstHalfMs && soakLeakHalfGrowth * firstHalfMs < secondHalfMs && 0 < slopeMsPerMin }

/-! ### The trend of a run -/

/-- `LabelSoakTrend` is one label's own latency behaviour. -/
structure LabelSoakTrend where
  label : String
  figures : SoakFigures
  deriving DecidableEq

/-- `SoakTrend` is a run's latency behaviour across its own window. -/
structure SoakTrend where
  figures : SoakFigures
  labels : List LabelSoakTrend
  deriving DecidableEq

/-- `soakTrend` computes the trend from a run's per-second state, if enough
seconds carried latency. -/
def soakTrend (v : Visit) (seconds : TallyMap ℤ SecondState) : Option SoakTrend :=
  let sampled := ((v.list seconds).filter fun p => 0 < p.2.latSamples).map Prod.fst
  if sampled.length < soakTrendMinSampledSeconds then none
  else
    let means := (sampled.insertionSort (· ≤ ·)).map fun ts =>
      (seconds[ts]?).elim { ts, sum := 0, samples := 0 } fun sec =>
        { ts, sum := sec.latSum, samples := sec.latSamples : SecondMean }
    some { figures := soakFigures means, labels := [] }

/-- The points of a second's labels, as the loop of `soakTrendLabels` comes to
them. -/
def labelPoints (v : Visit) (p : ℤ × SecondState) : List (String × SecondMean) :=
  ((v.list (p.2.labelLatency.getD ∅)).filter fun q => 0 < q.2.samples).map fun q =>
    (q.1, { ts := p.1, sum := q.2.sum, samples := q.2.samples })

def collectPoints (v : Visit) (seconds : TallyMap ℤ SecondState) :
    TallyMap String (List SecondMean) :=
  (TallyMap.groupBy Prod.fst ((v.list seconds).flatMap (labelPoints v))).mapValues
    (·.map Prod.snd)

/-- One label of the last loop of `soakTrendLabels`. -/
def labelSoakTrend (name : String) (pts : List SecondMean) : Option LabelSoakTrend :=
  if pts.length < soakTrendMinSampledSeconds then none
  else
    let pts := pts.insertionSort fun x y => x.ts ≤ y.ts
    some { label := name, figures := soakFigures pts }

def soakTrendLabels (v : Visit) (seconds : TallyMap ℤ SecondState) : List LabelSoakTrend :=
  let collected := collectPoints v seconds
  let names := (v.keys collected).insertionSort (· ≤ ·)
  names.filterMap fun name => labelSoakTrend name (collected.getD name [])

/-! ### The order maps are visited in -/

theorem soakTrend_visit (v v' : Visit) (seconds : TallyMap ℤ SecondState) :
    soakTrend v seconds = soakTrend v' seconds := by
  have hperm : (((v.list seconds).filter fun p => 0 < p.2.latSamples).map Prod.fst).Perm
      (((v'.list seconds).filter fun p => 0 < p.2.latSamples).map Prod.fst) :=
    ((v.list_perm v' seconds).filter _).map _
  have hsort := Visit.insertionSort_key_eq_of_perm id hperm fun _ _ _ _ h => h
  simp only [id] at hsort
  simp only [soakTrend, hsort, hperm.length_eq]

theorem eq_of_mem_flatMap_labelPoints {v : Visit} {seconds : TallyMap ℤ SecondState}
    {x y : String × SecondMean} (hx : x ∈ (v.list seconds).flatMap (labelPoints v))
    (hy : y ∈ (v.list seconds).flatMap (labelPoints v)) (hname : x.1 = y.1)
    (hts : x.2.ts = y.2.ts) : x = y := by
  simp only [labelPoints, List.mem_flatMap, List.mem_map, List.mem_filter, Prod.exists,
    Visit.mem_list] at hx hy
  obtain ⟨ts, sec, hsec, name, tally, ⟨htally, -⟩, rfl⟩ := hx
  obtain ⟨ts', sec', hsec', name', tally', ⟨htally', -⟩, rfl⟩ := hy
  obtain rfl : ts = ts' := hts
  obtain rfl : name = name' := hname
  obtain rfl : sec = sec' := Option.some_inj.mp (hsec.symm.trans hsec')
  obtain rfl : tally = tally' := Option.some_inj.mp (htally.symm.trans htally')
  rfl

theorem collectPoints_visit (v v' : Visit) (seconds : TallyMap ℤ SecondState) :
    (collectPoints v seconds).mapValues (·.insertionSort fun x y => x.ts ≤ y.ts) =
      (collectPoints v' seconds).mapValues (·.insertionSort fun x y => x.ts ≤ y.ts) := by
  have hperm : ((v.list seconds).flatMap (labelPoints v)).Perm
      ((v'.list seconds).flatMap (labelPoints v')) :=
    (List.Perm.flatMap_left _ fun p _ => ((v.list_perm v' _).filter _).map _).trans
      ((v.list_perm v' seconds).flatMap_right _)
  refine TallyMap.ext_getElem? fun name => ?_
  have hname := hperm.filter fun x => decide (x.1 = name)
  have hnil := hname.length_eq
  have hsort := Visit.insertionSort_key_eq_of_perm (fun x => x.ts) (hname.map Prod.snd) ?_
  · simp only [collectPoints, TallyMap.getElem?_mapValues, TallyMap.getElem?_groupBy,
      ← List.length_eq_zero_iff, hnil]
    split
    case isTrue => rfl
    case isFalse => simp only [Option.map_some, hsort]
  · intro x hx y hy hts
    obtain ⟨p, hp, rfl⟩ := List.mem_map.mp hx
    obtain ⟨q, hq, rfl⟩ := List.mem_map.mp hy
    simp only [List.mem_filter, decide_eq_true_eq] at hp hq
    rw [eq_of_mem_flatMap_labelPoints hp.1 hq.1 (hp.2.trans hq.2.symm) hts]

theorem soakTrendLabels_eq (v : Visit) (seconds : TallyMap ℤ SecondState) :
    soakTrendLabels v seconds =
      ((collectPoints v seconds).mapValues (·.insertionSort fun x y => x.ts ≤ y.ts)).toList.filterMap
        fun p => if p.2.length < soakTrendMinSampledSeconds then none
          else some { label := p.1, figures := soakFigures p.2 } := by
  have hkeys := TallyMap.keys_map_getD (collectPoints v seconds) [] labelSoakTrend
  simp only [soakTrendLabels, v.sort_keys, TallyMap.toList_mapValues, List.filterMap_map]
  calc
    _ = ((collectPoints v seconds).keys.map fun name =>
          labelSoakTrend name ((collectPoints v seconds).getD name [])).filterMap id := by
        rw [List.filterMap_map]
        rfl
    _ = _ := by
        rw [hkeys, List.filterMap_map]
        simp [labelSoakTrend]

theorem soakTrendLabels_visit (v v' : Visit) (seconds : TallyMap ℤ SecondState) :
    soakTrendLabels v seconds = soakTrendLabels v' seconds := by
  rw [soakTrendLabels_eq, soakTrendLabels_eq, collectPoints_visit v v']

end Honryu.Report
