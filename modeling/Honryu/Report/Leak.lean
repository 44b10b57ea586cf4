import Honryu.Lib.Trend
import Honryu.Report.Report

/-!
When the trend of a run is taken for a leak.

The seconds that carried samples, in their order, are the run's series. A leak is suspected if the
mean of its second half is more than one and a half times that of its first, and the slope of the
regression is positive (`leakSuspected_iff`). The slope has the sign of the covariance, so falling
means never suspect and rising means do. But a single step has a positive slope too, wherever it is,
so that the slope keeps no step from being flagged: whether it is flagged is a matter of its height
and of where the samples are (`step_leakSuspected_iff`).
-/

namespace Honryu.Report

open Metrics

/-! ### The series of a run -/

def SecondMean.mean (p : SecondMean) : ℚ := p.sum / p.samples

/-- The mean response time of some seconds, each with the weight of its samples. -/
def weightedMean (l : List SecondMean) : ℚ :=
  (l.map (·.sum)).sum / (l.map fun p => (p.samples : ℚ)).sum

def series (seconds : TallyMap ℤ SecondState) : List SecondMean :=
  (seconds.toList.filter fun p => 0 < p.2.latSamples).map fun p =>
    { ts := p.1, sum := p.2.latSum, samples := p.2.latSamples }

def firstHalf (l : List SecondMean) : List SecondMean := l.take (l.length / 2)

def secondHalf (l : List SecondMean) : List SecondMean := l.drop (l.length / 2)

theorem firstHalf_ne_nil {l : List SecondMean} (hlen : 2 ≤ l.length) : firstHalf l ≠ [] := by
  rw [← List.length_pos_iff, firstHalf, List.length_take]
  omega

theorem secondHalf_ne_nil {l : List SecondMean} (hlen : 2 ≤ l.length) : secondHalf l ≠ [] := by
  rw [← List.length_pos_iff, secondHalf, List.length_drop]
  omega

theorem mem_of_mem_firstHalf {l : List SecondMean} {p : SecondMean} (h : p ∈ firstHalf l) : p ∈ l :=
  List.mem_of_mem_take h

theorem mem_of_mem_secondHalf {l : List SecondMean} {p : SecondMean} (h : p ∈ secondHalf l) :
    p ∈ l :=
  List.mem_of_mem_drop h

theorem mem_series {seconds : TallyMap ℤ SecondState} {p : SecondMean} :
    p ∈ series seconds ↔
      ∃ sec, seconds[p.ts]? = some sec ∧ 0 < sec.latSamples ∧ p.sum = sec.latSum ∧
        p.samples = sec.latSamples := by
  simp only [series, List.mem_map, List.mem_filter, decide_eq_true_eq, Prod.exists,
    TallyMap.mem_toList_iff]
  constructor
  · rintro ⟨ts, sec, ⟨hsec, hpos⟩, rfl⟩
    exact ⟨sec, hsec, hpos, rfl, rfl⟩
  · rintro ⟨sec, hsec, hpos, hsum, hsamples⟩
    exact ⟨p.ts, sec, ⟨hsec, hpos⟩, SecondMean.ext rfl hsum.symm hsamples.symm⟩

theorem series_sorted (seconds : TallyMap ℤ SecondState) :
    (series seconds).Pairwise fun p q => p.ts < q.ts := by
  rw [series, List.pairwise_map]
  exact (seconds.pairwise_toList).filter _

theorem series_sampled {seconds : TallyMap ℤ SecondState} {p : SecondMean}
    (h : p ∈ series seconds) : 0 < p.samples := by
  obtain ⟨sec, -, hpos, -, hsamples⟩ := mem_series.mp h
  rwa [hsamples]

theorem eq_of_sorted {l l' : List SecondMean} (h : l.Pairwise fun p q => p.ts < q.ts)
    (h' : l'.Pairwise fun p q => p.ts < q.ts) (hmem : ∀ p, p ∈ l ↔ p ∈ l') : l = l' := by
  have hnodup : ∀ {l : List SecondMean}, l.Pairwise (fun p q => p.ts < q.ts) → l.Nodup :=
    fun h => h.imp fun {p q} hlt heq => hlt.ne (congrArg SecondMean.ts heq)
  refine List.Perm.eq_of_pairwise (fun p q _ _ hpq hqp => absurd hpq hqp.not_gt) h h' ?_
  exact (List.perm_ext_iff_of_nodup (hnodup h) (hnodup h')).mpr hmem

theorem eq_of_ts {l : List SecondMean} (h : l.Pairwise fun p q => p.ts < q.ts) {p q : SecondMean}
    (hp : p ∈ l) (hq : q ∈ l) (hts : p.ts = q.ts) : p = q := by
  by_contra hne
  have hneq : l.Pairwise fun p q => p.ts ≠ q.ts := h.imp fun hlt => hlt.ne
  have hsymm : Std.Symm fun p q : SecondMean => p.ts ≠ q.ts := ⟨fun _ _ hpq => hpq.symm⟩
  exact hneq.forall hp hq hne hts

theorem soakTrend_eq (v : Visit) (seconds : TallyMap ℤ SecondState) :
    soakTrend v seconds =
      if (series seconds).length < soakTrendMinSampledSeconds then none
      else some { figures := soakFigures (series seconds), labels := [] } := by
  have hsorted : ((seconds.toList.filter fun p => 0 < p.2.latSamples).map Prod.fst).insertionSort
      (· ≤ ·) = (seconds.toList.filter fun p => 0 < p.2.latSamples).map Prod.fst := by
    refine List.Pairwise.insertionSort_eq ?_
    rw [List.pairwise_map]
    exact (seconds.pairwise_toList.filter _).imp fun h => h.le
  have hmeans : ((seconds.toList.filter fun p => 0 < p.2.latSamples).map Prod.fst).map (fun ts =>
      (seconds[ts]?).elim { ts, sum := 0, samples := 0 } fun sec =>
        { ts, sum := sec.latSum, samples := sec.latSamples : SecondMean }) = series seconds := by
    rw [series, List.map_map]
    refine List.map_congr_left fun p hp => ?_
    have hsec : seconds[p.1]? = some p.2 := TallyMap.mem_toList_iff.mp (List.mem_filter.mp hp).1
    simp only [Function.comp_apply, hsec, Option.elim_some]
  have hlength : (series seconds).length =
      ((seconds.toList.filter fun p => 0 < p.2.latSamples).map Prod.fst).length := by
    simp only [series, List.length_map]
  rw [soakTrend_visit v .sorted, soakTrend]
  simp only [Visit.sorted, hsorted, hmeans, hlength]

/-! ### The figures of a series -/

theorem foldl_halves (half k : ℕ) (h : Halves) (l : List SecondMean) :
    (l.zipIdx k).foldl (Halves.add half) h =
      { firstSum := h.firstSum + ((l.take (half - k)).map (·.sum)).sum
        secondSum := h.secondSum + ((l.drop (half - k)).map (·.sum)).sum
        firstN := h.firstN + ((l.take (half - k)).map (·.samples)).sum
        secondN := h.secondN + ((l.drop (half - k)).map (·.samples)).sum } := by
  induction l generalizing k h with
  | nil => simp
  | cons p l ih =>
      rw [List.zipIdx_cons, List.foldl_cons, ih]
      by_cases hk : k < half
      · obtain ⟨n, hn⟩ : ∃ n, half - k = n + 1 := ⟨half - k - 1, by omega⟩
        have hn' : half - (k + 1) = n := by omega
        simp [Halves.add, hk, hn, hn', add_assoc]
      · have hn : half - k = 0 := by omega
        have hn' : half - (k + 1) = 0 := by omega
        simp [Halves.add, hk, hn, hn', add_assoc]

theorem foldl_regression (base : ℤ) (r : Regression) (l : List SecondMean) :
    l.foldl (Regression.add base) r =
      { sumX := r.sumX + (l.map fun p => ((p.ts - base : ℤ) : ℚ)).sum
        sumY := r.sumY + (l.map SecondMean.mean).sum
        sumXY := r.sumXY + (l.map fun p => ((p.ts - base : ℤ) : ℚ) * p.mean).sum
        sumXX := r.sumXX +
          (l.map fun p => ((p.ts - base : ℤ) : ℚ) * ((p.ts - base : ℤ) : ℚ)).sum } := by
  induction l generalizing r with
  | nil => simp
  | cons p l ih =>
      rw [List.foldl_cons, ih]
      simp [Regression.add, SecondMean.mean, add_assoc]

theorem meanMs_eq {l : List SecondMean} (hne : l ≠ []) (hpos : ∀ p ∈ l, 0 < p.samples) :
    meanMs (l.map (·.sum)).sum (l.map (·.samples)).sum = weightedMean l * 1000 := by
  have hlt : 0 < (l.map (·.samples)).sum := by
    have hsum := List.sum_lt_sum_of_ne_nil hne (fun _ => (0 : ℤ)) (·.samples) hpos
    simpa using hsum
  have hcast : (((l.map (·.samples)).sum : ℤ) : ℚ) = (l.map fun p => (p.samples : ℚ)).sum := by
    rw [Int.cast_list_sum, List.map_map]
    rfl
  rw [meanMs, if_neg hlt.not_ge, hcast]
  rfl

section Figures

variable {l : List SecondMean}

theorem cov_ts_pos (hsorted : l.Pairwise fun p q => p.ts < q.ts) (hlen : 2 ≤ l.length) :
    0 < Trend.cov (fun p => (p.ts : ℚ)) (fun p => (p.ts : ℚ)) l := by
  obtain ⟨p, q, rest, rfl⟩ : ∃ p q rest, l = p :: q :: rest := by
    match l, hlen with
    | p :: q :: rest, _ => exact ⟨p, q, rest, rfl⟩
  have hlt : (p.ts : ℚ) < q.ts := by exact_mod_cast List.rel_of_pairwise_cons hsorted (by simp)
  refine Trend.cov_pos (hsorted.imp fun _ => mul_self_nonneg _) (p := p) (q := q) (by simp) (by simp)
    (mul_self_ne_zero.mpr (sub_pos.mpr hlt).ne')

theorem slope_pos_iff (hsorted : l.Pairwise fun p q => p.ts < q.ts) (hlen : 2 ≤ l.length) :
    0 < (soakFigures l).slopeMsPerMin ↔
      0 < Trend.cov (fun p => (p.ts : ℚ)) SecondMean.mean l := by
  have hn : (0 : ℚ) < l.length := by exact_mod_cast (by omega : 0 < l.length)
  have hshift : ∀ (base : ℤ) (y : SecondMean → ℚ),
      Trend.cov (fun p => ((p.ts - base : ℤ) : ℚ)) y l = Trend.cov (fun p => (p.ts : ℚ)) y l := by
    intro base y
    simp only [Int.cast_sub]
    exact Trend.cov_sub_const _ y _ _
  have hpart : ∀ x y : SecondMean → ℚ, (l.map fun p => x p * y p).sum -
      (l.map x).sum * (l.map y).sum / l.length = Trend.cov x y l / l.length := by
    intro x y
    rw [Trend.cov]
    field_simp
  have hvar : ∀ base : ℤ, 0 < Trend.cov (fun p => ((p.ts - base : ℤ) : ℚ))
      (fun p => ((p.ts - base : ℤ) : ℚ)) l := by
    intro base
    have hsymm : ∀ x y : SecondMean → ℚ, Trend.cov x y l = Trend.cov y x l := by
      intro x y
      simp only [Trend.cov, mul_comm]
    rw [hshift, hsymm, hshift]
    exact cov_ts_pos hsorted hlen
  simp only [soakFigures, foldl_regression, zero_add, hpart, msPerSecond, secondsPerMin]
  rw [if_pos (div_pos (hvar _) hn), hshift _ SecondMean.mean]
  have hscale : ∀ a b : ℚ, 0 < b → (0 < a / l.length / (b / l.length) * 1000 * 60 ↔ 0 < a) := by
    intro a b hb
    rw [div_div_div_cancel_right₀ hn.ne', mul_assoc, mul_pos_iff_of_pos_right (by norm_num),
      div_pos_iff_of_pos_right hb]
  exact hscale _ _ (hvar _)

theorem leakSuspected_iff (hsorted : l.Pairwise fun p q => p.ts < q.ts)
    (hpos : ∀ p ∈ l, 0 < p.samples) (hlen : 2 ≤ l.length) :
    (soakFigures l).leakSuspected = true ↔
      0 < weightedMean (firstHalf l) ∧
        3 / 2 * weightedMean (firstHalf l) < weightedMean (secondHalf l) ∧
          0 < Trend.cov (fun p => (p.ts : ℚ)) SecondMean.mean l := by
  have hfirst : (soakFigures l).firstHalfMs = weightedMean (firstHalf l) * 1000 := by
    rw [← meanMs_eq (firstHalf_ne_nil hlen) fun p hp => hpos p (mem_of_mem_firstHalf hp)]
    simp only [soakFigures, foldl_halves, firstHalf, Nat.sub_zero, zero_add]
  have hsecond : (soakFigures l).secondHalfMs = weightedMean (secondHalf l) * 1000 := by
    rw [← meanMs_eq (secondHalf_ne_nil hlen) fun p hp => hpos p (mem_of_mem_secondHalf hp)]
    simp only [soakFigures, foldl_halves, secondHalf, Nat.sub_zero, zero_add]
  have hleak : (soakFigures l).leakSuspected = true ↔
      0 < (soakFigures l).firstHalfMs ∧
        soakLeakHalfGrowth * (soakFigures l).firstHalfMs < (soakFigures l).secondHalfMs ∧
          0 < (soakFigures l).slopeMsPerMin := by
    simp only [soakFigures, Bool.and_eq_true, decide_eq_true_eq, and_assoc]
  rw [hleak, slope_pos_iff hsorted hlen, hfirst, hsecond, soakLeakHalfGrowth, ← mul_assoc,
    mul_pos_iff_of_pos_right (by norm_num), mul_lt_mul_iff_left₀ (by norm_num)]

/-- Means that never decrease rise from each second to each later one. -/
theorem pairs_nonneg (hsorted : l.Pairwise fun p q => p.ts < q.ts)
    (hrise : l.Pairwise fun p q => p.mean ≤ q.mean) :
    l.Pairwise fun p q => 0 ≤ ((q.ts : ℚ) - p.ts) * (q.mean - p.mean) := by
  refine (hsorted.and hrise).imp ?_
  rintro p q ⟨hts, hle⟩
  exact mul_nonneg (sub_nonneg.mpr (by exact_mod_cast hts.le)) (sub_nonneg.mpr hle)

theorem weightedMean_const (hne : l ≠ []) (hpos : ∀ p ∈ l, 0 < p.samples) {c : ℚ}
    (hmean : ∀ p ∈ l, p.mean = c) : weightedMean l = c := by
  have hweight : ∀ p ∈ l, (0 : ℚ) < p.samples := fun p hp => by exact_mod_cast hpos p hp
  have hsum : (l.map (·.sum)).sum = (l.map fun p => c * (p.samples : ℚ)).sum := by
    refine congrArg List.sum (List.map_congr_left fun p hp => ?_)
    rw [← hmean p hp, SecondMean.mean, div_mul_cancel₀ _ (hweight p hp).ne']
  rw [weightedMean, hsum, List.sum_map_mul_left,
    mul_div_cancel_right₀ _ (Trend.weight_pos hweight hne).ne']

end Figures

/-! ### A step -/

/-- The share of the samples that lies after the second `s`. -/
def shareAfter (s : ℤ) (l : List SecondMean) : ℚ :=
  (l.map fun p => if p.ts ≤ s then 0 else (p.samples : ℚ)).sum /
    (l.map fun p => (p.samples : ℚ)).sum

/-- The mean of a second is `a` up to the second `s`, and `b` after it. -/
def Step (s : ℤ) (a b : ℚ) (l : List SecondMean) : Prop :=
  ∀ p ∈ l, p.mean = if p.ts ≤ s then a else b

section Step

variable {l : List SecondMean} {s : ℤ} {a b : ℚ}

theorem Step.weightedMean (h : Step s a b l) (hne : l ≠ []) (hpos : ∀ p ∈ l, 0 < p.samples) :
    weightedMean l = a + (b - a) * shareAfter s l := by
  have hweight : ∀ p ∈ l, (0 : ℚ) < p.samples := fun p hp => by exact_mod_cast hpos p hp
  have hsum : (l.map (·.sum)).sum = (l.map fun p =>
      a * (p.samples : ℚ) + (b - a) * if p.ts ≤ s then 0 else (p.samples : ℚ)).sum := by
    refine congrArg List.sum (List.map_congr_left fun p hp => ?_)
    have hmean := h p hp
    rw [SecondMean.mean, div_eq_iff (hweight p hp).ne'] at hmean
    rw [hmean]
    split <;> ring
  have htotal := Trend.weight_pos hweight hne
  rw [Report.weightedMean, hsum, List.sum_map_add, List.sum_map_mul_left, List.sum_map_mul_left,
    shareAfter]
  field_simp

theorem shareAfter_nonneg (hpos : ∀ p ∈ l, 0 < p.samples) : 0 ≤ shareAfter s l := by
  have hnonneg : ∀ p ∈ l, (0 : ℚ) ≤ p.samples := fun p hp => by exact_mod_cast (hpos p hp).le
  refine div_nonneg (List.sum_nonneg ?_) (List.sum_nonneg ?_)
  · simp only [List.forall_mem_map]
    intro p hp
    split
    · exact le_rfl
    · exact hnonneg p hp
  · simpa using hnonneg

theorem Step.rising (h : Step s a b l) (hab : a ≤ b)
    (hsorted : l.Pairwise fun p q => p.ts < q.ts) : l.Pairwise fun p q => p.mean ≤ q.mean := by
  refine hsorted.imp_of_mem fun {p q} hp hq hlt => ?_
  rw [h p hp, h q hq]
  split
  · split
    · exact le_rfl
    · exact hab
  · next hnot => rw [if_neg fun hle => hnot (hlt.le.trans hle)]

/-- A step up is flagged exactly if it is high enough for where the samples are. -/
theorem Step.leakSuspected_iff (h : Step s a b l) (ha : 0 < a) (hab : a < b)
    (hsorted : l.Pairwise fun p q => p.ts < q.ts) (hpos : ∀ p ∈ l, 0 < p.samples)
    (hlen : 2 ≤ l.length) :
    (soakFigures l).leakSuspected = true ↔
      3 / 2 * (a + (b - a) * shareAfter s (firstHalf l)) <
        a + (b - a) * shareAfter s (secondHalf l) := by
  have hfirst : firstHalf l ≠ [] ∧ (∀ p ∈ firstHalf l, p ∈ l) :=
    ⟨firstHalf_ne_nil hlen, fun _ => mem_of_mem_firstHalf⟩
  have hsecond : secondHalf l ≠ [] ∧ (∀ p ∈ secondHalf l, p ∈ l) :=
    ⟨secondHalf_ne_nil hlen, fun _ => mem_of_mem_secondHalf⟩
  have hmean : ∀ {half : List SecondMean}, half ≠ [] ∧ (∀ p ∈ half, p ∈ l) →
      Report.weightedMean half = a + (b - a) * shareAfter s half := fun hhalf =>
    Step.weightedMean (fun p hp => h p (hhalf.2 p hp)) hhalf.1 fun p hp => hpos p (hhalf.2 p hp)
  rw [Report.leakSuspected_iff hsorted hpos hlen, ← hmean hfirst, ← hmean hsecond]
  have hfirst_pos : 0 < Report.weightedMean (firstHalf l) := by
    rw [hmean hfirst]
    have hshare := shareAfter_nonneg (s := s) fun p hp => hpos p (hfirst.2 p hp)
    have hprod := mul_nonneg (sub_pos.mpr hab).le hshare
    linarith
  refine ⟨fun hleak => hleak.2.1, fun hgrowth => ⟨hfirst_pos, hgrowth, ?_⟩⟩
  -- the halves differ, so there are seconds on both sides of the step
  have hconst : ∀ c, (∀ p ∈ l, p.mean = c) → False := by
    intro c hc
    rw [weightedMean_const hfirst.1 (fun p hp => hpos p (hfirst.2 p hp))
        fun p hp => hc p (hfirst.2 p hp)] at hgrowth hfirst_pos
    rw [weightedMean_const hsecond.1 (fun p hp => hpos p (hsecond.2 p hp))
        fun p hp => hc p (hsecond.2 p hp)] at hgrowth
    linarith
  have hbefore : ∃ p ∈ l, p.ts ≤ s := by
    by_contra hnone
    push Not at hnone
    exact hconst b fun p hp => by rw [h p hp, if_neg (hnone p hp).not_ge]
  have hafter : ∃ q ∈ l, s < q.ts := by
    by_contra hnone
    push Not at hnone
    exact hconst a fun p hp => by rw [h p hp, if_pos (hnone p hp)]
  obtain ⟨p, hp, hps⟩ := hbefore
  obtain ⟨q, hq, hqs⟩ := hafter
  refine Trend.cov_pos (pairs_nonneg hsorted (h.rising hab.le hsorted)) hp hq (mul_ne_zero ?_ ?_)
  · have hlt : (p.ts : ℚ) < q.ts := by exact_mod_cast hps.trans_lt hqs
    exact (sub_pos.mpr hlt).ne'
  · rw [h p hp, h q hq, if_pos hps, if_neg hqs.not_ge]
    exact (sub_pos.mpr hab).ne'

end Step

/-- The state of a run with a step: there are enough seconds with samples, and the mean of each is
`a` up to the second `s` and `b` after it. -/
structure StepRun (seconds : TallyMap ℤ SecondState) (s : ℤ) (a b : ℚ) : Prop where
  enough : soakTrendMinSampledSeconds ≤ (series seconds).length
  mean : ∀ (ts : ℤ) (sec : SecondState), seconds[ts]? = some sec → 0 < sec.latSamples →
    sec.latSum / sec.latSamples = if ts ≤ s then a else b

/-- A run with a step up is not flagged exactly if the step is low for where its samples are: the
mean that the shares of samples after the step make of the second half is not more than one and a
half times that of the first. -/
theorem stepRun_notSuspected_iff (v : Visit) {seconds : TallyMap ℤ SecondState} {s : ℤ} {a b : ℚ}
    (ha : 0 < a) (hab : a < b) (h : StepRun seconds s a b) :
    (∃ t, soakTrend v seconds = some t ∧ t.figures.leakSuspected = false) ↔
      a + (b - a) * shareAfter s (secondHalf (series seconds)) ≤
        3 / 2 * (a + (b - a) * shareAfter s (firstHalf (series seconds))) := by
  have hstep : Step s a b (series seconds) := by
    intro p hp
    obtain ⟨sec, hsec, hpos, hsum, hsamples⟩ := mem_series.mp hp
    rw [SecondMean.mean, hsum, hsamples]
    exact h.mean p.ts sec hsec hpos
  have hlen : 2 ≤ (series seconds).length := le_trans (by decide) h.enough
  have hleak := hstep.leakSuspected_iff ha hab (series_sorted seconds)
    (fun p hp => series_sampled hp) hlen
  rw [soakTrend_eq, if_neg h.enough.not_gt, ← not_lt, ← hleak]
  simp

/-- Two minutes with one request a second, which takes a second in the first minute and `b` seconds
in the other. -/
def steppedRun (b : ℚ) : TallyMap ℤ SecondState :=
  .ofList ((List.range 120).map fun i : ℕ =>
    ((i : ℤ), (⟨1, 1, if i < 60 then 1 else b, 1, none⟩ : SecondState)))

theorem stepRun_of_toList {seconds : TallyMap ℤ SecondState} {s : ℤ} {a b : ℚ}
    (henough : soakTrendMinSampledSeconds ≤ (series seconds).length)
    (hall : ∀ p ∈ seconds.toList, p.2.latSum / p.2.latSamples = if p.1 ≤ s then a else b) :
    StepRun seconds s a b :=
  ⟨henough, fun ts sec hsec _ => hall (ts, sec) (TallyMap.mem_toList_iff.mpr hsec)⟩

theorem stepRun_notSuspected_fifth :
    ∃ t, soakTrend .sorted (steppedRun (6 / 5)) = some t ∧ t.figures.leakSuspected = false :=
  (stepRun_notSuspected_iff .sorted (by norm_num : (0 : ℚ) < 1) (by norm_num : (1 : ℚ) < 6 / 5)
    (stepRun_of_toList (s := 59) (by decide +kernel) (by decide +kernel))).mpr (by decide +kernel)

/-- A step to twice the response time in the middle of the run is flagged. -/
theorem stepRun_suspected_twice :
    (0 : ℚ) < 1 ∧ (1 : ℚ) < 2 ∧ StepRun (steppedRun 2) 59 1 2 ∧
      ¬∃ t, soakTrend .sorted (steppedRun 2) = some t ∧ t.figures.leakSuspected = false := by
  refine ⟨by norm_num, by norm_num, stepRun_of_toList (by decide +kernel) (by decide +kernel), ?_⟩
  have hflag : (soakTrend .sorted (steppedRun 2)).map (·.figures.leakSuspected) = some true := by
    decide +kernel
  rintro ⟨t, ht, hnot⟩
  rw [ht, Option.map_some, hnot] at hflag
  cases hflag

end Honryu.Report
