import Honryu.Lib.TallySum
import Honryu.Report.Leak
import Honryu.Report.Tally

/-!
What the leak verdict of a run says, and what it does not depend on.

Means that never increase are never flagged, and means that rise far enough are, if there is anything
to compare with: the verdict is only given where the first half took any time. The verdict is read
off the sum and the number of each second's response times, which are sums over the intervals
(`latencies_intervalsTally`); so intervals without samples change nothing, other timestamps only move
the series, and other response times only stretch it. In a run with one label the label's tally is
that of the whole second, so its trend is that of the run.
-/

namespace Honryu.Report

open Metrics

/-! ### Runs that fall and runs that rise -/

section Monotone

variable {l : List SecondMean}

theorem notSuspected_of_falling (hsorted : l.Pairwise fun p q => p.ts < q.ts)
    (hpos : ∀ p ∈ l, 0 < p.samples) (hlen : 2 ≤ l.length)
    (hfall : l.Pairwise fun p q => q.mean ≤ p.mean) : (soakFigures l).leakSuspected = false := by
  rw [← Bool.not_eq_true, leakSuspected_iff hsorted hpos hlen]
  rintro ⟨-, -, hslope⟩
  refine hslope.not_ge (Trend.cov_nonpos ((hsorted.and hfall).imp ?_))
  rintro p q ⟨hlt, hle⟩
  have hts : (0 : ℚ) ≤ q.ts - p.ts := sub_nonneg.mpr (by exact_mod_cast hlt.le)
  exact mul_nonpos_of_nonneg_of_nonpos hts (sub_nonpos.mpr hle)

/-- Means that never decrease are flagged if each of the second half is more than one and a half
times each of the first, and the first half is not all zeros. -/
theorem suspected_of_rising (hsorted : l.Pairwise fun p q => p.ts < q.ts)
    (hpos : ∀ p ∈ l, 0 < p.samples) (hlen : 2 ≤ l.length)
    (hrise : l.Pairwise fun p q => p.mean ≤ q.mean) (hnonneg : ∀ p ∈ l, 0 ≤ p.sum)
    (hsome : ∃ p ∈ firstHalf l, 0 < p.mean)
    (hgrowth : ∀ p ∈ firstHalf l, ∀ q ∈ secondHalf l, 0 < p.mean → 3 / 2 * p.mean < q.mean) :
    (soakFigures l).leakSuspected = true := by
  obtain ⟨p₀, hp₀, hp₀pos⟩ := hsome
  have hweight : ∀ p ∈ l, (0 : ℚ) < p.samples := fun p hp => by exact_mod_cast hpos p hp
  have hmean : ∀ p ∈ l, 0 ≤ p.mean := fun p hp => div_nonneg (hnonneg p hp) (hweight p hp).le
  have hfirst := firstHalf_ne_nil hlen
  have hsecond := secondHalf_ne_nil hlen
  have hevery : ∀ p ∈ firstHalf l, ∀ q ∈ secondHalf l, p.mean < q.mean / (3 / 2) := by
    intro p hp q hq
    rw [lt_div_iff₀ (by norm_num), mul_comm]
    rcases (hmean p (mem_of_mem_firstHalf hp)).eq_or_lt with hzero | hp
    · have hq := hgrowth p₀ hp₀ q hq hp₀pos
      linarith
    · exact hgrowth p ‹_› q hq hp
  rw [leakSuspected_iff hsorted hpos hlen]
  refine ⟨?_, ?_, ?_⟩
  · have hsum : 0 < ((firstHalf l).map (·.sum)).sum := by
      have hle : ∀ p ∈ firstHalf l, 0 ≤ p.sum := fun p hp => hnonneg p (mem_of_mem_firstHalf hp)
      have hp₀sum : 0 < p₀.sum := by
        by_contra hnot
        have hzero := le_antisymm (not_lt.mp hnot) (hle p₀ hp₀)
        rw [SecondMean.mean, hzero, zero_div] at hp₀pos
        exact lt_irrefl _ hp₀pos
      exact hp₀sum.trans_le (List.single_le_sum (by simpa using hle) _ (List.mem_map_of_mem hp₀))
    exact div_pos hsum (Trend.weight_pos (fun p hp => hweight p (mem_of_mem_firstHalf hp)) hfirst)
  · refine Trend.lt_mean (fun q hq => hweight q (mem_of_mem_secondHalf hq)) hsecond fun q hq => ?_
    have hlt := Trend.mean_lt (fun p hp => hweight p (mem_of_mem_firstHalf hp)) hfirst
      fun p hp => hevery p hp q hq
    rw [lt_div_iff₀ (by norm_num), mul_comm] at hlt
    exact hlt
  · obtain ⟨q₀, hq₀⟩ := List.exists_mem_of_ne_nil _ hsecond
    have hlt : p₀.mean < q₀.mean := by
      have hq := hgrowth p₀ hp₀ q₀ hq₀ hp₀pos
      linarith
    refine Trend.cov_pos (pairs_nonneg hsorted hrise) (mem_of_mem_firstHalf hp₀)
      (mem_of_mem_secondHalf hq₀) (mul_ne_zero (fun hts => hlt.ne ?_) (sub_pos.mpr hlt).ne')
    -- one second has one mean
    have hsame : p₀.ts = q₀.ts := by
      have hcast := sub_eq_zero.mp hts
      exact_mod_cast hcast.symm
    exact congrArg _ (eq_of_ts hsorted (mem_of_mem_firstHalf hp₀) (mem_of_mem_secondHalf hq₀) hsame)

end Monotone

/-! ### What the verdict does not depend on -/

def latencies : SecondState →+ ℚ × ℤ where
  toFun s := (s.latSum, s.latSamples)
  map_zero' := rfl
  map_add' _ _ := rfl

theorem mem_series_iff {seconds : TallyMap ℤ SecondState} {p : SecondMean} :
    p ∈ series seconds ↔
      0 < p.samples ∧ seconds.valueAt latencies p.ts = (p.sum, p.samples) := by
  rw [mem_series, TallyMap.valueAt]
  constructor
  · rintro ⟨sec, hsec, hpos, hsum, hsamples⟩
    rw [hsec, hsum, hsamples]
    exact ⟨hpos, rfl⟩
  · rintro ⟨hpos, hvalue⟩
    cases hsec : seconds[p.ts]? with
    | none =>
        rw [hsec] at hvalue
        exact absurd (congrArg Prod.snd hvalue) hpos.ne
    | some sec =>
        rw [hsec] at hvalue
        have hsum : sec.latSum = p.sum := congrArg Prod.fst hvalue
        have hsamples : sec.latSamples = p.samples := congrArg Prod.snd hvalue
        exact ⟨sec, rfl, hsamples ▸ hpos, hsum.symm, hsamples.symm⟩

def SecondMean.shift (d : ℤ) (p : SecondMean) : SecondMean := { p with ts := p.ts + d }

/-- A second of samples that took `c` times as long. -/
def SecondMean.scale (c : ℚ) (p : SecondMean) : SecondMean := { p with sum := c * p.sum }

section Series

variable {seconds seconds' : TallyMap ℤ SecondState}

theorem series_shift {d : ℤ}
    (h : ∀ ts, seconds'.valueAt latencies (ts + d) = seconds.valueAt latencies ts) :
    series seconds' = (series seconds).map (SecondMean.shift d) := by
  refine eq_of_sorted (series_sorted seconds') ?_ fun p => ?_
  · rw [List.pairwise_map]
    exact (series_sorted seconds).imp fun hlt => add_lt_add_left hlt d
  · rw [List.mem_map, mem_series_iff]
    constructor
    · rintro ⟨hpos, hvalue⟩
      refine ⟨p.shift (-d), mem_series_iff.mpr ⟨hpos, ?_⟩, ?_⟩
      · rw [← h]
        simpa [SecondMean.shift] using hvalue
      · exact SecondMean.ext (neg_add_cancel_right p.ts d) rfl rfl
    · rintro ⟨q, hq, rfl⟩
      obtain ⟨hpos, hvalue⟩ := mem_series_iff.mp hq
      exact ⟨hpos, (h q.ts).trans hvalue⟩

theorem series_scale {c : ℚ}
    (h : ∀ ts, seconds'.valueAt latencies ts =
      (c * (seconds.valueAt latencies ts).1, (seconds.valueAt latencies ts).2)) :
    series seconds' = (series seconds).map (SecondMean.scale c) := by
  refine eq_of_sorted (series_sorted seconds') ?_ fun p => ?_
  · rw [List.pairwise_map]
    exact series_sorted seconds
  · rw [List.mem_map, mem_series_iff, h]
    constructor
    · rintro ⟨hpos, hvalue⟩
      obtain ⟨hsum, hsamples⟩ := Prod.mk.inj hvalue
      refine ⟨⟨p.ts, (seconds.valueAt latencies p.ts).1, p.samples⟩, mem_series_iff.mpr ⟨hpos, ?_⟩, ?_⟩
      · exact Prod.ext rfl hsamples
      · exact SecondMean.ext rfl hsum rfl
    · rintro ⟨q, hq, rfl⟩
      obtain ⟨hpos, hvalue⟩ := mem_series_iff.mp hq
      refine ⟨hpos, ?_⟩
      change (c * (seconds.valueAt latencies q.ts).1, (seconds.valueAt latencies q.ts).2) = _
      rw [hvalue]
      rfl

end Series

theorem soakFigures_shift (d : ℤ) (l : List SecondMean) :
    soakFigures (l.map (SecondMean.shift d)) = soakFigures l := by
  have hhalves : ∀ (half k : ℕ) (h : Halves), ((l.map (SecondMean.shift d)).zipIdx k).foldl
      (Halves.add half) h = (l.zipIdx k).foldl (Halves.add half) h := by
    intro half k h
    simp only [foldl_halves, ← List.map_take, ← List.map_drop, List.map_map]
    rfl
  have hregression : ∀ (base : ℤ) (r : Regression), (l.map (SecondMean.shift d)).foldl
      (Regression.add (base + d)) r = l.foldl (Regression.add base) r := by
    intro base r
    simp only [foldl_regression, List.map_map]
    simp only [Function.comp_def, SecondMean.shift, SecondMean.mean, add_sub_add_right_eq_sub]
    rfl
  cases l with
  | nil => rfl
  | cons p rest =>
      have hbase : (((p :: rest).map (SecondMean.shift d)).head?.map (·.ts)).getD 0 =
          (((p :: rest).head?.map (·.ts)).getD 0) + d := rfl
      simp only [soakFigures, hhalves, hbase, hregression, List.length_map]

theorem leakSuspected_scale {c : ℚ} (hc : 0 < c) {l : List SecondMean}
    (hsorted : l.Pairwise fun p q => p.ts < q.ts) (hpos : ∀ p ∈ l, 0 < p.samples)
    (hlen : 2 ≤ l.length) :
    (soakFigures (l.map (SecondMean.scale c))).leakSuspected = (soakFigures l).leakSuspected := by
  have hmean : ∀ half : List SecondMean,
      weightedMean (half.map (SecondMean.scale c)) = c * weightedMean half := by
    intro half
    simp only [weightedMean, List.map_map, Function.comp_def, SecondMean.scale,
      List.sum_map_mul_left, mul_div_assoc]
  have hfirst : firstHalf (l.map (SecondMean.scale c)) = (firstHalf l).map (SecondMean.scale c) := by
    rw [firstHalf, firstHalf, List.length_map, List.map_take]
  have hsecond : secondHalf (l.map (SecondMean.scale c)) =
      (secondHalf l).map (SecondMean.scale c) := by
    rw [secondHalf, secondHalf, List.length_map, List.map_drop]
  have hcov : Trend.cov (fun p => (p.ts : ℚ)) SecondMean.mean (l.map (SecondMean.scale c)) =
      c * Trend.cov (fun p => (p.ts : ℚ)) SecondMean.mean l := by
    rw [Trend.cov_map, ← Trend.cov_mul_const]
    simp only [SecondMean.scale, SecondMean.mean, mul_div_assoc]
  rw [Bool.eq_iff_iff, leakSuspected_iff hsorted hpos hlen, leakSuspected_iff ?_ ?_ ?_, hfirst,
    hsecond, hmean, hmean, hcov, mul_pos_iff_of_pos_left hc, mul_pos_iff_of_pos_left hc,
    mul_left_comm, mul_lt_mul_iff_right₀ hc]
  · rw [List.pairwise_map]
    exact hsorted
  · simpa [SecondMean.scale] using hpos
  · rwa [List.length_map]

/-! ### The verdict on a run -/

def leakVerdict (r : Report) : Option Bool := r.soakTrend.map (·.figures.leakSuspected)

theorem seconds_addAll (ivs : List Interval) :
    (newAccumulator.addAll ivs).seconds = (intervalsTally ivs).seconds := by
  have htally := newAccumulator.tally_addAll ivs
  rw [tally_newAccumulator, zero_add] at htally
  exact congrArg Tally.seconds htally

theorem leakVerdict_build (v : Visit) (input : Input) :
    leakVerdict (build v input) =
      if (series (intervalsTally input.intervals).seconds).length < soakTrendMinSampledSeconds
      then none
      else some (soakFigures (series (intervalsTally input.intervals).seconds)).leakSuspected := by
  rw [leakVerdict, build, Accumulator.report]
  simp only [seconds_addAll, soakTrend_eq]
  split <;> rfl

def latencyAt (ts : ℤ) (iv : Interval) : ℚ × ℤ :=
  if iv.timestamp = ts ∧ iv.label ≠ totalLabel then
    ((bucketTally iv.latency).sum, (bucketTally iv.latency).samples)
  else 0

/-- The response times of a second are the sum of what the intervals add. -/
theorem latencies_intervalsTally (ivs : List Interval) (ts : ℤ) :
    (intervalsTally ivs).seconds.valueAt latencies ts = (ivs.map (latencyAt ts)).sum := by
  induction ivs with
  | nil => rfl
  | cons iv ivs ih =>
      rw [intervalsTally_cons, Tally.seconds_add, TallyMap.valueAt_add, ih, List.map_cons,
        List.sum_cons]
      congr 1
      by_cases htotal : iv.label = totalLabel
      · simp only [intervalTally, if_pos htotal, TallyMap.valueAt_single, latencyAt]
        have hnot : ¬(iv.timestamp = ts ∧ iv.label ≠ totalLabel) := fun h => h.2 htotal
        rw [if_neg hnot]
        split <;> rfl
      · simp only [intervalTally, if_neg htotal, TallyMap.valueAt_single, latencyAt]
        by_cases hts : iv.timestamp = ts
        · rw [if_pos hts, if_pos ⟨hts, htotal⟩]
          rfl
        · rw [if_neg hts, if_neg fun h => hts h.1]

def NoSamples (h : Histogram) : Prop := ∀ (rt : ℚ) (n : ℤ), h[rt]? = some n → n = 0

theorem bucketTally_sum (l : List (ℚ × ℤ)) :
    (l.map fun b => (⟨b.1 * b.2, b.2⟩ : LabelLatencyTally)).sum =
      ⟨(l.map fun b => b.1 * (b.2 : ℚ)).sum, (l.map Prod.snd).sum⟩ := by
  induction l with
  | nil => rfl
  | cons b l ih =>
      rw [List.map_cons, List.sum_cons, ih]
      rfl

theorem NoSamples.bucketTally {h : Histogram} (hnone : NoSamples h) : bucketTally h = 0 := by
  have hzero : ∀ b ∈ h.toList, b.2 = 0 := fun b hb => hnone b.1 b.2 (TallyMap.mem_toList_iff.mp hb)
  rw [Report.bucketTally, bucketTally_sum]
  refine LabelLatencyTally.ext (List.sum_eq_zero ?_) (List.sum_eq_zero ?_)
  · rw [List.forall_mem_map]
    intro b hb
    rw [hzero b hb, Int.cast_zero, mul_zero]
  · rw [List.forall_mem_map]
    exact hzero

/-- The samples of one histogram, each with `c` times the response time, are those of the other. -/
def Stretched (c : ℚ) (h h' : Histogram) : Prop := ∀ rt : ℚ, h'[c * rt]? = h[rt]?

theorem Stretched.toList {c : ℚ} (hc : 0 < c) {h h' : Histogram} (hs : Stretched c h h') :
    h'.toList = h.toList.map fun b => (c * b.1, b.2) := by
  have hsorted : (h.toList.map fun b => (c * b.1, b.2)).Pairwise fun p q => p.1 < q.1 := by
    rw [List.pairwise_map]
    exact h.pairwise_toList.imp fun hlt => mul_lt_mul_of_pos_left hlt hc
  have hnodup : ∀ {l : List (ℚ × ℤ)}, l.Pairwise (fun p q => p.1 < q.1) → l.Nodup :=
    fun hl => hl.imp fun {p q} hlt heq => hlt.ne (congrArg Prod.fst heq)
  refine List.Perm.eq_of_pairwise (fun p q _ _ hpq hqp => absurd hpq hqp.not_gt)
    h'.pairwise_toList hsorted ?_
  refine (List.perm_ext_iff_of_nodup (hnodup h'.pairwise_toList) (hnodup hsorted)).mpr ?_
  rintro ⟨rt, n⟩
  rw [TallyMap.mem_toList_iff, List.mem_map]
  constructor
  · intro hn
    have hrt : c * (rt / c) = rt := mul_div_cancel₀ rt hc.ne'
    exact ⟨(rt / c, n), TallyMap.mem_toList_iff.mpr (by rw [← hs, hrt, hn]), by rw [hrt]⟩
  · rintro ⟨⟨rt', n'⟩, hb, heq⟩
    obtain ⟨rfl, rfl⟩ := Prod.mk.inj heq
    exact (hs rt').trans (TallyMap.mem_toList_iff.mp hb)

theorem Stretched.bucketTally {c : ℚ} (hc : 0 < c) {h h' : Histogram} (hs : Stretched c h h') :
    (bucketTally h').sum = c * (bucketTally h).sum ∧
      (bucketTally h').samples = (bucketTally h).samples := by
  rw [Report.bucketTally, Report.bucketTally, hs.toList hc, bucketTally_sum, bucketTally_sum]
  simp only [List.map_map, Function.comp_def, mul_assoc, List.sum_map_mul_left, and_self]

/-- The same interval, with each response time `c` times as long. -/
structure StretchedInterval (c : ℚ) (iv iv' : Interval) : Prop where
  timestamp : iv'.timestamp = iv.timestamp
  label : iv'.label = iv.label
  latency : Stretched c iv.latency iv'.latency

section Runs

variable (v : Visit) {input input' : Input}

theorem leakVerdict_added {extra : List Interval}
    (hextra : ∀ iv ∈ extra, iv.label = totalLabel ∨ NoSamples iv.latency)
    (h : input'.intervals.Perm (input.intervals ++ extra)) :
    leakVerdict (build v input') = leakVerdict (build v input) := by
  have hzero : ∀ ts, (extra.map (latencyAt ts)).sum = 0 := by
    intro ts
    refine List.sum_eq_zero ?_
    rw [List.forall_mem_map]
    intro iv hiv
    rw [latencyAt]
    split
    · next hcond =>
      rw [((hextra iv hiv).resolve_left hcond.2).bucketTally]
      rfl
    · rfl
  have hseries : series (intervalsTally input'.intervals).seconds =
      series (intervalsTally input.intervals).seconds := by
    refine eq_of_sorted (series_sorted _) (series_sorted _) fun p => ?_
    rw [mem_series_iff, mem_series_iff, latencies_intervalsTally, latencies_intervalsTally,
      (h.map _).sum_eq, List.map_append, List.sum_append, hzero, add_zero]
  rw [leakVerdict_build, leakVerdict_build, hseries]

theorem leakVerdict_shifted {d : ℤ}
    (h : input'.intervals = input.intervals.map fun iv =>
      { iv with timestamp := iv.timestamp + d }) :
    leakVerdict (build v input') = leakVerdict (build v input) := by
  have hseries : series (intervalsTally input'.intervals).seconds =
      (series (intervalsTally input.intervals).seconds).map (SecondMean.shift d) := by
    refine series_shift fun ts => ?_
    rw [latencies_intervalsTally, latencies_intervalsTally, h, List.map_map]
    simp only [Function.comp_def, latencyAt, add_left_inj]
    rfl
  rw [leakVerdict_build, leakVerdict_build, hseries, soakFigures_shift, List.length_map]

theorem leakVerdict_stretched {c : ℚ} (hc : 0 < c)
    (h : List.Forall₂ (StretchedInterval c) input.intervals input'.intervals) :
    leakVerdict (build v input') = leakVerdict (build v input) := by
  have hsum : ∀ (ts : ℤ) {ivs ivs' : List Interval}, List.Forall₂ (StretchedInterval c) ivs ivs' →
      (ivs'.map (latencyAt ts)).sum =
        (c * (ivs.map (latencyAt ts)).sum.1, (ivs.map (latencyAt ts)).sum.2) := by
    intro ts ivs ivs' hivs
    induction hivs with
    | nil => simp [Prod.ext_iff]
    | @cons iv iv' ivs ivs' hiv _ ih =>
        have hone : latencyAt ts iv' = (c * (latencyAt ts iv).1, (latencyAt ts iv).2) := by
          simp only [latencyAt, hiv.timestamp, hiv.label, (hiv.latency.bucketTally hc).1,
            (hiv.latency.bucketTally hc).2]
          split <;> simp [Prod.ext_iff]
        rw [List.map_cons, List.sum_cons, ih, hone, List.map_cons, List.sum_cons, Prod.mk_add_mk,
          Prod.fst_add, Prod.snd_add, mul_add]
  have hseries : series (intervalsTally input'.intervals).seconds =
      (series (intervalsTally input.intervals).seconds).map (SecondMean.scale c) := by
    refine series_scale fun ts => ?_
    rw [latencies_intervalsTally, latencies_intervalsTally, hsum ts h]
  rw [leakVerdict_build, leakVerdict_build, hseries, List.length_map]
  split
  · rfl
  · next henough =>
    have hlen : 2 ≤ (series (intervalsTally input.intervals).seconds).length :=
      le_trans (by decide) (not_lt.mp henough)
    rw [leakSuspected_scale hc (series_sorted _) (fun p hp => series_sampled hp) hlen]

end Runs

/-! ### A run with one label -/

/-- All of a second's response times are those of the label. -/
def OneLabel (label : String) (sec : SecondState) : Prop :=
  sec.labelLatency = none ∧ sec.latSum = 0 ∧ sec.latSamples = 0 ∨
    ∃ t : LabelLatencyTally, sec.labelLatency = some (TallyMap.single label t) ∧
      sec.latSum = t.sum ∧ sec.latSamples = t.samples

theorem OneLabel.add {label : String} {sec sec' : SecondState} (h : OneLabel label sec)
    (h' : OneLabel label sec') : OneLabel label (sec + sec') := by
  have hadd : (sec + sec').labelLatency = sec.labelLatency + sec'.labelLatency ∧
      (sec + sec').latSum = sec.latSum + sec'.latSum ∧
      (sec + sec').latSamples = sec.latSamples + sec'.latSamples := ⟨rfl, rfl, rfl⟩
  rw [OneLabel, hadd.1, hadd.2.1, hadd.2.2]
  obtain ⟨hl, hs, hn⟩ | ⟨t, hl, hs, hn⟩ := h <;> obtain ⟨hl', hs', hn'⟩ | ⟨t', hl', hs', hn'⟩ := h'
  · exact .inl ⟨by rw [hl, hl']; rfl, by rw [hs, hs', add_zero], by rw [hn, hn', add_zero]⟩
  · refine .inr ⟨t', ?_, ?_, ?_⟩
    · rw [hl, hl', Option.none_add]
    · rw [hs, hs', zero_add]
    · rw [hn, hn', zero_add]
  · refine .inr ⟨t, ?_, ?_, ?_⟩
    · rw [hl, hl', Option.add_none]
    · rw [hs, hs', add_zero]
    · rw [hn, hn', add_zero]
  · refine .inr ⟨t + t', ?_, ?_, ?_⟩
    · rw [hl, hl', Option.some_add_some, TallyMap.single_add]
    · rw [hs, hs']
      rfl
    · rw [hn, hn']
      rfl

theorem oneLabel_intervalTally {label : String} {iv : Interval}
    (h : iv.label = totalLabel ∨ iv.label = label) :
    ∀ (ts : ℤ) (sec : SecondState), (intervalTally iv).seconds[ts]? = some sec →
      OneLabel label sec := by
  rw [intervalTally]
  by_cases htotal : iv.label = totalLabel
  · rw [if_pos htotal]
    exact TallyMap.forall_single (.inl ⟨rfl, rfl, rfl⟩)
  · rw [if_neg htotal]
    refine TallyMap.forall_single ?_
    have hlabel : iv.label = label := h.resolve_left htotal
    by_cases hempty : iv.latency = 0
    · refine .inl ⟨?_, ?_, ?_⟩
      · simp only [secondPart, latencyPart, hempty, nonempty?_zero, Option.map_none]
      · simp only [secondPart, latencyPart, hempty]
        rfl
      · simp only [secondPart, latencyPart, hempty]
        rfl
    · refine .inr ⟨bucketTally iv.latency, ?_, rfl, rfl⟩
      simp only [secondPart, latencyPart, nonempty?_of_ne_zero hempty, Option.map_some, hlabel]

theorem oneLabel_intervalsTally {label : String} {ivs : List Interval}
    (h : ∀ iv ∈ ivs, iv.label = totalLabel ∨ iv.label = label) :
    ∀ (ts : ℤ) (sec : SecondState), (intervalsTally ivs).seconds[ts]? = some sec →
      OneLabel label sec := by
  induction ivs with
  | nil => intro ts sec hsec; cases hsec
  | cons iv ivs ih =>
      rw [intervalsTally_cons, Tally.seconds_add]
      exact TallyMap.forall_add (fun _ _ => OneLabel.add)
        (oneLabel_intervalTally (h iv List.mem_cons_self))
        (ih fun iv' hiv' => h iv' (List.mem_cons_of_mem _ hiv'))

theorem OneLabel.labelPoints {label : String} {sec : SecondState} (h : OneLabel label sec) (ts : ℤ) :
    labelPoints .sorted (ts, sec) =
      if 0 < sec.latSamples then [(label, ⟨ts, sec.latSum, sec.latSamples⟩)] else [] := by
  rw [Report.labelPoints]
  obtain ⟨hl, hs, hn⟩ | ⟨t, hl, hs, hn⟩ := h
  · rw [hl, hn, if_neg (lt_irrefl _)]
    rfl
  · have hlist : (TallyMap.single label t).toList = [(label, t)] :=
      TallyMap.toList_eq_singleton fun k => TallyMap.getElem?_single label k t
    simp only [hl, hs, hn, Visit.sorted, Option.getD_some, hlist]
    by_cases hpos : 0 < t.samples <;> simp [hpos]

theorem flatMap_labelPoints {label : String} {l : List (ℤ × SecondState)}
    (h : ∀ p ∈ l, OneLabel label p.2) :
    l.flatMap (labelPoints .sorted) =
      ((l.filter fun p => 0 < p.2.latSamples).map fun p =>
        (⟨p.1, p.2.latSum, p.2.latSamples⟩ : SecondMean)).map fun p => (label, p) := by
  induction l with
  | nil => rfl
  | cons p l ih =>
      rw [List.flatMap_cons, ih fun q hq => h q (List.mem_cons_of_mem _ hq),
        (h p List.mem_cons_self).labelPoints p.1]
      by_cases hpos : 0 < p.2.latSamples <;> simp [hpos]

theorem soakTrendLabels_oneLabel (v : Visit) {label : String} {seconds : TallyMap ℤ SecondState}
    (h : ∀ (ts : ℤ) (sec : SecondState), seconds[ts]? = some sec → OneLabel label sec) :
    soakTrendLabels v seconds =
      if (series seconds).length < soakTrendMinSampledSeconds then []
      else [{ label, figures := soakFigures (series seconds) }] := by
  have hpoints : seconds.toList.flatMap (labelPoints .sorted) =
      (series seconds).map fun p => (label, p) :=
    flatMap_labelPoints fun p hp => h p.1 p.2 (TallyMap.mem_toList_iff.mp hp)
  have hsort : (series seconds).insertionSort (fun x y => x.ts ≤ y.ts) = series seconds :=
    List.Pairwise.insertionSort_eq ((series_sorted seconds).imp fun hlt => hlt.le)
  have hcollected : ∀ name : String, ((collectPoints .sorted seconds).mapValues
      (·.insertionSort fun x y => x.ts ≤ y.ts))[name]? =
        if series seconds = [] then none
        else if label = name then some (series seconds) else none := by
    intro name
    have hpoints' : (Visit.sorted.list seconds).flatMap (labelPoints .sorted) =
        (series seconds).map fun p => (label, p) := hpoints
    rw [collectPoints, hpoints', TallyMap.getElem?_mapValues, TallyMap.getElem?_mapValues,
      TallyMap.getElem?_groupBy, List.filter_map]
    by_cases hname : label = name
    · by_cases hempty : series seconds = []
      · simp [hempty]
      · simp [Function.comp_def, hname, hempty, hsort]
    · simp [Function.comp_def, hname]
  rw [soakTrendLabels_visit v .sorted, soakTrendLabels_eq]
  by_cases hempty : series seconds = []
  · have hnone : (collectPoints .sorted seconds).mapValues
        (·.insertionSort fun x y => x.ts ≤ y.ts) = 0 :=
      TallyMap.eq_zero_iff.mpr fun name => by rw [hcollected, if_pos hempty]
    rw [hnone, hempty]
    rfl
  · have hone := TallyMap.toList_eq_singleton fun name => by
      rw [hcollected name, if_neg hempty]
    rw [hone, List.filterMap_cons, List.filterMap_nil]
    split <;> split <;> simp_all

theorem labels_oneLabel (v : Visit) {input : Input} {label : String}
    (h : ∀ iv ∈ input.intervals, iv.label = totalLabel ∨ iv.label = label) {t : SoakTrend}
    (ht : (build v input).soakTrend = some t) :
    t.labels = [{ label, figures := t.figures }] := by
  rw [build, Accumulator.report] at ht
  simp only [seconds_addAll, soakTrend_eq,
    soakTrendLabels_oneLabel v (oneLabel_intervalsTally h)] at ht
  split at ht
  · cases ht
  · cases ht
    rfl

/-! ### The verdict is sound -/

/-- A run that falls is never flagged. A run that rises is flagged if each second of its second half
took more than one and a half times as long as each of its first that took any time, and there is
one. Neither seconds without samples, nor the time of the run, nor the speed of the target make a
difference. If there is one label, its trend is the run's. -/
theorem leakVerdict_sound (v : Visit) :
    (∀ seconds, soakTrendMinSampledSeconds ≤ (series seconds).length →
      (series seconds).Pairwise (fun p q => q.mean ≤ p.mean) →
        ∃ t, soakTrend v seconds = some t ∧ t.figures.leakSuspected = false) ∧
    (∀ seconds, soakTrendMinSampledSeconds ≤ (series seconds).length →
      (series seconds).Pairwise (fun p q => p.mean ≤ q.mean) →
      (∀ p ∈ series seconds, 0 ≤ p.sum) →
      (∃ p ∈ firstHalf (series seconds), 0 < p.mean) →
      (∀ p ∈ firstHalf (series seconds), ∀ q ∈ secondHalf (series seconds),
        0 < p.mean → 3 / 2 * p.mean < q.mean) →
        ∃ t, soakTrend v seconds = some t ∧ t.figures.leakSuspected = true) ∧
    (∀ (input input' : Input) (extra : List Interval),
      (∀ iv ∈ extra, iv.label = totalLabel ∨ NoSamples iv.latency) →
      input'.intervals.Perm (input.intervals ++ extra) →
        leakVerdict (build v input') = leakVerdict (build v input)) ∧
    (∀ (input input' : Input) (d : ℤ),
      input'.intervals = input.intervals.map (fun iv =>
        { iv with timestamp := iv.timestamp + d }) →
        leakVerdict (build v input') = leakVerdict (build v input)) ∧
    (∀ (input input' : Input) (c : ℚ), 0 < c →
      List.Forall₂ (StretchedInterval c) input.intervals input'.intervals →
        leakVerdict (build v input') = leakVerdict (build v input)) ∧
    ∀ (input : Input) (label : String),
      (∀ iv ∈ input.intervals, iv.label = totalLabel ∨ iv.label = label) →
        ∀ t, (build v input).soakTrend = some t → t.labels = [{ label, figures := t.figures }] := by
  have htrend : ∀ {seconds}, soakTrendMinSampledSeconds ≤ (series seconds).length →
      2 ≤ (series seconds).length ∧
        soakTrend v seconds = some { figures := soakFigures (series seconds), labels := [] } := by
    intro seconds henough
    exact ⟨le_trans (by decide) henough, by rw [soakTrend_eq, if_neg henough.not_gt]⟩
  refine ⟨fun seconds henough hfall => ?_, fun seconds henough hrise hnonneg hsome hgrowth => ?_,
    fun _ _ _ hextra h => leakVerdict_added v hextra h, fun _ _ _ h => leakVerdict_shifted v h,
    fun _ _ _ hc h => leakVerdict_stretched v hc h, fun _ _ h _ ht => labels_oneLabel v h ht⟩
  · obtain ⟨hlen, htrend⟩ := htrend henough
    exact ⟨_, htrend, notSuspected_of_falling (series_sorted seconds)
      (fun p hp => series_sampled hp) hlen hfall⟩
  · obtain ⟨hlen, htrend⟩ := htrend henough
    exact ⟨_, htrend, suspected_of_rising (series_sorted seconds)
      (fun p hp => series_sampled hp) hlen hrise hnonneg hsome hgrowth⟩

theorem leakVerdict_sound_twice :
    ∃ t, soakTrend .sorted (steppedRun 2) = some t ∧ t.figures.leakSuspected = true := by
  have hstep : Step 59 1 2 (series (steppedRun 2)) := by
    rw [Step]
    decide +kernel
  have hfirst : ∀ p ∈ firstHalf (series (steppedRun 2)), p.mean = 1 := by decide +kernel
  have hsecond : ∀ q ∈ secondHalf (series (steppedRun 2)), q.mean = 2 := by decide +kernel
  have henough : soakTrendMinSampledSeconds ≤ (series (steppedRun 2)).length := by decide +kernel
  refine (leakVerdict_sound .sorted).2.1 (steppedRun 2) henough
    (hstep.rising (by norm_num) (series_sorted _)) (by decide +kernel) ?_ fun p hp q hq _ => ?_
  · obtain ⟨p, hp⟩ := List.exists_mem_of_ne_nil _ (firstHalf_ne_nil (le_trans (by decide) henough))
    exact ⟨p, hp, by rw [hfirst p hp]; norm_num⟩
  · rw [hfirst p hp, hsecond q hq]
    norm_num

/-- Two minutes with one request a second, which takes no time in the first minute and a second in
the other. -/
def fromZero : TallyMap ℤ SecondState :=
  .ofList ((List.range 120).map fun i : ℕ =>
    ((i : ℤ), (⟨1, 1, if i < 60 then 0 else 1, 1, none⟩ : SecondState)))

/-- Where the first half took no time there is nothing to compare with, and no flag. -/
theorem notSuspected_fromZero :
    soakTrendMinSampledSeconds ≤ (series fromZero).length ∧
      (series fromZero).Pairwise (fun p q => p.mean ≤ q.mean) ∧
      (∀ p ∈ firstHalf (series fromZero), ∀ q ∈ secondHalf (series fromZero),
        0 < p.mean → 3 / 2 * p.mean < q.mean) ∧
      (soakTrend .sorted fromZero).map (·.figures.leakSuspected) = some false := by
  have hstep : Step 59 0 1 (series fromZero) := by
    rw [Step]
    decide +kernel
  have hfirst : ∀ p ∈ firstHalf (series fromZero), p.mean = 0 := by decide +kernel
  refine ⟨by decide +kernel, hstep.rising (by norm_num) (series_sorted _), ?_, by decide +kernel⟩
  intro p hp q _ hpos
  rw [hfirst p hp] at hpos
  exact absurd hpos (lt_irrefl 0)

end Honryu.Report
