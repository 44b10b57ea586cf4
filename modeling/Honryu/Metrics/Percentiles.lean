import Honryu.Lib.Quantile
import Honryu.Metrics.Histogram

/-!
The percentiles of a histogram.

`Percentile` looks for one percentile, and `Percentiles` for several of them in one pass over the
buckets. Both go by nearest rank: what they find is the least recorded time up to which there are
as many samples as the percentile asks for.
-/

namespace Honryu.Metrics.Histogram

open Std (ExtTreeMap)

/-- `Percentile` returns the response time at a percentile. -/
def percentile (v : Visit) (h : Histogram) (p : ℚ) : ℚ :=
  let total := h.count v
  if total = 0 then 0
  else
    let buckets := (v.keys h).insertionSort (· ≤ ·)
    (Quantile.search (h.getD · 0) (rank p total) buckets 0).getD (buckets.getLastD 0)

/-! ### Ranks -/

theorem one_le_rank (p : ℚ) (total : ℤ) : 1 ≤ rank p total := le_max_left _ _

theorem rank_mono {total : ℤ} (htotal : 0 ≤ total) {p q : ℚ} (h : p ≤ q) :
    rank p total ≤ rank q total := by
  have htotal' : (0 : ℚ) ≤ total := by exact_mod_cast htotal
  refine max_le_max_left 1 (Int.ceil_le_ceil ?_)
  gcongr

theorem rank_le {total : ℤ} (htotal : 1 ≤ total) (p : ℚ) : rank p total ≤ total := by
  have htotal' : (0 : ℚ) ≤ total := by exact_mod_cast (zero_le_one.trans htotal)
  refine max_le htotal (Int.ceil_le.mpr ?_)
  have hshare : min (max p 0) 100 / 100 ≤ 1 := by
    rw [div_le_one (by norm_num)]
    exact min_le_right _ _
  simpa using mul_le_mul_of_nonneg_right hshare htotal'

/-- What two histograms ask for together they do not ask for less than each of them. -/
theorem rank_add_le (p : ℚ) (m n : ℤ) : rank p (m + n) ≤ rank p m + rank p n := by
  refine max_le ?_ ?_
  · have hm := one_le_rank p m
    have hn := one_le_rank p n
    omega
  · rw [Int.cast_add, mul_add]
    exact (Int.ceil_add_le _ _).trans (add_le_add (le_max_right _ _) (le_max_right _ _))

theorem rank_mono_total (p : ℚ) {m n : ℤ} (h : m ≤ n) : rank p m ≤ rank p n := by
  have hshare : 0 ≤ min (max p 0) 100 / 100 :=
    div_nonneg (le_min (le_max_right _ _) (by norm_num)) (by norm_num)
  refine max_le_max_left 1 (Int.ceil_le_ceil (mul_le_mul_of_nonneg_left ?_ hshare))
  exact_mod_cast h

theorem rank_add_rank_le (p : ℚ) {m n : ℤ} (hm : 0 ≤ m) (hn : 0 ≤ n) :
    rank p m + rank p n ≤ rank p (m + n) + 1 := by
  have hm' : rank p m ≤ rank p (m + n) := rank_mono_total p (by omega)
  have hn' : rank p n ≤ rank p (m + n) := rank_mono_total p (by omega)
  have hceil : ⌈min (max p 0) 100 / 100 * (m : ℚ)⌉ + ⌈min (max p 0) 100 / 100 * (n : ℚ)⌉ ≤
      rank p (m + n) + 1 := by
    refine (Int.ceil_add_ceil_le _ _).trans (add_le_add_left ?_ 1)
    rw [← mul_add, ← Int.cast_add]
    exact le_max_right _ _
  -- one of the two asks for a single sample, or both for what their shares come to
  rcases max_choice 1 ⌈min (max p 0) 100 / 100 * (m : ℚ)⌉ with h | h
  · have : rank p m = 1 := h
    omega
  · rcases max_choice 1 ⌈min (max p 0) 100 / 100 * (n : ℚ)⌉ with h' | h'
    · have : rank p n = 1 := h'
      omega
    · exact (add_le_add h.le h'.le).trans hceil

/-! ### One pass -/

theorem getElem?_foldl_insert (x : ℚ) (ps : List ℚ) (out : TallyMap ℚ ℚ) (q : ℚ) :
    (ps.foldl (fun out p => out.insert p x) out)[q]? = if q ∈ ps then some x else out[q]? := by
  induction ps generalizing out with
  | nil => simp
  | cons p ps ih =>
      rw [List.foldl_cons, ih, TallyMap.getElem?_insert_eq_ite]
      rcases eq_or_ne p q with rfl | hne
      · rw [if_pos rfl, ite_self, if_pos List.mem_cons_self]
      · rw [if_neg hne]
        simp only [List.mem_cons, or_iff_right hne.symm]

section Pass

variable {total : ℤ} (htotal : 0 ≤ total)
include htotal

/-- The percentiles that are answered in a step are those whose rank has been seen. As they are
sorted, none comes after one that has not. -/
theorem answer_eq (seen : ℤ) (rt : ℚ) {ps : List ℚ} (hsorted : ps.Pairwise (· ≤ ·))
    (out : TallyMap ℚ ℚ) :
    (answer seen total rt ps out).1 = ps.filter (fun p => seen < rank p total) ∧
      ∀ q : ℚ, (answer seen total rt ps out).2[q]? =
        if q ∈ ps ∧ rank q total ≤ seen then some rt else out[q]? := by
  induction ps generalizing out with
  | nil => simp [answer]
  | cons p ps ih =>
      obtain ⟨hp, hps⟩ := List.pairwise_cons.mp hsorted
      rw [answer]
      split
      · rename_i hpending
        have hall : ∀ q ∈ p :: ps, seen < rank q total := by
          refine List.forall_mem_cons.mpr ⟨hpending, fun q hq => ?_⟩
          exact lt_of_lt_of_le hpending (rank_mono htotal (hp q hq))
        refine ⟨(List.filter_eq_self.mpr fun q hq => decide_eq_true (hall q hq)).symm, fun q => ?_⟩
        rw [if_neg fun h => (hall q h.1).not_ge h.2]
      · rename_i hseen
        obtain ⟨hrest, hout⟩ := ih hps (out.insert p rt)
        refine ⟨?_, fun q => ?_⟩
        · rw [hrest, List.filter_cons_of_neg (by simpa using hseen)]
        · rw [hout, TallyMap.getElem?_insert_eq_ite]
          rcases eq_or_ne p q with rfl | hne
          · rw [if_pos rfl, ite_self, if_pos ⟨List.mem_cons_self, not_lt.mp hseen⟩]
          · rw [if_neg hne]
            simp only [List.mem_cons, or_iff_right hne.symm]

/-- The pass answers every percentile with what is found for it alone. -/
theorem walk_eq (h : Histogram) (buckets : List ℚ) (seen : ℤ) {ps : List ℚ}
    (hsorted : ps.Pairwise (· ≤ ·)) (out : TallyMap ℚ ℚ) :
    (walk h total buckets seen (ps, out)).1 =
        ps.filter (fun p =>
          (Quantile.search (h.getD · 0) (rank p total) buckets seen).isNone) ∧
      ∀ q : ℚ, (walk h total buckets seen (ps, out)).2[q]? =
        if q ∈ ps then
          (Quantile.search (h.getD · 0) (rank q total) buckets seen).or out[q]?
        else out[q]? := by
  induction buckets generalizing seen ps out with
  | nil =>
      refine ⟨(List.filter_eq_self.mpr fun p _ => rfl).symm, fun q => ?_⟩
      rw [walk, Quantile.search, Option.none_or, ite_self]
  | cons rt buckets ih =>
      obtain ⟨hpending, hanswered⟩ := answer_eq htotal (seen + h.getD rt 0) rt hsorted out
      have hstep : walk h total (rt :: buckets) seen (ps, out) =
          walk h total buckets (seen + h.getD rt 0)
            (answer (seen + h.getD rt 0) total rt ps out) := rfl
      have hpending' : (answer (seen + h.getD rt 0) total rt ps out).1.Pairwise (· ≤ ·) := by
        rw [hpending]
        exact hsorted.filter _
      obtain ⟨hrest, hout⟩ := ih (seen + h.getD rt 0) hpending'
        (answer (seen + h.getD rt 0) total rt ps out).2
      rw [hstep]
      refine ⟨?_, fun q => ?_⟩
      · rw [hrest, hpending, List.filter_filter]
        refine List.filter_congr fun p _ => ?_
        rw [Quantile.search]
        by_cases hreached : rank p total ≤ seen + h.getD rt 0
        · simp [hreached]
        · simp [hreached, not_le.mp hreached]
      · simp only [hout, hanswered, hpending, List.mem_filter, Quantile.search]
        by_cases hreached : rank q total ≤ seen + h.getD rt 0
        · simp [hreached]
        · simp [hreached, not_le.mp hreached]

end Pass

/-- `Percentiles` has for every percentile it is asked for what `Percentile` returns. -/
theorem getElem?_percentiles (v : Visit) {h : Histogram} (hcount : 0 ≤ h.count v) (ps : List ℚ)
    (q : ℚ) :
    (h.percentiles v ps)[q]? = if q ∈ ps then some (h.percentile v q) else none := by
  by_cases hzero : h.count v = 0
  · simp only [percentiles, percentile, if_pos hzero, getElem?_foldl_insert]
    rfl
  · have hmem : q ∈ ps.insertionSort (· ≤ ·) ↔ q ∈ ps := (List.perm_insertionSort _ ps).mem_iff
    obtain ⟨hrest, hout⟩ := walk_eq hcount h ((v.keys h).insertionSort (· ≤ ·)) 0
      (List.pairwise_insertionSort (· ≤ ·) ps) ∅
    simp only [percentiles, percentile, if_neg hzero, getElem?_foldl_insert, hrest, hout,
      List.mem_filter, hmem]
    by_cases hq : q ∈ ps
    · cases hfound : Quantile.search (h.getD · 0) (rank q (h.count v))
        ((v.keys h).insertionSort (· ≤ ·)) 0 <;> simp [hq]
    · simp [hq]

/-! ### What is found -/

/-- A histogram with samples: no count is negative, and one is positive. -/
structure Sampled (v : Visit) (h : Histogram) : Prop where
  nonneg : ∀ (rt : ℚ) (n : ℤ), h[rt]? = some n → 0 ≤ n
  pos : 0 < h.count v

section Found

variable {v : Visit} {h : Histogram}

theorem Sampled.getD_nonneg (hs : Sampled v h) (rt : ℚ) : 0 ≤ h.getD rt 0 := by
  rw [ExtTreeMap.getD_eq_getD_getElem?]
  cases hn : h[rt]? with
  | none => exact le_rfl
  | some n => exact hs.nonneg rt n hn

theorem count_eq_sum_keys (v : Visit) (h : Histogram) :
    h.count v = (h.keys.map (h.getD · 0)).sum := by
  rw [h.keys_map_getD 0 fun _ n => n, count_eq_sum]
  exact ((v.perm h).map Prod.snd).sum_eq

/-- What `Percentile` finds is a recorded time, the least one up to which there are enough samples.
It is at most a time just if there are enough samples up to that. -/
theorem Sampled.percentile_spec (hs : Sampled v h) (p : ℚ) :
    h.percentile v p ∈ h.keys ∧ ∀ t, h.percentile v p ≤ t ↔ rank p (h.count v) ≤ h.upTo t := by
  have hfinds : Quantile.Finds (h.getD · 0) (rank p (h.count v)) 0 h.keys
      (Quantile.search (h.getD · 0) (rank p (h.count v)) h.keys 0) :=
    Quantile.finds_search h.pairwise_keys (zero_lt_one.trans_le (one_le_rank p (h.count v)))
  cases hfound : Quantile.search (h.getD · 0) (rank p (h.count v)) h.keys 0 with
  | none =>
      -- up to a bound of all times there are all samples
      rw [hfound] at hfinds
      obtain ⟨bound, hbound⟩ := h.keySet.exists_le
      have hall : h.upTo bound = h.count v := by
        rw [count_eq_sum_keys]
        exact Quantile.upTo_eq_sum fun k hk => hbound k (List.mem_toFinset.mpr hk)
      have hlt : 0 + h.upTo bound < rank p (h.count v) := hfinds bound
      rw [hall, zero_add] at hlt
      exact absurd (rank_le hs.pos p) hlt.not_ge
  | some t =>
      rw [hfound] at hfinds
      obtain ⟨hmem, henough, hleast⟩ := hfinds
      rw [zero_add] at henough
      have hpercentile : h.percentile v p = t := by
        simp only [percentile, if_neg hs.pos.ne', v.sort_keys, hfound, Option.getD_some]
      rw [hpercentile]
      refine ⟨hmem, fun bound => ⟨fun hle => ?_, fun hle => hleast bound ?_⟩⟩
      · exact henough.trans (Quantile.upTo_mono (fun k _ => hs.getD_nonneg k) hle)
      · rw [zero_add]
        exact hle

theorem Sampled.isLeast_percentile (hs : Sampled v h) (p : ℚ) :
    IsLeast {t | t ∈ h.keys ∧ rank p (h.count v) ≤ h.upTo t} (h.percentile v p) := by
  obtain ⟨hmem, hle⟩ := hs.percentile_spec p
  exact ⟨⟨hmem, (hle _).mp le_rfl⟩, fun t ht => (hle t).mpr ht.2⟩

theorem Sampled.percentile_mono (hs : Sampled v h) {p q : ℚ} (hpq : p ≤ q) :
    h.percentile v p ≤ h.percentile v q := by
  refine ((hs.percentile_spec p).2 _).mpr ((rank_mono hs.pos.le hpq).trans ?_)
  exact ((hs.percentile_spec q).2 _).mp le_rfl

/-! ### Merging -/

theorem count_add (v : Visit) (h o : Histogram) : (h + o).count v = h.count v + o.count v := by
  have hsum : ∀ h : Histogram, h.count v = h.sumBy (AddMonoidHom.id ℤ) := fun h => by
    rw [count_eq_sum]
    exact ((v.perm h).map Prod.snd).sum_eq
  rw [hsum, hsum, hsum, TallyMap.sumBy_add]

variable {o : Histogram}

theorem Sampled.add (hs : Sampled v h) (ho : Sampled v o) : Sampled v (h + o) where
  nonneg := TallyMap.forall_add (fun _ _ => add_nonneg) hs.nonneg ho.nonneg
  pos := by
    rw [count_add]
    exact add_pos hs.pos ho.pos

/-- A percentile of two histograms together lies between the percentiles of each. -/
theorem Sampled.percentile_add (hs : Sampled v h) (ho : Sampled v o) (p : ℚ) :
    min (h.percentile v p) (o.percentile v p) ≤ (h + o).percentile v p ∧
      (h + o).percentile v p ≤ max (h.percentile v p) (o.percentile v p) := by
  have hh := (hs.percentile_spec p).2
  have ho' := (ho.percentile_spec p).2
  have hsum := ((hs.add ho).percentile_spec p).2
  rw [count_add] at hsum
  constructor
  · by_contra hlt
    obtain ⟨hlt, hlt'⟩ := lt_min_iff.mp (not_le.mp hlt)
    have henough := (hsum _).mp le_rfl
    rw [TallyMap.upTo_add] at henough
    have hless := not_le.mp (mt (hh _).mpr hlt.not_ge)
    have hless' := not_le.mp (mt (ho' _).mpr hlt'.not_ge)
    have hrank := rank_add_rank_le p hs.pos.le ho.pos.le
    omega
  · rw [hsum, TallyMap.upTo_add]
    refine (rank_add_le p _ _).trans (add_le_add ?_ ?_)
    · exact (hh _).mp (le_max_left _ _)
    · exact (ho' _).mp (le_max_right _ _)

end Found

/-- `Merge` of one histogram after the other. -/
def mergeAll (hs : List Histogram) : Histogram := hs.foldl merge ∅

theorem mergeAll_eq_sum (hs : List Histogram) : mergeAll hs = hs.sum := List.sum_eq_foldl.symm

/-- The percentiles of histograms that are merged lie within those of the histograms. -/
theorem percentile_sum {v : Visit} {hs : List Histogram} (hne : hs ≠ [])
    (hall : ∀ h ∈ hs, Sampled v h) :
    Sampled v hs.sum ∧ ∀ p, (∃ h ∈ hs, h.percentile v p ≤ hs.sum.percentile v p) ∧
      ∃ h ∈ hs, hs.sum.percentile v p ≤ h.percentile v p := by
  induction hs with
  | nil => exact absurd rfl hne
  | cons h hs ih =>
      obtain ⟨hh, hrest⟩ := List.forall_mem_cons.mp hall
      rw [List.sum_cons]
      rcases eq_or_ne hs [] with rfl | hne
      · rw [List.sum_nil, add_zero]
        exact ⟨hh, fun p => ⟨⟨h, List.mem_cons_self, le_rfl⟩, h, List.mem_cons_self, le_rfl⟩⟩
      · obtain ⟨hsum, hbounds⟩ := ih hne hrest
        refine ⟨hh.add hsum, fun p => ?_⟩
        obtain ⟨⟨h₁, hmem₁, hle₁⟩, h₂, hmem₂, hle₂⟩ := hbounds p
        obtain ⟨hlow, hhigh⟩ := hh.percentile_add hsum p
        constructor
        · rcases min_le_iff.mp hlow with hle | hle
          · exact ⟨h, List.mem_cons_self, hle⟩
          · exact ⟨h₁, List.mem_cons_of_mem _ hmem₁, hle₁.trans hle⟩
        · rcases le_max_iff.mp hhigh with hle | hle
          · exact ⟨h, List.mem_cons_self, hle⟩
          · exact ⟨h₂, List.mem_cons_of_mem _ hmem₂, hle.trans hle₂⟩

/-- `Percentiles` and `Percentile` agree on what is found, it is the nearest rank and monotone, and
what is found in merged histograms lies between what is found in each. -/
theorem percentiles_nearestRank_mergeable (v : Visit) :
    (∀ h : Histogram, Sampled v h →
      (∀ ps, ∀ p ∈ ps, (h.percentiles v ps)[p]? = some (h.percentile v p)) ∧
        (∀ p, IsLeast {t | t ∈ h.keys ∧ rank p (h.count v) ≤ h.upTo t} (h.percentile v p)) ∧
        ∀ p q, p ≤ q → h.percentile v p ≤ h.percentile v q) ∧
      ∀ hs : List Histogram, 2 ≤ hs.length → (∀ h ∈ hs, Sampled v h) →
        ∀ p, (∃ h ∈ hs, h.percentile v p ≤ (mergeAll hs).percentile v p) ∧
          ∃ h ∈ hs, (mergeAll hs).percentile v p ≤ h.percentile v p := by
  refine ⟨fun h hs => ⟨fun ps p hp => ?_, hs.isLeast_percentile, fun p q => hs.percentile_mono⟩,
    fun hs hlength hall => ?_⟩
  · rw [getElem?_percentiles v hs.pos.le, if_pos hp]
  · rw [mergeAll_eq_sum]
    exact (percentile_sum (List.ne_nil_of_length_pos (by omega)) hall).2

def twoSamples : Histogram := .ofList [((1 / 10 : ℚ), (1 : ℤ)), (2 / 10, 1)]

theorem percentiles_nearestRank_twoSamples :
    Sampled .sorted twoSamples ∧
      (twoSamples.percentiles .sorted [50, 95])[(95 : ℚ)]? =
        some (twoSamples.percentile .sorted 95) := by
  have hsampled : Sampled .sorted twoSamples := by
    refine ⟨fun rt n h => ?_, by decide +kernel⟩
    have hall : ∀ x ∈ twoSamples.toList, 0 ≤ x.2 := by decide +kernel
    exact hall (rt, n) (TallyMap.mem_toList_iff.mpr h)
  exact ⟨hsampled, ((percentiles_nearestRank_mergeable .sorted).1 twoSamples hsampled).1 [50, 95] 95
    (by decide)⟩

end Honryu.Metrics.Histogram
