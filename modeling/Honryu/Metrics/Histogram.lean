import Honryu.Lib.Visit

/-!
Response-time histograms: counts keyed by the response time, and the
percentiles read off them. Counts can be combined across pods; percentiles
cannot, which is why everything up to the report carries the former.
-/

namespace Honryu.Metrics

abbrev Histogram := TallyMap ℚ ℤ

namespace Histogram

def merge (h other : Histogram) : Histogram := TallyMap.merge h other

@[simp] theorem merge_eq (h other : Histogram) : h.merge other = h + other := rfl

def count (v : Visit) (h : Histogram) : ℤ := (v.values h).foldl (· + ·) 0

/-- The rank `Percentiles` looks for: the share of the samples that `p`
names, at least one of them. -/
def rank (p : ℚ) (total : ℤ) : ℤ :=
  max 1 ⌈min (max p 0) 100 / 100 * total⌉

/-- The inner loop of `Percentiles`: every pending percentile whose rank has
been seen is answered with `rt`. -/
def answer (seen total : ℤ) (rt : ℚ) : List ℚ → TallyMap ℚ ℚ → List ℚ × TallyMap ℚ ℚ
  | [], out => ([], out)
  | p :: ps, out =>
      if seen < rank p total then (p :: ps, out)
      else answer seen total rt ps (out.insert p rt)

def walk (h : Histogram) (total : ℤ) :
    List ℚ → ℤ → List ℚ × TallyMap ℚ ℚ → List ℚ × TallyMap ℚ ℚ
  | [], _, acc => acc
  | rt :: rest, seen, (ps, out) =>
      let seen := seen + h.getD rt 0
      walk h total rest seen (answer seen total rt ps out)

/-- `Percentiles` returns several percentiles in one pass over the buckets. -/
def percentiles (v : Visit) (h : Histogram) (ps : List ℚ) : TallyMap ℚ ℚ :=
  let total := h.count v
  if total = 0 then ps.foldl (fun out p => out.insert p 0) ∅
  else
    let buckets := (v.keys h).insertionSort (· ≤ ·)
    let sorted := ps.insertionSort (· ≤ ·)
    let (rest, out) := walk h total buckets 0 (sorted, ∅)
    rest.foldl (fun out p => out.insert p (buckets.getLastD 0)) out

theorem count_eq_sum (v : Visit) (h : Histogram) : h.count v = (v.values h).sum :=
  List.sum_eq_foldl.symm

theorem count_visit (v v' : Visit) (h : Histogram) : h.count v = h.count v' := by
  rw [count_eq_sum, count_eq_sum, (v.values_perm v' h).sum_eq]

theorem percentiles_visit (v v' : Visit) (h : Histogram) (ps : List ℚ) :
    h.percentiles v ps = h.percentiles v' ps := by
  simp only [percentiles, count_visit v v', v.sort_keys, v'.sort_keys]

end Histogram

end Honryu.Metrics
