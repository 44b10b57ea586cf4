import Honryu.Lib.TallyMap
import Honryu.Usage.Launch

/-!
Virtual-user hours, summed up over a window of time.

A window selects the launches that lie within it. A launch that crosses the end of one
window and the beginning of the next lies within neither, and is billed in no window; one
that only touches a boundary lies within one of them.
-/

namespace Honryu.Usage

/-! ### The summary -/

/-- `time.Hour`. -/
def hour : ℤ := 3600 * 10 ^ 9

/-- `billingHours` rounds a duration up to whole hours. -/
def billingHours (startTime endTime : ℤ) : ℚ := ⌈((endTime - startTime : ℤ) : ℚ) / hour⌉

/-- `Summary` is what was used in a window: the virtual-user hours per context, and per
owner and context. -/
structure Summary where
  totalVUH : TallyMap String ℚ
  vuhByOwner : TallyMap String (TallyMap String ℚ)

namespace Summary

def empty : Summary := { totalVUH := ∅, vuhByOwner := ∅ }

/-- One launch of the loop of `Summary`. -/
def addLaunch (out : Summary) (rec : Launch) : Summary :=
  match rec.ended with
  | none => out
  | some ended =>
      let vuh := billingHours rec.started ended * rec.vu
      { totalVUH := out.totalVUH.bump rec.context vuh
        vuhByOwner := out.vuhByOwner.insert rec.owner
          ((out.vuhByOwner.getD rec.owner ∅).bump rec.context vuh) }

def ofContext (s : Summary) (context : String) : ℚ := s.totalVUH.getD context 0

def ofOwner (s : Summary) (owner context : String) : ℚ :=
  (s.vuhByOwner.getD owner ∅).getD context 0

end Summary

/-- `Summary` of the launches within a window. -/
def Launches.summary (l : Launches) (startTime endTime : ℤ) : Summary :=
  (l.launchHistory startTime endTime).foldl Summary.addLaunch .empty

/-! ### What a launch counts for -/

def Launch.vuh (x : Launch) : ℚ :=
  match x.ended with
  | none => 0
  | some ended => billingHours x.started ended * x.vu

def Launch.within (x : Launch) (w : ℤ × ℤ) : Bool := w.1 ≤ x.started ∧ x.ended.any (· ≤ w.2)

namespace Summary

theorem getD_bump {K : Type} [LinearOrder K] (m : TallyMap K ℚ) (k k' : K) (v : ℚ) :
    (m.bump k v).getD k' 0 = m.getD k' 0 + if k = k' then v else 0 := by
  rw [Std.ExtTreeMap.getD_eq_getD_getElem?, Std.ExtTreeMap.getD_eq_getD_getElem?,
    TallyMap.getElem?_bump]
  by_cases h : k = k'
  · cases hm : m[k']? <;> simp [h]
  · simp [h]

theorem ofContext_addLaunch (s : Summary) (x : Launch) (context : String) :
    (s.addLaunch x).ofContext context =
      s.ofContext context + if x.context = context then x.vuh else 0 := by
  cases h : x.ended with
  | none => simp [addLaunch, Launch.vuh, h]
  | some ended => simp only [addLaunch, Launch.vuh, h, ofContext, getD_bump]

theorem ofOwner_addLaunch (s : Summary) (x : Launch) (owner context : String) :
    (s.addLaunch x).ofOwner owner context =
      s.ofOwner owner context + if x.owner = owner ∧ x.context = context then x.vuh else 0 := by
  cases h : x.ended with
  | none => simp [addLaunch, Launch.vuh, h]
  | some ended =>
      simp only [addLaunch, Launch.vuh, h, ofOwner]
      by_cases howner : x.owner = owner
      · subst howner
        rw [Std.ExtTreeMap.getD_insert_self, getD_bump]
        simp only [true_and]
      · rw [Std.ExtTreeMap.getD_insert, if_neg, if_neg (fun h => howner h.1), add_zero]
        simpa using howner

/-- What a loop over launches adds to a figure, launch by launch. -/
theorem foldl_addLaunch {counts : Launch → Prop} [DecidablePred counts] (figure : Summary → ℚ)
    (hadd : ∀ s x, figure (addLaunch s x) = figure s + if counts x then x.vuh else 0)
    (history : List Launch) (s : Summary) :
    figure (history.foldl addLaunch s) =
      figure s + (history.map fun x => if counts x then x.vuh else 0).sum := by
  induction history generalizing s with
  | nil => simp
  | cons x history ih => rw [List.foldl_cons, ih, hadd, List.map_cons, List.sum_cons, add_assoc]

end Summary

namespace Launches

/-- A sum over the launches of a window, as one over all launches. -/
theorem sum_launchHistory (l : Launches) (f : Launch → ℚ) (w : ℤ × ℤ) :
    ((l.launchHistory w.1 w.2).map f).sum =
      (l.history.map fun x => if x.within w then f x else 0).sum := by
  change ((l.history.filter fun x => x.within w).map f).sum = _
  induction l.history with
  | nil => rfl
  | cons x history ih =>
      rw [List.filter_cons, List.map_cons, List.sum_cons, ← ih]
      split
      · rw [List.map_cons, List.sum_cons]
      · rw [zero_add]

theorem figure_summary {counts : Launch → Prop} [DecidablePred counts] (figure : Summary → ℚ)
    (hempty : figure .empty = 0)
    (hadd : ∀ s x, figure (s.addLaunch x) = figure s + if counts x then x.vuh else 0)
    (l : Launches) (w : ℤ × ℤ) :
    figure (l.summary w.1 w.2) =
      (l.history.map fun x => if x.within w then if counts x then x.vuh else 0 else 0).sum := by
  rw [summary, Summary.foldl_addLaunch figure hadd, hempty, zero_add, sum_launchHistory]

end Launches

/-! ### Consecutive windows -/

def windows (lo : ℤ) : List ℤ → List (ℤ × ℤ)
  | [] => []
  | hi :: rest => (lo, hi) :: windows hi rest

theorem le_fst_of_mem_windows {lo : ℤ} {rest : List ℤ} {w : ℤ × ℤ}
    (hinc : (lo :: rest).Pairwise (· < ·)) (hw : w ∈ windows lo rest) : lo ≤ w.1 := by
  induction rest generalizing lo with
  | nil => cases hw
  | cons hi rest ih =>
      rw [List.pairwise_cons] at hinc
      rcases List.mem_cons.mp hw with rfl | hw
      · exact le_rfl
      · exact (hinc.1 hi List.mem_cons_self).le.trans (ih hinc.2 hw)

/-- A launch that takes time lies within one of the windows at most, so it counts once or
not at all. -/
theorem sum_windows {x : Launch} {ended : ℤ} (hended : x.ended = some ended)
    (hlong : x.started < ended) {lo : ℤ} {rest : List ℤ} (hinc : (lo :: rest).Pairwise (· < ·))
    (v : ℚ) :
    ((windows lo rest).map fun w => if x.within w then v else 0).sum =
      if (windows lo rest).any x.within then v else 0 := by
  induction rest generalizing lo with
  | nil => simp [windows]
  | cons hi rest ih =>
      rw [windows, List.map_cons, List.sum_cons, ih (List.pairwise_cons.mp hinc).2]
      rw [List.any_cons]
      by_cases hfirst : x.within (lo, hi) = true
      · -- it ends with the first window, so it begins before every later one
        have hnone : (windows hi rest).any x.within = false := by
          refine List.any_eq_false.mpr fun w hw hwithin => ?_
          have hle := le_fst_of_mem_windows (List.pairwise_cons.mp hinc).2 hw
          simp only [Launch.within, hended, Option.any_some, decide_eq_true_eq] at hfirst hwithin
          omega
        simp [hfirst, hnone]
      · rw [Bool.not_eq_true] at hfirst
        rw [hfirst, Bool.false_or, if_neg Bool.false_ne_true, zero_add]

/-! ### Billing every launch once -/

structure Launch.Finished (x : Launch) : Prop where
  ended : ∃ ended, x.ended = some ended ∧ x.started ≤ ended
  vu : 0 ≤ x.vu

/-- The launches that are recorded up to an instant: none begins later, none ends before it
began, and none has a negative number of virtual users. -/
structure Launches.Recorded (l : Launches) (now : ℤ) : Prop where
  started : ∀ x ∈ l.history, x.started ≤ now
  ended : ∀ x ∈ l.history, ∀ ended, x.ended = some ended → x.started ≤ ended
  vu : ∀ x ∈ l.history, 0 ≤ x.vu

namespace Launches.Recorded

variable {l : Launches} {now now' : ℤ}

theorem none : Launches.none.Recorded now := ⟨nofun, nofun, nofun⟩

theorem start (h : l.Recorded now) (hnow : now ≤ now') (executionId : ℤ) (context owner : String)
    (engines : ℤ) {vu : ℤ} (hvu : 0 ≤ vu) :
    (l.start now' executionId context owner engines vu).Recorded now' := by
  unfold Launches.start
  split
  · exact ⟨fun x hx => (h.started x hx).trans hnow, h.ended, h.vu⟩
  · refine ⟨?_, ?_, ?_⟩ <;> intro x hx <;> rcases List.mem_append.mp hx with hx | hx
    · exact (h.started x hx).trans hnow
    · cases List.mem_singleton.mp hx
      exact le_rfl
    · exact h.ended x hx
    · cases List.mem_singleton.mp hx
      exact nofun
    · exact h.vu x hx
    · cases List.mem_singleton.mp hx
      exact hvu

theorem finish (h : l.Recorded now) (hnow : now ≤ now') (executionId : ℤ) {vu : ℤ} (hvu : 0 ≤ vu) :
    (l.finish now' executionId vu).Recorded now' := by
  unfold Launches.finish
  split
  · exact ⟨fun x hx => (h.started x hx).trans hnow, h.ended, h.vu⟩
  · refine ⟨?_, ?_, ?_⟩ <;> intro x hx <;> obtain ⟨y, hy, rfl⟩ := List.mem_map.mp hx <;> split
    · exact (h.started y hy).trans hnow
    · exact (h.started y hy).trans hnow
    · rintro _ ⟨⟩
      exact (h.started y hy).trans hnow
    · exact h.ended y hy
    · exact hvu
    · exact h.vu y hy

theorem finished (h : l.Recorded now) {x : Launch} (hx : x ∈ l.history) (hended : x.ended ≠ .none) :
    x.Finished := by
  obtain ⟨ended, heq⟩ := Option.ne_none_iff_exists'.mp hended
  exact ⟨⟨ended, heq, h.ended x hx ended heq⟩, h.vu x hx⟩

end Launches.Recorded

/-- The launch takes time and has virtual users, and it lies within none of the windows:
it crosses a boundary. -/
def Launch.crosses (x : Launch) (ws : List (ℤ × ℤ)) : Bool :=
  x.ended.any (x.started < ·) ∧ 0 < x.vu ∧ ws.any x.within = false

namespace Launch

variable {x : Launch} {lo : ℤ} {rest : List ℤ}

theorem Finished.vuh_nonneg (hx : x.Finished) : 0 ≤ x.vuh := by
  obtain ⟨ended, hended, hle⟩ := hx.ended
  simp only [vuh, hended, billingHours]
  have hhours : (0 : ℚ) ≤ ((ended - x.started : ℤ) : ℚ) / hour :=
    div_nonneg (by exact_mod_cast sub_nonneg.mpr hle) (by decide +kernel)
  have hvu : (0 : ℚ) ≤ x.vu := by exact_mod_cast hx.vu
  exact mul_nonneg (by exact_mod_cast Int.ceil_nonneg hhours) hvu

/-- A launch that crosses a boundary is billed at least an hour. -/
theorem vuh_pos_of_crosses {ws : List (ℤ × ℤ)} (h : x.crosses ws = true) : 0 < x.vuh := by
  obtain ⟨hlong, hvu, -⟩ := of_decide_eq_true h
  obtain ⟨ended, hended, hlt⟩ := (Option.any_eq_true _ _).mp hlong
  simp only [vuh, hended, billingHours]
  have hhours : (0 : ℚ) < ((ended - x.started : ℤ) : ℚ) / hour :=
    div_pos (by exact_mod_cast sub_pos.mpr (of_decide_eq_true hlt)) (by decide +kernel)
  have hvu' : (0 : ℚ) < x.vu := by exact_mod_cast hvu
  exact mul_pos (by exact_mod_cast Int.ceil_pos.mpr hhours) hvu'

/-- Over the windows, a launch counts for its hours unless it crosses a boundary. -/
theorem Finished.sum_windows_vuh (hx : x.Finished) (hinc : (lo :: rest).Pairwise (· < ·)) :
    ((windows lo rest).map fun w => if x.within w then x.vuh else 0).sum =
      if x.crosses (windows lo rest) then 0 else x.vuh := by
  obtain ⟨ended, hended, hle⟩ := hx.ended
  by_cases hlong : x.started < ended
  · rw [sum_windows hended hlong hinc]
    cases hany : (windows lo rest).any x.within with
    | true => simp [crosses, hany]
    | false =>
        by_cases hvu : 0 < x.vu
        · simp [crosses, hended, hlong, hvu, hany]
        · have hzero : x.vuh = 0 := by simp [vuh, hended, le_antisymm (not_lt.mp hvu) hx.vu]
          simp [hzero]
  · -- no time, no hours
    have hzero : x.vuh = 0 := by simp [vuh, hended, billingHours, le_antisymm (not_lt.mp hlong) hle]
    simp [hzero]

end Launch

namespace Launches

/-- The windows between the boundaries report what the whole span does. -/
def BilledOnce (l : Launches) (lo : ℤ) (rest : List ℤ) : Prop :=
  (∀ context, ((windows lo rest).map fun w => (l.summary w.1 w.2).ofContext context).sum =
      (l.summary lo (rest.getLastD lo)).ofContext context) ∧
    ∀ owner context,
      ((windows lo rest).map fun w => (l.summary w.1 w.2).ofOwner owner context).sum =
        (l.summary lo (rest.getLastD lo)).ofOwner owner context

def Enclosed (l : Launches) (lo : ℤ) (rest : List ℤ) : Prop :=
  ∀ x ∈ l.history, x.within (lo, rest.getLastD lo) = true

instance (l : Launches) (lo : ℤ) (rest : List ℤ) : Decidable (l.Enclosed lo rest) :=
  inferInstanceAs (Decidable (∀ x ∈ l.history, _))

section BilledOnce

variable {l : Launches} {lo : ℤ} {rest : List ℤ}

theorem sum_map_sum_map {α β : Type} (f : α → β → ℚ) (as : List α) (bs : List β) :
    (as.map fun a => (bs.map (f a)).sum).sum =
      (bs.map fun b => (as.map fun a => f a b).sum).sum := by
  induction as with
  | nil => simp
  | cons a as ih => simp only [List.map_cons, List.sum_cons, ih, List.sum_map_add]

/-- What the windows report of a figure together: the launches that cross a boundary are
left out. -/
theorem sum_figure_windows {counts : Launch → Prop} [DecidablePred counts] (figure : Summary → ℚ)
    (hempty : figure .empty = 0)
    (hadd : ∀ s x, figure (s.addLaunch x) = figure s + if counts x then x.vuh else 0)
    (hfinished : ∀ x ∈ l.history, x.Finished) (hinc : (lo :: rest).Pairwise (· < ·)) :
    ((windows lo rest).map fun w => figure (l.summary w.1 w.2)).sum =
      (l.history.map fun x =>
        if counts x then if x.crosses (windows lo rest) then 0 else x.vuh else 0).sum := by
  simp only [figure_summary figure hempty hadd]
  rw [sum_map_sum_map]
  refine congrArg List.sum (List.map_congr_left fun x hx => ?_)
  by_cases hcounts : counts x
  · simp only [hcounts, if_true]
    exact (hfinished x hx).sum_windows_vuh hinc
  · simp [hcounts]

theorem figure_span {counts : Launch → Prop} [DecidablePred counts] (figure : Summary → ℚ)
    (hempty : figure .empty = 0)
    (hadd : ∀ s x, figure (s.addLaunch x) = figure s + if counts x then x.vuh else 0)
    (henclosed : l.Enclosed lo rest) :
    figure (l.summary lo (rest.getLastD lo)) =
      (l.history.map fun x => if counts x then x.vuh else 0).sum := by
  rw [figure_summary figure hempty hadd l (lo, rest.getLastD lo)]
  exact congrArg List.sum (List.map_congr_left fun x hx => if_pos (henclosed x hx))

/-- The hours of the windows add up to those of the whole span exactly if no launch crosses
a boundary. -/
theorem billedOnce_iff (l : Launches) (hfinished : ∀ x ∈ l.history, x.Finished) (lo : ℤ)
    (rest : List ℤ) (hinc : (lo :: rest).Pairwise (· < ·)) (henclosed : l.Enclosed lo rest) :
    l.BilledOnce lo rest ↔ ∀ x ∈ l.history, x.crosses (windows lo rest) = false := by
  constructor
  · rintro ⟨-, howner⟩ x hx
    by_contra hcrosses
    rw [Bool.not_eq_false] at hcrosses
    have heq := howner x.owner x.context
    rw [sum_figure_windows (fun s => s.ofOwner x.owner x.context) rfl
        (Summary.ofOwner_addLaunch · · x.owner x.context) hfinished hinc,
      figure_span (fun s => s.ofOwner x.owner x.context) rfl
        (Summary.ofOwner_addLaunch · · x.owner x.context) henclosed] at heq
    refine (List.sum_lt_sum _ _ (fun y hy => ?_) ⟨x, hx, ?_⟩).ne heq
    · have hnonneg := (hfinished y hy).vuh_nonneg
      split
      · split
        · exact hnonneg
        · exact le_rfl
      · exact le_rfl
    · simp only [and_self, if_true, hcrosses]
      exact Launch.vuh_pos_of_crosses hcrosses
  · intro hnone
    refine ⟨fun context => ?_, fun owner context => ?_⟩
    · rw [sum_figure_windows (fun s => s.ofContext context) rfl
          (Summary.ofContext_addLaunch · · context) hfinished hinc,
        figure_span (fun s => s.ofContext context) rfl
          (Summary.ofContext_addLaunch · · context) henclosed]
      exact congrArg List.sum (List.map_congr_left fun x hx => by simp [hnone x hx])
    · rw [sum_figure_windows (fun s => s.ofOwner owner context) rfl
          (Summary.ofOwner_addLaunch · · owner context) hfinished hinc,
        figure_span (fun s => s.ofOwner owner context) rfl
          (Summary.ofOwner_addLaunch · · owner context) henclosed]
      exact congrArg List.sum (List.map_congr_left fun x hx => by simp [hnone x hx])

end BilledOnce

def single (started ended : ℤ) : Launches :=
  { active := fun _ => .none, nextId := 2
    history := [{ executionId := 1, context := "prod", owner := "team", engines := 1, vu := 10
                  launchId := 1, started, ended := some ended }] }

theorem finished_single {started ended : ℤ} (h : started ≤ ended) :
    ∀ x ∈ (single started ended).history, x.Finished := by
  intro x hx
  cases List.mem_singleton.mp hx
  exact ⟨⟨ended, rfl, h⟩, (10 : ℕ).cast_nonneg⟩

/-- A launch of two hours that begins at a boundary is billed in the second window. -/
theorem billedOnce_touching :
    (single (2 * hour) (4 * hour)).Enclosed 0 [2 * hour, 4 * hour] ∧
      (single (2 * hour) (4 * hour)).BilledOnce 0 [2 * hour, 4 * hour] := by
  have henclosed : (single (2 * hour) (4 * hour)).Enclosed 0 [2 * hour, 4 * hour] := by
    decide +kernel
  exact ⟨henclosed, (billedOnce_iff _ (finished_single (by decide +kernel)) 0 _
    (by decide +kernel) henclosed).mpr (by decide +kernel)⟩

/-- A launch from one hour to three is billed in neither the first two hours nor the next
two, where the four hours bill it two hours for each virtual user. -/
theorem not_billedOnce_straddling :
    (∀ x ∈ (single hour (3 * hour)).history, x.Finished) ∧
      [0, 2 * hour, 4 * hour].Pairwise (· < ·) ∧
      (single hour (3 * hour)).Enclosed 0 [2 * hour, 4 * hour] ∧
      ¬(single hour (3 * hour)).BilledOnce 0 [2 * hour, 4 * hour] := by
  refine ⟨finished_single (by decide +kernel), by decide +kernel, by decide +kernel, fun h => ?_⟩
  have heq := h.2 "team" "prod"
  revert heq
  decide +kernel

end Launches

end Honryu.Usage
