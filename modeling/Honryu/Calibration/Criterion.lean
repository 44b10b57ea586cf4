import Honryu.Calibration.Search
import Honryu.Report.Floors
import Honryu.Report.Requested

/-!
The criterion of a calibration: what is accepted as one, and what a step is classified by.

The grammar that accepts a criterion and the one that evaluates it differ. The first has five
subjects, any digits and points for a number, and any unit with any subject; the second can make
something of failures in percent and of percentiles in seconds or milliseconds. What it cannot make
anything of counts as failed.
-/

namespace Honryu.Calibration

open Compile (isBlank takeThreshold floorToViolation)
open Report (Report Op Blanks Number CriterionMatch criterionPattern criterionTriggered units figure
  endsNumber endsNumber_of_isBlank endsNumber_of_mem_units takeThreshold_append
  takeThreshold_eq_some matches_of_criterionPattern IsFloor matches_floorRewritten
  floorRewritten_of_not_isFloor floorRewritten_eq criterionTriggered_iff evaluateOne
  evaluateOne_of_matches evaluateCriteria evaluateCriteria_ne_nil engineImpaired shortOfVolume
  reportedPercentiles)

/-! ### Accepted criteria -/

inductive Subject
  | failures
  | p95
  | p50
  | avgRt
  | concurrency
  deriving DecidableEq

def Subject.text : Subject → List Char
  | .failures => "failures".toList
  | .p95 => "p95".toList
  | .p50 => "p50".toList
  | .avgRt => "avg-rt".toList
  | .concurrency => "concurrency".toList

inductive Comparison
  | gt
  | lt
  | ge
  | le
  deriving DecidableEq

def Comparison.text : Comparison → List Char
  | .gt => ['>']
  | .lt => ['<']
  | .ge => ['>', '=']
  | .le => ['<', '=']

inductive Measure
  | ms
  | s
  | percent
  | none
  deriving DecidableEq

def Measure.text : Measure → List Char
  | .ms => ['m', 's']
  | .s => ['s']
  | .percent => ['%']
  | .none => []

structure Expression where
  subject : Subject
  op : Comparison
  number : List Char
  unit : Measure
  deriving DecidableEq

def takeSubject (cs : List Char) : Option (Subject × List Char) :=
  [Subject.failures, .p95, .p50, .avgRt, .concurrency].findSome? fun s =>
    if s.text <+: cs then some (s, cs.drop s.text.length) else none

def takeComparison : List Char → Option (Comparison × List Char)
  | '>' :: '=' :: rest => some (.ge, rest)
  | '<' :: '=' :: rest => some (.le, rest)
  | '>' :: rest => some (.gt, rest)
  | '<' :: rest => some (.lt, rest)
  | _ => none

def isNumber (c : Char) : Bool := c.isDigit || c = '.'

def measureOf (cs : List Char) : Option Measure :=
  [Measure.ms, .s, .percent, .none].find? fun u => u.text = cs

/-- `criterionExpression`. -/
def criterionExpression (c : String) : Option Expression :=
  match takeSubject c.toList with
  | none => none
  | some (subject, rest) =>
      match takeComparison (rest.dropWhile isBlank) with
      | none => none
      | some (op, rest) =>
          let (number, rest) := (rest.dropWhile isBlank).span isNumber
          if number = [] then none
          else
            match measureOf rest with
            | none => none
            | some unit => some { subject, op, number, unit }

/-- `SplitCriterion`: the expressions of a criterion, which stand between commas or line
ends. -/
def splitCriterion (raw : String) : List String :=
  ((raw.toList.splitOnP fun c => c = ',' || c = '\n').map fun part =>
    Text.trimSpace (String.ofList part)).filter (· ≠ "")

inductive CriterionError
  | invalid
  | unsupported (expr : String)
  deriving DecidableEq

/-- The loop of `ValidateCriterion`. -/
def validateExpressions : List String → Except CriterionError Unit
  | [] => .ok ()
  | expr :: exprs =>
      if criterionExpression expr = none then .error (.unsupported expr)
      else validateExpressions exprs

/-- `ValidateCriterion` accepts a criterion of which every expression is in the grammar. -/
def validateCriterion (raw : String) : Except CriterionError Unit :=
  if splitCriterion raw = [] then .error .invalid else validateExpressions (splitCriterion raw)

def expressions (raw : String) : List Expression :=
  (splitCriterion raw).filterMap criterionExpression

theorem validateExpressions_eq_ok {exprs : List String} :
    validateExpressions exprs = .ok () ↔ ∀ e ∈ exprs, criterionExpression e ≠ none := by
  induction exprs with
  | nil => exact ⟨fun _ => nofun, fun _ => rfl⟩
  | cons e exprs ih => rw [validateExpressions, Checked.guard_eq_ok, ih, List.forall_mem_cons]

/-- `runClassifiedStep`: what a settled report says of a step. -/
def classify (criterion : String) (r : Report) : Classification :=
  if shortOfVolume r || engineImpaired r then .engineSaturated
  else if evaluateCriteria r (splitCriterion criterion) ≠ [] then .targetSaturated
  else .clean

/-! ### What an expression states -/

/-- The measurement of a report that an expression names, in the unit of the expression. A report
has no average response time. -/
def measurement (r : Report) : Subject → Measure → Option ℚ
  | .failures, .percent => some (r.errorRate * 100)
  | .failures, .none => some r.achieved.failed
  | .p95, .ms | .p95, .none => r.latency[(95 : ℚ)]?.map (· * 1000)
  | .p95, .s => r.latency[(95 : ℚ)]?
  | .p50, .ms | .p50, .none => r.latency[(50 : ℚ)]?.map (· * 1000)
  | .p50, .s => r.latency[(50 : ℚ)]?
  | .concurrency, .none => some r.achieved.concurrency
  | _, _ => none

def Comparison.holds (op : Comparison) (measured threshold : ℚ) : Prop :=
  match op with
  | .gt => threshold < measured
  | .ge => threshold ≤ measured
  | .lt => measured < threshold
  | .le => measured ≤ threshold

def Expression.Holds (x : Expression) (r : Report) : Prop :=
  ∃ measured ∈ measurement r x.subject x.unit, ∃ threshold ∈ Text.parseDecimal x.number,
    x.op.holds measured threshold

def Satisfied (criterion : String) (r : Report) : Prop := ∃ x ∈ expressions criterion, x.Holds r

/-! ### The text of an accepted expression -/

def Comparison.toOp : Comparison → Op
  | .gt => .gt
  | .ge => .ge
  | .lt => .lt
  | .le => .le

def Expression.parts (x : Expression) : CriterionMatch :=
  ⟨x.subject.text, x.op.toOp, x.number, x.unit.text⟩

theorem takeSubject_eq_some {cs rest : List Char} {s : Subject}
    (h : takeSubject cs = some (s, rest)) : cs = s.text ++ rest := by
  obtain ⟨s', -, hs'⟩ := List.exists_of_findSome?_eq_some h
  split at hs'
  · next hpre =>
    cases hs'
    exact (List.prefix_iff_eq_append.mp hpre).symm
  · cases hs'

theorem takeComparison_eq_some {cs rest : List Char} {op : Comparison}
    (h : takeComparison cs = some (op, rest)) : cs = op.text ++ rest := by
  unfold takeComparison at h
  split at h <;> first | cases h; rfl | cases h

theorem measureOf_eq_some {cs : List Char} {u : Measure} (h : measureOf cs = some u) :
    cs = u.text := by
  have hfound := List.find?_some h
  exact (of_decide_eq_true hfound).symm

/-- An expression that is accepted is written as a criterion is, but for its number, which is of
digits and points in any order. -/
theorem criterionExpression_eq_some {c : String} {x : Expression}
    (h : criterionExpression c = some x) :
    ∃ b : Blanks, b.Blank ∧ c.toList = x.parts.written b x.op.text ∧
      x.number ≠ [] ∧ ∀ a ∈ x.number, isNumber a = true := by
  unfold criterionExpression at h
  split at h
  · cases h
  · next subject rest hsubject =>
    split at h
    · cases h
    · next op rest' hop =>
      obtain ⟨b, hb, hrest⟩ := Text.exists_append_dropWhile isBlank rest
      obtain ⟨b', hb', hrest'⟩ := Text.exists_append_dropWhile isBlank rest'
      generalize rest'.dropWhile isBlank = tail at h hrest'
      simp only [List.span_eq_takeWhile_dropWhile] at h
      split at h
      · cases h
      · next hnumber =>
        split at h
        · cases h
        · next unit hunit =>
          cases h
          refine ⟨⟨[], b, b', [], []⟩, ⟨nofun, hb, hb', nofun, nofun⟩, ?_, hnumber,
            fun a ha => List.mem_takeWhile_imp ha⟩
          rw [takeSubject_eq_some hsubject, hrest, takeComparison_eq_some hop, hrest']
          simp [Expression.parts, CriterionMatch.written, ← measureOf_eq_some hunit]

/-! ### What the evaluator reads -/

/-- A number that the evaluator reads: digits, and digits after a point if there is one. -/
def WellFormed (number : List Char) : Prop := takeThreshold number = some (number, [])

instance (number : List Char) : Decidable (WellFormed number) :=
  inferInstanceAs (Decidable (_ = _))

theorem wellFormed_iff {number : List Char} : WellFormed number ↔ Number number := by
  constructor
  · exact fun h => (takeThreshold_eq_some h).1
  · intro h
    have hread : takeThreshold (number ++ []) = some (number, []) := takeThreshold_append h nofun
    rwa [List.append_nil] at hread

theorem isNumber_eq_false_iff {c : Char} : isNumber c = false ↔ endsNumber c := by
  simp [isNumber, endsNumber]

theorem isNumber_of_number {number : List Char} (h : Number number) :
    ∀ a ∈ number, isNumber a = true := by
  have hdigit : ∀ a : Char, a.isDigit = true → isNumber a = true := by
    intro a ha
    simp [isNumber, ha]
  cases h with
  | whole _ hall => exact fun a ha => hdigit a (hall a ha)
  | point _ hall _ hpart =>
      intro a ha
      obtain ha | ha := List.mem_append.mp ha
      · exact hdigit a (hall a ha)
      · obtain rfl | ha := List.mem_cons.mp ha
        · decide
        · exact hdigit a (hpart a ha)

/-- The number of a criterion is the last digits and points of its text. -/
theorem rtakeWhile_written {m : CriterionMatch} {b : Blanks} {op : List Char} (hb : b.Blank)
    (hop : op ∈ m.op.spellings) (hunit : m.unit ∈ units)
    (hnumber : ∀ a ∈ m.threshold, isNumber a = true) (hne : m.threshold ≠ []) :
    ((m.written b op).rdropWhile (!isNumber ·)).rtakeWhile isNumber = m.threshold := by
  have hafter : ∀ a ∈ b.beforeUnit ++ (m.unit ++ b.stop), isNumber a = false := by
    intro a ha
    rw [isNumber_eq_false_iff]
    simp only [List.mem_append] at ha
    obtain ha | ha | ha := ha
    · exact endsNumber_of_isBlank (hb.beforeUnit a ha)
    · exact (endsNumber_of_mem_units hunit a ha).1
    · exact endsNumber_of_isBlank (hb.stop a ha)
  have hbefore : ∀ front : List Char,
      ∀ a ∈ (b.afterOp.reverse ++ (op.reverse ++ front)).head?, isNumber a = false := by
    intro front
    refine Text.forall_head?_append ?_ ?_
    · exact fun a ha => isNumber_eq_false_iff.mpr
        (endsNumber_of_isBlank (hb.afterOp a (List.mem_reverse.mp ha)))
    · generalize m.op = o at hop
      cases o <;> simp [Op.spellings] at hop <;> rcases hop with rfl | rfl <;>
        rintro a ⟨⟩ <;> decide
  obtain ⟨n, number, hn⟩ := List.exists_cons_of_ne_nil (List.reverse_ne_nil_iff.mpr hne)
  have hn' : isNumber n = true := hnumber n (List.mem_reverse.mp (hn ▸ List.mem_cons_self))
  have htext : (m.written b op).reverse = (b.beforeUnit ++ (m.unit ++ b.stop)).reverse ++
      (m.threshold.reverse ++ (b.afterOp.reverse ++ (op.reverse ++
        (b.start ++ (m.subject ++ b.beforeOp)).reverse))) := by
    simp [CriterionMatch.written]
  rw [List.rtakeWhile, List.rdropWhile, List.reverse_reverse, htext, Text.dropWhile_append]
  · have hspan := Text.span_append (p := isNumber) (w := m.threshold.reverse)
      (fun a ha => hnumber a (List.mem_reverse.mp ha))
      (hbefore (b.start ++ (m.subject ++ b.beforeOp)).reverse)
    rw [List.span_eq_takeWhile_dropWhile] at hspan
    rw [(Prod.mk.inj hspan).1, List.reverse_reverse]
  · intro a ha
    rw [hafter a (List.mem_reverse.mp ha)]
    rfl
  · intro a ha
    rw [hn] at ha
    cases ha
    rw [hn']
    rfl

section Reads

variable {c : String} {x : Expression}

theorem subject_text_ne_nil (s : Subject) : s.text ≠ [] := by
  cases s <;> exact List.cons_ne_nil _ _

theorem text_mem_spellings (op : Comparison) : op.text ∈ op.toOp.spellings := by
  cases op <;> exact List.mem_cons_self

theorem text_mem_units (u : Measure) : u.text ∈ units := by
  cases u <;> decide

/-- An accepted expression whose number is well formed is read as it is written. -/
theorem matches_parts (h : criterionExpression c = some x) (hwell : WellFormed x.number) :
    x.parts.Matches c.toList := by
  obtain ⟨b, hb, htext, -, -⟩ := criterionExpression_eq_some h
  refine { subject_ne := subject_text_ne_nil _, subject := ?_, threshold := wellFormed_iff.mp hwell
           unit := text_mem_units _, text := ⟨b, hb, _, text_mem_spellings _, htext⟩ }
  have hsubject : ∀ s : Subject, s.text.all Compile.isSubject = true := by
    intro s
    cases s <;> decide
  exact List.all_eq_true.mp (hsubject x.subject)

theorem wellFormed_of_matches {m : CriterionMatch} (h : criterionExpression c = some x)
    (hm : m.Matches c.toList) : WellFormed x.number := by
  obtain ⟨b, hb, htext, hne, hnumber⟩ := criterionExpression_eq_some h
  obtain ⟨b', hb', op, hop, htext'⟩ := hm.text
  have hsame : x.number = m.threshold := by
    rw [← rtakeWhile_written hb' hop hm.unit (isNumber_of_number hm.threshold) ?_, ← htext', htext]
    · exact (rtakeWhile_written (m := x.parts) hb (text_mem_spellings _) (text_mem_units _)
        hnumber hne).symm
    · have hnumber' := hm.threshold
      generalize m.threshold = number at hnumber'
      cases hnumber' with
      | whole hne _ => exact hne
      | point => simp
  rw [wellFormed_iff, hsame]
  exact hm.threshold

/-- An expression fails whose number is not well formed, or of whose figure the report has none.
Any other fails if the condition of failure holds that it is turned into. -/
theorem isSome_evaluateOne (h : criterionExpression c = some x) (r : Report) :
    (evaluateOne r (floorToViolation c)).isSome = true ↔
      (WellFormed x.number → ∀ f t, figure r x.subject.text x.unit.text = some f →
        Text.parseDecimal x.number = some t → x.op.toOp.inverted.Holds f t) := by
  rw [← floorRewritten_eq]
  by_cases hwell : WellFormed x.number
  · obtain ⟨t, ht⟩ := (wellFormed_iff.mp hwell).parseDecimal
    rw [evaluateOne_of_matches (matches_floorRewritten (matches_parts h hwell)) ht]
    simp only [Expression.parts]
    cases figure r x.subject.text x.unit.text with
    | none => simp
    | some f => cases htriggered : criterionTriggered f x.op.toOp.inverted t <;>
        simp [hwell, ht, ← criterionTriggered_iff, htriggered]
  · have hnone : criterionPattern c = none := by
      rw [Option.eq_none_iff_forall_ne_some]
      exact fun m hm => hwell (wellFormed_of_matches h (matches_of_criterionPattern hm))
    have hfloor : ¬IsFloor c := fun ⟨_, hm, _⟩ => hwell (wellFormed_of_matches h hm)
    rw [floorRewritten_of_not_isFloor hfloor, evaluateOne, hnone]
    exact ⟨fun _ hwell' => absurd hwell' hwell, fun _ => rfl⟩

end Reads

def Comparison.isFloor : Comparison → Bool
  | .lt | .le => true
  | .gt | .ge => false

theorem Comparison.isFloor_toOp (op : Comparison) : op.toOp.isFloor = op.isFloor := by
  cases op <;> rfl

theorem Comparison.holds_toOp (op : Comparison) (measured threshold : ℚ) :
    op.toOp.Holds measured threshold ↔ op.holds measured threshold := by
  cases op <;> rfl

def Subject.percentile : Subject → Option ℚ
  | .p95 => some 95
  | .p50 => some 50
  | _ => none

theorem toLower_text (s : Subject) : Text.toLower (String.ofList s.text) = String.ofList s.text := by
  cases s <;> decide +kernel

theorem figure_percentile (r : Report) {s : Subject} {pct : ℚ} (hpct : s.percentile = some pct)
    (unit : List Char) :
    figure r s.text unit =
      if unit = ['m', 's'] ∨ unit = [] then (r.latency[pct]?).map (· * 1000)
      else if unit = ['s'] then r.latency[pct]?
      else none := by
  have hname : ∃ cs, s.text = 'p' :: cs ∧ Text.parseFloat cs = some pct := by
    cases s <;> cases hpct
    · exact ⟨['9', '5'], rfl, by decide +kernel⟩
    · exact ⟨['5', '0'], rfl, by decide +kernel⟩
  have hnot : ¬(String.ofList s.text = "failures" ∨ String.ofList s.text = "fail") := by
    cases s <;> cases hpct <;> decide +kernel
  obtain ⟨cs, hname, hparse⟩ := hname
  rw [figure, toLower_text]
  simp only [if_neg hnot, String.toList_ofList]
  simp only [hname, hparse, Option.bind_some]

/-- The evaluator knows failures in percent, and percentiles as times. -/
theorem figure_text (r : Report) (s : Subject) (u : Measure) :
    figure r s.text u.text =
      if s = .failures ∧ u = .percent ∨ s.percentile.isSome = true ∧ u ≠ .percent then
        measurement r s u
      else none := by
  cases s with
  | p95 =>
      rw [figure_percentile r rfl]
      cases u <;> rfl
  | p50 =>
      rw [figure_percentile r rfl]
      cases u <;> rfl
  | failures =>
      rw [figure, toLower_text]
      cases u <;> rfl
  | avgRt =>
      rw [figure, toLower_text]
      cases u <;> rfl
  | concurrency =>
      rw [figure, toLower_text]
      cases u <;> rfl

/-! ### Whether target saturation is real -/

def Carries (r : Report) (carried : List ℚ) : Prop :=
  ∀ pct ∈ carried, (r.latency[pct]?).isSome = true

/-- An expression that reads as it is meant in every report that has certain percentiles: a
ceiling with a well formed number, on failures in percent or on one of the percentiles in seconds or
milliseconds. -/
def Expression.Plain (carried : List ℚ) (x : Expression) : Prop :=
  x.op.isFloor = false ∧ WellFormed x.number ∧
    (x.subject = .failures ∧ x.unit = .percent ∨
      ∃ pct ∈ x.subject.percentile, pct ∈ carried ∧ x.unit ≠ .percent)

section Real

variable {criterion : String} {r : Report} {carried : List ℚ} {x : Expression}

/-- The measurement of a percentile is there with the percentile. -/
theorem measurement_percentile {s : Subject} {u : Measure} {pct : ℚ} (hpct : s.percentile = some pct)
    (hunit : u ≠ .percent) :
    measurement r s u = (r.latency[pct]?).map fun v => if u = .s then v else v * 1000 := by
  cases s <;> cases hpct <;> cases u <;> first | exact absurd rfl hunit | simp [measurement]

theorem Expression.Plain.holds {c : String} (hplain : x.Plain carried)
    (hcarries : Carries r carried) (hc : criterionExpression c = some x)
    (hfails : (evaluateOne r (floorToViolation c)).isSome = true) : x.Holds r := by
  obtain ⟨hceiling, hwell, hsubject⟩ := hplain
  obtain ⟨t, ht⟩ := (wellFormed_iff.mp hwell).parseDecimal
  obtain ⟨f, hf, hfigure⟩ : ∃ f, measurement r x.subject x.unit = some f ∧
      figure r x.subject.text x.unit.text = some f := by
    rw [figure_text]
    obtain ⟨hs, hu⟩ | ⟨pct, hpct, hmem, hunit⟩ := hsubject
    · exact ⟨_, by rw [hs, hu]; rfl, by simp [hs, hu, measurement]⟩
    · obtain ⟨v, hv⟩ := Option.isSome_iff_exists.mp (hcarries pct hmem)
      rw [measurement_percentile hpct hunit, hv]
      simp [Option.mem_def.mp hpct, hunit]
  have hholds := (isSome_evaluateOne hc r).mp hfails hwell f t hfigure ht
  rw [Report.Op.inverted_of_not_isFloor (x.op.isFloor_toOp.trans hceiling), x.op.holds_toOp]
    at hholds
  exact ⟨f, hf, t, ht, hholds⟩

/-- The report without the percentiles that it need not have, of a run in which the engine kept
up. -/
def stripped (carried : List ℚ) (r : Report) : Report :=
  { r with
    latency := r.latency.filter fun pct _ => carried.contains pct
    requested := { r.requested with throughput := 0 }
    attribution := { r.attribution with engine := 0 } }

theorem latency_stripped (pct : ℚ) :
    (stripped carried r).latency[pct]? = if pct ∈ carried then r.latency[pct]? else none := by
  rw [stripped, Std.ExtTreeMap.getElem?_filter']
  by_cases hmem : pct ∈ carried
  · rw [if_pos hmem]
    cases r.latency[pct]? <;> simp [Option.filter, hmem]
  · simp [hmem]

theorem carries_stripped (h : Carries r carried) : Carries (stripped carried r) carried := by
  intro pct hmem
  rw [latency_stripped, if_pos hmem]
  exact h pct hmem

theorem classify_stripped :
    classify criterion (stripped carried r) = .targetSaturated ↔
      evaluateCriteria (stripped carried r) (splitCriterion criterion) ≠ [] := by
  have hvolume : shortOfVolume (stripped carried r) = false := if_pos le_rfl
  have hengine : engineImpaired (stripped carried r) = false := if_pos rfl
  rw [classify, hvolume, hengine]
  simp

/-- A measurement of the stripped report is one of the report. -/
theorem measurement_stripped {s : Subject} {u : Measure} {measured : ℚ}
    (h : measured ∈ measurement (stripped carried r) s u) : measured ∈ measurement r s u := by
  have hlatency : ∀ pct v : ℚ, (stripped carried r).latency[pct]? = some v →
      r.latency[pct]? = some v := by
    intro pct v hv
    rw [latency_stripped] at hv
    split at hv
    · exact hv
    · cases hv
  have hmap : ∀ pct : ℚ, measured ∈ (stripped carried r).latency[pct]?.map (· * 1000) →
      measured ∈ r.latency[pct]?.map (· * 1000) := by
    intro pct hv
    obtain ⟨v, hlat, rfl⟩ := Option.map_eq_some_iff.mp hv
    exact Option.map_eq_some_iff.mpr ⟨v, hlatency pct v hlat, rfl⟩
  cases s <;> cases u <;>
    first
    | exact h
    | exact hmap _ h
    | exact hlatency _ _ h

theorem Expression.Holds.of_stripped (h : x.Holds (stripped carried r)) : x.Holds r := by
  obtain ⟨measured, hmeasured, rest⟩ := h
  exact ⟨measured, measurement_stripped hmeasured, rest⟩

/-- An expression that is not plain fails in the stripped report although it does not hold. -/
theorem isSome_evaluateOne_stripped {c : String} (hc : criterionExpression c = some x)
    (hplain : ¬x.Plain carried) (hnot : ¬x.Holds r) :
    (evaluateOne (stripped carried r) (floorToViolation c)).isSome = true := by
  refine (isSome_evaluateOne hc _).mpr fun hwell f t hf ht => ?_
  rw [figure_text] at hf
  split at hf
  · next hknown =>
    cases hfloor : x.op.isFloor with
    | true =>
        -- the condition of failure that a floor is turned into is that the floor does not hold
        rw [x.op.toOp.holds_inverted (x.op.isFloor_toOp.trans hfloor), x.op.holds_toOp]
        exact fun hholds => hnot ⟨f, measurement_stripped hf, t, ht, hholds⟩
    | false =>
        refine absurd ⟨hfloor, hwell, hknown.imp_right ?_⟩ hplain
        rintro ⟨hpct, hunit⟩
        obtain ⟨pct, hpct⟩ := Option.isSome_iff_exists.mp hpct
        refine ⟨pct, hpct, ?_, hunit⟩
        by_contra hmem
        rw [measurement_percentile hpct hunit, latency_stripped, if_neg hmem] at hf
        cases hf
  · cases hf

theorem exists_criterionExpression (hvalid : validateCriterion criterion = .ok ()) {c : String}
    (hc : c ∈ splitCriterion criterion) :
    ∃ x ∈ expressions criterion, criterionExpression c = some x := by
  rw [validateCriterion] at hvalid
  split at hvalid
  · cases hvalid
  · obtain ⟨x, hx⟩ := Option.ne_none_iff_exists'.mp (validateExpressions_eq_ok.mp hvalid c hc)
    exact ⟨x, List.mem_filterMap.mpr ⟨c, hc, hx⟩, hx⟩

theorem evaluateCriteria_of_classify (h : classify criterion r = .targetSaturated) :
    evaluateCriteria r (splitCriterion criterion) ≠ [] := by
  rw [classify] at h
  split_ifs at h with _ hfailed
  exact hfailed

end Real

/-- The report of a run of a minute in which a hundred requests a second were answered in ten
milliseconds each. -/
def healthyReport : Report :=
  { executionId := 1, scenarioId := 1, runId := 1, engine := ⟨"jmeter"⟩, cluster := ""
    correlationId := "", startedAt := 0, endedAt := 60 * 10 ^ 9, outcome := .passed
    requested := ⟨1, 100, 60, [], 6000, 0⟩, achieved := ⟨1, 100, 60, [], 6000, 0⟩, errorRate := 0
    latency := .ofList (reportedPercentiles.map fun pct => (pct, (1 / 100 : ℚ)))
    attribution := ⟨0, 0, 0⟩, errors := [], labels := [], soakTrend := none }

def sluggishReport : Report :=
  { healthyReport with latency := .ofList (reportedPercentiles.map fun pct => (pct, (1 : ℚ))) }

end Honryu.Calibration
