import Honryu.Report.Criteria

/-!
The grammar of criteria, and what the rewriting of floors does to them.

`Matches` is the language of `criterionPattern`, part by part as the regular expression has them;
`criterionPattern_eq_some_iff` says that the pattern finds exactly the texts of it, and what it
finds. A floor is such a text with one of two operators, and both rewritings make of it the same
parts with the operator inverted. What a criterion compares is said with `figure`, the figure of the
report in the unit that the criterion is written in.
-/

namespace Honryu.Report

open Compile (isBlank isSubject takeThreshold takeUnit floorToViolation floorCriteriaToViolation)

/-! ### The grammar -/

def Op.spellings : Op → List (List Char)
  | .ge => [['>', '=']]
  | .le => [['<', '=']]
  | .eq => [['=', '='], ['=']]
  | .gt => [['>']]
  | .lt => [['<']]

/-- `[0-9]+(?:\.[0-9]+)?`. -/
inductive Number : List Char → Prop
  | whole {digits : List Char} : digits ≠ [] → (∀ c ∈ digits, c.isDigit = true) → Number digits
  | point {digits part : List Char} : digits ≠ [] → (∀ c ∈ digits, c.isDigit = true) →
      part ≠ [] → (∀ c ∈ part, c.isDigit = true) → Number (digits ++ '.' :: part)

def units : List (List Char) := [[], ['%'], ['m', 's'], ['s']]

/-- The blanks of a criterion: before it, around its operator, before its unit and after it. -/
structure Blanks where
  start : List Char
  beforeOp : List Char
  afterOp : List Char
  beforeUnit : List Char
  stop : List Char

structure Blanks.Blank (b : Blanks) : Prop where
  start : ∀ c ∈ b.start, isBlank c = true
  beforeOp : ∀ c ∈ b.beforeOp, isBlank c = true
  afterOp : ∀ c ∈ b.afterOp, isBlank c = true
  beforeUnit : ∀ c ∈ b.beforeUnit, isBlank c = true
  stop : ∀ c ∈ b.stop, isBlank c = true

def CriterionMatch.written (m : CriterionMatch) (b : Blanks) (op : List Char) : List Char :=
  b.start ++ (m.subject ++ (b.beforeOp ++ (op ++ (b.afterOp ++ (m.threshold ++
    (b.beforeUnit ++ (m.unit ++ b.stop)))))))

structure CriterionMatch.WellFormed (m : CriterionMatch) : Prop where
  subject_ne : m.subject ≠ []
  subject : ∀ c ∈ m.subject, isSubject c = true
  threshold : Number m.threshold
  unit : m.unit ∈ units

theorem CriterionMatch.WellFormed.withOp {m : CriterionMatch} (h : m.WellFormed) (op : Op) :
    { m with op }.WellFormed :=
  ⟨h.subject_ne, h.subject, h.threshold, h.unit⟩

/-- The text is one that the regular expression matches with these parts. -/
structure CriterionMatch.Matches (m : CriterionMatch) (cs : List Char) : Prop extends
    m.WellFormed where
  text : ∃ b : Blanks, b.Blank ∧ ∃ op ∈ m.op.spellings, cs = m.written b op

/-! ### Kinds of characters -/

theorem isBlank_iff {c : Char} :
    isBlank c = true ↔ c = '\t' ∨ c = '\n' ∨ c = '\x0c' ∨ c = '\r' ∨ c = ' ' := by
  simp [isBlank]

theorem not_isSubject_of_isBlank {c : Char} (h : isBlank c = true) : isSubject c = false := by
  rcases isBlank_iff.mp h with rfl | rfl | rfl | rfl | rfl <;> decide

theorem not_isBlank_of_isSubject {c : Char} (h : isSubject c = true) : isBlank c = false := by
  cases hblank : isBlank c with
  | false => rfl
  | true => exact absurd h (by simp [not_isSubject_of_isBlank hblank])

theorem isSubject_of_isDigit {c : Char} (h : c.isDigit = true) : isSubject c = true := by
  simp [isSubject, Char.isAlphanum, h]

def endsNumber (c : Char) : Prop := c.isDigit = false ∧ c ≠ '.'

theorem endsNumber_of_isBlank {c : Char} (h : isBlank c = true) : endsNumber c := by
  rcases isBlank_iff.mp h with rfl | rfl | rfl | rfl | rfl <;> exact ⟨by decide, by decide⟩

theorem Number.head {number : List Char} (h : Number number) (rest : List Char) :
    ∀ c ∈ (number ++ rest).head?, c.isDigit = true := by
  have hdigits : ∀ {digits tail : List Char}, digits ≠ [] → (∀ c ∈ digits, c.isDigit = true) →
      ∀ c ∈ (digits ++ tail).head?, c.isDigit = true := by
    intro digits tail hne hall
    obtain ⟨d, digits, rfl⟩ := List.exists_cons_of_ne_nil hne
    exact fun c hc => Option.some.inj hc ▸ hall d List.mem_cons_self
  cases h with
  | whole hne hall => exact hdigits hne hall
  | point hne hall =>
      rw [List.append_assoc]
      exact hdigits hne hall

/-! ### The parts are found -/

theorem takeOp_append {op : Op} {text rest : List Char} (h : text ∈ op.spellings)
    (hrest : ∀ c ∈ rest.head?, c ≠ '=') : takeOp (text ++ rest) = some (op, rest) := by
  cases rest with
  | nil => cases op <;> simp [Op.spellings] at h <;> rcases h with rfl | rfl <;> rfl
  | cons c rest =>
      have hc := hrest c rfl
      cases op <;> simp [Op.spellings] at h <;> rcases h with rfl | rfl <;> simp [takeOp, hc]

theorem takeOp_eq_some {op : Op} {cs rest : List Char} (h : takeOp cs = some (op, rest)) :
    ∃ text ∈ op.spellings, cs = text ++ rest := by
  unfold takeOp at h
  split at h <;> cases h <;> simp [Op.spellings]

theorem takeThreshold_append {number rest : List Char} (h : Number number)
    (hrest : ∀ c ∈ rest.head?, endsNumber c) :
    takeThreshold (number ++ rest) = some (number, rest) := by
  have hstop : ∀ c ∈ rest.head?, c.isDigit = false := fun c hc => (hrest c hc).1
  cases h with
  | whole hne hall =>
      rw [takeThreshold, Text.span_append hall hstop]
      obtain ⟨d, digits, rfl⟩ := List.exists_cons_of_ne_nil hne
      cases rest with
      | nil => rfl
      | cons c rest => simp [(hrest c rfl).2]
  | @point digits part hne hall hne' hall' =>
      have hpoint : ∀ c ∈ ('.' :: (part ++ rest)).head?, c.isDigit = false := by
        rintro c ⟨⟩
        decide
      rw [List.append_assoc, List.cons_append, takeThreshold, Text.span_append hall hpoint]
      obtain ⟨d, digits, rfl⟩ := List.exists_cons_of_ne_nil hne
      obtain ⟨d', part, rfl⟩ := List.exists_cons_of_ne_nil hne'
      simp only [Text.span_append hall' hstop]

theorem takeThreshold_eq_some {cs number rest : List Char}
    (h : takeThreshold cs = some (number, rest)) : Number number ∧ cs = number ++ rest := by
  have hdigits : ∀ l : List Char, ∀ c ∈ l.takeWhile Char.isDigit, c.isDigit = true :=
    fun l c hc => List.mem_takeWhile_imp hc
  have hsplit : ∀ l : List Char, l.takeWhile Char.isDigit ++ l.dropWhile Char.isDigit = l :=
    fun l => List.takeWhile_append_dropWhile
  simp only [takeThreshold, List.span_eq_takeWhile_dropWhile] at h
  split at h
  · cases h
  · next part hne heq =>
    obtain ⟨hwhole, htail⟩ := Prod.mk.inj heq
    split at h
    · cases h
    · next rest' hne' heq' =>
      obtain ⟨hpart, hrest⟩ := Prod.mk.inj heq'
      cases h
      subst hwhole hpart hrest
      refine ⟨.point (fun hnil => hne hnil) (hdigits cs)
        (fun hnil => hne' hnil) (hdigits part), ?_⟩
      rw [List.append_assoc, List.cons_append, hsplit part, ← htail, hsplit cs]
  · next hne hpoint heq =>
    obtain ⟨hwhole, htail⟩ := Prod.mk.inj heq
    cases h
    subst hwhole htail
    exact ⟨.whole (fun hnil => hne hnil) (hdigits cs), (hsplit cs).symm⟩

theorem takeUnit_append {unit rest : List Char} (h : unit ∈ units)
    (hrest : ∀ c ∈ rest.head?, isBlank c = true) : takeUnit (unit ++ rest) = (unit, rest) := by
  simp only [units, List.mem_cons, List.not_mem_nil, or_false] at h
  rcases h with rfl | rfl | rfl | rfl
  · cases rest with
    | nil => rfl
    | cons c rest =>
        rcases isBlank_iff.mp (hrest c rfl) with rfl | rfl | rfl | rfl | rfl <;> rfl
  · rfl
  · rfl
  · rfl

theorem takeUnit_eq {cs unit rest : List Char} (h : takeUnit cs = (unit, rest)) :
    unit ∈ units ∧ cs = unit ++ rest := by
  unfold takeUnit at h
  split at h <;> cases h <;> simp [units]

/-! ### The pattern finds the texts of the grammar -/

theorem Op.head_spelling {op : Op} {text : List Char} (h : text ∈ op.spellings)
    (rest : List Char) :
    ∀ c ∈ (text ++ rest).head?, isBlank c = false ∧ isSubject c = false := by
  cases op <;> simp [Op.spellings] at h <;> rcases h with rfl | rfl <;> rintro c ⟨⟩ <;> decide

theorem endsNumber_of_mem_units {unit : List Char} (h : unit ∈ units) :
    ∀ c ∈ unit, endsNumber c ∧ isBlank c = false := by
  simp only [units, List.mem_cons, List.not_mem_nil, or_false] at h
  rcases h with rfl | rfl | rfl | rfl <;> simp [endsNumber] <;> decide

/-- Once the blanks before it are dropped, the unit and the blanks after it are all that is left of
a criterion. Without a unit there is nothing left. -/
theorem takeUnit_dropWhile {unit b b' : List Char} (hunit : unit ∈ units)
    (hb : ∀ c ∈ b, isBlank c = true) (hb' : ∀ c ∈ b', isBlank c = true) :
    ∃ rest, takeUnit ((b ++ (unit ++ b')).dropWhile isBlank) = (unit, rest) ∧
      rest.all isBlank = true := by
  cases hcons : unit with
  | nil =>
      refine ⟨[], ?_, rfl⟩
      rw [List.nil_append, List.dropWhile_eq_nil_iff.mpr fun c hc =>
        (List.mem_append.mp hc).elim (hb c) (hb' c)]
      rfl
  | cons u unit' =>
      have hhead : ∀ c ∈ (unit ++ b').head?, isBlank c = false := by
        rw [hcons]
        rintro c ⟨⟩
        exact (endsNumber_of_mem_units hunit u (hcons ▸ List.mem_cons_self)).2
      refine ⟨b', ?_, List.all_eq_true.mpr hb'⟩
      rw [← hcons, Text.dropWhile_append hb hhead]
      exact takeUnit_append hunit fun c hc => hb' c (List.mem_of_mem_head? hc)

theorem criterionPattern_of_matches {m : CriterionMatch} {c : String}
    (h : m.Matches c.toList) : criterionPattern c = some m := by
  obtain ⟨b, hb, op, hop, htext⟩ := h.text
  have hsubject : (c.toList.dropWhile isBlank).span isSubject = (m.subject, b.beforeOp ++ (op ++
      (b.afterOp ++ (m.threshold ++ (b.beforeUnit ++ (m.unit ++ b.stop)))))) := by
    rw [htext, CriterionMatch.written, Text.dropWhile_append hb.start]
    · refine Text.span_append h.subject (Text.forall_head?_append ?_ ?_)
      · exact fun c hc => not_isSubject_of_isBlank (hb.beforeOp c hc)
      · exact fun c hc => (Op.head_spelling hop _ c hc).2
    · obtain ⟨s, subject, hs⟩ := List.exists_cons_of_ne_nil h.subject_ne
      rw [hs]
      rintro c ⟨⟩
      exact not_isBlank_of_isSubject (h.subject s (hs ▸ List.mem_cons_self))
  have hbefore : ∀ rest, (b.beforeOp ++ (op ++ rest)).dropWhile isBlank = op ++ rest := fun rest =>
    Text.dropWhile_append hb.beforeOp fun c hc => (Op.head_spelling hop _ c hc).1
  have hafter : ∀ rest, (b.afterOp ++ (m.threshold ++ rest)).dropWhile isBlank =
      m.threshold ++ rest := fun rest =>
    Text.dropWhile_append hb.afterOp fun c hc =>
      not_isBlank_of_isSubject (isSubject_of_isDigit (h.threshold.head _ c hc))
  have hop : ∀ rest, takeOp (op ++ (b.afterOp ++ (m.threshold ++ rest))) =
      some (m.op, b.afterOp ++ (m.threshold ++ rest)) := by
    intro rest
    refine takeOp_append hop (Text.forall_head?_append ?_ ?_)
    · rintro c hc rfl
      exact absurd (hb.afterOp _ hc) (by decide)
    · rintro c hc rfl
      exact absurd (h.threshold.head _ _ hc) (by decide)
  have hnumber : takeThreshold (m.threshold ++ (b.beforeUnit ++ (m.unit ++ b.stop))) =
      some (m.threshold, b.beforeUnit ++ (m.unit ++ b.stop)) := by
    refine takeThreshold_append h.threshold (Text.forall_head?_append ?_
      (Text.forall_head?_append ?_ ?_))
    · exact fun c hc => endsNumber_of_isBlank (hb.beforeUnit c hc)
    · exact fun c hc => (endsNumber_of_mem_units h.unit c hc).1
    · exact fun c hc => endsNumber_of_isBlank (hb.stop c (List.mem_of_mem_head? hc))
  obtain ⟨rest, hunit, hrest⟩ := takeUnit_dropWhile h.unit hb.beforeUnit hb.stop
  rw [criterionPattern, hsubject]
  simp only [h.subject_ne, if_false, hbefore, hop, hafter, hnumber, hunit, hrest, if_true]

theorem matches_of_criterionPattern {m : CriterionMatch} {c : String}
    (h : criterionPattern c = some m) : m.Matches c.toList := by
  obtain ⟨start, hstart, htext⟩ := Text.exists_append_dropWhile isBlank c.toList
  simp only [criterionPattern, List.span_eq_takeWhile_dropWhile] at h
  generalize c.toList.dropWhile isBlank = text at h htext
  have hsubject : ∀ a ∈ text.takeWhile isSubject, isSubject a = true :=
    fun a ha => List.mem_takeWhile_imp ha
  have hsplit := (List.takeWhile_append_dropWhile (p := isSubject) (l := text)).symm
  generalize text.takeWhile isSubject = subject, text.dropWhile isSubject = rest at h hsubject hsplit
  split at h
  · cases h
  · next hne =>
    split at h
    · cases h
    · next op rest₁ hop =>
      split at h
      · cases h
      · next threshold rest₂ hthreshold =>
        generalize hlast : takeUnit (rest₂.dropWhile isBlank) = last at h
        obtain ⟨unit, stop⟩ := last
        split at h
        · next hblank =>
          cases h
          obtain ⟨beforeOp, hbeforeOp, hrest⟩ := Text.exists_append_dropWhile isBlank rest
          obtain ⟨afterOp, hafterOp, hrest₁⟩ := Text.exists_append_dropWhile isBlank rest₁
          obtain ⟨beforeUnit, hbeforeUnit, hrest₂⟩ := Text.exists_append_dropWhile isBlank rest₂
          obtain ⟨text', htext', hspelled⟩ := takeOp_eq_some hop
          obtain ⟨hnumber, hread⟩ := takeThreshold_eq_some hthreshold
          obtain ⟨hunit, hstop⟩ := takeUnit_eq hlast
          refine ⟨⟨hne, hsubject, hnumber, hunit⟩,
            ⟨start, beforeOp, afterOp, beforeUnit, stop⟩,
            ⟨hstart, hbeforeOp, hafterOp, hbeforeUnit, List.all_eq_true.mp hblank⟩,
            text', htext', ?_⟩
          rw [CriterionMatch.written, htext, hsplit, hrest, hspelled, hrest₁, hread, hrest₂, hstop]
        · cases h

/-- The pattern finds the texts of the grammar, with their parts. -/
theorem criterionPattern_eq_some_iff {m : CriterionMatch} {c : String} :
    criterionPattern c = some m ↔ m.Matches c.toList :=
  ⟨matches_of_criterionPattern, criterionPattern_of_matches⟩

theorem CriterionMatch.Matches.unique {m m' : CriterionMatch} {c : String}
    (h : m.Matches c.toList) (h' : m'.Matches c.toList) : m = m' :=
  Option.some.inj ((criterionPattern_of_matches h).symm.trans (criterionPattern_of_matches h'))

/-! ### Floors -/

def Op.isFloor : Op → Bool
  | .lt | .le => true
  | .ge | .gt | .eq => false

/-- The operator of the condition of failure that a criterion is turned into. -/
def Op.inverted : Op → Op
  | .lt => .ge
  | .le => .gt
  | op => op

def IsFloor (c : String) : Prop := ∃ m : CriterionMatch, m.Matches c.toList ∧ m.op.isFloor = true

theorem Op.inverted_of_not_isFloor {op : Op} (h : op.isFloor = false) : op.inverted = op := by
  cases op <;> first | rfl | cases h

theorem Op.isFloor_inverted (op : Op) : op.inverted.isFloor = false := by
  cases op <;> rfl

theorem takeFloor_eq (cs : List Char) :
    takeFloor cs = (takeOp cs).filter fun p => p.1.isFloor := by
  fun_cases takeOp cs <;> simp [takeFloor, Op.isFloor, Option.filter]

theorem floorCriterion_eq (c : String) :
    floorCriterion c = (criterionPattern c).filter fun m => m.op.isFloor := by
  simp only [floorCriterion, criterionPattern, takeFloor_eq]
  generalize (c.toList.dropWhile isBlank).span isSubject = s
  by_cases hsubject : s.1 = []
  · simp [hsubject]
  · simp only [hsubject, if_false]
    cases takeOp (s.2.dropWhile isBlank) with
    | none => rfl
    | some p =>
        cases hnumber : takeThreshold (p.2.dropWhile isBlank) with
        | none => cases hfloor : p.1.isFloor <;> simp [Option.filter, hfloor, hnumber]
        | some q =>
            cases hblank : (takeUnit (q.2.dropWhile isBlank)).2.all isBlank <;>
              cases hfloor : p.1.isFloor <;> simp [Option.filter, hfloor, hnumber, hblank]

theorem floorRewritten_of_not_isFloor {c : String} (h : ¬IsFloor c) : floorRewritten c = c := by
  have hnone : floorCriterion c = none := by
    rw [floorCriterion_eq, Option.filter_eq_none_iff]
    intro m hm hfloor
    exact h ⟨m, matches_of_criterionPattern hm, hfloor⟩
  rw [floorRewritten, hnone]

/-- A criterion that is rewritten is read with the same parts but for its operator. -/
theorem matches_floorRewritten {m : CriterionMatch} {c : String} (h : m.Matches c.toList) :
    { m with op := m.op.inverted }.Matches (floorRewritten c).toList := by
  cases hfloor : m.op.isFloor with
  | false =>
      have hnot : ¬IsFloor c := by
        rintro ⟨m', hm', hfloor'⟩
        rw [← h.unique hm', hfloor] at hfloor'
        cases hfloor'
      rw [floorRewritten_of_not_isFloor hnot, Op.inverted_of_not_isFloor hfloor]
      exact h
  | true =>
      have hsome : floorCriterion c = some m := by
        rw [floorCriterion_eq, criterionPattern_of_matches h, Option.filter_some, if_pos hfloor]
      refine ⟨h.toWellFormed.withOp _, ⟨[], [], [], [], []⟩, ⟨nofun, nofun, nofun, nofun, nofun⟩,
        if m.op = .lt then ['>', '='] else ['>'], ?_, ?_⟩
      · change _ ∈ m.op.inverted.spellings
        cases hop : m.op <;> simp [hop, Op.isFloor, Op.inverted, Op.spellings] at hfloor ⊢
      · rw [floorRewritten, hsome, CriterionMatch.written]
        simp

theorem floorRewritten_ne {c : String} (h : IsFloor c) : floorRewritten c ≠ c := by
  obtain ⟨m, hm, hfloor⟩ := h
  intro hsame
  have hread := matches_floorRewritten hm
  rw [hsame] at hread
  have hop : m.op = m.op.inverted := congrArg CriterionMatch.op (hm.unique hread)
  rw [hop, Op.isFloor_inverted] at hfloor
  cases hfloor

theorem not_isFloor_floorRewritten (c : String) : ¬IsFloor (floorRewritten c) := by
  by_cases hc : IsFloor c
  · obtain ⟨m, hm, -⟩ := hc
    rintro ⟨m', hm', hfloor⟩
    rw [hm'.unique (matches_floorRewritten hm), Op.isFloor_inverted] at hfloor
    cases hfloor
  · rwa [floorRewritten_of_not_isFloor hc]

theorem floorRewritten_idem (c : String) : floorRewritten (floorRewritten c) = floorRewritten c :=
  floorRewritten_of_not_isFloor (not_isFloor_floorRewritten c)

/-! ### What is compared -/

/-- The figure of a report that a criterion is about, in the unit that the criterion has. -/
def figure (r : Report) (subject unit : List Char) : Option ℚ :=
  let name := Text.toLower (String.ofList subject)
  if name = "failures" ∨ name = "fail" then
    if unit = ['%'] then some (r.errorRate * 100) else none
  else
    match name.toList with
    | 'p' :: pct =>
        (Text.parseFloat pct).bind fun pct =>
          if unit = ['m', 's'] ∨ unit = [] then (r.latency[pct]?).map (· * 1000)
          else if unit = ['s'] then r.latency[pct]?
          else none
    | _ => none

def Op.Holds (op : Op) (f t : ℚ) : Prop :=
  match op with
  | .gt => t < f
  | .ge => t ≤ f
  | .lt => f < t
  | .le => f ≤ t
  | .eq => f = t

theorem criterionTriggered_iff (op : Op) (f t : ℚ) :
    criterionTriggered f op t = true ↔ op.Holds f t := by
  cases op <;> simp [criterionTriggered, Op.Holds]

theorem Op.holds_thousandth (op : Op) (f t : ℚ) :
    op.Holds f (t / 1000) ↔ op.Holds (f * 1000) t := by
  have hpos : (0 : ℚ) < 1000 := by norm_num
  cases op <;> simp [Op.Holds, div_lt_iff₀ hpos, div_le_iff₀ hpos, lt_div_iff₀ hpos,
    le_div_iff₀ hpos, eq_div_iff hpos.ne']

theorem Op.holds_inverted {op : Op} (h : op.isFloor = true) (f t : ℚ) :
    op.inverted.Holds f t ↔ ¬op.Holds f t := by
  cases op <;> simp [Op.isFloor, Op.inverted, Op.Holds] at h ⊢

/-- The evaluator compares the figure with the threshold, in seconds where both are times. -/
theorem compared_eq (r : Report) (subject unit : List Char) (t : ℚ) (op : Op) :
    (compared r (Text.toLower (String.ofList subject)) unit t).map
        (fun p => criterionTriggered p.1 op p.2) =
      (figure r subject unit).map fun f => criterionTriggered f op t := by
  have hscale : ∀ f : ℚ, criterionTriggered f op (t / 1000) = criterionTriggered (f * 1000) op t := by
    intro f
    rw [Bool.eq_iff_iff, criterionTriggered_iff, criterionTriggered_iff, op.holds_thousandth]
  simp only [compared, figure]
  generalize Text.toLower (String.ofList subject) = name
  by_cases hfailures : name = "failures" ∨ name = "fail"
  · simp only [if_pos hfailures]
    split <;> rfl
  · simp only [if_neg hfailures]
    by_cases hname : ∃ pct, name.toList = 'p' :: pct
    · obtain ⟨pct, hname⟩ := hname
      simp only [hname]
      cases Text.parseFloat pct with
      | none => rfl
      | some pct =>
          simp only [Option.bind_some]
          cases r.latency[pct]? with
          | none => simp
          | some latency =>
              simp only [Option.map_some]
              split
              · simp [hscale]
              · split <;> rfl
    · have hname : ∀ pct, name.toList = 'p' :: pct → False := fun pct h => hname ⟨pct, h⟩
      simp

theorem Number.parseDecimal {number : List Char} (h : Number number) :
    ∃ t, Text.parseDecimal number = some t := by
  rw [← Option.isSome_iff_exists]
  cases h with
  | whole hne hall =>
      have hspan : (number ++ []).span Char.isDigit = (number, []) := Text.span_append hall nofun
      rw [List.append_nil] at hspan
      rw [Text.parseDecimal, hspan]
      simpa using Text.digits?_isSome hne hall
  | @point digits part hne hall hne' hall' =>
      have hpoint : ∀ c ∈ ('.' :: part).head?, c.isDigit = false := by
        rintro c ⟨⟩
        decide
      rw [Text.parseDecimal, Text.span_append hall hpoint]
      simp only [Option.isSome_map]
      exact Text.digits?_isSome (fun hnil => hne (List.append_eq_nil_iff.mp hnil).1)
        fun c hc => (List.mem_append.mp hc).elim (hall c) (hall' c)

theorem evaluateOne_of_matches {m : CriterionMatch} {c : String} (h : m.Matches c.toList) {t : ℚ}
    (ht : Text.parseDecimal m.threshold = some t) (r : Report) :
    evaluateOne r c =
      match figure r m.subject m.unit with
      | none => some { criterion := c, unparsed := true }
      | some f => if criterionTriggered f m.op t then some { criterion := c, unparsed := false }
          else none := by
  have hcompared := compared_eq r m.subject m.unit t m.op
  rw [evaluateOne, criterionPattern_of_matches h]
  simp only [ht]
  cases hfigure : figure r m.subject m.unit with
  | none =>
      rw [hfigure, Option.map_none, Option.map_eq_none_iff] at hcompared
      simp only [hcompared]
  | some f =>
      rw [hfigure, Option.map_some, Option.map_eq_some_iff] at hcompared
      obtain ⟨⟨measured, threshold⟩, hsome, hsame⟩ := hcompared
      simp only [hsome, ← hsame]

/-! ### The rewriting keeps the meaning -/

structure Judged (r : Report) (m : CriterionMatch) (t : ℚ) (c : String) : Prop where
  /-- It triggers where the report has the figure and the floor is not kept. -/
  triggered : ∀ f, figure r m.subject m.unit = some f →
    (evaluateOne r c = some { criterion := c, unparsed := false } ↔ ¬m.op.Holds f t)
  kept : ∀ f, figure r m.subject m.unit = some f → (evaluateOne r c = none ↔ m.op.Holds f t)
  unparsed : figure r m.subject m.unit = none →
    evaluateOne r c = some { criterion := c, unparsed := true }

theorem judged_floorRewritten {m : CriterionMatch} {c : String} (h : m.Matches c.toList)
    (hfloor : m.op.isFloor = true) {t : ℚ} (ht : Text.parseDecimal m.threshold = some t)
    (r : Report) : Judged r m t (floorRewritten c) := by
  have hone := evaluateOne_of_matches (matches_floorRewritten h) ht r
  have hholds : ∀ f, criterionTriggered f m.op.inverted t = true ↔ ¬m.op.Holds f t := fun f =>
    (criterionTriggered_iff _ f t).trans (m.op.holds_inverted hfloor f t)
  constructor
  · intro f hf
    rw [hone, hf, ← hholds f]
    simp
  · intro f hf
    rw [hone, hf, ← not_not (a := m.op.Holds f t), ← hholds f]
    simp
  · intro hnone
    rw [hone, hnone]

/-- Both packages rewrite a list alike, and once. What is not a floor stays as it is. A floor
becomes a criterion that triggers in just the reports that do not keep to the floor, where the
report has the figure. -/
theorem floorsToViolations_meaning :
    (∀ criteria, floorCriteriaToViolation criteria = floorsToViolations criteria) ∧
      (∀ criteria, floorsToViolations (floorsToViolations criteria) = floorsToViolations criteria) ∧
      (∀ (criteria : List String) (i : ℕ) (c : String), criteria[i]? = some c → ¬IsFloor c →
        (floorsToViolations criteria)[i]? = some c) ∧
      ∀ (criteria : List String) (i : ℕ) (c : String) (m : CriterionMatch), criteria[i]? = some c →
        m.Matches c.toList → m.op.isFloor = true →
          ∃ rewritten t, (floorsToViolations criteria)[i]? = some rewritten ∧
            Text.parseDecimal m.threshold = some t ∧ ∀ r, Judged r m t rewritten := by
  have hget : ∀ (criteria : List String) (i : ℕ) (c : String), criteria[i]? = some c →
      (floorsToViolations criteria)[i]? = some (floorRewritten c) := by
    intro criteria i c hc
    rw [floorsToViolations, List.getElem?_map, hc, Option.map_some]
  refine ⟨fun criteria => (floorsToViolations_eq criteria).symm, fun criteria => ?_,
    fun criteria i c hc hnot => ?_, fun criteria i c m hc hm hfloor => ?_⟩
  · rw [floorsToViolations, floorsToViolations, List.map_map]
    simp only [Function.comp_def, floorRewritten_idem]
  · rw [hget criteria i c hc, floorRewritten_of_not_isFloor hnot]
  · obtain ⟨t, ht⟩ := hm.threshold.parseDecimal
    exact ⟨_, t, hget criteria i c hc, ht, judged_floorRewritten hm hfloor ht⟩

/-- The report of a run whose slowest requests took six tenths of a second. -/
def slowReport : Report :=
  { executionId := 1, scenarioId := 1, runId := 1, engine := ⟨"jmeter"⟩, cluster := ""
    correlationId := "", startedAt := 0, endedAt := 60 * 10 ^ 9, outcome := .passed
    requested := ⟨1, 100, 60, [], 6000, 0⟩, achieved := ⟨1, 100, 60, [], 6000, 0⟩, errorRate := 0
    latency := .ofList (reportedPercentiles.map fun pct => (pct, (6 / 10 : ℚ)))
    attribution := ⟨0, 0, 0⟩, errors := [], labels := [], soakTrend := none }

theorem floorsToViolations_meaning_p95 :
    ∃ rewritten, floorsToViolations ["failures>5%", " p95 < 500 ms"] = ["failures>5%", rewritten] ∧
      evaluateOne slowReport rewritten = some { criterion := rewritten, unparsed := false } := by
  obtain ⟨-, -, hsame, hfloor⟩ := floorsToViolations_meaning
  have hm : criterionPattern " p95 < 500 ms" =
      some ⟨['p', '9', '5'], .lt, ['5', '0', '0'], ['m', 's']⟩ := by decide +kernel
  have hother : ¬IsFloor "failures>5%" := by
    rintro ⟨m, hm, hfloor⟩
    have hpattern : (criterionPattern "failures>5%").map (·.op.isFloor) = some false := by
      decide +kernel
    rw [criterionPattern_of_matches hm, Option.map_some, hfloor] at hpattern
    cases hpattern
  have hfirst := hsame ["failures>5%", " p95 < 500 ms"] 0 _ rfl hother
  obtain ⟨rewritten, t, hsecond, ht, hjudged⟩ :=
    hfloor ["failures>5%", " p95 < 500 ms"] 1 _ _ rfl (matches_of_criterionPattern hm) rfl
  have hvalue : t = 500 := Option.some.inj (ht.symm.trans (by decide +kernel))
  refine ⟨rewritten, ?_, ((hjudged slowReport).triggered 600 (by decide +kernel)).mpr ?_⟩
  · simp only [floorsToViolations, List.map_cons, List.map_nil, List.getElem?_cons_zero,
      List.getElem?_cons_succ, Option.some_inj] at hfirst hsecond ⊢
    rw [hfirst, hsecond]
  · rw [hvalue]
    norm_num [Op.Holds]

end Honryu.Report
