import Honryu.LoadProfile.Profile

/-!
The stage table of the web front, and the config documents it is made from and written as.

A row of the table holds everything that an entry does. What a document says beside its entries has
no place in the table: its criteria and its own CSV split are not written again. A number is one of
JavaScript on the way, and a large one may come back as another.
-/

namespace Honryu.Web

open LoadProfile (Mode Entry)

/-! ### Documents -/

/-- An entry of a config document. A member that is null is as one that is not there. -/
structure TestJson where
  name : Option String
  scenarioId : Option ℤ
  concurrency : Option ℤ
  rampup : Option ℤ
  engines : Option ℤ
  throughput : Option ℤ
  duration : Option ℤ
  csvSplit : Option Bool
  mode : Option String
  steps : Option ℤ

structure ConfigJson where
  name : Option String
  projectId : Option ℤ
  executionId : Option ℤ
  tests : Option (List TestJson)
  csvSplit : Option Bool
  criteria : Option (List String)

/-- `loadprofile.Profile`. -/
structure Profile where
  name : String
  projectId : ℤ
  executionId : ℤ
  tests : List Entry
  csvSplit : Bool
  criteria : List String
  deriving DecidableEq

def modeOf (text : String) : Mode :=
  if text = "" then .advanced
  else if text = "burst" then .burst
  else if text = "ramp" then .ramp
  else if text = "soak" then .soak
  else if text = "staircase" then .staircase
  else .other text

def TestJson.decode (t : TestJson) : Entry where
  name := t.name.getD ""
  scenarioId := t.scenarioId.getD 0
  concurrency := t.concurrency.getD 0
  rampup := t.rampup.getD 0
  engines := t.engines.getD 0
  throughput := t.throughput.getD 0
  duration := t.duration.getD 0
  csvSplit := t.csvSplit.getD false
  mode := modeOf (t.mode.getD "")
  steps := t.steps.getD 0

def ConfigJson.decode (cfg : ConfigJson) : Profile where
  name := cfg.name.getD ""
  projectId := cfg.projectId.getD 0
  executionId := cfg.executionId.getD 0
  tests := (cfg.tests.getD []).map TestJson.decode
  csvSplit := cfg.csvSplit.getD false
  criteria := cfg.criteria.getD []

/-! ### The table -/

structure StageRow where
  name : Option String
  scenarioId : Option ℤ
  concurrency : Option ℤ
  rampup : Option ℤ
  engines : Option ℤ
  throughput : Option ℤ
  duration : Option ℤ
  csvSplit : Option Bool
  mode : Option String
  steps : Option ℤ

def nonzero (n : Option ℤ) : Option ℤ := n.filter (· ≠ 0)

def nonempty (s : Option String) : Option String := s.filter (· ≠ "")

def StageRow.toTest (r : StageRow) : TestJson where
  name := r.name
  scenarioId := r.scenarioId
  concurrency := r.concurrency
  rampup := r.rampup
  engines := r.engines
  throughput := nonzero r.throughput
  duration := r.duration
  csvSplit := if r.csvSplit = some true then some true else none
  mode := nonempty r.mode
  steps := if r.mode = some "staircase" then nonzero r.steps else none

def stagesToConfig (rows : List StageRow) (name : String) (projectId executionId : ℤ) :
    ConfigJson where
  name := some name
  projectId := some projectId
  executionId := some executionId
  tests := some (rows.map StageRow.toTest)
  csvSplit := none
  criteria := none

def TestJson.toRow (t : TestJson) : StageRow where
  name := t.name
  scenarioId := t.scenarioId
  concurrency := t.concurrency
  rampup := t.rampup
  engines := t.engines
  throughput := nonzero t.throughput
  duration := t.duration
  csvSplit := if t.csvSplit = some true then some true else none
  mode := nonempty t.mode
  steps := nonzero t.steps

def configToStages (cfg : ConfigJson) : List StageRow := (cfg.tests.getD []).map TestJson.toRow

/-! ### The editor -/

section Editor

-- what JavaScript writes for an integer that it has read
variable (number : ℤ → ℤ)

def TestJson.read (t : TestJson) : TestJson :=
  { t with
    scenarioId := t.scenarioId.map number
    concurrency := t.concurrency.map number
    rampup := t.rampup.map number
    engines := t.engines.map number
    throughput := t.throughput.map number
    duration := t.duration.map number
    steps := t.steps.map number }

inductive EditMode
  | table
  | raw
  deriving DecidableEq

/-- `StageEditorState`. A raw text that is no config document is none. -/
structure StageEditor where
  mode : EditMode
  rows : List StageRow
  rawJson : Option ConfigJson

/-- `parseRawConfig`. -/
def parseRawConfig (raw : Option ConfigJson) : Option ConfigJson := do
  let cfg ← raw
  let tests ← cfg.tests
  return { cfg with tests := some (tests.map (·.read number)) }

def StageEditor.setMode (configName : String) (projectId executionId : ℤ) (mode : EditMode)
    (e : StageEditor) : StageEditor :=
  if mode = e.mode then e
  else
    match mode with
    | .raw =>
        { e with
          mode := .raw
          rawJson := some (stagesToConfig e.rows configName projectId executionId) }
    | .table =>
        match parseRawConfig number e.rawJson with
        | none => e
        | some cfg => { e with mode := .table, rows := configToStages cfg }

/-- The raw text is of the same profile after the table has been looked at. -/
def Keeps (rows : List StageRow) (cfg : ConfigJson) : Prop :=
  let p := cfg.decode
  let editor : StageEditor := ⟨.raw, rows, some cfg⟩
  let back := (editor.setMode number p.name p.projectId p.executionId .table).setMode number
    p.name p.projectId p.executionId .raw
  back.rawJson.map ConfigJson.decode = some p

end Editor

/-! ### There and back -/

theorem getD_nonzero (n : Option ℤ) : (nonzero n).getD 0 = n.getD 0 := by
  cases n with
  | none => rfl
  | some n => by_cases hn : n = 0 <;> simp [nonzero, Option.filter, hn]

theorem getD_nonempty (s : Option String) : (nonempty s).getD "" = s.getD "" := by
  cases s with
  | none => rfl
  | some s => by_cases hs : s = "" <;> simp [nonempty, Option.filter, hs]

theorem modeOf_eq_staircase (text : String) : modeOf text = .staircase ↔ text = "staircase" := by
  unfold modeOf
  split_ifs <;> simp_all

theorem nonempty_eq_staircase {s : Option String} :
    nonempty s = some "staircase" ↔ s.getD "" = "staircase" := by
  cases s with
  | none => simp [nonempty]
  | some s => by_cases hs : s = "" <;> simp [nonempty, Option.filter, hs]

section Keeps

variable {number : ℤ → ℤ}

def entryNumbers (ep : Entry) : List ℤ :=
  [ep.scenarioId, ep.concurrency, ep.rampup, ep.engines, ep.throughput, ep.duration]

def rewritten (number : ℤ → ℤ) (ep : Entry) : Entry :=
  { ep with
    scenarioId := number ep.scenarioId
    concurrency := number ep.concurrency
    rampup := number ep.rampup
    engines := number ep.engines
    throughput := number ep.throughput
    duration := number ep.duration }

theorem rewritten_eq_self_iff (ep : Entry) :
    rewritten number ep = ep ↔ ∀ n ∈ entryNumbers ep, number n = n := by
  cases ep
  simp [rewritten, entryNumbers]

theorem decode_stagesToConfig (rows : List StageRow) (name : String) (projectId executionId : ℤ) :
    (stagesToConfig rows name projectId executionId).decode =
      ⟨name, projectId, executionId, (rows.map StageRow.toTest).map TestJson.decode, false, []⟩ :=
  rfl

/-- The table in between holds the entries of the document, as JavaScript reads them. -/
theorem keeps_iff_decode (rows : List StageRow) {cfg : ConfigJson} {tests : List TestJson}
    (htests : cfg.tests = some tests) :
    Keeps number rows cfg ↔
      (stagesToConfig ((tests.map (·.read number)).map TestJson.toRow) cfg.decode.name
        cfg.decode.projectId cfg.decode.executionId).decode = cfg.decode := by
  simp [Keeps, StageEditor.setMode, parseRawConfig, htests, configToStages]

section Exact

variable (hnumber : ∀ n, |n| ≤ 2 ^ 53 → number n = n)

include hnumber

theorem decode_toTest (t : TestJson) (hvalid : t.decode.Valid) :
    (t.read number).toRow.toTest.decode = rewritten number t.decode := by
  have hzero : number 0 = 0 := hnumber 0 (by decide)
  have hread (n : Option ℤ) : (n.map number).getD 0 = number (n.getD 0) := by
    cases n with
    | none => exact hzero.symm
    | some n => rfl
  have hcsv : (t.read number).toRow.toTest.decode.csvSplit = t.decode.csvSplit := by
    rcases hcsv : t.csvSplit with _ | (_ | _) <;>
      simp [TestJson.read, TestJson.toRow, StageRow.toTest, TestJson.decode, hcsv]
  have hsteps : (t.read number).toRow.toTest.decode.steps = t.decode.steps := by
    by_cases hmode : t.decode.mode = .staircase
    · have htext : nonempty t.mode = some "staircase" :=
        nonempty_eq_staircase.mpr ((modeOf_eq_staircase _).mp hmode)
      obtain ⟨⟨hmin, hmax⟩, -⟩ := hvalid.stepped hmode
      have hsmall : |t.decode.steps| ≤ 2 ^ 53 := by
        rw [LoadProfile.staircaseStepsMin] at hmin
        rw [LoadProfile.staircaseStepsMax] at hmax
        rw [abs_of_nonneg (by omega)]
        omega
      have hwritten : (t.read number).toRow.toTest.decode.steps = number t.decode.steps := by
        simp [TestJson.decode, StageRow.toTest, TestJson.toRow, TestJson.read, htext, getD_nonzero,
          hread]
      rw [hwritten, hnumber _ hsmall]
    · have htext : nonempty t.mode ≠ some "staircase" := fun h =>
        hmode ((modeOf_eq_staircase _).mpr (nonempty_eq_staircase.mp h))
      rw [hvalid.flat hmode]
      simp [TestJson.decode, StageRow.toTest, TestJson.toRow, TestJson.read, htext]
  have hmode : (t.read number).toRow.toTest.decode.mode = t.decode.mode :=
    congrArg modeOf ((getD_nonempty _).trans (getD_nonempty _))
  have hthroughput : (t.read number).toRow.toTest.decode.throughput = number t.decode.throughput :=
    (getD_nonzero _).trans ((getD_nonzero _).trans (hread _))
  exact (Entry.mk.injEq ..).mpr
    ⟨rfl, hread _, hread _, hread _, hread _, hthroughput, hread _, hcsv, hmode, hsteps⟩

/-- The profile comes back if and only if it has no criteria and no CSV split of its own, and
JavaScript writes the numbers of its entries as they are. -/
theorem keeps_iff (rows : List StageRow) {cfg : ConfigJson}
    (hvalid : LoadProfile.validate cfg.decode.tests = .ok ()) :
    Keeps number rows cfg ↔
      cfg.decode.criteria = [] ∧ cfg.decode.csvSplit = false ∧
        ∀ ep ∈ cfg.decode.tests, ∀ n ∈ entryNumbers ep, number n = n := by
  obtain ⟨hne, hentries⟩ := LoadProfile.validate_eq_ok.mp hvalid
  obtain ⟨tests, htests⟩ : ∃ tests, cfg.tests = some tests := by
    cases htests : cfg.tests with
    | none => exact absurd (by rw [ConfigJson.decode, htests]; rfl) hne
    | some tests => exact ⟨tests, rfl⟩
  have hdecoded : cfg.decode.tests = tests.map TestJson.decode := by
    rw [ConfigJson.decode, htests]
    rfl
  rw [hdecoded, List.forall_mem_map] at hentries
  have hback : (((tests.map (·.read number)).map TestJson.toRow).map StageRow.toTest).map
      TestJson.decode = cfg.decode.tests.map (rewritten number) := by
    rw [hdecoded]
    simp only [List.map_map]
    exact List.map_congr_left fun t ht => decode_toTest hnumber t (hentries t ht)
  have hsame : cfg.decode.tests.map (rewritten number) = cfg.decode.tests ↔
      ∀ ep ∈ cfg.decode.tests, ∀ n ∈ entryNumbers ep, number n = n := by
    have hself := List.map_inj_left (l := cfg.decode.tests) (f := rewritten number) (g := id)
    rw [List.map_id] at hself
    exact hself.trans (forall₂_congr fun ep _ => rewritten_eq_self_iff ep)
  rw [keeps_iff_decode rows htests, decode_stagesToConfig, hback, ← hsame]
  constructor
  · intro h
    exact ⟨(congrArg Profile.criteria h).symm, (congrArg Profile.csvSplit h).symm,
      congrArg Profile.tests h⟩
  · rintro ⟨hcriteria, hcsv, htests⟩
    rw [htests, ← hcriteria, ← hcsv]

end Exact

end Keeps

/-! ### One document -/

def staircaseConfig (criteria : Option (List String)) : ConfigJson where
  name := some "nightly"
  projectId := some 3
  executionId := some 12
  tests := some [⟨some "steps", some 5, some 20, none, some 2, some 100, some 60, some true,
    some "staircase", some 4⟩]
  csvSplit := none
  criteria := criteria

theorem keeps_staircase : Keeps id [] (staircaseConfig none) :=
  (keeps_iff (fun _ _ => rfl) [] (by decide)).mpr ⟨rfl, rfl, fun _ _ _ _ => rfl⟩

/-- The criteria of a document are gone when the table has been looked at. -/
theorem not_keeps_criteria :
    let cfg := staircaseConfig (some ["p95>500ms"])
    LoadProfile.validate cfg.decode.tests = .ok () ∧ ¬Keeps id [] cfg := by
  refine ⟨by decide, fun h => ?_⟩
  exact absurd (congrArg (Option.map Profile.criteria) h) (by decide)

end Honryu.Web
