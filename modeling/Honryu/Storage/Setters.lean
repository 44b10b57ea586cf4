import Honryu.Lib.Walk
import Mathlib.Data.List.Count
import Mathlib.Data.Int.Notation

/-!
The setters of single columns, and what they make of the number of rows that the database reports.

An `UPDATE` reports how many rows have changed, and most setters take it that there is no row if
none has. A row that has the value already does not change either. `SetScenarioKind` looks for the
row in that case.
-/

namespace Honryu.Storage

/-! ### Updates -/

section Update

variable {Row : Type} [DecidableEq Row]

/-- `UPDATE … SET … WHERE …`: the rows, and the number of those that are other than before. -/
def update (matching : Row → Bool) (set : Row → Row) (rows : List Row) : List Row × ℕ :=
  (rows.map fun row => if matching row then set row else row,
    rows.countP fun row => matching row && set row ≠ row)

/-- What can go wrong with a setter: the statement fails, or the number of rows cannot be had. -/
inductive Mishap
  | exec
  | rowsAffected
  deriving DecidableEq

inductive SetError
  | exec (what : String)
  | rowsAffected (what : String)
  | notFound
  deriving DecidableEq

/-- A setter: the rows it leaves, and `rowsAffectedOrNotFound` of what the update reports. -/
def setColumn (what : String) (matching : Row → Bool) (set : Row → Row) (mishap : Option Mishap)
    (rows : List Row) : List Row × Except SetError Unit :=
  if mishap = some .exec then (rows, .error (.exec what))
  else
    let (rows, n) := update matching set rows
    (rows,
      if mishap = some .rowsAffected then .error (.rowsAffected what)
      else if n = 0 then .error .notFound
      else .ok ())

variable {what : String} {matching : Row → Bool} {set : Row → Row} {mishap : Option Mishap}
  {rows : List Row}

theorem update_eq_zero_iff :
    (update matching set rows).2 = 0 ↔ ∀ row ∈ rows, matching row = true → set row = row := by
  simp [update, List.countP_eq_zero]

/-- A setter finds no row if nothing goes wrong and no row changes. -/
theorem setColumn_notFound_iff :
    (setColumn what matching set mishap rows).2 = .error .notFound ↔
      mishap = none ∧ ∀ row ∈ rows, matching row = true → set row = row := by
  rw [← update_eq_zero_iff, setColumn]
  rcases mishap with _ | (_ | _) <;> simp

end Update

/-! ### The tables -/

/-- The columns of `execution_report` that a person sets. No note is `NULL`. -/
@[ext]
structure ReportRow where
  runId : ℤ
  starred : Bool
  note : Option String
  deriving DecidableEq

@[ext]
structure WebhookRow where
  id : ℤ
  projectId : ℤ
  enabled : Bool
  deriving DecidableEq

structure Tables where
  reports : List ReportRow
  webhooks : List WebhookRow

def setStarred (runId : ℤ) (starred : Bool) :
    Option Mishap → List ReportRow → List ReportRow × Except SetError Unit :=
  setColumn "set starred" (fun row => row.runId = runId) fun row => { row with starred := starred }

def setNote (runId : ℤ) (note : String) :
    Option Mishap → List ReportRow → List ReportRow × Except SetError Unit :=
  setColumn "set note" (fun row => row.runId = runId) fun row => { row with note := some note }

def setWebhookEnabled (projectId id : ℤ) (enabled : Bool) :
    Option Mishap → List WebhookRow → List WebhookRow × Except SetError Unit :=
  setColumn "set webhook enabled" (fun row => row.id = id && row.projectId = projectId)
    fun row => { row with enabled := enabled }

/-! ### Calls one after the other -/

inductive Setter
  | starred (runId : ℤ) (starred : Bool)
  | note (runId : ℤ) (note : String)
  | webhookEnabled (projectId id : ℤ) (enabled : Bool)
  deriving DecidableEq

structure SetterCall where
  setter : Setter
  mishap : Option Mishap
  deriving DecidableEq

def SetterCall.run (t : Tables) (c : SetterCall) : Tables × Except SetError Unit :=
  match c.setter with
  | .starred runId starred =>
      let (reports, result) := setStarred runId starred c.mishap t.reports
      ({ t with reports := reports }, result)
  | .note runId note =>
      let (reports, result) := setNote runId note c.mishap t.reports
      ({ t with reports := reports }, result)
  | .webhookEnabled projectId id enabled =>
      let (webhooks, result) := setWebhookEnabled projectId id enabled c.mishap t.webhooks
      ({ t with webhooks := webhooks }, result)

def step (t : Tables) (c : SetterCall) : Tables := (c.run t).1

def HasRow (t : Tables) : Setter → Prop
  | .starred runId _ | .note runId _ => ∃ row ∈ t.reports, row.runId = runId
  | .webhookEnabled projectId id _ => ∃ row ∈ t.webhooks, row.id = id ∧ row.projectId = projectId

/-- The row of a setter exists and has another value. -/
def HasOther (t : Tables) : Setter → Prop
  | .starred runId starred => ∃ row ∈ t.reports, row.runId = runId ∧ row.starred ≠ starred
  | .note runId note => ∃ row ∈ t.reports, row.runId = runId ∧ row.note ≠ some note
  | .webhookEnabled projectId id enabled =>
      ∃ row ∈ t.webhooks, (row.id = id ∧ row.projectId = projectId) ∧ row.enabled ≠ enabled

def Truthful (t : Tables) (c : SetterCall) : Prop :=
  (c.run t).2 = .error .notFound ↔ ¬HasRow t c.setter

/-- What is set is not what the row has already, and nothing goes wrong unless the row exists. -/
def Changes (t : Tables) (c : SetterCall) : Prop :=
  if c.mishap = none then HasRow t c.setter → HasOther t c.setter else HasRow t c.setter

variable {t : Tables} {c : SetterCall}

theorem run_notFound_iff :
    (c.run t).2 = .error .notFound ↔ c.mishap = none ∧ ¬HasOther t c.setter := by
  obtain ⟨setter, mishap⟩ := c
  cases setter with
  | starred runId starred =>
      simp only [SetterCall.run, setStarred, setColumn_notFound_iff]
      simp [HasOther, ReportRow.ext_iff, eq_comm (a := starred)]
  | note runId note =>
      simp only [SetterCall.run, setNote, setColumn_notFound_iff]
      simp [HasOther, ReportRow.ext_iff, eq_comm (a := some note)]
  | webhookEnabled projectId id enabled =>
      simp only [SetterCall.run, setWebhookEnabled, setColumn_notFound_iff]
      simp [HasOther, WebhookRow.ext_iff, eq_comm (a := enabled)]

theorem HasOther.hasRow {setter : Setter} (h : HasOther t setter) : HasRow t setter := by
  cases setter with
  | starred | note | webhookEnabled =>
      obtain ⟨row, hrow, hmatch, -⟩ := h
      exact ⟨row, hrow, hmatch⟩

theorem truthful_iff : Truthful t c ↔ Changes t c := by
  rw [Truthful, Changes, run_notFound_iff]
  by_cases hrow : HasRow t c.setter
  · by_cases hmishap : c.mishap = none <;> simp [hrow, hmishap]
  · have hother : ¬HasOther t c.setter := fun h => hrow h.hasRow
    simp [hrow, hother]

/-- Of every sequence of calls, all are truthful if and only if every one of them sets what its row
does not have already. -/
theorem along_truthful_iff (t : Tables) (calls : List SetterCall) :
    Walk.Along step Truthful t calls ↔ Walk.Along step Changes t calls := by
  induction calls generalizing t with
  | nil => exact Iff.rfl
  | cons c calls ih => exact and_congr truthful_iff (ih _)

/-- A run that is starred twice is not found the second time. -/
theorem not_truthful_starredTwice :
    let star : SetterCall := ⟨.starred 7 true, none⟩
    let t : Tables := ⟨[⟨7, false, none⟩], []⟩
    (star.run t).2 = .ok () ∧ (star.run (step t star)).2 = .error .notFound ∧
      HasRow (step t star) star.setter ∧ ¬Walk.Along step Truthful t [star, star] := by
  intro star t
  have hagain : (star.run (step t star)).2 = .error .notFound := by decide
  have hrow : HasRow (step t star) star.setter := ⟨⟨7, true, none⟩, by decide, rfl⟩
  exact ⟨by decide, hagain, hrow, fun h => h.2.1.mp hagain hrow⟩

/-! ### Looking for the row -/

/-- The columns of `scenario` that say how its workload is expressed. -/
structure KindRow where
  id : ℤ
  kind : String
  engine : String
  deriving DecidableEq

/-- `SetScenarioKind`, if nothing goes wrong with it: where no row has changed it asks whether there
is one. -/
def setScenarioKind (id : ℤ) (kind engine : String) (rows : List KindRow) :
    List KindRow × Except SetError Unit :=
  let (rows, n) := update (fun row => row.id = id) (fun row => { row with kind, engine }) rows
  (rows, if n = 0 ∧ ¬rows.any (·.id = id) then .error .notFound else .ok ())

end Honryu.Storage
