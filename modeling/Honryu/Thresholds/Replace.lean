import Honryu.Lib.Checked
import Honryu.Report.Graders

/-!
Replacing the thresholds of a scenario.

A definition that is stored already keeps its row, and with it the results that were recorded for it;
the rows of the others are deleted, and their results go with them. The definitions of a scenario
differ, which the table has a unique key for.
-/

namespace Honryu.Thresholds

/-! ### The tables -/

structure Definition where
  metric : Metric
  comparison : Comparison
  value : ℚ
  deriving DecidableEq

/-- A row of `scenario_thresholds`. -/
structure Row where
  id : ℤ
  scenarioId : ℤ
  definition : Definition
  createdTime : ℤ
  deriving DecidableEq

structure Tables where
  rows : List Row
  results : List Result
  nextId : ℤ
  deriving DecidableEq

/-- Ids are assigned in order, and no two rows of a scenario have the same definition. -/
structure Tables.Sound (t : Tables) : Prop where
  sorted : t.rows.Pairwise fun r r' => r.id < r'.id
  lt_nextId : ∀ r ∈ t.rows, r.id < t.nextId
  unique : ∀ r ∈ t.rows, ∀ r' ∈ t.rows, r.scenarioId = r'.scenarioId →
    r.definition = r'.definition → r = r'

inductive ReplaceError
  | duplicateKey
  deriving DecidableEq

def Tables.ofScenario (t : Tables) (scenarioId : ℤ) : List Row :=
  t.rows.filter (·.scenarioId = scenarioId)

/-! ### The replacement -/

structure Progress where
  matched : List ℤ
  kept : List Row
  tables : Tables

/-- `INSERT`, which the unique key may refuse. -/
def Tables.insert (t : Tables) (scenarioId now : ℤ) (d : Definition) :
    Except ReplaceError (Row × Tables) :=
  if ∃ r ∈ t.rows, r.scenarioId = scenarioId ∧ r.definition = d then .error .duplicateKey
  else
    let row : Row := ⟨t.nextId, scenarioId, d, now⟩
    .ok (row, { t with rows := t.rows ++ [row], nextId := t.nextId + 1 })

/-- One definition of the loop. -/
def place (existing : List Row) (scenarioId now : ℤ) (p : Progress) (d : Definition) :
    Except ReplaceError Progress :=
  match existing.find? fun ex => ex.id ∉ p.matched ∧ ex.definition = d with
  | some ex => .ok { p with matched := ex.id :: p.matched, kept := p.kept ++ [ex] }
  | none => do
      let (row, tables) ← p.tables.insert scenarioId now d
      return { p with kept := p.kept ++ [row], tables }

/-- `DELETE` of a row, with its results. -/
def Tables.delete (t : Tables) (ex : Row) : Tables :=
  { t with
    rows := t.rows.filter (·.id ≠ ex.id)
    results := t.results.filter (·.thresholdId ≠ ex.id) }

/-- `ReplaceThresholds`, which returns the rows in the order of the definitions. -/
def replaceThresholds (scenarioId : ℤ) (defs : List Definition) (now : ℤ) (t : Tables) :
    Except ReplaceError (List Row × Tables) := do
  let existing := t.ofScenario scenarioId
  let p ← defs.foldlM (place existing scenarioId now) ⟨[], [], t⟩
  return (p.kept, (existing.filter (·.id ∉ p.matched)).foldl Tables.delete p.tables)

/-! ### What has been replaced -/

/-- The definitions of a scenario have been replaced: its rows are those that are returned, which have
the new definitions; a definition that was there keeps its row, and the others are gone, with the
results of each; the other scenarios are what they were. -/
structure Replaced (scenarioId : ℤ) (defs : List Definition) (t : Tables) (out : List Row)
    (t' : Tables) : Prop where
  stored : (t'.ofScenario scenarioId).Perm out
  definitions : out.map (·.definition) = defs
  keeps : ∀ r ∈ t.ofScenario scenarioId, r.definition ∈ defs → r ∈ t'.rows
  gone : ∀ r ∈ t.ofScenario scenarioId, r.definition ∉ defs → ∀ r' ∈ t'.rows, r'.id ≠ r.id
  results : t'.results = t.results.filter fun res =>
    ∀ r ∈ t.ofScenario scenarioId, r.definition ∉ defs → res.thresholdId ≠ r.id
  others : t'.rows.filter (·.scenarioId ≠ scenarioId) = t.rows.filter (·.scenarioId ≠ scenarioId)

/-! ### Sound tables -/

section Sound

variable {scenarioId now : ℤ} {t t' : Tables} {r r' : Row} {d : Definition}

theorem mem_ofScenario : r ∈ t.ofScenario scenarioId ↔ r ∈ t.rows ∧ r.scenarioId = scenarioId := by
  simp [Tables.ofScenario]

theorem Tables.Sound.id_inj (h : t.Sound) (hr : r ∈ t.rows) (hr' : r' ∈ t.rows)
    (hid : r.id = r'.id) : r = r' := by
  by_contra hne
  have hlt : ∀ r ∈ t.rows, ∀ r' ∈ t.rows, r ≠ r' → r.id ≠ r'.id :=
    List.Pairwise.forall_of_forall_of_flip (fun _ _ hne => absurd rfl hne)
      (h.sorted.imp fun hlt _ => hlt.ne) (h.sorted.imp fun hlt _ => hlt.ne')
  exact hlt r hr r' hr' hne hid

theorem Tables.Sound.nodup (h : t.Sound) : t.rows.Nodup :=
  h.sorted.imp fun hlt heq => hlt.ne (congrArg Row.id heq)

theorem Tables.Sound.filter (h : t.Sound) (p : Row → Bool) (results : List Result) :
    { t with rows := t.rows.filter p, results }.Sound where
  sorted := h.sorted.filter p
  lt_nextId r hr := h.lt_nextId r (List.mem_of_mem_filter hr)
  unique r hr r' hr' := h.unique r (List.mem_of_mem_filter hr) r' (List.mem_of_mem_filter hr')

theorem Tables.Sound.insert (h : t.Sound)
    (hfresh : ¬∃ r ∈ t.rows, r.scenarioId = scenarioId ∧ r.definition = d) :
    { t with
      rows := t.rows ++ [Row.mk t.nextId scenarioId d now], nextId := t.nextId + 1 }.Sound := by
  refine ⟨?_, ?_, ?_⟩
  · refine List.pairwise_append.mpr ⟨h.sorted, List.pairwise_singleton _ _, fun r hr r' hr' => ?_⟩
    rw [List.mem_singleton.mp hr']
    exact h.lt_nextId r hr
  · refine List.forall_mem_append.mpr ⟨fun r hr => ?_, List.forall_mem_singleton.mpr (lt_add_one _)⟩
    exact (h.lt_nextId r hr).trans (lt_add_one _)
  · intro r hr r' hr' hscenario hdefinition
    rcases List.mem_append.mp hr with hr | hr <;> rcases List.mem_append.mp hr' with hr' | hr'
    · exact h.unique r hr r' hr' hscenario hdefinition
    · rw [List.mem_singleton.mp hr'] at hscenario hdefinition
      exact absurd ⟨r, hr, hscenario, hdefinition⟩ hfresh
    · rw [List.mem_singleton.mp hr] at hscenario hdefinition
      exact absurd ⟨r', hr', hscenario.symm, hdefinition.symm⟩ hfresh
    · rw [List.mem_singleton.mp hr, List.mem_singleton.mp hr']

end Sound

/-! ### The loops -/

section Loops

variable {scenarioId now : ℤ} {t : Tables} {defs : List Definition} {p : Progress}

/-- The loop over definitions that differ: it has matched the rows that have one of them, and
inserted a row for each of the rest. -/
structure Placed (scenarioId : ℤ) (t : Tables) (defs : List Definition) (new : List Row)
    (p : Progress) : Prop where
  tables : p.tables = { t with rows := t.rows ++ new, nextId := t.nextId + new.length }
  sound : p.tables.Sound
  new : ∀ r ∈ new, r.scenarioId = scenarioId ∧ r.definition ∈ defs ∧
    ∀ ex ∈ t.ofScenario scenarioId, ex.definition ≠ r.definition
  definitions : p.kept.map (·.definition) = defs
  kept : ∀ r ∈ p.kept, r ∈ p.tables.ofScenario scenarioId
  matched : ∀ r ∈ t.ofScenario scenarioId, r.id ∈ p.matched ↔ r.definition ∈ defs

theorem Placed.mem_rows {new : List Row} (h : Placed scenarioId t defs new p) {r : Row} :
    r ∈ p.tables.rows ↔ r ∈ t.rows ∨ r ∈ new := by
  rw [h.tables]
  exact List.mem_append

theorem Placed.place {new : List Row} (h : Placed scenarioId t defs new p) {d : Definition}
    (hd : d ∉ defs) (now : ℤ) :
    ∃ p' new', Thresholds.place (t.ofScenario scenarioId) scenarioId now p d = .ok p' ∧
      Placed scenarioId t (defs ++ [d]) new' p' := by
  have hlater : ∀ r ∈ new, r.scenarioId = scenarioId ∧ r.definition ∈ defs ++ [d] ∧
      ∀ ex ∈ t.ofScenario scenarioId, ex.definition ≠ r.definition :=
    fun r hr => (h.new r hr).imp_right (.imp_left (List.mem_append_left _))
  unfold Thresholds.place
  cases hfind : (t.ofScenario scenarioId).find? fun ex => ex.id ∉ p.matched ∧ ex.definition = d with
  | some ex =>
      have hfound := List.find?_some hfind
      have hdefinition : ex.definition = d := (decide_eq_true_iff.mp hfound).2
      have hex := mem_ofScenario.mp (List.mem_of_find?_eq_some hfind)
      refine ⟨_, new, rfl, h.tables, h.sound, hlater, ?_, ?_, fun r hr => ?_⟩
      · rw [List.map_append, h.definitions, List.map_singleton, hdefinition]
      · refine List.forall_mem_append.mpr ⟨h.kept, List.forall_mem_singleton.mpr ?_⟩
        exact mem_ofScenario.mpr ⟨h.mem_rows.mpr (.inl hex.1), hex.2⟩
      · have hr' := mem_ofScenario.mp hr
        have hsame : r.id = ex.id ↔ r.definition = d := by
          refine ⟨fun hid => ?_, fun heq => ?_⟩
          · rw [← hdefinition, h.sound.id_inj (h.mem_rows.mpr (.inl hr'.1))
              (h.mem_rows.mpr (.inl hex.1)) hid]
          · rw [h.sound.unique r (h.mem_rows.mpr (.inl hr'.1)) ex (h.mem_rows.mpr (.inl hex.1))
              (hr'.2.trans hex.2.symm) (heq.trans hdefinition.symm)]
        rw [List.mem_cons, hsame, h.matched r hr, List.mem_append, List.mem_singleton, or_comm]
  | none =>
      -- a row with the definition would not have been matched before
      have hnone : ∀ ex ∈ t.ofScenario scenarioId, ex.definition ≠ d := by
        rintro ex hex rfl
        have := List.find?_eq_none.mp hfind ex hex
        exact this (decide_eq_true ⟨fun hid => hd ((h.matched ex hex).mp hid), rfl⟩)
      have hfresh : ¬∃ r ∈ p.tables.rows, r.scenarioId = scenarioId ∧ r.definition = d := by
        rintro ⟨r, hr, hscenario, rfl⟩
        rcases h.mem_rows.mp hr with hr | hr
        · exact hnone r (mem_ofScenario.mpr ⟨hr, hscenario⟩) rfl
        · exact hd (h.new r hr).2.1
      refine ⟨⟨p.matched, p.kept ++ [⟨p.tables.nextId, scenarioId, d, now⟩],
          { p.tables with
            rows := p.tables.rows ++ [⟨p.tables.nextId, scenarioId, d, now⟩]
            nextId := p.tables.nextId + 1 }⟩,
        new ++ [⟨p.tables.nextId, scenarioId, d, now⟩], ?_, ?_, h.sound.insert hfresh, ?_, ?_, ?_, ?_⟩
      · rw [Tables.insert, if_neg hfresh]
        rfl
      · simp only [h.tables, List.append_assoc, List.length_append, List.length_singleton]
        push_cast
        rw [add_assoc]
      · refine List.forall_mem_append.mpr ⟨hlater, List.forall_mem_singleton.mpr ⟨rfl, ?_, hnone⟩⟩
        exact List.mem_append_right _ (List.mem_singleton_self d)
      · rw [List.map_append, h.definitions, List.map_singleton]
      · refine List.forall_mem_append.mpr ⟨fun r hr => ?_, List.forall_mem_singleton.mpr ?_⟩
        · have hr := mem_ofScenario.mp (h.kept r hr)
          exact mem_ofScenario.mpr ⟨List.mem_append_left _ hr.1, hr.2⟩
        · exact mem_ofScenario.mpr ⟨List.mem_append_right _ (List.mem_singleton_self _), rfl⟩
      · intro r hr
        rw [h.matched r hr, List.mem_append, List.mem_singleton, or_iff_left (hnone r hr)]

/-- The loop is never refused: a definition that no row has is new to the unique key. -/
theorem foldlM_place (ht : t.Sound) (hdefs : defs.Nodup) (now : ℤ) :
    ∃ p new, defs.foldlM (place (t.ofScenario scenarioId) scenarioId now) ⟨[], [], t⟩ = .ok p ∧
      Placed scenarioId t defs new p := by
  induction defs using List.reverseRecOn with
  | nil => exact ⟨_, [], rfl, by simp, ht, nofun, rfl, nofun, fun r _ => by simp⟩
  | append_singleton defs d ih =>
      rw [← List.concat_eq_append, List.nodup_concat] at hdefs
      obtain ⟨p, new, hrun, hplaced⟩ := ih hdefs.2
      obtain ⟨p', new', hplace, hplaced'⟩ := hplaced.place hdefs.1 now
      refine ⟨p', new', ?_, hplaced'⟩
      rw [List.foldlM_append, Checked.bind_eq_ok]
      exact ⟨p, hrun, by rw [List.foldlM_cons, hplace]; rfl⟩

theorem foldl_delete (gone : List Row) (t : Tables) :
    gone.foldl Tables.delete t =
      { t with
        rows := t.rows.filter fun r => ∀ g ∈ gone, r.id ≠ g.id
        results := t.results.filter fun res => ∀ g ∈ gone, res.thresholdId ≠ g.id } := by
  induction gone generalizing t with
  | nil => simp
  | cons g gone ih =>
      rw [List.foldl_cons, ih]
      simp [Tables.delete, List.filter_filter, Bool.and_comm]

theorem replaceThresholds_eq (scenarioId : ℤ) (ht : t.Sound) (hdefs : defs.Nodup) (now : ℤ) :
    ∃ p new, Placed scenarioId t defs new p ∧
      replaceThresholds scenarioId defs now t = .ok (p.kept,
        { p.tables with
          rows := p.tables.rows.filter fun r =>
            ∀ g ∈ t.ofScenario scenarioId, g.definition ∉ defs → r.id ≠ g.id
          results := t.results.filter fun res =>
            ∀ g ∈ t.ofScenario scenarioId, g.definition ∉ defs → res.thresholdId ≠ g.id }) := by
  obtain ⟨p, new, hrun, hplaced⟩ := foldlM_place ht hdefs now
  have hgone : (t.ofScenario scenarioId).filter (·.id ∉ p.matched) =
      (t.ofScenario scenarioId).filter (·.definition ∉ defs) :=
    List.filter_congr fun r hr => by simp [hplaced.matched r hr]
  refine ⟨p, new, hplaced, Checked.bind_eq_ok.mpr ⟨p, hrun, ?_⟩⟩
  refine congrArg (fun tables => Except.ok (p.kept, tables)) ?_
  rw [hgone, foldl_delete, hplaced.tables]
  simp only [List.mem_filter, decide_eq_true_eq, and_imp]

end Loops

/-! ### Replacing -/

section Replace

variable {scenarioId : ℤ} {t : Tables} {defs : List Definition}

theorem Placed.replaced {new : List Row} {p : Progress} (h : Placed scenarioId t defs new p)
    (hdefs : defs.Nodup) :
    Replaced scenarioId defs t p.kept
      { p.tables with
        rows := p.tables.rows.filter fun r =>
          ∀ g ∈ t.ofScenario scenarioId, g.definition ∉ defs → r.id ≠ g.id
        results := t.results.filter fun res =>
          ∀ g ∈ t.ofScenario scenarioId, g.definition ∉ defs → res.thresholdId ≠ g.id } := by
  have hold : ∀ {g}, g ∈ t.ofScenario scenarioId → g ∈ p.tables.rows :=
    fun hg => h.mem_rows.mpr (.inl (mem_ofScenario.mp hg).1)
  -- a row that is not deleted is one of the new definitions, or of another scenario
  have hstays : ∀ r ∈ p.tables.rows, (r.scenarioId = scenarioId → r.definition ∈ defs) ↔
      ∀ g ∈ t.ofScenario scenarioId, g.definition ∉ defs → r.id ≠ g.id := by
    intro r hr
    constructor
    · intro hin g hg hnot hid
      obtain rfl := h.sound.id_inj hr (hold hg) hid
      exact hnot (hin (mem_ofScenario.mp hg).2)
    · intro hin hscenario
      rcases h.mem_rows.mp hr with hr | hr
      · by_contra hnot
        exact hin r (mem_ofScenario.mpr ⟨hr, hscenario⟩) hnot rfl
      · exact (h.new r hr).2.1
  refine ⟨?_, h.definitions, fun r hr hin => ?_, fun r hr hnot r' hr' => ?_, rfl, ?_⟩
  · have hkept : p.kept.Nodup := List.Nodup.of_map (·.definition) (h.definitions ▸ hdefs)
    refine (List.perm_ext_iff_of_nodup ((h.sound.nodup.filter _).filter _) hkept).mpr fun r => ?_
    simp only [List.mem_filter, decide_eq_true_eq]
    constructor
    · rintro ⟨⟨hr, hin⟩, hscenario⟩
      have hdefinition := (hstays r hr).mpr hin hscenario
      rw [← h.definitions] at hdefinition
      obtain ⟨k, hk, heq⟩ := List.mem_map.mp hdefinition
      obtain ⟨hrow, hk'⟩ := mem_ofScenario.mp (h.kept k hk)
      rwa [← h.sound.unique k hrow r hr (hk'.trans hscenario.symm) heq]
    · intro hr
      obtain ⟨hrow, hscenario⟩ := mem_ofScenario.mp (h.kept r hr)
      refine ⟨⟨hrow, (hstays r hrow).mp fun _ => ?_⟩, hscenario⟩
      rw [← h.definitions]
      exact List.mem_map_of_mem hr
  · exact List.mem_filter.mpr ⟨hold hr, decide_eq_true ((hstays r (hold hr)).mp fun _ => hin)⟩
  · exact of_decide_eq_true (List.mem_filter.mp hr').2 r hr hnot
  · have hnew : new.filter (·.scenarioId ≠ scenarioId) = [] :=
      List.filter_eq_nil_iff.mpr fun r hr => by simp [(h.new r hr).1]
    calc (p.tables.rows.filter _).filter (·.scenarioId ≠ scenarioId)
        = p.tables.rows.filter (·.scenarioId ≠ scenarioId) := by
          rw [List.filter_filter]
          refine List.filter_congr fun r hr => ?_
          rw [Bool.and_eq_left_iff_imp, decide_eq_true_eq, decide_eq_true_eq]
          exact fun hother => (hstays r hr).mp fun hscenario => absurd hscenario hother
      _ = t.rows.filter (·.scenarioId ≠ scenarioId) := by
          rw [h.tables, List.filter_append, hnew, List.append_nil]

/-- Tables that have the definitions already: no row is inserted, and none is deleted. -/
theorem Replaced.again {out : List Row} {t' : Tables} (h : Replaced scenarioId defs t out t')
    (ht' : t'.Sound) {defs' : List Definition} (hdefs' : defs'.Nodup) (hperm : defs'.Perm defs)
    {now : ℤ} :
    ∃ out', replaceThresholds scenarioId defs' now t' = .ok (out', t') ∧ out'.Perm out := by
  obtain ⟨p, new, hplaced, hrun⟩ := replaceThresholds_eq scenarioId ht' hdefs' now
  have hall : ∀ g ∈ t'.ofScenario scenarioId, g.definition ∈ defs' := by
    intro g hg
    rw [hperm.mem_iff, ← h.definitions]
    exact List.mem_map_of_mem (h.stored.mem_iff.mp hg)
  have hnew : new = [] := by
    refine List.eq_nil_iff_forall_not_mem.mpr fun r hr => ?_
    obtain ⟨-, hdefinition, hfresh⟩ := hplaced.new r hr
    rw [hperm.mem_iff, ← h.definitions] at hdefinition
    obtain ⟨k, hk, heq⟩ := List.mem_map.mp hdefinition
    exact hfresh k (h.stored.mem_iff.mpr hk) heq
  have hsame : p.tables = t' := by
    rw [hplaced.tables, hnew]
    simp
  have hrest : { p.tables with
      rows := p.tables.rows.filter fun r =>
        ∀ g ∈ t'.ofScenario scenarioId, g.definition ∉ defs' → r.id ≠ g.id
      results := t'.results.filter fun res =>
        ∀ g ∈ t'.ofScenario scenarioId, g.definition ∉ defs' → res.thresholdId ≠ g.id } = t' := by
    rw [hsame, List.filter_eq_self.mpr fun r _ => decide_eq_true fun g hg hnot => absurd (hall g hg) hnot,
      List.filter_eq_self.mpr fun r _ => decide_eq_true fun g hg hnot => absurd (hall g hg) hnot]
  have hreplaced := hplaced.replaced hdefs'
  rw [hrest] at hrun hreplaced
  exact ⟨p.kept, hrun, hreplaced.stored.symm.trans h.stored⟩

/-- Replacing the thresholds of a scenario by definitions that differ goes through and is exact, and
doing so again, in any order, changes nothing. -/
theorem replaceThresholds_exact (ht : t.Sound) (hdefs : defs.Nodup) (scenarioId now : ℤ) :
    ∃ out t', replaceThresholds scenarioId defs now t = .ok (out, t') ∧ t'.Sound ∧
      Replaced scenarioId defs t out t' ∧
      ∀ defs' now', defs'.Perm defs →
        ∃ out', replaceThresholds scenarioId defs' now' t' = .ok (out', t') ∧ out'.Perm out := by
  obtain ⟨p, new, hplaced, hrun⟩ := replaceThresholds_eq scenarioId ht hdefs now
  have hreplaced := hplaced.replaced hdefs
  refine ⟨_, _, hrun, hplaced.sound.filter _ _, hreplaced, fun defs' now' hperm => ?_⟩
  exact hreplaced.again (hplaced.sound.filter _ _) (hperm.nodup_iff.mpr hdefs) hperm

end Replace

def someTables : Tables where
  rows :=
    [⟨1, 1, ⟨.httpP95MS, .lt, 500⟩, 0⟩, ⟨2, 1, ⟨.errorRate, .lt, 1 / 100⟩, 0⟩,
      ⟨3, 2, ⟨.httpP95MS, .lt, 500⟩, 0⟩]
  results := [⟨1, 1, 1, .httpP95MS, .lt, 500, some 100, some true, "", 0⟩]
  nextId := 4

/-- One of the two is kept, and a new one comes before it. -/
theorem replaceThresholds_exact_someTables :
    ∃ out t', replaceThresholds 1 [⟨.throughputQPS, .gt, 10⟩, ⟨.httpP95MS, .lt, 500⟩] 7 someTables =
        .ok (out, t') ∧
      Replaced 1 [⟨.throughputQPS, .gt, 10⟩, ⟨.httpP95MS, .lt, 500⟩] someTables out t' := by
  have hsound : someTables.Sound := ⟨by decide +kernel, by decide +kernel, by decide +kernel⟩
  obtain ⟨out, t', hrun, -, hreplaced, -⟩ := replaceThresholds_exact hsound
    (by decide +kernel : [Definition.mk .throughputQPS .gt 10, ⟨.httpP95MS, .lt, 500⟩].Nodup) 1 7
  exact ⟨out, t', hrun, hreplaced⟩

end Honryu.Thresholds
