import Honryu.Control.MarkerConduct
import Honryu.Lib.Pool

/-!
Runs of one execution that follow each other.

A run is closed by deleting the marker of its execution, whatever run it names by then. As
long as no run is opened while somebody is closing the last one, nobody closes a run other
than the one it goes by.
-/

namespace Honryu.Control

open Call Lifecycle Metrics Quota

variable {p : Precision} (cfg : Config)

/-! ### The calls that open and close runs -/

inductive RunCall
  | ingest (batch : Batch)
  | stop (executionId : ℤ)
  | purge (executionId : ℤ)
  | reconcile
  | reconcileAbandoned (after : ℤ)
  | deploy (executionId : ℤ)
  | trigger (executionId : ℤ)

def RunCall.body : RunCall → Proc Unit
  | .ingest batch => Control.ingest cfg batch
  | .stop executionId => Control.stop cfg executionId
  | .purge executionId => Control.purge cfg executionId
  | .reconcile => Control.reconcile cfg
  | .reconcileAbandoned after => Control.reconcileAbandoned cfg after
  | .deploy executionId => Control.deploy executionId
  | .trigger executionId => Control.trigger cfg executionId

def runCalls : Traffic Answer Failure Unit (Store p) View RunCall Watching ℕ where
  server := server cfg
  body := RunCall.body cfg
  blank := .fresh
  opening _ := .fresh
  note := watchConduct.note
  outside d s := s.elapse d

/-- A run is opened only when no call goes by a marker of its execution that it has read
before. -/
def NobodyCloses (q : Pool Answer Failure Unit (Store p) Watching) : Turn View RunCall ℕ → Prop
  | .go i _ fails => ∀ e, Traffic.asks q i = some (.insertRun e) → fails = false →
      ∀ j, ∀ w ∈ (q.notes j).watched, w.1 ≠ e
  | _ => True

/-- What is done on behalf of one run does not clear the marker of another one, and does not
write the report of another one. -/
def Spares (s : Store p) : Op → Prop
  | .deleteRun e (some runId) => s.marker e = none ∨ s.marker e = some runId
  | .saveReport report (some runId) => report.runId = runId
  | _ => True

def KeepsApart (q : Pool Answer Failure Unit (Store p) Watching) : Turn View RunCall ℕ → Prop
  | .go i _ fails => fails = false → ∀ o, Traffic.asks q i = some o → Spares q.state o
  | _ => True

/-! ### What the calls go by still holds -/

/-- No call is lost, and every marker that one goes by is as it was, or gone. -/
structure Expected (s : Store p) (notes : ℕ → Watching) : Prop where
  lost : ∀ i, (notes i).lost = false
  watched : ∀ i, ∀ w ∈ (notes i).watched, s.marker w.1 = none ∨ s.marker w.1 = w.2

section Expected

variable {cfg} {s s' : Store p} {notes : ℕ → Watching} {i : ℕ} {g : Watching}

theorem Expected.update (h : Expected s notes) (hlost : g.lost = false)
    (hmarker : ∀ j, ∀ w ∈ (notes j).watched, s'.marker w.1 = none ∨ s'.marker w.1 = s.marker w.1)
    (hwatched : ∀ w ∈ g.watched,
      w ∈ (notes i).watched ∨ s'.marker w.1 = none ∨ s'.marker w.1 = w.2) :
    Expected s' (Function.update notes i g) := by
  have hold : ∀ j, ∀ w ∈ (notes j).watched, s'.marker w.1 = none ∨ s'.marker w.1 = w.2 := by
    intro j w hw
    rcases hmarker j w hw with hnone | hsame
    · exact .inl hnone
    · rw [hsame]
      exact h.watched j w hw
  refine ⟨fun j => ?_, fun j => ?_⟩
  · by_cases hj : j = i
    · rw [hj, Function.update_self, hlost]
    · rw [Function.update_of_ne hj, h.lost]
  · by_cases hj : j = i
    · rw [hj, Function.update_self]
      intro w hw
      rcases hwatched w hw with hmem | hnow
      · exact hold i w hmem
      · exact hnow
    · rw [Function.update_of_ne hj]
      exact hold j

/-- A question that changes no marker, and that nobody goes by. -/
theorem Expected.frame (h : Expected s notes) (hmarker : s'.marker = s.marker) :
    Expected s' (Function.update notes i (notes i)) :=
  h.update (h.lost i) (fun _ _ _ => .inr (by rw [hmarker])) fun _ hw => .inl hw

theorem mem_openRuns {row : HistoryRow} (h : row ∈ s.openRuns) :
    s.marker row.executionId = some row.runId := by
  have hmem := (List.perm_insertionSort _ _).mem_iff.mp h
  exact of_decide_eq_true (List.mem_filter.mp hmem).2

theorem Expected.not_unexpected (h : Expected s notes) {e runId : ℤ}
    (hmarker : s.marker e = some runId) : ¬(notes i).Unexpected e runId := by
  rintro ⟨w, hw, rfl, hne⟩
  rcases h.watched i w hw with hnone | hsame
  · cases hnone.symm.trans hmarker
  · exact hne (hsame.symm.trans hmarker)

theorem expected_performed (h : Expected s notes) {o : Op} (view : View)
    (hopens : ∀ e, o = .insertRun e → ∀ j, ∀ w ∈ (notes j).watched, w.1 ≠ e) :
    Expected (effect cfg s o) (Function.update notes i ((notes i).learn o (reply cfg view s o))) := by
  cases o with
  | currentRun e reading =>
      cases reading with
      | toClose =>
          refine h.update (h.lost i) (fun _ _ _ => .inr rfl) fun w hw => ?_
          rcases List.mem_cons.mp hw with rfl | hw
          · exact .inr (.inr rfl)
          · exact .inl hw
      | toKnow =>
          have hsame : (notes i).learn (.currentRun e .toKnow)
              (reply cfg view s (.currentRun e .toKnow)) = notes i := by
            simp only [reply]
            cases hmarker : s.marker e with
            | none => rfl
            | some runId => simp [Watching.learn, h.not_unexpected hmarker]
          rw [hsame]
          exact h.frame rfl
  | openRuns =>
      refine h.update (h.lost i) (fun _ _ _ => .inr rfl) fun w hw => ?_
      rcases List.mem_append.mp hw with hw | hw
      · obtain ⟨row, hrow, rfl⟩ := List.mem_map.mp hw
        exact .inr (.inr (mem_openRuns hrow))
      · exact .inl hw
  | insertRun e =>
      refine h.update (h.lost i) (fun j w hw => .inr ?_) fun w hw => .inl hw
      simp only [effect]
      split
      · rfl
      · exact Function.update_of_ne (hopens e rfl j w hw) _ _
  | deleteRun e onBehalf =>
      refine h.update (h.lost i) (fun j w hw => ?_) fun w hw => .inl hw
      by_cases he : w.1 = e
      · exact .inl (by rw [he]; exact Function.update_self ..)
      · exact .inr (Function.update_of_ne he _ _)
  | _ => exact h.frame rfl

end Expected

theorem minds_runCall (call : RunCall) (g : Watching) : Minds (call.body cfg) g := by
  cases call with
  | ingest batch => exact minds_ingest cfg batch
  | stop executionId => exact minds_stop cfg
  | purge executionId => exact minds_purge cfg
  | reconcile => exact minds_reconcile cfg
  | reconcileAbandoned after => exact minds_reconcileAbandoned cfg after
  | deploy executionId => exact minds_deploy executionId
  | trigger executionId => exact minds_trigger cfg executionId

theorem preserves_expected :
    (runCalls (p := p) cfg).Preserves watchConduct.rule
      (fun g => watchConduct.lost g = true ∨ True) NobodyCloses Expected where
  body call := (minds_runCall cfg call .fresh).mono fun _ _ _ => trivial
  opening q i call h hblank _ := by
    have hsame : Function.update q.notes i ((runCalls (p := p) cfg).opening call) = q.notes :=
      Function.update_eq_self_iff.mpr hblank.symm
    rwa [hsame]
  closing s notes i h _ :=
    h.update rfl (fun _ _ _ => .inr rfl) (List.forall_mem_nil _)
  performed q i o view fails h hasks _ hok hgoes := by
    have hnote : (runCalls (p := p) cfg).note o (reply cfg view q.state o) (q.notes i) =
        (q.notes i).learn o (reply cfg view q.state o) :=
      Conduct.note_of_not_lost (h.lost i) o _
    have hperformed : Expected (effect cfg q.state o)
        (Function.update q.notes i ((q.notes i).learn o (reply cfg view q.state o))) :=
      expected_performed h view fun e ho => hok e (ho ▸ hasks) (by
        subst ho
        cases fails with
        | false => rfl
        | true => cases hgoes rfl)
    exact hnote ▸ hperformed
  failed q i o view e h _ _ _ _ := by
    have hnothing : (q.notes i).learn o (.error e) = q.notes i := by
      cases o with
      | currentRun e reading => cases reading <;> rfl
      | _ => rfl
    have hnote : (runCalls (p := p) cfg).note o (.error e) (q.notes i) = q.notes i :=
      (Conduct.note_of_not_lost (h.lost i) o _).trans hnothing
    rw [hnote]
    exact h.frame rfl
  outside q d h _ := ⟨h.lost, h.watched⟩

/-- In every run in which no run is opened while somebody is closing the last one, whatever is
done on behalf of a run leaves the markers and the reports of the others alone. -/
theorem keepsApart_run (s : Store p) (turns : List (Turn View RunCall ℕ))
    (hok : (runCalls cfg).Along NobodyCloses ((runCalls cfg).quiet s) turns) :
    (runCalls cfg).Along KeepsApart ((runCalls cfg).quiet s) turns := by
  refine (preserves_expected cfg).along (fun q t htidy h _ => ?_)
    ⟨fun _ => rfl, fun _ => List.forall_mem_nil _⟩ hok
  cases t with
  | start i call => trivial
  | outside d => trivial
  | go i view fails =>
      intro _ o hasks
      have hallowed : (q.notes i).Allowed o :=
        Conduct.rule.allowed (htidy.rule_of_asks hasks) (h.lost i)
      unfold Spares
      split
      · exact h.watched i _ hallowed
      · exact hallowed
      · trivial

/-! ### A run, and the next one -/

def opensAlone (q : Pool Answer Failure Unit (Store p) Watching) : Turn View RunCall ℕ → Bool
  | .go i _ _ =>
      match Traffic.asks q i with
      | some (.insertRun e) => [0, 1, 2, 3].all fun j => (q.notes j).watched.all fun w => w.1 != e
      | _ => true
  | _ => true

theorem nobodyCloses_of_opensAlone (q : Pool Answer Failure Unit (Store p) Watching)
    (t : Turn View RunCall ℕ) (hothers : ∀ i, i ∉ [0, 1, 2, 3] → q.notes i = .fresh)
    (h : opensAlone q t = true) : NobodyCloses q t := by
  cases t with
  | go i view fails =>
      intro e hasks _ j w hw
      simp only [opensAlone, hasks, List.all_eq_true, bne_iff_ne] at h
      by_cases hj : j ∈ [0, 1, 2, 3]
      · exact h j hj w hw
      · rw [hothers j hj] at hw
        cases hw
  | _ => trivial

def stoppedAndOpened : List (Turn View RunCall ℕ) :=
  carriedOut 0 (.trigger 1) 22 ++ carriedOut 1 (.stop 1) 26 ++ carriedOut 2 (.deploy 1) 8 ++
    carriedOut 3 (.trigger 1) 22

theorem keepsApart_stoppedAndOpened :
    (runCalls smallConfig).Along KeepsApart
      ((runCalls smallConfig).quiet (.new : Store .microseconds)) stoppedAndOpened :=
  keepsApart_run smallConfig .new stoppedAndOpened
    (Traffic.Along.of_callers [0, 1, 2, 3] (by decide) nobodyCloses_of_opensAlone (fun _ _ => rfl)
      (by decide +kernel : (runCalls smallConfig).Along (opensAlone · · = true) _ stoppedAndOpened))

/-- The run is open, and one who is to stop it has read its marker. It is stopped by somebody
else, and the next one is opened. -/
def stoppedByTwo : List (Turn View RunCall ℕ) :=
  carriedOut 0 (.trigger 1) 22 ++ carriedOut 1 (.stop 1) 1 ++ carriedOut 2 (.stop 1) 26 ++
    carriedOut 3 (.deploy 1) 8 ++ carriedOut 4 (.trigger 1) 22 ++
      List.replicate 13 (.go 1 (.ready 2) false)

def writtenFor : Op → Option (ℤ × ℤ)
  | .saveReport report (some runId) => some (report.runId, runId)
  | _ => none

/-- What was to stop the first run writes the report of the second one. -/
theorem not_keepsApart_stoppedByTwo :
    ¬(runCalls smallConfig).Along KeepsApart
      ((runCalls smallConfig).quiet (.new : Store .microseconds))
        (stoppedByTwo ++ [.go 1 (.ready 2) false]) := by
  intro h
  have hwritten : (Traffic.asks ((runCalls smallConfig).run
      ((runCalls smallConfig).quiet (.new : Store .microseconds)) stoppedByTwo) 1).bind writtenFor =
        some (2, 1) := by decide +kernel
  obtain ⟨o, hasks, ho⟩ := Option.bind_eq_some_iff.mp hwritten
  have hspares := Traffic.Along.last _ h rfl o hasks
  unfold writtenFor at ho
  split at ho
  · obtain ⟨hreport, hbehalf⟩ := Prod.mk.inj (Option.some_inj.mp ho)
    exact absurd (hreport.symm.trans (hspares.trans hbehalf)) (by decide)
  · cases ho

end Honryu.Control
