import Honryu.Schedules.Schedule

/-!
A scheduled run and a triggered one, and the capacity each asks for.

`reserveOccurrences` and `Trigger` work out what to reserve on their own. They agree on
the time. They agree on the rest if the execution belongs to a tenant, runs on its own
cluster only, and its pods are no larger than the baseline.
-/

namespace Honryu.Schedules

open Quota Lifecycle

def ask (r : Reservation) : String × ℤ × ℤ := (r.cluster, r.engineCount, r.endTime - r.startTime)

section Alike

variable (parse : String → Option Quantity) (sc : Schedule) (exe : SizedExecution)

/-- What is asked for an occurrence is what `Trigger` asks for, cluster by cluster. -/
def AsksAlike (fireTime start : ℤ) : Prop :=
  ∃ requests, triggerReservations parse exe start = .ok requests ∧
    requests.map ask = [ask (occurrenceReservation sc exe fireTime)]

/-- The execution belongs to a tenant and runs on its own cluster only, and each of its
pods counts for one engine. -/
structure SizedAlike : Prop where
  tenant : exe.tenantId.isSome
  own_cluster : exe.fanOutTargets = [] ∨ exe.fanOutTargets = [exe.cluster]
  cpu_readable : Readable parse exe.cpu
  memory_readable : Readable parse exe.memory
  baseline : exe.totalEngines = 0 ∨
    AtMost parse Quantity.milliValue baselineEngineCpu exe.cpu ∧
      AtMost parse Quantity.value baselineEngineMemory exe.memory

variable {parse sc exe}

theorem clusters_eq_own_iff :
    exe.clusters = [exe.cluster] ↔
      exe.fanOutTargets = [] ∨ exe.fanOutTargets = [exe.cluster] := by
  rw [Execution.clusters, Execution.isFanOut]
  by_cases hnone : exe.fanOutTargets = []
  · simp [hnone]
  · simp [hnone]

/-- Both windows are as long as the longest entry runs, so what remains is where, and
how much. -/
theorem asks_eq_iff (tenantId engineUnits fireTime start : ℤ) :
    (exe.clusters.map (runReservation exe.toExecution tenantId engineUnits start)).map ask =
        [ask (occurrenceReservation sc exe fireTime)] ↔
      exe.clusters = [exe.cluster] ∧ engineUnits = exe.totalEngines := by
  rw [List.map_map]
  constructor
  · intro h
    obtain ⟨cluster, hclusters, heq⟩ := List.map_eq_singleton_iff.mp h
    obtain ⟨rfl, hunits⟩ : cluster = exe.cluster ∧ engineUnits = exe.totalEngines := by
      simpa [ask, runReservation, occurrenceReservation] using heq
    exact ⟨hclusters, hunits⟩
  · rintro ⟨hclusters, rfl⟩
    rw [hclusters]
    simp [ask, runReservation, occurrenceReservation]

/-- A scheduled run asks for what a triggered one asks for if and only if the
execution belongs to a tenant, runs on its own cluster only, and its pods are no larger
than the baseline. -/
theorem asksAlike_iff (parse : String → Option Quantity) (sc : Schedule) (exe : SizedExecution)
    (fireTime start : ℤ) : AsksAlike parse sc exe fireTime start ↔ SizedAlike parse exe := by
  have hunits := engineEquivalents_eq_self_iff parse exe.cpu exe.memory exe.totalEngines
  unfold AsksAlike triggerReservations
  cases htenant : exe.tenantId with
  | none =>
      constructor
      · rintro ⟨requests, hnone, hsame⟩
        cases hnone
        cases hsame
      · intro h
        simpa [htenant] using h.tenant
  | some tenantId =>
      constructor
      · rintro ⟨requests, hrequests, hsame⟩
        obtain ⟨engineUnits, heq, rfl⟩ := Checked.map_eq_ok.mp hrequests
        obtain ⟨hclusters, rfl⟩ := (asks_eq_iff tenantId engineUnits fireTime start).mp hsame
        obtain ⟨hcpu, hmemory, hbaseline⟩ := hunits.mp heq
        exact ⟨by simp [htenant], clusters_eq_own_iff.mp hclusters, hcpu, hmemory, hbaseline⟩
      · intro h
        have heq := hunits.mpr ⟨h.cpu_readable, h.memory_readable, h.baseline⟩
        refine ⟨_, Checked.map_eq_ok.mpr ⟨_, heq, rfl⟩, ?_⟩
        exact (asks_eq_iff tenantId _ fireTime start).mpr
          ⟨clusters_eq_own_iff.mpr h.own_cluster, rfl⟩

end Alike

/-! ### A fan-out -/

def minuteEntry : LoadProfile.Entry :=
  { name := "load", scenarioId := 1, concurrency := 10, rampup := 0, engines := 2, throughput := 0
    duration := 60, csvSplit := false, mode := .advanced, steps := 0 }

def fanOutExecution : SizedExecution :=
  { executionId := 1, cluster := "home", fanOutTargets := ["eu", "us"], profile := [minuteEntry]
    tenantId := some 1, cpu := "", memory := "" }

def nightly : Schedule :=
  { id := 1, executionId := 1, tenantId := 1, kind := .recurring, fireAt := none
    recurrence := "0 3 * * *", active := true }

/-- For an occurrence, two engines are reserved on the cluster on which none of them
will run. -/
theorem not_asksAlike_fanOutExecution :
    (triggerReservations (fun _ => none) fanOutExecution 0).map (List.map ask) =
        .ok [("eu", 2, 60 * 10 ^ 9), ("us", 2, 60 * 10 ^ 9)] ∧
      ask (occurrenceReservation nightly fanOutExecution 0) = ("home", 2, 60 * 10 ^ 9) ∧
      ¬AsksAlike (fun _ => none) nightly fanOutExecution 0 0 := by
  have htrigger : triggerReservations (fun _ => none) fanOutExecution 0 =
      .ok (["eu", "us"].map (runReservation fanOutExecution.toExecution 1 2 0)) := by
    decide +kernel
  refine ⟨by rw [htrigger]; decide, by decide, ?_⟩
  rintro ⟨requests, hrequests, hsame⟩
  rw [htrigger] at hrequests
  cases hrequests
  exact absurd (congrArg List.length hsame) (by decide)

end Honryu.Schedules
