import Honryu.Metrics.Histogram

/-!
What an engine pod reports: one interval per second and label, and the batch a
sidecar pushes them in.
-/

namespace Honryu.Metrics

/-- `ErrorGroup` is one failure mode within an interval, as the engine grouped it. -/
structure ErrorGroup where
  message : String
  responseCode : String
  count : ℤ
  deriving DecidableEq

/-- `Interval` is one second of measurement from one engine pod. A map the
engine left out and an empty one are the same to every reader of an interval. -/
structure Interval where
  seq : ℤ
  timestamp : ℤ
  label : String
  concurrency : ℤ
  samples : ℤ
  succeeded : ℤ
  failed : ℤ
  bytes : ℤ
  latency : Histogram
  responseCodes : TallyMap String ℤ
  errors : List ErrorGroup
  deriving DecidableEq

def Interval.NonNegative (iv : Interval) : Prop :=
  (0 ≤ iv.concurrency ∧ 0 ≤ iv.samples ∧ 0 ≤ iv.succeeded ∧ 0 ≤ iv.failed ∧ 0 ≤ iv.bytes) ∧
    (∀ p ∈ iv.latency.toList, 0 ≤ p.2) ∧ (∀ p ∈ iv.responseCodes.toList, 0 ≤ p.2) ∧
    ∀ e ∈ iv.errors, 0 ≤ e.count

instance (iv : Interval) : Decidable iv.NonNegative :=
  inferInstanceAs (Decidable ((0 ≤ iv.concurrency ∧ 0 ≤ iv.samples ∧ 0 ≤ iv.succeeded ∧
    0 ≤ iv.failed ∧ 0 ≤ iv.bytes) ∧ _ ∧ _ ∧ _))

/-- `Batch` is what a sidecar pushes in one request. `exitCode` is present
once the engine has finished on its own. -/
structure Batch where
  executionId : ℤ
  scenarioId : ℤ
  runId : ℤ
  shardIndex : ℤ
  streamId : String
  intervals : List Interval
  cluster : String
  final : Bool
  exitCode : Option ℤ
  deriving DecidableEq

end Honryu.Metrics
