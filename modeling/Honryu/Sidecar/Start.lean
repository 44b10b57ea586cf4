import Honryu.Sidecar.Sidecar

/-!
How a sidecar gets its identity: the command line the Kubernetes adapter writes
into the pod, and what the sidecar's `main` makes of it. A flag the command line
does not give keeps its default, and the command line gives no run: the run does
not exist yet when the pods are made.
-/

namespace Honryu.Sidecar

open Metrics

inductive Flag
  | stream (path : String)
  | exitCode (path : String)
  | ingestUrl (url : String)
  | executionId (id : ℤ)
  | scenarioId (id : ℤ)
  | runId (id : ℤ)
  | shardIndex (index : ℤ)
  | flushInterval (nanoseconds : ℤ)
  | labelMap (parsed : Option (TallyMap String String))

structure Flags where
  streamPath : String := "/honryu/kpi/stream.jsonl"
  exitCodePath : String := ""
  ingestUrl : String := ""
  executionId : ℤ := 0
  scenarioId : ℤ := 0
  runId : ℤ := 0
  shardIndex : ℤ := 0
  flushEvery : ℤ := 1000000000
  labelMap : Option (TallyMap String String) := some ∅

def Flags.set (f : Flags) : Flag → Flags
  | .stream path => { f with streamPath := path }
  | .exitCode path => { f with exitCodePath := path }
  | .ingestUrl url => { f with ingestUrl := url }
  | .executionId id => { f with executionId := id }
  | .scenarioId id => { f with scenarioId := id }
  | .runId id => { f with runId := id }
  | .shardIndex index => { f with shardIndex := index }
  | .flushInterval d => { f with flushEvery := d }
  | .labelMap parsed => { f with labelMap := parsed }

inductive ConfigError
  | ingestUrlRequired
  | labelMapInvalid
  deriving DecidableEq

/-- `configFrom`: the configuration a command line stands for. -/
def configFrom (decode : List UInt8 → Option Interval) (args : List Flag) :
    Except ConfigError Config :=
  let f := args.foldl Flags.set {}
  if f.ingestUrl = "" then .error .ingestUrlRequired
  else
    match f.labelMap with
    | none => .error .labelMapInvalid
    | some labelMap =>
        .ok
          { identity :=
              { executionId := f.executionId, scenarioId := f.scenarioId, runId := f.runId,
                shardIndex := f.shardIndex }
            labelMap, exitCodePath := f.exitCodePath, decode }

/-- The flags `sidecarScript` passes, in a pod with an ordinal. -/
def sidecarScript (ingestUrl : String) (executionId scenarioId ordinal : ℤ) : List Flag :=
  [.stream "/honryu/kpi/stream.jsonl", .exitCode "/honryu/kpi/exit-code", .ingestUrl ingestUrl,
    .executionId executionId, .scenarioId scenarioId, .shardIndex ordinal]

/-- A sidecar that the adapter has started belongs to run zero. -/
theorem configFrom_sidecarScript (decode : List UInt8 → Option Interval) (ingestUrl : String)
    (executionId scenarioId ordinal : ℤ) :
    configFrom decode (sidecarScript ingestUrl executionId scenarioId ordinal) =
      if ingestUrl = "" then .error .ingestUrlRequired
      else
        .ok
          { identity := { executionId, scenarioId, runId := 0, shardIndex := ordinal }
            labelMap := ∅, exitCodePath := "/honryu/kpi/exit-code", decode } :=
  rfl

end Honryu.Sidecar
