import Honryu.Lib.RowMerge

/-!
Replacing the pods of a scenario.

The pods of a StatefulSet are replaced when its template changes. A deploy may
bring the very template that is there already, so every deploy writes a fresh
number into an annotation of it. The number comes from a counter of the process:
it differs from every number this process has drawn since it was started, and
may equal one that was drawn by another process, or by this one before it was
restarted.
-/

namespace Honryu.Scheduler

/-! ### The adapter -/

structure ShardSpec where
  index : ℤ
  config : String

structure DeploySpec where
  cluster : String
  projectId : ℤ
  executionId : ℤ
  scenarioId : ℤ
  image : String
  cpu : String
  memory : String
  shards : List ShardSpec
  scenarioFiles : TallyMap String String

def scenarioName (projectId executionId scenarioId : ℤ) : String :=
  s!"engine-{projectId}-{executionId}-{scenarioId}"

def DeploySpec.key (spec : DeploySpec) : String ×ₗ String :=
  toLex (spec.cluster, scenarioName spec.projectId spec.executionId spec.scenarioId)

structure PodTemplate where
  configHash : String
  image : String
  cpu : String
  memory : String
  deriving DecidableEq

structure StatefulSet where
  replicas : ℤ
  template : PodTemplate
  deriving DecidableEq

def int32Bounded (n : ℤ) : ℤ := if n < 0 then 0 else min n (2 ^ 31 - 1)

/-- The entries of the ConfigMap: a config for every shard, and the scenario's
own files. -/
def configData (spec : DeploySpec) : TallyMap String String :=
  let data := spec.shards.foldl
    (fun data sh => data.insert s!"shard-{sh.index}.yml" sh.config) (∅ : TallyMap String String)
  spec.scenarioFiles.toList.foldl
    (fun data file => data.insert ("scenario--" ++ file.1) file.2) data

structure World where
  counters : ℕ → UInt64
  configMaps : TallyMap (String ×ₗ String) (TallyMap String String)
  sets : TallyMap (String ×ₗ String) StatefulSet

namespace World

def new : World := { counters := fun _ => 0, configMaps := ∅, sets := ∅ }

/-- `redeployNonce` draws the next number of a process. -/
def redeployNonce (w : World) (process : ℕ) : World × String :=
  let counter := w.counters process + 1
  ({ w with counters := Function.update w.counters process counter }, counter.toNat.repr)

def ensureConfigMap (w : World) (spec : DeploySpec) : World :=
  { w with configMaps := w.configMaps.insert spec.key (configData spec) }

/-- `ensureStatefulSet` creates the set, or replaces the template of the one that
is there. The number is drawn before the API server is asked, and stays drawn if
it fails. -/
def ensureStatefulSet (w : World) (process : ℕ) (spec : DeploySpec) (fails : Bool) : World :=
  let (w, nonce) := w.redeployNonce process
  if fails then w
  else
    let replicas := int32Bounded spec.shards.length
    let template : PodTemplate :=
      { configHash := nonce, image := spec.image, cpu := spec.cpu, memory := spec.memory }
    let set := (w.sets[spec.key]?).elim { replicas, template } fun existing =>
      { existing with replicas, template }
    { w with sets := w.sets.insert spec.key set }

end World

inductive Answer
  | ok
  | configMapFails
  | statefulSetFails
  deriving DecidableEq

inductive Event
  | deploy (process : ℕ) (spec : DeploySpec) (answer : Answer)
  | restart (process : ℕ)

namespace World

def deployScenario (w : World) (process : ℕ) (spec : DeploySpec) : Answer → World
  | .configMapFails => w
  | .statefulSetFails => (w.ensureConfigMap spec).ensureStatefulSet process spec true
  | .ok => (w.ensureConfigMap spec).ensureStatefulSet process spec false

def step (w : World) : Event → World
  | .deploy process spec answer => w.deployScenario process spec answer
  | .restart process => { w with counters := Function.update w.counters process 0 }

def run (events : List Event) : World := events.foldl step new

theorem run_concat (events : List Event) (e : Event) : run (events ++ [e]) = (run events).step e := by
  simp [run]

end World

/-- Every deploy that finds a set and goes through changes the annotation of its
template. -/
def AlwaysReplaces (events : List Event) : Prop :=
  ∀ before process spec after, events = before ++ .deploy process spec .ok :: after →
    ∀ old new, (World.run before).sets[spec.key]? = some old →
      ((World.run before).step (.deploy process spec .ok)).sets[spec.key]? = some new →
      new.template.configHash ≠ old.template.configHash

/-! ### Counting draws -/

/-- How many numbers each process has drawn since it was started, and which draw
of its process the annotation of each set comes from. -/
structure Draws where
  drawn : ℕ → ℕ
  written : TallyMap (String ×ₗ String) ℕ

namespace Draws

def draw (d : Draws) (process : ℕ) : Draws :=
  { d with drawn := Function.update d.drawn process (d.drawn process + 1) }

def step (d : Draws) : Event → Draws
  | .deploy _ _ .configMapFails => d
  | .deploy process _ .statefulSetFails => d.draw process
  | .deploy process spec .ok =>
      { d.draw process with written := d.written.insert spec.key (d.drawn process + 1) }
  | .restart process => { d with drawn := Function.update d.drawn process 0 }

def run (events : List Event) : Draws :=
  events.foldl step { drawn := fun _ => 0, written := ∅ }

end Draws

def nonceOf (n : ℕ) : String := (n % 2 ^ 64).repr

structure Represents (w : World) (d : Draws) : Prop where
  counters : ∀ process, w.counters process = UInt64.ofNat (d.drawn process)
  sets : ∀ key : String ×ₗ String,
    (w.sets[key]?).map (fun set : StatefulSet => set.template.configHash) =
      (d.written[key]?).map nonceOf

section Represents

variable {w : World} {d : Draws} (h : Represents w d)
include h

theorem nonce_eq (process : ℕ) :
    (w.redeployNonce process).2 = nonceOf (d.drawn process + 1) := by
  show (w.counters process + 1).toNat.repr = _
  rw [h.counters, nonceOf, UInt64.toNat_add, UInt64.toNat_ofNat', UInt64.toNat_one, Nat.mod_add_mod]

theorem counters_draw (process other : ℕ) :
    (w.redeployNonce process).1.counters other = UInt64.ofNat ((d.draw process).drawn other) := by
  show Function.update w.counters process (w.counters process + 1) other =
    UInt64.ofNat (Function.update d.drawn process (d.drawn process + 1) other)
  by_cases hother : other = process
  · subst hother
    rw [Function.update_self, Function.update_self, h.counters, UInt64.ofNat_add]
    rfl
  · rw [Function.update_of_ne hother, Function.update_of_ne hother, h.counters]

theorem configHash_deploy (process : ℕ) (spec : DeploySpec) (key : String ×ₗ String) :
    ((w.step (.deploy process spec .ok)).sets[key]?).map
        (fun set : StatefulSet => set.template.configHash) =
      if spec.key = key then some (nonceOf (d.drawn process + 1))
      else (w.sets[key]?).map fun set : StatefulSet => set.template.configHash := by
  have hnonce : ((w.ensureConfigMap spec).redeployNonce process).2 = nonceOf (d.drawn process + 1) :=
    nonce_eq h process
  simp only [World.step, World.deployScenario, World.ensureStatefulSet, Bool.false_eq_true,
    if_false, TallyMap.getElem?_insert_eq_ite]
  split
  · rw [← hnonce]
    cases ((w.ensureConfigMap spec).redeployNonce process).1.sets[spec.key]? <;> rfl
  · rfl

theorem represents_step (e : Event) : Represents (w.step e) (d.step e) := by
  cases e with
  | deploy process spec answer =>
      cases answer with
      | ok =>
          refine ⟨counters_draw h process, fun key => ?_⟩
          rw [configHash_deploy h, h.sets key]
          simp only [Draws.step, TallyMap.getElem?_insert_eq_ite]
          split <;> rfl
      | configMapFails => exact h
      | statefulSetFails => exact ⟨counters_draw h process, h.sets⟩
  | restart process =>
      refine ⟨fun other => ?_, h.sets⟩
      show Function.update w.counters process 0 other =
        UInt64.ofNat (Function.update d.drawn process 0 other)
      by_cases hother : other = process
      · subst hother
        rw [Function.update_self, Function.update_self]
        rfl
      · rw [Function.update_of_ne hother, Function.update_of_ne hother, h.counters]

end Represents

theorem represents_run (events : List Event) :
    Represents (World.run events) (Draws.run events) := by
  induction events using List.reverseRecOn with
  | nil => exact ⟨fun _ => rfl, fun _ => rfl⟩
  | append_singleton events e ih =>
      rw [World.run_concat, Draws.run, List.foldl_append]
      exact represents_step ih e

/-- Every deploy replaces its pods exactly when its draw is never a multiple of
2 ^ 64 away from the draw the annotation it finds comes from. -/
theorem alwaysReplaces_iff (events : List Event) :
    AlwaysReplaces events ↔
      ∀ before process spec after, events = before ++ .deploy process spec .ok :: after →
        ∀ n, (Draws.run before).written[spec.key]? = some n →
          ¬n ≡ (Draws.run before).drawn process + 1 [MOD 2 ^ 64] := by
  refine forall₅_congr fun before process spec after _ => ?_
  have h := represents_run before
  have hnew := configHash_deploy h process spec spec.key
  have hold := h.sets spec.key
  rw [if_pos rfl] at hnew
  have hnonce (n m : ℕ) : nonceOf n = nonceOf m ↔ n ≡ m [MOD 2 ^ 64] := by
    rw [nonceOf, nonceOf, Nat.repr_inj, Nat.ModEq]
  constructor
  · intro hreplaces n hn hmod
    rw [hn] at hold
    obtain ⟨old, hfound, holdHash⟩ := Option.map_eq_some_iff.mp hold
    obtain ⟨new, hwritten, hnewHash⟩ := Option.map_eq_some_iff.mp hnew
    refine hreplaces old new hfound hwritten ?_
    rw [hnewHash, holdHash, hnonce]
    exact hmod.symm
  · intro hdraws old new hfound hwritten hsame
    rw [hfound] at hold
    rw [hwritten] at hnew
    obtain ⟨n, hn, hhash⟩ := Option.map_eq_some_iff.mp hold.symm
    refine hdraws n hn ?_
    rw [← hnonce, hhash]
    exact hsame.symm.trans (Option.some_inj.mp hnew)

def oneShard : DeploySpec :=
  { cluster := "", projectId := 1, executionId := 1, scenarioId := 1, image := "engine", cpu := "",
    memory := "", shards := [{ index := 0, config := "" }], scenarioFiles := ∅ }

/-- The process that deployed first is restarted before it deploys again. -/
theorem not_alwaysReplaces_restart :
    ¬AlwaysReplaces [.deploy 0 oneShard .ok, .restart 0, .deploy 0 oneShard .ok] := by
  intro h
  have hstep := h [.deploy 0 oneShard .ok, .restart 0] 0 oneShard [] rfl
  let set : StatefulSet :=
    { replicas := 1, template := { configHash := "1", image := "engine", cpu := "", memory := "" } }
  exact hstep set set (by decide +kernel) (by decide +kernel) rfl

end Honryu.Scheduler
