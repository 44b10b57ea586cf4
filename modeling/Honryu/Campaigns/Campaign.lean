import Honryu.Lib.Checked
import Honryu.Lib.Keyed
import Mathlib.Data.Int.Notation
import Mathlib.Data.List.Sort

/-!
Campaigns: for a time, the projects that take part are to run nothing but the one
execution each of them has designated.

The store keeps campaigns that have passed their own check, and whose designated executions
belong to the projects they are registered under. Projects and executions are kept elsewhere.
-/

namespace Honryu.Campaigns

/-! ### One campaign -/

/-- `Window` is half-open. -/
structure Window where
  startTime : ℤ
  endTime : ℤ
  deriving DecidableEq

/-- `Service` is a project that takes part, and the execution it has designated. -/
structure Service where
  projectId : ℤ
  executionId : ℤ
  deriving DecidableEq

structure Campaign where
  id : ℤ
  name : String
  tenantId : ℤ
  window : Window
  services : List Service
  abortedAt : Option ℤ
  deriving DecidableEq

inductive CampaignError
  | nameRequired
  | windowInvalid
  | servicesRequired
  | duplicateService
  | projectRequired
  | serviceExecutionInvalid
  deriving DecidableEq

/-- The loop of `Validate`, with the projects it has seen. -/
def validateServices (seen : List ℤ) : List Service → Except CampaignError Unit
  | [] => .ok ()
  | svc :: rest =>
      if svc.projectId ≤ 0 then .error .projectRequired
      else if svc.executionId ≤ 0 then .error .serviceExecutionInvalid
      else if svc.projectId ∈ seen then .error .duplicateService
      else validateServices (svc.projectId :: seen) rest

namespace Campaign

variable (c : Campaign)

/-- `Validate` checks a campaign's own invariants. -/
def validate : Except CampaignError Unit :=
  if c.name = "" then .error .nameRequired
  else if ¬c.window.startTime < c.window.endTime then .error .windowInvalid
  else if c.services.isEmpty then .error .servicesRequired
  else validateServices [] c.services

/-- `IsActive`. -/
def isActive (now : ℤ) : Bool :=
  c.abortedAt.isNone && (c.window.startTime ≤ now && now < c.window.endTime)

/-- `DesignatedExecution` of a project, if it takes part. -/
def designatedExecution (projectId : ℤ) : Option ℤ :=
  (c.services.find? fun svc => svc.projectId = projectId).map (·.executionId)

def Includes (projectId : ℤ) : Prop := ∃ svc ∈ c.services, svc.projectId = projectId

def Designates (executionId : ℤ) : Prop := ∃ svc ∈ c.services, svc.executionId = executionId

variable {c}

theorem isSome_designatedExecution {projectId : ℤ} :
    (c.designatedExecution projectId).isSome ↔ c.Includes projectId := by
  simp [designatedExecution, Includes]

theorem name_ne_of_validate (h : c.validate = .ok ()) : c.name ≠ "" := by
  simp only [validate, Checked.guard_eq_ok] at h
  exact h.1

end Campaign

theorem nodup_of_validateServices {seen : List ℤ} {services : List Service}
    (h : validateServices seen services = .ok ()) :
    (services.map (·.projectId)).Nodup ∧ ∀ svc ∈ services, svc.projectId ∉ seen := by
  induction services generalizing seen with
  | nil => exact ⟨List.nodup_nil, List.forall_mem_nil _⟩
  | cons svc rest ih =>
      simp only [validateServices, Checked.guard_eq_ok] at h
      obtain ⟨-, -, hnew, hrest⟩ := h
      obtain ⟨hnodup, hunseen⟩ := ih hrest
      refine ⟨List.nodup_cons.mpr ⟨fun hmem => ?_, hnodup⟩,
        List.forall_mem_cons.mpr ⟨hnew, fun x hx => ?_⟩⟩
      · obtain ⟨x, hx, heq⟩ := List.mem_map.mp hmem
        exact hunseen x hx (List.mem_cons.mpr (.inl heq))
      · exact fun hseen => hunseen x hx (List.mem_cons_of_mem _ hseen)

theorem Campaign.nodup_of_validate {c : Campaign} (h : c.validate = .ok ()) :
    (c.services.map (·.projectId)).Nodup := by
  simp only [validate, Checked.guard_eq_ok] at h
  exact (nodup_of_validateServices h.2.2.2).1

/-! ### The store -/

/-- `Kind` of an execution. -/
inductive Kind
  | normal
  | calibrateEngine
  deriving DecidableEq

structure ExecutionRow where
  projectId : ℤ
  kind : Kind
  deriving DecidableEq

structure Catalogue where
  execution : ℤ → Option ExecutionRow
  project : ℤ → Option (Option ℤ)

def Catalogue.projectOf (cat : Catalogue) (executionId : ℤ) : Option ℤ :=
  (cat.execution executionId).map (·.projectId)

inductive ServiceError
  | notFound
  | campaignStarted
  | campaign (e : CampaignError)
  | executionMismatch (executionId projectId : ℤ)
  | projectTenantMismatch (projectId : ℤ)
  deriving DecidableEq

/-- `verifyServices`: the designated executions belong to the projects, and these to the
tenant. -/
def verifyServices (cat : Catalogue) (tenantId : ℤ) : List Service → Except ServiceError Unit
  | [] => .ok ()
  | svc :: rest =>
      match cat.execution svc.executionId with
      | none => .error .notFound
      | some exe =>
          if exe.projectId ≠ svc.projectId then
            .error (.executionMismatch svc.executionId svc.projectId)
          else
            match cat.project svc.projectId with
            | none => .error .notFound
            | some tenant =>
                if tenant ≠ some tenantId then .error (.projectTenantMismatch svc.projectId)
                else verifyServices cat tenantId rest

theorem projectOf_of_verifyServices {cat : Catalogue} {tenantId : ℤ} {services : List Service}
    (h : verifyServices cat tenantId services = .ok ()) :
    ∀ svc ∈ services, cat.projectOf svc.executionId = some svc.projectId := by
  induction services with
  | nil => exact List.forall_mem_nil _
  | cons svc rest ih =>
      rw [verifyServices] at h
      cases hexe : cat.execution svc.executionId with
      | none => simp [hexe] at h
      | some exe =>
          simp only [hexe, Checked.guard_eq_ok, not_not] at h
          obtain ⟨hproject, h⟩ := h
          cases htenant : cat.project svc.projectId with
          | none => simp [htenant] at h
          | some tenant =>
              simp only [htenant, Checked.guard_eq_ok] at h
              refine List.forall_mem_cons.mpr ⟨?_, ih h.2⟩
              rw [Catalogue.projectOf, hexe, Option.map_some, hproject]

/-- The campaigns there are. Each has passed its check, and what a project has designated is
its own. -/
structure Store (cat : Catalogue) where
  rows : List Campaign
  nextId : ℤ
  id_lt : ∀ c ∈ rows, c.id < nextId
  nodup : (rows.map (·.id)).Nodup
  valid : ∀ c ∈ rows, c.validate = .ok ()
  owns : ∀ c ∈ rows, ∀ svc ∈ c.services, cat.projectOf svc.executionId = some svc.projectId

namespace Store

variable {cat : Catalogue} (st : Store cat)

def empty : Store cat :=
  { rows := [], nextId := 1, id_lt := by simp, nodup := by simp, valid := by simp, owns := by simp }

/-- `GetCampaign`. -/
def get (id : ℤ) : Option Campaign := st.rows.find? fun c => c.id = id

/-- `ListActiveCampaigns`. -/
def active (now : ℤ) : List Campaign := st.rows.filter fun c => c.isActive now

/-- `CreateCampaign` of a campaign that has been checked. -/
def insert (c : Campaign) (hvalid : c.validate = .ok ())
    (howns : ∀ svc ∈ c.services, cat.projectOf svc.executionId = some svc.projectId) :
    Store cat where
  rows := st.rows ++ [{ c with id := st.nextId }]
  nextId := st.nextId + 1
  id_lt := by
    intro x hx
    rcases List.mem_append.mp hx with hx | hx
    · exact (st.id_lt x hx).trans (Int.lt_succ _)
    · obtain rfl := List.mem_singleton.mp hx
      exact Int.lt_succ _
  nodup := by
    rw [List.map_append, List.map_singleton, List.nodup_append]
    refine ⟨st.nodup, List.nodup_singleton _, fun x hx y hy => ?_⟩
    obtain ⟨c', hc', rfl⟩ := List.mem_map.mp hx
    obtain rfl := List.mem_singleton.mp hy
    exact (st.id_lt c' hc').ne
  valid := by
    intro x hx
    rcases List.mem_append.mp hx with hx | hx
    · exact st.valid x hx
    · obtain rfl := List.mem_singleton.mp hx
      exact hvalid
  owns := by
    intro x hx
    rcases List.mem_append.mp hx with hx | hx
    · exact st.owns x hx
    · obtain rfl := List.mem_singleton.mp hx
      exact howns

/-- `Create` checks a campaign and stores it. -/
def create (c : Campaign) : Except ServiceError (Store cat × Campaign) :=
  match hvalid : c.validate with
  | .error e => .error (.campaign e)
  | .ok () =>
      match howns : verifyServices cat c.tenantId c.services with
      | .error e => .error e
      | .ok () =>
          .ok (st.insert c hvalid (projectOf_of_verifyServices howns), { c with id := st.nextId })

/-- The row of an id is replaced by what has been made of it. -/
def modify (id : ℤ) (f : Campaign → Campaign) (hid : ∀ c, (f c).id = c.id)
    (hvalid : ∀ c, c.validate = .ok () → (f c).validate = .ok ())
    (howns : ∀ c, (∀ svc ∈ c.services, cat.projectOf svc.executionId = some svc.projectId) →
      ∀ svc ∈ (f c).services, cat.projectOf svc.executionId = some svc.projectId) : Store cat where
  rows := st.rows.map fun c => if c.id = id then f c else c
  nextId := st.nextId
  id_lt := by
    intro x hx
    obtain ⟨c, hc, rfl⟩ := List.mem_map.mp hx
    split
    · exact hid c ▸ st.id_lt c hc
    · exact st.id_lt c hc
  nodup := by
    rw [Keyed.map_key_modify hid]
    exact st.nodup
  valid := by
    intro x hx
    obtain ⟨c, hc, rfl⟩ := List.mem_map.mp hx
    split
    · exact hvalid c (st.valid c hc)
    · exact st.valid c hc
  owns := by
    intro x hx
    obtain ⟨c, hc, rfl⟩ := List.mem_map.mp hx
    split
    · exact howns c (st.owns c hc)
    · exact st.owns c hc

/-- `Abort`. -/
def abort (id now : ℤ) : Except ServiceError (Store cat) :=
  if (st.get id).isNone then .error .notFound
  else .ok (st.modify id (fun c => { c with abortedAt := some now }) (fun _ => rfl)
    (fun _ h => h) fun _ h => h)

/-- `Update` replaces the name, the window and the services of a campaign that has not
started. -/
def update (id now : ℤ) (next : Campaign) : Except ServiceError (Store cat) :=
  match st.get id with
  | none => .error .notFound
  | some existing =>
      if ¬now < existing.window.startTime then .error .campaignStarted
      else
        match hvalid : next.validate with
        | .error e => .error (.campaign e)
        | .ok () =>
            match howns : verifyServices cat existing.tenantId next.services with
            | .error e => .error e
            | .ok () =>
                .ok (st.modify id
                  (fun c => { c with name := next.name, window := next.window, services := next.services })
                  (fun _ => rfl) (fun _ _ => hvalid) fun _ _ => projectOf_of_verifyServices howns)

variable {st} {c : Campaign}

theorem get_of_mem (hc : c ∈ st.rows) : st.get c.id = some c :=
  (Keyed.find?_eq_some_iff st.nodup).mpr ⟨hc, rfl⟩

/-- What is designated for a project, seen from the execution. -/
theorem designatedExecution_eq_iff (hc : c ∈ st.rows) {executionId projectId : ℤ}
    (hproject : cat.projectOf executionId = some projectId) :
    c.designatedExecution projectId = some executionId ↔ c.Designates executionId := by
  have hnodup := Campaign.nodup_of_validate (st.valid c hc)
  rw [Campaign.designatedExecution, Option.map_eq_some_iff]
  constructor
  · rintro ⟨svc, hfind, heq⟩
    exact ⟨svc, List.mem_of_find?_eq_some hfind, heq⟩
  · rintro ⟨svc, hsvc, rfl⟩
    have howner : svc.projectId = projectId :=
      Option.some_inj.mp ((st.owns c hc svc hsvc).symm.trans hproject)
    exact ⟨svc, (Keyed.find?_eq_some_iff hnodup).mpr ⟨hsvc, howner⟩, rfl⟩

end Store

/-! ### Freezing -/

/-- The loop of `IsFrozen`, with the name of the first campaign that blocks. -/
def blockedBy (projectId executionId : ℤ) : String → List Campaign → Option String
  | blockingCampaign, [] => if blockingCampaign ≠ "" then some blockingCampaign else none
  | blockingCampaign, c :: rest =>
      match c.designatedExecution projectId with
      | none => blockedBy projectId executionId blockingCampaign rest
      | some designated =>
          if designated = executionId then none
          else blockedBy projectId executionId
            (if blockingCampaign = "" then c.name else blockingCampaign) rest

/-- `IsFrozen` names a campaign that blocks an execution, if it is blocked. -/
def isFrozen {cat : Catalogue} (st : Store cat) (now projectId executionId : ℤ) : Option String :=
  blockedBy projectId executionId "" (st.active now)

theorem isSome_blockedBy {projectId executionId : ℤ} {blocking : String} {l : List Campaign}
    (hname : ∀ c ∈ l, c.name ≠ "") :
    (blockedBy projectId executionId blocking l).isSome ↔
      (∀ c ∈ l, c.designatedExecution projectId ≠ some executionId) ∧
        (blocking ≠ "" ∨ ∃ c ∈ l, c.Includes projectId) := by
  induction l generalizing blocking with
  | nil => by_cases hblocking : blocking = "" <;> simp [blockedBy, hblocking]
  | cons c rest ih =>
      obtain ⟨hc, hrest⟩ := List.forall_mem_cons.mp hname
      have hincludes : (c.designatedExecution projectId).isSome ↔ c.Includes projectId :=
        Campaign.isSome_designatedExecution
      rw [blockedBy]
      cases hdesignated : c.designatedExecution projectId with
      | none =>
          have hnot : ¬c.Includes projectId := fun h => by simp [hdesignated, h] at hincludes
          simp [ih hrest, hdesignated, hnot]
      | some designated =>
          have hyes : c.Includes projectId := hincludes.mp (by rw [hdesignated, Option.isSome_some])
          by_cases heq : designated = executionId
          · simp [heq, hdesignated]
          · have hsomeone : (if blocking = "" then c.name else blocking) ≠ "" := by
              split
              · exact hc
              · assumption
            simp [ih hrest, hdesignated, heq, hyes, hsomeone, -ite_eq_left_iff, -ite_eq_right_iff]

/-- An execution is blocked if its project takes part in an active campaign, and no active
campaign designates it. -/
theorem isSome_isFrozen {cat : Catalogue} (st : Store cat) (now : ℤ) {projectId executionId : ℤ}
    (hproject : cat.projectOf executionId = some projectId) :
    (isFrozen st now projectId executionId).isSome ↔
      (∀ c ∈ st.active now, ¬c.Designates executionId) ∧
        ∃ c ∈ st.active now, c.Includes projectId := by
  have hrow : ∀ c ∈ st.active now, c ∈ st.rows := fun c hc => List.mem_of_mem_filter hc
  rw [isFrozen, isSome_blockedBy fun c hc => Campaign.name_ne_of_validate (st.valid c (hrow c hc))]
  refine and_congr (forall₂_congr fun c hc => not_congr ?_) (by simp)
  exact Store.designatedExecution_eq_iff (hrow c hc) hproject

/-! ### What is in scope -/

/-- What `InScopeExecutions` selects out of what is deployed. -/
def inScope (cat : Catalogue) (c : Campaign) (deployed : List ℤ) : List ℤ :=
  (deployed.filter fun executionId =>
    executionId ∉ c.services.map (·.executionId) &&
      (cat.projectOf executionId).any (· ∈ c.services.map (·.projectId))).insertionSort (· ≤ ·)

theorem mem_inScope {cat : Catalogue} {c : Campaign} {deployed : List ℤ} {executionId : ℤ} :
    executionId ∈ inScope cat c deployed ↔
      executionId ∈ deployed ∧ ¬c.Designates executionId ∧
        ∃ projectId, cat.projectOf executionId = some projectId ∧ c.Includes projectId := by
  simp [inScope, Campaign.Designates, Campaign.Includes, List.mem_insertionSort, Option.any_eq_true]

end Honryu.Campaigns
