import Honryu.Lib.Visit

/-!
Roles and what they permit.

A request is authorised role by role, and the permissions of an account are shown as one map in
which the grants of all its roles are merged. The map says the same as the decisions, as long as
a resource or an action of `*` is read as any.
-/

namespace Honryu.Auth

/-! ### Roles -/

/-- `Wildcard` matches any resource or action. -/
def wildcard : String := "*"

structure Permission where
  resource : String
  actions : List String
  deriving DecidableEq

/-- `Allows` reports whether the permission covers a resource and an action. -/
def Permission.allows (p : Permission) (resource action : String) : Bool :=
  if p.resource ≠ wildcard ∧ p.resource ≠ resource then false
  else p.actions.any fun a => a = wildcard ∨ a = action

structure Role where
  name : String
  permissions : List Permission
  tenantScoped : Bool
  deriving DecidableEq

/-- `Can` reports whether any of the role's permissions covers a resource and an action. -/
def Role.can (r : Role) (resource action : String) : Bool :=
  r.permissions.any fun p => p.allows resource action

/-- An authenticated principal and its roles, of which `tenants` has those it holds within a
tenant. -/
structure Account where
  subject : String
  globalRoles : List String
  tenants : TallyMap ℤ (List String)

def Account.rolesInTenant (acct : Account) (tenantId : ℤ) : List String :=
  acct.tenants[tenantId]?.getD []

/-! ### Decisions -/

structure Request where
  resource : String
  action : String
  tenantId : Option ℤ

structure Decision where
  allowed : Bool
  reason : String
  rule : String
  deriving DecidableEq

abbrev Catalog := TallyMap String Role

def Catalog.grants (catalog : Catalog) (req : Request) (name : String) : Bool :=
  catalog[name]?.any fun role => role.can req.resource req.action

/-- `Authorize` decides whether an account may do what is requested. -/
def authorize (acct : Account) (catalog : Catalog) (req : Request) : Decision :=
  match acct.globalRoles.find? (catalog.grants req) with
  | some name => { allowed := true, reason := "granted by global role", rule := name }
  | none =>
      match req.tenantId.bind fun t => (acct.rolesInTenant t).find? (catalog.grants req) with
      | some name => { allowed := true, reason := "granted by tenant role", rule := name }
      | none => { allowed := false, reason := "no role grants this action", rule := "" }

/-! ### Permissions -/

abbrev Permissions := TallyMap String (List String)

def addAction (resource : String) (out : Permissions) (action : String) : Permissions :=
  if action ∈ out[resource]?.getD [] then out
  else out.insert resource (out[resource]?.getD [] ++ [action])

def addPermission (out : Permissions) (p : Permission) : Permissions :=
  p.actions.foldl (addAction p.resource) out

/-- `mergePermissions` folds a role's permissions in, and sorts the actions. -/
def mergePermissions (out : Permissions) (role : Role) : Permissions :=
  (role.permissions.foldl addPermission out).mapValues (·.insertionSort (· ≤ ·))

/-- The roles of a list of names are merged, each once. A name that is not in the catalog counts
for nothing. -/
def mergeRoles (catalog : Catalog) : List String → List String → Permissions → Permissions
  | [], _, out => out
  | name :: rest, seen, out =>
      if name ∈ seen then mergeRoles catalog rest seen out
      else
        match catalog[name]? with
        | some role => mergeRoles catalog rest (name :: seen) (mergePermissions out role)
        | none => mergeRoles catalog rest (name :: seen) out

structure Service where
  catalog : Catalog
  enabled : Bool

namespace Service

variable (s : Service) (visit : Visit)

def authorize (acct : Account) (req : Request) : Decision :=
  if s.enabled = false then { allowed := true, reason := "rbac disabled", rule := "" }
  else Auth.authorize acct s.catalog req

/-- `flattenTenants`: the roles an account holds in any tenant. -/
def flattenTenants (acct : Account) : List String := (visit.values acct.tenants).flatten

/-- `Permissions` returns the actions an account may perform on each resource. -/
def permissions (acct : Account) : Permissions :=
  if s.enabled = false then (visit.values s.catalog).foldl mergePermissions ∅
  else mergeRoles s.catalog (acct.globalRoles ++ flattenTenants visit acct) [] ∅

end Service

def Permissions.Covers (out : Permissions) (resource action : String) : Prop :=
  ∃ r a, (r = wildcard ∨ r = resource) ∧ (a = wildcard ∨ a = action) ∧ a ∈ out[r]?.getD []

/-! ### The built-in roles -/

/-- The roles of `DefaultCatalog`. -/
def defaultRoles : List Role :=
  let all := ["create", "read", "update", "delete", "list", "admin"]
  let write := ["create", "read", "update", "delete", "list"]
  let read := ["read", "list"]
  [{ name := "service_provider_admin", tenantScoped := false
     permissions := [⟨wildcard, [wildcard]⟩] },
    { name := "tenant_admin", tenantScoped := true
      permissions := [⟨"project", all⟩, ⟨"execution", all⟩, ⟨"scenario", all⟩, ⟨"run", all⟩,
        ⟨"schedule", all⟩, ⟨"report", all⟩, ⟨"tenant", ["admin"]⟩] },
    { name := "tenant_editor", tenantScoped := true
      permissions := [⟨"project", write⟩, ⟨"execution", write⟩, ⟨"scenario", write⟩, ⟨"run", write⟩,
        ⟨"schedule", write⟩, ⟨"report", read⟩] },
    { name := "tenant_viewer", tenantScoped := true
      permissions := [⟨"project", read⟩, ⟨"execution", read⟩, ⟨"scenario", read⟩, ⟨"run", read⟩,
        ⟨"schedule", read⟩, ⟨"report", read⟩] },
    { name := "campaign_manager", tenantScoped := true
      permissions := [⟨"campaign", all⟩, ⟨"project", read⟩, ⟨"execution", read⟩, ⟨"schedule", read⟩,
        ⟨"report", read⟩] }]

/-- `DefaultCatalog` has each role under its name. -/
def defaultCatalog : Catalog := .ofList (defaultRoles.map fun role => (role.name, role))

/-- `NewService` takes the built-in roles. -/
def Service.new (enabled : Bool) : Service := { catalog := defaultCatalog, enabled }

/-! ### What is merged -/

section Merge

variable {catalog : Catalog} {out : Permissions} {resource action r a : String}

theorem mem_addAction :
    a ∈ (addAction resource out action)[r]?.getD [] ↔
      a ∈ out[r]?.getD [] ∨ r = resource ∧ a = action := by
  unfold addAction
  split
  · rename_i hmem
    refine ⟨.inl, ?_⟩
    rintro (h | ⟨rfl, rfl⟩)
    · exact h
    · exact hmem
  · rw [TallyMap.getElem?_insert_eq_ite]
    split
    · rename_i heq
      subst heq
      simp
    · rename_i hne
      simp [Ne.symm hne]

theorem mem_addPermission {p : Permission} :
    a ∈ (addPermission out p)[r]?.getD [] ↔
      a ∈ out[r]?.getD [] ∨ r = p.resource ∧ a ∈ p.actions := by
  unfold addPermission
  induction p.actions generalizing out with
  | nil => simp
  | cons action rest ih =>
      rw [List.foldl_cons, ih, mem_addAction, List.mem_cons, or_assoc, ← and_or_left]

def Role.Has (role : Role) (resource action : String) : Prop :=
  ∃ p ∈ role.permissions, resource = p.resource ∧ action ∈ p.actions

theorem mem_mergePermissions {role : Role} :
    a ∈ (mergePermissions out role)[r]?.getD [] ↔ a ∈ out[r]?.getD [] ∨ role.Has r a := by
  have hmerged : a ∈ (role.permissions.foldl addPermission out)[r]?.getD [] ↔
      a ∈ out[r]?.getD [] ∨ role.Has r a := by
    unfold Role.Has
    induction role.permissions generalizing out with
    | nil => simp
    | cons p rest ih =>
        rw [List.foldl_cons, ih, mem_addPermission, List.exists_mem_cons_iff, or_assoc]
  rw [mergePermissions, TallyMap.getElem?_mapValues, ← hmerged]
  cases (role.permissions.foldl addPermission out)[r]? with
  | none => rfl
  | some actions => exact List.mem_insertionSort _

/-- A role of a list of names, which was not seen before, has a permission. -/
theorem mem_mergeRoles {names seen : List String} :
    a ∈ (mergeRoles catalog names seen out)[r]?.getD [] ↔
      a ∈ out[r]?.getD [] ∨
        ∃ name ∈ names, name ∉ seen ∧ ∃ role ∈ catalog[name]?, role.Has r a := by
  induction names generalizing seen out with
  | nil => simp [mergeRoles]
  | cons name rest ih =>
      -- a name that comes again adds nothing to what it has added
      have hlater : (∃ x ∈ rest, x ∉ name :: seen ∧ ∃ role ∈ catalog[x]?, role.Has r a) ∨
            name ∉ seen ∧ (∃ role ∈ catalog[name]?, role.Has r a) ↔
          ∃ x ∈ name :: rest, x ∉ seen ∧ ∃ role ∈ catalog[x]?, role.Has r a := by
        constructor
        · rintro (⟨x, hx, hnew, hrole⟩ | ⟨hnew, hrole⟩)
          · exact ⟨x, List.mem_cons_of_mem _ hx, fun hseen => hnew (List.mem_cons_of_mem _ hseen), hrole⟩
          · exact ⟨name, List.mem_cons_self, hnew, hrole⟩
        · rintro ⟨x, hx, hnew, hrole⟩
          by_cases heq : x = name
          · exact .inr ⟨heq ▸ hnew, heq ▸ hrole⟩
          · exact .inl ⟨x, (List.mem_cons.mp hx).resolve_left heq,
              fun hseen => hnew ((List.mem_cons.mp hseen).resolve_left heq), hrole⟩
      rw [mergeRoles]
      split
      · rename_i hseen
        rw [ih]
        refine or_congr_right ⟨?_, ?_⟩
        · rintro ⟨x, hx, hrest⟩
          exact ⟨x, List.mem_cons_of_mem _ hx, hrest⟩
        · rintro ⟨x, hx, hnew, hrole⟩
          rcases List.mem_cons.mp hx with rfl | hx
          · exact absurd hseen hnew
          · exact ⟨x, hx, hnew, hrole⟩
      · rename_i hnew
        rw [← hlater]
        split
        · rename_i role hrole
          rw [ih, mem_mergePermissions, hrole]
          simp only [hnew, not_false_eq_true, true_and, Option.mem_def, Option.some.injEq,
            exists_eq_left']
          exact or_assoc.trans (or_congr_right or_comm)
        · rename_i hnone
          rw [ih, hnone]
          simp

end Merge

/-! ### The map and the decisions -/

section Agreement

variable {s : Service} {visit : Visit} {acct : Account} {resource action : String}

theorem allows_iff {p : Permission} :
    p.allows resource action = true ↔
      (p.resource = wildcard ∨ p.resource = resource) ∧
        ∃ a ∈ p.actions, a = wildcard ∨ a = action := by
  unfold Permission.allows
  split
  · rename_i hother
    simp [hother]
  · rename_i hcovers
    rw [not_and_or, not_not, not_not] at hcovers
    simp [hcovers]

/-- What a role can do is what it has, with the wildcards read as any. -/
theorem can_iff {role : Role} :
    role.can resource action = true ↔
      ∃ r a, (r = wildcard ∨ r = resource) ∧ (a = wildcard ∨ a = action) ∧ role.Has r a := by
  simp only [Role.can, List.any_eq_true, allows_iff, Role.Has]
  constructor
  · rintro ⟨p, hp, hr, a, ha, hcovers⟩
    exact ⟨p.resource, a, hr, hcovers, p, hp, rfl, ha⟩
  · rintro ⟨r, a, hr, hcovers, p, hp, rfl, ha⟩
    exact ⟨p, hp, hr, a, ha, hcovers⟩

/-- A request is allowed if a global role of the account grants it, or one of the tenant. -/
theorem allowed_iff {catalog : Catalog} {req : Request} :
    (authorize acct catalog req).allowed = true ↔
      ∃ name, (name ∈ acct.globalRoles ∨ ∃ t ∈ req.tenantId, name ∈ acct.rolesInTenant t) ∧
        catalog.grants req name = true := by
  unfold authorize
  cases hglobal : acct.globalRoles.find? (catalog.grants req) with
  | some name =>
      simp only [true_iff]
      exact ⟨name, .inl (List.mem_of_find?_eq_some hglobal), List.find?_some hglobal⟩
  | none =>
      have hnone : ∀ name ∈ acct.globalRoles, ¬catalog.grants req name = true :=
        List.find?_eq_none.mp hglobal
      cases req.tenantId with
      | none =>
          simp only [Option.bind_none, Bool.false_eq_true, false_iff]
          rintro ⟨name, hname | ⟨t, ht, -⟩, hgrants⟩
          · exact hnone name hname hgrants
          · cases ht
      | some t =>
          simp only [Option.bind_some]
          cases htenant : (acct.rolesInTenant t).find? (catalog.grants req) with
          | some name =>
              simp only [true_iff]
              exact ⟨name, .inr ⟨t, rfl, List.mem_of_find?_eq_some htenant⟩,
                List.find?_some htenant⟩
          | none =>
              simp only [Bool.false_eq_true, false_iff]
              rintro ⟨name, hname | ⟨t', ht', hname⟩, hgrants⟩
              · exact hnone name hname hgrants
              · obtain rfl := Option.some_inj.mp ht'
                exact List.find?_eq_none.mp htenant name hname hgrants

/-- The roles of the tenants, in whatever order they are visited. -/
theorem mem_flattenTenants {name : String} :
    name ∈ Service.flattenTenants visit acct ↔ ∃ t, name ∈ acct.rolesInTenant t := by
  rw [Service.flattenTenants, List.mem_flatten]
  constructor
  · rintro ⟨roles, hroles, hname⟩
    obtain ⟨⟨t, roles⟩, hmem, rfl⟩ := List.mem_map.mp hroles
    refine ⟨t, ?_⟩
    rw [Account.rolesInTenant, Visit.mem_list.mp hmem]
    exact hname
  · rintro ⟨t, hname⟩
    rw [Account.rolesInTenant] at hname
    cases hroles : acct.tenants[t]? with
    | none =>
        rw [hroles] at hname
        cases hname
    | some roles =>
        rw [hroles] at hname
        exact ⟨roles, List.mem_map.mpr ⟨(t, roles), Visit.mem_list.mpr hroles, rfl⟩, hname⟩

/-- Some role of the account, global or of any tenant, can do it. -/
theorem covers_iff_can (henabled : s.enabled = true) :
    (s.permissions visit acct).Covers resource action ↔
      ∃ name, (name ∈ acct.globalRoles ∨ ∃ t, name ∈ acct.rolesInTenant t) ∧
        ∃ role ∈ s.catalog[name]?, role.can resource action = true := by
  unfold Permissions.Covers Service.permissions
  simp only [henabled, Bool.true_eq_false, if_false, mem_mergeRoles, List.mem_append,
    mem_flattenTenants, can_iff]
  constructor
  · rintro ⟨r, a, hr, ha, hempty | ⟨name, hname, -, role, hrole, hhas⟩⟩
    · simp at hempty
    · exact ⟨name, hname, role, hrole, r, a, hr, ha, hhas⟩
  · rintro ⟨name, hname, role, hrole, r, a, hr, ha, hhas⟩
    exact ⟨r, a, hr, ha, .inr ⟨name, hname, List.not_mem_nil, role, hrole, hhas⟩⟩

/-- With RBAC enabled, the permissions of an account cover an action on a resource if and only if
the account is authorised for it, for no tenant or for some tenant. -/
theorem permissions_covers_iff (s : Service) (henabled : s.enabled = true) (visit : Visit)
    (acct : Account) (resource action : String) :
    (s.permissions visit acct).Covers resource action ↔
      (s.authorize acct ⟨resource, action, none⟩).allowed = true ∨
        ∃ tenantId, (s.authorize acct ⟨resource, action, some tenantId⟩).allowed = true := by
  have hgrants : ∀ (tenantId : Option ℤ) (name : String),
      s.catalog.grants ⟨resource, action, tenantId⟩ name = true ↔
        ∃ role ∈ s.catalog[name]?, role.can resource action = true := by
    intro tenantId name
    rw [Catalog.grants, Option.any_eq_true]
    rfl
  rw [covers_iff_can henabled]
  simp only [Service.authorize, henabled, Bool.true_eq_false, if_false, allowed_iff, hgrants]
  constructor
  · rintro ⟨name, hname | ⟨t, hname⟩, hrole⟩
    · exact .inl ⟨name, .inl hname, hrole⟩
    · exact .inr ⟨t, name, .inr ⟨t, rfl, hname⟩, hrole⟩
  · rintro (⟨name, hname | ⟨t, ht, -⟩, hrole⟩ | ⟨t, name, hname | ⟨t', ht', hname⟩, hrole⟩)
    · exact ⟨name, .inl hname, hrole⟩
    · cases ht
    · exact ⟨name, .inl hname, hrole⟩
    · exact ⟨name, .inr ⟨t', hname⟩, hrole⟩

end Agreement

def viewer : Account :=
  { subject := "dave", globalRoles := []
    tenants := .ofList [((1 : ℤ), ["tenant_viewer"]), (2, ["campaign_manager", "retired"])] }

theorem permissions_covers_viewer :
    (Service.new true).enabled = true ∧
      (((Service.new true).permissions .sorted viewer).Covers "campaign" "create" ↔
        ((Service.new true).authorize viewer ⟨"campaign", "create", none⟩).allowed = true ∨
          ∃ tenantId,
            ((Service.new true).authorize viewer ⟨"campaign", "create", some tenantId⟩).allowed =
              true) :=
  ⟨rfl, permissions_covers_iff _ rfl .sorted viewer "campaign" "create"⟩

example : ((Service.new true).authorize viewer ⟨"campaign", "create", some 2⟩).allowed = true ∧
    ((Service.new true).authorize viewer ⟨"campaign", "create", some 1⟩).allowed = false := by
  decide +kernel

end Honryu.Auth
