import FastapiTemplate.AccessToken
import FastapiTemplate.Operations

/-!
The routes under `/api/v1`. A route resolves its dependencies in order and then
calls a service. A permission gate reads nothing but the claims of the bearer
token, and the reads and the switch of a user's status go on with these claims;
the other routes load the row behind them. `Call.gate` tells what the route of
an operation asks for: a route either refuses and leaves the database alone, or
it does what the operation does for the user of the token.
-/
namespace FastapiTemplate

open Library.KeyedTable Library.Committing Library.BitMask

/-- A token at one worker, with the cache and the clock of the worker. -/
structure Bearer (Token : Type) where
  token : Token
  cache : AuthzCache
  /-- In seconds. -/
  now : ℤ

def Principal.scope (principal : Principal) : Scope := ⟨principal.isSuperuser, principal.tenantId⟩

/-! ### The dependencies -/

section Dependencies

variable {Token : Type} (jwt : Jwt Token) (bearer : Bearer Token)

def Bearer.authenticate : Except Err TokenPayload :=
  FastapiTemplate.authenticate jwt bearer.cache bearer.now bearer.token

def getCurrentUser : Service LoadedUser := do
  let payload ← Action.ofExcept (bearer.authenticate jwt)
  let found ← query (UserRepository.getByIdWithGrants · payload.id)
  Action.require found (.userNotFound payload.id.str)

/-- `Depends(permission_required(name))`. -/
def requirePermission (name : String) : Service Principal := do
  let checker ← Action.ofExcept (permissionRequired name)
  let principal ← Action.ofExcept
    (getCurrentPrincipal jwt bearer.cache bearer.now bearer.token)
  Action.ofExcept (checker principal)

def grantRoleRequired (roleId : RoleId) : Service LoadedUser := do
  let currentUser ← getCurrentUser jwt bearer
  let allowed ← query (canGrantRole · currentUser roleId)
  Action.ensure (allowed = true) (.grantNotAllowed s!"You are not allowed to grant role {roleId}")
  return currentUser

def grantPermissionRequired (permissionId : PermissionId) : Service LoadedUser := do
  let currentUser ← getCurrentUser jwt bearer
  let allowed ← query (canGrantPermission · currentUser permissionId)
  Action.ensure (allowed = true)
    (.grantNotAllowed s!"You are not allowed to grant permission {permissionId}")
  return currentUser

def superuserRequired : Service LoadedUser := do
  let currentUser ← getCurrentUser jwt bearer
  Action.ensure (currentUser.isSuperuser = true) .superuserRequired
  return currentUser

end Dependencies

/-! ### The routes -/

namespace Routes

section

variable {Token : Type} (jwt : Jwt Token) (getPasswordHash : String → Except Err String)
  (bearer : Bearer Token)

/-! `routes.rbac.roles` -/

def createNewRole (role : RoleCreate) : Service LoadedRole := do
  let _ ← requirePermission jwt bearer "role:create"
  let currentUser ← getCurrentUser jwt bearer
  RoleService.createRole role currentUser

def readRole (roleId : RoleId) : Service LoadedRole := do
  let principal ← requirePermission jwt bearer "role:read.id"
  RoleService.getRole roleId principal.scope

def readRoleGrants (roleId : RoleId) : Service (List String × List String) := do
  let principal ← requirePermission jwt bearer "role:read.id"
  RoleService.getRoleGrants roleId principal.scope

def updateRoleEndpoint (roleId : RoleId) (role : RoleUpdate) : Service (Option LoadedRole) := do
  let _ ← requirePermission jwt bearer "role:update"
  let currentUser ← getCurrentUser jwt bearer
  RoleService.updateRole roleId role currentUser

def deleteRoleEndpoint (roleId : RoleId) : Service Unit := do
  let _ ← requirePermission jwt bearer "role:delete"
  let currentUser ← getCurrentUser jwt bearer
  RoleService.deleteRole roleId currentUser

def readRoles (skip limit : ℕ) : Service (List LoadedRole) := do
  let principal ← requirePermission jwt bearer "role:read"
  RoleService.getAllRoles principal.scope skip limit

def addPermissionToRoleEndpoint (roleId : RoleId) (permissionId : PermissionId) :
    Service LoadedRole := do
  let _ ← requirePermission jwt bearer "role:add-permission"
  let currentUser ← getCurrentUser jwt bearer
  RoleService.addPermissionToRole roleId permissionId currentUser

def removePermissionFromRoleEndpoint (roleId : RoleId) (permissionId : PermissionId) :
    Service LoadedRole := do
  let _ ← requirePermission jwt bearer "role:delete-permission"
  let currentUser ← getCurrentUser jwt bearer
  RoleService.removePermissionFromRole roleId permissionId currentUser

def addGrantableRoleEndpoint (roleId grantableRoleId : RoleId) : Service Unit := do
  let _ ← requirePermission jwt bearer "role:update"
  let currentUser ← getCurrentUser jwt bearer
  RoleService.addGrantableRole roleId grantableRoleId currentUser

def removeGrantableRoleEndpoint (roleId grantableRoleId : RoleId) : Service Unit := do
  let _ ← requirePermission jwt bearer "role:update"
  let currentUser ← getCurrentUser jwt bearer
  RoleService.removeGrantableRole roleId grantableRoleId currentUser

def addGrantablePermissionEndpoint (roleId : RoleId) (permissionId : PermissionId) :
    Service Unit := do
  let _ ← requirePermission jwt bearer "role:update"
  let currentUser ← getCurrentUser jwt bearer
  RoleService.addGrantablePermission roleId permissionId currentUser

def removeGrantablePermissionEndpoint (roleId : RoleId) (permissionId : PermissionId) :
    Service Unit := do
  let _ ← requirePermission jwt bearer "role:update"
  let currentUser ← getCurrentUser jwt bearer
  RoleService.removeGrantablePermission roleId permissionId currentUser

/-! `routes.users` -/

def getMyGrants : Service (List String × List LoadedRole × List Permission) := do
  let currentUser ← getCurrentUser jwt bearer
  UserManagementService.getGrants currentUser

def createUser (newId : Uuid) (data : UserCreate) : Service (Option LoadedUser) := do
  let _ ← requirePermission jwt bearer "user:create"
  let currentUser ← getCurrentUser jwt bearer
  UserManagementService.createUser getPasswordHash newId currentUser data

def listUsers (skip limit : ℕ) (tenantId : Option Uuid) :
    Service (List UserRepository.ListedUser) := do
  let principal ← requirePermission jwt bearer "user:read"
  UserManagementService.listUsers principal.scope skip limit tenantId

def countUsers (tenantId : Option Uuid) : Service ℕ := do
  let principal ← requirePermission jwt bearer "user:read"
  UserManagementService.countUsers principal.scope tenantId

def getUser (userId : Uuid) : Service (LoadedUser × List String) := do
  let principal ← requirePermission jwt bearer "user:read.id"
  UserManagementService.getUserDetail principal.scope userId

def assignRoleToUser (userId : Uuid) (roleId : RoleId) : Service Unit := do
  let currentUser ← grantRoleRequired jwt bearer roleId
  UserManagementService.assignRole currentUser userId roleId

def removeRoleFromUser (userId : Uuid) (roleId : RoleId) : Service Unit := do
  let currentUser ← grantRoleRequired jwt bearer roleId
  UserManagementService.removeRole currentUser userId roleId

def grantPermissionToUser (userId : Uuid) (permissionId : PermissionId) : Service Unit := do
  let currentUser ← grantPermissionRequired jwt bearer permissionId
  UserManagementService.grantPermission currentUser userId permissionId

def revokePermissionFromUser (userId : Uuid) (permissionId : PermissionId) : Service Unit := do
  let currentUser ← grantPermissionRequired jwt bearer permissionId
  UserManagementService.revokePermission currentUser userId permissionId

def deactivateUser (userId : Uuid) : Service Unit := do
  let principal ← requirePermission jwt bearer "user:deactivate"
  UserManagementService.setUserActive principal.scope userId false

def activateUser (userId : Uuid) : Service Unit := do
  let principal ← requirePermission jwt bearer "user:deactivate"
  UserManagementService.setUserActive principal.scope userId true

/-! `routes.tenant` -/

def createTenant (newTenantId newUserId : Uuid) (data : TenantCreate) :
    Service (Tenant × User) := do
  let currentUser ← superuserRequired jwt bearer
  TenantService.createTenantWithAdmin getPasswordHash newTenantId newUserId currentUser data

def deactivateTenant (tenantId : Uuid) : Service Unit := do
  let currentUser ← superuserRequired jwt bearer
  discard (TenantService.setTenantActive currentUser tenantId false)

def activateTenant (tenantId : Uuid) : Service Unit := do
  let currentUser ← superuserRequired jwt bearer
  discard (TenantService.setTenantActive currentUser tenantId true)

def updateTenantPermissions (tenantId : Uuid) (allowedPermissions : List String) :
    Service Tenant := do
  let currentUser ← superuserRequired jwt bearer
  TenantService.updateTenantPermissions currentUser tenantId allowedPermissions

end

end Routes

/-! ### Routes and operations -/

section Routing

variable {Token : Type} (jwt : Jwt Token) (getPasswordHash : String → Except Err String)
  (bearer : Bearer Token)

/-- The route of an operation. -/
def Call.route : Call → Service Unit
  | createRole role => discard (Routes.createNewRole jwt bearer role)
  | getRole roleId => discard (Routes.readRole jwt bearer roleId)
  | getAllRoles skip limit => discard (Routes.readRoles jwt bearer skip limit)
  | getRoleGrants roleId => discard (Routes.readRoleGrants jwt bearer roleId)
  | updateRole roleId role => discard (Routes.updateRoleEndpoint jwt bearer roleId role)
  | deleteRole roleId => Routes.deleteRoleEndpoint jwt bearer roleId
  | addPermissionToRole roleId permissionId =>
    discard (Routes.addPermissionToRoleEndpoint jwt bearer roleId permissionId)
  | removePermissionFromRole roleId permissionId =>
    discard (Routes.removePermissionFromRoleEndpoint jwt bearer roleId permissionId)
  | addGrantableRole roleId grantableRoleId =>
    Routes.addGrantableRoleEndpoint jwt bearer roleId grantableRoleId
  | removeGrantableRole roleId grantableRoleId =>
    Routes.removeGrantableRoleEndpoint jwt bearer roleId grantableRoleId
  | addGrantablePermission roleId permissionId =>
    Routes.addGrantablePermissionEndpoint jwt bearer roleId permissionId
  | removeGrantablePermission roleId permissionId =>
    Routes.removeGrantablePermissionEndpoint jwt bearer roleId permissionId
  | createUser newId data => discard (Routes.createUser jwt getPasswordHash bearer newId data)
  | listUsers skip limit tenantId => discard (Routes.listUsers jwt bearer skip limit tenantId)
  | countUsers tenantId => discard (Routes.countUsers jwt bearer tenantId)
  | getUserDetail userId => discard (Routes.getUser jwt bearer userId)
  | getGrants => discard (Routes.getMyGrants jwt bearer)
  | assignRole userId roleId => Routes.assignRoleToUser jwt bearer userId roleId
  | removeRole userId roleId => Routes.removeRoleFromUser jwt bearer userId roleId
  | grantPermission userId permissionId =>
    Routes.grantPermissionToUser jwt bearer userId permissionId
  | revokePermission userId permissionId =>
    Routes.revokePermissionFromUser jwt bearer userId permissionId
  | setUserActive userId false => Routes.deactivateUser jwt bearer userId
  | setUserActive userId true => Routes.activateUser jwt bearer userId
  | createTenantWithAdmin newTenantId newUserId data =>
    discard (Routes.createTenant jwt getPasswordHash bearer newTenantId newUserId data)
  | setTenantActive tenantId false => Routes.deactivateTenant jwt bearer tenantId
  | setTenantActive tenantId true => Routes.activateTenant jwt bearer tenantId
  | updateTenantPermissions tenantId allowedPermissions =>
    discard (Routes.updateTenantPermissions jwt bearer tenantId allowedPermissions)

end Routing

/-- What a route asks of its caller. -/
inductive Gate
  | permission (name : String)
  | grantRole (roleId : RoleId)
  | grantPermission (permissionId : PermissionId)
  | superuser
  | signedIn
  deriving DecidableEq

def Call.gate : Call → Gate
  | createRole _ => .permission "role:create"
  | getRole _ => .permission "role:read.id"
  | getAllRoles _ _ => .permission "role:read"
  | getRoleGrants _ => .permission "role:read.id"
  | updateRole _ _ => .permission "role:update"
  | deleteRole _ => .permission "role:delete"
  | addPermissionToRole _ _ => .permission "role:add-permission"
  | removePermissionFromRole _ _ => .permission "role:delete-permission"
  | addGrantableRole _ _ => .permission "role:update"
  | removeGrantableRole _ _ => .permission "role:update"
  | addGrantablePermission _ _ => .permission "role:update"
  | removeGrantablePermission _ _ => .permission "role:update"
  | createUser _ _ => .permission "user:create"
  | listUsers _ _ _ => .permission "user:read"
  | countUsers _ => .permission "user:read"
  | getUserDetail _ => .permission "user:read.id"
  | getGrants => .signedIn
  | assignRole _ roleId => .grantRole roleId
  | removeRole _ roleId => .grantRole roleId
  | grantPermission _ permissionId => .grantPermission permissionId
  | revokePermission _ permissionId => .grantPermission permissionId
  | setUserActive _ _ => .permission "user:deactivate"
  | createTenantWithAdmin _ _ _ => .superuser
  | setTenantActive _ _ => .superuser
  | updateTenantPermissions _ _ => .superuser

/-- What the gate holds against a user whose token carries the mask. -/
def Gate.refusal (t : Tables) (user : LoadedUser) (mask : ℕ) : Gate → Option Err
  | permission name =>
    match permissionRegistry.lookup name with
    | none => some (.keyError name)
    | some b =>
      if user.isSuperuser = true ∨ mask.testBit b = true then none
      else some (.httpException 403 s!"Missing required permission: {name}")
  | grantRole roleId =>
    if canGrantRole t user roleId then none
    else some (.grantNotAllowed s!"You are not allowed to grant role {roleId}")
  | grantPermission permissionId =>
    if canGrantPermission t user permissionId then none
    else some (.grantNotAllowed s!"You are not allowed to grant permission {permissionId}")
  | superuser => if user.isSuperuser then none else some .superuserRequired
  | signedIn => none

section Passing

variable {t : Tables} {user : LoadedUser} {mask : ℕ}

theorem Gate.permission_passes {name : String}
    (h : (Gate.permission name).refusal t user mask = none) :
    ∃ b, permissionRegistry.lookup name = some b ∧
      (user.isSuperuser = true ∨ mask.testBit b = true) := by
  rcases hb : permissionRegistry.lookup name with _ | b
  · simp [Gate.refusal, hb] at h
  · refine ⟨b, rfl, ?_⟩
    by_contra hpass
    simp [Gate.refusal, hb, hpass] at h

theorem Gate.grantRole_passes {roleId : RoleId}
    (h : (Gate.grantRole roleId).refusal t user mask = none) : canGrantRole t user roleId = true := by
  simpa [Gate.refusal] using h

theorem Gate.grantPermission_passes {permissionId : PermissionId}
    (h : (Gate.grantPermission permissionId).refusal t user mask = none) :
    canGrantPermission t user permissionId = true := by
  simpa [Gate.refusal] using h

theorem Gate.superuser_passes (h : Gate.superuser.refusal t user mask = none) :
    user.isSuperuser = true := by
  simpa [Gate.refusal] using h

end Passing

/-- Every permission that a route names is in the registry. -/
theorem Call.gate_known {call : Call} {name : String} (h : call.gate = .permission name) :
    ∃ b, permissionRegistry.lookup name = some b := by
  rw [Registry.exists_lookup_iff]
  cases call <;> cases h <;> decide

/-! ### One route -/

/-- The claims are about a user of the tables and carry the mask. -/
structure TokenPayload.Describes (payload : TokenPayload) (t : Tables) (user : LoadedUser)
    (mask : ℕ) : Prop where
  loaded : UserRepository.getByIdWithGrants t payload.id = some user
  tenantId : payload.tenantId = user.tenantId
  isSuperuser : payload.isSuperuser = user.isSuperuser
  permMask : hexToMask (some payload.permMask) = .ok mask

theorem TokenPayload.Describes.scope {payload : TokenPayload} {t : Tables} {user : LoadedUser}
    {mask : ℕ} (h : payload.Describes t user mask) :
    (payload.principal mask).scope = user.scope := by
  change Scope.mk payload.isSuperuser payload.tenantId = _
  rw [h.isSuperuser, h.tenantId]
  rfl

theorem discard_bind {α β : Type} (m : Service α) (f : α → Service β) :
    discard (m >>= f) = m >>= fun a => discard (f a) :=
  bind_assoc m f (fun _ => pure ())

section OneRoute

variable {Token : Type} {jwt : Jwt Token} {bearer : Bearer Token} {db : Db} {e : Err}
  {payload : TokenPayload} {user : LoadedUser} {mask : ℕ} {α : Type}

theorem getCurrentUser_refused (hauth : bearer.authenticate jwt = .error e)
    (f : LoadedUser → Service α) : (getCurrentUser jwt bearer >>= f) db = (.error e, db, []) := by
  refine Action.bind_apply_error ?_
  rw [getCurrentUser, hauth]
  rfl

theorem getCurrentUser_bind (hauth : bearer.authenticate jwt = .ok payload)
    (h : payload.Describes db.toTables user mask) (f : LoadedUser → Service α) :
    (getCurrentUser jwt bearer >>= f) db = f user db := by
  refine Action.bind_apply_ok ?_
  rw [getCurrentUser, hauth, Action.ofExcept_ok_bind, query, Action.read_bind_apply, h.loaded]
  rfl

/-- A lookup that fails would have failed when the route was declared. -/
theorem requirePermission_refused {name : String} (hauth : bearer.authenticate jwt = .error e)
    (hname : ∃ b, permissionRegistry.lookup name = some b) (f : Principal → Service α) :
    (requirePermission jwt bearer name >>= f) db = (.error e, db, []) := by
  obtain ⟨b, hb⟩ := hname
  refine Action.bind_apply_error ?_
  have hprincipal : getCurrentPrincipal jwt bearer.cache bearer.now bearer.token = .error e := by
    change (bearer.authenticate jwt >>= _) = _
    rw [hauth]
    rfl
  rw [requirePermission, permissionRequired, hb, hprincipal]
  rfl

theorem permissionChecker_of_describes {name : String} {b : ℕ}
    (h : payload.Describes db.toTables user mask) :
    permissionChecker name b (payload.principal mask) =
      if user.isSuperuser = true ∨ mask.testBit b = true then .ok (payload.principal mask)
      else .error (.httpException 403 s!"Missing required permission: {name}") := by
  change (if payload.isSuperuser = true then _ else if mask &&& bit b = 0 then _ else _) = _
  rw [h.isSuperuser]
  by_cases hsuper : user.isSuperuser = true
  · simp [hsuper]
  · by_cases hbit : mask.testBit b = true
    · simp [hsuper, hbit, (and_bit_ne_zero_iff mask b).mpr hbit]
    · have hzero : mask &&& bit b = 0 := by
        by_contra hne
        exact hbit ((and_bit_ne_zero_iff mask b).mp hne)
      simp [hsuper, hbit, hzero]

/-- The rest of a route behind its gate. -/
def gated (t : Tables) (user : LoadedUser) (mask : ℕ) (gate : Gate) (m : Service α) : Service α :=
  match gate.refusal t user mask with
  | some e => Action.raise e
  | none => m

theorem gated_of_some {t : Tables} {gate : Gate} {m : Service α}
    (h : gate.refusal t user mask = some e) : gated t user mask gate m = Action.raise e := by
  rw [gated, h]

theorem gated_of_none {t : Tables} {gate : Gate} {m : Service α}
    (h : gate.refusal t user mask = none) : gated t user mask gate m = m := by
  rw [gated, h]

theorem requirePermission_bind {name : String} {f : Principal → Service α}
    (hauth : bearer.authenticate jwt = .ok payload)
    (h : payload.Describes db.toTables user mask) :
    (requirePermission jwt bearer name >>= f) db =
      gated db.toTables user mask (.permission name) (f (payload.principal mask)) db := by
  have hprincipal : getCurrentPrincipal jwt bearer.cache bearer.now bearer.token =
      .ok (payload.principal mask) := by
    change (bearer.authenticate jwt >>= _) = _
    rw [hauth]
    change (hexToMask (some payload.permMask) >>= _) = _
    rw [h.permMask]
    rfl
  rcases hb : permissionRegistry.lookup name with _ | b
  · rw [gated_of_some (e := .keyError name) (by simp only [Gate.refusal, hb])]
    refine Action.bind_apply_error ?_
    rw [requirePermission, permissionRequired, hb]
    rfl
  by_cases hpass : user.isSuperuser = true ∨ mask.testBit b = true
  · rw [gated_of_none (by simp only [Gate.refusal, hb, if_pos hpass])]
    refine Action.bind_apply_ok ?_
    rw [requirePermission, permissionRequired, hb, hprincipal]
    simp only [Action.ofExcept_ok_bind, permissionChecker_of_describes h, if_pos hpass]
    rfl
  · rw [gated_of_some (e := .httpException 403 s!"Missing required permission: {name}")
      (by simp only [Gate.refusal, hb, if_neg hpass])]
    refine Action.bind_apply_error ?_
    rw [requirePermission, permissionRequired, hb, hprincipal]
    simp only [Action.ofExcept_ok_bind, permissionChecker_of_describes h, if_neg hpass]
    rfl

/-- A gate that loads the user and checks one condition on them. -/
theorem loadedGate_bind {g : LoadedUser → Service LoadedUser} {f : LoadedUser → Service α}
    {gate : Gate} (hauth : bearer.authenticate jwt = .ok payload)
    (h : payload.Describes db.toTables user mask)
    (hg : g user db = gated db.toTables user mask gate (pure user) db) :
    ((getCurrentUser jwt bearer >>= g) >>= f) db =
      gated db.toTables user mask gate (f user) db := by
  rw [bind_assoc, getCurrentUser_bind hauth h]
  rcases hrefusal : gate.refusal db.toTables user mask with _ | e
  · rw [gated_of_none hrefusal] at hg ⊢
    exact Action.bind_apply_ok hg
  · rw [gated_of_some hrefusal] at hg ⊢
    exact Action.bind_apply_error hg

theorem ensure_gated {c : Prop} [Decidable c] {gate : Gate}
    (hgate : gate.refusal db.toTables user mask = if c then none else some e) :
    (Action.ensure c e >>= fun _ => pure user : Service LoadedUser) db =
      gated db.toTables user mask gate (pure user) db := by
  by_cases hc : c
  · rw [Action.ensure_bind_apply hc, gated_of_none (by rw [hgate, if_pos hc])]
  · rw [Action.ensure_bind_apply_not hc, gated_of_some (by rw [hgate, if_neg hc])]
    rfl

theorem grantRoleRequired_bind {roleId : RoleId} {f : LoadedUser → Service α}
    (hauth : bearer.authenticate jwt = .ok payload)
    (h : payload.Describes db.toTables user mask) :
    (grantRoleRequired jwt bearer roleId >>= f) db =
      gated db.toTables user mask (.grantRole roleId) (f user) db :=
  loadedGate_bind hauth h (ensure_gated rfl)

theorem grantPermissionRequired_bind {permissionId : PermissionId} {f : LoadedUser → Service α}
    (hauth : bearer.authenticate jwt = .ok payload)
    (h : payload.Describes db.toTables user mask) :
    (grantPermissionRequired jwt bearer permissionId >>= f) db =
      gated db.toTables user mask (.grantPermission permissionId) (f user) db :=
  loadedGate_bind hauth h (ensure_gated rfl)

theorem superuserRequired_bind {f : LoadedUser → Service α}
    (hauth : bearer.authenticate jwt = .ok payload)
    (h : payload.Describes db.toTables user mask) :
    (superuserRequired jwt bearer >>= f) db =
      gated db.toTables user mask .superuser (f user) db :=
  loadedGate_bind hauth h (ensure_gated rfl)

/-- A permission gate before the user is loaded. -/
theorem requirePermission_getCurrentUser_bind {name : String} {f : LoadedUser → Service α}
    (hauth : bearer.authenticate jwt = .ok payload)
    (h : payload.Describes db.toTables user mask) :
    (requirePermission jwt bearer name >>= fun _ => getCurrentUser jwt bearer >>= f) db =
      gated db.toTables user mask (.permission name) (f user) db := by
  rw [requirePermission_bind hauth h]
  rcases hrefusal : (Gate.permission name).refusal db.toTables user mask with _ | e
  · rw [gated_of_none hrefusal, gated_of_none hrefusal, getCurrentUser_bind hauth h]
  · rw [gated_of_some hrefusal, gated_of_some hrefusal]

/-- A route refuses, or does what the operation does for the user of the token. -/
theorem route_run {getPasswordHash : String → Except Err String} {call : Call}
    (hauth : bearer.authenticate jwt = .ok payload)
    (h : payload.Describes db.toTables user mask) :
    call.route jwt getPasswordHash bearer db =
      gated db.toTables user mask call.gate (request getPasswordHash payload.id call) db := by
  have hrequest : request getPasswordHash payload.id call db = call.run getPasswordHash user db := by
    rw [request, query, Action.read_bind_apply, h.loaded, Action.require_some_bind]
  have hrun : gated db.toTables user mask call.gate (request getPasswordHash payload.id call) db =
      gated db.toTables user mask call.gate (call.run getPasswordHash user) db := by
    rcases hrefusal : call.gate.refusal db.toTables user mask with _ | e
    · rw [gated_of_none hrefusal, gated_of_none hrefusal, hrequest]
    · rw [gated_of_some hrefusal, gated_of_some hrefusal]
  rw [hrun]
  cases call with
  | getRole | getAllRoles | getRoleGrants | listUsers | countUsers | getUserDetail =>
    refine (congrFun (discard_bind _ _) db).trans ((requirePermission_bind hauth h).trans ?_)
    rw [h.scope]
    rfl
  | createRole | updateRole | addPermissionToRole | removePermissionFromRole | createUser =>
    refine (congrFun (discard_bind _ _) db).trans ?_
    simp only [discard_bind]
    exact requirePermission_getCurrentUser_bind hauth h
  | deleteRole | addGrantableRole | removeGrantableRole | addGrantablePermission
  | removeGrantablePermission => exact requirePermission_getCurrentUser_bind hauth h
  | getGrants =>
    exact (congrFun (discard_bind _ _) db).trans (getCurrentUser_bind hauth h _)
  | assignRole | removeRole => exact grantRoleRequired_bind hauth h
  | grantPermission | revokePermission => exact grantPermissionRequired_bind hauth h
  | setUserActive userId isActive =>
    cases isActive <;>
    · refine (requirePermission_bind hauth h).trans ?_
      rw [h.scope]
      rfl
  | createTenantWithAdmin | updateTenantPermissions =>
    exact (congrFun (discard_bind _ _) db).trans (superuserRequired_bind hauth h)
  | setTenantActive tenantId isActive =>
    cases isActive <;> exact superuserRequired_bind hauth h

/-- Without an authenticated token every route refuses with the same error. -/
theorem route_refused {getPasswordHash : String → Except Err String} {call : Call}
    (hauth : bearer.authenticate jwt = .error e) :
    call.route jwt getPasswordHash bearer db = (.error e, db, []) := by
  have hpermission {β : Type} {name : String} {f : Principal → Service β}
      (hname : call.gate = .permission name) :
      (requirePermission jwt bearer name >>= f) db = (.error e, db, []) :=
    requirePermission_refused hauth (Call.gate_known hname) f
  cases call with
  | createRole | getRole | getAllRoles | getRoleGrants | updateRole | addPermissionToRole
  | removePermissionFromRole | createUser | listUsers | countUsers | getUserDetail =>
    exact (congrFun (discard_bind _ _) db).trans (hpermission rfl)
  | deleteRole | addGrantableRole | removeGrantableRole | addGrantablePermission
  | removeGrantablePermission => exact hpermission rfl
  | getGrants => exact (congrFun (discard_bind _ _) db).trans (getCurrentUser_refused hauth _)
  | assignRole | removeRole | grantPermission | revokePermission =>
    exact (congrFun (bind_assoc _ _ _) db).trans (getCurrentUser_refused hauth _)
  | setUserActive userId isActive => cases isActive <;> exact hpermission rfl
  | createTenantWithAdmin | updateTenantPermissions =>
    refine (congrFun (discard_bind _ _) db).trans ?_
    exact (congrFun (bind_assoc _ _ _) db).trans (getCurrentUser_refused hauth _)
  | setTenantActive tenantId isActive =>
    cases isActive <;>
      exact (congrFun (bind_assoc _ _ _) db).trans (getCurrentUser_refused hauth _)

end OneRoute
end FastapiTemplate
