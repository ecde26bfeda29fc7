import FastapiTemplate.RoleService
import FastapiTemplate.UserRepository
import Mathlib.Data.Finset.Sort
import Mathlib.Data.String.Basic

/-!
`UserManagementService`. The identifier that the database would draw for a new
user and the password hash function are arguments.
-/
namespace FastapiTemplate

open Library.Committing

/-- `schema.user.UserCreate`. -/
structure UserCreate where
  username : String
  email : String
  password : String

namespace UserManagementService

def ensureSameTenant (target : User) (actor : Scope) : Service Unit :=
  Action.ensure (actor.isSuperuser ∨ target.tenantId = actor.tenantId)
    (.userNotFound target.id.str)

def createUser (getPasswordHash : String → Except Err String) (newId : Uuid)
    (actor : LoadedUser) (data : UserCreate) : Service (Option LoadedUser) := do
  let usernameTaken ← query (UserRepository.existsByUsername · data.username)
  Action.ensure (usernameTaken = false) (.usernameExist data.username)
  let emailTaken ← query (UserRepository.existsByEmail · data.email)
  Action.ensure (emailTaken = false) (.userMailExist data.email)
  let password ← Action.ofExcept (getPasswordHash data.password)
  let created ← UserRepository.create {
    id := newId
    username := data.username
    email := data.email
    password := some password
    isVerified := true
    tenantId := actor.tenantId
    createdById := some actor.id }
  query (UserRepository.getByIdWithGrants · created.id)

def listUsers (actor : Scope) (skip limit : ℕ) (filterTenantId : Option Uuid) :
    Service (List UserRepository.ListedUser) :=
  if actor.isSuperuser then
    match filterTenantId with
    | some tenantId => query (UserRepository.listByTenant · (some tenantId) skip limit)
    | none => query (UserRepository.listAll · skip limit)
  else query (UserRepository.listByTenant · actor.tenantId skip limit)

def countUsers (actor : Scope) (filterTenantId : Option Uuid) : Service ℕ :=
  if actor.isSuperuser then
    match filterTenantId with
    | some tenantId => query (UserRepository.countByTenant · (some tenantId))
    | none => query UserRepository.countAll
  else query (UserRepository.countByTenant · actor.tenantId)

def getUser (userId : Uuid) : Service LoadedUser := do
  let found ← query (UserRepository.getByIdWithGrants · userId)
  Action.require found (.userNotFound userId.str)

/-- The user, with the sorted names of the effective permissions. -/
def getUserDetail (actor : Scope) (userId : Uuid) : Service (LoadedUser × List String) := do
  let user ← getUser userId
  ensureSameTenant user.toUser actor
  return (user, (effectivePermissions user).sort (· ≤ ·))

/-- The sorted names of the actor's permissions, then what they may grant. -/
def getGrants (actor : LoadedUser) :
    Service (List String × List LoadedRole × List Permission) := do
  let names := (effectivePermissions actor).sort (· ≤ ·)
  if actor.isSuperuser then do
    let roles ← query (RoleRepository.listAll · 0 10000)
    let permissions ← query (PermissionRepository.listAll · 0 10000)
    return (names, roles, permissions)
  else do
    let roleIds ← query (RoleRepository.getGrantableRoleIds · actor.roleIds)
    let permissionIds ← query (RoleRepository.getGrantablePermissionIds · actor.roleIds)
    let roles ← query (RoleRepository.getByIds · roleIds)
    let permissions ← query (PermissionRepository.getByIds · permissionIds)
    return (names, roles, permissions)

def assignRole (actor : LoadedUser) (targetUserId : Uuid) (roleId : RoleId) : Service Unit := do
  let allowed ← query (canGrantRole · actor roleId)
  Action.ensure (allowed = true)
    (.grantNotAllowed s!"You are not allowed to grant role {roleId}")
  let foundRole ← query (RoleRepository.getById · roleId)
  let role ← Action.require foundRole (.roleNotFound roleId)
  let foundTarget ← query (UserRepository.getById · targetUserId)
  let target ← Action.require foundTarget (.userNotFound targetUserId.str)
  ensureSameTenant target actor.scope
  let held ← query (RoleRepository.userHasRole · targetUserId roleId)
  Action.ensure (held = false) (.roleAlreadyAssigned s!"User already has role '{role.name}'")
  RoleRepository.assignToUser roleId targetUserId

def removeRole (actor : LoadedUser) (targetUserId : Uuid) (roleId : RoleId) : Service Unit := do
  let allowed ← query (canGrantRole · actor roleId)
  Action.ensure (allowed = true)
    (.grantNotAllowed s!"You are not allowed to revoke role {roleId}")
  let foundRole ← query (RoleRepository.getById · roleId)
  let role ← Action.require foundRole (.roleNotFound roleId)
  let foundTarget ← query (UserRepository.getById · targetUserId)
  let target ← Action.require foundTarget (.userNotFound targetUserId.str)
  ensureSameTenant target actor.scope
  let held ← query (RoleRepository.userHasRole · targetUserId roleId)
  Action.ensure (held = true) (.roleNotAssigned s!"User does not have role '{role.name}'")
  RoleRepository.removeFromUser roleId targetUserId

def grantPermission (actor : LoadedUser) (targetUserId : Uuid) (permissionId : PermissionId) :
    Service Unit := do
  let allowed ← query (canGrantPermission · actor permissionId)
  Action.ensure (allowed = true)
    (.grantNotAllowed s!"You are not allowed to grant permission {permissionId}")
  let foundPermission ← query (RoleRepository.getPermissionById · permissionId)
  let permission ← Action.require foundPermission (.permissionNotFound permissionId)
  let foundTarget ← query (UserRepository.getByIdWithGrants · targetUserId)
  let target ← Action.require foundTarget (.userNotFound targetUserId.str)
  ensureSameTenant target.toUser actor.scope
  let granted ← query (UserRepository.hasPermission · targetUserId permissionId)
  Action.ensure (granted = false)
    (.permissionAlreadyGranted s!"User already has permission '{permission.name}'")
  UserRepository.grantPermission target permission

def revokePermission (actor : LoadedUser) (targetUserId : Uuid) (permissionId : PermissionId) :
    Service Unit := do
  let allowed ← query (canGrantPermission · actor permissionId)
  Action.ensure (allowed = true)
    (.grantNotAllowed s!"You are not allowed to revoke permission {permissionId}")
  let foundPermission ← query (RoleRepository.getPermissionById · permissionId)
  let permission ← Action.require foundPermission (.permissionNotFound permissionId)
  let foundTarget ← query (UserRepository.getByIdWithGrants · targetUserId)
  let target ← Action.require foundTarget (.userNotFound targetUserId.str)
  ensureSameTenant target.toUser actor.scope
  let granted ← query (UserRepository.hasPermission · targetUserId permissionId)
  Action.ensure (granted = true)
    (.permissionNotGranted s!"User does not have permission '{permission.name}'")
  UserRepository.revokePermission target permission

def setUserActive (actor : Scope) (targetUserId : Uuid) (isActive : Bool) : Service Unit := do
  let foundTarget ← query (UserRepository.getById · targetUserId)
  let target ← Action.require foundTarget (.userNotFound targetUserId.str)
  ensureSameTenant target actor
  UserRepository.setActive target isActive

end UserManagementService
end FastapiTemplate
