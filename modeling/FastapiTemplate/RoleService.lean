import FastapiTemplate.Delegation
import FastapiTemplate.TenantRepository

/-!
`RoleService`. The methods follow the order of the checks in the source. A
method that writes in a loop commits once per round, so its later rounds run
against the state that the earlier ones committed.
-/
namespace FastapiTemplate

open Library.Committing Library.BitMask

/-- What a scope check reads of a `User` or a `Principal`. -/
structure Scope where
  isSuperuser : Bool
  tenantId : Option Uuid

def LoadedUser.scope (user : LoadedUser) : Scope := ⟨user.isSuperuser, user.tenantId⟩

def LoadedUser.roleIds (user : LoadedUser) : List RoleId := user.roles.map (fun r => r.id)

namespace RoleService

/-- `if not actor.is_superuser: ...` -/
def unlessSuperuser (isSuperuser : Bool) (m : Service Unit) : Service Unit :=
  if isSuperuser then pure () else m

def ensureRoleInScope (role : LoadedRole) (actor : Scope) : Service Unit :=
  unlessSuperuser actor.isSuperuser
    (Action.ensure (role.tenantId = none ∨ role.tenantId = actor.tenantId)
      (.roleNotFound role.id))

/-- What the actor's roles may delegate, cut to the ceiling of their tenant. -/
def grantableMaskFor (actor : LoadedUser) : Service ℕ := do
  let mask ← query (RoleRepository.getGrantablePermissionMask · actor.roleIds)
  match actor.tenant with
  | none => return mask
  | some tenant => return mask &&& tenant.allowedPermissionMask

def getRole (roleId : RoleId) (actor : Scope) : Service LoadedRole := do
  let found ← query (RoleRepository.getById · roleId)
  let role ← Action.require found (.roleNotFound roleId)
  ensureRoleInScope role actor
  return role

/-- One round of the loop that lets a role of the actor grant the new role. -/
def linkGrantableRole (newRoleId : RoleId) (actorRole : LoadedRole) : Service Unit := do
  let linked ← query (fun t => decide ((actorRole.id, newRoleId) ∈ t.roleGrantableRoles))
  if linked then pure () else RoleRepository.addGrantableRole actorRole.id newRoleId

def createRole (role : RoleCreate) (actor : LoadedUser) : Service LoadedRole := do
  let tenantId := if actor.isSuperuser then none else actor.tenantId
  let existing ← query (RoleRepository.getByName · role.name tenantId)
  Action.ensure (existing = none) (.roleExists role.name)
  let expandedNames := expandImplied role.permissionNames
  let requestedMask ← Action.ofExcept (maskFor expandedNames)
  unlessSuperuser actor.isSuperuser do
    let allowedMask ← grantableMaskFor actor
    Action.ensure (andNot requestedMask allowedMask = 0)
      (.grantNotAllowed "Requested permissions exceed what you are allowed to grant")
  let permissions ← query (PermissionRepository.getByNames · expandedNames)
  let newRole ← RoleRepository.create role tenantId permissions requestedMask
  unlessSuperuser actor.isSuperuser (ForM.forM actor.roles (linkGrantableRole newRole.id))
  return newRole

def updateRole (roleId : RoleId) (roleUpdate : RoleUpdate) (actor : LoadedUser) :
    Service (Option LoadedRole) := do
  let dbRole ← getRole roleId actor.scope
  RoleRepository.update dbRole roleUpdate

def deleteRole (roleId : RoleId) (actor : LoadedUser) : Service Unit := do
  let dbRole ← getRole roleId actor.scope
  RoleRepository.delete dbRole

def getAllRoles (actor : Scope) (skip limit : ℕ) : Service (List LoadedRole) :=
  if actor.isSuperuser then query (RoleRepository.listAll · skip limit)
  else query (RoleRepository.listByTenant · actor.tenantId skip limit)

/-- The permission and what it implies, less what the role has already. -/
def impliedNames (role : LoadedRole) (perm : Permission) : List String :=
  (expandImplied [perm.name]).filter
    (fun name => name ∉ role.permissions.map Permission.name ∧ name ≠ perm.name)

def addPermissionToRole (roleId : RoleId) (permissionId : PermissionId) (actor : LoadedUser) :
    Service LoadedRole := do
  let role ← getRole roleId actor.scope
  let found ← query (RoleRepository.getPermissionById · permissionId)
  let perm ← Action.require found (.permissionNotFound permissionId)
  Action.ensure (perm.id ∉ role.permissions.map Permission.id)
    (.permissionAlreadyGranted "Permission already assigned to role")
  unlessSuperuser actor.isSuperuser do
    let allowedMask ← grantableMaskFor actor
    let mask ← Action.ofExcept (maskFor (perm.name :: impliedNames role perm))
    Action.ensure (andNot mask allowedMask = 0)
      (.grantNotAllowed "Requested permission exceeds what you are allowed to grant")
  let impliedPerms ← query (PermissionRepository.getByNames · (impliedNames role perm))
  let added ← RoleRepository.addPermission role perm
  impliedPerms.foldlM RoleRepository.addPermission added

def removePermissionFromRole (roleId : RoleId) (permissionId : PermissionId)
    (actor : LoadedUser) : Service LoadedRole := do
  let role ← getRole roleId actor.scope
  let found ← query (RoleRepository.getPermissionById · permissionId)
  let perm ← Action.require found (.permissionNotFound permissionId)
  Action.ensure (perm.id ∈ role.permissions.map Permission.id)
    (.permissionNotGranted "Permission not associated with this role")
  RoleRepository.removePermission role perm

/-! ### Grant delegation configuration -/

def addGrantableRole (roleId grantableRoleId : RoleId) (actor : LoadedUser) : Service Unit := do
  let _ ← getRole roleId actor.scope
  let found ← query (RoleRepository.getById · grantableRoleId)
  let grantableRole ← Action.require found (.roleNotFound grantableRoleId)
  unlessSuperuser actor.isSuperuser do
    let allowedRoleIds ← query (RoleRepository.getGrantableRoleIds · actor.roleIds)
    Action.ensure (grantableRoleId ∈ allowedRoleIds)
      (.grantNotAllowed s!"You are not allowed to delegate role '{grantableRole.name}'")
  let linked ← query (fun t => decide ((roleId, grantableRoleId) ∈ t.roleGrantableRoles))
  Action.ensure (linked = false) (.permissionAlreadyGranted
    s!"Role '{grantableRole.name}' is already grantable by this role")
  RoleRepository.addGrantableRole roleId grantableRoleId

def removeGrantableRole (roleId grantableRoleId : RoleId) (actor : LoadedUser) :
    Service Unit := do
  let _ ← getRole roleId actor.scope
  let found ← query (RoleRepository.getById · grantableRoleId)
  let grantableRole ← Action.require found (.roleNotFound grantableRoleId)
  let linked ← query (fun t => decide ((roleId, grantableRoleId) ∈ t.roleGrantableRoles))
  Action.ensure (linked = true) (.permissionNotGranted
    s!"Role '{grantableRole.name}' is not configured as grantable by this role")
  RoleRepository.removeGrantableRole roleId grantableRoleId

def addGrantablePermission (roleId : RoleId) (permissionId : PermissionId)
    (actor : LoadedUser) : Service Unit := do
  let _ ← getRole roleId actor.scope
  let found ← query (RoleRepository.getPermissionById · permissionId)
  let perm ← Action.require found (.permissionNotFound permissionId)
  unlessSuperuser actor.isSuperuser do
    let allowedPermissionIds ← query (RoleRepository.getGrantablePermissionIds · actor.roleIds)
    Action.ensure (permissionId ∈ allowedPermissionIds)
      (.grantNotAllowed s!"You are not allowed to delegate permission '{perm.name}'")
  let linked ← query (fun t => decide ((roleId, permissionId) ∈ t.roleGrantablePermissions))
  Action.ensure (linked = false) (.permissionAlreadyGranted
    s!"Permission '{perm.name}' is already grantable by this role")
  RoleRepository.addGrantablePermission roleId permissionId

def removeGrantablePermission (roleId : RoleId) (permissionId : PermissionId)
    (actor : LoadedUser) : Service Unit := do
  let _ ← getRole roleId actor.scope
  let found ← query (RoleRepository.getPermissionById · permissionId)
  let perm ← Action.require found (.permissionNotFound permissionId)
  let linked ← query (fun t => decide ((roleId, permissionId) ∈ t.roleGrantablePermissions))
  Action.ensure (linked = true) (.permissionNotGranted
    s!"Permission '{perm.name}' is not configured as grantable by this role")
  RoleRepository.removeGrantablePermission roleId permissionId

/-- The names of the grantable roles and of the grantable permissions. -/
def getRoleGrants (roleId : RoleId) (actor : Scope) : Service (List String × List String) := do
  let _ ← getRole roleId actor
  let roleIds ← query (RoleRepository.getGrantableRoleIds · [roleId])
  let permissionIds ← query (RoleRepository.getGrantablePermissionIds · [roleId])
  let roles ← query (RoleRepository.getByIds · roleIds)
  let permissions ← query (PermissionRepository.getByIds · permissionIds)
  return (roles.map (fun r => r.name), permissions.map Permission.name)

end RoleService
end FastapiTemplate
