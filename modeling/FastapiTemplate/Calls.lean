import FastapiTemplate.Changes
import FastapiTemplate.TenantService

/-!
The operations that a signed-in user can ask for, as data, and their runs. A
request loads its actor first. `Performs` names the changes that an operation
may commit; `Authorized` says what the checks of the services establish, at
the moment of the commit, about a change made by an actor who is no superuser.
-/
namespace FastapiTemplate

open Library.Committing Library.BitMask

/-- An operation with the arguments of its caller; the fresh identifiers are
the ones the database draws. -/
inductive Call
  | createRole (role : RoleCreate)
  | getRole (roleId : RoleId)
  | getAllRoles (skip limit : ℕ)
  | getRoleGrants (roleId : RoleId)
  | updateRole (roleId : RoleId) (roleUpdate : RoleUpdate)
  | deleteRole (roleId : RoleId)
  | addPermissionToRole (roleId : RoleId) (permissionId : PermissionId)
  | removePermissionFromRole (roleId : RoleId) (permissionId : PermissionId)
  | addGrantableRole (roleId grantableRoleId : RoleId)
  | removeGrantableRole (roleId grantableRoleId : RoleId)
  | addGrantablePermission (roleId : RoleId) (permissionId : PermissionId)
  | removeGrantablePermission (roleId : RoleId) (permissionId : PermissionId)
  | createUser (newId : Uuid) (data : UserCreate)
  | listUsers (skip limit : ℕ) (filterTenantId : Option Uuid)
  | countUsers (filterTenantId : Option Uuid)
  | getUserDetail (userId : Uuid)
  | getGrants
  | assignRole (targetUserId : Uuid) (roleId : RoleId)
  | removeRole (targetUserId : Uuid) (roleId : RoleId)
  | grantPermission (targetUserId : Uuid) (permissionId : PermissionId)
  | revokePermission (targetUserId : Uuid) (permissionId : PermissionId)
  | setUserActive (targetUserId : Uuid) (isActive : Bool)
  | createTenantWithAdmin (newTenantId newUserId : Uuid) (data : TenantCreate)
  | setTenantActive (tenantId : Uuid) (isActive : Bool)
  | updateTenantPermissions (tenantId : Uuid) (allowedPermissions : List String)

/-- Run an operation for its effect. -/
def discard {α : Type} (m : Service α) : Service Unit := do
  let _ ← m
  return ()

section Runs

variable (getPasswordHash : String → Except Err String)

def Call.run (actor : LoadedUser) : Call → Service Unit
  | createRole role => discard (RoleService.createRole role actor)
  | getRole roleId => discard (RoleService.getRole roleId actor.scope)
  | getAllRoles skip limit => discard (RoleService.getAllRoles actor.scope skip limit)
  | getRoleGrants roleId => discard (RoleService.getRoleGrants roleId actor.scope)
  | updateRole roleId roleUpdate => discard (RoleService.updateRole roleId roleUpdate actor)
  | deleteRole roleId => RoleService.deleteRole roleId actor
  | addPermissionToRole roleId permissionId =>
    discard (RoleService.addPermissionToRole roleId permissionId actor)
  | removePermissionFromRole roleId permissionId =>
    discard (RoleService.removePermissionFromRole roleId permissionId actor)
  | addGrantableRole roleId grantableRoleId =>
    RoleService.addGrantableRole roleId grantableRoleId actor
  | removeGrantableRole roleId grantableRoleId =>
    RoleService.removeGrantableRole roleId grantableRoleId actor
  | addGrantablePermission roleId permissionId =>
    RoleService.addGrantablePermission roleId permissionId actor
  | removeGrantablePermission roleId permissionId =>
    RoleService.removeGrantablePermission roleId permissionId actor
  | createUser newId data =>
    discard (UserManagementService.createUser getPasswordHash newId actor data)
  | listUsers skip limit filterTenantId =>
    discard (UserManagementService.listUsers actor.scope skip limit filterTenantId)
  | countUsers filterTenantId =>
    discard (UserManagementService.countUsers actor.scope filterTenantId)
  | getUserDetail userId => discard (UserManagementService.getUserDetail actor.scope userId)
  | getGrants => discard (UserManagementService.getGrants actor)
  | assignRole targetUserId roleId => UserManagementService.assignRole actor targetUserId roleId
  | removeRole targetUserId roleId => UserManagementService.removeRole actor targetUserId roleId
  | grantPermission targetUserId permissionId =>
    UserManagementService.grantPermission actor targetUserId permissionId
  | revokePermission targetUserId permissionId =>
    UserManagementService.revokePermission actor targetUserId permissionId
  | setUserActive targetUserId isActive =>
    UserManagementService.setUserActive actor.scope targetUserId isActive
  | createTenantWithAdmin newTenantId newUserId data =>
    discard (TenantService.createTenantWithAdmin getPasswordHash newTenantId newUserId actor data)
  | setTenantActive tenantId isActive =>
    discard (TenantService.setTenantActive actor tenantId isActive)
  | updateTenantPermissions tenantId allowedPermissions =>
    discard (TenantService.updateTenantPermissions actor tenantId allowedPermissions)

/-- `get_current_user`, then the operation. -/
def request (actorId : Uuid) (call : Call) : Service Unit := do
  let found ← query (UserRepository.getByIdWithGrants · actorId)
  let actor ← Action.require found (.userNotFound actorId.str)
  call.run getPasswordHash actor

end Runs

/-- The changes that an operation may commit. -/
def Call.Performs : Call → Change → Prop
  | createRole role, .createRole name _ _ _ => name = role.name
  | createRole _, .addGrantableRole _ _ => True
  | updateRole roleId _, .updateRole role _ => role.id = roleId
  | deleteRole roleId, .deleteRole role => role.id = roleId
  | addPermissionToRole roleId _, .addPermission role _ => role.id = roleId
  | removePermissionFromRole roleId permissionId, .removePermission role permission =>
    role.id = roleId ∧ permission.id = permissionId
  | addGrantableRole roleId grantableRoleId, .addGrantableRole roleId' grantableRoleId' =>
    roleId' = roleId ∧ grantableRoleId' = grantableRoleId
  | removeGrantableRole roleId grantableRoleId, .removeGrantableRole roleId' grantableRoleId' =>
    roleId' = roleId ∧ grantableRoleId' = grantableRoleId
  | addGrantablePermission roleId permissionId, .addGrantablePermission roleId' permissionId' =>
    roleId' = roleId ∧ permissionId' = permissionId
  | removeGrantablePermission roleId permissionId,
      .removeGrantablePermission roleId' permissionId' =>
    roleId' = roleId ∧ permissionId' = permissionId
  | createUser newId _, .createUser data => data.id = newId ∧ data.isSuperuser = false
  | assignRole targetUserId roleId, .assignToUser roleId' userId =>
    roleId' = roleId ∧ userId = targetUserId
  | removeRole targetUserId roleId, .removeFromUser roleId' userId =>
    roleId' = roleId ∧ userId = targetUserId
  | grantPermission targetUserId permissionId, .grantPermission user permission =>
    user.id = targetUserId ∧ permission.id = permissionId
  | revokePermission targetUserId permissionId, .revokePermission user permission =>
    user.id = targetUserId ∧ permission.id = permissionId
  | setUserActive targetUserId isActive, .setUserActive user isActive' =>
    user.id = targetUserId ∧ isActive' = isActive
  | createTenantWithAdmin newTenantId _ _, .createTenant tenantId _ _ => tenantId = newTenantId
  | createTenantWithAdmin newTenantId _ _, .createRootTenantRole tenantId _ =>
    tenantId = newTenantId
  | createTenantWithAdmin newTenantId newUserId _, .createUser data =>
    data.id = newUserId ∧ data.tenantId = some newTenantId ∧ data.isSuperuser = false
  | createTenantWithAdmin _ newUserId _, .assignToUser _ userId => userId = newUserId
  | setTenantActive tenantId isActive, .setTenantActive tenant isActive' =>
    tenant.id = tenantId ∧ isActive' = isActive
  | updateTenantPermissions tenantId _, .setAllowedPermissionMask tenant _ =>
    tenant.id = tenantId
  | updateTenantPermissions tenantId _, .syncRootTenantRole tenantId' _ => tenantId' = tenantId
  | _, _ => False

theorem Call.performs_deleteRole {call : Call} {role : LoadedRole}
    (h : call.Performs (.deleteRole role)) : call = .deleteRole role.id := by
  cases call <;> simp_all [Call.Performs]

/-! ### Authority -/

/-- The role is global or belongs to the tenant. -/
def InScope (tenantId : Option Uuid) (role : Role) : Prop :=
  role.tenantId = none ∨ role.tenantId = tenantId

/-- A role of the user may grant the role. -/
def Tables.DelegatesRole (t : Tables) (userId : Uuid) (roleId : RoleId) : Prop :=
  ∃ held, (userId, held) ∈ t.userRoles ∧ (held, roleId) ∈ t.roleGrantableRoles

/-- A role of the user may grant the permission. -/
def Tables.DelegatesPermission (t : Tables) (userId : Uuid) (permissionId : PermissionId) : Prop :=
  ∃ held, (userId, held) ∈ t.userRoles ∧ (held, permissionId) ∈ t.roleGrantablePermissions

/-- The mask is within the ceiling of the tenant, when there is one. -/
def Tables.UnderCeiling (t : Tables) (tenantId : Option Uuid) (mask : ℕ) : Prop :=
  ∀ i ∈ tenantId, ∀ tenant, t.tenants.get i = some tenant →
    Within mask tenant.allowedPermissionMask

/-- What the checks establish for an actor who is not a superuser. -/
def Change.Authorized (actor : User) (t : Tables) : Change → Prop
  | createRole _ tenantId _ mask => tenantId = actor.tenantId ∧ t.UnderCeiling actor.tenantId mask
  | updateRole role _ => InScope actor.tenantId role.toRole
  | deleteRole role => InScope actor.tenantId role.toRole
  | addPermission role permission =>
    InScope actor.tenantId role.toRole ∧
      ∃ b, permissionRegistry.lookup permission.name = some b ∧
        t.UnderCeiling actor.tenantId (bit b)
  | removePermission role _ => InScope actor.tenantId role.toRole
  | addGrantableRole _ grantableRoleId =>
    t.DelegatesRole actor.id grantableRoleId ∨
      ∃ role, t.roles.get grantableRoleId = some role ∧ role.tenantId = actor.tenantId
  | addGrantablePermission _ permissionId => t.DelegatesPermission actor.id permissionId
  | createUser data => data.tenantId = actor.tenantId
  | assignToUser roleId userId =>
    t.DelegatesRole actor.id roleId ∧
      ∃ user, t.users.get userId = some user ∧ user.tenantId = actor.tenantId
  | removeFromUser _ userId =>
    ∃ user, t.users.get userId = some user ∧ user.tenantId = actor.tenantId
  | grantPermission user permission =>
    t.DelegatesPermission actor.id permission.id ∧ user.tenantId = actor.tenantId
  | revokePermission user _ => user.tenantId = actor.tenantId
  | setUserActive user _ => user.tenantId = actor.tenantId
  | removeGrantableRole _ _ => True
  | removeGrantablePermission _ _ => True
  | _ => False

end FastapiTemplate
