import FastapiTemplate.UserManagementService

/-!
`TenantService`. Every method but the reads requires a superuser. Creating a
tenant commits four times: the tenant, its root role, its first user and the
membership that joins them.
-/
namespace FastapiTemplate

open Library.Committing

/-- `schema.tenant.TenantCreate`. -/
structure TenantCreate where
  name : String
  adminUsername : String
  adminEmail : String
  adminPassword : String
  allowedPermissions : Option (List String)

namespace TenantService

/-- The requested ceiling, every tenant permission by default. -/
def requestedCeiling (allowedPermissions : Option (List String)) : Except Err ℕ :=
  match allowedPermissions with
  | none => .ok tenantRoleMask
  | some names => maskFor names

def createTenantWithAdmin (getPasswordHash : String → Except Err String)
    (newTenantId newUserId : Uuid) (actor : LoadedUser) (data : TenantCreate) :
    Service (Tenant × User) := do
  Action.ensure (actor.isSuperuser = true) .superuserRequired
  let existing ← query (TenantRepository.getByName · data.name)
  Action.ensure (existing = none) (.tenantExists data.name)
  let usernameTaken ← query (UserRepository.existsByUsername · data.adminUsername)
  Action.ensure (usernameTaken = false) (.usernameExist data.adminUsername)
  let emailTaken ← query (UserRepository.existsByEmail · data.adminEmail)
  Action.ensure (emailTaken = false) (.userMailExist data.adminEmail)
  let requested ← Action.ofExcept (requestedCeiling data.allowedPermissions)
  let allowedMask := requested &&& tenantRoleMask
  let tenant ← TenantRepository.create newTenantId data.name allowedMask
  let adminRole ← RoleRepository.createRootTenantRole tenant.id allowedMask
  let password ← Action.ofExcept (getPasswordHash data.adminPassword)
  let adminUser ← UserRepository.create {
    id := newUserId
    username := data.adminUsername
    email := data.adminEmail
    password := some password
    isVerified := true
    tenantId := some tenant.id
    createdById := some actor.id }
  RoleRepository.assignToUser adminRole.id adminUser.id
  return (tenant, adminUser)

def getTenant (tenantId : Uuid) : Service Tenant := do
  let found ← query (TenantRepository.getById · tenantId)
  Action.require found (.tenantNotFound tenantId)

def setTenantActive (actor : LoadedUser) (tenantId : Uuid) (isActive : Bool) :
    Service Tenant := do
  Action.ensure (actor.isSuperuser = true) .superuserRequired
  let tenant ← getTenant tenantId
  TenantRepository.setActive tenant isActive

def updateTenantPermissions (actor : LoadedUser) (tenantId : Uuid)
    (allowedPermissions : List String) : Service Tenant := do
  Action.ensure (actor.isSuperuser = true) .superuserRequired
  let tenant ← getTenant tenantId
  let requested ← Action.ofExcept (maskFor allowedPermissions)
  let allowedMask := requested &&& tenantRoleMask
  let updated ← TenantRepository.setAllowedPermissionMask tenant allowedMask
  let _ ← RoleRepository.syncRootTenantRolePermissions updated.id allowedMask
  return updated

end TenantService
end FastapiTemplate
