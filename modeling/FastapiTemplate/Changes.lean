import FastapiTemplate.Delegation
import FastapiTemplate.UserRepository
import FastapiTemplate.TenantRepository

/-!
The transactions of the program as data. A `Change` is a repository
transaction with its arguments, and `Commits` runs it. `Current` says that
the objects it was given are the ones in the tables it runs on, as they are
when nothing else commits between the load and the transaction. Two lemmas
describe every change at once: what it does to the row of a user, and when it
leaves the grants of a user alone.
-/
namespace FastapiTemplate

open Library.KeyedTable Library.BitMask

/-- The transactions of `RefreshTokenRepository`. -/
inductive TokenChange
  | create (token : String) (userId : Uuid) (expiresAt : ℤ)
  | deleteByToken (token : String)
  | deleteAllForUser (userId : Uuid)
  | revoke (row : RefreshToken)

def TokenChange.Commits : TokenChange → Db → Db → List Event → Prop
  | create token userId expiresAt =>
    FastapiTemplate.Commits (RefreshTokenRepository.createTx token userId expiresAt)
  | deleteByToken token => FastapiTemplate.Commits (RefreshTokenRepository.deleteByTokenTx token)
  | deleteAllForUser userId =>
    FastapiTemplate.Commits (RefreshTokenRepository.deleteAllForUserTx userId)
  | revoke row => FastapiTemplate.Commits (RefreshTokenRepository.revokeTx row)

inductive Change
  | createRole (name : String) (tenantId : Option Uuid) (permissions : List Permission) (mask : ℕ)
  | createRootTenantRole (tenantId : Uuid) (allowed : ℕ)
  | syncRootTenantRole (tenantId : Uuid) (allowed : ℕ)
  | updateRole (role : LoadedRole) (data : RoleUpdate)
  | deleteRole (role : LoadedRole)
  | assignToUser (roleId : RoleId) (userId : Uuid)
  | removeFromUser (roleId : RoleId) (userId : Uuid)
  | addPermission (role : LoadedRole) (permission : Permission)
  | removePermission (role : LoadedRole) (permission : Permission)
  | addGrantableRole (roleId grantableRoleId : RoleId)
  | removeGrantableRole (roleId grantableRoleId : RoleId)
  | addGrantablePermission (roleId : RoleId) (permissionId : PermissionId)
  | removeGrantablePermission (roleId : RoleId) (permissionId : PermissionId)
  | createUser (data : UserRepository.NewUser)
  | setVerified (user : User)
  | setPassword (user : User) (hashedPassword : String)
  | grantPermission (user : LoadedUser) (permission : Permission)
  | revokePermission (user : LoadedUser) (permission : Permission)
  | setUserActive (user : User) (isActive : Bool)
  | createTenant (tenantId : Uuid) (name : String) (mask : ℕ)
  | setAllowedPermissionMask (tenant : Tenant) (mask : ℕ)
  | setTenantActive (tenant : Tenant) (isActive : Bool)
  | createWithBit (name : String) (bitPosition : ℕ)
  | token (change : TokenChange)

namespace Change

def Commits : Change → Db → Db → List Event → Prop
  | createRole name tenantId permissions mask =>
    FastapiTemplate.Commits (RoleRepository.createTx name tenantId permissions mask)
  | createRootTenantRole tenantId allowed =>
    FastapiTemplate.Commits (RoleRepository.createRootTenantRoleTx tenantId allowed)
  | syncRootTenantRole tenantId allowed =>
    FastapiTemplate.Commits (RoleRepository.syncRootTenantRolePermissionsTx tenantId allowed)
  | updateRole role data => FastapiTemplate.Commits (RoleRepository.updateTx role data)
  | deleteRole role => FastapiTemplate.Commits (RoleRepository.deleteTx role)
  | assignToUser roleId userId =>
    FastapiTemplate.Commits (RoleRepository.assignToUserTx roleId userId)
  | removeFromUser roleId userId =>
    FastapiTemplate.Commits (RoleRepository.removeFromUserTx roleId userId)
  | addPermission role permission =>
    FastapiTemplate.Commits (RoleRepository.addPermissionTx role permission)
  | removePermission role permission =>
    FastapiTemplate.Commits (RoleRepository.removePermissionTx role permission)
  | addGrantableRole roleId grantableRoleId =>
    FastapiTemplate.Commits (RoleRepository.addGrantableRoleTx roleId grantableRoleId)
  | removeGrantableRole roleId grantableRoleId =>
    FastapiTemplate.Commits (RoleRepository.removeGrantableRoleTx roleId grantableRoleId)
  | addGrantablePermission roleId permissionId =>
    FastapiTemplate.Commits (RoleRepository.addGrantablePermissionTx roleId permissionId)
  | removeGrantablePermission roleId permissionId =>
    FastapiTemplate.Commits (RoleRepository.removeGrantablePermissionTx roleId permissionId)
  | createUser data => FastapiTemplate.Commits (UserRepository.createTx data)
  | setVerified user => FastapiTemplate.Commits (UserRepository.setVerifiedTx user)
  | setPassword user hashedPassword =>
    FastapiTemplate.Commits (UserRepository.setPasswordTx user hashedPassword)
  | grantPermission user permission =>
    FastapiTemplate.Commits (UserRepository.grantPermissionTx user permission)
  | revokePermission user permission =>
    FastapiTemplate.Commits (UserRepository.revokePermissionTx user permission)
  | setUserActive user isActive =>
    FastapiTemplate.Commits (UserRepository.setActiveTx user isActive)
  | createTenant tenantId name mask =>
    FastapiTemplate.Commits (TenantRepository.createTx tenantId name mask)
  | setAllowedPermissionMask tenant mask =>
    FastapiTemplate.Commits (TenantRepository.setAllowedPermissionMaskTx tenant mask)
  | setTenantActive tenant isActive =>
    FastapiTemplate.Commits (TenantRepository.setActiveTx tenant isActive)
  | createWithBit name bitPosition =>
    FastapiTemplate.Commits (PermissionRepository.createWithBitTx name bitPosition)
  | token change => change.Commits

/-- The loaded objects of the change are the rows of `t`, the attached
permissions are those of the names behind the mask, and a ceiling is within
the tenant permissions. -/
def Current (t : Tables) : Change → Prop
  | createRole _ _ permissions mask =>
    ∃ names, maskFor names = .ok mask ∧ permissions = PermissionRepository.getByNames t names
  | createRootTenantRole _ allowed => Within allowed tenantRoleMask
  | syncRootTenantRole _ allowed => Within allowed tenantRoleMask
  | updateRole role _ => RoleRepository.getById t role.id = some role
  | deleteRole role => RoleRepository.getById t role.id = some role
  | addPermission role permission =>
    RoleRepository.getById t role.id = some role ∧ t.permissions.get permission.id = some permission
  | removePermission role permission =>
    RoleRepository.getById t role.id = some role ∧ t.permissions.get permission.id = some permission
  | setVerified user => t.users.get user.id = some user
  | setPassword user _ => t.users.get user.id = some user
  | grantPermission user permission =>
    UserRepository.getByIdWithGrants t user.id = some user ∧
      t.permissions.get permission.id = some permission
  | revokePermission user permission =>
    UserRepository.getByIdWithGrants t user.id = some user ∧
      t.permissions.get permission.id = some permission
  | setUserActive user _ => t.users.get user.id = some user
  | createTenant _ _ mask => Within mask tenantRoleMask
  | setAllowedPermissionMask tenant mask =>
    t.tenants.get tenant.id = some tenant ∧ Within mask tenantRoleMask
  | setTenantActive tenant _ => t.tenants.get tenant.id = some tenant
  | createWithBit name bitPosition => (name, bitPosition) ∈ permissionRegistry
  | _ => True

/-- The change bumps the version of the user. -/
def Bumps (t : Tables) (userId : Uuid) : Change → Prop
  | syncRootTenantRole tenantId _ =>
    ∃ role, RoleRepository.getByName t "tenant-admin" (some tenantId) = some role ∧
      (userId, role.id) ∈ t.userRoles
  | assignToUser _ targetId => userId = targetId
  | removeFromUser _ targetId => userId = targetId
  | addPermission role _ => (userId, role.id) ∈ t.userRoles
  | removePermission role _ => (userId, role.id) ∈ t.userRoles
  | grantPermission user _ => userId = user.id
  | revokePermission user _ => userId = user.id
  | _ => False

/-- The change deletes a role that the user holds. -/
def DropsRoleOf (t : Tables) (userId : Uuid) : Change → Prop
  | deleteRole role => (userId, role.id) ∈ t.userRoles
  | _ => False

def SetsActive (userId : Uuid) : Change → Prop
  | setUserActive user _ => userId = user.id
  | _ => False

/-- The tables that a committed change leaves, but for the refresh tokens. -/
def apply (t : Tables) : Change → Tables
  | createRole name tenantId permissions mask =>
    { t with
      roles := t.roles.insertD (RoleRepository.newRole t name tenantId mask)
      rolesIdSeq := t.rolesIdSeq + 1
      rolePermissions := t.rolePermissions ∪ RoleRepository.links t.rolesIdSeq permissions }
  | createRootTenantRole tenantId allowed =>
    let mask := allowed &&& tenantRoleMask
    let granted := RoleRepository.links t.rolesIdSeq (RoleRepository.permissionRows t mask)
    { t with
      roles := t.roles.insertD (RoleRepository.newRole t "tenant-admin" (some tenantId) mask)
      rolesIdSeq := t.rolesIdSeq + 1
      rolePermissions := t.rolePermissions ∪ granted
      roleGrantablePermissions := t.roleGrantablePermissions ∪ granted }
  | syncRootTenantRole tenantId allowed =>
    match RoleRepository.getByName t "tenant-admin" (some tenantId) with
    | none => t
    | some role =>
      let mask := allowed &&& tenantRoleMask
      let granted := RoleRepository.links role.id (RoleRepository.permissionRows t mask)
      Tables.bumpPermVersion { t with
        roles := t.roles.update (fun r => r.id = role.id)
          (fun r => { r with permissionMask := mask }) (Role.id_setMask mask)
        rolePermissions := t.rolePermissions.filter (fun x => x.1 ≠ role.id) ∪ granted
        roleGrantablePermissions :=
          t.roleGrantablePermissions.filter (fun x => x.1 ≠ role.id) ∪ granted }
        (t.holds role.id)
  | updateRole role data =>
    { t with
      roles := t.roles.update (fun r => r.id = role.id) (fun r => { r with name := data.name })
        (Role.id_setName data.name) }
  | deleteRole role =>
    { t with
      roles := t.roles.delete (fun r => r.id = role.id)
      userRoles := t.userRoles.filter (fun x => x.2 ≠ role.id)
      rolePermissions := t.rolePermissions.filter (fun x => x.1 ≠ role.id)
      roleGrantableRoles := t.roleGrantableRoles.filter (fun x => x.1 ≠ role.id ∧ x.2 ≠ role.id)
      roleGrantablePermissions := t.roleGrantablePermissions.filter (fun x => x.1 ≠ role.id) }
  | assignToUser roleId userId =>
    Tables.bumpPermVersion { t with userRoles := insert (userId, roleId) t.userRoles } (· = userId)
  | removeFromUser roleId userId =>
    Tables.bumpPermVersion { t with userRoles := t.userRoles.erase (userId, roleId) } (· = userId)
  | addPermission role permission =>
    Tables.bumpPermVersion { t with
      roles := t.roles.update (fun r => r.id = role.id)
        (fun r => { r with
          permissionMask := RoleRepository.maskWith role.permissionMask permission })
        (Role.id_setMask (RoleRepository.maskWith role.permissionMask permission))
      rolePermissions := insert (role.id, permission.id) t.rolePermissions } (t.holds role.id)
  | removePermission role permission =>
    Tables.bumpPermVersion { t with
      roles := t.roles.update (fun r => r.id = role.id)
        (fun r => { r with
          permissionMask := RoleRepository.maskWithout role.permissionMask permission })
        (Role.id_setMask (RoleRepository.maskWithout role.permissionMask permission))
      rolePermissions := t.rolePermissions.erase (role.id, permission.id) } (t.holds role.id)
  | addGrantableRole roleId grantableRoleId =>
    { t with roleGrantableRoles := insert (roleId, grantableRoleId) t.roleGrantableRoles }
  | removeGrantableRole roleId grantableRoleId =>
    { t with roleGrantableRoles := t.roleGrantableRoles.erase (roleId, grantableRoleId) }
  | addGrantablePermission roleId permissionId =>
    { t with
      roleGrantablePermissions := insert (roleId, permissionId) t.roleGrantablePermissions }
  | removeGrantablePermission roleId permissionId =>
    { t with
      roleGrantablePermissions := t.roleGrantablePermissions.erase (roleId, permissionId) }
  | createUser data => { t with users := t.users.insertD data.row }
  | setVerified user =>
    { t with
      users := t.users.update (fun u => u.id = user.id) (fun u => { u with isVerified := true })
        User.id_setVerified }
  | setPassword user hashedPassword =>
    { t with
      users := t.users.update (fun u => u.id = user.id)
        (fun u => { u with password := some hashedPassword })
        (User.id_setPassword hashedPassword) }
  | grantPermission user permission =>
    { t with
      users := t.users.update (fun u => u.id = user.id)
        (fun u => { u with permVersion := user.permVersion + 1 })
        user.id_nextVersion
      userPermissions := insert (user.id, permission.id) t.userPermissions }
  | revokePermission user permission =>
    { t with
      users := t.users.update (fun u => u.id = user.id)
        (fun u => { u with permVersion := user.permVersion + 1 })
        user.id_nextVersion
      userPermissions := t.userPermissions.erase (user.id, permission.id) }
  | setUserActive user isActive =>
    { t with
      users := t.users.update (fun u => u.id = user.id) (fun u => { u with isActive := isActive })
        (User.id_setActive isActive) }
  | createTenant tenantId name mask =>
    { t with tenants := t.tenants.insertD ⟨tenantId, name, true, mask⟩ }
  | setAllowedPermissionMask tenant mask =>
    { t with
      tenants := t.tenants.update (fun x => x.id = tenant.id)
        (fun x => { x with allowedPermissionMask := mask }) (Tenant.id_setMask mask) }
  | setTenantActive tenant isActive =>
    { t with
      tenants := t.tenants.update (fun x => x.id = tenant.id)
        (fun x => { x with isActive := isActive }) (Tenant.id_setActive isActive) }
  | createWithBit name bitPosition =>
    { t with
      permissions := t.permissions.insertD ⟨t.permissionsIdSeq, name, some bitPosition⟩
      permissionsIdSeq := t.permissionsIdSeq + 1 }
  | token _ => t

end Change

theorem TokenChange.commits_frame {c : TokenChange} {db db' : Db} {es : List Event}
    (h : c.Commits db db' es) :
    (∃ tokens, db'.toTables = { db.toTables with refreshTokens := tokens }) ∧ es = [] := by
  cases c with
  | create token userId expiresAt =>
    obtain ⟨a, h⟩ := h
    obtain ⟨tokens, _, ht, _, hes⟩ := RefreshTokenRepository.createTx_eq_ok h
    exact ⟨⟨tokens, ht⟩, hes⟩
  | deleteByToken token =>
    obtain ⟨a, h⟩ := h
    obtain ⟨ht, hes⟩ := RefreshTokenRepository.deleteByTokenTx_eq_ok h
    exact ⟨⟨_, ht⟩, hes⟩
  | deleteAllForUser userId =>
    obtain ⟨a, h⟩ := h
    obtain ⟨ht, hes⟩ := RefreshTokenRepository.deleteAllForUserTx_eq_ok h
    exact ⟨⟨_, ht⟩, hes⟩
  | revoke row =>
    obtain ⟨a, h⟩ := h
    obtain ⟨_, ht, hes⟩ := RefreshTokenRepository.revokeTx_eq_ok h
    exact ⟨⟨_, ht⟩, hes⟩

/-- Every commit leaves the tables of `apply`. -/
theorem Change.commits_apply {c : Change} {db db' : Db} {es : List Event}
    (h : c.Commits db db' es) :
    ∃ tokens, db'.toTables = { c.apply db.toTables with refreshTokens := tokens } := by
  cases c with
  | createRole name tenantId permissions mask =>
    obtain ⟨a, h⟩ := h
    obtain ⟨roles, hinsert, ht, _⟩ := RoleRepository.createTx_eq_ok h
    exact ⟨db.refreshTokens, by rw [ht, apply, Table.insertD_eq hinsert]⟩
  | createRootTenantRole tenantId allowed =>
    obtain ⟨a, h⟩ := h
    obtain ⟨roles, hinsert, ht, _⟩ := RoleRepository.createRootTenantRoleTx_eq_ok h
    exact ⟨db.refreshTokens, by rw [ht, apply, Table.insertD_eq hinsert]⟩
  | syncRootTenantRole tenantId allowed =>
    obtain ⟨a, h⟩ := h
    rcases RoleRepository.syncRootTenantRolePermissionsTx_eq_ok h with
      ⟨hnone, ht, _⟩ | ⟨role, hrole, hsync⟩
    · exact ⟨db.refreshTokens, by rw [ht, apply, hnone]⟩
    · obtain ⟨_, ht, _⟩ := RoleRepository.resyncRole_eq_ok hsync
      exact ⟨db.refreshTokens, by rw [ht, apply, hrole]; rfl⟩
  | updateRole role data =>
    obtain ⟨a, h⟩ := h
    exact ⟨db.refreshTokens, (RoleRepository.updateTx_eq_ok h).1⟩
  | deleteRole role =>
    obtain ⟨a, h⟩ := h
    exact ⟨db.refreshTokens, (RoleRepository.deleteTx_eq_ok h).1⟩
  | assignToUser roleId userId =>
    obtain ⟨a, h⟩ := h
    exact ⟨db.refreshTokens, (RoleRepository.assignToUserTx_eq_ok h).2.1⟩
  | removeFromUser roleId userId =>
    obtain ⟨a, h⟩ := h
    exact ⟨db.refreshTokens, (RoleRepository.removeFromUserTx_eq_ok h).1⟩
  | addPermission role permission =>
    obtain ⟨a, h⟩ := h
    exact ⟨db.refreshTokens, (RoleRepository.addPermissionTx_eq_ok h).2.2.1⟩
  | removePermission role permission =>
    obtain ⟨a, h⟩ := h
    exact ⟨db.refreshTokens, (RoleRepository.removePermissionTx_eq_ok h).2.2.1⟩
  | addGrantableRole roleId grantableRoleId =>
    obtain ⟨a, h⟩ := h
    exact ⟨db.refreshTokens, (RoleRepository.addGrantableRoleTx_eq_ok h).1⟩
  | removeGrantableRole roleId grantableRoleId =>
    obtain ⟨a, h⟩ := h
    exact ⟨db.refreshTokens, (RoleRepository.removeGrantableRoleTx_eq_ok h).1⟩
  | addGrantablePermission roleId permissionId =>
    obtain ⟨a, h⟩ := h
    exact ⟨db.refreshTokens, (RoleRepository.addGrantablePermissionTx_eq_ok h).1⟩
  | removeGrantablePermission roleId permissionId =>
    obtain ⟨a, h⟩ := h
    exact ⟨db.refreshTokens, (RoleRepository.removeGrantablePermissionTx_eq_ok h).1⟩
  | createUser data =>
    obtain ⟨a, h⟩ := h
    obtain ⟨users, hinsert, ht, _⟩ := UserRepository.createTx_eq_ok h
    exact ⟨db.refreshTokens, by rw [ht, apply, Table.insertD_eq hinsert]⟩
  | setVerified user =>
    obtain ⟨a, h⟩ := h
    exact ⟨db.refreshTokens, (UserRepository.setVerifiedTx_eq_ok h).1⟩
  | setPassword user hashedPassword =>
    obtain ⟨a, h⟩ := h
    exact ⟨db.refreshTokens, (UserRepository.setPasswordTx_eq_ok h).1⟩
  | grantPermission user permission =>
    obtain ⟨a, h⟩ := h
    exact ⟨db.refreshTokens, (UserRepository.grantPermissionTx_eq_ok h).2.2.1⟩
  | revokePermission user permission =>
    obtain ⟨a, h⟩ := h
    exact ⟨db.refreshTokens, (UserRepository.revokePermissionTx_eq_ok h).2.2.1⟩
  | setUserActive user isActive =>
    obtain ⟨a, h⟩ := h
    exact ⟨db.refreshTokens, (UserRepository.setActiveTx_eq_ok h).2.1⟩
  | createTenant tenantId name mask =>
    obtain ⟨a, h⟩ := h
    obtain ⟨tenants, hinsert, ht, _⟩ := TenantRepository.createTx_eq_ok h
    exact ⟨db.refreshTokens, by rw [ht, apply, Table.insertD_eq hinsert]⟩
  | setAllowedPermissionMask tenant mask =>
    obtain ⟨a, h⟩ := h
    exact ⟨db.refreshTokens, (TenantRepository.setAllowedPermissionMaskTx_eq_ok h).1⟩
  | setTenantActive tenant isActive =>
    obtain ⟨a, h⟩ := h
    exact ⟨db.refreshTokens, (TenantRepository.setActiveTx_eq_ok h).2.1⟩
  | createWithBit name bitPosition =>
    obtain ⟨a, h⟩ := h
    obtain ⟨permissions, hinsert, ht, _⟩ := PermissionRepository.createWithBitTx_eq_ok h
    exact ⟨db.refreshTokens, by rw [ht, apply, Table.insertD_eq hinsert]⟩
  | token change => exact (TokenChange.commits_frame h).1

/-! ### The row of a user -/

/-- What the change does to the row of one existing user. -/
structure RowStep (c : Change) (t : Tables) (es : List Event) (u u' : User) : Prop where
  tenantId : u'.tenantId = u.tenantId
  isSuperuser : u'.isSuperuser = u.isSuperuser
  isActive : ¬ c.SetsActive u.id → u'.isActive = u.isActive
  bumped : c.Bumps t u.id →
    u'.permVersion = u.permVersion + 1 ∧ Event.permVersion u.id.str u'.permVersion ∈ es
  kept : ¬ c.Bumps t u.id → u'.permVersion = u.permVersion

variable {c : Change} {t t' : Tables} {es : List Event} {userId : Uuid} {u : User}

theorem rowStep_same (hc : ¬ c.Bumps t userId) (husers : t'.users = t.users)
    (hu : t.users.get userId = some u) :
    ∃ u', t'.users.get userId = some u' ∧ RowStep c t es u u' := by
  obtain rfl := Table.key_of_get hu
  refine ⟨u, by rw [husers, hu], rfl, rfl, fun _ => rfl, fun hb => absurd hb hc, fun _ => rfl⟩

/-- An update of a column other than the version, the tenant and the status. -/
theorem rowStep_update {f : User → User} {p : User → Bool} (hf : ∀ u, (f u).id = u.id)
    (hc : ¬ c.Bumps t userId) (husers : t'.users = t.users.update p f hf)
    (hrow : ∀ u, (f u).tenantId = u.tenantId ∧ (f u).isSuperuser = u.isSuperuser ∧
      (f u).permVersion = u.permVersion)
    (hactive : ∀ u, p u = true → ¬ c.SetsActive u.id → (f u).isActive = u.isActive)
    (hu : t.users.get userId = some u) :
    ∃ u', t'.users.get userId = some u' ∧ RowStep c t es u u' := by
  obtain rfl := Table.key_of_get hu
  refine ⟨if p u then f u else u, by rw [husers, Table.get_update, hu, Option.map_some], ?_⟩
  by_cases hp : p u = true
  · rw [if_pos hp]
    exact ⟨(hrow u).1, (hrow u).2.1, hactive u hp, fun hb => absurd hb hc, fun _ => (hrow u).2.2⟩
  · rw [if_neg hp]
    exact ⟨rfl, rfl, fun _ => rfl, fun hb => absurd hb hc, fun _ => rfl⟩

/-- The SQL increment over the users that the change bumps. -/
theorem rowStep_bump {s : Tables} {ids : Uuid → Bool} (ht' : t' = s.bumpPermVersion ids)
    (hs : s.users = t.users) (hids : ids userId = true ↔ c.Bumps t userId)
    (hes : es = t'.versionEvents ids) (hu : t.users.get userId = some u) :
    ∃ u', t'.users.get userId = some u' ∧ RowStep c t es u u' := by
  have hget : t'.users.get userId =
      some (if ids userId then { u with permVersion := u.permVersion + 1 } else u) := by
    rw [ht', Tables.get_bumpPermVersion, hs, hu, Option.map_some]
  refine ⟨_, hget, ?_⟩
  obtain rfl := Table.key_of_get hu
  by_cases hbump : ids u.id = true
  · rw [if_pos hbump] at hget ⊢
    refine ⟨rfl, rfl, fun _ => rfl, fun _ => ⟨rfl, ?_⟩, fun hb => absurd (hids.mp hbump) hb⟩
    rw [hes]
    exact Tables.mem_versionEvents.mpr ⟨u.id, _, hget, hbump, rfl⟩
  · rw [if_neg hbump] at hget ⊢
    exact ⟨rfl, rfl, fun _ => rfl, fun hb => absurd (hids.mpr hb) hbump, fun _ => rfl⟩

/-- The version written from the loaded user. -/
theorem rowStep_write {v : User} (hc : c.Bumps t userId ↔ userId = v.id)
    (hv : t.users.get v.id = some v)
    (husers : t'.users = t.users.update (fun u => u.id = v.id)
      (fun u => { u with permVersion := v.permVersion + 1 }) (fun _ => rfl))
    (hes : es = [.permVersion v.id.str (v.permVersion + 1)]) (hu : t.users.get userId = some u) :
    ∃ u', t'.users.get userId = some u' ∧ RowStep c t es u u' := by
  obtain rfl := Table.key_of_get hu
  by_cases huv : u.id = v.id
  · rw [huv, hv] at hu
    obtain rfl := Option.some.inj hu
    refine ⟨{ v with permVersion := v.permVersion + 1 },
      by rw [husers, Table.get_update, hv]; simp, rfl, rfl, fun _ => rfl, fun _ => ⟨rfl, ?_⟩,
      fun hb => absurd (hc.mpr rfl) hb⟩
    simp [hes]
  · refine ⟨u, by rw [husers, Table.get_update, hu]; simp [huv], rfl, rfl, fun _ => rfl,
      fun hb => absurd (hc.mp hb) huv, fun _ => rfl⟩

/-- Every change keeps every user, and bumps exactly the versions it announces. -/
theorem Change.row_step {db db' : Db} (hcur : c.Current db.toTables) (h : c.Commits db db' es)
    (hu : db.users.get userId = some u) :
    ∃ u', db'.users.get userId = some u' ∧ RowStep c db.toTables es u u' := by
  have husers : db'.users = (c.apply db.toTables).users := by
    obtain ⟨tokens, ht⟩ := Change.commits_apply h
    rw [ht]
  cases c with
  | syncRootTenantRole tenantId allowed =>
    obtain ⟨a, h⟩ := h
    rcases RoleRepository.syncRootTenantRolePermissionsTx_eq_ok h with
      ⟨hnone, ht, _⟩ | ⟨role, hrole, hsync⟩
    · refine rowStep_same ?_ (by rw [ht]) hu
      rintro ⟨role, hrole, _⟩
      rw [hnone] at hrole
      cases hrole
    · obtain ⟨_, ht, hes⟩ := RoleRepository.resyncRole_eq_ok hsync
      refine rowStep_bump ht rfl ?_ hes hu
      rw [Change.Bumps, hrole]
      simp [Tables.holds]
  | assignToUser roleId targetId =>
    obtain ⟨a, h⟩ := h
    obtain ⟨_, ht, hes⟩ := RoleRepository.assignToUserTx_eq_ok h
    exact rowStep_bump ht rfl (by simp [Change.Bumps]) hes hu
  | removeFromUser roleId targetId =>
    obtain ⟨a, h⟩ := h
    obtain ⟨ht, hes⟩ := RoleRepository.removeFromUserTx_eq_ok h
    exact rowStep_bump ht rfl (by simp [Change.Bumps]) hes hu
  | addPermission role permission =>
    obtain ⟨a, h⟩ := h
    obtain ⟨_, _, ht, hes, _⟩ := RoleRepository.addPermissionTx_eq_ok h
    exact rowStep_bump ht rfl (by simp [Change.Bumps, Tables.holds]) hes hu
  | removePermission role permission =>
    obtain ⟨a, h⟩ := h
    obtain ⟨_, _, ht, hes, _⟩ := RoleRepository.removePermissionTx_eq_ok h
    exact rowStep_bump ht rfl (by simp [Change.Bumps, Tables.holds]) hes hu
  | createUser data =>
    obtain rfl := Table.key_of_get hu
    refine ⟨u, ?_, rfl, rfl, fun _ => rfl, False.elim, fun _ => rfl⟩
    rw [husers]
    exact Table.get_insertD_of_get hu
  | setVerified user =>
    exact rowStep_update (by intro _; rfl) id husers (fun _ => ⟨rfl, rfl, rfl⟩)
      (fun _ _ _ => rfl) hu
  | setPassword user hashedPassword =>
    exact rowStep_update (by intro _; rfl) id husers (fun _ => ⟨rfl, rfl, rfl⟩)
      (fun _ _ _ => rfl) hu
  | grantPermission user permission =>
    obtain ⟨a, h⟩ := h
    obtain ⟨_, _, _, hes⟩ := UserRepository.grantPermissionTx_eq_ok h
    obtain ⟨hrow, _, _⟩ := UserRepository.getByIdWithGrants_eq_some hcur.1
    exact rowStep_write Iff.rfl hrow husers hes hu
  | revokePermission user permission =>
    obtain ⟨a, h⟩ := h
    obtain ⟨_, _, _, hes⟩ := UserRepository.revokePermissionTx_eq_ok h
    obtain ⟨hrow, _, _⟩ := UserRepository.getByIdWithGrants_eq_some hcur.1
    exact rowStep_write Iff.rfl hrow husers hes hu
  | setUserActive user isActive =>
    refine rowStep_update (by intro _; rfl) id husers (fun _ => ⟨rfl, rfl, rfl⟩) ?_ hu
    intro v hv hne
    exact absurd (of_decide_eq_true hv) hne
  | _ => exact rowStep_same id husers hu

/-! ### The grants of a user -/

/-- The rows that decide the mask of a user are the same. -/
structure SameGrants (t t' : Tables) (userId : Uuid) : Prop where
  held : ∀ roleId, (userId, roleId) ∈ t'.userRoles ↔ (userId, roleId) ∈ t.userRoles
  roleMask : ∀ roleId, (userId, roleId) ∈ t.userRoles →
    (t'.roles.get roleId).map Role.permissionMask = (t.roles.get roleId).map Role.permissionMask
  direct : ∀ permissionId,
    (userId, permissionId) ∈ t'.userPermissions ↔ (userId, permissionId) ∈ t.userPermissions
  permissionName : ∀ permissionId, (userId, permissionId) ∈ t.userPermissions →
    (t'.permissions.get permissionId).map Permission.name =
      (t.permissions.get permissionId).map Permission.name

/-- Only one column of the row matters. -/
theorem exists_row_iff {ρ β : Type} {o : Option ρ} {f : ρ → β} {P : Prop} {Q : β → Prop} :
    (∃ r, o = some r ∧ P ∧ Q (f r)) ↔ P ∧ ∃ b, o.map f = some b ∧ Q b := by
  constructor
  · rintro ⟨r, ho, hP, hQ⟩
    exact ⟨hP, f r, by rw [ho, Option.map_some], hQ⟩
  · rintro ⟨hP, b, ho, hQ⟩
    obtain ⟨r, hr, rfl⟩ := Option.map_eq_some_iff.mp ho
    exact ⟨r, hr, hP, hQ⟩

theorem SameGrants.roleBit_iff (h : SameGrants t t' userId) (i : ℕ) :
    t'.RoleBit userId i ↔ t.RoleBit userId i := by
  refine exists_congr ?_
  intro roleId
  have hrow (o : Option Role) (P : Prop) :=
    exists_row_iff (o := o) (f := Role.permissionMask) (P := P) (Q := fun m => m.testBit i = true)
  rw [hrow, hrow, h.held roleId]
  refine and_congr_right ?_
  intro hheld
  rw [h.roleMask roleId hheld]

theorem SameGrants.directBit_iff (h : SameGrants t t' userId) (i : ℕ) :
    t'.DirectBit userId i ↔ t.DirectBit userId i := by
  refine exists_congr ?_
  intro permissionId
  have hrow (o : Option Permission) (P : Prop) :=
    exists_row_iff (o := o) (f := Permission.name) (P := P)
      (Q := fun name => permissionRegistry.lookup name = some i)
  rw [hrow, hrow, h.direct permissionId]
  refine and_congr_right ?_
  intro hheld
  rw [h.permissionName permissionId hheld]

theorem SameGrants.maskOf_eq {u' : User} (h : SameGrants t t' u.id) (hid : u'.id = u.id) :
    effectivePermissionMask (t'.loadUser u') = effectivePermissionMask (t.loadUser u) := by
  rw [Tables.maskOf_eq_iff, hid]
  intro i
  rw [h.roleBit_iff, h.directBit_iff]

theorem SameGrants.refl (t : Tables) (userId : Uuid) : SameGrants t t userId :=
  ⟨fun _ => Iff.rfl, fun _ _ => rfl, fun _ => Iff.rfl, fun _ _ => rfl⟩

theorem SameGrants.trans {t'' : Tables} (h : SameGrants t t' userId)
    (h' : SameGrants t' t'' userId) : SameGrants t t'' userId where
  held roleId := (h'.held roleId).trans (h.held roleId)
  roleMask roleId hheld :=
    (h'.roleMask roleId ((h.held roleId).mpr hheld)).trans (h.roleMask roleId hheld)
  direct permissionId := (h'.direct permissionId).trans (h.direct permissionId)
  permissionName permissionId hheld :=
    (h'.permissionName permissionId ((h.direct permissionId).mpr hheld)).trans
      (h.permissionName permissionId hheld)

theorem sameGrants_of_eq (hroles : t'.roles = t.roles) (huserRoles : t'.userRoles = t.userRoles)
    (hpermissions : t'.permissions = t.permissions)
    (huserPermissions : t'.userPermissions = t.userPermissions) : SameGrants t t' userId where
  held := by simp [huserRoles]
  roleMask := by simp [hroles]
  direct := by simp [huserPermissions]
  permissionName := by simp [hpermissions]

/-- An update of the mask of a role that the user does not hold. -/
theorem sameGrants_of_role {roleId : RoleId} {f : Role → Role} (hf : ∀ r, (f r).id = r.id)
    (hfree : (userId, roleId) ∉ t.userRoles)
    (hroles : t'.roles = t.roles.update (fun r => r.id = roleId) f hf)
    (huserRoles : t'.userRoles = t.userRoles) (hpermissions : t'.permissions = t.permissions)
    (huserPermissions : t'.userPermissions = t.userPermissions) : SameGrants t t' userId where
  held := by simp [huserRoles]
  roleMask := by
    intro heldId hheld
    rw [hroles, Table.get_update, Option.map_map]
    rcases hr : t.roles.get heldId with _ | r
    · rfl
    · obtain rfl := Table.key_of_get hr
      have hne : r.id ≠ roleId := by
        rintro rfl
        exact hfree hheld
      simp [hne]
  direct := by simp [huserPermissions]
  permissionName := by simp [hpermissions]

/-- A change of the links of another user. -/
theorem sameGrants_of_links (hroles : t'.roles = t.roles)
    (hheld : ∀ roleId, (userId, roleId) ∈ t'.userRoles ↔ (userId, roleId) ∈ t.userRoles)
    (hpermissions : t'.permissions = t.permissions)
    (hdirect : ∀ permissionId,
      (userId, permissionId) ∈ t'.userPermissions ↔ (userId, permissionId) ∈ t.userPermissions) :
    SameGrants t t' userId where
  held := hheld
  roleMask := by simp [hroles]
  direct := hdirect
  permissionName := by simp [hpermissions]

/-- A new role is held by nobody. -/
theorem sameGrants_of_insertRole {db : Db} {role : Role}
    (hroles : t'.roles = db.roles.insertD role) (huserRoles : t'.userRoles = db.userRoles)
    (hpermissions : t'.permissions = db.permissions)
    (huserPermissions : t'.userPermissions = db.userPermissions) :
    SameGrants db.toTables t' userId where
  held := by simp [huserRoles]
  roleMask := by
    intro roleId hheld
    obtain ⟨r, hr⟩ := Option.isSome_iff_exists.mp (db.constraints.userRole _ hheld).2
    rw [hroles, Table.get_insertD_of_get hr, hr]
  direct := by simp [huserPermissions]
  permissionName := by simp [hpermissions]

/-- A change that does not bump the user, and drops no role of theirs, leaves
their grants alone. -/
theorem Change.sameGrants {db db' : Db} (h : c.Commits db db' es)
    (hbump : ¬ c.Bumps db.toTables userId) (hdrop : ¬ c.DropsRoleOf db.toTables userId) :
    SameGrants db.toTables db'.toTables userId := by
  obtain ⟨tokens, ht⟩ := Change.commits_apply h
  rw [ht]
  cases c with
  | createRole name tenantId permissions mask => exact sameGrants_of_insertRole rfl rfl rfl rfl
  | createRootTenantRole tenantId allowed => exact sameGrants_of_insertRole rfl rfl rfl rfl
  | syncRootTenantRole tenantId allowed =>
    rcases hrole : RoleRepository.getByName db.toTables "tenant-admin" (some tenantId) with _ | role
    · simp only [apply, hrole]
      exact sameGrants_of_eq rfl rfl rfl rfl
    · simp only [apply, hrole]
      exact sameGrants_of_role (by intro _; rfl) (fun hheld => hbump ⟨role, hrole, hheld⟩)
        rfl rfl rfl rfl
  | updateRole role data =>
    refine ⟨fun _ => Iff.rfl, ?_, fun _ => Iff.rfl, fun _ _ => rfl⟩
    intro roleId _
    simp only [apply]
    rw [Table.get_update, Option.map_map]
    refine Option.map_congr ?_
    intro r _
    simp only [Function.comp_apply]
    split <;> rfl
  | deleteRole role =>
    have hne : ∀ roleId, (userId, roleId) ∈ db.userRoles → roleId ≠ role.id := by
      rintro _ hheld rfl
      exact hdrop hheld
    refine ⟨?_, ?_, fun _ => Iff.rfl, fun _ _ => rfl⟩
    · intro roleId
      simp only [apply, Finset.mem_filter]
      exact ⟨fun hheld => hheld.1, fun hheld => ⟨hheld, hne roleId hheld⟩⟩
    · intro roleId hheld
      simp only [apply, Table.get_delete]
      rcases hr : db.roles.get roleId with _ | r
      · rfl
      · obtain rfl := Table.key_of_get hr
        simp [Option.filter, hne r.id hheld]
  | assignToUser roleId targetId =>
    have hne : userId ≠ targetId := hbump
    exact sameGrants_of_links rfl (by simp [apply, hne]) rfl (fun _ => Iff.rfl)
  | removeFromUser roleId targetId =>
    have hne : userId ≠ targetId := hbump
    exact sameGrants_of_links rfl (by simp [apply, hne]) rfl (fun _ => Iff.rfl)
  | addPermission role permission =>
    exact sameGrants_of_role (by intro _; rfl) hbump rfl rfl rfl rfl
  | removePermission role permission =>
    exact sameGrants_of_role (by intro _; rfl) hbump rfl rfl rfl rfl
  | grantPermission user permission =>
    have hne : userId ≠ user.id := hbump
    exact sameGrants_of_links rfl (fun _ => Iff.rfl) rfl (by simp [apply, hne])
  | revokePermission user permission =>
    have hne : userId ≠ user.id := hbump
    exact sameGrants_of_links rfl (fun _ => Iff.rfl) rfl (by simp [apply, hne])
  | createWithBit name bitPosition =>
    refine ⟨fun _ => Iff.rfl, fun _ _ => rfl, fun _ => Iff.rfl, ?_⟩
    intro permissionId hheld
    obtain ⟨p, hp⟩ := Option.isSome_iff_exists.mp (db.constraints.userPermission _ hheld).2
    simp only [apply]
    rw [Table.get_insertD_of_get hp, hp]
  | _ => exact sameGrants_of_eq rfl rfl rfl rfl

end FastapiTemplate
