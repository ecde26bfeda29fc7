import FastapiTemplate.Statements

/-!
`RoleRepository`. Every writing method is one transaction: its statements are
a `Tx` that computes the new tables from the loaded objects it is given and
the events that are published after the commit. The lemma after each of them
says all that a committed run of it has changed; the proofs about the program
use these lemmas and never unfold the statements again.
-/
namespace FastapiTemplate

open Library.KeyedTable Library.Committing Library.BitMask

/-- `schema.rbac.role.RoleCreate`. -/
structure RoleCreate where
  name : String
  permissionNames : List String

/-- `schema.rbac.role.RoleUpdate`. -/
structure RoleUpdate where
  name : String

namespace RoleRepository

def getById (t : Tables) (roleId : RoleId) : Option LoadedRole :=
  (t.roles.get roleId).map t.loadRole

def getByName (t : Tables) (name : String) (tenantId : Option Uuid) : Option Role :=
  t.roles.rows.find? (fun r => r.name = name ∧ r.tenantId = tenantId)

def getByIds (t : Tables) (roleIds : Finset RoleId) : List LoadedRole :=
  (t.roles.rows.filter (fun r => r.id ∈ roleIds)).map t.loadRole

def listAll (t : Tables) (skip limit : ℕ) : List LoadedRole :=
  ((t.roles.rows.drop skip).take limit).map t.loadRole

/-- The roles of the tenant and the global ones. -/
def listByTenant (t : Tables) (tenantId : Option Uuid) (skip limit : ℕ) : List LoadedRole :=
  (((t.roles.rows.filter (fun r => r.tenantId = none ∨ r.tenantId = tenantId)).drop skip).take
    limit).map t.loadRole

def getPermissionById (t : Tables) (permissionId : PermissionId) : Option Permission :=
  t.permissions.get permissionId

def userHasRole (t : Tables) (userId : Uuid) (roleId : RoleId) : Bool :=
  (userId, roleId) ∈ t.userRoles

def getGrantableRoleIds (t : Tables) (roleIds : List RoleId) : Finset RoleId :=
  (t.roleGrantableRoles.filter (fun x => x.1 ∈ roleIds)).image Prod.snd

def getGrantablePermissionIds (t : Tables) (roleIds : List RoleId) : Finset PermissionId :=
  (t.roleGrantablePermissions.filter (fun x => x.1 ∈ roleIds)).image Prod.snd

/-- OR of the bits of the permissions that the roles may grant; a permission
without a bit contributes nothing. -/
def getGrantablePermissionMask (t : Tables) (roleIds : List RoleId) : ℕ :=
  orBits ((t.permissions.rows.filter
    (fun p => p.id ∈ getGrantablePermissionIds t roleIds)).filterMap Permission.bitPosition)

/-! ### Role rows -/

/-- The row of `create`, on the next identifier of the sequence. -/
def newRole (t : Tables) (name : String) (tenantId : Option Uuid) (permissionMask : ℕ) : Role :=
  ⟨t.rolesIdSeq, name, tenantId, permissionMask⟩

/-- The association rows of a role and a list of permissions. -/
def links (roleId : RoleId) (permissions : List Permission) : Finset (RoleId × PermissionId) :=
  (permissions.map (fun p => (roleId, p.id))).toFinset

theorem mem_links {roleId r : RoleId} {permissions : List Permission} {p : PermissionId} :
    (r, p) ∈ links roleId permissions ↔ r = roleId ∧ ∃ q ∈ permissions, q.id = p := by
  simp only [links, List.mem_toFinset, List.mem_map, Prod.mk.injEq]
  constructor
  · rintro ⟨q, hq, rfl, rfl⟩
    exact ⟨rfl, q, hq, rfl⟩
  · rintro ⟨rfl, q, hq, rfl⟩
    exact ⟨q, hq, rfl, rfl⟩

/-- Among the rows of the table, those of the list are linked. -/
theorem mem_links_row {t : Tables} {roleId r : RoleId} {permissions : List Permission}
    {p : Permission} (hrows : ∀ q ∈ permissions, q ∈ t.permissions.rows)
    (hp : p ∈ t.permissions.rows) :
    (r, p.id) ∈ links roleId permissions ↔ r = roleId ∧ p ∈ permissions := by
  rw [mem_links]
  refine and_congr_right fun _ => ?_
  constructor
  · rintro ⟨q, hq, hid⟩
    rw [← List.inj_on_of_nodup_map t.permissions.nodup (hrows q hq) hp hid]
    exact hq
  · exact fun hmem => ⟨p, hmem, rfl⟩

def createTx (name : String) (tenantId : Option Uuid) (permissions : List Permission)
    (permissionMask : ℕ) : Tx LoadedRole := fun t => do
  let role := newRole t name tenantId permissionMask
  let t₁ ← t.insertRole role
  let t₂ := { t₁ with rolePermissions := t₁.rolePermissions ∪ links role.id permissions }
  return (t₂.loadRole role, t₂, [])

def create (role : RoleCreate) (tenantId : Option Uuid) (permissions : List Permission)
    (permissionMask : ℕ) : Service LoadedRole :=
  transaction (createTx role.name tenantId permissions permissionMask)

/-- The rows of the permissions in the mask, superuser-only names left out. -/
def permissionRows (t : Tables) (mask : ℕ) : List Permission :=
  (t.permissions.rows.filter (fun p => p.name ∉ superuserOnlyPermissions)).filter (fun p =>
    match p.bitPosition with
    | none => false
    | some b => mask &&& bit b ≠ 0)

def createRootTenantRoleTx (tenantId : Uuid) (allowedPermissionMask : ℕ) : Tx LoadedRole :=
  fun t => do
    let effectiveMask := allowedPermissionMask &&& tenantRoleMask
    let role := newRole t "tenant-admin" (some tenantId) effectiveMask
    let granted := links role.id (permissionRows t effectiveMask)
    let t₁ ← t.insertRole role
    let t₂ := { t₁ with
      rolePermissions := t₁.rolePermissions ∪ granted
      roleGrantablePermissions := t₁.roleGrantablePermissions ∪ granted }
    return (t₂.loadRole role, t₂, [])

def createRootTenantRole (tenantId : Uuid) (allowedPermissionMask : ℕ) : Service LoadedRole :=
  transaction (createRootTenantRoleTx tenantId allowedPermissionMask)

/-- The statements of the resync once the root role is found. -/
def resyncRole (role : Role) (effectiveMask : ℕ) : Tx (Option LoadedRole) := fun t => do
  let granted := links role.id (permissionRows t effectiveMask)
  let t₁ ← t.setPermissionMask role.id effectiveMask
  let t₂ := { t₁ with
    rolePermissions := t₁.rolePermissions.filter (fun x => x.1 ≠ role.id) ∪ granted
    roleGrantablePermissions :=
      t₁.roleGrantablePermissions.filter (fun x => x.1 ≠ role.id) ∪ granted }
  let t₃ := t₂.bumpPermVersion (t₂.holds role.id)
  return (getById t₃ role.id, t₃, t₃.versionEvents (t₂.holds role.id))

/-- The root role is found again by its tenant and the name "tenant-admin". -/
def syncRootTenantRolePermissionsTx (tenantId : Uuid) (allowedPermissionMask : ℕ) :
    Tx (Option LoadedRole) := fun t =>
  match getByName t "tenant-admin" (some tenantId) with
  | none => .ok (none, t, [])
  | some role => resyncRole role (allowedPermissionMask &&& tenantRoleMask) t

def syncRootTenantRolePermissions (tenantId : Uuid) (allowedPermissionMask : ℕ) :
    Service (Option LoadedRole) :=
  transaction (syncRootTenantRolePermissionsTx tenantId allowedPermissionMask)

def updateTx (role : LoadedRole) (updateData : RoleUpdate) : Tx (Option LoadedRole) := fun t => do
  let t₁ ← t.setRoleName role.id updateData.name
  return (getById t₁ role.id, t₁, [])

def update (role : LoadedRole) (updateData : RoleUpdate) : Service (Option LoadedRole) :=
  transaction (updateTx role updateData)

/-- The ORM delete removes the association rows of every relationship of the
role before the row itself. -/
def deleteTx (role : LoadedRole) : Tx Unit := fun t =>
  .ok ((), { t with
    roles := t.roles.delete (fun r => r.id = role.id)
    userRoles := t.userRoles.filter (fun x => x.2 ≠ role.id)
    rolePermissions := t.rolePermissions.filter (fun x => x.1 ≠ role.id)
    roleGrantableRoles := t.roleGrantableRoles.filter (fun x => x.1 ≠ role.id ∧ x.2 ≠ role.id)
    roleGrantablePermissions := t.roleGrantablePermissions.filter (fun x => x.1 ≠ role.id) }, [])

def delete (role : LoadedRole) : Service Unit := transaction (deleteTx role)

/-! ### Memberships -/

def assignToUserTx (roleId : RoleId) (userId : Uuid) : Tx Unit := fun t => do
  let userRoles ← Tables.insertLink t.userRoles (userId, roleId)
  let t₁ := { t with userRoles := userRoles }
  let t₂ := t₁.bumpPermVersion (· = userId)
  return ((), t₂, t₂.versionEvents (· = userId))

def assignToUser (roleId : RoleId) (userId : Uuid) : Service Unit :=
  transaction (assignToUserTx roleId userId)

def removeFromUserTx (roleId : RoleId) (userId : Uuid) : Tx Unit := fun t =>
  let t₁ := { t with userRoles := t.userRoles.erase (userId, roleId) }
  let t₂ := t₁.bumpPermVersion (· = userId)
  .ok ((), t₂, t₂.versionEvents (· = userId))

def removeFromUser (roleId : RoleId) (userId : Uuid) : Service Unit :=
  transaction (removeFromUserTx roleId userId)

/-! ### The permissions of a role -/

/-- `role.permission_mask | (1 << permission.bit_position)` on the loaded role. -/
def maskWith (mask : ℕ) (permission : Permission) : ℕ :=
  match permission.bitPosition with
  | none => mask
  | some b => mask ||| bit b

/-- `role.permission_mask & ~(1 << permission.bit_position)`. -/
def maskWithout (mask : ℕ) (permission : Permission) : ℕ :=
  match permission.bitPosition with
  | none => mask
  | some b => andNot mask (bit b)

/-- `db.refresh(role)`: read the row and its permissions again. -/
def refresh (t : Tables) (roleId : RoleId) : Except Err LoadedRole :=
  match getById t roleId with
  | none => .error .staleDataError
  | some role => .ok role

/-- The mask written is computed from the loaded role, not from the row. -/
def addPermissionTx (role : LoadedRole) (permission : Permission) : Tx LoadedRole := fun t => do
  let t₁ ← t.setPermissionMask role.id (maskWith role.permissionMask permission)
  let rolePermissions ← Tables.insertLink t₁.rolePermissions (role.id, permission.id)
  let t₂ := { t₁ with rolePermissions := rolePermissions }
  let t₃ := t₂.bumpPermVersion (t₂.holds role.id)
  let role' ← refresh t₃ role.id
  return (role', t₃, t₃.versionEvents (t₂.holds role.id))

def addPermission (role : LoadedRole) (permission : Permission) : Service LoadedRole :=
  transaction (addPermissionTx role permission)

/-- `list.remove` raises `ValueError` on a permission that is not loaded. -/
def removePermissionTx (role : LoadedRole) (permission : Permission) : Tx LoadedRole :=
  fun t => do
    if permission.id ∉ role.permissions.map Permission.id then throw .valueError
    let t₁ ← t.setPermissionMask role.id (maskWithout role.permissionMask permission)
    let rolePermissions ← Tables.deleteLink t₁.rolePermissions (role.id, permission.id)
    let t₂ := { t₁ with rolePermissions := rolePermissions }
    let t₃ := t₂.bumpPermVersion (t₂.holds role.id)
    let role' ← refresh t₃ role.id
    return (role', t₃, t₃.versionEvents (t₂.holds role.id))

def removePermission (role : LoadedRole) (permission : Permission) : Service LoadedRole :=
  transaction (removePermissionTx role permission)

/-! ### Grant delegation -/

def addGrantableRoleTx (roleId grantableRoleId : RoleId) : Tx Unit := fun t => do
  let roleGrantableRoles ← Tables.insertLink t.roleGrantableRoles (roleId, grantableRoleId)
  return ((), { t with roleGrantableRoles := roleGrantableRoles }, [])

def addGrantableRole (roleId grantableRoleId : RoleId) : Service Unit :=
  transaction (addGrantableRoleTx roleId grantableRoleId)

def removeGrantableRoleTx (roleId grantableRoleId : RoleId) : Tx Unit := fun t =>
  .ok ((), { t with
    roleGrantableRoles := t.roleGrantableRoles.erase (roleId, grantableRoleId) }, [])

def removeGrantableRole (roleId grantableRoleId : RoleId) : Service Unit :=
  transaction (removeGrantableRoleTx roleId grantableRoleId)

def addGrantablePermissionTx (roleId : RoleId) (permissionId : PermissionId) : Tx Unit :=
  fun t => do
    let roleGrantablePermissions ←
      Tables.insertLink t.roleGrantablePermissions (roleId, permissionId)
    return ((), { t with roleGrantablePermissions := roleGrantablePermissions }, [])

def addGrantablePermission (roleId : RoleId) (permissionId : PermissionId) : Service Unit :=
  transaction (addGrantablePermissionTx roleId permissionId)

def removeGrantablePermissionTx (roleId : RoleId) (permissionId : PermissionId) : Tx Unit :=
  fun t =>
    .ok ((), { t with
      roleGrantablePermissions := t.roleGrantablePermissions.erase (roleId, permissionId) }, [])

def removeGrantablePermission (roleId : RoleId) (permissionId : PermissionId) : Service Unit :=
  transaction (removeGrantablePermissionTx roleId permissionId)

/-! ### What a committed transaction has changed -/

theorem createTx_eq_ok {name : String} {tenantId : Option Uuid} {permissions : List Permission}
    {mask : ℕ} {t t' : Tables} {role : LoadedRole} {es : List Event}
    (h : createTx name tenantId permissions mask t = .ok (role, t', es)) :
    ∃ roles, t.roles.insert? (newRole t name tenantId mask) = some roles ∧
      t' = { t with
        roles := roles
        rolesIdSeq := t.rolesIdSeq + 1
        rolePermissions := t.rolePermissions ∪ links t.rolesIdSeq permissions } ∧
      role = t'.loadRole (newRole t name tenantId mask) ∧ es = [] := by
  obtain ⟨t₁, hinsert, h⟩ := bind_eq_ok h
  obtain ⟨roles, hroles, rfl⟩ := Tables.insertRole_eq_ok hinsert
  obtain ⟨rfl, rfl, rfl⟩ := by simpa [pure, Except.pure] using h
  exact ⟨roles, hroles, rfl, rfl, rfl⟩

theorem refresh_eq_ok {t : Tables} {roleId : RoleId} {role : LoadedRole}
    (h : refresh t roleId = .ok role) : getById t roleId = some role := by
  unfold refresh at h
  split at h
  · cases h
  · rename_i role' hrole
    rw [hrole, Except.ok.inj h]

theorem getById_eq_some {t : Tables} {roleId : RoleId} {role : LoadedRole}
    (h : getById t roleId = some role) :
    t.roles.get roleId = some role.toRole ∧ role = t.loadRole role.toRole ∧ role.id = roleId := by
  obtain ⟨row, hrow, rfl⟩ := Option.map_eq_some_iff.mp h
  exact ⟨hrow, rfl, Table.key_of_get hrow⟩

theorem createRootTenantRoleTx_eq_ok {tenantId : Uuid} {allowed : ℕ} {t t' : Tables}
    {role : LoadedRole} {es : List Event}
    (h : createRootTenantRoleTx tenantId allowed t = .ok (role, t', es)) :
    ∃ roles, t.roles.insert?
        (newRole t "tenant-admin" (some tenantId) (allowed &&& tenantRoleMask)) = some roles ∧
      t' = { t with
        roles := roles
        rolesIdSeq := t.rolesIdSeq + 1
        rolePermissions := t.rolePermissions ∪
          links t.rolesIdSeq (permissionRows t (allowed &&& tenantRoleMask))
        roleGrantablePermissions := t.roleGrantablePermissions ∪
          links t.rolesIdSeq (permissionRows t (allowed &&& tenantRoleMask)) } ∧
      role = t'.loadRole
        (newRole t "tenant-admin" (some tenantId) (allowed &&& tenantRoleMask)) ∧ es = [] := by
  obtain ⟨t₁, hinsert, h⟩ := bind_eq_ok h
  obtain ⟨roles, hroles, rfl⟩ := Tables.insertRole_eq_ok hinsert
  cases h
  exact ⟨roles, hroles, rfl, rfl, rfl⟩

theorem resyncRole_eq_ok {role : Role} {mask : ℕ} {t t' : Tables} {a : Option LoadedRole}
    {es : List Event} (h : resyncRole role mask t = .ok (a, t', es)) :
    (t.roles.get role.id).isSome ∧
      t' = Tables.bumpPermVersion { t with
        roles := t.roles.update (fun r => r.id = role.id)
          (fun r => { r with permissionMask := mask }) (fun _ => rfl)
        rolePermissions := t.rolePermissions.filter (fun x => x.1 ≠ role.id) ∪
          links role.id (permissionRows t mask)
        roleGrantablePermissions := t.roleGrantablePermissions.filter (fun x => x.1 ≠ role.id) ∪
          links role.id (permissionRows t mask) }
        (t.holds role.id) ∧
      es = t'.versionEvents (t.holds role.id) := by
  obtain ⟨t₁, hmask, h⟩ := bind_eq_ok h
  obtain ⟨hsome, rfl⟩ := Tables.updateRole_eq_ok hmask
  cases h
  exact ⟨hsome, rfl, rfl⟩

/-- Without a root role the resync changes nothing; with one it rewrites it. -/
theorem syncRootTenantRolePermissionsTx_eq_ok {tenantId : Uuid} {allowed : ℕ} {t t' : Tables}
    {a : Option LoadedRole} {es : List Event}
    (h : syncRootTenantRolePermissionsTx tenantId allowed t = .ok (a, t', es)) :
    (getByName t "tenant-admin" (some tenantId) = none ∧ t' = t ∧ es = []) ∨
      ∃ role, getByName t "tenant-admin" (some tenantId) = some role ∧
        resyncRole role (allowed &&& tenantRoleMask) t = .ok (a, t', es) := by
  unfold syncRootTenantRolePermissionsTx at h
  split at h
  · rename_i hnone
    cases h
    exact Or.inl ⟨hnone, rfl, rfl⟩
  · rename_i role hrole
    exact Or.inr ⟨role, hrole, h⟩

theorem getByName_eq_some {t : Tables} {name : String} {tenantId : Option Uuid} {role : Role}
    (h : getByName t name tenantId = some role) :
    t.roles.get role.id = some role ∧ role.name = name ∧ role.tenantId = tenantId := by
  have hmem : role ∈ t.roles.rows := List.mem_of_find?_eq_some h
  have hrow : role.name = name ∧ role.tenantId = tenantId := by simpa using List.find?_some h
  exact ⟨Table.get_of_mem hmem, hrow.1, hrow.2⟩

theorem updateTx_eq_ok {role : LoadedRole} {data : RoleUpdate} {t t' : Tables}
    {a : Option LoadedRole} {es : List Event} (h : updateTx role data t = .ok (a, t', es)) :
    t' = { t with
      roles := t.roles.update (fun r => r.id = role.id) (fun r => { r with name := data.name })
        (fun _ => rfl) } ∧ es = [] := by
  obtain ⟨t₁, hname, h⟩ := bind_eq_ok h
  obtain ⟨_, rfl⟩ := Tables.updateRole_eq_ok hname
  cases h
  exact ⟨rfl, rfl⟩

theorem deleteTx_eq_ok {role : LoadedRole} {t t' : Tables} {a : Unit} {es : List Event}
    (h : deleteTx role t = .ok (a, t', es)) :
    t' = { t with
      roles := t.roles.delete (fun r => r.id = role.id)
      userRoles := t.userRoles.filter (fun x => x.2 ≠ role.id)
      rolePermissions := t.rolePermissions.filter (fun x => x.1 ≠ role.id)
      roleGrantableRoles := t.roleGrantableRoles.filter (fun x => x.1 ≠ role.id ∧ x.2 ≠ role.id)
      roleGrantablePermissions :=
        t.roleGrantablePermissions.filter (fun x => x.1 ≠ role.id) } ∧ es = [] := by
  cases h
  exact ⟨rfl, rfl⟩

theorem assignToUserTx_eq_ok {roleId : RoleId} {userId : Uuid} {t t' : Tables} {a : Unit}
    {es : List Event} (h : assignToUserTx roleId userId t = .ok (a, t', es)) :
    (userId, roleId) ∉ t.userRoles ∧
      t' = Tables.bumpPermVersion { t with userRoles := insert (userId, roleId) t.userRoles }
        (· = userId) ∧
      es = t'.versionEvents (· = userId) := by
  obtain ⟨links, hlink, h⟩ := bind_eq_ok h
  obtain ⟨hfree, rfl⟩ := Tables.insertLink_eq_ok hlink
  cases h
  exact ⟨hfree, rfl, rfl⟩

theorem removeFromUserTx_eq_ok {roleId : RoleId} {userId : Uuid} {t t' : Tables} {a : Unit}
    {es : List Event} (h : removeFromUserTx roleId userId t = .ok (a, t', es)) :
    t' = Tables.bumpPermVersion { t with userRoles := t.userRoles.erase (userId, roleId) }
        (· = userId) ∧
      es = t'.versionEvents (· = userId) := by
  cases h
  exact ⟨rfl, rfl⟩

theorem addPermissionTx_eq_ok {role role' : LoadedRole} {permission : Permission} {t t' : Tables}
    {es : List Event} (h : addPermissionTx role permission t = .ok (role', t', es)) :
    (t.roles.get role.id).isSome ∧ (role.id, permission.id) ∉ t.rolePermissions ∧
      t' = Tables.bumpPermVersion { t with
        roles := t.roles.update (fun r => r.id = role.id)
          (fun r => { r with permissionMask := maskWith role.permissionMask permission })
          (fun _ => rfl)
        rolePermissions := insert (role.id, permission.id) t.rolePermissions }
        (t.holds role.id) ∧
      es = t'.versionEvents (t.holds role.id) ∧ getById t' role.id = some role' := by
  obtain ⟨t₁, hmask, h⟩ := bind_eq_ok h
  obtain ⟨hsome, rfl⟩ := Tables.updateRole_eq_ok hmask
  obtain ⟨links, hlink, h⟩ := bind_eq_ok h
  obtain ⟨hfree, rfl⟩ := Tables.insertLink_eq_ok hlink
  obtain ⟨role'', hrefresh, h⟩ := bind_eq_ok h
  cases h
  exact ⟨hsome, hfree, rfl, rfl, refresh_eq_ok hrefresh⟩

theorem removePermissionTx_eq_ok {role role' : LoadedRole} {permission : Permission}
    {t t' : Tables} {es : List Event}
    (h : removePermissionTx role permission t = .ok (role', t', es)) :
    (t.roles.get role.id).isSome ∧ (role.id, permission.id) ∈ t.rolePermissions ∧
      t' = Tables.bumpPermVersion { t with
        roles := t.roles.update (fun r => r.id = role.id)
          (fun r => { r with permissionMask := maskWithout role.permissionMask permission })
          (fun _ => rfl)
        rolePermissions := t.rolePermissions.erase (role.id, permission.id) }
        (t.holds role.id) ∧
      es = t'.versionEvents (t.holds role.id) ∧ getById t' role.id = some role' := by
  unfold removePermissionTx at h
  split at h
  · cases h
  · obtain ⟨t₁, hmask, h⟩ := bind_eq_ok h
    obtain ⟨hsome, rfl⟩ := Tables.updateRole_eq_ok hmask
    obtain ⟨links, hlink, h⟩ := bind_eq_ok h
    obtain ⟨hmem, rfl⟩ := Tables.deleteLink_eq_ok hlink
    obtain ⟨role'', hrefresh, h⟩ := bind_eq_ok h
    cases h
    exact ⟨hsome, hmem, rfl, rfl, refresh_eq_ok hrefresh⟩

theorem addGrantableRoleTx_eq_ok {roleId grantableRoleId : RoleId} {t t' : Tables} {a : Unit}
    {es : List Event} (h : addGrantableRoleTx roleId grantableRoleId t = .ok (a, t', es)) :
    t' = { t with
      roleGrantableRoles := insert (roleId, grantableRoleId) t.roleGrantableRoles } ∧ es = [] := by
  obtain ⟨links, hlink, h⟩ := bind_eq_ok h
  obtain ⟨_, rfl⟩ := Tables.insertLink_eq_ok hlink
  cases h
  exact ⟨rfl, rfl⟩

theorem removeGrantableRoleTx_eq_ok {roleId grantableRoleId : RoleId} {t t' : Tables} {a : Unit}
    {es : List Event} (h : removeGrantableRoleTx roleId grantableRoleId t = .ok (a, t', es)) :
    t' = { t with
      roleGrantableRoles := t.roleGrantableRoles.erase (roleId, grantableRoleId) } ∧ es = [] := by
  cases h
  exact ⟨rfl, rfl⟩

theorem addGrantablePermissionTx_eq_ok {roleId : RoleId} {permissionId : PermissionId}
    {t t' : Tables} {a : Unit} {es : List Event}
    (h : addGrantablePermissionTx roleId permissionId t = .ok (a, t', es)) :
    t' = { t with
      roleGrantablePermissions := insert (roleId, permissionId) t.roleGrantablePermissions } ∧
      es = [] := by
  obtain ⟨links, hlink, h⟩ := bind_eq_ok h
  obtain ⟨_, rfl⟩ := Tables.insertLink_eq_ok hlink
  cases h
  exact ⟨rfl, rfl⟩

theorem removeGrantablePermissionTx_eq_ok {roleId : RoleId} {permissionId : PermissionId}
    {t t' : Tables} {a : Unit} {es : List Event}
    (h : removeGrantablePermissionTx roleId permissionId t = .ok (a, t', es)) :
    t' = { t with
      roleGrantablePermissions := t.roleGrantablePermissions.erase (roleId, permissionId) } ∧
      es = [] := by
  cases h
  exact ⟨rfl, rfl⟩

end RoleRepository
end FastapiTemplate
