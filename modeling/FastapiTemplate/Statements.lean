import FastapiTemplate.Models

/-!
The statements of the transactions, one definition for each shape of SQL that
the repositories issue. A flush of a loaded object addresses its row by
primary key and is stale when the row is gone; an association table has its
whole row as primary key, so a second insertion violates it. Each statement
comes with the lemma that says what its success implies.
-/
namespace FastapiTemplate

open Library.KeyedTable Library.Committing

namespace Tables

/-! ### Flushed objects -/

def updateRole (t : Tables) (roleId : RoleId) (f : Role → Role) (hf : ∀ r, (f r).id = r.id) :
    Except Err Tables :=
  if (t.roles.get roleId).isSome then
    .ok { t with roles := t.roles.update (fun r => r.id = roleId) f hf }
  else .error .staleDataError

def updateUser (t : Tables) (userId : Uuid) (f : User → User) (hf : ∀ u, (f u).id = u.id) :
    Except Err Tables :=
  if (t.users.get userId).isSome then
    .ok { t with users := t.users.update (fun u => u.id = userId) f hf }
  else .error .staleDataError

def updateTenant (t : Tables) (tenantId : Uuid) (f : Tenant → Tenant)
    (hf : ∀ x, (f x).id = x.id) : Except Err Tables :=
  if (t.tenants.get tenantId).isSome then
    .ok { t with tenants := t.tenants.update (fun x => x.id = tenantId) f hf }
  else .error .staleDataError

def setPermissionMask (t : Tables) (roleId : RoleId) (mask : ℕ) : Except Err Tables :=
  t.updateRole roleId (fun r => { r with permissionMask := mask }) (Role.id_setMask mask)

def setRoleName (t : Tables) (roleId : RoleId) (name : String) : Except Err Tables :=
  t.updateRole roleId (fun r => { r with name := name }) (Role.id_setName name)

def setPermVersion (t : Tables) (userId : Uuid) (version : ℕ) : Except Err Tables :=
  t.updateUser userId (fun u => { u with permVersion := version }) (User.id_setVersion version)

def insertRole (t : Tables) (role : Role) : Except Err Tables :=
  match t.roles.insert? role with
  | none => .error .integrityError
  | some roles => .ok { t with roles := roles, rolesIdSeq := t.rolesIdSeq + 1 }

def insertUser (t : Tables) (user : User) : Except Err Tables :=
  match t.users.insert? user with
  | none => .error .integrityError
  | some users => .ok { t with users := users }

def insertTenant (t : Tables) (tenant : Tenant) : Except Err Tables :=
  match t.tenants.insert? tenant with
  | none => .error .integrityError
  | some tenants => .ok { t with tenants := tenants }

def insertPermission (t : Tables) (permission : Permission) : Except Err Tables :=
  match t.permissions.insert? permission with
  | none => .error .integrityError
  | some permissions =>
    .ok { t with permissions := permissions, permissionsIdSeq := t.permissionsIdSeq + 1 }

theorem updateRole_eq_ok {t t' : Tables} {roleId : RoleId} {f : Role → Role}
    {hf : ∀ r, (f r).id = r.id} (h : t.updateRole roleId f hf = .ok t') :
    (t.roles.get roleId).isSome ∧
      t' = { t with roles := t.roles.update (fun r => r.id = roleId) f hf } := by
  unfold updateRole at h
  split at h
  · rename_i hsome
    exact ⟨hsome, (Except.ok.inj h).symm⟩
  · cases h

theorem updateUser_eq_ok {t t' : Tables} {userId : Uuid} {f : User → User}
    {hf : ∀ u, (f u).id = u.id} (h : t.updateUser userId f hf = .ok t') :
    (t.users.get userId).isSome ∧
      t' = { t with users := t.users.update (fun u => u.id = userId) f hf } := by
  unfold updateUser at h
  split at h
  · rename_i hsome
    exact ⟨hsome, (Except.ok.inj h).symm⟩
  · cases h

theorem updateTenant_eq_ok {t t' : Tables} {tenantId : Uuid} {f : Tenant → Tenant}
    {hf : ∀ x, (f x).id = x.id} (h : t.updateTenant tenantId f hf = .ok t') :
    (t.tenants.get tenantId).isSome ∧
      t' = { t with tenants := t.tenants.update (fun x => x.id = tenantId) f hf } := by
  unfold updateTenant at h
  split at h
  · rename_i hsome
    exact ⟨hsome, (Except.ok.inj h).symm⟩
  · cases h

theorem insertRole_eq_ok {t t' : Tables} {role : Role} (h : t.insertRole role = .ok t') :
    ∃ roles, t.roles.insert? role = some roles ∧
      t' = { t with roles := roles, rolesIdSeq := t.rolesIdSeq + 1 } := by
  unfold insertRole at h
  split at h
  · cases h
  · rename_i roles hroles
    exact ⟨roles, hroles, (Except.ok.inj h).symm⟩

theorem insertUser_eq_ok {t t' : Tables} {user : User} (h : t.insertUser user = .ok t') :
    ∃ users, t.users.insert? user = some users ∧ t' = { t with users := users } := by
  unfold insertUser at h
  split at h
  · cases h
  · rename_i users husers
    exact ⟨users, husers, (Except.ok.inj h).symm⟩

theorem insertTenant_eq_ok {t t' : Tables} {tenant : Tenant}
    (h : t.insertTenant tenant = .ok t') :
    ∃ tenants, t.tenants.insert? tenant = some tenants ∧ t' = { t with tenants := tenants } := by
  unfold insertTenant at h
  split at h
  · cases h
  · rename_i tenants htenants
    exact ⟨tenants, htenants, (Except.ok.inj h).symm⟩

theorem insertPermission_eq_ok {t t' : Tables} {permission : Permission}
    (h : t.insertPermission permission = .ok t') :
    ∃ permissions, t.permissions.insert? permission = some permissions ∧
      t' = { t with
        permissions := permissions
        permissionsIdSeq := t.permissionsIdSeq + 1 } := by
  unfold insertPermission at h
  split at h
  · cases h
  · rename_i permissions hpermissions
    exact ⟨permissions, hpermissions, (Except.ok.inj h).symm⟩

/-! ### Association rows -/

def insertLink {α : Type} [DecidableEq α] (links : Finset α) (x : α) : Except Err (Finset α) :=
  if x ∈ links then .error .integrityError else .ok (insert x links)

theorem insertLink_eq_ok {α : Type} [DecidableEq α] {links links' : Finset α} {x : α}
    (h : insertLink links x = .ok links') : x ∉ links ∧ links' = insert x links := by
  unfold insertLink at h
  split at h
  · cases h
  · rename_i hfree
    exact ⟨hfree, (Except.ok.inj h).symm⟩

/-- The ORM expects to delete the row of a removed collection member. -/
def deleteLink {α : Type} [DecidableEq α] (links : Finset α) (x : α) : Except Err (Finset α) :=
  if x ∈ links then .ok (links.erase x) else .error .staleDataError

theorem deleteLink_eq_ok {α : Type} [DecidableEq α] {links links' : Finset α} {x : α}
    (h : deleteLink links x = .ok links') : x ∈ links ∧ links' = links.erase x := by
  unfold deleteLink at h
  split at h
  · rename_i hmem
    exact ⟨hmem, (Except.ok.inj h).symm⟩
  · cases h

/-! ### The version counter -/

/-- `UPDATE users SET perm_version = perm_version + 1 WHERE id IN (...)`. -/
def bumpPermVersion (t : Tables) (ids : Uuid → Bool) : Tables :=
  { t with
    users := t.users.update (fun u => ids u.id)
      (fun u => { u with permVersion := u.permVersion + 1 }) (fun _ => rfl) }

/-- `RETURNING id, perm_version`, as the events to publish. -/
def versionEvents (t : Tables) (ids : Uuid → Bool) : List Event :=
  (t.users.rows.filter (fun u => ids u.id)).map (fun u => .permVersion u.id.str u.permVersion)

/-- The users selected by `SELECT user_id FROM user_roles WHERE role_id = ...`. -/
def holds (t : Tables) (roleId : RoleId) (userId : Uuid) : Bool := (userId, roleId) ∈ t.userRoles

section BumpFrame

variable (t : Tables) (ids : Uuid → Bool)

@[simp] theorem bumpPermVersion_roles : (t.bumpPermVersion ids).roles = t.roles := rfl
@[simp] theorem bumpPermVersion_permissions :
    (t.bumpPermVersion ids).permissions = t.permissions := rfl
@[simp] theorem bumpPermVersion_tenants : (t.bumpPermVersion ids).tenants = t.tenants := rfl
@[simp] theorem bumpPermVersion_userRoles : (t.bumpPermVersion ids).userRoles = t.userRoles := rfl
@[simp] theorem bumpPermVersion_rolePermissions :
    (t.bumpPermVersion ids).rolePermissions = t.rolePermissions := rfl
@[simp] theorem bumpPermVersion_userPermissions :
    (t.bumpPermVersion ids).userPermissions = t.userPermissions := rfl
@[simp] theorem bumpPermVersion_roleGrantableRoles :
    (t.bumpPermVersion ids).roleGrantableRoles = t.roleGrantableRoles := rfl
@[simp] theorem bumpPermVersion_roleGrantablePermissions :
    (t.bumpPermVersion ids).roleGrantablePermissions = t.roleGrantablePermissions := rfl

end BumpFrame

theorem get_bumpPermVersion (t : Tables) (ids : Uuid → Bool) (userId : Uuid) :
    (t.bumpPermVersion ids).users.get userId =
      (t.users.get userId).map (fun u =>
        if ids userId then { u with permVersion := u.permVersion + 1 } else u) := by
  rw [bumpPermVersion, Table.get_update]
  rcases hu : t.users.get userId with _ | u
  · rfl
  · rw [Option.map_some, Option.map_some, Table.key_of_get hu]

/-- The events name exactly the selected users with their new versions. -/
theorem mem_versionEvents {t : Tables} {ids : Uuid → Bool} {e : Event} :
    e ∈ t.versionEvents ids ↔
      ∃ userId u, t.users.get userId = some u ∧ ids userId = true ∧
        e = .permVersion userId.str u.permVersion := by
  simp only [versionEvents, List.mem_map, List.mem_filter]
  constructor
  · rintro ⟨u, ⟨hmem, hids⟩, rfl⟩
    exact ⟨u.id, u, Table.get_of_mem hmem, hids, rfl⟩
  · rintro ⟨userId, u, hget, hids, rfl⟩
    obtain rfl := Table.key_of_get hget
    exact ⟨u, ⟨Table.mem_of_get hget, hids⟩, rfl⟩

end Tables
end FastapiTemplate
