import FastapiTemplate.Library.ReadCommitted
import FastapiTemplate.RoleRepository
import FastapiTemplate.UserRepository

/-!
The transactions that move `perm_version`, statement by statement, and the
queries of a mint. An edit of a role starts where `RoleService` loads the role,
a direct grant where the user is loaded; what they change in memory is flushed
as values. `UPDATE users` increments in the database: its subquery for the
holders of a role is one statement, which sees no uncommitted assignment, and
the rows that it found are locked and incremented after it.
-/
namespace FastapiTemplate

open Library.KeyedTable Library.ReadCommitted

/-- The rows that the statements lock. -/
inductive Row
  | user (userId : Uuid)
  | role (roleId : RoleId)
  | userRole (userId : Uuid) (roleId : RoleId)
  | rolePermission (roleId : RoleId) (permissionId : PermissionId)
  | userPermission (userId : Uuid) (permissionId : PermissionId)
  deriving DecidableEq

/-- `add_permission` or `remove_permission` on a role. -/
structure Edit where
  adding : Bool
  roleId : RoleId
  permission : Permission
  deriving DecidableEq

/-- `assign_to_user` or `remove_from_user`. -/
structure Membership where
  assigning : Bool
  roleId : RoleId
  userId : Uuid
  deriving DecidableEq

/-- `grant_permission` or `revoke_permission` on a user. -/
structure Grant where
  granting : Bool
  userId : Uuid
  permission : Permission
  deriving DecidableEq

/-- Where a session stands. The mask of an edit is the one to write, if it
differs from the loaded one: without a change nothing is flushed. `done` names
the users whose versions the transaction has moved. -/
inductive Point
  | loadRole (edit : Edit)
  | loadPermissions (edit : Edit) (role : Role)
  | flushMask (edit : Edit) (mask : ℕ)
  | flushLink (edit : Edit) (mask : Option ℕ)
  | findHolders (edit : Edit) (mask : Option ℕ)
  | bumpHolders (edit : Edit) (mask : Option ℕ) (holders : Finset Uuid)
  | commitEdit (edit : Edit) (mask : Option ℕ) (holders : Finset Uuid)
  | writeMember (membership : Membership)
  | bumpMember (membership : Membership)
  | commitMember (membership : Membership)
  | loadUser (grant : Grant)
  | loadDirect (grant : Grant) (user : User)
  | flushVersion (grant : Grant) (user : User)
  | flushGrant (grant : Grant) (user : User)
  | commitGrant (grant : Grant) (user : User)
  | readRow (userId : Uuid)
  | readRoles (user : User)
  | readRolePermissions (user : User) (roles : List Role)
  | readDirect (user : User) (roles : List LoadedRole)
  | readTenant (user : User) (roles : List LoadedRole) (direct : List Permission)
  | loaded (user : LoadedUser)
  | done (bumped : Finset Uuid)
  | raised (error : Err)

/-! ### The writes -/

section Edit

variable (e : Edit)

/-- The mask after the edit. -/
def Edit.mask (mask : ℕ) : ℕ :=
  if e.adding then RoleRepository.maskWith mask e.permission
  else RoleRepository.maskWithout mask e.permission

/-- `if perm in role.permissions`, or its opposite for a removal. -/
def Edit.check (permissions : List Permission) : Option Err :=
  if e.adding then
    if e.permission.id ∈ permissions.map Permission.id then
      some (.permissionAlreadyGranted "Permission already assigned to role")
    else none
  else if e.permission.id ∈ permissions.map Permission.id then none
  else some (.permissionNotGranted "Permission not associated with this role")

def Edit.setMask (mask : ℕ) (t : Tables) : Tables :=
  { t with
    roles := t.roles.update (fun r => r.id = e.roleId)
      (fun r => { r with permissionMask := mask }) (Role.id_setMask mask) }

def Edit.flushed (mask : Option ℕ) : Tables → Tables :=
  match mask with
  | none => id
  | some mask => e.setMask mask

/-- The association row has to be there for a removal, and not for an addition. -/
def Edit.canLink (t : Tables) : Bool :=
  if e.adding then (e.roleId, e.permission.id) ∉ t.rolePermissions ∧
    (t.roles.get e.roleId).isSome ∧ (t.permissions.get e.permission.id).isSome
  else (e.roleId, e.permission.id) ∈ t.rolePermissions

def Edit.link (t : Tables) : Tables :=
  { t with
    rolePermissions :=
      if e.adding then insert (e.roleId, e.permission.id) t.rolePermissions
      else t.rolePermissions.erase (e.roleId, e.permission.id) }

end Edit

/-- `SELECT user_id FROM user_roles WHERE role_id = ...` -/
def Tables.holders (t : Tables) (roleId : RoleId) : Finset Uuid :=
  (t.userRoles.filter (fun x => x.2 = roleId)).image Prod.fst

def Tables.bumped (holders : Finset Uuid) (t : Tables) : Tables :=
  t.bumpPermVersion (fun userId => userId ∈ holders)

def Membership.canLink (m : Membership) (t : Tables) : Bool :=
  if m.assigning then (m.userId, m.roleId) ∉ t.userRoles ∧ (t.users.get m.userId).isSome ∧
    (t.roles.get m.roleId).isSome
  else true

def Membership.link (m : Membership) (t : Tables) : Tables :=
  { t with
    userRoles :=
      if m.assigning then insert (m.userId, m.roleId) t.userRoles
      else t.userRoles.erase (m.userId, m.roleId) }

section Grant

variable (g : Grant)

/-- The collection that is loaded answers the check of the service, too. -/
def Grant.check (permissions : List Permission) : Option Err :=
  if g.granting then
    if g.permission.id ∈ permissions.map Permission.id then
      some (.permissionAlreadyGranted s!"User already has permission '{g.permission.name}'")
    else none
  else if g.permission.id ∈ permissions.map Permission.id then none
  else some (.permissionNotGranted s!"User does not have permission '{g.permission.name}'")

def Grant.setVersion (version : ℕ) (t : Tables) : Tables :=
  { t with
    users := t.users.update (fun u => u.id = g.userId)
      (fun u => { u with permVersion := version }) (User.id_setVersion version) }

def Grant.canLink (t : Tables) : Bool :=
  if g.granting then (g.userId, g.permission.id) ∉ t.userPermissions ∧
    (t.users.get g.userId).isSome ∧ (t.permissions.get g.permission.id).isSome
  else (g.userId, g.permission.id) ∈ t.userPermissions

def Grant.link (t : Tables) : Tables :=
  { t with
    userPermissions :=
      if g.granting then insert (g.userId, g.permission.id) t.userPermissions
      else t.userPermissions.erase (g.userId, g.permission.id) }

end Grant

/-! ### The scripts -/

/-- What the in-memory change leaves to flush. -/
def Edit.afterLoad (e : Edit) (role : Role) (permissions : List Permission) : Point :=
  match e.check permissions with
  | some error => .raised error
  | none =>
    if e.mask role.permissionMask = role.permissionMask then .flushLink e none
    else .flushMask e (e.mask role.permissionMask)

def Point.code : Point → Command Tables Row Point
  | loadRole e => .select (fun t =>
      match t.roles.get e.roleId with
      | none => raised (.roleNotFound e.roleId)
      | some role => loadPermissions e role)
  | loadPermissions e role => .select (fun t => e.afterLoad role (t.permissionsOf role.id))
  | flushMask e mask => .write {.role e.roleId} (fun t => (t.roles.get e.roleId).isSome)
      (e.setMask mask) (flushLink e (some mask))
  | flushLink e mask => .write {.rolePermission e.roleId e.permission.id} e.canLink e.link
      (findHolders e mask)
  | findHolders e mask => .select (fun t => bumpHolders e mask (t.holders e.roleId))
  | bumpHolders e mask holders => .write (holders.image Row.user) (fun _ => true)
      (Tables.bumped holders) (commitEdit e mask holders)
  | commitEdit _ _ holders => .commit (done holders)
  | writeMember m => .write {.userRole m.userId m.roleId} m.canLink m.link (bumpMember m)
  | bumpMember m => .write {.user m.userId} (fun _ => true) (Tables.bumped {m.userId})
      (commitMember m)
  | commitMember m => .commit (done {m.userId})
  | loadUser g => .select (fun t =>
      match t.users.get g.userId with
      | none => raised (.userNotFound g.userId.str)
      | some user => loadDirect g user)
  | loadDirect g user => .select (fun t =>
      match g.check (t.directPermissions user.id) with
      | some error => raised error
      | none => flushVersion g user)
  | flushVersion g user => .write {.user g.userId} (fun t => (t.users.get g.userId).isSome)
      (g.setVersion (user.permVersion + 1)) (flushGrant g user)
  | flushGrant g user => .write {.userPermission g.userId g.permission.id} g.canLink g.link
      (commitGrant g user)
  | commitGrant g _ => .commit (done {g.userId})
  | readRow userId => .select (fun t =>
      match t.users.get userId with
      | none => raised (.userNotFound userId.str)
      | some user => readRoles user)
  | readRoles user => .select (fun t =>
      readRolePermissions user (t.roles.rows.filter (fun r => (user.id, r.id) ∈ t.userRoles)))
  | readRolePermissions user roles => .select (fun t => readDirect user (roles.map t.loadRole))
  | readDirect user roles => .select (fun t => readTenant user roles (t.directPermissions user.id))
  | readTenant user roles direct => .select (fun t =>
      loaded ⟨user, roles, direct, user.tenantId.bind t.tenants.get⟩)
  | loaded _ => .halt
  | done _ => .halt
  | raised _ => .halt

/-- What a script has written by each point. -/
def Point.pending : Point → Tables → Tables
  | flushLink e mask => e.flushed mask
  | findHolders e mask => e.link ∘ e.flushed mask
  | bumpHolders e mask _ => e.link ∘ e.flushed mask
  | commitEdit e mask holders => Tables.bumped holders ∘ e.link ∘ e.flushed mask
  | bumpMember m => m.link
  | commitMember m => Tables.bumped {m.userId} ∘ m.link
  | flushGrant g user => g.setVersion (user.permVersion + 1)
  | commitGrant g user => g.link ∘ g.setVersion (user.permVersion + 1)
  | _ => id

def Edit.maskRow (e : Edit) (mask : Option ℕ) : Finset Row :=
  match mask with
  | none => ∅
  | some _ => {.role e.roleId}

/-- What a script has locked by each point. -/
def Point.held : Point → Finset Row
  | flushLink e mask => e.maskRow mask
  | findHolders e mask => e.maskRow mask ∪ {.rolePermission e.roleId e.permission.id}
  | bumpHolders e mask _ => e.maskRow mask ∪ {.rolePermission e.roleId e.permission.id}
  | commitEdit e mask holders =>
    e.maskRow mask ∪ {.rolePermission e.roleId e.permission.id} ∪ holders.image Row.user
  | bumpMember m => {.userRole m.userId m.roleId}
  | commitMember m => {.userRole m.userId m.roleId} ∪ {.user m.userId}
  | flushGrant g _ => {.user g.userId}
  | commitGrant g _ => {.user g.userId} ∪ {.userPermission g.userId g.permission.id}
  | _ => ∅

/-- After the in-memory change nothing is written yet. -/
theorem Edit.afterLoad_pending (e : Edit) (role : Role) (permissions : List Permission) :
    (e.afterLoad role permissions).pending = id ∧ (e.afterLoad role permissions).held = ∅ := by
  unfold Edit.afterLoad
  split
  · exact ⟨rfl, rfl⟩
  · split <;> exact ⟨rfl, rfl⟩

def Point.outline : Outline Point.code where
  pending := Point.pending
  held := Point.held
  select := by
    intro p next hcode t
    cases p with
    | loadRole e =>
      obtain rfl := Command.select.inj hcode
      dsimp only
      cases t.roles.get e.roleId <;> exact ⟨rfl, rfl⟩
    | loadPermissions e role =>
      obtain rfl := Command.select.inj hcode
      exact e.afterLoad_pending role _
    | loadUser g =>
      obtain rfl := Command.select.inj hcode
      dsimp only
      cases t.users.get g.userId <;> exact ⟨rfl, rfl⟩
    | loadDirect g user =>
      obtain rfl := Command.select.inj hcode
      dsimp only
      cases g.check (t.directPermissions user.id) <;> exact ⟨rfl, rfl⟩
    | readRow userId =>
      obtain rfl := Command.select.inj hcode
      dsimp only
      cases t.users.get userId <;> exact ⟨rfl, rfl⟩
    | findHolders e mask =>
      obtain rfl := Command.select.inj hcode
      exact ⟨rfl, rfl⟩
    | readRoles user =>
      obtain rfl := Command.select.inj hcode
      exact ⟨rfl, rfl⟩
    | readRolePermissions user roles =>
      obtain rfl := Command.select.inj hcode
      exact ⟨rfl, rfl⟩
    | readDirect user roles =>
      obtain rfl := Command.select.inj hcode
      exact ⟨rfl, rfl⟩
    | readTenant user roles direct =>
      obtain rfl := Command.select.inj hcode
      exact ⟨rfl, rfl⟩
    | _ => cases hcode
  write := by
    intro p rows guard effect next hcode
    cases p <;> cases hcode <;>
      exact ⟨rfl, by simp only [Point.held, Edit.maskRow, Finset.empty_union]⟩
  commit := by
    intro p next hcode
    cases p <;> cases hcode <;> exact ⟨rfl, rfl⟩

/-- The database under transactions of any sessions. -/
abbrev Database (ι : Type*) := State ι Tables Row Point

/-- Before its first statement every session is at the start of a script. -/
def Database.Opens {ι : Type*} (starts : Point → Prop) (s : Database ι) : Prop :=
  ∀ i, ∃ p, starts p ∧ s.sessions i = some (.start p)

/-! ### Versions -/

def Tables.versionOf (t : Tables) (userId : Uuid) : Option ℕ :=
  (t.users.get userId).map User.permVersion

section Versions

variable (t : Tables) (userId : Uuid)

theorem Tables.versionOf_bumped (holders : Finset Uuid) :
    (t.bumped holders).versionOf userId =
      (t.versionOf userId).map (fun v => if userId ∈ holders then v + 1 else v) := by
  rw [Tables.versionOf, Tables.versionOf, Tables.bumped, Tables.get_bumpPermVersion,
    Option.map_map, Option.map_map]
  congr 1
  funext u
  by_cases hmem : userId ∈ holders <;> simp [hmem]

theorem Grant.versionOf_setVersion (g : Grant) (version : ℕ) :
    (g.setVersion version t).versionOf userId =
      (t.versionOf userId).map (fun v => if userId = g.userId then version else v) := by
  rw [Tables.versionOf, Tables.versionOf, Grant.setVersion, Table.get_update, Option.map_map]
  rcases hu : t.users.get userId with _ | u
  · rfl
  · obtain rfl := Table.key_of_get hu
    by_cases hid : u.id = g.userId <;> simp [hid]

@[simp] theorem Edit.versionOf_link (e : Edit) :
    (e.link t).versionOf userId = t.versionOf userId := rfl

@[simp] theorem Edit.versionOf_flushed (e : Edit) (mask : Option ℕ) :
    (e.flushed mask t).versionOf userId = t.versionOf userId := by
  cases mask <;> rfl

@[simp] theorem Membership.versionOf_link (m : Membership) :
    (m.link t).versionOf userId = t.versionOf userId := rfl

@[simp] theorem Grant.versionOf_link (g : Grant) :
    (g.link t).versionOf userId = t.versionOf userId := rfl

end Versions

/-- The row of a user, as far as the scripts write it. -/
def Tables.versionRow (row : Row) (t : Tables) : Option ℕ :=
  match row with
  | .user userId => t.versionOf userId
  | _ => none

/-- A version is written only under the lock of its row. -/
theorem Point.locks_versions : Point.outline.Locks Tables.versionRow := by
  intro p row hfree t
  cases row with
  | user userId =>
    change (p.pending t).versionOf userId = t.versionOf userId
    change Row.user userId ∉ p.held at hfree
    cases p with
    | commitEdit e mask holders =>
      have hout : userId ∉ holders := by
        intro hmem
        exact hfree (Finset.mem_union_right _ (Finset.mem_image_of_mem _ hmem))
      simp [Point.pending, Tables.versionOf_bumped, hout]
    | commitMember m =>
      have hout : userId ≠ m.userId := by
        rintro rfl
        exact hfree (Finset.mem_union_right _ (Finset.mem_singleton_self _))
      simp [Point.pending, Tables.versionOf_bumped, hout]
    | flushGrant g user =>
      have hout : userId ≠ g.userId := by
        rintro rfl
        exact hfree (Finset.mem_singleton_self _)
      simp [Point.pending, Grant.versionOf_setVersion, hout]
    | commitGrant g user =>
      have hout : userId ≠ g.userId := by
        rintro rfl
        exact hfree (Finset.mem_union_left _ (Finset.mem_singleton_self _))
      simp [Point.pending, Grant.versionOf_setVersion, hout]
    | _ => simp [Point.pending]
  | _ => rfl

end FastapiTemplate
