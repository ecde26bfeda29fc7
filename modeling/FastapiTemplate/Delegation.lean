import FastapiTemplate.RoleRepository

/-!
`core.rbac.delegation`. A user's permissions come from the roles they hold and
from direct grants; a role also carries the roles and permissions that its
holders may hand out. The mask is read off the cached role masks and the
catalogue, the name set off the association rows. The lemmas describe the bits
of a mask by the rows they come from.
-/
namespace FastapiTemplate

open Library.KeyedTable Library.BitMask

def effectivePermissions (user : LoadedUser) : Finset String :=
  (user.roles.flatMap (fun role => role.permissions.map Permission.name)).toFinset ∪
    (user.permissions.map Permission.name).toFinset

/-- The bit of one direct grant; a name outside the catalogue has none. -/
def orDirect (mask : ℕ) (perm : Permission) : ℕ :=
  match permissionRegistry.lookup perm.name with
  | none => mask
  | some b => mask ||| bit b

def effectivePermissionMask (user : LoadedUser) : ℕ :=
  let mask := user.roles.foldl (fun mask role => mask ||| role.permissionMask) 0
  user.permissions.foldl orDirect mask

def canGrantRole (t : Tables) (actor : LoadedUser) (roleId : RoleId) : Bool :=
  if actor.isSuperuser then true
  else if actor.roles = [] then false
  else roleId ∈ RoleRepository.getGrantableRoleIds t (actor.roles.map (fun r => r.id))

def canGrantPermission (t : Tables) (actor : LoadedUser) (permissionId : PermissionId) : Bool :=
  if actor.isSuperuser then true
  else if actor.roles = [] then false
  else permissionId ∈ RoleRepository.getGrantablePermissionIds t (actor.roles.map (fun r => r.id))

theorem mem_effectivePermissions {user : LoadedUser} {name : String} :
    name ∈ effectivePermissions user ↔
      (∃ role ∈ user.roles, ∃ p ∈ role.permissions, p.name = name) ∨
        ∃ p ∈ user.permissions, p.name = name := by
  simp [effectivePermissions]

theorem testBit_orDirect {mask : ℕ} {perm : Permission} {i : ℕ} :
    (orDirect mask perm).testBit i = true ↔
      mask.testBit i = true ∨ permissionRegistry.lookup perm.name = some i := by
  unfold orDirect
  rcases permissionRegistry.lookup perm.name with _ | b
  · simp
  · simp [testBit_bit]

theorem testBit_foldl_orDirect {perms : List Permission} {mask : ℕ} {i : ℕ} :
    (perms.foldl orDirect mask).testBit i = true ↔
      mask.testBit i = true ∨ ∃ p ∈ perms, permissionRegistry.lookup p.name = some i := by
  induction perms generalizing mask with
  | nil => simp
  | cons p perms ih =>
    rw [List.foldl_cons, ih, testBit_orDirect, or_assoc]
    simp

theorem testBit_effectivePermissionMask {user : LoadedUser} {i : ℕ} :
    (effectivePermissionMask user).testBit i = true ↔
      (∃ role ∈ user.roles, role.permissionMask.testBit i = true) ∨
        ∃ p ∈ user.permissions, permissionRegistry.lookup p.name = some i := by
  rw [effectivePermissionMask, testBit_foldl_orDirect, testBit_foldl_or]
  simp

namespace Tables

/-- Bit `i` comes from a role that the user holds. -/
def RoleBit (t : Tables) (userId : Uuid) (i : ℕ) : Prop :=
  ∃ roleId role, t.roles.get roleId = some role ∧ (userId, roleId) ∈ t.userRoles ∧
    role.permissionMask.testBit i = true

/-- Bit `i` comes from a direct grant to the user. -/
def DirectBit (t : Tables) (userId : Uuid) (i : ℕ) : Prop :=
  ∃ permissionId p, t.permissions.get permissionId = some p ∧
    (userId, permissionId) ∈ t.userPermissions ∧ permissionRegistry.lookup p.name = some i

theorem exists_mem_rolesOf {t : Tables} {userId : Uuid} {P : LoadedRole → Prop} :
    (∃ r ∈ t.rolesOf userId, P r) ↔
      ∃ roleId role, t.roles.get roleId = some role ∧ (userId, roleId) ∈ t.userRoles ∧
        P (t.loadRole role) := by
  constructor
  · rintro ⟨r, hr, hP⟩
    obtain ⟨role, hmem, hheld, rfl⟩ := mem_rolesOf.mp hr
    exact ⟨role.id, role, Table.get_of_mem hmem, hheld, hP⟩
  · rintro ⟨roleId, role, hget, hheld, hP⟩
    obtain rfl := Table.key_of_get hget
    exact ⟨t.loadRole role, mem_rolesOf.mpr ⟨role, Table.mem_of_get hget, hheld, rfl⟩, hP⟩

theorem exists_mem_directPermissions {t : Tables} {userId : Uuid} {P : Permission → Prop} :
    (∃ p ∈ t.directPermissions userId, P p) ↔
      ∃ permissionId p, t.permissions.get permissionId = some p ∧
        (userId, permissionId) ∈ t.userPermissions ∧ P p := by
  constructor
  · rintro ⟨p, hp, hP⟩
    obtain ⟨hmem, hheld⟩ := mem_directPermissions.mp hp
    exact ⟨p.id, p, Table.get_of_mem hmem, hheld, hP⟩
  · rintro ⟨permissionId, p, hget, hheld, hP⟩
    obtain rfl := Table.key_of_get hget
    exact ⟨p, mem_directPermissions.mpr ⟨Table.mem_of_get hget, hheld⟩, hP⟩

theorem exists_mem_permissionsOf {t : Tables} {roleId : RoleId} {P : Permission → Prop} :
    (∃ p ∈ t.permissionsOf roleId, P p) ↔
      ∃ permissionId p, t.permissions.get permissionId = some p ∧
        (roleId, permissionId) ∈ t.rolePermissions ∧ P p := by
  constructor
  · rintro ⟨p, hp, hP⟩
    obtain ⟨hmem, hlink⟩ := mem_permissionsOf.mp hp
    exact ⟨p.id, p, Table.get_of_mem hmem, hlink, hP⟩
  · rintro ⟨permissionId, p, hget, hlink, hP⟩
    obtain rfl := Table.key_of_get hget
    exact ⟨p, mem_permissionsOf.mpr ⟨Table.mem_of_get hget, hlink⟩, hP⟩

/-- The mask of a loaded user, read off the tables. -/
theorem testBit_maskOf {t : Tables} {user : User} {i : ℕ} :
    (effectivePermissionMask (t.loadUser user)).testBit i = true ↔
      t.RoleBit user.id i ∨ t.DirectBit user.id i := by
  rw [testBit_effectivePermissionMask]
  exact or_congr exists_mem_rolesOf exists_mem_directPermissions

/-- Users with the same bits have the same mask. -/
theorem maskOf_eq_iff {t t' : Tables} {user user' : User} :
    effectivePermissionMask (t.loadUser user) = effectivePermissionMask (t'.loadUser user') ↔
      ∀ i, (t.RoleBit user.id i ∨ t.DirectBit user.id i) ↔
        (t'.RoleBit user'.id i ∨ t'.DirectBit user'.id i) := by
  constructor
  · intro h i
    rw [← testBit_maskOf, ← testBit_maskOf, h]
  · intro h
    refine Nat.eq_of_testBit_eq ?_
    intro i
    rw [Bool.eq_iff_iff, testBit_maskOf, testBit_maskOf]
    exact h i

theorem mem_effectivePermissions_loadUser {t : Tables} {user : User} {name : String} :
    name ∈ effectivePermissions (t.loadUser user) ↔
      (∃ roleId role, t.roles.get roleId = some role ∧ (user.id, roleId) ∈ t.userRoles ∧
        ∃ permissionId p, t.permissions.get permissionId = some p ∧
          (roleId, permissionId) ∈ t.rolePermissions ∧ p.name = name) ∨
      ∃ permissionId p, t.permissions.get permissionId = some p ∧
        (user.id, permissionId) ∈ t.userPermissions ∧ p.name = name := by
  rw [mem_effectivePermissions]
  refine or_congr ?_ exists_mem_directPermissions
  refine exists_mem_rolesOf.trans ?_
  constructor
  · rintro ⟨roleId, role, hget, hheld, hperm⟩
    obtain rfl := Table.key_of_get hget
    exact ⟨role.id, role, hget, hheld, exists_mem_permissionsOf.mp hperm⟩
  · rintro ⟨roleId, role, hget, hheld, hperm⟩
    obtain rfl := Table.key_of_get hget
    exact ⟨role.id, role, hget, hheld, exists_mem_permissionsOf.mpr hperm⟩

/-- A bit is granted by a delegable permission of one of the roles. -/
theorem testBit_getGrantablePermissionMask {t : Tables} {roleIds : List RoleId} {i : ℕ} :
    (RoleRepository.getGrantablePermissionMask t roleIds).testBit i = true ↔
      ∃ roleId ∈ roleIds, ∃ permissionId p, t.permissions.get permissionId = some p ∧
        (roleId, permissionId) ∈ t.roleGrantablePermissions ∧ p.bitPosition = some i := by
  rw [RoleRepository.getGrantablePermissionMask, testBit_orBits]
  simp only [List.mem_filterMap, List.mem_filter, decide_eq_true_eq]
  simp only [RoleRepository.getGrantablePermissionIds, Finset.mem_image, Finset.mem_filter,
    Prod.exists]
  constructor
  · rintro ⟨p, ⟨hmem, roleId, permissionId, ⟨hlink, hrole⟩, rfl⟩, hbit⟩
    exact ⟨roleId, hrole, p.id, p, Table.get_of_mem hmem, hlink, hbit⟩
  · rintro ⟨roleId, hrole, permissionId, p, hget, hlink, hbit⟩
    obtain rfl := Table.key_of_get hget
    exact ⟨p, ⟨Table.mem_of_get hget, roleId, p.id, ⟨hlink, hrole⟩, rfl⟩, hbit⟩

end Tables
end FastapiTemplate
