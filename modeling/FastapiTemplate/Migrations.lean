import FastapiTemplate.CatalogSync
import FastapiTemplate.MaskAgreement

/-!
The upgrade of a deployment at revision 2d86ed6bd641. A revision is the record
of the tables that its schema has; `upgrade` adds columns and fills them with
their server defaults. The columns that carry the masks start empty: no
permission has a bit, no role has a mask. The startup synchronisation then
creates the missing rows of the catalogue but refuses a row without its bit,
so the upgraded program starts exactly when there was no permission to keep.
-/
namespace FastapiTemplate.Migrations

open Library.KeyedTable Library.Committing Library.BitMask

/-! ### The revisions -/

structure LegacyUser where
  id : Uuid
  username : String
  email : String
  password : Option String
  isVerified : Bool
  isSuperuser : Bool
  createdById : Option Uuid

structure LegacyRole where
  id : RoleId
  name : String

structure LegacyPermission where
  id : PermissionId
  name : String

/-- A tenant before it has a ceiling. -/
structure LegacyTenant where
  id : Uuid
  name : String
  isActive : Bool

/-- The tables that the three upgrades leave alone. -/
structure Associations where
  refreshTokens : Table RefreshToken.token
  userRoles : Finset (Uuid × RoleId)
  rolePermissions : Finset (RoleId × PermissionId)
  userPermissions : Finset (Uuid × PermissionId)
  roleGrantableRoles : Finset (RoleId × RoleId)
  roleGrantablePermissions : Finset (RoleId × PermissionId)
  rolesIdSeq : RoleId
  permissionsIdSeq : PermissionId

structure Revision2d86ed6bd641 extends Associations where
  users : Table LegacyUser.id
  roles : Table LegacyRole.id
  permissions : Table LegacyPermission.id

structure Revision4ad43bc4d43b extends Associations where
  users : Table LegacyUser.id
  roles : Table LegacyRole.id
  permissions : Table Permission.id

structure Revision4a36f94508d1 extends Associations where
  users : Table User.id
  roles : Table Role.id
  permissions : Table Permission.id
  tenants : Table LegacyTenant.id

/-- What the schema of revision 2d86ed6bd641 enforces; a role name is unique. -/
structure Revision2d86ed6bd641.Constraints (t : Revision2d86ed6bd641) : Prop where
  username : (t.users.rows.map LegacyUser.username).Nodup
  email : (t.users.rows.map LegacyUser.email).Nodup
  roleName : (t.roles.rows.map LegacyRole.name).Nodup
  permissionName : (t.permissions.rows.map LegacyPermission.name).Nodup
  userCreator : ∀ u ∈ t.users.rows, u.createdById.all (fun i => (t.users.get i).isSome)
  tokenUser : ∀ k ∈ t.refreshTokens.rows, (t.users.get k.userId).isSome
  userRole : ∀ x ∈ t.userRoles, (t.users.get x.1).isSome ∧ (t.roles.get x.2).isSome
  rolePermission :
    ∀ x ∈ t.rolePermissions, (t.roles.get x.1).isSome ∧ (t.permissions.get x.2).isSome
  userPermission :
    ∀ x ∈ t.userPermissions, (t.users.get x.1).isSome ∧ (t.permissions.get x.2).isSome
  grantableRole :
    ∀ x ∈ t.roleGrantableRoles, (t.roles.get x.1).isSome ∧ (t.roles.get x.2).isSome
  grantablePermission :
    ∀ x ∈ t.roleGrantablePermissions, (t.roles.get x.1).isSome ∧ (t.permissions.get x.2).isSome

/-- A database at revision 2d86ed6bd641. -/
structure LegacyDb extends Revision2d86ed6bd641 where
  constraints : toRevision2d86ed6bd641.Constraints

/-! ### The upgrades -/

def addBitPosition (p : LegacyPermission) : Permission := ⟨p.id, p.name, none⟩

theorem addBitPosition_id (p : LegacyPermission) : (addBitPosition p).id = p.id := rfl

def upgrade4ad43bc4d43b (t : Revision2d86ed6bd641) : Revision4ad43bc4d43b :=
  { t with permissions := t.permissions.mapRows addBitPosition addBitPosition_id }

def addTenantColumns (u : LegacyUser) : User where
  id := u.id
  username := u.username
  email := u.email
  password := u.password
  isVerified := u.isVerified
  isSuperuser := u.isSuperuser
  isActive := true
  createdById := u.createdById
  tenantId := none
  permVersion := 1

theorem addTenantColumns_id (u : LegacyUser) : (addTenantColumns u).id = u.id := rfl

/-- The server default of `permission_mask` is 32 zero bytes. -/
def addPermissionMask (r : LegacyRole) : Role := ⟨r.id, r.name, none, 0⟩

theorem addPermissionMask_id (r : LegacyRole) : (addPermissionMask r).id = r.id := rfl

def upgrade4a36f94508d1 (t : Revision4ad43bc4d43b) : Revision4a36f94508d1 :=
  { t with
    users := t.users.mapRows addTenantColumns addTenantColumns_id
    roles := t.roles.mapRows addPermissionMask addPermissionMask_id
    tenants := Table.empty }

/-- `_TENANT_ROLE_MASK_HEX`: bits 0-12 and 18. -/
def tenantRoleMaskHex : ℕ := 0x041fff

def addAllowedPermissionMask (x : LegacyTenant) : Tenant :=
  ⟨x.id, x.name, x.isActive, tenantRoleMaskHex⟩

theorem addAllowedPermissionMask_id (x : LegacyTenant) : (addAllowedPermissionMask x).id = x.id :=
  rfl

def upgrade7f2a19c3d5e8 (t : Revision4a36f94508d1) : Tables :=
  { t with tenants := t.tenants.mapRows addAllowedPermissionMask addAllowedPermissionMask_id }

def upgrade (t : Revision2d86ed6bd641) : Tables :=
  upgrade7f2a19c3d5e8 (upgrade4a36f94508d1 (upgrade4ad43bc4d43b t))

section Upgraded

variable (t : Revision2d86ed6bd641)

@[simp] theorem upgrade_users :
    (upgrade t).users = t.users.mapRows addTenantColumns addTenantColumns_id := rfl

@[simp] theorem upgrade_roles :
    (upgrade t).roles = t.roles.mapRows addPermissionMask addPermissionMask_id := rfl

@[simp] theorem upgrade_permissions :
    (upgrade t).permissions = t.permissions.mapRows addBitPosition addBitPosition_id := rfl

@[simp] theorem upgrade_tenants : (upgrade t).tenants = Table.empty := rfl

end Upgraded

/-- No upgrade fails: the new columns satisfy the constraints they come with. -/
theorem upgrade_constraints {t : Revision2d86ed6bd641} (h : t.Constraints) :
    (upgrade t).Constraints where
  username := by simpa [Table.mapRows, Function.comp_def, addTenantColumns] using h.username
  email := by simpa [Table.mapRows, Function.comp_def, addTenantColumns] using h.email
  roleName := by
    have hnames : (t.roles.rows.map (fun r => ((none : Option Uuid), r.name))).Nodup := by
      have hmap := h.roleName.map (f := fun n => ((none : Option Uuid), n))
        (fun a b hab => (Prod.mk.inj hab).2)
      rwa [List.map_map] at hmap
    simpa [Table.mapRows, Function.comp_def, addPermissionMask] using hnames
  permissionName := by
    simpa [Table.mapRows, Function.comp_def, addBitPosition] using h.permissionName
  permissionBit := by
    have hnone : (upgrade t).permissions.rows.filterMap Permission.bitPosition = [] := by
      rw [List.filterMap_eq_nil_iff]
      intro p hp
      obtain ⟨q, _, rfl⟩ := List.mem_map.mp hp
      rfl
    rw [hnone]
    exact List.nodup_nil
  tenantName := List.nodup_nil
  userTenant := by
    intro u hu
    obtain ⟨v, _, rfl⟩ := List.mem_map.mp hu
    rfl
  userCreator := by
    intro u hu
    obtain ⟨v, hv, rfl⟩ := List.mem_map.mp hu
    simpa [addTenantColumns] using h.userCreator v hv
  roleTenant := by
    intro r hr
    obtain ⟨s, _, rfl⟩ := List.mem_map.mp hr
    rfl
  tokenUser := by
    intro k hk
    simpa using h.tokenUser k hk
  userRole := by
    intro x hx
    simpa using h.userRole x hx
  rolePermission := by
    intro x hx
    simpa using h.rolePermission x hx
  userPermission := by
    intro x hx
    simpa using h.userPermission x hx
  grantableRole := by
    intro x hx
    simpa using h.grantableRole x hx
  grantablePermission := by
    intro x hx
    simpa using h.grantablePermission x hx
  masksFit := by
    refine ⟨?_, fun x hx => absurd hx List.not_mem_nil⟩
    intro r hr
    obtain ⟨s, _, rfl⟩ := List.mem_map.mp hr
    exact Nat.two_pow_pos 256

def LegacyDb.upgraded (old : LegacyDb) : Db :=
  ⟨upgrade old.toRevision2d86ed6bd641, upgrade_constraints old.constraints⟩

/-- `sync_permissions.sync` at the startup after the upgrades. -/
def LegacyDb.startup (old : LegacyDb) : Except Err Unit × Db × List Event :=
  SyncPermissions.syncWithSession permissionRegistry old.upgraded

/-! ### What the upgrade is to keep -/

/-- The user has the permission through a role or by a direct grant. -/
def Revision2d86ed6bd641.Holds (t : Revision2d86ed6bd641) (userId : Uuid) (name : String) : Prop :=
  ∃ p ∈ t.permissions.rows, p.name = name ∧
    ((∃ roleId, (userId, roleId) ∈ t.userRoles ∧ (roleId, p.id) ∈ t.rolePermissions) ∨
      (userId, p.id) ∈ t.userPermissions)

/-- The outcome of the startup keeps the permissions of `old`. -/
structure Preserved (old : Revision2d86ed6bd641) (ran : Except Err Unit × Db × List Event) :
    Prop where
  succeeds : ran.1 = .ok ()
  bits : ∀ p ∈ old.permissions.rows, ∃ q ∈ ran.2.1.permissions.rows,
    q.id = p.id ∧ q.name = p.name ∧ q.bitPosition = permissionRegistry.lookup p.name
  masks : ∀ role ∈ ran.2.1.roles.rows, role.permissionMask =
    orBits ((ran.2.1.permissionsOf role.id).filterMap Permission.bitPosition)
  effective : ∀ u ∈ old.users.rows, ∃ user, ran.2.1.users.get u.id = some user ∧
    ∀ i, (effectivePermissionMask (ran.2.1.loadUser user)).testBit i = true ↔
      ∃ name, old.Holds u.id name ∧ permissionRegistry.lookup name = some i

section Empty

variable {old : LegacyDb}

/-- Without old rows the loop creates the whole catalogue. -/
theorem startup_of_empty (hempty : old.permissions.rows = []) :
    ∃ db', old.startup = (.ok (), db', []) ∧
      SameButPermissions old.upgraded.toTables db'.toTables := by
  have hrows : old.upgraded.permissions.rows = [] := by
    change old.permissions.rows.map addBitPosition = []
    rw [hempty]
    rfl
  have hcompatible : permissionRegistry.Compatible old.upgraded.toTables := by
    refine ⟨?_, ?_⟩
    · intro p hp
      rw [hrows] at hp
      exact absurd hp List.not_mem_nil
    · intro _ _ _ p hp
      rw [hrows] at hp
      exact absurd hp List.not_mem_nil
  have hbelow : ∀ p ∈ old.upgraded.permissions.rows, p.id < old.upgraded.permissionsIdSeq := by
    intro p hp
    rw [hrows] at hp
    exact absurd hp List.not_mem_nil
  obtain ⟨db', hrun⟩ := SyncPermissions.syncWithSession_completes
    permissionRegistry_distinct.names permissionRegistry_distinct.bits hbelow hcompatible
  obtain ⟨_, _, hsame, _⟩ := SyncPermissions.syncWithSession_run
    permissionRegistry_distinct.names permissionRegistry_distinct.bits hrun
  exact ⟨db', hrun, hsame⟩

/-- The foreign keys leave no association row when there is no permission. -/
theorem no_rows_of_empty (hempty : old.permissions.rows = []) :
    (∀ x, x ∉ old.rolePermissions) ∧ ∀ x, x ∉ old.userPermissions := by
  have hget : ∀ k, ¬ (old.permissions.get k).isSome := by
    intro k
    rw [(Table.get_eq_none_iff _ k).mpr (by rw [hempty]; exact List.not_mem_nil)]
    exact Bool.false_ne_true
  exact ⟨fun x hx => hget _ (old.constraints.rolePermission x hx).2,
    fun x hx => hget _ (old.constraints.userPermission x hx).2⟩

theorem upgraded_masks {role : Role} (h : role ∈ old.upgraded.roles.rows) :
    role.permissionMask = 0 := by
  obtain ⟨r, _, rfl⟩ := List.mem_map.mp h
  rfl

/-- A deployment without permissions keeps what it had. -/
theorem preserved_of_empty (hempty : old.permissions.rows = []) :
    Preserved old.toRevision2d86ed6bd641 old.startup := by
  obtain ⟨db', hstartup, hsame⟩ := startup_of_empty hempty
  obtain ⟨hlinks, hgrants⟩ := no_rows_of_empty hempty
  have hmasks : ∀ role ∈ db'.roles.rows, role.permissionMask = 0 := by
    intro role hrole
    rw [hsame] at hrole
    exact upgraded_masks hrole
  rw [hstartup]
  refine ⟨rfl, ?_, ?_, ?_⟩
  · intro p hp
    rw [hempty] at hp
    exact absurd hp List.not_mem_nil
  · intro role hrole
    have hnone : db'.permissionsOf role.id = [] := by
      rw [List.eq_nil_iff_forall_not_mem]
      intro p hp
      have hlink := (Tables.mem_permissionsOf.mp hp).2
      rw [hsame] at hlink
      exact hlinks _ hlink
    change role.permissionMask =
      orBits ((db'.permissionsOf role.id).filterMap Permission.bitPosition)
    rw [hmasks role hrole, hnone]
    rfl
  · intro u hu
    have huser : db'.users.get u.id = some (addTenantColumns u) := by
      rw [hsame]
      change (upgrade old.toRevision2d86ed6bd641).users.get u.id = _
      rw [upgrade_users, Table.get_mapRows, Table.get_of_mem hu]
      rfl
    refine ⟨addTenantColumns u, huser, ?_⟩
    intro i
    change (effectivePermissionMask (db'.loadUser (addTenantColumns u))).testBit i = true ↔ _
    rw [Tables.testBit_maskOf]
    constructor
    · rintro (⟨roleId, role, hrole, _, hbit⟩ | ⟨permissionId, p, _, hgrant, _⟩)
      · rw [hmasks role (Table.mem_of_get hrole), Nat.zero_testBit] at hbit
        cases hbit
      · rw [hsame] at hgrant
        exact absurd hgrant (hgrants _)
    · rintro ⟨name, ⟨p, hp, _⟩, _⟩
      rw [hempty] at hp
      exact absurd hp List.not_mem_nil

end Empty

/-- The upgraded program starts with the old permissions exactly when there
were none: a row of the catalogue has no bit, which the startup refuses. -/
theorem preserved_iff (old : LegacyDb)
    (hnames : ∀ p ∈ old.permissions.rows, (permissionRegistry.lookup p.name).isSome) :
    Preserved old.toRevision2d86ed6bd641 old.startup ↔ old.permissions.rows = [] := by
  refine ⟨?_, preserved_of_empty⟩
  intro h
  rw [List.eq_nil_iff_forall_not_mem]
  intro p hp
  obtain ⟨b, hb⟩ := Option.isSome_iff_exists.mp (hnames p hp)
  have hrow : addBitPosition p ∈ old.upgraded.permissions.rows := List.mem_map_of_mem hp
  have hrun : old.startup = (.ok (), old.startup.2.1, old.startup.2.2) := ran_ok h.succeeds
  obtain ⟨_, _, _, hdone⟩ := SyncPermissions.syncWithSession_run
    permissionRegistry_distinct.names permissionRegistry_distinct.bits hrun
  have hbit := (hdone rfl).1.agree _ hrow b (lookup_eq_some_iff.mp hb)
  cases hbit

/-! ### Two deployments

Ann holds the role `reader`: without a permission in `registered`, with the
permission role:read in `deployed`. -/

def ann : LegacyUser where
  id := 2
  username := "ann"
  email := "ann@example.com"
  password := some "hash"
  isVerified := true
  isSuperuser := false
  createdById := none

def registered : LegacyDb where
  users := ⟨[ann], by decide⟩
  roles := ⟨[⟨1, "reader"⟩], by decide⟩
  permissions := Table.empty
  refreshTokens := Table.empty
  userRoles := {(2, 1)}
  rolePermissions := ∅
  userPermissions := ∅
  roleGrantableRoles := ∅
  roleGrantablePermissions := ∅
  rolesIdSeq := 2
  permissionsIdSeq := 1
  constraints := by
    constructor <;> decide

theorem registered_preserved :
    Preserved registered.toRevision2d86ed6bd641 registered.startup :=
  (preserved_iff registered (fun _ hp => absurd hp List.not_mem_nil)).mpr rfl

def deployed : LegacyDb where
  users := ⟨[ann], by decide⟩
  roles := ⟨[⟨1, "reader"⟩], by decide⟩
  permissions := ⟨[⟨1, "role:read"⟩], by decide⟩
  refreshTokens := Table.empty
  userRoles := {(2, 1)}
  rolePermissions := {(1, 1)}
  userPermissions := ∅
  roleGrantableRoles := ∅
  roleGrantablePermissions := ∅
  rolesIdSeq := 2
  permissionsIdSeq := 2
  constraints := by
    constructor <;> decide

/-- The startup of `deployed` raises at its one permission. -/
theorem deployed_not_preserved :
    (∀ p ∈ deployed.permissions.rows, (permissionRegistry.lookup p.name).isSome) ∧
      deployed.startup.1 = .error (.runtimeError
        ("Permission registry mismatch for 'role:read': db bit_position=None, " ++
          "code bit_position=1. Never edit an existing PERMISSION_REGISTRY value — " ++
          "see registry.py.")) ∧
      ¬ Preserved deployed.toRevision2d86ed6bd641 deployed.startup := by
  have hraises : deployed.startup.1 = .error (.runtimeError
      ("Permission registry mismatch for 'role:read': db bit_position=None, " ++
        "code bit_position=1. Never edit an existing PERMISSION_REGISTRY value — " ++
        "see registry.py.")) := by
    decide +kernel
  refine ⟨by decide, hraises, ?_⟩
  intro h
  have hok := h.succeeds
  rw [hraises] at hok
  cases hok

end FastapiTemplate.Migrations
