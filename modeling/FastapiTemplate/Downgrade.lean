import FastapiTemplate.Migrations
import FastapiTemplate.Backend

/-!
The way back to revision 2d86ed6bd641. `downgrade` drops the columns and the
table that `upgrade` has added, in one transaction, which fails where the old
unique index on the names of roles cannot be built again. It takes back an
upgrade exactly. A database that the program has used goes back just when no
name is that of roles of two owners; its users then have the permissions that
they had, but the catalogue has lost its bits, so that the program does not
start again after the next upgrade.
-/
namespace FastapiTemplate.Migrations

open Library.KeyedTable Library.Committing

/-! ### The downgrades -/

def dropAllowedPermissionMask (x : Tenant) : LegacyTenant := ⟨x.id, x.name, x.isActive⟩

theorem dropAllowedPermissionMask_id (x : Tenant) : (dropAllowedPermissionMask x).id = x.id := rfl

def downgrade7f2a19c3d5e8 (t : Tables) : Revision4a36f94508d1 :=
  { t with tenants := t.tenants.mapRows dropAllowedPermissionMask dropAllowedPermissionMask_id }

def dropPermissionMask (r : Role) : LegacyRole := ⟨r.id, r.name⟩

theorem dropPermissionMask_id (r : Role) : (dropPermissionMask r).id = r.id := rfl

def dropTenantColumns (u : User) : LegacyUser where
  id := u.id
  username := u.username
  email := u.email
  password := u.password
  isVerified := u.isVerified
  isSuperuser := u.isSuperuser
  createdById := u.createdById

theorem dropTenantColumns_id (u : User) : (dropTenantColumns u).id = u.id := rfl

/-- `create_index(.., unique=True)` raises over two rows of one name. -/
def downgrade4a36f94508d1 (t : Revision4a36f94508d1) : Except Err Revision4ad43bc4d43b :=
  if (t.roles.rows.map Role.name).Nodup then
    .ok { t with
      roles := t.roles.mapRows dropPermissionMask dropPermissionMask_id
      users := t.users.mapRows dropTenantColumns dropTenantColumns_id }
  else .error .integrityError

def dropBitPosition (p : Permission) : LegacyPermission := ⟨p.id, p.name⟩

theorem dropBitPosition_id (p : Permission) : (dropBitPosition p).id = p.id := rfl

def downgrade4ad43bc4d43b (t : Revision4ad43bc4d43b) : Revision2d86ed6bd641 :=
  { t with permissions := t.permissions.mapRows dropBitPosition dropBitPosition_id }

def downgrade (t : Tables) : Except Err Revision2d86ed6bd641 := do
  let t ← downgrade4a36f94508d1 (downgrade7f2a19c3d5e8 t)
  return downgrade4ad43bc4d43b t

/-- The tables at revision 2d86ed6bd641. -/
def downgraded (t : Tables) : Revision2d86ed6bd641 :=
  { t with
    users := t.users.mapRows dropTenantColumns dropTenantColumns_id
    roles := t.roles.mapRows dropPermissionMask dropPermissionMask_id
    permissions := t.permissions.mapRows dropBitPosition dropBitPosition_id }

theorem downgrade_eq (t : Tables) : downgrade t =
    if (t.roles.rows.map Role.name).Nodup then .ok (downgraded t) else .error .integrityError := by
  unfold downgrade downgrade4a36f94508d1
  change (if (t.roles.rows.map Role.name).Nodup then _ else _) >>= _ = _
  split <;> rfl

theorem downgrade_eq_ok_iff {t : Tables} {old : Revision2d86ed6bd641} :
    downgrade t = .ok old ↔ (t.roles.rows.map Role.name).Nodup ∧ downgraded t = old := by
  rw [downgrade_eq]
  split
  · rename_i hnames
    simp only [Except.ok.injEq, hnames, true_and]
  · rename_i hnames
    simp only [reduceCtorEq, hnames, false_and]

/-! ### Taking back an upgrade -/

theorem downgraded_upgrade (t : Revision2d86ed6bd641) : downgraded (upgrade t) = t := by
  have husers := t.users.mapRows_mapRows addTenantColumns_id dropTenantColumns_id (fun _ => rfl)
  have hroles := t.roles.mapRows_mapRows addPermissionMask_id dropPermissionMask_id (fun _ => rfl)
  have hpermissions :=
    t.permissions.mapRows_mapRows addBitPosition_id dropBitPosition_id (fun _ => rfl)
  unfold downgraded
  rw [upgrade_users, upgrade_roles, upgrade_permissions, husers, hroles, hpermissions]
  rfl

/-- A downgrade right after the upgrade gives the old tables back. -/
theorem downgrade_upgrade (old : LegacyDb) :
    downgrade old.upgraded.toTables = .ok old.toRevision2d86ed6bd641 := by
  rw [downgrade_eq_ok_iff]
  refine ⟨?_, downgraded_upgrade _⟩
  change ((old.roles.rows.map addPermissionMask).map Role.name).Nodup
  rw [List.map_map]
  exact old.constraints.roleName

/-! ### Taking back a database in use -/

section InUse

variable {db : Db} {old : Revision2d86ed6bd641}

/-- The old constraints hold again, once the names of the roles are unique. -/
theorem downgraded_constraints (h : (db.roles.rows.map Role.name).Nodup) :
    (downgraded db.toTables).Constraints where
  username := by
    simpa [downgraded, Table.mapRows, Function.comp_def, dropTenantColumns] using
      db.constraints.username
  email := by
    simpa [downgraded, Table.mapRows, Function.comp_def, dropTenantColumns] using
      db.constraints.email
  roleName := by
    simpa [downgraded, Table.mapRows, Function.comp_def, dropPermissionMask] using h
  permissionName := by
    simpa [downgraded, Table.mapRows, Function.comp_def, dropBitPosition] using
      db.constraints.permissionName
  userCreator := by
    intro u hu
    obtain ⟨v, hv, rfl⟩ := List.mem_map.mp hu
    simpa [downgraded, dropTenantColumns] using db.constraints.userCreator v hv
  tokenUser := by
    intro k hk
    simpa [downgraded] using db.constraints.tokenUser k hk
  userRole := by
    intro x hx
    simpa [downgraded] using db.constraints.userRole x hx
  rolePermission := by
    intro x hx
    simpa [downgraded] using db.constraints.rolePermission x hx
  userPermission := by
    intro x hx
    simpa [downgraded] using db.constraints.userPermission x hx
  grantableRole := by
    intro x hx
    simpa [downgraded] using db.constraints.grantableRole x hx
  grantablePermission := by
    intro x hx
    simpa [downgraded] using db.constraints.grantablePermission x hx

/-- A name of two roles is one of two owners. -/
theorem nodup_names_iff : (db.roles.rows.map Role.name).Nodup ↔
    ∀ r ∈ db.roles.rows, ∀ s ∈ db.roles.rows, r.name = s.name → r.tenantId = s.tenantId := by
  constructor
  · intro h r hr s hs hname
    rw [List.inj_on_of_nodup_map h hr hs hname]
  · intro h
    refine List.Nodup.map_on ?_ (List.Nodup.of_map _ db.roles.nodup)
    intro r hr s hs hname
    refine List.inj_on_of_nodup_map db.constraints.roleName hr hs ?_
    rw [h r hr s hs hname, hname]

/-- The users keep the permissions that they have by name. -/
theorem downgraded_holds (u : User) (name : String) :
    (downgraded db.toTables).Holds u.id name ↔ name ∈ effectivePermissions (db.loadUser u) := by
  rw [Tables.mem_effectivePermissions_loadUser]
  constructor
  · rintro ⟨_, hp, rfl, hgranted⟩
    obtain ⟨p, hrow, rfl⟩ := List.mem_map.mp hp
    rcases hgranted with ⟨roleId, hrole, hlink⟩ | hgrant
    · obtain ⟨role, hget⟩ := Option.isSome_iff_exists.mp (db.constraints.userRole _ hrole).2
      exact Or.inl ⟨roleId, role, hget, hrole, p.id, p, Table.get_of_mem hrow, hlink, rfl⟩
    · exact Or.inr ⟨p.id, p, Table.get_of_mem hrow, hgrant, rfl⟩
  · rintro (⟨roleId, _, _, hrole, permissionId, p, hget, hlink, rfl⟩ |
      ⟨permissionId, p, hget, hgrant, rfl⟩)
    · obtain rfl := Table.key_of_get hget
      exact ⟨_, List.mem_map_of_mem (Table.mem_of_get hget), rfl, Or.inl ⟨roleId, hrole, hlink⟩⟩
    · obtain rfl := Table.key_of_get hget
      exact ⟨_, List.mem_map_of_mem (Table.mem_of_get hget), rfl, Or.inr hgrant⟩

/-- The first entry of the catalogue finds its row without the bit. -/
theorem startup_refuses {old : LegacyDb} {p : LegacyPermission} (hp : p ∈ old.permissions.rows)
    (hname : p.name = "role:create") : old.startup =
      (.error (.runtimeError (SyncPermissions.mismatch "role:create" none 0)), old.upgraded, []) := by
  have hrow : addBitPosition p ∈ old.upgraded.permissions.rows := List.mem_map_of_mem hp
  have hentry : SyncPermissions.syncEntry ("role:create", 0) old.upgraded = _ :=
    SyncPermissions.syncEntry_present hrow hname
  rw [if_neg (by simp [addBitPosition])] at hentry
  change SyncPermissions.syncWithSession (("role:create", 0) :: permissionRegistry.tail) _ = _
  rw [SyncPermissions.syncWithSession_cons, Action.bind_apply_error hentry]
  rfl

/-- What a downgrade leaves of a database in use. -/
structure RolledBack (db : Db) (old : Revision2d86ed6bd641) : Prop where
  constraints : old.Constraints
  users : ∀ u ∈ db.users.rows, old.users.get u.id = some (dropTenantColumns u)
  holds : ∀ u ∈ db.users.rows, ∀ name,
    old.Holds u.id name ↔ name ∈ effectivePermissions (db.loadUser u)
  restart : ∀ legacy : LegacyDb, legacy.toRevision2d86ed6bd641 = old →
    legacy.startup = (.error (.runtimeError (SyncPermissions.mismatch "role:create" none 0)),
      legacy.upgraded, [])

theorem rolledBack_downgraded (hreach : Reachable db) (h : (db.roles.rows.map Role.name).Nodup) :
    RolledBack db (downgraded db.toTables) := by
  refine ⟨downgraded_constraints h, ?_, fun u _ name => downgraded_holds u name, ?_⟩
  · intro u hu
    change (db.users.mapRows dropTenantColumns dropTenantColumns_id).get u.id = _
    rw [Table.get_mapRows, Table.get_of_mem hu]
    rfl
  · intro legacy hlegacy
    obtain ⟨p, hp, hname⟩ := hreach.catalogued.complete ("role:create", 0) (by decide)
    have hrow : dropBitPosition p ∈ legacy.permissions.rows := by
      rw [hlegacy]
      exact List.mem_map_of_mem hp
    exact startup_refuses hrow hname

/-- A database that the program has used goes back just when no two owners have
roles of one name; then its users keep their permissions, and the program does
not start on it again. -/
theorem downgrade_iff (hreach : Reachable db) :
    ((∃ old, downgrade db.toTables = .ok old) ↔
      ∀ r ∈ db.roles.rows, ∀ s ∈ db.roles.rows, r.name = s.name → r.tenantId = s.tenantId) ∧
      ∀ old, downgrade db.toTables = .ok old → RolledBack db old := by
  refine ⟨?_, ?_⟩
  · rw [← nodup_names_iff]
    constructor
    · rintro ⟨old, hdown⟩
      exact (downgrade_eq_ok_iff.mp hdown).1
    · intro h
      exact ⟨_, downgrade_eq_ok_iff.mpr ⟨h, rfl⟩⟩
  · intro old hdown
    obtain ⟨h, rfl⟩ := downgrade_eq_ok_iff.mp hdown
    exact rolledBack_downgraded hreach h

theorem downgrade_iff_annIn : ∃ old, downgrade Backend.annIn.db.toTables = .ok old ∧
    RolledBack Backend.annIn.db old := by
  have hreach : Reachable Backend.annIn.db :=
    (Backend.annIn_reached.sound plainJwt_expires).reachable
  have hnames : ∀ r ∈ Backend.annIn.db.roles.rows, ∀ s ∈ Backend.annIn.db.roles.rows,
      r.name = s.name → r.tenantId = s.tenantId := by
    decide +kernel
  obtain ⟨hiff, hrolled⟩ := downgrade_iff hreach
  obtain ⟨old, hdown⟩ := hiff.mpr hnames
  exact ⟨old, hdown, hrolled old hdown⟩

end InUse

end FastapiTemplate.Migrations
