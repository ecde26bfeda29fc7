import FastapiTemplate.Registry
import FastapiTemplate.Library.KeyedTable
import FastapiTemplate.Library.Committing
import Mathlib.Data.Finset.Image
import Mathlib.Data.List.Dedup

/-!
The database. `Tables` holds the rows of every table, `Constraints` what the
schema enforces on them (unique columns, foreign keys, the width of a mask
column), and a `Db` is tables together with a proof of the constraints, so
that only a state the schema accepts can be built. A `transaction` computes
new tables and commits them when they satisfy the constraints; otherwise it
rolls back and raises. Loaded objects carry the rows that the eager-loading
queries attach to them.
-/
namespace FastapiTemplate

open Library.KeyedTable Library.Committing

structure User where
  id : Uuid
  username : String
  email : String
  password : Option String
  isVerified : Bool
  isSuperuser : Bool
  isActive : Bool
  createdById : Option Uuid
  tenantId : Option Uuid
  permVersion : ℕ
  deriving DecidableEq

structure Role where
  id : RoleId
  name : String
  tenantId : Option Uuid
  permissionMask : ℕ
  deriving DecidableEq

structure Permission where
  id : PermissionId
  name : String
  bitPosition : Option ℕ
  deriving DecidableEq

structure Tenant where
  id : Uuid
  name : String
  isActive : Bool
  allowedPermissionMask : ℕ
  deriving DecidableEq

structure RefreshToken where
  token : String
  userId : Uuid
  expiresAt : ℤ
  isRevoked : Bool
  deriving DecidableEq

/-! Writing another column leaves the primary key alone. -/

theorem Role.id_setMask (mask : ℕ) (r : Role) : { r with permissionMask := mask }.id = r.id := rfl

theorem Role.id_setName (name : String) (r : Role) : { r with name := name }.id = r.id := rfl

theorem User.id_setVerified (u : User) : { u with isVerified := true }.id = u.id := rfl

theorem User.id_setPassword (password : String) (u : User) :
    { u with password := some password }.id = u.id := rfl

theorem User.id_setVersion (version : ℕ) (u : User) :
    { u with permVersion := version }.id = u.id := rfl

theorem User.id_setActive (isActive : Bool) (u : User) :
    { u with isActive := isActive }.id = u.id := rfl

theorem Tenant.id_setMask (mask : ℕ) (x : Tenant) :
    { x with allowedPermissionMask := mask }.id = x.id := rfl

theorem Tenant.id_setActive (isActive : Bool) (x : Tenant) :
    { x with isActive := isActive }.id = x.id := rfl

theorem RefreshToken.token_setRevoked (k : RefreshToken) :
    { k with isRevoked := true }.token = k.token := rfl

structure Tables where
  users : Table User.id
  roles : Table Role.id
  permissions : Table Permission.id
  tenants : Table Tenant.id
  refreshTokens : Table RefreshToken.token
  userRoles : Finset (Uuid × RoleId)
  rolePermissions : Finset (RoleId × PermissionId)
  userPermissions : Finset (Uuid × PermissionId)
  roleGrantableRoles : Finset (RoleId × RoleId)
  roleGrantablePermissions : Finset (RoleId × PermissionId)
  /-- The sequences behind the integer primary keys. -/
  rolesIdSeq : RoleId
  permissionsIdSeq : PermissionId

/-- Every mask fits the 32 bytes of its column. -/
def Tables.MasksFit (t : Tables) : Prop :=
  (∀ r ∈ t.roles.rows, r.permissionMask < 2 ^ 256) ∧
    ∀ x ∈ t.tenants.rows, x.allowedPermissionMask < 2 ^ 256

instance (t : Tables) : Decidable t.MasksFit := by
  unfold Tables.MasksFit
  infer_instance

/-- A role name is unique within its tenant, and among the global roles. -/
structure Tables.Constraints (t : Tables) : Prop where
  username : (t.users.rows.map User.username).Nodup
  email : (t.users.rows.map User.email).Nodup
  roleName : (t.roles.rows.map (fun r => (r.tenantId, r.name))).Nodup
  permissionName : (t.permissions.rows.map Permission.name).Nodup
  permissionBit : (t.permissions.rows.filterMap Permission.bitPosition).Nodup
  tenantName : (t.tenants.rows.map Tenant.name).Nodup
  userTenant : ∀ u ∈ t.users.rows, u.tenantId.all (fun i => (t.tenants.get i).isSome)
  userCreator : ∀ u ∈ t.users.rows, u.createdById.all (fun i => (t.users.get i).isSome)
  roleTenant : ∀ r ∈ t.roles.rows, r.tenantId.all (fun i => (t.tenants.get i).isSome)
  tokenUser : ∀ k ∈ t.refreshTokens.rows, (t.users.get k.userId).isSome
  userRole : ∀ x ∈ t.userRoles, (t.users.get x.1).isSome ∧ (t.roles.get x.2).isSome
  rolePermission :
    ∀ x ∈ t.rolePermissions, (t.roles.get x.1).isSome ∧ (t.permissions.get x.2).isSome
  userPermission :
    ∀ x ∈ t.userPermissions, (t.users.get x.1).isSome ∧ (t.permissions.get x.2).isSome
  grantableRole :
    ∀ x ∈ t.roleGrantableRoles, (t.roles.get x.1).isSome ∧ (t.roles.get x.2).isSome
  grantablePermission :
    ∀ x ∈ t.roleGrantablePermissions, (t.roles.get x.1).isSome ∧ (t.permissions.get x.2).isSome
  masksFit : t.MasksFit

instance (t : Tables) : Decidable t.Constraints :=
  decidable_of_iff
    (((t.users.rows.map User.username).Nodup ∧ (t.users.rows.map User.email).Nodup ∧
      (t.roles.rows.map (fun r => (r.tenantId, r.name))).Nodup ∧
      (t.permissions.rows.map Permission.name).Nodup ∧
      (t.permissions.rows.filterMap Permission.bitPosition).Nodup ∧
      (t.tenants.rows.map Tenant.name).Nodup) ∧
    ((∀ u ∈ t.users.rows, u.tenantId.all (fun i => (t.tenants.get i).isSome)) ∧
      (∀ u ∈ t.users.rows, u.createdById.all (fun i => (t.users.get i).isSome)) ∧
      (∀ r ∈ t.roles.rows, r.tenantId.all (fun i => (t.tenants.get i).isSome)) ∧
      ∀ k ∈ t.refreshTokens.rows, (t.users.get k.userId).isSome) ∧
    ((∀ x ∈ t.userRoles, (t.users.get x.1).isSome ∧ (t.roles.get x.2).isSome) ∧
      (∀ x ∈ t.rolePermissions, (t.roles.get x.1).isSome ∧ (t.permissions.get x.2).isSome) ∧
      (∀ x ∈ t.userPermissions, (t.users.get x.1).isSome ∧ (t.permissions.get x.2).isSome) ∧
      (∀ x ∈ t.roleGrantableRoles, (t.roles.get x.1).isSome ∧ (t.roles.get x.2).isSome) ∧
      ∀ x ∈ t.roleGrantablePermissions,
        (t.roles.get x.1).isSome ∧ (t.permissions.get x.2).isSome) ∧
    t.MasksFit)
    ⟨fun ⟨⟨h1, h2, h3, h4, h5, h6⟩, ⟨h7, h8, h9, h10⟩, ⟨h11, h12, h13, h14, h15⟩, h16⟩ =>
        ⟨h1, h2, h3, h4, h5, h6, h7, h8, h9, h10, h11, h12, h13, h14, h15, h16⟩,
      fun ⟨h1, h2, h3, h4, h5, h6, h7, h8, h9, h10, h11, h12, h13, h14, h15, h16⟩ =>
        ⟨⟨h1, h2, h3, h4, h5, h6⟩, ⟨h7, h8, h9, h10⟩, ⟨h11, h12, h13, h14, h15⟩, h16⟩⟩

structure Db extends Tables where
  constraints : toTables.Constraints

def Tables.empty : Tables where
  users := Table.empty
  roles := Table.empty
  permissions := Table.empty
  tenants := Table.empty
  refreshTokens := Table.empty
  userRoles := ∅
  rolePermissions := ∅
  userPermissions := ∅
  roleGrantableRoles := ∅
  roleGrantablePermissions := ∅
  rolesIdSeq := 1
  permissionsIdSeq := 1

/-- The migrated database before the first startup. -/
def Db.empty : Db := ⟨Tables.empty, by decide⟩

/-- The events handed to `publish_events`. -/
inductive Event
  | permVersion (userId : String) (version : ℕ)
  | userStatus (userId : String) (isActive : Bool)
  | tenantStatus (tenantId : String) (isActive : Bool)
  deriving DecidableEq

/-- A service or repository coroutine on one session. -/
abbrev Service := Action Db Event Err

/-- The statements of one database transaction, with the events that are
published after it commits. -/
abbrev Tx (α : Type) := Tables → Except Err (α × Tables × List Event)

/-- Check the constraints of the new tables. -/
def Tables.checked (t : Tables) : Except Err Db :=
  if h : t.Constraints then .ok ⟨t, h⟩
  else if t.MasksFit then .error .integrityError
  else .error .overflowError

def commit {α : Type} (body : Tx α) (db : Db) : Except Err (α × Db × List Event) :=
  match body db.toTables with
  | .error e => .error e
  | .ok (a, t, es) =>
    match t.checked with
    | .error e => .error e
    | .ok db' => .ok (a, db', es)

def transaction {α : Type} (body : Tx α) : Service α := Action.transact (commit body)

/-- A query on the committed tables. -/
def query {α : Type} (f : Tables → α) : Service α := Action.read (fun db => f db.toTables)

/-- `body` takes `db` to `db'` in one committed transaction. -/
def Commits {α : Type} (body : Tx α) (db db' : Db) (es : List Event) : Prop :=
  ∃ a, body db.toTables = .ok (a, db'.toTables, es)

theorem commit_eq_ok_iff {α : Type} {body : Tx α} {db db' : Db} {a : α} {es : List Event} :
    commit body db = .ok (a, db', es) ↔ body db.toTables = .ok (a, db'.toTables, es) := by
  unfold commit
  constructor
  · intro h
    rcases hb : body db.toTables with e | ⟨b, t, fs⟩
    · simp [hb] at h
    · simp only [hb] at h
      unfold Tables.checked at h
      by_cases hc : t.Constraints
      · simp only [hc, dite_true, Except.ok.injEq, Prod.mk.injEq] at h
        obtain ⟨rfl, rfl, rfl⟩ := h
        rfl
      · by_cases hm : t.MasksFit <;> simp [hc, hm] at h
  · intro h
    simp only [h, Tables.checked, db'.constraints, dite_true]

/-- A transaction that returns has committed. -/
theorem commits_of_isOk {α : Type} {body : Tx α} {db : Db}
    (h : (transaction body db).1.isOk = true) :
    Commits body db (transaction body db).2.1 (transaction body db).2.2 := by
  unfold transaction Action.transact at h ⊢
  rcases hcommit : commit body db with e | ⟨a, db', es⟩
  · rw [hcommit] at h
    cases h
  · exact ⟨a, commit_eq_ok_iff.mp hcommit⟩

/-- A transaction has committed, or done nothing: its body has raised or its
tables broke a constraint. -/
theorem transaction_run {α : Type} {body : Tx α} {db db' : Db} {r : Except Err α}
    {es : List Event} (h : transaction body db = (r, db', es)) :
    (∃ e, r = .error e ∧ db' = db ∧
      (body db.toTables = .error e ∨ e = .integrityError ∨ e = .overflowError)) ∨
      ∃ a, r = .ok a ∧ body db.toTables = .ok (a, db'.toTables, es) := by
  unfold transaction Action.transact at h
  rcases hcommit : commit body db with e | ⟨a, db₁, es₁⟩
  · simp only [hcommit, Prod.mk.injEq] at h
    obtain ⟨rfl, rfl, rfl⟩ := h
    refine Or.inl ⟨e, rfl, rfl, ?_⟩
    unfold commit Tables.checked at hcommit
    rcases hbody : body db.toTables with e' | ⟨a, t, es⟩
    · simp only [hbody, Except.error.injEq] at hcommit
      exact Or.inl (by rw [hcommit])
    · by_cases hc : t.Constraints
      · simp [hbody, hc] at hcommit
      · by_cases hm : t.MasksFit
        · simp only [hbody, hc, hm, dite_false, if_true, Except.error.injEq] at hcommit
          exact Or.inr (Or.inl hcommit.symm)
        · simp only [hbody, hc, hm, dite_false, if_false, Except.error.injEq] at hcommit
          exact Or.inr (Or.inr hcommit.symm)
  · simp only [hcommit, Prod.mk.injEq] at h
    obtain ⟨rfl, rfl, rfl⟩ := h
    exact Or.inr ⟨a, rfl, commit_eq_ok_iff.mp hcommit⟩

/-- A transaction whose tables satisfy the constraints commits them. -/
theorem transaction_commits {α : Type} {body : Tx α} {db : Db} {t : Tables} {a : α}
    {es : List Event} (hbody : body db.toTables = .ok (a, t, es)) (ht : t.Constraints) :
    transaction body db = (.ok a, ⟨t, ht⟩, es) := by
  have hcommit : commit body db = .ok (a, ⟨t, ht⟩, es) := commit_eq_ok_iff.mpr hbody
  unfold transaction Action.transact
  rw [hcommit]

/-- A transaction whose body raises rolls back. -/
theorem transaction_raises {α : Type} {body : Tx α} {db : Db} {e : Err}
    (hbody : body db.toTables = .error e) : transaction body db = (.error e, db, []) := by
  unfold transaction Action.transact commit
  simp only [hbody]

/-- A run goes on after a transaction that commits. -/
theorem transaction_bind_run {α β : Type} {body : Tx α} {f : α → Service β} {db db' : Db}
    {t : Tables} {a : α} {r : Except Err β} {es fs : List Event}
    (hbody : body db.toTables = .ok (a, t, fs)) (ht : t.Constraints)
    (h : (transaction body >>= f) db = (r, db', es)) : ∃ gs, f a ⟨t, ht⟩ = (r, db', gs) := by
  have hcommit := transaction_commits hbody ht
  rcases Action.bind_run h with ⟨e, hrun, _⟩ | ⟨b, db₁, es₁, es₂, hrun, hrest, _⟩
  · rw [hcommit] at hrun
    cases hrun
  · rw [hcommit] at hrun
    cases hrun
    exact ⟨es₂, hrest⟩

/-- The transaction rule: a commit is related by `S`, a rollback does nothing. -/
theorem does_transaction {α : Type} {S : Db → Db → List Event → Prop} {body : Tx α} {db : Db}
    {Q : α → Db → Prop}
    (h : ∀ a db' es, body db.toTables = .ok (a, db'.toTables, es) → S db db' es ∧ Q a db') :
    Does S (transaction body) db Q :=
  Does.transact (fun a db' es hcommit => h a db' es (commit_eq_ok_iff.mp hcommit))

/-! ### Loaded objects -/

structure LoadedRole extends Role where
  permissions : List Permission
  deriving DecidableEq

/-- A user with roles, role permissions, direct permissions and tenant. -/
structure LoadedUser extends User where
  roles : List LoadedRole
  permissions : List Permission
  tenant : Option Tenant
  deriving DecidableEq

theorem LoadedUser.id_nextVersion (user : LoadedUser) (u : User) :
    { u with permVersion := user.permVersion + 1 }.id = u.id := rfl

namespace Tables

def permissionsOf (t : Tables) (roleId : RoleId) : List Permission :=
  t.permissions.rows.filter (fun p => (roleId, p.id) ∈ t.rolePermissions)

def loadRole (t : Tables) (role : Role) : LoadedRole := ⟨role, t.permissionsOf role.id⟩

def rolesOf (t : Tables) (userId : Uuid) : List LoadedRole :=
  (t.roles.rows.filter (fun r => (userId, r.id) ∈ t.userRoles)).map t.loadRole

def directPermissions (t : Tables) (userId : Uuid) : List Permission :=
  t.permissions.rows.filter (fun p => (userId, p.id) ∈ t.userPermissions)

def loadUser (t : Tables) (user : User) : LoadedUser :=
  ⟨user, t.rolesOf user.id, t.directPermissions user.id, user.tenantId.bind t.tenants.get⟩

@[simp] theorem loadRole_toRole (t : Tables) (role : Role) : (t.loadRole role).toRole = role := rfl
@[simp] theorem loadUser_toUser (t : Tables) (user : User) : (t.loadUser user).toUser = user := rfl

theorem mem_permissionsOf {t : Tables} {roleId : RoleId} {p : Permission} :
    p ∈ t.permissionsOf roleId ↔ p ∈ t.permissions.rows ∧ (roleId, p.id) ∈ t.rolePermissions := by
  simp [permissionsOf]

theorem mem_directPermissions {t : Tables} {userId : Uuid} {p : Permission} :
    p ∈ t.directPermissions userId ↔
      p ∈ t.permissions.rows ∧ (userId, p.id) ∈ t.userPermissions := by
  simp [directPermissions]

theorem mem_rolesOf {t : Tables} {userId : Uuid} {r : LoadedRole} :
    r ∈ t.rolesOf userId ↔
      ∃ role ∈ t.roles.rows, (userId, role.id) ∈ t.userRoles ∧ r = t.loadRole role := by
  simp only [rolesOf, List.mem_map, List.mem_filter, decide_eq_true_eq]
  constructor
  · rintro ⟨role, ⟨hmem, hheld⟩, rfl⟩
    exact ⟨role, hmem, hheld, rfl⟩
  · rintro ⟨role, hmem, hheld, rfl⟩
    exact ⟨role, ⟨hmem, hheld⟩, rfl⟩

end Tables
end FastapiTemplate
