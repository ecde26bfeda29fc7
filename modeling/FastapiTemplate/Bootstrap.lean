import FastapiTemplate.System

/-!
The bootstrap of a tenant. `create_tenant_with_admin` checks what it can
before it writes, then commits the tenant, its root role, its first user and
the membership one after the other, and hashes the password in between. Each
commit is described by the rows it adds; a failure after the first one leaves
the rows that are there. So a call that is not refused by its checks completes
when the password is one that bcrypt accepts, and otherwise leaves a tenant
without users.
-/
namespace FastapiTemplate.Bootstrap

open Library.KeyedTable Library.Committing Library.BitMask

/-! ### Rows that the schema accepts -/

section Accepted

variable {t : Tables}

theorem insertTenant_constraints {tenant : Tenant} {tenants : Table Tenant.id}
    (ht : t.Constraints) (hinsert : t.tenants.insert? tenant = some tenants)
    (hname : tenant.name ∉ t.tenants.rows.map Tenant.name)
    (hfits : tenant.allowedPermissionMask < 2 ^ 256) :
    ({ t with tenants := tenants } : Tables).Constraints := by
  have hrows : tenants.rows = t.tenants.rows ++ [tenant] := (Table.insert?_eq_some hinsert).2
  have hkept : ∀ i : Option Uuid, i.all (fun i => (t.tenants.get i).isSome) →
      i.all (fun i => (tenants.get i).isSome) := by
    intro i hi
    cases i with
    | none => rfl
    | some i => exact Table.isSome_insert? hinsert hi
  exact {
    username := ht.username
    email := ht.email
    roleName := ht.roleName
    permissionName := ht.permissionName
    permissionBit := ht.permissionBit
    tenantName := by
      rw [hrows, List.map_append, List.map_singleton, ← List.concat_eq_append,
        List.nodup_concat]
      exact ⟨hname, ht.tenantName⟩
    userTenant := fun u hu => hkept _ (ht.userTenant u hu)
    userCreator := ht.userCreator
    roleTenant := fun r hr => hkept _ (ht.roleTenant r hr)
    tokenUser := ht.tokenUser
    userRole := ht.userRole
    rolePermission := ht.rolePermission
    userPermission := ht.userPermission
    grantableRole := ht.grantableRole
    grantablePermission := ht.grantablePermission
    masksFit := by
      refine ⟨ht.masksFit.1, ?_⟩
      intro x hx
      rcases (Table.mem_insert? hinsert).mp hx with hold | rfl
      · exact ht.masksFit.2 x hold
      · exact hfits }

/-- A new role with its permissions, which it may also grant. -/
theorem insertRole_constraints {role : Role} {roles : Table Role.id}
    {granted : Finset (RoleId × PermissionId)} (ht : t.Constraints)
    (hinsert : t.roles.insert? role = some roles)
    (hname : (role.tenantId, role.name) ∉ t.roles.rows.map (fun r => (r.tenantId, r.name)))
    (htenant : role.tenantId.all (fun i => (t.tenants.get i).isSome))
    (hfits : role.permissionMask < 2 ^ 256)
    (hgranted : ∀ x ∈ granted, x.1 = role.id ∧ (t.permissions.get x.2).isSome) :
    ({ t with
      roles := roles
      rolesIdSeq := t.rolesIdSeq + 1
      rolePermissions := t.rolePermissions ∪ granted
      roleGrantablePermissions := t.roleGrantablePermissions ∪ granted } : Tables).Constraints := by
  have hrows : roles.rows = t.roles.rows ++ [role] := (Table.insert?_eq_some hinsert).2
  have hkept : ∀ k, (t.roles.get k).isSome → (roles.get k).isSome :=
    fun _ => Table.isSome_insert? hinsert
  have hlinks : ∀ links : Finset (RoleId × PermissionId),
      (∀ x ∈ links, (t.roles.get x.1).isSome ∧ (t.permissions.get x.2).isSome) →
      ∀ x ∈ links ∪ granted, (roles.get x.1).isSome ∧ (t.permissions.get x.2).isSome := by
    intro links h x hx
    rcases Finset.mem_union.mp hx with hx | hx
    · exact ⟨hkept _ (h x hx).1, (h x hx).2⟩
    · obtain ⟨hid, hpermission⟩ := hgranted x hx
      rw [hid, Table.get_insert?_self hinsert]
      exact ⟨rfl, hpermission⟩
  exact {
    username := ht.username
    email := ht.email
    roleName := by
      rw [hrows, List.map_append, List.map_singleton, ← List.concat_eq_append,
        List.nodup_concat]
      exact ⟨hname, ht.roleName⟩
    permissionName := ht.permissionName
    permissionBit := ht.permissionBit
    tenantName := ht.tenantName
    userTenant := ht.userTenant
    userCreator := ht.userCreator
    roleTenant := by
      intro r hr
      rcases (Table.mem_insert? hinsert).mp hr with hold | rfl
      · exact ht.roleTenant r hold
      · exact htenant
    tokenUser := ht.tokenUser
    userRole := fun x hx => ⟨(ht.userRole x hx).1, hkept _ (ht.userRole x hx).2⟩
    rolePermission := hlinks _ ht.rolePermission
    userPermission := ht.userPermission
    grantableRole := fun x hx =>
      ⟨hkept _ (ht.grantableRole x hx).1, hkept _ (ht.grantableRole x hx).2⟩
    grantablePermission := hlinks _ ht.grantablePermission
    masksFit := by
      refine ⟨?_, ht.masksFit.2⟩
      intro r hr
      rcases (Table.mem_insert? hinsert).mp hr with hold | rfl
      · exact ht.masksFit.1 r hold
      · exact hfits }

theorem insertUser_constraints {user : User} {users : Table User.id} (ht : t.Constraints)
    (hinsert : t.users.insert? user = some users)
    (husername : user.username ∉ t.users.rows.map User.username)
    (hemail : user.email ∉ t.users.rows.map User.email)
    (htenant : user.tenantId.all (fun i => (t.tenants.get i).isSome))
    (hcreator : user.createdById.all (fun i => (t.users.get i).isSome)) :
    ({ t with users := users } : Tables).Constraints := by
  have hrows : users.rows = t.users.rows ++ [user] := (Table.insert?_eq_some hinsert).2
  have hkept : ∀ k, (t.users.get k).isSome → (users.get k).isSome :=
    fun _ => Table.isSome_insert? hinsert
  have hall : ∀ i : Option Uuid, i.all (fun i => (t.users.get i).isSome) →
      i.all (fun i => (users.get i).isSome) := by
    intro i hi
    cases i with
    | none => rfl
    | some i => exact hkept i hi
  exact {
    username := by
      rw [hrows, List.map_append, List.map_singleton, ← List.concat_eq_append,
        List.nodup_concat]
      exact ⟨husername, ht.username⟩
    email := by
      rw [hrows, List.map_append, List.map_singleton, ← List.concat_eq_append,
        List.nodup_concat]
      exact ⟨hemail, ht.email⟩
    roleName := ht.roleName
    permissionName := ht.permissionName
    permissionBit := ht.permissionBit
    tenantName := ht.tenantName
    userTenant := by
      intro u hu
      rcases (Table.mem_insert? hinsert).mp hu with hold | rfl
      · exact ht.userTenant u hold
      · exact htenant
    userCreator := by
      intro u hu
      rcases (Table.mem_insert? hinsert).mp hu with hold | rfl
      · exact hall _ (ht.userCreator u hold)
      · exact hall _ hcreator
    roleTenant := ht.roleTenant
    tokenUser := fun k hk => hkept _ (ht.tokenUser k hk)
    userRole := fun x hx => ⟨hkept _ (ht.userRole x hx).1, (ht.userRole x hx).2⟩
    rolePermission := ht.rolePermission
    userPermission := fun x hx => ⟨hkept _ (ht.userPermission x hx).1, (ht.userPermission x hx).2⟩
    grantableRole := ht.grantableRole
    grantablePermission := ht.grantablePermission
    masksFit := ht.masksFit }

/-- No constraint is about the version. -/
theorem bumpPermVersion_constraints {ids : Uuid → Bool} (ht : t.Constraints) :
    (t.bumpPermVersion ids).Constraints := by
  have hmap : ∀ {β : Type} (f : User → β), (∀ u : User, ∀ v, f { u with permVersion := v } = f u) →
      (t.bumpPermVersion ids).users.rows.map f = t.users.rows.map f := by
    intro β f hf
    change (t.users.rows.map _).map f = _
    rw [List.map_map]
    apply List.map_congr_left
    intro u _
    by_cases hu : ids u.id = true
    · simp [hu, hf]
    · simp [hu]
  have hmem : ∀ u ∈ (t.bumpPermVersion ids).users.rows, ∃ v ∈ t.users.rows,
      v.tenantId = u.tenantId ∧ v.createdById = u.createdById := by
    intro u hu
    obtain ⟨v, hv, rfl⟩ := List.mem_map.mp hu
    refine ⟨v, hv, ?_⟩
    by_cases hv : ids v.id = true
    · simp [hv]
    · simp [hv]
  have hget : ∀ k, ((t.bumpPermVersion ids).users.get k).isSome = (t.users.get k).isSome := by
    intro k
    rw [Tables.get_bumpPermVersion, Option.isSome_map]
  exact {
    username := by rw [hmap User.username (fun _ _ => rfl)]; exact ht.username
    email := by rw [hmap User.email (fun _ _ => rfl)]; exact ht.email
    roleName := ht.roleName
    permissionName := ht.permissionName
    permissionBit := ht.permissionBit
    tenantName := ht.tenantName
    userTenant := by
      intro u hu
      obtain ⟨v, hv, htenant, _⟩ := hmem u hu
      rw [← htenant]
      exact ht.userTenant v hv
    userCreator := by
      intro u hu
      obtain ⟨v, hv, _, hcreator⟩ := hmem u hu
      rw [← hcreator]
      simp only [hget]
      exact ht.userCreator v hv
    roleTenant := ht.roleTenant
    tokenUser := by
      intro k hk
      rw [hget]
      exact ht.tokenUser k hk
    userRole := by
      intro x hx
      rw [hget]
      exact ht.userRole x hx
    rolePermission := ht.rolePermission
    userPermission := by
      intro x hx
      rw [hget]
      exact ht.userPermission x hx
    grantableRole := ht.grantableRole
    grantablePermission := ht.grantablePermission
    masksFit := ht.masksFit }

/-- A membership of two rows that are there. -/
theorem insertUserRole_constraints {roleId : RoleId} {userId : Uuid} (ht : t.Constraints)
    (huser : (t.users.get userId).isSome) (hrole : (t.roles.get roleId).isSome) :
    ({ t with userRoles := insert (userId, roleId) t.userRoles } : Tables).Constraints :=
  { ht with
    userRole := by
      intro x hx
      rcases Finset.mem_insert.mp hx with rfl | hx
      · exact ⟨huser, hrole⟩
      · exact ht.userRole x hx }

end Accepted

/-! ### The four commits -/

/-- One new role, with its own rows in the tables of its permissions. -/
structure RoleAdded (db db' : Db) (role : Role) : Prop where
  roles : db'.roles.rows = db.roles.rows ++ [role]
  users : db'.users = db.users
  userRoles : db'.userRoles = db.userRoles
  userPermissions : db'.userPermissions = db.userPermissions
  roleGrantableRoles : db'.roleGrantableRoles = db.roleGrantableRoles
  rolePermissions : ∀ x, x.1 ≠ role.id → (x ∈ db'.rolePermissions ↔ x ∈ db.rolePermissions)
  roleGrantablePermissions : ∀ x, x.1 ≠ role.id →
    (x ∈ db'.roleGrantablePermissions ↔ x ∈ db.roleGrantablePermissions)

section Commits

variable {db : Db}

theorem create_tenant {tenantId : Uuid} {name : String} {mask : ℕ}
    (hfree : db.tenants.get tenantId = none)
    (hname : TenantRepository.getByName db.toTables name = none) (hfits : mask < 2 ^ 256) :
    ∃ db' : Db, TenantRepository.create tenantId name mask db =
        (.ok ⟨tenantId, name, true, mask⟩, db', []) ∧
      db'.tenants.rows = db.tenants.rows ++ [⟨tenantId, name, true, mask⟩] ∧
      db'.toTables = { db.toTables with tenants := db'.tenants } := by
  obtain ⟨tenants, hinsert⟩ : ∃ tenants,
      db.tenants.insert? ⟨tenantId, name, true, mask⟩ = some tenants :=
    Table.insert?_of_get_none hfree
  have hunused : name ∉ db.tenants.rows.map Tenant.name := by
    intro hmem
    obtain ⟨x, hx, hxname⟩ := List.mem_map.mp hmem
    have hnot := List.find?_eq_none.mp hname x hx
    simp [hxname] at hnot
  have ht := insertTenant_constraints db.constraints hinsert hunused hfits
  have hbody : TenantRepository.createTx tenantId name mask db.toTables =
      .ok (⟨tenantId, name, true, mask⟩, { db.toTables with tenants := tenants }, []) := by
    unfold TenantRepository.createTx Tables.insertTenant
    simp only [hinsert]
    rfl
  exact ⟨⟨_, ht⟩, transaction_commits hbody ht, (Table.insert?_eq_some hinsert).2, rfl⟩

theorem create_tenant_taken {tenantId : Uuid} {name : String} {mask : ℕ}
    (htaken : (db.tenants.get tenantId).isSome) :
    TenantRepository.create tenantId name mask db = (.error .integrityError, db, []) := by
  have hinsert : db.tenants.insert? ⟨tenantId, name, true, mask⟩ = none :=
    Table.insert?_of_get_isSome htaken
  refine transaction_raises ?_
  unfold TenantRepository.createTx Tables.insertTenant
  simp only [hinsert]
  rfl

/-- The root role of a tenant without roles, on a free identifier. -/
theorem create_root_role {tenantId : Uuid} {allowed : ℕ}
    (hfree : db.roles.get db.rolesIdSeq = none) (htenant : (db.tenants.get tenantId).isSome)
    (hnone : ∀ r ∈ db.roles.rows, r.tenantId ≠ some tenantId) :
    ∃ (role : LoadedRole) (db' : Db),
      RoleRepository.createRootTenantRole tenantId allowed db = (.ok role, db', []) ∧
      role.id = db.rolesIdSeq ∧ db'.tenants = db.tenants ∧
      RoleAdded db db' (RoleRepository.newRole db.toTables "tenant-admin" (some tenantId)
        (allowed &&& tenantRoleMask)) := by
  have hfits : allowed &&& tenantRoleMask < 2 ^ 256 :=
    lt_of_le_of_lt Nat.and_le_right (by decide)
  let role := RoleRepository.newRole db.toTables "tenant-admin" (some tenantId)
    (allowed &&& tenantRoleMask)
  let granted := RoleRepository.links role.id
    (RoleRepository.permissionRows db.toTables (allowed &&& tenantRoleMask))
  obtain ⟨roles, hinsert⟩ : ∃ roles, db.roles.insert? role = some roles :=
    Table.insert?_of_get_none hfree
  have hunused : (role.tenantId, role.name) ∉ db.roles.rows.map (fun r => (r.tenantId, r.name)) := by
    intro hmem
    obtain ⟨r, hr, heq⟩ := List.mem_map.mp hmem
    exact hnone r hr (Prod.mk.inj heq).1
  have hgranted : ∀ x ∈ granted, x.1 = role.id ∧ (db.permissions.get x.2).isSome := by
    intro x hx
    obtain ⟨hid, p, hp, hpid⟩ := RoleRepository.mem_links.mp hx
    have hmem : p ∈ db.permissions.rows := List.mem_of_mem_filter (List.mem_of_mem_filter hp)
    rw [← hpid, Table.get_of_mem hmem]
    exact ⟨hid, rfl⟩
  have ht := insertRole_constraints db.constraints hinsert hunused htenant hfits hgranted
  have hrow : db.toTables.insertRole role = .ok { db.toTables with
      roles := roles
      rolesIdSeq := db.rolesIdSeq + 1 } := by
    unfold Tables.insertRole
    rw [hinsert]
  have hbody : ∃ loaded : LoadedRole, loaded.toRole = role ∧
      RoleRepository.createRootTenantRoleTx tenantId allowed db.toTables = .ok (loaded,
        { db.toTables with
          roles := roles
          rolesIdSeq := db.rolesIdSeq + 1
          rolePermissions := db.rolePermissions ∪ granted
          roleGrantablePermissions := db.roleGrantablePermissions ∪ granted }, []) := by
    unfold RoleRepository.createRootTenantRoleTx
    simp only [hrow, role]
    exact ⟨_, rfl, rfl⟩
  obtain ⟨loaded, hloaded, hbody⟩ := hbody
  have hkept : ∀ (links : Finset (RoleId × PermissionId)) (x : RoleId × PermissionId),
      x.1 ≠ role.id → (x ∈ links ∪ granted ↔ x ∈ links) := by
    intro links x hne
    rw [Finset.mem_union]
    exact or_iff_left (fun hx => hne (hgranted x hx).1)
  refine ⟨loaded, ⟨_, ht⟩, transaction_commits hbody ht, ?_, rfl,
    ⟨(Table.insert?_eq_some hinsert).2, rfl, rfl, rfl, rfl, hkept _, hkept _⟩⟩
  rw [hloaded]
  rfl

theorem create_root_role_taken {tenantId : Uuid} {allowed : ℕ}
    (htaken : (db.roles.get db.rolesIdSeq).isSome) :
    RoleRepository.createRootTenantRole tenantId allowed db =
      (.error .integrityError, db, []) := by
  have hinsert : db.roles.insert? (RoleRepository.newRole db.toTables "tenant-admin"
      (some tenantId) (allowed &&& tenantRoleMask)) = none := Table.insert?_of_get_isSome htaken
  refine transaction_raises ?_
  unfold RoleRepository.createRootTenantRoleTx Tables.insertRole
  simp only [hinsert]
  rfl

theorem create_user {data : UserRepository.NewUser} (hfree : db.users.get data.id = none)
    (husername : UserRepository.existsByUsername db.toTables data.username = false)
    (hemail : UserRepository.existsByEmail db.toTables data.email = false)
    (htenant : data.tenantId.all (fun i => (db.tenants.get i).isSome))
    (hcreator : data.createdById.all (fun i => (db.users.get i).isSome)) :
    ∃ db' : Db, UserRepository.create data db = (.ok data.row, db', []) ∧
      db'.users.rows = db.users.rows ++ [data.row] ∧
      db'.toTables = { db.toTables with users := db'.users } := by
  obtain ⟨users, hinsert⟩ : ∃ users, db.users.insert? data.row = some users :=
    Table.insert?_of_get_none hfree
  have hname : data.row.username ∉ db.users.rows.map User.username := by
    intro hmem
    obtain ⟨u, hu, heq⟩ := List.mem_map.mp hmem
    have hnot := List.any_eq_false.mp husername u hu
    exact hnot (decide_eq_true heq)
  have haddress : data.row.email ∉ db.users.rows.map User.email := by
    intro hmem
    obtain ⟨u, hu, heq⟩ := List.mem_map.mp hmem
    have hnot := List.any_eq_false.mp hemail u hu
    exact hnot (decide_eq_true heq)
  have ht := insertUser_constraints db.constraints hinsert hname haddress htenant hcreator
  have hbody : UserRepository.createTx data db.toTables =
      .ok (data.row, { db.toTables with users := users }, []) := by
    unfold UserRepository.createTx Tables.insertUser
    simp only [hinsert]
    rfl
  exact ⟨⟨_, ht⟩, transaction_commits hbody ht, (Table.insert?_eq_some hinsert).2, rfl⟩

theorem create_user_taken {data : UserRepository.NewUser}
    (htaken : (db.users.get data.id).isSome) :
    UserRepository.create data db = (.error .integrityError, db, []) := by
  have hinsert : db.users.insert? data.row = none := Table.insert?_of_get_isSome htaken
  refine transaction_raises ?_
  unfold UserRepository.createTx Tables.insertUser
  simp only [hinsert]
  rfl

theorem assign_to_user {roleId : RoleId} {userId : Uuid}
    (huser : (db.users.get userId).isSome) (hrole : (db.roles.get roleId).isSome)
    (hfree : (userId, roleId) ∉ db.userRoles) :
    ∃ (db' : Db) (es : List Event),
      RoleRepository.assignToUser roleId userId db = (.ok (), db', es) ∧
      db'.toTables = Tables.bumpPermVersion
        { db.toTables with userRoles := insert (userId, roleId) db.userRoles } (· = userId) := by
  have ht := @bumpPermVersion_constraints _ (· = userId)
    (insertUserRole_constraints db.constraints huser hrole)
  have hlink : Tables.insertLink db.userRoles (userId, roleId) =
      .ok (insert (userId, roleId) db.userRoles) := by
    unfold Tables.insertLink
    rw [if_neg hfree]
  have hbody : ∃ es, RoleRepository.assignToUserTx roleId userId db.toTables = .ok ((),
      Tables.bumpPermVersion { db.toTables with
        userRoles := insert (userId, roleId) db.userRoles } (· = userId), es) := by
    unfold RoleRepository.assignToUserTx
    simp only [hlink]
    exact ⟨_, rfl⟩
  obtain ⟨es, hbody⟩ := hbody
  exact ⟨⟨_, ht⟩, es, transaction_commits hbody ht, rfl⟩

end Commits

/-! ### The password -/

/-- `get_password_hash`, over bcrypt with a fresh salt. -/
def getPasswordHash (hashpw : ByteArray → Except Err String) (password : String) :
    Except Err String :=
  hashpw password.toByteArray

/-- `bcrypt.hashpw` takes inputs of at most 72 bytes. -/
structure Bcrypt (hashpw : ByteArray → Except Err String) : Prop where
  hashes : ∀ bytes, bytes.size ≤ 72 → ∃ hash, hashpw bytes = .ok hash
  refuses : ∀ bytes, 72 < bytes.size → hashpw bytes = .error .valueError

/-- `STRONG_PASSWORD_RE`: the four classes of characters on one line of 8 to
128 characters, where `$` also matches before a final newline. `isDecimal` is
the class of the regex `\d`. -/
def validateStrongPassword (isDecimal : Char → Bool) (value : String) : Bool :=
  let chars := value.toList
  let line := if chars.getLast? = some '\n' then chars.dropLast else chars
  decide ('\n' ∉ line ∧ 8 ≤ line.length ∧ line.length ≤ 128) && line.any Char.isLower &&
    line.any Char.isUpper && line.any isDecimal &&
    line.any (fun c => c ∈ "!@#$%^&*()_+-=[]\x7b\x7d;\x27:\"\x5c|,.<>/?".toList)

/-! ### The bootstrap -/

section Run

variable {hashpw : ByteArray → Except Err String} {newTenantId newUserId : Uuid}
  {actor : LoadedUser} {data : TenantCreate} {db : Db}

/-- The new user of the tenant. -/
def adminData (newTenantId newUserId : Uuid) (actor : LoadedUser) (data : TenantCreate)
    (password : String) : UserRepository.NewUser where
  id := newUserId
  username := data.adminUsername
  email := data.adminEmail
  password := some password
  isVerified := true
  tenantId := some newTenantId
  createdById := some actor.id

/-- What `create_tenant_with_admin` does once the tenant is committed. -/
def furnish (getPasswordHash : String → Except Err String) (newUserId : Uuid)
    (actor : LoadedUser) (data : TenantCreate) (allowedMask : ℕ) (tenant : Tenant) :
    Service (Tenant × User) := do
  let adminRole ← RoleRepository.createRootTenantRole tenant.id allowedMask
  let password ← Action.ofExcept (getPasswordHash data.adminPassword)
  let adminUser ← UserRepository.create (adminData tenant.id newUserId actor data password)
  RoleRepository.assignToUser adminRole.id adminUser.id
  return (tenant, adminUser)

/-- The part of `create_tenant_with_admin` that writes. -/
def writes (getPasswordHash : String → Except Err String) (newTenantId newUserId : Uuid)
    (actor : LoadedUser) (data : TenantCreate) (allowedMask : ℕ) : Service (Tenant × User) := do
  let tenant ← TenantRepository.create newTenantId data.name allowedMask
  furnish getPasswordHash newUserId actor data allowedMask tenant

/-- The call fails before or at its first write. -/
def Refused (db : Db) (newTenantId : Uuid) (data : TenantCreate) : Prop :=
  (TenantRepository.getByName db.toTables data.name).isSome ∨
    UserRepository.existsByUsername db.toTables data.adminUsername = true ∨
    UserRepository.existsByEmail db.toTables data.adminEmail = true ∨
    (∃ e, TenantService.requestedCeiling data.allowedPermissions = .error e) ∨
    (db.tenants.get newTenantId).isSome

/-- The later writes go through. -/
structure Completes (db : Db) (newUserId : Uuid) (data : TenantCreate) : Prop where
  password : data.adminPassword.toByteArray.size ≤ 72
  userId : db.users.get newUserId = none
  roleId : db.roles.get db.rolesIdSeq = none

/-- One new tenant, its root role and its first user, who holds the role. -/
structure Bootstrapped (db db' : Db) (tenant : Tenant) (role : Role) (user : User) : Prop where
  tenants : db'.tenants.rows = db.tenants.rows ++ [tenant]
  roles : db'.roles.rows = db.roles.rows ++ [role]
  users : db'.users.rows = db.users.rows ++ [user]
  owned : role.tenantId = some tenant.id
  ceiling : role.permissionMask = tenant.allowedPermissionMask
  member : user.tenantId = some tenant.id
  holds : db'.userRoles = insert (user.id, role.id) db.userRoles

/-- The tables that the bootstrap writes are as they were. -/
structure Untouched (db db' : Db) : Prop where
  tenants : db'.tenants = db.tenants
  roles : db'.roles = db.roles
  users : db'.users = db.users
  userRoles : db'.userRoles = db.userRoles
  rolePermissions : db'.rolePermissions = db.rolePermissions
  userPermissions : db'.userPermissions = db.userPermissions
  roleGrantableRoles : db'.roleGrantableRoles = db.roleGrantableRoles
  roleGrantablePermissions : db'.roleGrantablePermissions = db.roleGrantablePermissions

/-- One new tenant without users, at most with its root role. -/
structure Orphaned (db db' : Db) (tenant : Tenant) : Prop where
  tenants : db'.tenants.rows = db.tenants.rows ++ [tenant]
  rest : db'.toTables = { db.toTables with tenants := db'.tenants } ∨
    ∃ role, RoleAdded db db' role ∧ role.tenantId = some tenant.id ∧
      role.permissionMask = tenant.allowedPermissionMask

/-- The outcome `ran` of the bootstrap on `db` is all of it or nothing. -/
structure AllOrNothing (db : Db) (ran : Except Err (Tenant × User) × Db × List Event) : Prop where
  all : ∀ tenant admin, ran.1 = .ok (tenant, admin) →
    ∃ role user, Bootstrapped db ran.2.1 tenant role user ∧ user.id = admin.id
  nothing : ∀ e, ran.1 = .error e → Untouched db ran.2.1

/-- Past its checks, the call is its writes. -/
theorem createTenantWithAdmin_writes {hash : String → Except Err String} {requested : ℕ}
    (hsuper : actor.isSuperuser = true)
    (hname : TenantRepository.getByName db.toTables data.name = none)
    (husername : UserRepository.existsByUsername db.toTables data.adminUsername = false)
    (hemail : UserRepository.existsByEmail db.toTables data.adminEmail = false)
    (hrequested : TenantService.requestedCeiling data.allowedPermissions = .ok requested) :
    TenantService.createTenantWithAdmin hash newTenantId newUserId actor data db =
      writes hash newTenantId newUserId actor data (requested &&& tenantRoleMask) db := by
  unfold TenantService.createTenantWithAdmin query
  rw [Action.ensure_bind_apply hsuper, Action.read_bind_apply, Action.ensure_bind_apply hname,
    Action.read_bind_apply, Action.ensure_bind_apply husername, Action.read_bind_apply,
    Action.ensure_bind_apply hemail, hrequested]
  rfl

theorem refused_raises {hash : String → Except Err String} (hsuper : actor.isSuperuser = true)
    (h : Refused db newTenantId data) :
    ∃ e, TenantService.createTenantWithAdmin hash newTenantId newUserId actor data db =
      (.error e, db, []) := by
  by_cases hname : TenantRepository.getByName db.toTables data.name = none
  · by_cases husername : UserRepository.existsByUsername db.toTables data.adminUsername = false
    · by_cases hemail : UserRepository.existsByEmail db.toTables data.adminEmail = false
      · rcases hrequested : TenantService.requestedCeiling data.allowedPermissions with e | mask
        · refine ⟨e, ?_⟩
          unfold TenantService.createTenantWithAdmin query
          rw [Action.ensure_bind_apply hsuper, Action.read_bind_apply,
            Action.ensure_bind_apply hname, Action.read_bind_apply,
            Action.ensure_bind_apply husername, Action.read_bind_apply,
            Action.ensure_bind_apply hemail, hrequested]
          rfl
        · have htaken : (db.tenants.get newTenantId).isSome := by
            rcases h with h | h | h | ⟨e, he⟩ | h
            · rw [hname] at h
              cases h
            · rw [husername] at h
              cases h
            · rw [hemail] at h
              cases h
            · rw [hrequested] at he
              cases he
            · exact h
          refine ⟨.integrityError, ?_⟩
          rw [createTenantWithAdmin_writes hsuper hname husername hemail hrequested]
          exact Action.bind_apply_error (create_tenant_taken htaken)
      · refine ⟨.userMailExist data.adminEmail, ?_⟩
        unfold TenantService.createTenantWithAdmin query
        rw [Action.ensure_bind_apply hsuper, Action.read_bind_apply,
          Action.ensure_bind_apply hname, Action.read_bind_apply,
          Action.ensure_bind_apply husername, Action.read_bind_apply,
          Action.ensure_bind_apply_not hemail]
    · refine ⟨.usernameExist data.adminUsername, ?_⟩
      unfold TenantService.createTenantWithAdmin query
      rw [Action.ensure_bind_apply hsuper, Action.read_bind_apply,
        Action.ensure_bind_apply hname, Action.read_bind_apply,
        Action.ensure_bind_apply_not husername]
  · refine ⟨.tenantExists data.name, ?_⟩
    unfold TenantService.createTenantWithAdmin query
    rw [Action.ensure_bind_apply hsuper, Action.read_bind_apply,
      Action.ensure_bind_apply_not hname]

/-- The tenant of an accepted call is committed, and nothing else yet. -/
structure Started (db db₁ : Db) (tenant : Tenant) (data : TenantCreate) : Prop where
  free : db.tenants.get tenant.id = none
  ceiling : Within tenant.allowedPermissionMask tenantRoleMask
  username : UserRepository.existsByUsername db.toTables data.adminUsername = false
  email : UserRepository.existsByEmail db.toTables data.adminEmail = false
  tenants : db₁.tenants.rows = db.tenants.rows ++ [tenant]
  same : db₁.toTables = { db.toTables with tenants := db₁.tenants }

/-- Not refused, the call commits the tenant, and the rest runs on that state. -/
theorem tenant_committed {hash : String → Except Err String} (hsuper : actor.isSuperuser = true)
    (h : ¬ Refused db newTenantId data) :
    ∃ tenant db₁, Started db db₁ tenant data ∧
      TenantService.createTenantWithAdmin hash newTenantId newUserId actor data db =
        furnish hash newUserId actor data tenant.allowedPermissionMask tenant db₁ := by
  unfold Refused at h
  push Not at h
  obtain ⟨hname, husername, hemail, hrequested, hfree⟩ := h
  obtain ⟨mask, hmask⟩ : ∃ mask,
      TenantService.requestedCeiling data.allowedPermissions = .ok mask := by
    rcases hceiling : TenantService.requestedCeiling data.allowedPermissions with e | mask
    · exact absurd hceiling (hrequested e)
    · exact ⟨mask, rfl⟩
  simp only [ne_eq, Bool.not_eq_true, Option.isSome_eq_false_iff, Option.isNone_iff_eq_none]
    at hname husername hemail hfree
  obtain ⟨db₁, hcreate, hrows, hsame⟩ := create_tenant hfree hname
    (lt_of_le_of_lt Nat.and_le_right (by decide) : mask &&& tenantRoleMask < 2 ^ 256)
  refine ⟨_, db₁, ⟨hfree, within_and_right _ _, husername, hemail, hrows, hsame⟩, ?_⟩
  rw [createTenantWithAdmin_writes hsuper hname husername hemail hmask]
  exact Action.bind_apply_ok hcreate

namespace Started

variable {db₁ : Db} {tenant : Tenant}

theorem get (h : Started db db₁ tenant data) : db₁.tenants.get tenant.id = some tenant :=
  Table.get_of_mem (by rw [h.tenants]; exact List.mem_append_right _ List.mem_cons_self)

/-- A new tenant has no roles: a role's tenant exists. -/
theorem no_roles (h : Started db db₁ tenant data) :
    ∀ r ∈ db₁.roles.rows, r.tenantId ≠ some tenant.id := by
  intro r hr heq
  rw [h.same] at hr
  have hexists := db.constraints.roleTenant r hr
  rw [heq, Option.all_some, h.free] at hexists
  cases hexists

theorem clamped (h : Started db db₁ tenant data) :
    tenant.allowedPermissionMask &&& tenantRoleMask = tenant.allowedPermissionMask := by
  apply Nat.eq_of_testBit_eq
  intro i
  have hi := h.ceiling i
  rw [Nat.testBit_and]
  by_cases hbit : tenant.allowedPermissionMask.testBit i = true
  · rw [hbit, hi hbit]
    rfl
  · rw [Bool.not_eq_true] at hbit
    rw [hbit]
    rfl

theorem roles_eq (h : Started db db₁ tenant data) :
    db₁.roles = db.roles ∧ db₁.rolesIdSeq = db.rolesIdSeq := by
  rw [h.same]
  exact ⟨rfl, rfl⟩

/-- The root role can be created unless its identifier is taken. -/
theorem root_role (h : Started db db₁ tenant data) (hfree : db.roles.get db.rolesIdSeq = none) :
    ∃ (role : LoadedRole) (db₂ : Db),
      RoleRepository.createRootTenantRole tenant.id tenant.allowedPermissionMask db₁ =
        (.ok role, db₂, []) ∧ role.id = db.rolesIdSeq ∧ db₂.tenants = db₁.tenants ∧
      RoleAdded db db₂
        ⟨db.rolesIdSeq, "tenant-admin", some tenant.id, tenant.allowedPermissionMask⟩ := by
  have htenant : (db₁.tenants.get tenant.id).isSome := by
    rw [h.get]
    rfl
  obtain ⟨hroles, hseq⟩ := h.roles_eq
  obtain ⟨role, db₂, hrun, hid, htenants, hadded⟩ :=
    @create_root_role db₁ tenant.id tenant.allowedPermissionMask
      (by rw [hroles, hseq]; exact hfree) htenant h.no_roles
  rw [h.clamped, RoleRepository.newRole, hseq] at hadded
  refine ⟨role, db₂, hrun, by rw [hid, hseq], htenants, ?_⟩
  obtain ⟨hrows, husers, hheld, hdirect, hgrantable, hlinks, hgrantables⟩ := hadded
  rw [h.same] at hrows husers hheld hdirect hgrantable hlinks hgrantables
  exact ⟨hrows, husers, hheld, hdirect, hgrantable, hlinks, hgrantables⟩

end Started

/-- A late failure leaves the tenant behind. -/
theorem furnish_fails {db₁ : Db} {tenant : Tenant} (hbcrypt : Bcrypt hashpw)
    (h : Started db db₁ tenant data) (hfails : ¬ Completes db newUserId data) :
    ∃ e db' es, furnish (getPasswordHash hashpw) newUserId actor data
        tenant.allowedPermissionMask tenant db₁ = (.error e, db', es) ∧
      Orphaned db db' tenant := by
  by_cases hrole : db.roles.get db.rolesIdSeq = none
  · obtain ⟨role, db₂, hrun, _, htenants, hadded⟩ := h.root_role hrole
    have horphaned : Orphaned db db₂ tenant :=
      ⟨by rw [htenants, h.tenants], Or.inr ⟨_, hadded, rfl, rfl⟩⟩
    by_cases hlong : data.adminPassword.toByteArray.size ≤ 72
    · obtain ⟨hash, hhash⟩ := hbcrypt.hashes _ hlong
      have htaken : (db.users.get newUserId).isSome := by
        by_contra hfree
        rw [Bool.not_eq_true, Option.isSome_eq_false_iff, Option.isNone_iff_eq_none] at hfree
        exact hfails ⟨hlong, hfree, hrole⟩
      refine ⟨.integrityError, db₂, [], ?_, horphaned⟩
      unfold furnish getPasswordHash
      rw [Action.bind_apply_ok hrun, hhash, Action.ofExcept_ok_bind]
      refine Action.bind_apply_error (create_user_taken ?_)
      rw [hadded.users]
      exact htaken
    · have hhash := hbcrypt.refuses data.adminPassword.toByteArray (by omega)
      refine ⟨.valueError, db₂, [], ?_, horphaned⟩
      unfold furnish getPasswordHash
      rw [Action.bind_apply_ok hrun, hhash]
      rfl
  · obtain ⟨hroles, hseq⟩ := h.roles_eq
    refine ⟨.integrityError, db₁, [], ?_, ⟨h.tenants, Or.inl h.same⟩⟩
    unfold furnish
    refine Action.bind_apply_error (create_root_role_taken ?_)
    rw [hroles, hseq]
    exact Option.isSome_iff_ne_none.mpr hrole

/-- The version of the new user is two: joining the role has bumped it. -/
theorem bump_appended {users : List User} {user : User}
    (hfree : ∀ u ∈ users, u.id ≠ user.id) :
    (users ++ [user]).map (fun u => if (decide (u.id = user.id)) = true
        then { u with permVersion := u.permVersion + 1 } else u) =
      users ++ [{ user with permVersion := user.permVersion + 1 }] := by
  have hold : users.map (fun u => if (decide (u.id = user.id)) = true
      then { u with permVersion := u.permVersion + 1 } else u) = users := by
    rw [List.map_congr_left (g := id) (by intro u hu; simp [hfree u hu]), List.map_id]
  rw [List.map_append, hold]
  simp

/-- When nothing fails late, the bootstrap is complete. -/
theorem furnish_completes {db₁ : Db} {tenant : Tenant} (hbcrypt : Bcrypt hashpw)
    (h : Started db db₁ tenant data) (hactor : db.users.get actor.id = some actor.toUser)
    (hcompletes : Completes db newUserId data) :
    ∃ admin db' es, furnish (getPasswordHash hashpw) newUserId actor data
        tenant.allowedPermissionMask tenant db₁ = (.ok (tenant, admin), db', es) ∧
      ∃ role user, Bootstrapped db db' tenant role user ∧ user.id = admin.id := by
  obtain ⟨hlong, huser, hrole⟩ := hcompletes
  obtain ⟨role, db₂, hrun, hid, htenants, hadded⟩ := h.root_role hrole
  have hroles := hadded.roles
  have husers := hadded.users
  obtain ⟨hash, hhash⟩ := hbcrypt.hashes _ hlong
  let admin := adminData tenant.id newUserId actor data hash
  have htenant : (db₂.tenants.get tenant.id).isSome := by
    rw [htenants, h.get]
    rfl
  obtain ⟨db₃, hcreate, hrows, hsame⟩ := @create_user db₂ admin (by rw [husers]; exact huser)
    (by unfold UserRepository.existsByUsername; rw [husers]; exact h.username)
    (by unfold UserRepository.existsByEmail; rw [husers]; exact h.email)
    htenant (by rw [husers]; exact Option.isSome_iff_exists.mpr ⟨_, hactor⟩)
  have hlinks₃ : db₃.userRoles = db.userRoles := by
    rw [hsame]
    exact hadded.userRoles
  have hroles₃ : db₃.roles = db₂.roles := by rw [hsame]
  have hnotheld : (newUserId, role.id) ∉ db₃.userRoles := by
    rw [hlinks₃]
    intro hheld
    have hexists := (db.constraints.userRole _ hheld).1
    rw [huser] at hexists
    cases hexists
  have hrole₃ : (db₃.roles.get role.id).isSome := by
    have hmem : (⟨db.rolesIdSeq, "tenant-admin", some tenant.id, tenant.allowedPermissionMask⟩ :
        Role) ∈ db₃.roles.rows := by
      rw [hroles₃, hroles]
      exact List.mem_append_right _ List.mem_cons_self
    rw [hid]
    exact Option.isSome_iff_exists.mpr ⟨_, Table.get_of_mem hmem⟩
  have huser₃ : (db₃.users.get newUserId).isSome := by
    have hmem : admin.row ∈ db₃.users.rows := by
      rw [hrows]
      exact List.mem_append_right _ List.mem_cons_self
    exact Option.isSome_iff_exists.mpr ⟨_, Table.get_of_mem hmem⟩
  obtain ⟨db₄, es, hassign, htables⟩ := assign_to_user huser₃ hrole₃ hnotheld
  have hunused : ∀ u ∈ db.users.rows, u.id ≠ admin.row.id := by
    intro u hu heq
    have hget : db.users.get newUserId = some u := Table.get_of_key hu heq
    rw [huser] at hget
    cases hget
  refine ⟨admin.row, db₄, es, ?_, ⟨db.rolesIdSeq, "tenant-admin", some tenant.id,
    tenant.allowedPermissionMask⟩, { admin.row with permVersion := 2 }, ?_, rfl⟩
  · unfold furnish getPasswordHash
    rw [Action.bind_apply_ok hrun, hhash, Action.ofExcept_ok_bind, Action.bind_apply_ok hcreate]
    change Action.bind (RoleRepository.assignToUser role.id newUserId) _ db₃ = _
    unfold Action.bind
    rw [hassign]
    simp [Action.pure, pure]
  · refine ⟨?_, ?_, ?_, rfl, rfl, rfl, ?_⟩
    · rw [htables]
      change db₃.tenants.rows = _
      rw [hsame]
      change db₂.tenants.rows = _
      rw [htenants, h.tenants]
    · rw [htables]
      change db₃.roles.rows = _
      rw [hroles₃, hroles]
    · rw [htables]
      change db₃.users.rows.map _ = _
      rw [hrows, husers]
      exact bump_appended hunused
    · rw [htables]
      change insert (newUserId, role.id) db₃.userRoles = _
      rw [hlinks₃, hid]
      rfl

/-- A call that is not refused in time either completes or leaves the tenant
that it has committed. -/
theorem bootstrap_outcome (hbcrypt : Bcrypt hashpw)
    (hactor : db.users.get actor.id = some actor.toUser) (hsuper : actor.isSuperuser = true) :
    (Refused db newTenantId data → ∃ e,
      TenantService.createTenantWithAdmin (getPasswordHash hashpw) newTenantId newUserId actor
        data db = (.error e, db, [])) ∧
    (¬ Refused db newTenantId data → Completes db newUserId data → ∃ tenant admin db' es,
      TenantService.createTenantWithAdmin (getPasswordHash hashpw) newTenantId newUserId actor
        data db = (.ok (tenant, admin), db', es) ∧
      ∃ role user, Bootstrapped db db' tenant role user ∧ user.id = admin.id) ∧
    (¬ Refused db newTenantId data → ¬ Completes db newUserId data → ∃ e tenant db' es,
      TenantService.createTenantWithAdmin (getPasswordHash hashpw) newTenantId newUserId actor
        data db = (.error e, db', es) ∧ Orphaned db db' tenant) := by
  refine ⟨refused_raises hsuper, ?_, ?_⟩
  · intro hrefused hcompletes
    obtain ⟨tenant, db₁, h, hrun⟩ := tenant_committed hsuper hrefused
    obtain ⟨admin, db', es, hfurnish, hdone⟩ := furnish_completes hbcrypt h hactor hcompletes
    exact ⟨tenant, admin, db', es, hrun.trans hfurnish, hdone⟩
  · intro hrefused hfails
    obtain ⟨tenant, db₁, h, hrun⟩ := tenant_committed hsuper hrefused
    obtain ⟨e, db', es, hfurnish, horphaned⟩ := furnish_fails hbcrypt h hfails
    exact ⟨e, tenant, db', es, hrun.trans hfurnish, horphaned⟩

end Run

/-! ### Two tenants

The superuser bootstraps acme twice on the same database, with a password of
15 characters and with one of 74, which the schema accepts as well. -/

def plainHashpw (bytes : ByteArray) : Except Err String :=
  if bytes.size ≤ 72 then .ok "hash" else .error .valueError

theorem plainHashpw_bcrypt : Bcrypt plainHashpw where
  hashes := fun _ h => ⟨"hash", if_pos h⟩
  refuses := fun _ h => if_neg (by omega)

def acmeData (password : String) : TenantCreate :=
  ⟨"acme", "boss", "boss@example.com", password, none⟩

def longPassword : String :=
  "Correct1-Horse2-Battery3-Staple4-Correct5-Horse6-Battery7-Staple8-Correct9"

def rootActor : LoadedUser := seeded.toTables.loadUser root.row

def bootstrapAcme (password : String) : Except Err (Tenant × User) × Db × List Event :=
  TenantService.createTenantWithAdmin (getPasswordHash plainHashpw) 10 11 rootActor
    (acmeData password) seeded

theorem seeded_bootstrap : ∃ tenant admin db' es,
    bootstrapAcme "Correct1-Horse2" = (.ok (tenant, admin), db', es) ∧
      ∃ role user, Bootstrapped seeded db' tenant role user ∧ user.id = admin.id := by
  have hactor : seeded.users.get rootActor.id = some rootActor.toUser := by decide +kernel
  have hsuper : rootActor.isSuperuser = true := by decide +kernel
  have hpassword : (acmeData "Correct1-Horse2").adminPassword.toByteArray.size ≤ 72 := by
    decide +kernel
  have huser : seeded.users.get 11 = none := by decide +kernel
  have hrole : seeded.roles.get seeded.rolesIdSeq = none := by decide +kernel
  have hrefused : ¬ Refused seeded 10 (acmeData "Correct1-Horse2") := by
    have hnone : (TenantRepository.getByName seeded.toTables "acme").isSome = false ∧
        UserRepository.existsByUsername seeded.toTables "boss" = false ∧
        UserRepository.existsByEmail seeded.toTables "boss@example.com" = false ∧
        (seeded.tenants.get 10).isSome = false := by
      decide +kernel
    rintro (h | h | h | ⟨e, he⟩ | h)
    · exact absurd h (by rw [Bool.not_eq_true]; exact hnone.1)
    · exact absurd h (by rw [Bool.not_eq_true]; exact hnone.2.1)
    · exact absurd h (by rw [Bool.not_eq_true]; exact hnone.2.2.1)
    · cases he
    · exact absurd h (by rw [Bool.not_eq_true]; exact hnone.2.2.2)
  exact (@bootstrap_outcome plainHashpw 10 11 rootActor (acmeData "Correct1-Horse2") seeded
    plainHashpw_bcrypt hactor hsuper).2.1 hrefused ⟨hpassword, huser, hrole⟩

/-- The long password leaves a tenant and a role without a user. -/
theorem long_password_strands_tenant :
    validateStrongPassword Char.isDigit longPassword = true ∧
      (bootstrapAcme longPassword).1 = .error .valueError ∧
      (bootstrapAcme longPassword).2.1.tenants.rows.length = seeded.tenants.rows.length + 1 ∧
      (bootstrapAcme longPassword).2.1.roles.rows.length = seeded.roles.rows.length + 1 ∧
      (bootstrapAcme longPassword).2.1.users.rows.length = seeded.users.rows.length ∧
      ¬ AllOrNothing seeded (bootstrapAcme longPassword) := by
  have hfacts : validateStrongPassword Char.isDigit longPassword = true ∧
      (bootstrapAcme longPassword).1 = .error .valueError ∧
      (bootstrapAcme longPassword).2.1.tenants.rows.length = seeded.tenants.rows.length + 1 ∧
      (bootstrapAcme longPassword).2.1.roles.rows.length = seeded.roles.rows.length + 1 ∧
      (bootstrapAcme longPassword).2.1.users.rows.length = seeded.users.rows.length := by
    decide +kernel
  obtain ⟨hvalid, hraises, htenants, hroles, husers⟩ := hfacts
  refine ⟨hvalid, hraises, htenants, hroles, husers, ?_⟩
  intro h
  rw [(h.nothing .valueError hraises).tenants] at htenants
  omega

end FastapiTemplate.Bootstrap
