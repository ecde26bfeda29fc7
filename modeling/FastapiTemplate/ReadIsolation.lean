import FastapiTemplate.RoleMembership

/-!
What the reads of a tenant's user depend on. Two states agree for a tenant when
they hold the same catalogue, the same row, users and roles of the tenant, the
same global roles, and the same links between these. The reads that filter or
check by tenant answer alike in both. The two that follow the delegation links
do not check where a link leads: they answer alike when no link leads to a role
of another tenant.
-/
namespace FastapiTemplate

open Library.KeyedTable Library.Committing

/-! ### The order of the rows -/

/-- Roles and permissions come in the order of their serial identifiers. -/
structure Tables.Serial (t : Tables) : Prop where
  roles : t.roles.AscendingBelow t.rolesIdSeq
  permissions : t.permissions.AscendingBelow t.permissionsIdSeq

theorem Tables.Serial.change {t : Tables} (h : t.Serial) (c : Change) : (c.apply t).Serial := by
  have hroles : t.rolesIdSeq < t.rolesIdSeq + 1 := Int.lt_succ _
  have hpermissions : t.permissionsIdSeq < t.permissionsIdSeq + 1 := Int.lt_succ _
  cases c with
  | createRole name tenantId permissions mask =>
    exact ⟨h.roles.insertD rfl hroles, h.permissions⟩
  | createRootTenantRole tenantId allowed => exact ⟨h.roles.insertD rfl hroles, h.permissions⟩
  | syncRootTenantRole tenantId allowed =>
    rw [Change.apply]
    split
    · exact h
    · exact ⟨h.roles.update _ _ (by intro _; rfl), h.permissions⟩
  | updateRole role data => exact ⟨h.roles.update _ _ (by intro _; rfl), h.permissions⟩
  | deleteRole role => exact ⟨h.roles.delete _, h.permissions⟩
  | addPermission role permission => exact ⟨h.roles.update _ _ (by intro _; rfl), h.permissions⟩
  | removePermission role permission => exact ⟨h.roles.update _ _ (by intro _; rfl), h.permissions⟩
  | createWithBit name bitPosition =>
    exact ⟨h.roles, h.permissions.insertD rfl hpermissions⟩
  | _ => exact ⟨h.roles, h.permissions⟩

theorem Reachable.serial {db : Db} (h : Reachable db) : db.toTables.Serial := by
  refine h.invariant (I := fun db => db.toTables.Serial) ?_ ?_
  · have hrows : FastapiTemplate.synced.roles.rows = [] ∧
        FastapiTemplate.synced.permissions.rows.Pairwise (fun a b => a.id < b.id) ∧
        ∀ p ∈ FastapiTemplate.synced.permissions.rows,
          p.id < FastapiTemplate.synced.permissionsIdSeq := by
      decide +kernel
    obtain ⟨hnone, hsorted, hbelow⟩ := hrows
    refine ⟨⟨?_, ?_⟩, hsorted, hbelow⟩
    · rw [hnone]
      exact List.Pairwise.nil
    · rw [hnone]
      exact fun _ hr => absurd hr List.not_mem_nil
  · intro c db db' es _ hcommit hs
    obtain ⟨tokens, ht⟩ := Change.commits_apply hcommit
    rw [ht]
    exact ⟨(hs.change c).roles, (hs.change c).permissions⟩

/-! ### Agreement -/

/-- The states hold the same data for the tenant. What belongs to other tenants
may differ, and so may the links to their roles. -/
structure Agree (tenantId : Uuid) (t t' : Tables) : Prop where
  permissions : ∀ p, p ∈ t'.permissions.rows ↔ p ∈ t.permissions.rows
  tenant : t'.tenants.get tenantId = t.tenants.get tenantId
  users : ∀ u : User, u.tenantId = some tenantId → (u ∈ t'.users.rows ↔ u ∈ t.users.rows)
  held : ∀ u ∈ t.users.rows, u.tenantId = some tenantId → ∀ roleId,
    (u.id, roleId) ∈ t'.userRoles ↔ (u.id, roleId) ∈ t.userRoles
  direct : ∀ u ∈ t.users.rows, u.tenantId = some tenantId → ∀ permissionId,
    (u.id, permissionId) ∈ t'.userPermissions ↔ (u.id, permissionId) ∈ t.userPermissions
  roles : ∀ r : Role, InScope (some tenantId) r → (r ∈ t'.roles.rows ↔ r ∈ t.roles.rows)
  attached : ∀ r ∈ t.roles.rows, InScope (some tenantId) r → ∀ permissionId,
    (r.id, permissionId) ∈ t'.rolePermissions ↔ (r.id, permissionId) ∈ t.rolePermissions
  grantablePermission : ∀ r ∈ t.roles.rows, InScope (some tenantId) r → ∀ permissionId,
    (r.id, permissionId) ∈ t'.roleGrantablePermissions ↔
      (r.id, permissionId) ∈ t.roleGrantablePermissions
  grantableRole : ∀ r ∈ t.roles.rows, InScope (some tenantId) r → ∀ g ∈ t.roles.rows,
    InScope (some tenantId) g →
      ((r.id, g.id) ∈ t'.roleGrantableRoles ↔ (r.id, g.id) ∈ t.roleGrantableRoles)

/-- The users of the tenant hold only global roles and its own. -/
def Tables.TenantHolds (t : Tables) (tenantId : Uuid) : Prop :=
  ∀ u ∈ t.users.rows, u.tenantId = some tenantId → ∀ r ∈ t.roles.rows,
    (u.id, r.id) ∈ t.userRoles → InScope (some tenantId) r

instance (tenantId : Option Uuid) (r : Role) : Decidable (InScope tenantId r) := by
  unfold InScope
  infer_instance

section Agree

variable {tenantId : Uuid} {t t' : Tables}

theorem Agree.permission_rows (h : Agree tenantId t t') (hserial : t.Serial)
    (hserial' : t'.Serial) : t'.permissions.rows = t.permissions.rows := by
  have hall := hserial.permissions.filter_eq hserial'.permissions (p := fun _ => true)
    (fun p _ => h.permissions p)
  rwa [List.filter_true, List.filter_true] at hall

/-- Roles that are picked by a test that only visible ones pass. -/
theorem Agree.filter_roles (h : Agree tenantId t t') (hserial : t.Serial) (hserial' : t'.Serial)
    {p p' : Role → Bool} (hp : ∀ r ∈ t.roles.rows, p r = true → InScope (some tenantId) r)
    (hp' : ∀ r ∈ t'.roles.rows, p' r = true → InScope (some tenantId) r)
    (hsame : ∀ r ∈ t.roles.rows, InScope (some tenantId) r → p' r = p r) :
    t'.roles.rows.filter p' = t.roles.rows.filter p := by
  have hvisible : ∀ (s : Tables) (q : Role → Bool),
      (∀ r ∈ s.roles.rows, q r = true → InScope (some tenantId) r) →
      s.roles.rows.filter q =
        (s.roles.rows.filter (fun r => InScope (some tenantId) r)).filter q := by
    intro s q hq
    rw [List.filter_filter]
    refine List.filter_congr ?_
    intro r hr
    by_cases hqr : q r = true
    · simp [hqr, hq r hr hqr]
    · simp [hqr]
  rw [hvisible t p hp, hvisible t' p' hp',
    hserial.roles.filter_eq hserial'.roles (fun r hr => h.roles r (of_decide_eq_true hr))]
  refine List.filter_congr ?_
  intro r hr
  obtain ⟨hmem, hscope⟩ := List.mem_filter.mp hr
  exact hsame r hmem (of_decide_eq_true hscope)

theorem Agree.loadRole_eq (h : Agree tenantId t t') (hserial : t.Serial) (hserial' : t'.Serial)
    {r : Role} (hr : r ∈ t.roles.rows) (hscope : InScope (some tenantId) r) :
    t'.loadRole r = t.loadRole r := by
  rw [Tables.loadRole, Tables.loadRole, Tables.permissionsOf, Tables.permissionsOf,
    h.permission_rows hserial hserial']
  congr 1
  refine List.filter_congr ?_
  intro p _
  rw [decide_eq_decide]
  exact h.attached r hr hscope p.id

theorem Agree.loadRoles_eq (h : Agree tenantId t t') (hserial : t.Serial) (hserial' : t'.Serial)
    {roles : List Role} (hroles : ∀ r ∈ roles, r ∈ t.roles.rows ∧ InScope (some tenantId) r) :
    roles.map t'.loadRole = roles.map t.loadRole := by
  refine List.map_congr_left ?_
  intro r hr
  exact h.loadRole_eq hserial hserial' (hroles r hr).1 (hroles r hr).2

/-- The roles that a user of the tenant holds. -/
theorem Agree.held_rows (h : Agree tenantId t t') (hserial : t.Serial) (hserial' : t'.Serial)
    (hholds : t.TenantHolds tenantId) (hfk : ∀ x ∈ t.userRoles, (t.roles.get x.2).isSome)
    {u : User} (hu : u ∈ t.users.rows) (htenant : u.tenantId = some tenantId) :
    t'.roles.rows.filter (fun r => (u.id, r.id) ∈ t'.userRoles) =
      t.roles.rows.filter (fun r => (u.id, r.id) ∈ t.userRoles) := by
  refine h.filter_roles hserial hserial' ?_ ?_ ?_
  · intro r hr hheld
    exact hholds u hu htenant r hr (of_decide_eq_true hheld)
  · intro r' hr' hheld
    -- the row behind the identifier is visible in `t`, so it is the one of `t'`
    have hheld := (h.held u hu htenant r'.id).mp (of_decide_eq_true hheld)
    obtain ⟨r, hr⟩ := Option.isSome_iff_exists.mp (hfk _ hheld)
    have hid : r.id = r'.id := Table.key_of_get hr
    have hscope := hholds u hu htenant r (Table.mem_of_get hr) (by rw [hid]; exact hheld)
    have hmem := (h.roles r hscope).mpr (Table.mem_of_get hr)
    rw [← Table.eq_of_get hmem hid (Table.get_of_mem hr')]
    exact hscope
  · intro r _ _
    rw [decide_eq_decide]
    exact h.held u hu htenant r.id

theorem Agree.loadUser_eq (h : Agree tenantId t t') (hserial : t.Serial) (hserial' : t'.Serial)
    (hholds : t.TenantHolds tenantId) (hfk : ∀ x ∈ t.userRoles, (t.roles.get x.2).isSome)
    {u : User} (hu : u ∈ t.users.rows) (htenant : u.tenantId = some tenantId) :
    t'.loadUser u = t.loadUser u := by
  have hroles : t'.rolesOf u.id = t.rolesOf u.id := by
    rw [Tables.rolesOf, Tables.rolesOf, h.held_rows hserial hserial' hholds hfk hu htenant]
    refine h.loadRoles_eq hserial hserial' ?_
    intro r hr
    obtain ⟨hmem, hheld⟩ := List.mem_filter.mp hr
    exact ⟨hmem, hholds u hu htenant r hmem (of_decide_eq_true hheld)⟩
  have hdirect : t'.directPermissions u.id = t.directPermissions u.id := by
    rw [Tables.directPermissions, Tables.directPermissions, h.permission_rows hserial hserial']
    refine List.filter_congr ?_
    intro p _
    rw [decide_eq_decide]
    exact h.direct u hu htenant p.id
  rw [Tables.loadUser, Tables.loadUser, hroles, hdirect, htenant]
  change LoadedUser.mk u _ _ (t'.tenants.get tenantId) = LoadedUser.mk u _ _ (t.tenants.get tenantId)
  rw [h.tenant]

/-- Both states show the role, and the same one, or neither does. -/
theorem Agree.role_cases (h : Agree tenantId t t') (roleId : RoleId) :
    (∃ r, t.roles.get roleId = some r ∧ t'.roles.get roleId = some r ∧
        InScope (some tenantId) r) ∨
      (∀ r, t.roles.get roleId = some r → ¬ InScope (some tenantId) r) ∧
        ∀ r, t'.roles.get roleId = some r → ¬ InScope (some tenantId) r := by
  by_cases hvisible : ∃ r, t.roles.get roleId = some r ∧ InScope (some tenantId) r
  · obtain ⟨r, hr, hscope⟩ := hvisible
    obtain rfl := Table.key_of_get hr
    exact Or.inl ⟨r, hr, Table.get_of_mem ((h.roles r hscope).mpr (Table.mem_of_get hr)), hscope⟩
  · refine Or.inr ⟨fun r hr hscope => hvisible ⟨r, hr, hscope⟩, ?_⟩
    intro r hr hscope
    obtain rfl := Table.key_of_get hr
    have hmem := (h.roles r hscope).mp (Table.mem_of_get hr)
    exact hvisible ⟨r, Table.get_of_mem hmem, hscope⟩

theorem Agree.user_cases (h : Agree tenantId t t') (userId : Uuid) :
    (∃ u, t.users.get userId = some u ∧ t'.users.get userId = some u ∧
        u.tenantId = some tenantId) ∨
      (∀ u, t.users.get userId = some u → u.tenantId ≠ some tenantId) ∧
        ∀ u, t'.users.get userId = some u → u.tenantId ≠ some tenantId := by
  by_cases hvisible : ∃ u, t.users.get userId = some u ∧ u.tenantId = some tenantId
  · obtain ⟨u, hu, htenant⟩ := hvisible
    obtain rfl := Table.key_of_get hu
    exact Or.inl ⟨u, hu, Table.get_of_mem ((h.users u htenant).mpr (Table.mem_of_get hu)), htenant⟩
  · refine Or.inr ⟨fun u hu htenant => hvisible ⟨u, hu, htenant⟩, ?_⟩
    intro u hu htenant
    obtain rfl := Table.key_of_get hu
    have hmem := (h.users u htenant).mp (Table.mem_of_get hu)
    exact hvisible ⟨u, Table.get_of_mem hmem, htenant⟩

theorem Agree.roles_page_eq (h : Agree tenantId t t') (hserial : t.Serial) (hserial' : t'.Serial)
    (skip limit : ℕ) :
    RoleRepository.listByTenant t' (some tenantId) skip limit =
      RoleRepository.listByTenant t (some tenantId) skip limit := by
  have hrows : t'.roles.rows.filter (fun r => r.tenantId = none ∨ r.tenantId = some tenantId) =
      t.roles.rows.filter (fun r => r.tenantId = none ∨ r.tenantId = some tenantId) :=
    h.filter_roles hserial hserial' (fun _ _ hr => of_decide_eq_true hr)
      (fun _ _ hr => of_decide_eq_true hr) (fun _ _ _ => rfl)
  rw [RoleRepository.listByTenant, RoleRepository.listByTenant, hrows]
  refine h.loadRoles_eq hserial hserial' ?_
  intro r hr
  obtain ⟨hmem, hscope⟩ := List.mem_filter.mp (List.mem_of_mem_drop (List.mem_of_mem_take hr))
  exact ⟨hmem, of_decide_eq_true hscope⟩

theorem Agree.users_perm (h : Agree tenantId t t') :
    (UserRepository.usersOf t' (some tenantId)).Perm (UserRepository.usersOf t (some tenantId)) := by
  have hnodup : ∀ s : Tables, (UserRepository.usersOf s (some tenantId)).Nodup :=
    fun s => (List.Nodup.of_map User.id s.users.nodup).filter _
  rw [List.perm_ext_iff_of_nodup (hnodup t') (hnodup t)]
  intro u
  rw [UserRepository.usersOf, UserRepository.usersOf, List.mem_filter, List.mem_filter]
  exact and_congr_left (fun htenant => h.users u (of_decide_eq_true htenant))

/-- Usernames are unique, so a list of users has one order by username. -/
theorem sorted_users_eq {users users' : List User} (hperm : users'.Perm users)
    (hunique : (users.map User.username).Nodup) :
    users'.mergeSort (fun a b => a.username ≤ b.username) =
      users.mergeSort (fun a b => a.username ≤ b.username) := by
  have hsorted : ∀ l : List User, (l.mergeSort (fun a b => a.username ≤ b.username)).Pairwise
      (fun a b => decide (a.username ≤ b.username) = true) := by
    intro l
    refine List.pairwise_mergeSort ?_ ?_ l
    · intro a b c hab hbc
      exact decide_eq_true ((of_decide_eq_true hab).trans (of_decide_eq_true hbc))
    · intro a b
      rw [Bool.or_eq_true, decide_eq_true_iff, decide_eq_true_iff]
      exact le_total a.username b.username
  have hsame := ((List.mergeSort_perm users' (fun a b => a.username ≤ b.username)).trans
    hperm).trans (List.mergeSort_perm users (fun a b => a.username ≤ b.username)).symm
  refine hsame.eq_of_pairwise ?_ (hsorted users') (hsorted users)
  intro a b ha hb hab hba
  have ha' : a ∈ users := hperm.subset (List.mem_mergeSort.mp ha)
  exact List.inj_on_of_nodup_map hunique ha' (List.mem_mergeSort.mp hb)
    (le_antisymm (of_decide_eq_true hab) (of_decide_eq_true hba))

theorem Agree.users_page_eq (h : Agree tenantId t t') (hserial : t.Serial) (hserial' : t'.Serial)
    (hholds : t.TenantHolds tenantId) (hconstraints : t.Constraints) (skip limit : ℕ) :
    UserRepository.listByTenant t' (some tenantId) skip limit =
      UserRepository.listByTenant t (some tenantId) skip limit := by
  have hunique : ((UserRepository.usersOf t (some tenantId)).map User.username).Nodup :=
    (List.filter_sublist.map User.username).nodup hconstraints.username
  rw [UserRepository.listByTenant, UserRepository.listByTenant, UserRepository.page,
    UserRepository.page, sorted_users_eq h.users_perm hunique]
  refine List.map_congr_left ?_
  intro u hu
  have hmem := List.mem_mergeSort.mp (List.mem_of_mem_drop (List.mem_of_mem_take hu))
  obtain ⟨hrow, htenant⟩ := List.mem_filter.mp hmem
  rw [UserRepository.listed, UserRepository.listed, h.held_rows hserial hserial' hholds
    (fun x hx => (hconstraints.userRole x hx).2) hrow (of_decide_eq_true htenant)]

end Agree

/-! ### The reads -/

inductive Read
  | getRole (roleId : RoleId)
  | getAllRoles (skip limit : ℕ)
  | getRoleGrants (roleId : RoleId)
  | getUserDetail (userId : Uuid)
  | listUsers (skip limit : ℕ) (filterTenantId : Option Uuid)
  | countUsers (filterTenantId : Option Uuid)
  | getGrants

/-- What a read returns. -/
inductive Answer
  | role (role : LoadedRole)
  | roles (roles : List LoadedRole)
  | roleGrants (grants : List String × List String)
  | userDetail (detail : LoadedUser × List String)
  | users (users : List UserRepository.ListedUser)
  | count (count : ℕ)
  | grants (grants : List String × List LoadedRole × List Permission)

def Read.run (actor : LoadedUser) : Read → Service Answer
  | getRole roleId => do
    let role ← RoleService.getRole roleId actor.scope
    return .role role
  | getAllRoles skip limit => do
    let roles ← RoleService.getAllRoles actor.scope skip limit
    return .roles roles
  | getRoleGrants roleId => do
    let grants ← RoleService.getRoleGrants roleId actor.scope
    return .roleGrants grants
  | getUserDetail userId => do
    let detail ← UserManagementService.getUserDetail actor.scope userId
    return .userDetail detail
  | listUsers skip limit filterTenantId => do
    let users ← UserManagementService.listUsers actor.scope skip limit filterTenantId
    return .users users
  | countUsers filterTenantId => do
    let count ← UserManagementService.countUsers actor.scope filterTenantId
    return .count count
  | getGrants => do
    let grants ← UserManagementService.getGrants actor
    return .grants grants

/-- `get_current_user`, then the read. -/
def readRequest (actorId : Uuid) (read : Read) : Service Answer := do
  let found ← query (UserRepository.getByIdWithGrants · actorId)
  let actor ← Action.require found (.userNotFound actorId.str)
  read.run actor

/-- The links that the read follows lead to global roles and to roles of the
actor's tenant. -/
def Read.Contained (actor : User) (t : Tables) : Read → Prop
  | getRoleGrants roleId => ∀ r ∈ t.roles.rows, r.id = roleId → InScope actor.tenantId r →
    ∀ g ∈ t.roles.rows, (r.id, g.id) ∈ t.roleGrantableRoles → InScope actor.tenantId g
  | getGrants => ∀ r ∈ t.roles.rows, (actor.id, r.id) ∈ t.userRoles →
    ∀ g ∈ t.roles.rows, (r.id, g.id) ∈ t.roleGrantableRoles → InScope actor.tenantId g
  | _ => True

/-! ### The delegation links -/

section Links

variable {tenantId : Uuid} {t t' : Tables} {roleIds : List RoleId}

/-- The roles that the links of some roles lead to. -/
def Tables.reached (t : Tables) (roleIds : List RoleId) : List Role :=
  t.roles.rows.filter (fun g => g.id ∈ RoleRepository.getGrantableRoleIds t roleIds)

theorem Tables.mem_grantableRoleIds {t : Tables} {roleIds : List RoleId} {grantableId : RoleId} :
    grantableId ∈ RoleRepository.getGrantableRoleIds t roleIds ↔
      ∃ roleId ∈ roleIds, (roleId, grantableId) ∈ t.roleGrantableRoles := by
  simp only [RoleRepository.getGrantableRoleIds, Finset.mem_image, Finset.mem_filter, Prod.exists,
    exists_eq_right]
  exact exists_congr fun _ => and_comm

/-- All that the links of the roles lead to is visible. -/
def Tables.Reaches (t : Tables) (tenantId : Uuid) (roleIds : List RoleId) : Prop :=
  ∀ g ∈ t.reached roleIds, InScope (some tenantId) g

/-- The roles are rows that the tenant sees. -/
def Tables.Visible (t : Tables) (tenantId : Uuid) (roleIds : List RoleId) : Prop :=
  ∀ roleId ∈ roleIds, ∃ r ∈ t.roles.rows, r.id = roleId ∧ InScope (some tenantId) r

theorem Agree.grantable_iff (h : Agree tenantId t t') (hvisible : t.Visible tenantId roleIds)
    {g : Role} (hg : g ∈ t.roles.rows) (hscope : InScope (some tenantId) g) :
    g.id ∈ RoleRepository.getGrantableRoleIds t' roleIds ↔
      g.id ∈ RoleRepository.getGrantableRoleIds t roleIds := by
  rw [Tables.mem_grantableRoleIds, Tables.mem_grantableRoleIds]
  refine exists_congr fun roleId => and_congr_right fun hmem => ?_
  obtain ⟨r, hr, rfl, hrscope⟩ := hvisible roleId hmem
  exact h.grantableRole r hr hrscope g hg hscope

/-- The visible part of what the links lead to is the same. -/
theorem Agree.reached_visible (h : Agree tenantId t t') (hserial : t.Serial)
    (hserial' : t'.Serial) (hvisible : t.Visible tenantId roleIds) :
    (t'.reached roleIds).filter (fun g => InScope (some tenantId) g) =
      (t.reached roleIds).filter (fun g => InScope (some tenantId) g) := by
  rw [Tables.reached, Tables.reached, List.filter_filter, List.filter_filter]
  refine h.filter_roles hserial hserial' ?_ ?_ ?_
  · intro r _ hr
    exact of_decide_eq_true (Bool.and_eq_true_iff.mp hr).1
  · intro r _ hr
    exact of_decide_eq_true (Bool.and_eq_true_iff.mp hr).1
  · intro r hr hscope
    have hiff := h.grantable_iff hvisible hr hscope
    rw [decide_eq_decide.mpr hiff]

/-- As many roles are reached as in a state without links to other tenants just
when there are none here. -/
theorem Agree.reached_length_iff (h : Agree tenantId t t') (hserial : t.Serial)
    (hserial' : t'.Serial) (hvisible : t.Visible tenantId roleIds)
    (hcontained : t'.Reaches tenantId roleIds) :
    (t'.reached roleIds).length = (t.reached roleIds).length ↔ t.Reaches tenantId roleIds := by
  have hall : (t'.reached roleIds).filter (fun g => InScope (some tenantId) g) =
      t'.reached roleIds := by
    rw [List.filter_eq_self]
    exact fun g hg => decide_eq_true (hcontained g hg)
  rw [← hall, h.reached_visible hserial hserial' hvisible, List.length_filter_eq_length_iff]
  exact forall₂_congr fun g _ => decide_eq_true_iff

/-- Without links to other tenants the same roles are reached. -/
theorem Agree.reached_eq (h : Agree tenantId t t') (hserial : t.Serial) (hserial' : t'.Serial)
    (hvisible : t.Visible tenantId roleIds) (hcontained : t.Reaches tenantId roleIds)
    (hcontained' : t'.Reaches tenantId roleIds) : t'.reached roleIds = t.reached roleIds := by
  have hall : ∀ s : Tables, s.Reaches tenantId roleIds →
      (s.reached roleIds).filter (fun g => InScope (some tenantId) g) = s.reached roleIds := by
    intro s hs
    rw [List.filter_eq_self]
    exact fun g hg => decide_eq_true (hs g hg)
  rw [← hall t' hcontained', ← hall t hcontained, h.reached_visible hserial hserial' hvisible]

theorem Agree.grantablePermissions_eq (h : Agree tenantId t t') (hserial : t.Serial)
    (hserial' : t'.Serial) (hvisible : t.Visible tenantId roleIds) :
    PermissionRepository.getByIds t' (RoleRepository.getGrantablePermissionIds t' roleIds) =
      PermissionRepository.getByIds t (RoleRepository.getGrantablePermissionIds t roleIds) := by
  have hids : RoleRepository.getGrantablePermissionIds t' roleIds =
      RoleRepository.getGrantablePermissionIds t roleIds := by
    ext permissionId
    simp only [RoleRepository.getGrantablePermissionIds, Finset.mem_image, Finset.mem_filter,
      Prod.exists, exists_eq_right]
    refine exists_congr fun roleId => and_congr_left fun hmem => ?_
    obtain ⟨r, hr, rfl, hscope⟩ := hvisible roleId hmem
    exact h.grantablePermission r hr hscope permissionId
  rw [PermissionRepository.getByIds, PermissionRepository.getByIds, hids,
    h.permission_rows hserial hserial']

end Links

/-! ### What each read returns -/

section Run

variable {tenantId : Uuid} {db db' : Db} {actor : LoadedUser} {β : Type}

theorem query_bind_apply {α : Type} (g : Tables → α) (f : α → Service β) (db : Db) :
    (query g >>= f) db = f (g db.toTables) db := by
  rw [query, Action.read_bind_apply]

theorem readRequest_apply {u : User} (hu : db.users.get u.id = some u) (read : Read) :
    readRequest u.id read db = read.run (db.toTables.loadUser u) db := by
  rw [readRequest, query_bind_apply, UserRepository.getByIdWithGrants, hu, Option.map_some,
    Action.require_some_bind]

/-- A role out of sight is not found, whether there is one or not. -/
theorem getRole_hidden {roleId : RoleId} (hsuper : actor.isSuperuser = false)
    (hhidden : ∀ r, db.roles.get roleId = some r → ¬ InScope actor.tenantId r) :
    RoleService.getRole roleId actor.scope db = (.error (.roleNotFound roleId), db, []) := by
  rw [RoleService.getRole, query_bind_apply, RoleRepository.getById]
  rcases hr : db.roles.get roleId with _ | r
  · rfl
  · have hscope : ¬ ((db.toTables.loadRole r).tenantId = none ∨
        (db.toTables.loadRole r).tenantId = actor.tenantId) := hhidden r hr
    have hid : (db.toTables.loadRole r).id = roleId := Table.key_of_get hr
    have hcheck : RoleService.ensureRoleInScope (db.toTables.loadRole r) actor.scope db =
        (.error (.roleNotFound roleId), db, []) := by
      rw [RoleService.ensureRoleInScope, LoadedUser.scope, hsuper, RoleService.unlessSuperuser,
        if_neg Bool.false_ne_true, Action.ensure, if_neg hscope, hid]
      rfl
    rw [Option.map_some, Action.require_some_bind]
    exact Action.bind_apply_error hcheck

theorem getRole_visible {roleId : RoleId} {r : Role} (hr : db.roles.get roleId = some r)
    (hscope : InScope actor.tenantId r) :
    RoleService.getRole roleId actor.scope db = (.ok (db.toTables.loadRole r), db, []) := by
  have hscope' : (db.toTables.loadRole r).tenantId = none ∨
      (db.toTables.loadRole r).tenantId = actor.tenantId := hscope
  rw [RoleService.getRole, query_bind_apply, RoleRepository.getById, hr, Option.map_some,
    Action.require_some_bind]
  have hcheck : RoleService.ensureRoleInScope (db.toTables.loadRole r) actor.scope db =
      (.ok (), db, []) := by
    rw [RoleService.ensureRoleInScope, LoadedUser.scope, RoleService.unlessSuperuser,
      Action.ensure, if_pos hscope']
    split <;> rfl
  exact Action.bind_apply_ok hcheck

theorem run_getRole_hidden {roleId : RoleId} (hsuper : actor.isSuperuser = false)
    (hhidden : ∀ r, db.roles.get roleId = some r → ¬ InScope actor.tenantId r) :
    (Read.getRole roleId).run actor db = (.error (.roleNotFound roleId), db, []) :=
  Action.bind_apply_error (getRole_hidden hsuper hhidden)

theorem run_getRole_visible {roleId : RoleId} {r : Role} (hr : db.roles.get roleId = some r)
    (hscope : InScope actor.tenantId r) :
    (Read.getRole roleId).run actor db = (.ok (.role (db.toTables.loadRole r)), db, []) :=
  Action.bind_apply_ok (getRole_visible hr hscope)

theorem run_getRoleGrants_hidden {roleId : RoleId} (hsuper : actor.isSuperuser = false)
    (hhidden : ∀ r, db.roles.get roleId = some r → ¬ InScope actor.tenantId r) :
    (Read.getRoleGrants roleId).run actor db = (.error (.roleNotFound roleId), db, []) := by
  have hgrants : RoleService.getRoleGrants roleId actor.scope db =
      (.error (.roleNotFound roleId), db, []) :=
    Action.bind_apply_error (getRole_hidden hsuper hhidden)
  exact Action.bind_apply_error hgrants

theorem run_getRoleGrants {roleId : RoleId} {r : Role} (hr : db.roles.get roleId = some r)
    (hscope : InScope actor.tenantId r) :
    (Read.getRoleGrants roleId).run actor db = (.ok (.roleGrants
      (((db.toTables.reached [roleId]).map db.toTables.loadRole).map (fun r => r.name),
        (PermissionRepository.getByIds db.toTables
          (RoleRepository.getGrantablePermissionIds db.toTables [roleId])).map Permission.name)),
      db, []) := by
  have hgrants : RoleService.getRoleGrants roleId actor.scope db = (.ok
      (((db.toTables.reached [roleId]).map db.toTables.loadRole).map (fun r => r.name),
        (PermissionRepository.getByIds db.toTables
          (RoleRepository.getGrantablePermissionIds db.toTables [roleId])).map Permission.name),
      db, []) :=
    Action.bind_apply_ok (getRole_visible hr hscope)
  exact Action.bind_apply_ok hgrants

theorem run_getGrants (hsuper : actor.isSuperuser = false) :
    Read.getGrants.run actor db = (.ok (.grants ((effectivePermissions actor).sort (· ≤ ·),
      (db.toTables.reached actor.roleIds).map db.toTables.loadRole,
      PermissionRepository.getByIds db.toTables
        (RoleRepository.getGrantablePermissionIds db.toTables actor.roleIds))), db, []) := by
  have hgrants : UserManagementService.getGrants actor db =
      (.ok ((effectivePermissions actor).sort (· ≤ ·),
        (db.toTables.reached actor.roleIds).map db.toTables.loadRole,
        PermissionRepository.getByIds db.toTables
          (RoleRepository.getGrantablePermissionIds db.toTables actor.roleIds)), db, []) := by
    rw [UserManagementService.getGrants, hsuper]
    rfl
  exact Action.bind_apply_ok hgrants

theorem run_getAllRoles (hsuper : actor.isSuperuser = false) (skip limit : ℕ) :
    (Read.getAllRoles skip limit).run actor db =
      (.ok (.roles (RoleRepository.listByTenant db.toTables actor.tenantId skip limit)), db, []) := by
  have hroles : RoleService.getAllRoles actor.scope skip limit db =
      (.ok (RoleRepository.listByTenant db.toTables actor.tenantId skip limit), db, []) := by
    rw [RoleService.getAllRoles, LoadedUser.scope, hsuper]
    rfl
  exact Action.bind_apply_ok hroles

theorem run_listUsers (hsuper : actor.isSuperuser = false) (skip limit : ℕ)
    (filterTenantId : Option Uuid) :
    (Read.listUsers skip limit filterTenantId).run actor db =
      (.ok (.users (UserRepository.listByTenant db.toTables actor.tenantId skip limit)),
        db, []) := by
  have husers : UserManagementService.listUsers actor.scope skip limit filterTenantId db =
      (.ok (UserRepository.listByTenant db.toTables actor.tenantId skip limit), db, []) := by
    have hscope : actor.scope.isSuperuser = false := hsuper
    unfold UserManagementService.listUsers
    rw [hscope]
    rfl
  exact Action.bind_apply_ok husers

theorem run_countUsers (hsuper : actor.isSuperuser = false) (filterTenantId : Option Uuid) :
    (Read.countUsers filterTenantId).run actor db =
      (.ok (.count (UserRepository.countByTenant db.toTables actor.tenantId)), db, []) := by
  have hcount : UserManagementService.countUsers actor.scope filterTenantId db =
      (.ok (UserRepository.countByTenant db.toTables actor.tenantId), db, []) := by
    have hscope : actor.scope.isSuperuser = false := hsuper
    unfold UserManagementService.countUsers
    rw [hscope]
    rfl
  exact Action.bind_apply_ok hcount

/-- A user of another tenant is not found, like one who does not exist. -/
theorem run_getUserDetail_hidden {userId : Uuid} (hsuper : actor.isSuperuser = false)
    (hhidden : ∀ u, db.users.get userId = some u → u.tenantId ≠ actor.tenantId) :
    (Read.getUserDetail userId).run actor db =
      (.error (.userNotFound userId.str), db, []) := by
  have hdetail : UserManagementService.getUserDetail actor.scope userId db =
      (.error (.userNotFound userId.str), db, []) := by
    rw [UserManagementService.getUserDetail, UserManagementService.getUser, bind_assoc,
      query_bind_apply, UserRepository.getByIdWithGrants]
    rcases hu : db.users.get userId with _ | u
    · rfl
    · obtain rfl := Table.key_of_get hu
      have hcheck : ¬ (actor.scope.isSuperuser = true ∨ u.tenantId = actor.scope.tenantId) := by
        rw [LoadedUser.scope, hsuper]
        exact not_or.mpr ⟨Bool.false_ne_true, hhidden u hu⟩
      have hensure : UserManagementService.ensureSameTenant (db.toTables.loadUser u).toUser
          actor.scope db = (.error (.userNotFound u.id.str), db, []) := by
        rw [Tables.loadUser_toUser, UserManagementService.ensureSameTenant, Action.ensure,
          if_neg hcheck]
        rfl
      rw [Option.map_some, Action.require_some_bind]
      exact Action.bind_apply_error hensure
  exact Action.bind_apply_error hdetail

theorem run_getUserDetail_visible {u : User} (hu : db.users.get u.id = some u)
    (htenant : u.tenantId = actor.tenantId) :
    (Read.getUserDetail u.id).run actor db = (.ok (.userDetail (db.toTables.loadUser u,
      (effectivePermissions (db.toTables.loadUser u)).sort (· ≤ ·))), db, []) := by
  have hdetail : UserManagementService.getUserDetail actor.scope u.id db =
      (.ok (db.toTables.loadUser u,
        (effectivePermissions (db.toTables.loadUser u)).sort (· ≤ ·)), db, []) := by
    rw [UserManagementService.getUserDetail, UserManagementService.getUser, bind_assoc,
      query_bind_apply, UserRepository.getByIdWithGrants, hu, Option.map_some, Action.require_some_bind]
    have hcheck : actor.scope.isSuperuser = true ∨ u.tenantId = actor.scope.tenantId :=
      Or.inr htenant
    have hensure : UserManagementService.ensureSameTenant (db.toTables.loadUser u).toUser
        actor.scope db = (.ok (), db, []) := by
      rw [Tables.loadUser_toUser, UserManagementService.ensureSameTenant, Action.ensure,
        if_pos hcheck]
      rfl
    exact Action.bind_apply_ok hensure
  exact Action.bind_apply_ok hdetail

end Run

/-! ### Two runs of a read -/

section Reads

variable {tenantId : Uuid} {t : Tables} {actor : User}

theorem Tables.reaches_iff {roleIds : List RoleId} :
    t.Reaches tenantId roleIds ↔ ∀ roleId ∈ roleIds, ∀ g ∈ t.roles.rows,
      (roleId, g.id) ∈ t.roleGrantableRoles → InScope (some tenantId) g := by
  simp only [Tables.Reaches, Tables.reached, List.mem_filter, decide_eq_true_iff,
    Tables.mem_grantableRoleIds]
  constructor
  · intro h roleId hmem g hg hlink
    exact h g ⟨hg, roleId, hmem, hlink⟩
  · intro h g hreached
    obtain ⟨hg, roleId, hmem, hlink⟩ := hreached
    exact h roleId hmem g hg hlink

theorem contained_getRoleGrants_iff {r : Role} (hr : r ∈ t.roles.rows)
    (htenant : actor.tenantId = some tenantId) (hscope : InScope (some tenantId) r) :
    (Read.getRoleGrants r.id).Contained actor t ↔ t.Reaches tenantId [r.id] := by
  rw [Tables.reaches_iff, Read.Contained, htenant]
  constructor
  · intro h roleId hmem
    obtain rfl := List.mem_singleton.mp hmem
    exact h r hr rfl hscope
  · intro h r' _ hid _
    rw [hid]
    exact h r.id (List.mem_singleton_self _)

theorem mem_roleIds_iff {roleId : RoleId} :
    roleId ∈ (t.loadUser actor).roleIds ↔
      ∃ r ∈ t.roles.rows, r.id = roleId ∧ (actor.id, r.id) ∈ t.userRoles := by
  simp only [LoadedUser.roleIds, Tables.loadUser, Tables.rolesOf, List.map_map, List.mem_map,
    List.mem_filter, decide_eq_true_iff]
  exact exists_congr fun r =>
    ⟨fun h => ⟨h.1.1, h.2, h.1.2⟩, fun h => ⟨⟨h.1, h.2.2⟩, h.2.1⟩⟩

theorem contained_getGrants_iff (htenant : actor.tenantId = some tenantId) :
    Read.getGrants.Contained actor t ↔ t.Reaches tenantId (t.loadUser actor).roleIds := by
  rw [Tables.reaches_iff, Read.Contained, htenant]
  constructor
  · intro h roleId hmem
    obtain ⟨r, hr, rfl, hheld⟩ := mem_roleIds_iff.mp hmem
    exact h r hr hheld
  · intro h r hr hheld
    exact h r.id (mem_roleIds_iff.mpr ⟨r, hr, rfl, hheld⟩)

variable {db db' : Db} {roleIds : List RoleId}

/-- The loaded roles that the links lead to. -/
theorem Agree.loaded_reached_eq (h : Agree tenantId db.toTables db'.toTables)
    (hserial : db.toTables.Serial) (hserial' : db'.toTables.Serial)
    (hvisible : db.toTables.Visible tenantId roleIds)
    (hcontained : db.toTables.Reaches tenantId roleIds)
    (hcontained' : db'.toTables.Reaches tenantId roleIds) :
    (db'.toTables.reached roleIds).map db'.toTables.loadRole =
      (db.toTables.reached roleIds).map db.toTables.loadRole := by
  rw [h.reached_eq hserial hserial' hvisible hcontained hcontained']
  refine h.loadRoles_eq hserial hserial' ?_
  intro g hg
  exact ⟨(List.mem_filter.mp hg).1, hcontained g hg⟩

/-- Two answers about delegation, by name or with the rows as a whole, are the
same just when the links stay in the tenant's scope. -/
theorem Agree.delegation_eq_iff {β γ : Type} (h : Agree tenantId db.toTables db'.toTables)
    (hserial : db.toTables.Serial) (hserial' : db'.toTables.Serial)
    (hvisible : db.toTables.Visible tenantId roleIds)
    (hcontained' : db'.toTables.Reaches tenantId roleIds) (f : LoadedRole → β)
    (g : Permission → γ) :
    (((db'.toTables.reached roleIds).map db'.toTables.loadRole).map f =
        ((db.toTables.reached roleIds).map db.toTables.loadRole).map f ∧
      (PermissionRepository.getByIds db'.toTables
          (RoleRepository.getGrantablePermissionIds db'.toTables roleIds)).map g =
        (PermissionRepository.getByIds db.toTables
          (RoleRepository.getGrantablePermissionIds db.toTables roleIds)).map g) ↔
      db.toTables.Reaches tenantId roleIds := by
  constructor
  · intro ⟨hroles, _⟩
    have hlength := congrArg List.length hroles
    simp only [List.length_map] at hlength
    exact (h.reached_length_iff hserial hserial' hvisible hcontained').mp hlength
  · intro hcontained
    rw [h.loaded_reached_eq hserial hserial' hvisible hcontained hcontained',
      h.grantablePermissions_eq hserial hserial' hvisible]
    exact ⟨rfl, rfl⟩

/-- In two states that agree for the actor's tenant, a read answers the same,
given that in one of them its links stay in the tenant's scope, exactly when
they do so in the other. -/
theorem reads_agree_iff {read : Read} (hreach : Reachable db) (hreach' : Reachable db')
    (hagree : Agree tenantId db.toTables db'.toTables)
    (hholds : db.toTables.TenantHolds tenantId) (hactor : db.users.get actor.id = some actor)
    (htenant : actor.tenantId = some tenantId) (hsuper : actor.isSuperuser = false)
    (hcontained' : read.Contained actor db'.toTables) :
    (readRequest actor.id read db').1 = (readRequest actor.id read db).1 ↔
      read.Contained actor db.toTables := by
  have hserial := hreach.serial
  have hserial' := hreach'.serial
  have hfk : ∀ x ∈ db.userRoles, (db.roles.get x.2).isSome :=
    fun x hx => (db.constraints.userRole x hx).2
  have hrow := Table.mem_of_get hactor
  have hactor' : db'.users.get actor.id = some actor :=
    Table.get_of_mem ((hagree.users actor htenant).mpr hrow)
  have hload := hagree.loadUser_eq hserial hserial' hholds hfk hrow htenant
  rw [readRequest_apply hactor, readRequest_apply hactor', hload]
  have hsuper' : (db.toTables.loadUser actor).isSuperuser = false := hsuper
  have htenant' : (db.toTables.loadUser actor).tenantId = some tenantId := htenant
  cases read with
  | getRole roleId =>
    refine iff_of_true ?_ trivial
    rcases hagree.role_cases roleId with ⟨r, hr, hr', hscope⟩ | ⟨hhidden, hhidden'⟩
    · have hsame := hagree.loadRole_eq hserial hserial' (Table.mem_of_get hr) hscope
      rw [← htenant'] at hscope
      rw [run_getRole_visible hr hscope, run_getRole_visible hr' hscope, hsame]
    · rw [← htenant'] at hhidden hhidden'
      rw [run_getRole_hidden hsuper' hhidden, run_getRole_hidden hsuper' hhidden']
  | getAllRoles skip limit =>
    refine iff_of_true ?_ trivial
    rw [run_getAllRoles hsuper', run_getAllRoles hsuper', htenant',
      hagree.roles_page_eq hserial hserial']
  | getRoleGrants roleId =>
    rcases hagree.role_cases roleId with ⟨r, hr, hr', hscope⟩ | ⟨hhidden, hhidden'⟩
    · obtain rfl := Table.key_of_get hr
      have hmem := Table.mem_of_get hr
      have hvisible : db.toTables.Visible tenantId [r.id] := by
        intro roleId hroleId
        obtain rfl := List.mem_singleton.mp hroleId
        exact ⟨r, hmem, rfl, hscope⟩
      rw [contained_getRoleGrants_iff (Table.mem_of_get hr') htenant hscope] at hcontained'
      rw [contained_getRoleGrants_iff hmem htenant hscope]
      rw [← htenant'] at hscope
      rw [run_getRoleGrants hr hscope, run_getRoleGrants hr' hscope]
      simp only [Except.ok.injEq, Answer.roleGrants.injEq, Prod.mk.injEq]
      exact hagree.delegation_eq_iff hserial hserial' hvisible hcontained' (fun r => r.name)
        Permission.name
    · have hvacuous : (Read.getRoleGrants roleId).Contained actor db.toTables := by
        intro r hr hid hscope
        rw [htenant] at hscope
        exact absurd hscope (hhidden r (by rw [← hid]; exact Table.get_of_mem hr))
      refine iff_of_true ?_ hvacuous
      rw [← htenant'] at hhidden hhidden'
      rw [run_getRoleGrants_hidden hsuper' hhidden, run_getRoleGrants_hidden hsuper' hhidden']
  | getUserDetail userId =>
    refine iff_of_true ?_ trivial
    rcases hagree.user_cases userId with ⟨u, hu, hu', hutenant⟩ | ⟨hhidden, hhidden'⟩
    · obtain rfl := Table.key_of_get hu
      have hsame : u.tenantId = (db.toTables.loadUser actor).tenantId :=
        hutenant.trans htenant'.symm
      rw [run_getUserDetail_visible hu hsame, run_getUserDetail_visible hu' hsame,
        hagree.loadUser_eq hserial hserial' hholds hfk (Table.mem_of_get hu) hutenant]
    · rw [← htenant'] at hhidden hhidden'
      rw [run_getUserDetail_hidden hsuper' hhidden, run_getUserDetail_hidden hsuper' hhidden']
  | listUsers skip limit filterTenantId =>
    refine iff_of_true ?_ trivial
    rw [run_listUsers hsuper', run_listUsers hsuper', htenant',
      hagree.users_page_eq hserial hserial' hholds db.constraints]
  | countUsers filterTenantId =>
    refine iff_of_true ?_ trivial
    rw [run_countUsers hsuper', run_countUsers hsuper', htenant', UserRepository.countByTenant,
      UserRepository.countByTenant, hagree.users_perm.length_eq]
  | getGrants =>
    have hvisible : db.toTables.Visible tenantId (db.toTables.loadUser actor).roleIds := by
      intro roleId hroleId
      obtain ⟨r, hr, hid, hheld⟩ := mem_roleIds_iff.mp hroleId
      exact ⟨r, hr, hid, hholds actor hrow htenant r hr hheld⟩
    rw [contained_getGrants_iff htenant, hload] at hcontained'
    have hiff := hagree.delegation_eq_iff hserial hserial' hvisible hcontained' id id
    simp only [List.map_id] at hiff
    rw [contained_getGrants_iff htenant, run_getGrants hsuper', run_getGrants hsuper', ← hiff]
    simp only [Except.ok.injEq, Answer.grants.injEq, Prod.mk.injEq, true_and]

end Reads

/-! ### Two states of two tenants -/

theorem mem_iff_of_filter_eq {α β : Type} [DecidableEq α] [DecidableEq β] {s s' : Finset (α × β)}
    {a : α} (h : s'.filter (fun x => x.1 = a) = s.filter (fun x => x.1 = a)) (b : β) :
    (a, b) ∈ s' ↔ (a, b) ∈ s := by
  have hmem := Finset.ext_iff.mp h (a, b)
  simpa only [Finset.mem_filter, and_true] using hmem

/-- Agreement, told by the rows and links that the tenant sees. -/
theorem agree_of_rows {tenantId : Uuid} {t t' : Tables}
    (h : (t'.permissions.rows = t.permissions.rows ∧
        t'.tenants.get tenantId = t.tenants.get tenantId) ∧
      (UserRepository.usersOf t' (some tenantId) = UserRepository.usersOf t (some tenantId) ∧
        ∀ u ∈ UserRepository.usersOf t (some tenantId),
          t'.userRoles.filter (fun x => x.1 = u.id) = t.userRoles.filter (fun x => x.1 = u.id) ∧
            t'.userPermissions.filter (fun x => x.1 = u.id) =
              t.userPermissions.filter (fun x => x.1 = u.id)) ∧
      t'.roles.rows.filter (fun r => InScope (some tenantId) r) =
        t.roles.rows.filter (fun r => InScope (some tenantId) r) ∧
      ∀ r ∈ t.roles.rows.filter (fun r => InScope (some tenantId) r),
        t'.rolePermissions.filter (fun x => x.1 = r.id) =
            t.rolePermissions.filter (fun x => x.1 = r.id) ∧
          t'.roleGrantablePermissions.filter (fun x => x.1 = r.id) =
            t.roleGrantablePermissions.filter (fun x => x.1 = r.id) ∧
          ∀ g ∈ t.roles.rows.filter (fun r => InScope (some tenantId) r),
            ((r.id, g.id) ∈ t'.roleGrantableRoles ↔ (r.id, g.id) ∈ t.roleGrantableRoles)) :
    Agree tenantId t t' := by
  obtain ⟨⟨hpermissions, htenant⟩, ⟨husers, hgrants⟩, hroles, hlinks⟩ := h
  have huser : ∀ u ∈ t.users.rows, u.tenantId = some tenantId →
      u ∈ UserRepository.usersOf t (some tenantId) :=
    fun u hu htenant => List.mem_filter.mpr ⟨hu, decide_eq_true htenant⟩
  have hrole : ∀ r ∈ t.roles.rows, InScope (some tenantId) r →
      r ∈ t.roles.rows.filter (fun r => InScope (some tenantId) r) :=
    fun r hr hscope => List.mem_filter.mpr ⟨hr, decide_eq_true hscope⟩
  refine ⟨?_, htenant, ?_, ?_, ?_, ?_, ?_, ?_, ?_⟩
  · intro p
    rw [hpermissions]
  · intro u hu
    have hmem : u ∈ UserRepository.usersOf t' (some tenantId) ↔
        u ∈ UserRepository.usersOf t (some tenantId) := by
      rw [husers]
    simpa only [UserRepository.usersOf, List.mem_filter, hu, decide_true, and_true] using hmem
  · intro u hu htenant
    exact mem_iff_of_filter_eq (hgrants u (huser u hu htenant)).1
  · intro u hu htenant
    exact mem_iff_of_filter_eq (hgrants u (huser u hu htenant)).2
  · intro r hscope
    have hmem : r ∈ t'.roles.rows.filter (fun r => InScope (some tenantId) r) ↔
        r ∈ t.roles.rows.filter (fun r => InScope (some tenantId) r) := by
      rw [hroles]
    simpa only [List.mem_filter, hscope, decide_true, and_true] using hmem
  · intro r hr hscope
    exact mem_iff_of_filter_eq (hlinks r (hrole r hr hscope)).1
  · intro r hr hscope
    exact mem_iff_of_filter_eq (hlinks r (hrole r hr hscope)).2.1
  · intro r hr hscope g hg hgscope
    exact (hlinks r (hrole r hr hscope)).2.2 g (hrole g hg hgscope)

theorem shared_reachable : Reachable shared := .request _ _ _ sharing_reachable

theorem secretAuthored_reachable : Reachable secretAuthored := .request _ _ _ shared_reachable

/-- The names of the roles in an answer to `getRoleGrants`. -/
def grantedRoleNames : Except Err Answer → List String
  | .ok (.roleGrants grants) => grants.1
  | _ => []

theorem secretAuthored_agrees : Agree 20 shared.toTables secretAuthored.toTables :=
  agree_of_rows (by decide +kernel)

/-- The grants of a role that both tenants hold name a role of the other one. -/
theorem getRoleGrants_leaks :
    Reachable shared ∧ Reachable secretAuthored ∧
      Agree 20 shared.toTables secretAuthored.toTables ∧ shared.toTables.TenantHolds 20 ∧
      shared.users.get carol.id = some carol ∧ carol.tenantId = some 20 ∧
      carol.isSuperuser = false ∧
      (readRequest carol.id (.getRoleGrants 3) secretAuthored).1 ≠
        (readRequest carol.id (.getRoleGrants 3) shared).1 := by
  have hfacts : shared.toTables.TenantHolds 20 ∧ shared.users.get carol.id = some carol ∧
      grantedRoleNames (readRequest carol.id (.getRoleGrants 3) secretAuthored).1 ≠
        grantedRoleNames (readRequest carol.id (.getRoleGrants 3) shared).1 := by
    unfold Tables.TenantHolds
    decide +kernel
  obtain ⟨hholds, hcarol, hnames⟩ := hfacts
  refine ⟨shared_reachable, secretAuthored_reachable, secretAuthored_agrees, hholds, hcarol, rfl,
    rfl, ?_⟩
  intro hsame
  exact hnames (congrArg grantedRoleNames hsame)

theorem shared_agrees : Agree 20 sharing.toTables shared.toTables :=
  agree_of_rows (by decide +kernel)

theorem reads_agree_iff_sharing :
    (readRequest carol.id (.getRoleGrants 3) shared).1 =
        (readRequest carol.id (.getRoleGrants 3) sharing).1 ↔
      (Read.getRoleGrants 3).Contained carol sharing.toTables := by
  have hfacts : sharing.toTables.TenantHolds 20 ∧ sharing.users.get carol.id = some carol ∧
      (Read.getRoleGrants 3).Contained carol shared.toTables := by
    unfold Tables.TenantHolds Read.Contained
    decide +kernel
  obtain ⟨hholds, hcarol, hcontained⟩ := hfacts
  exact reads_agree_iff sharing_reachable shared_reachable shared_agrees hholds hcarol rfl rfl
    hcontained

end FastapiTemplate
