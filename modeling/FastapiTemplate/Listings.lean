import FastapiTemplate.Library.Paging
import FastapiTemplate.System

/-!
The paged listings of users, roles, tenants and permissions, each by the SELECT
that the repository builds. Users are ordered by the unique username, so their
pages are exact for any collation. The other statements have no ORDER BY: their
pages are exact only when the first one holds every visible row. The functions
of the model that read a page return one of the answers of the statement.
-/
namespace FastapiTemplate.Listings

open Library.KeyedTable Library.Committing Library.Paging

/-- The order of the database on texts. It tells usernames apart, as the
unique constraint on them does. -/
structure Collation where
  le : String → String → Prop
  total : ∀ a b, le a b ∨ le b a
  trans : ∀ a b c, le a b → le b c → le a c
  antisymm : ∀ a b, le a b → le b a → a = b

/-- By code points. -/
def binary : Collation :=
  ⟨(· ≤ ·), le_total, fun _ _ _ => le_trans, fun _ _ => le_antisymm⟩

/-! ### The statements -/

section Statements

variable (collation : Collation) (t : Tables)

def byUsername (a b : User) : Prop := collation.le a.username b.username

namespace UserRepository

def listAll : Select User := ⟨t.users.rows, some (byUsername collation)⟩

def listByTenant (tenantId : Option Uuid) : Select User :=
  ⟨FastapiTemplate.UserRepository.usersOf t tenantId, some (byUsername collation)⟩

end UserRepository

namespace RoleRepository

def listAll : Select Role := ⟨t.roles.rows, none⟩

def listByTenant (tenantId : Option Uuid) : Select Role :=
  ⟨t.roles.rows.filter (fun r => r.tenantId = none ∨ r.tenantId = tenantId), none⟩

end RoleRepository

def TenantRepository.listAll : Select Tenant := ⟨t.tenants.rows, none⟩

namespace PermissionRepository

def listAll : Select Permission := ⟨t.permissions.rows, none⟩

/-- Without names there is no query and no row. -/
def listByNames (names : List String) : Select Permission :=
  ⟨t.permissions.rows.filter (fun p => p.name ∈ names), none⟩

end PermissionRepository

/-! ### The services -/

/-- A filter is for superusers only. -/
def UserManagementService.listUsers (actor : Scope) (filterTenantId : Option Uuid) :
    Select User :=
  if actor.isSuperuser then
    match filterTenantId with
    | some tenantId => UserRepository.listByTenant collation t (some tenantId)
    | none => UserRepository.listAll collation t
  else UserRepository.listByTenant collation t actor.tenantId

def RoleService.getAllRoles (actor : Scope) : Select Role :=
  if actor.isSuperuser then RoleRepository.listAll t
  else RoleRepository.listByTenant t actor.tenantId

def TenantService.listTenants : Select Tenant := TenantRepository.listAll t

def PermissionService.getAllPermissions (names : Option (List String)) : Select Permission :=
  match names with
  | none => PermissionRepository.listAll t
  | some names => PermissionRepository.listByNames t names

inductive Listing
  | users (actor : Scope) (filterTenantId : Option Uuid)
  | roles (actor : Scope)
  | tenants
  | permissions (names : Option (List String))

def Listing.Row : Listing → Type
  | .users _ _ => User
  | .roles _ => Role
  | .tenants => Tenant
  | .permissions _ => Permission

/-- The statement that the service runs for each page. -/
def Listing.select : (listing : Listing) → Select listing.Row
  | .users actor filterTenantId => UserManagementService.listUsers collation t actor filterTenantId
  | .roles actor => RoleService.getAllRoles t actor
  | .tenants => TenantService.listTenants t
  | .permissions names => PermissionService.getAllPermissions t names

end Statements

def Listing.IsUsers : Listing → Prop
  | .users _ _ => True
  | _ => False

/-- `count_users` gives the number of the listed users. -/
def Listing.Counted (collation : Collation) (db : Db) : Listing → Prop
  | .users actor filterTenantId =>
    UserManagementService.countUsers actor filterTenantId db = (.ok
      (UserManagementService.listUsers collation db.toTables actor filterTenantId).rows.length,
      db, [])
  | _ => True

variable {collation : Collation} {db : Db} {limit : ℕ}

/-- The users listing is one of the two statements. -/
theorem listUsers_cases (collation : Collation) (t : Tables) (actor : Scope)
    (filterTenantId : Option Uuid) :
    UserManagementService.listUsers collation t actor filterTenantId =
      UserRepository.listAll collation t ∨
    ∃ tenantId, UserManagementService.listUsers collation t actor filterTenantId =
      UserRepository.listByTenant collation t tenantId := by
  unfold UserManagementService.listUsers
  by_cases hsuper : actor.isSuperuser = true
  · rw [if_pos hsuper]
    cases filterTenantId with
    | none => exact Or.inl rfl
    | some tenantId => exact Or.inr ⟨some tenantId, rfl⟩
  · rw [if_neg hsuper]
    exact Or.inr ⟨actor.tenantId, rfl⟩

/-- The usernames order the users, whatever the filter. -/
theorem listUsers_exact (collation : Collation) (db : Db) (actor : Scope)
    (filterTenantId : Option Uuid) (limit : ℕ) :
    (UserManagementService.listUsers collation db.toTables actor filterTenantId).Exact limit := by
  have hanti : ∀ a ∈ db.users.rows, ∀ b ∈ db.users.rows, byUsername collation a b →
      byUsername collation b a → a = b := by
    intro a ha b hb hab hba
    have hname := collation.antisymm _ _ hab hba
    exact List.inj_on_of_nodup_map db.constraints.username ha hb hname
  rcases listUsers_cases collation db.toTables actor filterTenantId with
    hall | ⟨tenantId, htenant⟩
  · rw [hall]
    exact exact_of_orderBy rfl hanti limit
  · rw [htenant]
    refine exact_of_orderBy rfl ?_ limit
    intro a ha b hb
    exact hanti a (List.mem_of_mem_filter ha) b (List.mem_of_mem_filter hb)

theorem countUsers_eq (collation : Collation) (db : Db) (actor : Scope)
    (filterTenantId : Option Uuid) :
    UserManagementService.countUsers actor filterTenantId db = (.ok
      (UserManagementService.listUsers collation db.toTables actor filterTenantId).rows.length,
      db, []) := by
  unfold UserManagementService.countUsers UserManagementService.listUsers
  cases actor.isSuperuser with
  | true =>
    cases filterTenantId with
    | none => rfl
    | some tenantId => rfl
  | false => rfl

/-- The other statements have no order and select rows of a table. -/
theorem unordered_of_not_users (collation : Collation) (t : Tables) (listing : Listing)
    (h : ¬ listing.IsUsers) :
    (listing.select collation t).orderBy = none ∧ (listing.select collation t).rows.Nodup := by
  cases listing with
  | users actor filterTenantId => exact absurd trivial h
  | roles actor =>
    have hrows : t.roles.rows.Nodup := List.Nodup.of_map _ t.roles.nodup
    unfold Listing.select RoleService.getAllRoles
    by_cases hsuper : actor.isSuperuser = true
    · simp only [if_pos hsuper]
      exact ⟨rfl, hrows⟩
    · simp only [if_neg hsuper]
      exact ⟨rfl, hrows.filter _⟩
  | tenants => exact ⟨rfl, List.Nodup.of_map _ t.tenants.nodup⟩
  | permissions names =>
    have hrows : t.permissions.rows.Nodup := List.Nodup.of_map _ t.permissions.nodup
    cases names with
    | none => exact ⟨rfl, hrows⟩
    | some names => exact ⟨rfl, hrows.filter _⟩

theorem listUsers_orderBy (collation : Collation) (t : Tables) (actor : Scope)
    (filterTenantId : Option Uuid) :
    (UserManagementService.listUsers collation t actor filterTenantId).orderBy =
      some (byUsername collation) := by
  rcases listUsers_cases collation t actor filterTenantId with hall | ⟨_, htenant⟩
  · rw [hall]
    rfl
  · rw [htenant]
    rfl

/-- The database has an answer to each statement. -/
theorem exists_answers_select (collation : Collation) (t : Tables) (listing : Listing) :
    ∃ answer, (listing.select collation t).Answers answer := by
  apply exists_answers
  by_cases husers : listing.IsUsers
  · cases listing with
    | users actor filterTenantId =>
      have horder : ((Listing.users actor filterTenantId).select collation t).orderBy = _ :=
        listUsers_orderBy collation t actor filterTenantId
      rw [horder]
      intro le hle
      cases hle
      exact ⟨fun a b => collation.total _ _, fun a b c => collation.trans _ _ _⟩
    | _ => exact absurd husers not_false
  · rw [(unordered_of_not_users collation t listing husers).1]
    intro le hle
    cases hle

/-! ### The reading functions of the model -/

/-- The model reads the users in the binary collation. -/
theorem listUsers_page (db : Db) (actor : Scope) (skip limit : ℕ)
    (filterTenantId : Option Uuid) :
    ∃ page, (UserManagementService.listUsers binary db.toTables actor filterTenantId).Page
        skip limit page ∧
      FastapiTemplate.UserManagementService.listUsers actor skip limit filterTenantId db =
        (.ok (page.map (FastapiTemplate.UserRepository.listed db.toTables)), db, []) := by
  have hanswer : ∀ users : List User,
      (Select.mk users (some (byUsername binary))).Answers
        (users.mergeSort (fun a b => a.username ≤ b.username)) := by
    intro users
    refine ⟨List.mergeSort_perm _ _, ?_⟩
    intro le hle
    cases hle
    have hsorted := @List.pairwise_mergeSort User (fun a b => a.username ≤ b.username)
      (fun a b c hab hbc => by simpa using le_trans (of_decide_eq_true hab) (of_decide_eq_true hbc))
      (fun a b => by simpa using le_total a.username b.username) users
    exact hsorted.imp (fun h => of_decide_eq_true h)
  unfold UserManagementService.listUsers FastapiTemplate.UserManagementService.listUsers
  cases actor.isSuperuser with
  | true =>
    cases filterTenantId with
    | none => exact ⟨_, ⟨_, hanswer _, rfl⟩, rfl⟩
    | some tenantId => exact ⟨_, ⟨_, hanswer _, rfl⟩, rfl⟩
  | false => exact ⟨_, ⟨_, hanswer _, rfl⟩, rfl⟩

/-- The model reads the roles in the order of their rows. -/
theorem getAllRoles_page (db : Db) (actor : Scope) (skip limit : ℕ) :
    ∃ page, (RoleService.getAllRoles db.toTables actor).Page skip limit page ∧
      FastapiTemplate.RoleService.getAllRoles actor skip limit db =
        (.ok (page.map db.toTables.loadRole), db, []) := by
  have hanswer : ∀ roles : List Role, (Select.mk roles none).Answers roles := by
    intro roles
    refine ⟨List.Perm.refl _, ?_⟩
    intro le hle
    cases hle
  unfold RoleService.getAllRoles FastapiTemplate.RoleService.getAllRoles
  cases actor.isSuperuser with
  | true => exact ⟨_, ⟨_, hanswer _, rfl⟩, rfl⟩
  | false => exact ⟨_, ⟨_, hanswer _, rfl⟩, rfl⟩

/-! ### Exactness -/

/-- The pages are exact, and the count agrees, for the users and for the rows
that fit the first page. -/
theorem listing_exact_iff (collation : Collation) (db : Db) (listing : Listing) (limit : ℕ)
    (hlimit : 1 ≤ limit) :
    ((listing.select collation db.toTables).Exact limit ∧ listing.Counted collation db) ↔
      (listing.IsUsers ∨ (listing.select collation db.toTables).rows.length ≤ limit) := by
  by_cases husers : listing.IsUsers
  · cases listing with
    | users actor filterTenantId =>
      have hexact := listUsers_exact collation db actor filterTenantId limit
      have hcount := countUsers_eq collation db actor filterTenantId
      exact iff_of_true ⟨hexact, hcount⟩ (Or.inl husers)
    | _ => exact absurd husers not_false
  · obtain ⟨horder, hnodup⟩ := unordered_of_not_users collation db.toTables listing husers
    have hcount : listing.Counted collation db := by
      cases listing with
      | users actor filterTenantId => exact absurd trivial husers
      | _ => trivial
    rw [exact_iff_of_unordered horder hnodup hlimit]
    tauto

/-- The second page of ten may begin with the first permission again. -/
theorem permissions_not_exact :
    ¬ (((Listing.permissions none).select binary synced.toTables).Exact 10 ∧
      (Listing.permissions none).Counted binary synced) := by
  obtain ⟨horder, hnodup⟩ := unordered_of_not_users binary synced.toTables
    (.permissions none) not_false
  intro h
  exact not_exact_of_lt horder hnodup (by decide) (by decide +kernel) h.1

theorem permissions_exact :
    1 ≤ 100 ∧ ((Listing.permissions none).select binary synced.toTables).Exact 100 :=
  ⟨by decide, ((listing_exact_iff binary synced (.permissions none) 100 (by decide)).mpr
    (Or.inr (by decide +kernel))).1⟩

end FastapiTemplate.Listings
