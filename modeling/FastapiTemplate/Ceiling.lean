import FastapiTemplate.Confinement
import FastapiTemplate.MaskAgreement

/-!
The ceiling of a tenant and the grants of its users. Creating a role and adding
a permission to one are gated by the mask of the grantable permissions cut to
the ceiling; granting a permission and assigning a role are gated by the
delegation rows alone. The former keep under the ceiling whatever they add; the
latter do when what they hand out is under it, or held by the target already.
-/
namespace FastapiTemplate

open Library.KeyedTable Library.Committing Library.BitMask

/-- Bit `i` is new in a role of the tenant, or in the mask of one of its users. -/
inductive GainsBit (t t' : Tables) (tenantId : Uuid) (i : ℕ) : Prop
  | role (roleId : RoleId) (role' : Role) : t'.roles.get roleId = some role' →
      role'.tenantId = some tenantId → role'.permissionMask.testBit i = true →
      (∀ role, t.roles.get roleId = some role → role.permissionMask.testBit i = false) →
      GainsBit t t' tenantId i
  | user (userId : Uuid) (user' : User) : t'.users.get userId = some user' →
      user'.tenantId = some tenantId →
      (effectivePermissionMask (t'.loadUser user')).testBit i = true →
      (∀ user, t.users.get userId = some user →
        (effectivePermissionMask (t.loadUser user)).testBit i = false) →
      GainsBit t t' tenantId i

/-- Every bit that the tenant gains is in its ceiling. -/
def CeilingBinds (t t' : Tables) (tenant : Tenant) : Prop :=
  ∀ i, GainsBit t t' tenant.id i → tenant.allowedPermissionMask.testBit i = true

/-- The operations that grant something. -/
inductive Call.Grants : Call → Prop
  | createRole (role : RoleCreate) : Grants (.createRole role)
  | addPermissionToRole (roleId : RoleId) (permissionId : PermissionId) :
      Grants (.addPermissionToRole roleId permissionId)
  | grantPermission (targetUserId : Uuid) (permissionId : PermissionId) :
      Grants (.grantPermission targetUserId permissionId)
  | assignRole (targetUserId : Uuid) (roleId : RoleId) : Grants (.assignRole targetUserId roleId)

/-- What is handed to a user is in the ceiling, but for what the user has. -/
def Call.Fits (t : Tables) (ceiling : ℕ) : Call → Prop
  | grantPermission targetUserId permissionId =>
    ∀ user permission b, t.users.get targetUserId = some user →
      t.permissions.get permissionId = some permission →
      permissionRegistry.lookup permission.name = some b →
      ceiling.testBit b = true ∨ (effectivePermissionMask (t.loadUser user)).testBit b = true
  | assignRole targetUserId roleId =>
    ∀ user role i, t.users.get targetUserId = some user → t.roles.get roleId = some role →
      role.permissionMask.testBit i = true →
      ceiling.testBit i = true ∨ (effectivePermissionMask (t.loadUser user)).testBit i = true
  | _ => True

/-! ### The mask gate -/

/-- The bits that the masks of roles gain are in the ceiling, and nobody gains
a role or a direct grant. -/
structure MasksWithin (ceiling : ℕ) (t t' : Tables) : Prop where
  mask : ∀ roleId role' i, t'.roles.get roleId = some role' →
    role'.permissionMask.testBit i = true →
    (∃ role, t.roles.get roleId = some role ∧ role.permissionMask.testBit i = true) ∨
      ceiling.testBit i = true
  held : t'.userRoles = t.userRoles
  direct : t'.userPermissions = t.userPermissions
  permissions : t'.permissions = t.permissions

section MasksWithin

variable {ceiling : ℕ} {t t' t'' : Tables}

theorem MasksWithin.refl (ceiling : ℕ) (t : Tables) : MasksWithin ceiling t t :=
  ⟨fun _ role _ hrole hbit => Or.inl ⟨role, hrole, hbit⟩, rfl, rfl, rfl⟩

theorem MasksWithin.trans (h : MasksWithin ceiling t t') (h' : MasksWithin ceiling t' t'') :
    MasksWithin ceiling t t'' := by
  refine ⟨?_, h'.held.trans h.held, h'.direct.trans h.direct, h'.permissions.trans h.permissions⟩
  intro roleId role'' i hrole hbit
  rcases h'.mask roleId role'' i hrole hbit with ⟨role', hrole', hbit'⟩ | hceiling
  · exact h.mask roleId role' i hrole' hbit'
  · exact Or.inr hceiling

theorem MasksWithin.roleBit (h : MasksWithin ceiling t t') {userId : Uuid} {i : ℕ}
    (hbit : t'.RoleBit userId i) : t.RoleBit userId i ∨ ceiling.testBit i = true := by
  obtain ⟨roleId, role', hrole', hheld, hmask⟩ := hbit
  rw [h.held] at hheld
  rcases h.mask roleId role' i hrole' hmask with ⟨role, hrole, hbefore⟩ | hceiling
  · exact Or.inl ⟨roleId, role, hrole, hheld, hbefore⟩
  · exact Or.inr hceiling

theorem MasksWithin.directBit_iff (h : MasksWithin ceiling t t') {userId : Uuid} {i : ℕ} :
    t'.DirectBit userId i ↔ t.DirectBit userId i := by
  rw [Tables.DirectBit, Tables.DirectBit, h.direct, h.permissions]

/-- Users persist, so what they gain they gain from the masks. -/
theorem MasksWithin.binds (h : MasksWithin ceiling t t') {tenant : Tenant}
    (hceiling : tenant.allowedPermissionMask = ceiling)
    (husers : ∀ userId, (t'.users.get userId).isSome → (t.users.get userId).isSome) :
    CeilingBinds t t' tenant := by
  subst hceiling
  intro i hgains
  cases hgains with
  | role roleId role' hrole' _ hbit hnew =>
    rcases h.mask roleId role' i hrole' hbit with ⟨role, hrole, hbefore⟩ | hwithin
    · rw [hnew role hrole] at hbefore
      cases hbefore
    · exact hwithin
  | user userId user' huser' _ hbit hnew =>
    obtain ⟨user, huser⟩ := Option.isSome_iff_exists.mp (husers userId (by rw [huser']; rfl))
    have hsame : user'.id = user.id := (Table.key_of_get huser').trans (Table.key_of_get huser).symm
    have hnone := hnew user huser
    rw [← Bool.not_eq_true, Tables.testBit_maskOf, not_or] at hnone
    rw [Tables.testBit_maskOf, hsame, h.directBit_iff] at hbit
    rcases hbit with hrole | hdirect
    · exact (h.roleBit hrole).resolve_left hnone.1
    · exact absurd hdirect hnone.2

end MasksWithin

/-- What the transactions of a gated operation, taken together, leave. -/
structure Gated (tenant : Tenant) (db s : Db) : Prop where
  catalogued : s.toTables.Catalogued
  row : s.tenants.get tenant.id = some tenant
  within : MasksWithin tenant.allowedPermissionMask db.toTables s.toTables
  users : ∀ userId, (s.users.get userId).isSome → (db.users.get userId).isSome

section Gated

variable {tenant : Tenant} {actor : User} {db s s' : Db} {es : List Event}

/-- The author's ceiling bounds the mask of the new role. -/
theorem masksWithin_createRole {name : String} {tenantId : Option Uuid}
    {permissions : List Permission} {mask : ℕ}
    (hmask : Within mask tenant.allowedPermissionMask)
    (h : (Change.createRole name tenantId permissions mask).Commits s s' es) :
    MasksWithin tenant.allowedPermissionMask s.toTables s'.toTables ∧ s'.tenants = s.tenants ∧
      s'.users = s.users := by
  obtain ⟨role, h⟩ := h
  obtain ⟨roles, hinsert, ht, _, _⟩ := RoleRepository.createTx_eq_ok h
  rw [ht]
  refine ⟨⟨?_, rfl, rfl, rfl⟩, rfl, rfl⟩
  intro roleId role' i hrole' hbit
  change roles.get roleId = some role' at hrole'
  rw [Table.get_insert? hinsert] at hrole'
  split at hrole'
  · obtain rfl := Option.some.inj hrole'
    exact Or.inr (hmask i hbit)
  · exact Or.inl ⟨role', hrole', hbit⟩

/-- So does it bound the bit of a permission that is added. -/
theorem masksWithin_addPermission {role : LoadedRole} {permission : Permission} {b : ℕ}
    (hcat : s.toTables.Catalogued)
    (hcur : (Change.addPermission role permission).Current s.toTables)
    (hb : permissionRegistry.lookup permission.name = some b)
    (hceiling : tenant.allowedPermissionMask.testBit b = true)
    (h : (Change.addPermission role permission).Commits s s' es) :
    MasksWithin tenant.allowedPermissionMask s.toTables s'.toTables ∧ s'.tenants = s.tenants ∧
      ∀ userId, (s'.users.get userId).isSome → (s.users.get userId).isSome := by
  obtain ⟨a, h⟩ := h
  obtain ⟨_, _, ht, _⟩ := RoleRepository.addPermissionTx_eq_ok h
  obtain ⟨hrow, _, _⟩ := RoleRepository.getById_eq_some hcur.1
  have hbit : permission.bitPosition = some b := by
    rw [(hcat.known permission (Table.mem_of_get hcur.2)).2, hb]
  rw [ht]
  refine ⟨⟨?_, rfl, rfl, rfl⟩, rfl, ?_⟩
  · intro roleId role' i hrole' hset
    rw [Tables.bumpPermVersion_roles, Table.get_update] at hrole'
    obtain ⟨before, hbefore, rfl⟩ := Option.map_eq_some_iff.mp hrole'
    by_cases hid : before.id = role.id
    · rw [if_pos (by simpa using hid)] at hset
      rcases testBit_maskWith.mp hset with hold | hnew
      · have hsame : roleId = role.id := (Table.key_of_get hbefore).symm.trans hid
        exact Or.inl ⟨role.toRole, by rw [hsame]; exact hrow, hold⟩
      · obtain rfl := Option.some.inj (hbit.symm.trans hnew)
        exact Or.inr hceiling
    · rw [if_neg (by simpa using hid)] at hset
      exact Or.inl ⟨before, hbefore, hset⟩
  · intro userId huser
    rw [Tables.get_bumpPermVersion, Option.isSome_map] at huser
    exact huser

/-- One transaction of an operation that is gated by the mask. -/
theorem Gated.step {call : Call} (h : Gated tenant db s)
    (hcall : (∃ role, call = .createRole role) ∨
      ∃ roleId permissionId, call = .addPermissionToRole roleId permissionId)
    (hsuper : actor.isSuperuser = false) (htenant : actor.tenantId = some tenant.id)
    (hstep : Performed actor call s s' es) : Gated tenant db s' := by
  obtain ⟨c, hperforms, hcur, hauth, hcommit⟩ := hstep
  have hauth := hauth hsuper
  have hcat := Change.catalogued hcur hcommit h.catalogued
  rcases hcall with ⟨data, rfl⟩ | ⟨roleId, permissionId, rfl⟩
  · cases c with
    | createRole name tenantId permissions mask =>
      obtain ⟨_, hunder⟩ := hauth
      have hmask := hunder tenant.id (by rw [htenant]; rfl) tenant h.row
      obtain ⟨hwithin, htenants, husers⟩ := masksWithin_createRole hmask hcommit
      exact ⟨hcat, by rw [htenants]; exact h.row, h.within.trans hwithin,
        by rw [husers]; exact h.users⟩
    | addGrantableRole roleId grantableRoleId =>
      obtain ⟨_, hcommit⟩ := hcommit
      obtain ⟨ht, _⟩ := RoleRepository.addGrantableRoleTx_eq_ok hcommit
      refine ⟨hcat, ?_, ?_, ?_⟩
      · rw [ht]
        exact h.row
      · rw [ht]
        exact ⟨h.within.mask, h.within.held, h.within.direct, h.within.permissions⟩
      · rw [ht]
        exact h.users
    | _ => exact absurd hperforms id
  · cases c with
    | addPermission role permission =>
      obtain ⟨_, b, hb, hunder⟩ := hauth
      have hceiling := hunder tenant.id (by rw [htenant]; rfl) tenant h.row
      obtain ⟨hwithin, htenants, husers⟩ := masksWithin_addPermission h.catalogued hcur hb
        ((within_bit_iff _ _).mp hceiling) hcommit
      exact ⟨hcat, by rw [htenants]; exact h.row, h.within.trans hwithin,
        fun userId huser => h.users userId (husers userId huser)⟩
    | _ => exact absurd hperforms id

end Gated

/-! ### The delegation gate -/

section Handed

variable {tenant : Tenant} {user : User} {t t' : Tables}

/-- Nothing changes but the bits that are handed to one user of the tenant. -/
structure Hands (t t' : Tables) (user : User) (handed : ℕ → Prop) : Prop where
  roles : t'.roles = t.roles
  users : ∀ userId, ∃ f : User → User, (∀ u, (f u).tenantId = u.tenantId) ∧
    t'.users.get userId = (t.users.get userId).map f
  bits : ∀ userId i, t'.RoleBit userId i ∨ t'.DirectBit userId i ↔
    (t.RoleBit userId i ∨ t.DirectBit userId i) ∨ (userId = user.id ∧ handed i)

/-- The ceiling binds when it contains what is handed out, but for what the user
has. -/
theorem Hands.binds_iff {handed : ℕ → Prop} (h : Hands t t' user handed)
    (huser : t.users.get user.id = some user) (htenant : user.tenantId = some tenant.id) :
    CeilingBinds t t' tenant ↔ ∀ i, handed i → tenant.allowedPermissionMask.testBit i = true ∨
      (effectivePermissionMask (t.loadUser user)).testBit i = true := by
  constructor
  · intro hbinds i hhanded
    by_cases hhad : (effectivePermissionMask (t.loadUser user)).testBit i = true
    · exact Or.inr hhad
    · obtain ⟨f, hf, hget⟩ := h.users user.id
      rw [huser, Option.map_some] at hget
      refine Or.inl (hbinds i (.user user.id (f user) hget ((hf user).trans htenant) ?_ ?_))
      · rw [Tables.testBit_maskOf, Table.key_of_get hget, h.bits]
        exact Or.inr ⟨rfl, hhanded⟩
      · intro before hbefore
        obtain rfl := Option.some.inj (huser.symm.trans hbefore)
        exact Bool.eq_false_of_not_eq_true hhad
  · intro hfits i hgains
    cases hgains with
    | role roleId role' hrole' _ hbit hnew =>
      rw [h.roles] at hrole'
      rw [hnew role' hrole'] at hbit
      cases hbit
    | user userId user' huser' _ hbit hnew =>
      obtain ⟨f, _, hget⟩ := h.users userId
      rw [huser'] at hget
      obtain ⟨before, hbefore, _⟩ := Option.map_eq_some_iff.mp hget.symm
      have hnone := hnew before hbefore
      rw [← Bool.not_eq_true, Tables.testBit_maskOf, Table.key_of_get hbefore] at hnone
      rw [Tables.testBit_maskOf, Table.key_of_get huser', h.bits] at hbit
      obtain ⟨rfl, hhanded⟩ := hbit.resolve_left hnone
      obtain rfl := Option.some.inj (huser.symm.trans hbefore)
      rw [← @Tables.testBit_maskOf _ user] at hnone
      exact (hfits i hhanded).resolve_right hnone

/-- An assignment hands out the mask of the role. -/
theorem hands_assign {db db' : Db} {roleId : RoleId} {es : List Event}
    (h : RoleRepository.assignToUserTx roleId user.id db.toTables = .ok ((), db'.toTables, es)) :
    Hands db.toTables db'.toTables user
      (fun i => ∃ role, db.roles.get roleId = some role ∧ role.permissionMask.testBit i = true) := by
  obtain ⟨_, ht, _⟩ := RoleRepository.assignToUserTx_eq_ok h
  rw [ht]
  refine ⟨rfl, ?_, ?_⟩
  · intro userId
    refine ⟨_, ?_, Tables.get_bumpPermVersion _ _ userId⟩
    intro u
    split <;> rfl
  · intro userId i
    have hrole : (Tables.bumpPermVersion { db.toTables with
        userRoles := insert (user.id, roleId) db.userRoles } (· = user.id)).RoleBit userId i ↔
        db.toTables.RoleBit userId i ∨ (userId = user.id ∧
          ∃ role, db.roles.get roleId = some role ∧ role.permissionMask.testBit i = true) := by
      simp only [Tables.RoleBit, Tables.bumpPermVersion_roles, Tables.bumpPermVersion_userRoles,
        Finset.mem_insert, Prod.mk.injEq]
      constructor
      · rintro ⟨held, role, hrole, ⟨rfl, rfl⟩ | hheld, hbit⟩
        · exact Or.inr ⟨rfl, role, hrole, hbit⟩
        · exact Or.inl ⟨held, role, hrole, hheld, hbit⟩
      · rintro (⟨held, role, hrole, hheld, hbit⟩ | ⟨rfl, role, hrole, hbit⟩)
        · exact ⟨held, role, hrole, Or.inr hheld, hbit⟩
        · exact ⟨roleId, role, hrole, Or.inl ⟨rfl, rfl⟩, hbit⟩
    rw [hrole]
    exact or_right_comm

/-- A direct grant hands out the bit of the permission. -/
theorem hands_grant {db db' : Db} {permission : Permission} {es : List Event}
    (hpermission : db.permissions.get permission.id = some permission)
    (h : UserRepository.grantPermissionTx (db.toTables.loadUser user) permission db.toTables =
      .ok ((), db'.toTables, es)) :
    Hands db.toTables db'.toTables user
      (fun i => permissionRegistry.lookup permission.name = some i) := by
  obtain ⟨_, _, ht, _⟩ := UserRepository.grantPermissionTx_eq_ok h
  rw [ht]
  refine ⟨rfl, ?_, ?_⟩
  · intro userId
    refine ⟨fun u => if u.id = user.id then { u with permVersion := user.permVersion + 1 } else u,
      ?_, ?_⟩
    · intro u
      by_cases hid : u.id = user.id <;> simp [hid]
    · rw [Table.get_update]
      congr 1
      funext u
      by_cases hid : u.id = user.id <;> simp [hid]
  · intro userId i
    simp only [Tables.RoleBit, Tables.DirectBit, Tables.loadUser_toUser, Finset.mem_insert,
      Prod.mk.injEq, or_assoc]
    refine or_congr Iff.rfl ?_
    constructor
    · rintro ⟨permissionId, p, hp, ⟨rfl, rfl⟩ | hgranted, hbit⟩
      · obtain rfl := Option.some.inj (hpermission.symm.trans hp)
        exact Or.inr ⟨rfl, hbit⟩
      · exact Or.inl ⟨permissionId, p, hp, hgranted, hbit⟩
    · rintro (⟨permissionId, p, hp, hgranted, hbit⟩ | ⟨rfl, hbit⟩)
      · exact ⟨permissionId, p, hp, Or.inr hgranted, hbit⟩
      · exact ⟨permission.id, permission, hpermission, Or.inl ⟨rfl, rfl⟩, hbit⟩

end Handed

/-! ### Every grant -/

theorem ceiling_binds_iff {getPasswordHash : String → Except Err String} {actorId : Uuid}
    {call : Call} {actor : User} {tenant : Tenant} {db db' : Db} {es : List Event}
    (hreach : Reachable db) (hactor : db.users.get actorId = some actor)
    (hsuper : actor.isSuperuser = false) (hmember : actor.tenantId = some tenant.id)
    (htenant : db.tenants.get tenant.id = some tenant) (hcall : call.Grants)
    (h : request getPasswordHash actorId call db = (.ok (), db', es)) :
    CeilingBinds db.toTables db'.toTables tenant ↔
      call.Fits db.toTables tenant.allowedPermissionMask := by
  have hgated : (∃ role, call = .createRole role) ∨
      (∃ roleId permissionId, call = .addPermissionToRole roleId permissionId) →
      CeilingBinds db.toTables db'.toTables tenant := by
    intro hkind
    have hstart : Gated tenant db db := ⟨hreach.catalogued, htenant, .refl _ _, fun _ hu => hu⟩
    have hend := (path_of_request hactor h).invariant (I := Gated tenant db)
      (fun _ _ _ hstep hs => hs.step hkind hsuper hmember hstep) hstart
    exact hend.within.binds rfl hend.users
  cases hcall with
  | createRole role => exact ⟨fun _ => trivial, fun _ => hgated (Or.inl ⟨role, rfl⟩)⟩
  | addPermissionToRole roleId permissionId =>
    exact ⟨fun _ => trivial, fun _ => hgated (Or.inr ⟨roleId, permissionId, rfl⟩)⟩
  | grantPermission targetUserId permissionId =>
    have hdoes : Does (Performed actor (.grantPermission targetUserId permissionId))
        (request getPasswordHash actorId (.grantPermission targetUserId permissionId)) db _ :=
      does_request_of hactor does_grantPermission
    obtain ⟨user, permission, huser, hsame, hpermission, fs, hcommit⟩ := hdoes.2 () (by rw [h])
    rw [h] at hcommit
    obtain rfl := Table.key_of_get huser
    obtain rfl := Table.key_of_get hpermission
    rw [(hands_grant hpermission hcommit).binds_iff huser ((hsame hsuper).trans hmember)]
    constructor
    · intro hfits user' permission' b huser' hpermission' hlookup
      obtain rfl := Option.some.inj (huser.symm.trans huser')
      obtain rfl := Option.some.inj (hpermission.symm.trans hpermission')
      exact hfits b hlookup
    · intro hfits i hlookup
      exact hfits user permission i huser hpermission hlookup
  | assignRole targetUserId roleId =>
    have hdoes : Does (Performed actor (.assignRole targetUserId roleId))
        (request getPasswordHash actorId (.assignRole targetUserId roleId)) db _ :=
      does_request_of hactor does_assignRole
    obtain ⟨hsame, fs, hcommit⟩ := hdoes.2 () (by rw [h])
    rw [h] at hcommit
    obtain ⟨user, huser, htenants⟩ := hsame hsuper
    obtain rfl := Table.key_of_get huser
    rw [(hands_assign hcommit).binds_iff huser (htenants.trans hmember)]
    constructor
    · intro hfits user' role i huser' hrole hbit
      obtain rfl := Option.some.inj (huser.symm.trans huser')
      exact hfits i ⟨role, hrole, hbit⟩
    · intro hfits i hhanded
      obtain ⟨role, hrole, hbit⟩ := hhanded
      exact hfits user role i huser hrole hbit

/-! The ceiling of a tenant is narrowed to `role:create` after its admin has
authored the role `viewer`, which the admin's own role still delegates. -/

/-- The admin, after the resync of the root role. -/
def narrowedBoss : User :=
  { boss with permVersion := 3 }

def dave : User where
  id := 12
  username := "dave"
  email := "dave@example.com"
  password := some "pw"
  isVerified := true
  isSuperuser := false
  isActive := true
  createdById := some 11
  tenantId := some 10
  permVersion := 2

def narrowedAcme : Tenant where
  id := 10
  name := "acme"
  isActive := true
  allowedPermissionMask := 1

def acmeJoined : Db :=
  (request .ok 11 (.createUser 12 ⟨"dave", "dave@example.com", "pw"⟩) acmeViewer).2.1

def narrowed : Db := (request .ok 1 (.updateTenantPermissions 10 ["role:create"]) acmeJoined).2.1

def overCeiling : Db := (request .ok 11 (.assignRole 12 2) narrowed).2.1

theorem narrowed_reachable : Reachable narrowed := by
  have hviewer : Reachable acmeViewer := .request _ _ _ acme_reachable
  have hjoined : Reachable acmeJoined := .request _ _ _ hviewer
  exact .request _ _ _ hjoined

theorem narrowed_rows : narrowed.users.get 11 = some narrowedBoss ∧
    narrowed.tenants.get narrowedAcme.id = some narrowedAcme ∧
    (request .ok 11 (.assignRole 12 2) narrowed).1 = .ok () := by
  decide +kernel

/-- The admin assigns the role, and the user gains `role:read`. -/
theorem overCeiling_gains : GainsBit narrowed.toTables overCeiling.toTables narrowedAcme.id 1 := by
  have hgained : overCeiling.users.get 12 = some dave ∧
      (effectivePermissionMask (overCeiling.loadUser dave)).testBit 1 = true ∧
      ∀ user, narrowed.users.get 12 = some user →
        (effectivePermissionMask (narrowed.loadUser user)).testBit 1 = false := by
    decide +kernel
  obtain ⟨hdave, hbit, hbefore⟩ := hgained
  exact .user 12 dave hdave rfl hbit hbefore

theorem assignRole_not_binds :
    Reachable narrowed ∧ narrowed.users.get 11 = some narrowedBoss ∧
      narrowedBoss.isSuperuser = false ∧ narrowedBoss.tenantId = some narrowedAcme.id ∧
      narrowed.tenants.get narrowedAcme.id = some narrowedAcme ∧
      (request .ok 11 (.assignRole 12 2) narrowed).1 = .ok () ∧
      ¬ CeilingBinds narrowed.toTables
        (request .ok 11 (.assignRole 12 2) narrowed).2.1.toTables narrowedAcme := by
  obtain ⟨hboss, htenant, hok⟩ := narrowed_rows
  refine ⟨narrowed_reachable, hboss, rfl, rfl, htenant, hok, ?_⟩
  intro hbinds
  have hgains := overCeiling_gains
  rw [overCeiling] at hgains
  exact absurd (hbinds 1 hgains) (by decide)

theorem ceiling_binds_iff_narrowed :
    CeilingBinds narrowed.toTables
        (request .ok 11 (.assignRole 12 2) narrowed).2.1.toTables narrowedAcme ↔
      (Call.assignRole 12 2).Fits narrowed.toTables narrowedAcme.allowedPermissionMask := by
  obtain ⟨hboss, htenant, hok⟩ := narrowed_rows
  exact ceiling_binds_iff narrowed_reachable hboss rfl rfl htenant (.assignRole _ _) (ran_ok hok)

end FastapiTemplate
