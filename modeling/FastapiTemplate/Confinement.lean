import FastapiTemplate.Catalog

/-!
Privilege confinement inside a tenant. A tenant is confined to a ceiling when
the roles in its reach (its own and the global ones) carry, attach and may
delegate only permissions of the ceiling, lead by delegation only to roles in
reach, and its users hold only such roles and permissions. Every change that a
user of the tenant is authorized to make keeps this, and so does every run of
their calls.
-/
namespace FastapiTemplate

open Library.KeyedTable Library.Committing Library.BitMask

/-- The catalogue bit of the permission is in the ceiling. -/
def BitWithin (ceiling : ℕ) (p : Permission) : Prop :=
  (permissionRegistry.lookup p.name).all ceiling.testBit = true

instance (ceiling : ℕ) (p : Permission) : Decidable (BitWithin ceiling p) := by
  unfold BitWithin
  infer_instance

instance (tenantId : Option Uuid) (role : Role) : Decidable (InScope tenantId role) := by
  unfold InScope
  infer_instance

instance (a b : ℕ) : Decidable (Within a b) :=
  decidable_of_iff (andNot a b = 0) (andNot_eq_zero_iff a b)

structure Confined (tenantId : Uuid) (ceiling : ℕ) (t : Tables) : Prop where
  tenant : (t.tenants.get tenantId).map Tenant.allowedPermissionMask = some ceiling
  catalogued : t.Catalogued
  roleMask : ∀ r ∈ t.roles.rows, InScope (some tenantId) r → Within r.permissionMask ceiling
  attached : ∀ r ∈ t.roles.rows, InScope (some tenantId) r → ∀ p ∈ t.permissions.rows,
    (r.id, p.id) ∈ t.rolePermissions → BitWithin ceiling p
  grantablePermission : ∀ r ∈ t.roles.rows, InScope (some tenantId) r →
    ∀ p ∈ t.permissions.rows, (r.id, p.id) ∈ t.roleGrantablePermissions → BitWithin ceiling p
  grantableRole : ∀ r ∈ t.roles.rows, InScope (some tenantId) r → ∀ g ∈ t.roles.rows,
    (r.id, g.id) ∈ t.roleGrantableRoles → InScope (some tenantId) g
  held : ∀ u ∈ t.users.rows, u.tenantId = some tenantId → ∀ r ∈ t.roles.rows,
    (u.id, r.id) ∈ t.userRoles → InScope (some tenantId) r
  direct : ∀ u ∈ t.users.rows, u.tenantId = some tenantId → ∀ p ∈ t.permissions.rows,
    (u.id, p.id) ∈ t.userPermissions → BitWithin ceiling p

section Confined

variable {tenantId : Uuid} {ceiling : ℕ} {t t' : Tables}

instance : Decidable (Confined tenantId ceiling t) :=
  decidable_of_iff
    (((t.tenants.get tenantId).map Tenant.allowedPermissionMask = some ceiling ∧ t.Catalogued ∧
      ∀ r ∈ t.roles.rows, InScope (some tenantId) r → Within r.permissionMask ceiling) ∧
    ((∀ r ∈ t.roles.rows, InScope (some tenantId) r → ∀ p ∈ t.permissions.rows,
        (r.id, p.id) ∈ t.rolePermissions → BitWithin ceiling p) ∧
      (∀ r ∈ t.roles.rows, InScope (some tenantId) r → ∀ p ∈ t.permissions.rows,
        (r.id, p.id) ∈ t.roleGrantablePermissions → BitWithin ceiling p) ∧
      ∀ r ∈ t.roles.rows, InScope (some tenantId) r → ∀ g ∈ t.roles.rows,
        (r.id, g.id) ∈ t.roleGrantableRoles → InScope (some tenantId) g) ∧
    ((∀ u ∈ t.users.rows, u.tenantId = some tenantId → ∀ r ∈ t.roles.rows,
        (u.id, r.id) ∈ t.userRoles → InScope (some tenantId) r) ∧
      ∀ u ∈ t.users.rows, u.tenantId = some tenantId → ∀ p ∈ t.permissions.rows,
        (u.id, p.id) ∈ t.userPermissions → BitWithin ceiling p))
    ⟨fun ⟨⟨h1, h2, h3⟩, ⟨h4, h5, h6⟩, h7, h8⟩ => ⟨h1, h2, h3, h4, h5, h6, h7, h8⟩,
      fun ⟨h1, h2, h3, h4, h5, h6, h7, h8⟩ => ⟨⟨h1, h2, h3⟩, ⟨h4, h5, h6⟩, h7, h8⟩⟩

theorem bitWithin_iff {p : Permission} :
    BitWithin ceiling p ↔
      ∀ b, permissionRegistry.lookup p.name = some b → ceiling.testBit b = true := by
  unfold BitWithin
  rcases permissionRegistry.lookup p.name with _ | b
  · simp
  · simp

/-- The masks of the users of a confined tenant are within the ceiling. -/
theorem Confined.mask_within (h : Confined tenantId ceiling t) {u : User} (hu : u ∈ t.users.rows)
    (htenant : u.tenantId = some tenantId) :
    andNot (effectivePermissionMask (t.loadUser u)) ceiling = 0 := by
  rw [andNot_eq_zero_iff]
  intro i hi
  rcases Tables.testBit_maskOf.mp hi with ⟨roleId, r, hr, hheld, hbit⟩ | ⟨pid, p, hp, hheld, hbit⟩
  · obtain rfl := Table.key_of_get hr
    have hmem := Table.mem_of_get hr
    exact h.roleMask r hmem (h.held u hu htenant r hmem hheld) i hbit
  · obtain rfl := Table.key_of_get hp
    exact bitWithin_iff.mp (h.direct u hu htenant p (Table.mem_of_get hp) hheld) i hbit

theorem Confined.underCeiling (h : Confined tenantId ceiling t) {mask : ℕ}
    (hmask : t.UnderCeiling (some tenantId) mask) : Within mask ceiling := by
  obtain ⟨tenant, htenant, hceiling⟩ := Option.map_eq_some_iff.mp h.tenant
  rw [← hceiling]
  exact hmask tenantId rfl tenant htenant

/-- What a user of the tenant may delegate stays in reach of the tenant. -/
theorem Confined.delegatesRole {db : Db} (h : Confined tenantId ceiling db.toTables)
    {userId : Uuid} (hu : ∃ u, db.users.get userId = some u ∧ u.tenantId = some tenantId)
    {roleId : RoleId} (hdelegates : db.toTables.DelegatesRole userId roleId) {g : Role}
    (hg : db.roles.get roleId = some g) : InScope (some tenantId) g := by
  obtain ⟨u, hu, htenant⟩ := hu
  obtain rfl := Table.key_of_get hu
  obtain ⟨held, hheld, hlink⟩ := hdelegates
  obtain ⟨r, hr⟩ := Option.isSome_iff_exists.mp (db.constraints.userRole _ hheld).2
  obtain rfl := Table.key_of_get hr
  obtain rfl := Table.key_of_get hg
  have hscope := h.held u (Table.mem_of_get hu) htenant r (Table.mem_of_get hr) hheld
  exact h.grantableRole r (Table.mem_of_get hr) hscope g (Table.mem_of_get hg) hlink

theorem Confined.delegatesPermission {db : Db} (h : Confined tenantId ceiling db.toTables)
    {userId : Uuid} (hu : ∃ u, db.users.get userId = some u ∧ u.tenantId = some tenantId)
    {permissionId : PermissionId}
    (hdelegates : db.toTables.DelegatesPermission userId permissionId) {p : Permission}
    (hp : db.permissions.get permissionId = some p) : BitWithin ceiling p := by
  obtain ⟨u, hu, htenant⟩ := hu
  obtain rfl := Table.key_of_get hu
  obtain ⟨held, hheld, hlink⟩ := hdelegates
  obtain ⟨r, hr⟩ := Option.isSome_iff_exists.mp (db.constraints.userRole _ hheld).2
  obtain rfl := Table.key_of_get hr
  obtain rfl := Table.key_of_get hp
  have hscope := h.held u (Table.mem_of_get hu) htenant r (Table.mem_of_get hr) hheld
  exact h.grantablePermission r (Table.mem_of_get hr) hscope p (Table.mem_of_get hp) hlink

/-! ### Changes of rows and links -/

/-- Roles and users come from confined tables, masks are within the ceiling,
and each new link is allowed. -/
theorem Confined.of_rows (h : Confined tenantId ceiling t) (htenants : t'.tenants = t.tenants)
    (hpermissions : t'.permissions = t.permissions)
    (hroles : ∀ r' ∈ t'.roles.rows, ∃ r ∈ t.roles.rows, r.id = r'.id ∧ r.tenantId = r'.tenantId ∧
      (InScope (some tenantId) r → Within r'.permissionMask ceiling))
    (husers : ∀ u' ∈ t'.users.rows, ∃ u ∈ t.users.rows, u.id = u'.id ∧ u.tenantId = u'.tenantId)
    (hattached : ∀ r, ∀ p ∈ t.permissions.rows, (r, p.id) ∈ t'.rolePermissions →
      (r, p.id) ∈ t.rolePermissions ∨ BitWithin ceiling p)
    (hgrantablePermission : ∀ r, ∀ p ∈ t.permissions.rows,
      (r, p.id) ∈ t'.roleGrantablePermissions →
        (r, p.id) ∈ t.roleGrantablePermissions ∨ BitWithin ceiling p)
    (hgrantableRole : ∀ r, ∀ g ∈ t.roles.rows, (r, g.id) ∈ t'.roleGrantableRoles →
      (r, g.id) ∈ t.roleGrantableRoles ∨ InScope (some tenantId) g)
    (hheld : ∀ u, ∀ r ∈ t.roles.rows, (u, r.id) ∈ t'.userRoles →
      (u, r.id) ∈ t.userRoles ∨ InScope (some tenantId) r)
    (hdirect : ∀ u, ∀ p ∈ t.permissions.rows, (u, p.id) ∈ t'.userPermissions →
      (u, p.id) ∈ t.userPermissions ∨ BitWithin ceiling p) :
    Confined tenantId ceiling t' where
  tenant := by rw [htenants]; exact h.tenant
  catalogued := h.catalogued.of_eq hpermissions
  roleMask := by
    intro r' hr' hscope
    obtain ⟨r, _, _, htenant, hmask⟩ := hroles r' hr'
    refine hmask ?_
    rw [InScope, htenant]
    exact hscope
  attached := by
    intro r' hr' hscope p hp hlink
    obtain ⟨r, hr, hid, htenant, _⟩ := hroles r' hr'
    rw [hpermissions] at hp
    rw [← hid] at hlink
    rw [InScope, ← htenant] at hscope
    exact (hattached r.id p hp hlink).elim (h.attached r hr hscope p hp) id
  grantablePermission := by
    intro r' hr' hscope p hp hlink
    obtain ⟨r, hr, hid, htenant, _⟩ := hroles r' hr'
    rw [hpermissions] at hp
    rw [← hid] at hlink
    rw [InScope, ← htenant] at hscope
    exact (hgrantablePermission r.id p hp hlink).elim (h.grantablePermission r hr hscope p hp) id
  grantableRole := by
    intro r' hr' hscope g' hg' hlink
    obtain ⟨r, hr, hid, htenant, _⟩ := hroles r' hr'
    obtain ⟨g, hg, hgid, hgtenant, _⟩ := hroles g' hg'
    rw [← hid, ← hgid] at hlink
    rw [InScope, ← htenant] at hscope
    rw [InScope, ← hgtenant]
    exact (hgrantableRole r.id g hg hlink).elim (h.grantableRole r hr hscope g hg) id
  held := by
    intro u' hu' htenant r' hr' hlink
    obtain ⟨u, hu, huid, hutenant⟩ := husers u' hu'
    obtain ⟨r, hr, hid, hrtenant, _⟩ := hroles r' hr'
    rw [← huid, ← hid] at hlink
    rw [InScope, ← hrtenant]
    exact (hheld u.id r hr hlink).elim (h.held u hu (hutenant.trans htenant) r hr) id
  direct := by
    intro u' hu' htenant p hp hlink
    obtain ⟨u, hu, huid, hutenant⟩ := husers u' hu'
    rw [hpermissions] at hp
    rw [← huid] at hlink
    exact (hdirect u.id p hp hlink).elim (h.direct u hu (hutenant.trans htenant) p hp) id

theorem Confined.same_roles (h : Confined tenantId ceiling t) :
    ∀ r' ∈ t.roles.rows, ∃ r ∈ t.roles.rows, r.id = r'.id ∧ r.tenantId = r'.tenantId ∧
      (InScope (some tenantId) r → Within r'.permissionMask ceiling) :=
  fun r hr => ⟨r, hr, rfl, rfl, h.roleMask r hr⟩

theorem same_users : ∀ u' ∈ t.users.rows,
    ∃ u ∈ t.users.rows, u.id = u'.id ∧ u.tenantId = u'.tenantId :=
  fun u hu => ⟨u, hu, rfl, rfl⟩

/-- An update of users that leaves their tenants alone. -/
theorem updated_users {p : User → Bool} {f : User → User} (hf : ∀ u, (f u).id = u.id)
    (htenant : ∀ u, (f u).tenantId = u.tenantId) : ∀ u' ∈ (t.users.update p f hf).rows,
    ∃ u ∈ t.users.rows, u.id = u'.id ∧ u.tenantId = u'.tenantId := by
  intro u' hu'
  obtain ⟨u, hu, hid, rfl | ⟨_, rfl⟩⟩ := Table.mem_update hu'
  · exact ⟨u', hu, rfl, rfl⟩
  · exact ⟨u, hu, hid, (htenant u).symm⟩

theorem bumped_users {ids : Uuid → Bool} : ∀ u' ∈ (t.bumpPermVersion ids).users.rows,
    ∃ u ∈ t.users.rows, u.id = u'.id ∧ u.tenantId = u'.tenantId :=
  updated_users (by intro _; rfl) (fun _ => rfl)

/-- An update of one role with a mask that is within the ceiling in reach. -/
theorem Confined.updated_roles (h : Confined tenantId ceiling t) {roleId : RoleId}
    {f : Role → Role} (hf : ∀ r, (f r).id = r.id) (htenant : ∀ r, (f r).tenantId = r.tenantId)
    (hmask : ∀ r ∈ t.roles.rows, r.id = roleId → InScope (some tenantId) r →
      Within (f r).permissionMask ceiling) :
    ∀ r' ∈ (t.roles.update (fun r => r.id = roleId) f hf).rows, ∃ r ∈ t.roles.rows,
      r.id = r'.id ∧ r.tenantId = r'.tenantId ∧
        (InScope (some tenantId) r → Within r'.permissionMask ceiling) := by
  intro r' hr'
  obtain ⟨r, hr, hid, rfl | ⟨hp, rfl⟩⟩ := Table.mem_update hr'
  · exact ⟨r', hr, rfl, rfl, h.roleMask r' hr⟩
  · exact ⟨r, hr, hid, (htenant r).symm, hmask r hr (of_decide_eq_true hp)⟩

end Confined

/-! ### One change -/

section Step

variable {tenantId : Uuid} {ceiling : ℕ} {db db' : Db} {es : List Event}

/-- A new role has no links but the attached permissions. -/
theorem Confined.createRole (h : Confined tenantId ceiling db.toTables) {name : String}
    {permissions : List Permission} {mask : ℕ} {role : LoadedRole}
    (hcommit : RoleRepository.createTx name (some tenantId) permissions mask db.toTables =
      .ok (role, db'.toTables, es))
    (hmask : Within mask ceiling) (hpermissions : ∀ p ∈ permissions, BitWithin ceiling p)
    (hrows : ∀ p ∈ permissions, p ∈ db.permissions.rows) :
    Confined tenantId ceiling db'.toTables := by
  obtain ⟨roles, hinsert, ht, _⟩ := RoleRepository.createTx_eq_ok hcommit
  obtain ⟨hfresh, happend⟩ := Table.insert?_eq_some hinsert
  have hfresh : db.roles.get db.rolesIdSeq = none := hfresh
  have hnew : ∀ r ∈ db'.roles.rows, r ∈ db.roles.rows ∨ (r.id = db.rolesIdSeq ∧
      r.tenantId = some tenantId ∧ r.permissionMask = mask) := by
    intro r hr
    rw [ht, happend, List.mem_append, List.mem_singleton] at hr
    rcases hr with hr | rfl
    · exact Or.inl hr
    · exact Or.inr ⟨rfl, rfl, rfl⟩
  -- the links of the old tables name old roles only
  have hold : ∀ id, (db.roles.get id).isSome → id ≠ db.rolesIdSeq := by
    rintro _ hsome rfl
    rw [hfresh] at hsome
    cases hsome
  have hlink : ∀ r p, (r, p) ∈ db'.rolePermissions ↔
      (r, p) ∈ db.rolePermissions ∨ (r = db.rolesIdSeq ∧ ∃ q ∈ permissions, q.id = p) := by
    intro r p
    rw [ht, Finset.mem_union, RoleRepository.mem_links]
  have hscope : ∀ {r : Role}, r.tenantId = some tenantId → InScope (some tenantId) r :=
    fun htenant => Or.inr htenant
  refine ⟨by rw [ht]; exact h.tenant, h.catalogued.of_eq (by rw [ht]), ?_, ?_, ?_, ?_, ?_, ?_⟩
  · intro r hr hin
    rcases hnew r hr with hr | ⟨_, _, rfl⟩
    · exact h.roleMask r hr hin
    · exact hmask
  · intro r hr hin p hp hattached
    have hp : p ∈ db.permissions.rows := by rw [ht] at hp; exact hp
    rcases (hlink _ _).mp hattached with hattached | ⟨_, q, hq, hid⟩
    · rcases hnew r hr with hr | ⟨hid, _⟩
      · exact h.attached r hr hin p hp hattached
      · exact absurd hid (hold _ (db.constraints.rolePermission _ hattached).1)
    · rw [← Table.eq_of_get (hrows q hq) hid (Table.get_of_mem hp)]
      exact hpermissions q hq
  · intro r hr hin p hp hgrantable
    rw [ht] at hp hgrantable
    rcases hnew r hr with hr | ⟨hid, _⟩
    · exact h.grantablePermission r hr hin p hp hgrantable
    · exact absurd hid (hold _ (db.constraints.grantablePermission _ hgrantable).1)
  · intro r hr hin g hg hgrantable
    rw [ht] at hgrantable
    rcases hnew g hg with hg | ⟨_, htenant, _⟩
    · rcases hnew r hr with hr | ⟨hid, _⟩
      · exact h.grantableRole r hr hin g hg hgrantable
      · exact absurd hid (hold _ (db.constraints.grantableRole _ hgrantable).1)
    · exact hscope htenant
  · intro u hu htenant r hr hheld
    rw [ht] at hu hheld
    rcases hnew r hr with hr | ⟨_, htenant, _⟩
    · exact h.held u hu htenant r hr hheld
    · exact hscope htenant
  · rw [ht]
    exact h.direct

/-- A new user holds nothing. -/
theorem Confined.createUser (h : Confined tenantId ceiling db.toTables)
    {data : UserRepository.NewUser} {user : User}
    (hcommit : UserRepository.createTx data db.toTables = .ok (user, db'.toTables, es)) :
    Confined tenantId ceiling db'.toTables := by
  obtain ⟨users, hinsert, ht, _⟩ := UserRepository.createTx_eq_ok hcommit
  obtain ⟨hfresh, happend⟩ := Table.insert?_eq_some hinsert
  have hold : ∀ u ∈ db'.users.rows, u ∈ db.users.rows ∨ db.users.get u.id = none := by
    intro u hu
    rw [ht, happend, List.mem_append, List.mem_singleton] at hu
    rcases hu with hu | rfl
    · exact Or.inl hu
    · exact Or.inr hfresh
  refine ⟨by rw [ht]; exact h.tenant, h.catalogued.of_eq (by rw [ht]), by rw [ht]; exact h.roleMask,
    by rw [ht]; exact h.attached, by rw [ht]; exact h.grantablePermission,
    by rw [ht]; exact h.grantableRole, ?_, ?_⟩
  · intro u hu htenant r hr hheld
    rw [ht] at hr hheld
    rcases hold u hu with hu | hnone
    · exact h.held u hu htenant r hr hheld
    · have hsome := (db.constraints.userRole _ hheld).1
      rw [hnone] at hsome
      cases hsome
  · intro u hu htenant p hp hheld
    rw [ht] at hp hheld
    rcases hold u hu with hu | hnone
    · exact h.direct u hu htenant p hp hheld
    · have hsome := (db.constraints.userPermission _ hheld).1
      rw [hnone] at hsome
      cases hsome

/-- The permissions attached at creation are those of the names in the mask. -/
theorem bitWithin_of_names {t : Tables} {names : List String} {mask : ℕ}
    (hmask : maskFor names = .ok mask) (hwithin : Within mask ceiling) :
    ∀ p ∈ PermissionRepository.getByNames t names, BitWithin ceiling p := by
  intro p hp
  obtain ⟨_, hname⟩ : p ∈ t.permissions.rows ∧ p.name ∈ names := by
    simpa [PermissionRepository.getByNames] using hp
  rw [bitWithin_iff]
  intro b hb
  exact hwithin b ((Registry.testBit_maskFor hmask b).mpr ⟨p.name, hname, hb⟩)

/-- The attached permission has its bit within the ceiling. -/
theorem Confined.addPermission (h : Confined tenantId ceiling db.toTables) {role role' : LoadedRole}
    {permission : Permission} {b : ℕ}
    (hcommit : RoleRepository.addPermissionTx role permission db.toTables =
      .ok (role', db'.toTables, es))
    (hrow : db.roles.get role.id = some role.toRole)
    (hpermission : db.permissions.get permission.id = some permission)
    (hlookup : permissionRegistry.lookup permission.name = some b)
    (hbit : Within (bit b) ceiling) : Confined tenantId ceiling db'.toTables := by
  obtain ⟨_, _, ht, _⟩ := RoleRepository.addPermissionTx_eq_ok hcommit
  rw [ht]
  refine h.of_rows rfl rfl (h.updated_roles (by intro _; rfl) (fun _ => rfl) ?_) bumped_users
    ?_ (fun _ _ _ => Or.inl) (fun _ _ _ => Or.inl) (fun _ _ _ => Or.inl) (fun _ _ _ => Or.inl)
  · intro r hr hid hscope
    obtain rfl := Table.eq_of_get hr hid hrow
    obtain ⟨b', hposition, hlookup'⟩ := h.catalogued.bit (Table.mem_of_get hpermission)
    obtain rfl := Option.some.inj (hlookup.symm.trans hlookup')
    simp only [RoleRepository.maskWith, hposition]
    exact (within_or_iff _ _ _).mpr ⟨h.roleMask _ hr hscope, hbit⟩
  · intro r p hp hlink
    rcases Table.mem_insert_link hp hlink with hold | hnew
    · exact Or.inl hold
    · obtain rfl := Option.some.inj (hnew.symm.trans hpermission)
      refine Or.inr (bitWithin_iff.mpr ?_)
      intro b' hlookup'
      rw [← Option.some.inj (hlookup.symm.trans hlookup')]
      exact (within_bit_iff b ceiling).mp hbit

theorem Confined.removePermission (h : Confined tenantId ceiling db.toTables)
    {role role' : LoadedRole} {permission : Permission}
    (hcommit : RoleRepository.removePermissionTx role permission db.toTables =
      .ok (role', db'.toTables, es))
    (hrow : db.roles.get role.id = some role.toRole) : Confined tenantId ceiling db'.toTables := by
  obtain ⟨_, _, ht, _⟩ := RoleRepository.removePermissionTx_eq_ok hcommit
  rw [ht]
  refine h.of_rows rfl rfl (h.updated_roles (by intro _; rfl) (fun _ => rfl) ?_) bumped_users
    (fun _ _ _ hlink => Or.inl (Finset.mem_of_mem_erase hlink)) (fun _ _ _ => Or.inl)
    (fun _ _ _ => Or.inl) (fun _ _ _ => Or.inl) (fun _ _ _ => Or.inl)
  intro r hr hid hscope
  obtain rfl := Table.eq_of_get hr hid hrow
  have hwithin := h.roleMask _ hr hscope
  simp only [RoleRepository.maskWithout]
  split
  · exact hwithin
  · exact (within_andNot _ _).trans hwithin

/-- A change that a user of the tenant is authorized to make keeps it confined. -/
theorem Confined.step {actor : User} {c : Change} (h : Confined tenantId ceiling db.toTables)
    (hactor : ∃ u, db.users.get actor.id = some u ∧ u.tenantId = some tenantId)
    (htenant : actor.tenantId = some tenantId) (hcur : c.Current db.toTables)
    (hauth : c.Authorized actor db.toTables)
    (hcommit : c.Commits db db' es) : Confined tenantId ceiling db'.toTables := by
  obtain ⟨tokens, ht⟩ := Change.commits_apply hcommit
  cases c with
  | createRole name roleTenant permissions mask =>
    obtain ⟨a, hcommit⟩ := hcommit
    obtain ⟨rfl, hunder⟩ := hauth
    obtain ⟨names, hmask, rfl⟩ := hcur
    rw [htenant] at hunder hcommit
    have hwithin := h.underCeiling hunder
    exact h.createRole hcommit hwithin (bitWithin_of_names hmask hwithin)
      (fun p hp => (List.mem_filter.mp hp).1)
  | createUser data =>
    obtain ⟨a, hcommit⟩ := hcommit
    exact h.createUser hcommit
  | addPermission role permission =>
    obtain ⟨a, hcommit⟩ := hcommit
    obtain ⟨hrow, _, _⟩ := RoleRepository.getById_eq_some hcur.1
    obtain ⟨_, b, hlookup, hunder⟩ := hauth
    rw [htenant] at hunder
    exact h.addPermission hcommit hrow hcur.2 hlookup (h.underCeiling hunder)
  | removePermission role permission =>
    obtain ⟨a, hcommit⟩ := hcommit
    obtain ⟨hrow, _, _⟩ := RoleRepository.getById_eq_some hcur.1
    exact h.removePermission hcommit hrow
  | updateRole role data =>
    rw [ht]
    exact h.of_rows rfl rfl
      (h.updated_roles (by intro _; rfl) (fun _ => rfl) (fun r hr _ => h.roleMask r hr))
      same_users (fun _ _ _ => Or.inl) (fun _ _ _ => Or.inl) (fun _ _ _ => Or.inl)
      (fun _ _ _ => Or.inl) (fun _ _ _ => Or.inl)
  | deleteRole role =>
    rw [ht]
    refine h.of_rows rfl rfl (fun r hr => h.same_roles r (Table.mem_delete hr)) same_users
      ?_ ?_ ?_ ?_ (fun _ _ _ => Or.inl)
    all_goals exact fun _ _ _ hlink => Or.inl (Finset.mem_filter.mp hlink).1
  | addGrantableRole roleId grantableRoleId =>
    rw [ht]
    refine h.of_rows rfl rfl h.same_roles same_users (fun _ _ _ => Or.inl) (fun _ _ _ => Or.inl)
      ?_ (fun _ _ _ => Or.inl) (fun _ _ _ => Or.inl)
    intro r g hg hlink
    refine (Table.mem_insert_link hg hlink).imp id ?_
    intro hget
    rcases hauth with hdelegates | ⟨role, hrole, hroleTenant⟩
    · exact h.delegatesRole hactor hdelegates hget
    · obtain rfl := Option.some.inj (hget.symm.trans hrole)
      exact Or.inr (hroleTenant.trans htenant)
  | removeGrantableRole roleId grantableRoleId =>
    rw [ht]
    exact h.of_rows rfl rfl h.same_roles same_users (fun _ _ _ => Or.inl) (fun _ _ _ => Or.inl)
      (fun _ _ _ hlink => Or.inl (Finset.mem_of_mem_erase hlink)) (fun _ _ _ => Or.inl)
      (fun _ _ _ => Or.inl)
  | addGrantablePermission roleId permissionId =>
    rw [ht]
    refine h.of_rows rfl rfl h.same_roles same_users (fun _ _ _ => Or.inl) ?_
      (fun _ _ _ => Or.inl) (fun _ _ _ => Or.inl) (fun _ _ _ => Or.inl)
    intro r p hp hlink
    exact (Table.mem_insert_link hp hlink).imp id (h.delegatesPermission hactor hauth)
  | removeGrantablePermission roleId permissionId =>
    rw [ht]
    exact h.of_rows rfl rfl h.same_roles same_users (fun _ _ _ => Or.inl)
      (fun _ _ _ hlink => Or.inl (Finset.mem_of_mem_erase hlink)) (fun _ _ _ => Or.inl)
      (fun _ _ _ => Or.inl) (fun _ _ _ => Or.inl)
  | assignToUser roleId userId =>
    rw [ht]
    refine h.of_rows rfl rfl h.same_roles (updated_users (by intro _; rfl) (fun _ => rfl))
      (fun _ _ _ => Or.inl) (fun _ _ _ => Or.inl) (fun _ _ _ => Or.inl) ?_ (fun _ _ _ => Or.inl)
    intro u r hr hlink
    exact (Table.mem_insert_link hr hlink).imp id (h.delegatesRole hactor hauth.1)
  | removeFromUser roleId userId =>
    rw [ht]
    exact h.of_rows rfl rfl h.same_roles (updated_users (by intro _; rfl) (fun _ => rfl))
      (fun _ _ _ => Or.inl) (fun _ _ _ => Or.inl) (fun _ _ _ => Or.inl)
      (fun _ _ _ hlink => Or.inl (Finset.mem_of_mem_erase hlink)) (fun _ _ _ => Or.inl)
  | grantPermission user permission =>
    rw [ht]
    refine h.of_rows rfl rfl h.same_roles (updated_users (by intro _; rfl) (fun _ => rfl))
      (fun _ _ _ => Or.inl) (fun _ _ _ => Or.inl) (fun _ _ _ => Or.inl) (fun _ _ _ => Or.inl) ?_
    intro u p hp hlink
    exact (Table.mem_insert_link hp hlink).imp id (h.delegatesPermission hactor hauth.1)
  | revokePermission user permission =>
    rw [ht]
    exact h.of_rows rfl rfl h.same_roles (updated_users (by intro _; rfl) (fun _ => rfl))
      (fun _ _ _ => Or.inl) (fun _ _ _ => Or.inl) (fun _ _ _ => Or.inl) (fun _ _ _ => Or.inl)
      (fun _ _ _ hlink => Or.inl (Finset.mem_of_mem_erase hlink))
  | setUserActive user isActive =>
    rw [ht]
    exact h.of_rows rfl rfl h.same_roles (updated_users (by intro _; rfl) (fun _ => rfl))
      (fun _ _ _ => Or.inl) (fun _ _ _ => Or.inl) (fun _ _ _ => Or.inl) (fun _ _ _ => Or.inl)
      (fun _ _ _ => Or.inl)
  | _ => exact hauth.elim

/-- A call keeps the tenant confined: its actor stays a user of the tenant
between the transactions. -/
theorem Confined.request {actor : User} {call : Call} {getPasswordHash : String → Except Err String}
    (h : Confined tenantId ceiling db.toTables) (hactor : db.users.get actor.id = some actor)
    (htenant : actor.tenantId = some tenantId) (hsuper : actor.isSuperuser = false) :
    Confined tenantId ceiling
      (FastapiTemplate.request getPasswordHash actor.id call db).2.1.toTables := by
  rcases hrun : FastapiTemplate.request getPasswordHash actor.id call db with ⟨r, db', es⟩
  refine ((path_of_request hactor hrun).invariant (I := fun s =>
    Confined tenantId ceiling s.toTables ∧
      ∃ u, s.users.get actor.id = some u ∧ u.tenantId = some tenantId) ?_
    ⟨h, actor, hactor, htenant⟩).1
  rintro s s' es ⟨c, _, hcur, hauth, hcommit⟩ ⟨hs, u, hu, hutenant⟩
  refine ⟨hs.step ⟨u, hu, hutenant⟩ htenant hcur (hauth hsuper) hcommit, ?_⟩
  obtain ⟨u', hu', hstep⟩ := Change.row_step hcur hcommit hu
  exact ⟨u', hu', hstep.tenantId.trans hutenant⟩

end Step

/-! ### Runs -/

/-- Calls, successful or raising, of users of the tenant who are no superusers. -/
inductive TenantRun (tenantId : Uuid) (db : Db) : Db → Prop
  | start : TenantRun tenantId db db
  | call {db' : Db} (getPasswordHash : String → Except Err String) (actor : User) (call : Call) :
      TenantRun tenantId db db' → db'.users.get actor.id = some actor →
      actor.tenantId = some tenantId → actor.isSuperuser = false →
      TenantRun tenantId db (request getPasswordHash actor.id call db').2.1

/-- After every run of a tenant's users the tenant is confined to its ceiling. -/
theorem confined_of_run {tenantId : Uuid} {ceiling : ℕ} {db db' : Db}
    (h : Confined tenantId ceiling db.toTables) (hrun : TenantRun tenantId db db') :
    Confined tenantId ceiling db'.toTables ∧
      ∀ u ∈ db'.users.rows, u.tenantId = some tenantId →
        andNot (effectivePermissionMask (db'.loadUser u)) ceiling = 0 := by
  have hconfined : Confined tenantId ceiling db'.toTables := by
    induction hrun with
    | start => exact h
    | call getPasswordHash actor call _ hactor htenant hsuper ih =>
      exact ih.request hactor htenant hsuper
  exact ⟨hconfined, fun u hu htenant => hconfined.mask_within hu htenant⟩

/-- A tenant whose ceiling is `role:create`, `role:read` and `role:read.id`. -/
def acme : Db :=
  (request .ok 1 (.createTenantWithAdmin 10 11 ⟨"acme", "boss", "boss@example.com", "pw",
    some ["role:create", "role:read", "role:read.id"]⟩) seeded).2.1

theorem acme_reachable : Reachable acme := .request _ _ _ seeded_reachable

def boss : User where
  id := 11
  username := "boss"
  email := "boss@example.com"
  password := some "pw"
  isVerified := true
  isSuperuser := false
  isActive := true
  createdById := some 1
  tenantId := some 10
  permVersion := 2

/-- The tenant after its admin has authored a role. -/
def acmeViewer : Db := (request .ok boss.id (.createRole ⟨"viewer", ["role:read"]⟩) acme).2.1

theorem acmeViewer_confined :
    Confined 10 7 acmeViewer.toTables ∧ ∀ u ∈ acmeViewer.users.rows, u.tenantId = some 10 →
      andNot (effectivePermissionMask (acmeViewer.loadUser u)) 7 = 0 := by
  have hstart : Confined 10 7 acme.toTables := by decide +kernel
  have hboss : acme.users.get boss.id = some boss := by decide +kernel
  have hrun : TenantRun 10 acme acmeViewer := .call .ok boss _ .start hboss rfl rfl
  exact confined_of_run hstart hrun

end FastapiTemplate
