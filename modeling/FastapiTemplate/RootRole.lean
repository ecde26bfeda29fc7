import FastapiTemplate.TenantCeilings

/-!
What an edit of a tenant's ceiling does to the roles. The root role of a tenant
is found again by the name "tenant-admin", which the users of the tenant may
give to another role and take from the root role. The edit touches the root
role alone exactly when the name still leads to it, up to roles that hold the
new ceiling already.
-/
namespace FastapiTemplate

open Library.KeyedTable Library.Committing Library.BitMask

/-! ### The rows of the roles over a run -/

/-- The change makes a role of that name. -/
inductive Change.MakesRole (name : String) (tenantId : Option Uuid) : Change → Prop
  | created (permissions : List Permission) (mask : ℕ) :
      MakesRole name tenantId (.createRole name tenantId permissions mask)
  | bootstrapped (owner : Uuid) (allowed : ℕ) :
      MakesRole name tenantId (.createRootTenantRole owner allowed)

def Change.Renames : Change → Prop
  | updateRole _ _ => True
  | _ => False

section Rows

variable {t : Tables} {c : Change} {r' : Role}

/-- A row of the roles comes from the row of the same role, or it is new. -/
theorem Change.role_row (hr' : r' ∈ (c.apply t).roles.rows) :
    (∃ r ∈ t.roles.rows, r.id = r'.id ∧ r.tenantId = r'.tenantId ∧
      (r.name = r'.name ∨ c.Renames)) ∨
      r'.id = t.rolesIdSeq ∧ c.MakesRole r'.name r'.tenantId := by
  have hsame (hmem : r' ∈ t.roles.rows) : ∃ r ∈ t.roles.rows, r.id = r'.id ∧
      r.tenantId = r'.tenantId ∧ (r.name = r'.name ∨ c.Renames) :=
    ⟨r', hmem, rfl, rfl, Or.inl rfl⟩
  have hupdate {p : Role → Bool} {f : Role → Role} (hf : ∀ r, (f r).id = r.id)
      (hmem : r' ∈ (t.roles.update p f hf).rows) (htenant : ∀ r, (f r).tenantId = r.tenantId)
      (hname : ∀ r, (f r).name = r.name ∨ c.Renames) : ∃ r ∈ t.roles.rows, r.id = r'.id ∧
        r.tenantId = r'.tenantId ∧ (r.name = r'.name ∨ c.Renames) := by
    obtain ⟨r, hr, hid, rfl | ⟨_, rfl⟩⟩ := Table.mem_update hmem
    · exact hsame hr
    · exact ⟨r, hr, hid, (htenant r).symm, (hname r).imp Eq.symm id⟩
  cases c with
  | createRole name tenantId permissions mask =>
    rcases Table.mem_insertD hr' with hold | rfl
    · exact Or.inl (hsame hold)
    · exact Or.inr ⟨rfl, .created permissions mask⟩
  | createRootTenantRole tenantId allowed =>
    rcases Table.mem_insertD hr' with hold | rfl
    · exact Or.inl (hsame hold)
    · exact Or.inr ⟨rfl, .bootstrapped tenantId allowed⟩
  | syncRootTenantRole tenantId allowed =>
    simp only [apply] at hr'
    split at hr'
    · exact Or.inl (hsame hr')
    · exact Or.inl (hupdate (by intro _; rfl) hr' (fun _ => rfl) (fun _ => Or.inl rfl))
  | updateRole role data =>
    exact Or.inl (hupdate (by intro _; rfl) hr' (fun _ => rfl) (fun _ => Or.inr trivial))
  | deleteRole role => exact Or.inl (hsame (Table.mem_delete hr'))
  | addPermission role permission =>
    exact Or.inl (hupdate (by intro _; rfl) hr' (fun _ => rfl) (fun _ => Or.inl rfl))
  | removePermission role permission =>
    exact Or.inl (hupdate (by intro _; rfl) hr' (fun _ => rfl) (fun _ => Or.inl rfl))
  | _ => exact Or.inl (hsame hr')

theorem Change.rolesIdSeq_le : t.rolesIdSeq ≤ (c.apply t).rolesIdSeq := by
  have hstep : t.rolesIdSeq ≤ t.rolesIdSeq + 1 := Int.le_add_one (Int.le_refl _)
  cases c with
  | createRole name tenantId permissions mask => exact hstep
  | createRootTenantRole tenantId allowed => exact hstep
  | syncRootTenantRole tenantId allowed =>
    simp only [apply]
    split <;> exact Int.le_refl _
  | _ => exact Int.le_refl _

end Rows

/-- The identifier is of a role of the tenant, if of any. -/
structure RootOf (tenantId : Uuid) (rootId : RoleId) (t : Tables) : Prop where
  drawn : rootId < t.rolesIdSeq
  tenant : ∀ r ∈ t.roles.rows, r.id = rootId → r.tenantId = some tenantId

/-- The root role is the tenant's only role of that name. -/
def RootNamed (tenantId : Uuid) (rootId : RoleId) (t : Tables) : Prop :=
  ∀ r ∈ t.roles.rows, r.tenantId = some tenantId → (r.name = "tenant-admin" ↔ r.id = rootId)

section Root

variable {tenantId : Uuid} {rootId : RoleId} {db db' : Db} {c : Change} {es : List Event}

theorem RootOf.change (h : RootOf tenantId rootId db.toTables) (hcommit : c.Commits db db' es) :
    RootOf tenantId rootId db'.toTables := by
  obtain ⟨tokens, ht⟩ := Change.commits_apply hcommit
  rw [ht]
  refine ⟨lt_of_lt_of_le h.drawn Change.rolesIdSeq_le, ?_⟩
  intro r' hr' hid
  rcases Change.role_row hr' with ⟨r, hr, hsame, htenant, _⟩ | ⟨hnew, _⟩
  · rw [← htenant]
    exact h.tenant r hr (hsame.trans hid)
  · have hdrawn := h.drawn
    rw [← hid, hnew] at hdrawn
    exact absurd hdrawn (lt_irrefl _)

/-- A change that renames no role and makes none of the name. -/
theorem RootNamed.change (h : RootNamed tenantId rootId db.toTables)
    (hroot : RootOf tenantId rootId db.toTables) (hcommit : c.Commits db db' es)
    (hrenames : ¬ c.Renames) (hmakes : ∀ owner, ¬ c.MakesRole "tenant-admin" owner) :
    RootNamed tenantId rootId db'.toTables := by
  obtain ⟨tokens, ht⟩ := Change.commits_apply hcommit
  rw [ht]
  intro r' hr' htenant'
  rcases Change.role_row hr' with ⟨r, hr, hsame, htenant, hname⟩ | ⟨hnew, hmake⟩
  · rw [← hname.resolve_right hrenames, ← hsame]
    exact h r hr (htenant.trans htenant')
  · constructor
    · intro hname
      rw [hname] at hmake
      exact absurd hmake (hmakes r'.tenantId)
    · intro hid
      have hdrawn := hroot.drawn
      rw [← hid, hnew] at hdrawn
      exact absurd hdrawn (lt_irrefl _)

end Root

/-! ### The tenant and its root role -/

section Start

variable {getPasswordHash : String → Except Err String} {tenantId userId : Uuid}
  {data : TenantCreate} {db db' : Db} {es : List Event}

/-- The role that `create_root_tenant_role` makes, on the next identifier. -/
def RootMade (db s : Db) (tenantId : Uuid) : Prop :=
  s.rolesIdSeq = db.rolesIdSeq + 1 ∧
    ∃ mask, s.roles.get db.rolesIdSeq =
      some ⟨db.rolesIdSeq, "tenant-admin", some tenantId, mask⟩

/-- A created tenant has its root role. -/
theorem does_createTenantWithAdmin_root {actor : LoadedUser} :
    Does (fun _ _ _ => True)
      (TenantService.createTenantWithAdmin getPasswordHash tenantId userId actor data) db
      (fun _ s => RootMade db s tenantId) := by
  refine Does.ensure_bind ?_
  intro _
  refine does_query (Does.ensure_bind ?_)
  intro _
  refine does_query (Does.ensure_bind ?_)
  intro _
  refine does_query (Does.ensure_bind ?_)
  intro _
  refine Does.ofExcept_bind ?_
  intro requested _
  refine Does.bind (Q := fun (tenant : Tenant) (s : Db) =>
    tenant.id = tenantId ∧ s.rolesIdSeq = db.rolesIdSeq) ?_ ?_
  · refine does_transaction ?_
    intro tenant s es hcommit
    obtain ⟨_, _, ht, rfl, _⟩ := TenantRepository.createTx_eq_ok hcommit
    exact ⟨trivial, rfl, by rw [ht]⟩
  rintro tenant s₁ ⟨rfl, hseq⟩
  refine Does.bind (Q := fun _ (s : Db) => RootMade db s tenant.id) ?_ ?_
  · refine does_transaction ?_
    intro role s₂ es hcommit
    obtain ⟨roles, hinsert, ht, _⟩ := RoleRepository.createRootTenantRoleTx_eq_ok hcommit
    have hrow := Table.get_insert?_self hinsert
    refine ⟨trivial, by rw [ht, ← hseq], requested &&& tenantRoleMask &&& tenantRoleMask, ?_⟩
    rw [ht, ← hseq]
    exact hrow
  rintro role s₂ hmade
  refine Does.ofExcept_bind ?_
  intro password _
  refine Does.bind (Q := fun _ (s : Db) => RootMade db s tenant.id) ?_ ?_
  · refine does_transaction ?_
    intro user s₃ es hcommit
    obtain ⟨_, _, ht, _⟩ := UserRepository.createTx_eq_ok hcommit
    rw [RootMade, ht]
    exact ⟨trivial, hmade⟩
  rintro user s₃ hmade
  refine Does.bind (Q := fun _ (s : Db) => RootMade db s tenant.id) ?_
    (fun _ _ hmade => Does.pure hmade)
  refine does_transaction ?_
  intro _ s₄ es hcommit
  obtain ⟨_, ht, _⟩ := RoleRepository.assignToUserTx_eq_ok hcommit
  rw [RootMade, ht]
  exact ⟨trivial, hmade⟩

theorem rootMade_of_request {creatorId : Uuid}
    (h : request getPasswordHash creatorId (.createTenantWithAdmin tenantId userId data) db =
      (.ok (), db', es)) : RootMade db db' tenantId := by
  have hdoes : Does (fun _ _ _ => True)
      (request getPasswordHash creatorId (.createTenantWithAdmin tenantId userId data)) db
      (fun _ s => RootMade db s tenantId) := by
    refine does_request ?_
    intro user _ _
    exact Does.bind does_createTenantWithAdmin_root (fun _ _ hmade => Does.pure hmade)
  have hpost := hdoes.2
  rw [h] at hpost
  exact hpost () rfl

end Start

/-! ### The edit -/

/-- The permission has a bit of the ceiling. -/
def Tables.OfCeiling (t : Tables) (ceiling : ℕ) (permissionId : PermissionId) : Prop :=
  ∃ p, t.permissions.get permissionId = some p ∧
    ∃ b, p.bitPosition = some b ∧ ceiling.testBit b = true

/-- The role is there, and holds and may grant exactly the ceiling. -/
structure ExactlyCeiling (t : Tables) (roleId : RoleId) (ceiling : ℕ) : Prop where
  mask : (t.roles.get roleId).map Role.permissionMask = some ceiling
  attached : ∀ p, (roleId, p) ∈ t.rolePermissions ↔ t.OfCeiling ceiling p
  grantable : ∀ p, (roleId, p) ∈ t.roleGrantablePermissions ↔ t.OfCeiling ceiling p

/-- The role is there as before, with its permissions, its mask and what it
may grant. -/
structure RoleKept (t t' : Tables) (roleId : RoleId) : Prop where
  mask : (t'.roles.get roleId).map Role.permissionMask =
    (t.roles.get roleId).map Role.permissionMask
  attached : ∀ p, (roleId, p) ∈ t'.rolePermissions ↔ (roleId, p) ∈ t.rolePermissions
  grantable : ∀ p,
    (roleId, p) ∈ t'.roleGrantablePermissions ↔ (roleId, p) ∈ t.roleGrantablePermissions

section Kept

variable {t t' : Tables} {roleId : RoleId} {ceiling : ℕ}

theorem RoleKept.of_eq (hroles : t'.roles = t.roles)
    (hattached : t'.rolePermissions = t.rolePermissions)
    (hgrantable : t'.roleGrantablePermissions = t.roleGrantablePermissions) :
    RoleKept t t' roleId :=
  ⟨by rw [hroles], fun _ => by rw [hattached], fun _ => by rw [hgrantable]⟩

theorem RoleKept.trans {t'' : Tables} (h : RoleKept t t' roleId) (h' : RoleKept t' t'' roleId) :
    RoleKept t t'' roleId :=
  ⟨h'.mask.trans h.mask, fun p => (h'.attached p).trans (h.attached p),
    fun p => (h'.grantable p).trans (h.grantable p)⟩

theorem ofCeiling_congr (hpermissions : t'.permissions = t.permissions) (p : PermissionId) :
    t'.OfCeiling ceiling p ↔ t.OfCeiling ceiling p := by
  rw [Tables.OfCeiling, Tables.OfCeiling, hpermissions]

theorem RoleKept.exactly_iff (h : RoleKept t t' roleId)
    (hpermissions : t'.permissions = t.permissions) :
    ExactlyCeiling t' roleId ceiling ↔ ExactlyCeiling t roleId ceiling := by
  constructor
  · rintro ⟨hmask, hattached, hgrantable⟩
    refine ⟨h.mask.symm.trans hmask, ?_, ?_⟩
    · intro p
      rw [← h.attached, hattached, ofCeiling_congr hpermissions]
    · intro p
      rw [← h.grantable, hgrantable, ofCeiling_congr hpermissions]
  · rintro ⟨hmask, hattached, hgrantable⟩
    refine ⟨h.mask.trans hmask, ?_, ?_⟩
    · intro p
      rw [h.attached, hattached, ofCeiling_congr hpermissions]
    · intro p
      rw [h.grantable, hgrantable, ofCeiling_congr hpermissions]

/-- A role that holds exactly the ceiling after as before is kept. -/
theorem ExactlyCeiling.kept (h : ExactlyCeiling t roleId ceiling)
    (h' : ExactlyCeiling t' roleId ceiling) (hpermissions : t'.permissions = t.permissions) :
    RoleKept t t' roleId := by
  refine ⟨h'.mask.trans h.mask.symm, ?_, ?_⟩
  · intro p
    rw [h'.attached, h.attached, ofCeiling_congr hpermissions]
  · intro p
    rw [h'.grantable, h.grantable, ofCeiling_congr hpermissions]

/-- The links that the resync writes. -/
theorem Tables.Catalogued.mem_links_permissionRows (hcat : t.Catalogued) {allowed : ℕ}
    {p : PermissionId} :
    (roleId, p) ∈ RoleRepository.links roleId
        (RoleRepository.permissionRows t (allowed &&& tenantRoleMask)) ↔
      t.OfCeiling (allowed &&& tenantRoleMask) p := by
  rw [RoleRepository.mem_links]
  constructor
  · rintro ⟨_, q, hq, rfl⟩
    have hrow := mem_permissionRows hq
    obtain ⟨_, hbits⟩ := List.mem_filter.mp hq
    rcases hbit : q.bitPosition with _ | b
    · rw [hbit] at hbits
      cases hbits
    · exact ⟨q, Table.get_of_mem hrow, b, hbit, hcat.testBit_permissionRows.mpr ⟨q, hq, hbit⟩⟩
  · rintro ⟨q, hget, b, hbit, htest⟩
    obtain rfl := Table.key_of_get hget
    have hrow := Table.mem_of_get hget
    obtain ⟨name, hlookup, hname⟩ := (testBit_tenantRoleMask b).mp (testBit_right_of_and htest)
    obtain rfl := lookup_injective ((hcat.bit_iff hrow).mp hbit) hlookup
    refine ⟨rfl, q, ?_, rfl⟩
    rw [RoleRepository.permissionRows, List.mem_filter, List.mem_filter, hbit]
    exact ⟨⟨hrow, by simpa using hname⟩, by simpa using (and_bit_ne_zero_iff _ _).mpr htest⟩

/-- The role that is found gets exactly the ceiling, and the others are kept. -/
theorem resync_of_commit {tenantId : Uuid} {allowed : ℕ} {a : Option LoadedRole}
    {es : List Event} (hcat : t.Catalogued)
    (h : RoleRepository.syncRootTenantRolePermissionsTx tenantId allowed t = .ok (a, t', es)) :
    (RoleRepository.getByName t "tenant-admin" (some tenantId) = none ∧
      ∀ roleId, RoleKept t t' roleId) ∨
      ∃ role, RoleRepository.getByName t "tenant-admin" (some tenantId) = some role ∧
        ExactlyCeiling t' role.id (allowed &&& tenantRoleMask) ∧
        ∀ roleId, roleId ≠ role.id → RoleKept t t' roleId := by
  rcases RoleRepository.syncRootTenantRolePermissionsTx_eq_ok h with
    ⟨hnone, rfl, _⟩ | ⟨role, hrole, hsync⟩
  · exact Or.inl ⟨hnone, fun roleId => .of_eq rfl rfl rfl⟩
  · obtain ⟨hget, _, _⟩ := RoleRepository.getByName_eq_some hrole
    obtain ⟨_, rfl, _⟩ := RoleRepository.resyncRole_eq_ok hsync
    refine Or.inr ⟨role, hrole, ⟨?_, ?_, ?_⟩, ?_⟩
    · rw [Tables.bumpPermVersion_roles, Table.get_update, hget]
      simp
    · intro p
      refine Iff.trans ?_ (@Tables.Catalogued.mem_links_permissionRows t role.id hcat allowed p)
      simp
    · intro p
      refine Iff.trans ?_ (@Tables.Catalogued.mem_links_permissionRows t role.id hcat allowed p)
      simp
    · intro roleId hne
      refine ⟨?_, ?_, ?_⟩
      · rw [Tables.bumpPermVersion_roles, Table.get_update, Option.map_map]
        refine Option.map_congr ?_
        intro r hr
        have hid : r.id ≠ role.id := by
          rw [Table.key_of_get hr]
          exact hne
        simp [hid]
      · intro p
        simp [RoleRepository.mem_links, hne]
      · intro p
        simp [RoleRepository.mem_links, hne]

end Kept

/-- The root role becomes the ceiling, and the other roles are kept. -/
structure TouchesRootOnly (rootId : RoleId) (ceiling : ℕ) (t t' : Tables) : Prop where
  others : ∀ roleId, roleId ≠ rootId → RoleKept t t' roleId
  root : (t.roles.get rootId).isSome → ExactlyCeiling t' rootId ceiling

/-- The name leads to the root role alone, up to roles that hold exactly the
ceiling already. -/
structure NameLeads (tenantId : Uuid) (rootId : RoleId) (ceiling : ℕ) (t : Tables) : Prop where
  found : ∀ r ∈ t.roles.rows, r.tenantId = some tenantId → r.name = "tenant-admin" →
    r.id = rootId ∨ ExactlyCeiling t r.id ceiling
  root : ∀ r ∈ t.roles.rows, r.id = rootId →
    r.name = "tenant-admin" ∨ ExactlyCeiling t rootId ceiling

theorem RootNamed.nameLeads {tenantId : Uuid} {rootId : RoleId} {t : Tables}
    (h : RootNamed tenantId rootId t) (hroot : RootOf tenantId rootId t) (ceiling : ℕ) :
    NameLeads tenantId rootId ceiling t :=
  ⟨fun r hr htenant hname => Or.inl ((h r hr htenant).mp hname),
    fun r hr hid => Or.inl ((h r hr (hroot.tenant r hr hid)).mpr hid)⟩

section Edit

variable {tenantId : Uuid} {rootId : RoleId} {ceiling : ℕ} {db db' : Db}

/-- Two roles of a tenant have different names. -/
theorem Db.role_name_unique (db : Db) {r r' : Role} (hr : r ∈ db.roles.rows)
    (hr' : r' ∈ db.roles.rows) (htenant : r.tenantId = r'.tenantId) (hname : r.name = r'.name) :
    r = r' :=
  List.inj_on_of_nodup_map db.constraints.roleName hr hr' (by rw [htenant, hname])

theorem getByName_eq_none {t : Tables} {name : String} {owner : Option Uuid} {r : Role}
    (h : RoleRepository.getByName t name owner = none) (hr : r ∈ t.roles.rows)
    (htenant : r.tenantId = owner) : r.name ≠ name := by
  intro hname
  have hrow := List.find?_eq_none.mp h r hr
  simp [hname, htenant] at hrow

/-- No role has the name: the root role had to hold the ceiling already. -/
theorem touchesRootOnly_iff_of_none (hroot : RootOf tenantId rootId db.toTables)
    (hpermissions : db'.permissions = db.permissions)
    (hnone : RoleRepository.getByName db.toTables "tenant-admin" (some tenantId) = none)
    (hkept : ∀ roleId, RoleKept db.toTables db'.toTables roleId) :
    TouchesRootOnly rootId ceiling db.toTables db'.toTables ↔
      NameLeads tenantId rootId ceiling db.toTables := by
  constructor
  · rintro ⟨_, hexact⟩
    refine ⟨?_, ?_⟩
    · intro r hr htenant hname
      exact absurd hname (getByName_eq_none hnone hr htenant)
    · rintro r hr rfl
      have hsome : (db.roles.get r.id).isSome := by
        rw [Table.get_of_mem hr]
        rfl
      exact Or.inr (((hkept r.id).exactly_iff hpermissions).mp (hexact hsome))
  · rintro ⟨_, hleads⟩
    refine ⟨fun roleId _ => hkept roleId, ?_⟩
    intro hsome
    obtain ⟨r, hget⟩ := Option.isSome_iff_exists.mp hsome
    obtain rfl := Table.key_of_get hget
    have hr := Table.mem_of_get hget
    have hname := getByName_eq_none hnone hr (hroot.tenant r hr rfl)
    exact ((hkept r.id).exactly_iff hpermissions).mpr ((hleads r hr rfl).resolve_left hname)

/-- A role has the name: it is the root role, or it held the ceiling already
and so did the root role. -/
theorem touchesRootOnly_iff_of_some {role : Role} (hroot : RootOf tenantId rootId db.toTables)
    (hpermissions : db'.permissions = db.permissions)
    (hfound : RoleRepository.getByName db.toTables "tenant-admin" (some tenantId) = some role)
    (hexact : ExactlyCeiling db'.toTables role.id ceiling)
    (hkept : ∀ roleId, roleId ≠ role.id → RoleKept db.toTables db'.toTables roleId) :
    TouchesRootOnly rootId ceiling db.toTables db'.toTables ↔
      NameLeads tenantId rootId ceiling db.toTables := by
  obtain ⟨hget, hname, htenant⟩ := RoleRepository.getByName_eq_some hfound
  have hmem := Table.mem_of_get hget
  have hunique : ∀ r ∈ db.roles.rows, r.tenantId = some tenantId → r.name = "tenant-admin" →
      r = role := by
    intro r hr hrtenant hrname
    exact db.role_name_unique hr hmem (hrtenant.trans htenant.symm) (hrname.trans hname.symm)
  by_cases hid : role.id = rootId
  · -- the name leads to the root role
    constructor
    · intro _
      refine ⟨?_, ?_⟩
      · intro r hr hrtenant hrname
        rw [hunique r hr hrtenant hrname]
        exact Or.inl hid
      · intro r hr hrid
        rw [Table.eq_of_get hr (hrid.trans hid.symm) hget]
        exact Or.inl hname
    · intro _
      rw [← hid]
      exact ⟨hkept, fun _ => hexact⟩
  · have hrootKept := hkept rootId (Ne.symm hid)
    constructor
    · rintro ⟨hothers, hrootExact⟩
      refine ⟨?_, ?_⟩
      · intro r hr hrtenant hrname
        rw [hunique r hr hrtenant hrname]
        exact Or.inr (((hothers role.id hid).exactly_iff hpermissions).mp hexact)
      · rintro r hr rfl
        have hsome : (db.roles.get r.id).isSome := by
          rw [Table.get_of_mem hr]
          rfl
        exact Or.inr ((hrootKept.exactly_iff hpermissions).mp (hrootExact hsome))
    · rintro ⟨hleads, hrootLeads⟩
      have hbefore := (hleads role hmem htenant hname).resolve_left hid
      refine ⟨?_, ?_⟩
      · intro roleId _
        by_cases hrole : roleId = role.id
        · rw [hrole]
          exact hbefore.kept hexact hpermissions
        · exact hkept roleId hrole
      · intro hsome
        obtain ⟨r, hrget⟩ := Option.isSome_iff_exists.mp hsome
        have hr := Table.mem_of_get hrget
        have hrid := Table.key_of_get hrget
        refine (hrootKept.exactly_iff hpermissions).mpr ((hrootLeads r hr hrid).resolve_left ?_)
        intro hrname
        rw [hunique r hr (hroot.tenant r hr hrid) hrname] at hrid
        exact hid hrid

theorem getTenant_run {r : Except Err Tenant} {es : List Event}
    (h : TenantService.getTenant tenantId db = (r, db', es)) :
    db' = db ∧ ∀ tenant, r = .ok tenant → db.tenants.get tenantId = some tenant := by
  unfold TenantService.getTenant TenantRepository.getById at h
  rw [query, Action.read_bind_apply] at h
  rcases hget : db.tenants.get tenantId with _ | tenant
  · rw [hget] at h
    cases h
    exact ⟨rfl, fun _ hok => by cases hok⟩
  · rw [hget] at h
    cases h
    exact ⟨rfl, fun _ hok => by rw [Except.ok.inj hok]⟩

/-- The two transactions of the edit: the ceiling is stored, then the role that
is found is resynced. A rejected edit has not reached the roles. -/
theorem updateTenantPermissions_run {actor : LoadedUser} {names : List String}
    {r : Except Err Tenant} {es : List Event}
    (h : TenantService.updateTenantPermissions actor tenantId names db = (r, db', es)) :
    (∃ e, r = .error e) ∧ (∀ roleId, RoleKept db.toTables db'.toTables roleId) ∨
      ∃ (tenant updated : Tenant) (requested : ℕ) (s : Db) (a : Option LoadedRole)
        (fs : List Event), r = .ok updated ∧ db.tenants.get tenantId = some tenant ∧
        maskFor names = .ok requested ∧
        s.toTables = { db.toTables with
          tenants := db.tenants.update (fun x => x.id = tenant.id)
            (fun x => { x with allowedPermissionMask := requested &&& tenantRoleMask })
            (fun _ => rfl) } ∧
        RoleRepository.syncRootTenantRolePermissionsTx tenantId (requested &&& tenantRoleMask)
          s.toTables = .ok (a, db'.toTables, fs) := by
  have hsame : ∀ roleId, RoleKept db.toTables db.toTables roleId :=
    fun roleId => .of_eq rfl rfl rfl
  unfold TenantService.updateTenantPermissions at h
  rcases Action.ensure_bind_run h with ⟨_, rfl, rfl⟩ | ⟨_, hallowed⟩
  · exact Or.inl ⟨⟨_, rfl⟩, hsame⟩
  rcases Action.bind_run hallowed with ⟨e, hmissing, rfl⟩ | ⟨tenant, s, _, _, hfound, hrest, _⟩
  · obtain ⟨rfl, _⟩ := getTenant_run hmissing
    exact Or.inl ⟨⟨e, rfl⟩, hsame⟩
  obtain ⟨rfl, htenant⟩ := getTenant_run hfound
  rcases Action.ofExcept_bind_run hrest with ⟨e, _, rfl, rfl⟩ | ⟨requested, hrequested, hset⟩
  · exact Or.inl ⟨⟨e, rfl⟩, hsame⟩
  rcases Action.bind_run hset with ⟨e, hfail, rfl⟩ | ⟨updated, s₁, _, _, hstored, hsync, _⟩
  · rcases transaction_run hfail with ⟨_, _, rfl, _⟩ | ⟨_, hok, _⟩
    · exact Or.inl ⟨⟨e, rfl⟩, hsame⟩
    · cases hok
  rcases transaction_run hstored with ⟨_, hok, _⟩ | ⟨_, hok, hbody⟩
  · cases hok
  cases hok
  obtain ⟨ht, rfl, _⟩ := TenantRepository.setAllowedPermissionMaskTx_eq_ok hbody
  have hid : tenant.id = tenantId := Table.key_of_get (htenant tenant rfl)
  rcases Action.bind_run hsync with ⟨e, hfail, rfl⟩ | ⟨a, s₂, _, _, hsynced, hend, _⟩
  · rcases transaction_run hfail with ⟨_, _, rfl, _⟩ | ⟨_, hok, _⟩
    · refine Or.inl ⟨⟨e, rfl⟩, ?_⟩
      intro roleId
      exact .of_eq (by rw [ht]) (by rw [ht]) (by rw [ht])
    · cases hok
  cases hend
  rcases transaction_run hsynced with ⟨_, hok, _⟩ | ⟨_, hok, hresynced⟩
  · cases hok
  cases hok
  rw [hid] at hresynced
  exact Or.inr ⟨tenant, _, requested, s₁, a, _, rfl, htenant tenant rfl, hrequested, ht,
    hresynced⟩

/-- What a call of `update_tenant_permissions` is to the roles: a rejected one
keeps them all. -/
def EditOutcome (tenantId : Uuid) (rootId : RoleId) (names : List String) (db db' : Db)
    (r : Except Err Unit) : Prop :=
  (∃ e, r = .error e) ∧ (∀ roleId, RoleKept db.toTables db'.toTables roleId) ∨
    r = .ok () ∧ ∃ requested, maskFor names = .ok requested ∧
      (db'.tenants.get tenantId).map Tenant.allowedPermissionMask =
        some (requested &&& tenantRoleMask) ∧
      (TouchesRootOnly rootId (requested &&& tenantRoleMask) db.toTables db'.toTables ↔
        NameLeads tenantId rootId (requested &&& tenantRoleMask) db.toTables)

theorem editOutcome_of_request {getPasswordHash : String → Except Err String} {actorId : Uuid}
    {names : List String} {r : Except Err Unit} {es : List Event}
    (hcat : db.toTables.Catalogued) (hroot : RootOf tenantId rootId db.toTables)
    (h : request getPasswordHash actorId (.updateTenantPermissions tenantId names) db =
      (r, db', es)) : EditOutcome tenantId rootId names db db' r := by
  have hsame : ∀ roleId, RoleKept db.toTables db.toTables roleId :=
    fun roleId => .of_eq rfl rfl rfl
  rcases Action.require_bind_run h with ⟨_, rfl, rfl⟩ | ⟨actor, _, hcall⟩
  · exact Or.inl ⟨⟨_, rfl⟩, hsame⟩
  rcases Action.bind_run hcall with ⟨e, hfail, rfl⟩ | ⟨tenant, s, _, _, hdone, hend, _⟩
  · rcases updateTenantPermissions_run hfail with ⟨_, hkept⟩ | ⟨_, _, _, _, _, _, hok, _⟩
    · exact Or.inl ⟨⟨e, rfl⟩, hkept⟩
    · cases hok
  cases hend
  rcases updateTenantPermissions_run hdone with ⟨⟨_, hfail⟩, _⟩ |
    ⟨stored, _, requested, s, _, _, _, hstored, hrequested, ht, hsync⟩
  · cases hfail
  obtain ⟨hpermissions, htenants⟩ : db'.permissions = db.permissions ∧
      db'.tenants = s.tenants := by
    have hcommit : (Change.syncRootTenantRole tenantId (requested &&& tenantRoleMask)).Commits
        s db' _ := ⟨_, hsync⟩
    obtain ⟨tokens, happly⟩ := Change.commits_apply hcommit
    rw [happly, ht]
    simp only [Change.apply]
    split <;> exact ⟨rfl, rfl⟩
  have hceiling : requested &&& tenantRoleMask &&& tenantRoleMask = requested &&& tenantRoleMask := by
    rw [Nat.land_assoc, Nat.and_self]
  have hresync := resync_of_commit (hcat.of_eq (by rw [ht])) hsync
  have hstart : ∀ roleId, RoleKept db.toTables s.toTables roleId :=
    fun roleId => .of_eq (by rw [ht]) (by rw [ht]) (by rw [ht])
  have hfind : RoleRepository.getByName s.toTables "tenant-admin" (some tenantId) =
      RoleRepository.getByName db.toTables "tenant-admin" (some tenantId) := by
    rw [RoleRepository.getByName, ht]
    rfl
  rw [hceiling, hfind] at hresync
  refine Or.inr ⟨rfl, requested, hrequested, ?_, ?_⟩
  · rw [htenants, ht, Table.get_update, hstored]
    simp
  · rcases hresync with ⟨hnone, hkept⟩ | ⟨role, hfound, hexact, hkept⟩
    · exact touchesRootOnly_iff_of_none hroot hpermissions hnone
        (fun roleId => (hstart roleId).trans (hkept roleId))
    · exact touchesRootOnly_iff_of_some hroot hpermissions hfound hexact
        (fun roleId hne => (hstart roleId).trans (hkept roleId hne))

end Edit

/-! ### Runs -/

theorem RootMade.root {base db : Db} {tenantId : Uuid} (h : RootMade base db tenantId) :
    RootOf tenantId base.rolesIdSeq db.toTables ∧
      RootNamed tenantId base.rolesIdSeq db.toTables := by
  obtain ⟨hseq, mask, hget⟩ := h
  refine ⟨⟨?_, ?_⟩, ?_⟩
  · rw [hseq]
    exact Int.lt_succ _
  · intro r hr hid
    rw [Table.eq_of_get hr hid hget]
  · intro r hr htenant
    constructor
    · intro hname
      have hsame := db.role_name_unique hr (Table.mem_of_get hget) htenant hname
      rw [hsame]
    · intro hid
      rw [Table.eq_of_get hr hid hget]

/-- An invariant of every change holds after every run of a tenant's users. -/
theorem TenantRun.invariant {tenantId : Uuid} {db db' : Db} {I : Db → Prop}
    (hstep : ∀ (c : Change) (s s' : Db) (es : List Event), c.Current s.toTables →
      c.Commits s s' es → I s → I s') (h : TenantRun tenantId db db') (hdb : I db) : I db' := by
  induction h with
  | start => exact hdb
  | @call db' getPasswordHash actor call _ _ _ _ ih =>
    rcases hreq : request getPasswordHash actor.id call db' with ⟨r, s, es⟩
    rcases request_path hreq with ⟨_, _, rfl, _⟩ | ⟨_, _, hpath⟩
    · exact ih
    · refine hpath.invariant ?_ ih
      rintro s s' fs ⟨c, _, hcur, _, hcommit⟩ hs
      exact hstep c s s' fs hcur hcommit hs

/-- The call renames no role and makes none of the root role's name. -/
def Call.KeepsNames (call : Call) : Prop :=
  (∀ roleId data, call ≠ .updateRole roleId data) ∧
    ∀ role, call = .createRole role → role.name ≠ "tenant-admin"

/-- The runs of `TenantRun` that keep the names. -/
inductive NamedRun (tenantId : Uuid) (db : Db) : Db → Prop
  | start : NamedRun tenantId db db
  | call {db' : Db} (getPasswordHash : String → Except Err String) (actor : User) (call : Call) :
      NamedRun tenantId db db' → db'.users.get actor.id = some actor →
      actor.tenantId = some tenantId → actor.isSuperuser = false → call.KeepsNames →
      NamedRun tenantId db (request getPasswordHash actor.id call db').2.1

theorem KeepsNames.performed {actor : User} {call : Call} {s s' : Db} {es : List Event}
    {tenantId : Uuid} {rootId : RoleId} (hkeeps : call.KeepsNames)
    (hsuper : actor.isSuperuser = false) (h : Performed actor call s s' es)
    (hs : RootOf tenantId rootId s.toTables ∧ RootNamed tenantId rootId s.toTables) :
    RootOf tenantId rootId s'.toTables ∧ RootNamed tenantId rootId s'.toTables := by
  obtain ⟨c, hperforms, hcur, hauth, hcommit⟩ := h
  refine ⟨hs.1.change hcommit, hs.2.change hs.1 hcommit ?_ ?_⟩
  · intro hrenames
    cases c with
    | updateRole role data =>
      cases call with
      | updateRole roleId data' => exact hkeeps.1 roleId data' rfl
      | _ => exact hperforms
    | _ => exact hrenames
  · intro owner hmakes
    cases hmakes with
    | created permissions mask =>
      cases call with
      | createRole role => exact hkeeps.2 role rfl hperforms.symm
      | _ => exact hperforms
    | bootstrapped tenantId allowed => exact hauth hsuper

theorem NamedRun.rootNamed {tenantId : Uuid} {rootId : RoleId} {db db' : Db}
    (h : NamedRun tenantId db db')
    (hdb : RootOf tenantId rootId db.toTables ∧ RootNamed tenantId rootId db.toTables) :
    TenantRun tenantId db db' ∧ RootOf tenantId rootId db'.toTables ∧
      RootNamed tenantId rootId db'.toTables := by
  induction h with
  | start => exact ⟨.start, hdb⟩
  | @call db' getPasswordHash actor call _ hactor htenant hsuper hkeeps ih =>
    refine ⟨.call getPasswordHash actor call ih.1 hactor htenant hsuper, ?_⟩
    rcases hreq : request getPasswordHash actor.id call db' with ⟨r, s, es⟩
    exact (path_of_request hactor hreq).invariant (I := fun s =>
      RootOf tenantId rootId s.toTables ∧ RootNamed tenantId rootId s.toTables)
      (fun _ _ _ hstep hs => KeepsNames.performed hkeeps hsuper hstep hs) ih.2

section Created

variable {getPasswordHash getPasswordHash' : String → Except Err String}
  {creatorId actorId tenantId userId : Uuid} {data : TenantCreate} {names : List String}
  {base db₀ db db' : Db} {r : Except Err Unit} {es₀ es : List Event}

/-- An edit of the ceiling of a created tenant, after any run of the tenant's
users, touches the root role alone exactly when the name leads to it. -/
theorem edit_of_created (hbase : Reachable base)
    (hcreate : request getPasswordHash creatorId (.createTenantWithAdmin tenantId userId data)
      base = (.ok (), db₀, es₀)) (hrun : TenantRun tenantId db₀ db)
    (hedit : request getPasswordHash' actorId (.updateTenantPermissions tenantId names) db =
      (r, db', es)) :
    RootMade base db₀ tenantId ∧ EditOutcome tenantId base.rolesIdSeq names db db' r := by
  have hmade := rootMade_of_request hcreate
  have hreach : Reachable db₀ := by
    have hnext := Reachable.request getPasswordHash creatorId
      (.createTenantWithAdmin tenantId userId data) hbase
    rw [hcreate] at hnext
    exact hnext
  have hcat : db.toTables.Catalogued :=
    hrun.invariant (fun _ _ _ _ => Change.catalogued) hreach.catalogued
  have hroot : RootOf tenantId base.rolesIdSeq db.toTables :=
    hrun.invariant (I := fun s => RootOf tenantId base.rolesIdSeq s.toTables)
      (fun _ _ _ _ _ hcommit hs => hs.change hcommit) hmade.root.1
  exact ⟨hmade, editOutcome_of_request hcat hroot hedit⟩

/-- After a run that keeps the names the edit touches the root role alone. -/
theorem edit_of_namedRun (hbase : Reachable base)
    (hcreate : request getPasswordHash creatorId (.createTenantWithAdmin tenantId userId data)
      base = (.ok (), db₀, es₀)) (hrun : NamedRun tenantId db₀ db)
    (hedit : request getPasswordHash' actorId (.updateTenantPermissions tenantId names) db =
      (.ok (), db', es)) :
    ∃ ceiling, (db'.tenants.get tenantId).map Tenant.allowedPermissionMask = some ceiling ∧
      TouchesRootOnly base.rolesIdSeq ceiling db.toTables db'.toTables := by
  have hmade := rootMade_of_request hcreate
  have hreach : Reachable db₀ := by
    have hnext := Reachable.request getPasswordHash creatorId
      (.createTenantWithAdmin tenantId userId data) hbase
    rw [hcreate] at hnext
    exact hnext
  obtain ⟨htenantRun, hroot, hnamed⟩ := hrun.rootNamed hmade.root
  have hcat : db.toTables.Catalogued :=
    htenantRun.invariant (fun _ _ _ _ => Change.catalogued) hreach.catalogued
  rcases editOutcome_of_request hcat hroot hedit with ⟨⟨_, herror⟩, _⟩ |
    ⟨_, requested, _, hceiling, hiff⟩
  · cases herror
  · exact ⟨_, hceiling, hiff.mpr (hnamed.nameLeads hroot _)⟩

end Created

/-! The admin of acme gives the root role another name and its name to a new
role, before a superuser narrows the ceiling. -/

def rootRenamed : Db := (request .ok boss.id (.updateRole 1 ⟨"old-admin"⟩) acme).2.1

def impostor : Db :=
  (request .ok boss.id (.createRole ⟨"tenant-admin", ["role:read"]⟩) rootRenamed).2.1

def misdirected : Db :=
  (request .ok 1 (.updateTenantPermissions 10 ["role:create", "role:read"]) impostor).2.1

theorem impostor_run : TenantRun 10 acme impostor := by
  have hboss : acme.users.get boss.id = some boss := by decide +kernel
  have hboss' : rootRenamed.users.get boss.id = some boss := by decide +kernel
  exact .call .ok boss _ (.call .ok boss _ .start hboss rfl rfl) hboss' rfl rfl

/-- The new role receives the ceiling, and the root role exceeds it. -/
theorem impostor_receives_ceiling :
    Reachable seeded ∧
      (request .ok 1 (.createTenantWithAdmin 10 11 ⟨"acme", "boss", "boss@example.com", "pw",
        some ["role:create", "role:read", "role:read.id"]⟩) seeded).1 = .ok () ∧
      seeded.rolesIdSeq = 1 ∧ TenantRun 10 acme impostor ∧
      (request .ok 1 (.updateTenantPermissions 10 ["role:create", "role:read"]) impostor).1 =
        .ok () ∧
      (misdirected.tenants.get 10).map Tenant.allowedPermissionMask = some 3 ∧
      (impostor.roles.get 2).map Role.permissionMask = some 2 ∧
      (misdirected.roles.get 2).map Role.permissionMask = some 3 ∧
      (misdirected.roles.get 1).map Role.permissionMask = some 7 ∧
      ¬ TouchesRootOnly 1 3 impostor.toTables misdirected.toTables := by
  have hfacts : (request .ok 1 (.createTenantWithAdmin 10 11 ⟨"acme", "boss", "boss@example.com",
        "pw", some ["role:create", "role:read", "role:read.id"]⟩) seeded).1 = .ok () ∧
      seeded.rolesIdSeq = 1 ∧
      (request .ok 1 (.updateTenantPermissions 10 ["role:create", "role:read"]) impostor).1 =
        .ok () ∧
      (misdirected.tenants.get 10).map Tenant.allowedPermissionMask = some 3 := by
    decide +kernel
  have hmasks : (impostor.roles.get 2).map Role.permissionMask = some 2 ∧
      (misdirected.roles.get 2).map Role.permissionMask = some 3 ∧
      (misdirected.roles.get 1).map Role.permissionMask = some 7 := by
    decide +kernel
  obtain ⟨hcreated, hseq, hedited, hceiling⟩ := hfacts
  obtain ⟨hbefore, hafter, hroot⟩ := hmasks
  refine ⟨seeded_reachable, hcreated, hseq, impostor_run, hedited, hceiling, hbefore, hafter,
    hroot, ?_⟩
  intro htouches
  have hkept := (htouches.others 2 (by decide)).mask
  rw [hbefore, hafter] at hkept
  exact absurd hkept (by decide)

/-- The ceiling is misdirected after the admin has authored the role `viewer`. -/
theorem edit_of_created_viewer :
    RootMade seeded acme 10 ∧
      EditOutcome 10 seeded.rolesIdSeq ["role:create", "role:read"] acmeViewer
        (request .ok 1 (.updateTenantPermissions 10 ["role:create", "role:read"]) acmeViewer).2.1
        (.ok ()) := by
  have hcreated : (request .ok 1 (.createTenantWithAdmin 10 11 ⟨"acme", "boss",
      "boss@example.com", "pw", some ["role:create", "role:read", "role:read.id"]⟩) seeded).1 =
        .ok () := by
    decide +kernel
  have hedited : (request .ok 1 (.updateTenantPermissions 10 ["role:create", "role:read"])
      acmeViewer).1 = .ok () := by
    decide +kernel
  have hboss : acme.users.get boss.id = some boss := by decide +kernel
  have hrun : TenantRun 10 acme acmeViewer := .call .ok boss _ .start hboss rfl rfl
  exact edit_of_created seeded_reachable (ran_ok hcreated) hrun (ran_ok hedited)

end FastapiTemplate
