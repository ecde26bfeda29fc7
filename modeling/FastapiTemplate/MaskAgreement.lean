import FastapiTemplate.AccessToken
import FastapiTemplate.Catalog

/-!
The mask path against the name path. A role's cached mask has exactly the bits
of its attached permissions: every change keeps this, some by the catalogue
bits and some by the bit column, which are the same on a synchronised table.
So a minted mask tests positive at a name exactly when the name is among the
effective permissions.
-/
namespace FastapiTemplate

open Library.KeyedTable Library.Committing Library.BitMask

/-- Bit `i` belongs to a permission attached to the role. -/
def Tables.AttachedBit (t : Tables) (roleId : RoleId) (i : ℕ) : Prop :=
  ∃ p ∈ t.permissions.rows, (roleId, p.id) ∈ t.rolePermissions ∧ p.bitPosition = some i

/-- Every cached mask has the bits of the attached permissions. -/
def Tables.MasksAgree (t : Tables) : Prop :=
  ∀ r ∈ t.roles.rows, ∀ i, r.permissionMask.testBit i = true ↔ t.AttachedBit r.id i

section Agree

variable {t t' : Tables} {db : Db} {roleId : RoleId}

theorem attachedBit_congr (hpermissions : t'.permissions = t.permissions)
    (hlinks : ∀ p, (roleId, p) ∈ t'.rolePermissions ↔ (roleId, p) ∈ t.rolePermissions) (i : ℕ) :
    t'.AttachedBit roleId i ↔ t.AttachedBit roleId i := by
  simp only [Tables.AttachedBit, hpermissions, hlinks]

/-- Roles with the masks and links of old roles. -/
theorem Tables.MasksAgree.of_roles (h : t.MasksAgree) (hpermissions : t'.permissions = t.permissions)
    (hroles : ∀ r' ∈ t'.roles.rows, ∃ r ∈ t.roles.rows, r.id = r'.id ∧
      r.permissionMask = r'.permissionMask ∧
      ∀ p, (r.id, p) ∈ t'.rolePermissions ↔ (r.id, p) ∈ t.rolePermissions) : t'.MasksAgree := by
  intro r' hr' i
  obtain ⟨r, hr, hid, hmask, hlinks⟩ := hroles r' hr'
  rw [← hmask, ← hid, attachedBit_congr hpermissions hlinks]
  exact h r hr i

theorem Tables.MasksAgree.of_eq (h : t.MasksAgree) (hroles : t'.roles = t.roles)
    (hpermissions : t'.permissions = t.permissions)
    (hlinks : t'.rolePermissions = t.rolePermissions) : t'.MasksAgree := by
  refine h.of_roles hpermissions ?_
  intro r hr
  rw [hroles] at hr
  exact ⟨r, hr, rfl, rfl, fun _ => by rw [hlinks]⟩

/-- A new role, linked to the permissions behind its mask. -/
theorem Tables.MasksAgree.insertRole {role : Role} {roles : Table Role.id}
    {permissions : List Permission} (h : db.toTables.MasksAgree)
    (hinsert : db.roles.insert? role = some roles) (hroles : t'.roles = roles)
    (hpermissions : t'.permissions = db.permissions)
    (hlinks : t'.rolePermissions = db.rolePermissions ∪ RoleRepository.links role.id permissions)
    (hrows : ∀ p ∈ permissions, p ∈ db.permissions.rows)
    (hmask : ∀ i, role.permissionMask.testBit i = true ↔
      ∃ p ∈ permissions, p.bitPosition = some i) : t'.MasksAgree := by
  obtain ⟨hfree, hrole⟩ := Table.insert?_eq_some hinsert
  have hold : ∀ p, (role.id, p) ∉ db.rolePermissions := by
    intro p hp
    obtain ⟨r, hr⟩ := Option.isSome_iff_exists.mp (db.constraints.rolePermission _ hp).1
    rw [hfree] at hr
    cases hr
  intro r hr i
  rw [hroles, hrole, List.mem_append, List.mem_singleton] at hr
  rcases hr with hr | rfl
  · have hne : r.id ≠ role.id := by
      intro hid
      have hget := Table.get_of_key hr hid
      rw [hfree] at hget
      cases hget
    rw [h r hr i, attachedBit_congr hpermissions]
    intro p
    rw [hlinks, Finset.mem_union, RoleRepository.mem_links]
    exact ⟨fun hp => hp.resolve_right (fun hlink => hne hlink.1), Or.inl⟩
  · rw [hmask i, Tables.AttachedBit, hpermissions, hlinks]
    constructor
    · rintro ⟨p, hp, hbit⟩
      refine ⟨p, hrows p hp, Finset.mem_union.mpr (Or.inr ?_), hbit⟩
      exact (RoleRepository.mem_links_row hrows (hrows p hp)).mpr ⟨rfl, hp⟩
    · rintro ⟨p, hp, hlink, hbit⟩
      rcases Finset.mem_union.mp hlink with hlink | hlink
      · exact absurd hlink (hold p.id)
      · exact ⟨p, ((RoleRepository.mem_links_row hrows hp).mp hlink).2, hbit⟩

/-- A role whose mask and links are rewritten together. -/
theorem Tables.MasksAgree.rewriteRole {mask : ℕ} (h : t.MasksAgree)
    (hroles : t'.roles = t.roles.update (fun r => r.id = roleId)
      (fun r => { r with permissionMask := mask }) (fun _ => rfl))
    (hpermissions : t'.permissions = t.permissions)
    (hlinks : ∀ r p, r ≠ roleId → ((r, p) ∈ t'.rolePermissions ↔ (r, p) ∈ t.rolePermissions))
    (hmask : ∀ i, mask.testBit i = true ↔ t'.AttachedBit roleId i) : t'.MasksAgree := by
  intro r' hr' i
  rw [hroles] at hr'
  obtain ⟨r, hr, rfl⟩ := List.mem_map.mp hr'
  by_cases hid : r.id = roleId
  · simp only [hid, decide_true, if_true]
    exact hmask i
  · simp only [hid, decide_false, Bool.false_eq_true, if_false]
    rw [h r hr i, attachedBit_congr hpermissions (fun p => hlinks r.id p hid)]

end Agree

/-! ### Masks of permission lists -/

section Catalogue

variable {t : Tables} {i : ℕ}

theorem Tables.Catalogued.bit_iff (h : t.Catalogued) {p : Permission} (hp : p ∈ t.permissions.rows) :
    p.bitPosition = some i ↔ permissionRegistry.lookup p.name = some i := by
  rw [(h.known p hp).2]

/-- The mask of a list of names has the bits of their rows. -/
theorem Tables.Catalogued.testBit_maskFor (h : t.Catalogued) {names : List String} {mask : ℕ}
    (hmask : maskFor names = .ok mask) :
    mask.testBit i = true ↔
      ∃ p ∈ PermissionRepository.getByNames t names, p.bitPosition = some i := by
  rw [Registry.testBit_maskFor hmask]
  simp only [PermissionRepository.getByNames, List.mem_filter, decide_eq_true_eq]
  constructor
  · rintro ⟨name, hname, hlookup⟩
    obtain ⟨p, hp, rfl, hbit⟩ := h.row hlookup
    exact ⟨p, ⟨hp, hname⟩, hbit⟩
  · rintro ⟨p, ⟨hp, hname⟩, hbit⟩
    exact ⟨p.name, hname, (h.bit_iff hp).mp hbit⟩

/-- The rows of a tenant mask are the ones behind its bits. -/
theorem Tables.Catalogued.testBit_permissionRows (h : t.Catalogued) {allowed : ℕ} :
    (allowed &&& tenantRoleMask).testBit i = true ↔
      ∃ p ∈ RoleRepository.permissionRows t (allowed &&& tenantRoleMask),
        p.bitPosition = some i := by
  constructor
  · intro hbit
    have htenant : tenantRoleMask.testBit i = true := by
      rw [Nat.testBit_and, Bool.and_eq_true] at hbit
      exact hbit.2
    obtain ⟨name, hlookup, hname⟩ := (testBit_tenantRoleMask i).mp htenant
    obtain ⟨p, hp, rfl, hpbit⟩ := h.row hlookup
    refine ⟨p, ?_, hpbit⟩
    rw [RoleRepository.permissionRows, List.mem_filter, List.mem_filter, hpbit]
    exact ⟨⟨hp, by simpa using hname⟩, by simpa using (and_bit_ne_zero_iff _ _).mpr hbit⟩
  · rintro ⟨p, hp, hbit⟩
    rw [RoleRepository.permissionRows, List.mem_filter, hbit] at hp
    exact (and_bit_ne_zero_iff _ _).mp (by simpa using hp.2)

theorem mem_permissionRows {mask : ℕ} {p : Permission}
    (h : p ∈ RoleRepository.permissionRows t mask) : p ∈ t.permissions.rows :=
  (List.mem_filter.mp (List.mem_filter.mp h).1).1

end Catalogue

/-! ### One change -/

theorem testBit_maskWith {mask i : ℕ} {p : Permission} :
    (RoleRepository.maskWith mask p).testBit i = true ↔
      mask.testBit i = true ∨ p.bitPosition = some i := by
  unfold RoleRepository.maskWith
  rcases p.bitPosition with _ | b
  · simp
  · simp [testBit_bit]

theorem testBit_maskWithout {mask i : ℕ} {p : Permission} :
    (RoleRepository.maskWithout mask p).testBit i = true ↔
      mask.testBit i = true ∧ p.bitPosition ≠ some i := by
  unfold RoleRepository.maskWithout
  rcases p.bitPosition with _ | b
  · simp
  · simp [testBit_bit]

section Change

variable {c : Change} {db db' : Db} {es : List Event} {role : LoadedRole} {permission : Permission}

/-- The row of a loaded role, with its mask. -/
theorem Tables.MasksAgree.loaded (h : db.toTables.MasksAgree)
    (hrole : RoleRepository.getById db.toTables role.id = some role) (i : ℕ) :
    role.permissionMask.testBit i = true ↔ db.toTables.AttachedBit role.id i :=
  h role.toRole (Table.mem_of_get (RoleRepository.getById_eq_some hrole).1) i

theorem Tables.MasksAgree.addPermission (h : db.toTables.MasksAgree)
    (hcur : (Change.addPermission role permission).Current db.toTables)
    (hcommit : (Change.addPermission role permission).Commits db db' es) :
    db'.toTables.MasksAgree := by
  obtain ⟨a, hcommit⟩ := hcommit
  obtain ⟨_, _, ht, _⟩ := RoleRepository.addPermissionTx_eq_ok hcommit
  rw [ht]
  have hrow := Table.mem_of_get hcur.2
  refine h.rewriteRole rfl rfl ?_ ?_
  · intro r p hne
    simp [hne]
  · intro i
    rw [testBit_maskWith, h.loaded hcur.1 i]
    simp only [Tables.AttachedBit, Tables.bumpPermVersion_rolePermissions,
      Tables.bumpPermVersion_permissions, Finset.mem_insert, Prod.mk.injEq, true_and]
    constructor
    · rintro (⟨p, hp, hlink, hbit⟩ | hbit)
      · exact ⟨p, hp, Or.inr hlink, hbit⟩
      · exact ⟨permission, hrow, Or.inl rfl, hbit⟩
    · rintro ⟨p, hp, hid | hlink, hbit⟩
      · rw [List.inj_on_of_nodup_map db.permissions.nodup hp hrow hid] at hbit
        exact Or.inr hbit
      · exact Or.inl ⟨p, hp, hlink, hbit⟩

/-- No other permission has the bit that is taken away. -/
theorem Tables.MasksAgree.removePermission (h : db.toTables.MasksAgree)
    (hcat : db.toTables.Catalogued)
    (hcur : (Change.removePermission role permission).Current db.toTables)
    (hcommit : (Change.removePermission role permission).Commits db db' es) :
    db'.toTables.MasksAgree := by
  obtain ⟨a, hcommit⟩ := hcommit
  obtain ⟨_, _, ht, _⟩ := RoleRepository.removePermissionTx_eq_ok hcommit
  rw [ht]
  have hrow := Table.mem_of_get hcur.2
  refine h.rewriteRole rfl rfl ?_ ?_
  · intro r p hne
    simp [hne]
  · intro i
    rw [testBit_maskWithout, h.loaded hcur.1 i]
    simp only [Tables.AttachedBit, Tables.bumpPermVersion_rolePermissions,
      Tables.bumpPermVersion_permissions, Finset.mem_erase, ne_eq, Prod.mk.injEq, true_and]
    constructor
    · rintro ⟨⟨p, hp, hlink, hbit⟩, hne⟩
      refine ⟨p, hp, ⟨?_, hlink⟩, hbit⟩
      intro hid
      rw [List.inj_on_of_nodup_map db.permissions.nodup hp hrow hid] at hbit
      exact hne hbit
    · rintro ⟨p, hp, ⟨hid, hlink⟩, hbit⟩
      refine ⟨⟨p, hp, hlink, hbit⟩, ?_⟩
      intro hsame
      have hname := lookup_injective ((hcat.bit_iff hp).mp hbit) ((hcat.bit_iff hrow).mp hsame)
      exact hid (congrArg Permission.id
        (List.inj_on_of_nodup_map db.constraints.permissionName hp hrow hname))

/-- Every change keeps the cached masks in agreement with the attached permissions. -/
theorem Change.masksAgree (hcur : c.Current db.toTables) (hcommit : c.Commits db db' es)
    (hcat : db.toTables.Catalogued) (h : db.toTables.MasksAgree) : db'.toTables.MasksAgree := by
  obtain ⟨tokens, happly⟩ := Change.commits_apply hcommit
  cases c with
  | createRole name tenantId permissions mask =>
    obtain ⟨names, hmask, rfl⟩ := hcur
    obtain ⟨a, hcommit⟩ := hcommit
    obtain ⟨roles, hinsert, ht, _⟩ := RoleRepository.createTx_eq_ok hcommit
    rw [ht]
    exact h.insertRole hinsert rfl rfl rfl (fun p hp => (List.mem_filter.mp hp).1)
      (fun i => hcat.testBit_maskFor hmask)
  | createRootTenantRole tenantId allowed =>
    obtain ⟨a, hcommit⟩ := hcommit
    obtain ⟨roles, hinsert, ht, _⟩ := RoleRepository.createRootTenantRoleTx_eq_ok hcommit
    rw [ht]
    exact h.insertRole hinsert rfl rfl rfl (fun p hp => mem_permissionRows hp)
      (fun i => hcat.testBit_permissionRows)
  | syncRootTenantRole tenantId allowed =>
    obtain ⟨a, hcommit⟩ := hcommit
    rcases RoleRepository.syncRootTenantRolePermissionsTx_eq_ok hcommit with
      ⟨_, ht, _⟩ | ⟨role, _, hsync⟩
    · rw [ht]
      exact h
    · obtain ⟨_, ht, _⟩ := RoleRepository.resyncRole_eq_ok hsync
      rw [ht]
      refine h.rewriteRole rfl rfl ?_ ?_
      · intro r p hne
        simp [hne, RoleRepository.mem_links]
      · intro i
        rw [hcat.testBit_permissionRows]
        simp only [Tables.AttachedBit, Tables.bumpPermVersion_rolePermissions,
          Tables.bumpPermVersion_permissions, Finset.mem_union, Finset.mem_filter, ne_eq,
          not_true_eq_false, and_false, false_or]
        constructor
        · rintro ⟨p, hp, hbit⟩
          have hrow := mem_permissionRows hp
          refine ⟨p, hrow, ?_, hbit⟩
          exact (RoleRepository.mem_links_row (fun _ => mem_permissionRows) hrow).mpr ⟨rfl, hp⟩
        · rintro ⟨p, hp, hlink, hbit⟩
          have hlinked := (RoleRepository.mem_links_row (fun _ => mem_permissionRows) hp).mp hlink
          exact ⟨p, hlinked.2, hbit⟩
  | updateRole role data =>
    rw [happly]
    refine h.of_roles rfl ?_
    intro r' hr'
    obtain ⟨r, hr, rfl⟩ := List.mem_map.mp hr'
    refine ⟨r, hr, ?_⟩
    split <;> exact ⟨rfl, rfl, fun _ => Iff.rfl⟩
  | deleteRole role =>
    rw [happly]
    refine h.of_roles rfl ?_
    intro r hr
    obtain ⟨hmem, hkept⟩ := List.mem_filter.mp hr
    have hne : r.id ≠ role.id := by simpa using hkept
    exact ⟨r, hmem, rfl, rfl, fun p => by simp [apply, hne]⟩
  | addPermission role permission => exact h.addPermission hcur hcommit
  | removePermission role permission => exact h.removePermission hcat hcur hcommit
  | createWithBit name b =>
    obtain ⟨a, hcommit⟩ := hcommit
    obtain ⟨permissions, hinsert, ht, _⟩ := PermissionRepository.createWithBitTx_eq_ok hcommit
    obtain ⟨hfree, hrows⟩ := Table.insert?_eq_some hinsert
    intro r hr i
    rw [ht] at hr ⊢
    rw [h r hr i]
    simp only [Tables.AttachedBit, hrows, List.mem_append, List.mem_singleton]
    constructor
    · rintro ⟨p, hp, hlink, hbit⟩
      exact ⟨p, Or.inl hp, hlink, hbit⟩
    · rintro ⟨p, hp | rfl, hlink, hbit⟩
      · exact ⟨p, hp, hlink, hbit⟩
      · -- no link names a permission that is not there yet
        obtain ⟨q, hq⟩ := Option.isSome_iff_exists.mp (db.constraints.rolePermission _ hlink).2
        rw [hfree] at hq
        cases hq
  | _ =>
    rw [happly]
    exact h.of_eq rfl rfl rfl

end Change

theorem synced_masksAgree : synced.toTables.MasksAgree := by
  have hnone : synced.roles.rows = [] := by decide +kernel
  intro r hr
  rw [hnone] at hr
  cases hr

theorem Reachable.masksAgree {db : Db} (h : Reachable db) : db.toTables.MasksAgree :=
  (h.invariant (I := fun db => db.toTables.Catalogued ∧ db.toTables.MasksAgree)
    ⟨synced_catalogued, synced_masksAgree⟩ (fun _ _ _ _ hcur hcommit hdb =>
      ⟨Change.catalogued hcur hcommit hdb.1,
        Change.masksAgree hcur hcommit hdb.1 hdb.2⟩)).2

/-! ### The two paths -/

section Paths

variable {t : Tables} {db : Db} {user : User}

/-- A catalogue bit of the mask is a name among the effective permissions. -/
theorem testBit_mask_iff_mem (hcat : t.Catalogued) (h : t.MasksAgree) {name : String} {b : ℕ}
    (hb : permissionRegistry.lookup name = some b) :
    (effectivePermissionMask (t.loadUser user)).testBit b = true ↔
      name ∈ effectivePermissions (t.loadUser user) := by
  have hname {p : Permission} (hp : p ∈ t.permissions.rows) :
      p.bitPosition = some b ↔ p.name = name := by
    rw [hcat.bit_iff hp]
    constructor
    · exact fun hlookup => lookup_injective hlookup hb
    · rintro rfl
      exact hb
  rw [Tables.testBit_maskOf, Tables.mem_effectivePermissions_loadUser]
  refine or_congr ?_ ?_
  · refine exists_congr fun roleId => exists_congr fun role => ?_
    refine and_congr_right fun hrole => and_congr_right fun _ => ?_
    obtain rfl := Table.key_of_get hrole
    rw [h role (Table.mem_of_get hrole) b]
    constructor
    · rintro ⟨p, hp, hlink, hbit⟩
      exact ⟨p.id, p, Table.get_of_mem hp, hlink, (hname hp).mp hbit⟩
    · rintro ⟨permissionId, p, hp, hlink, hpname⟩
      obtain rfl := Table.key_of_get hp
      have hmem := Table.mem_of_get hp
      exact ⟨p, hmem, hlink, (hname hmem).mpr hpname⟩
  · refine exists_congr fun permissionId => exists_congr fun p => ?_
    refine and_congr_right fun hp => and_congr_right fun _ => ?_
    rw [← hname (Table.mem_of_get hp), hcat.bit_iff (Table.mem_of_get hp)]

/-- The mask of a user fits the 32 bytes of the claim. -/
theorem mask_lt (db : Db) (user : User) :
    effectivePermissionMask (db.loadUser user) < 2 ^ 256 := by
  refine Nat.lt_pow_two_of_testBit _ ?_
  intro i hi
  by_contra hbit
  rw [Bool.not_eq_false, Tables.testBit_maskOf] at hbit
  rcases hbit with ⟨roleId, role, hrole, _, hbit⟩ | ⟨permissionId, p, _, _, hlookup⟩
  · have hfit := db.constraints.masksFit.1 role (Table.mem_of_get hrole)
    have hzero := Nat.testBit_lt_two_pow (lt_of_lt_of_le hfit (Nat.pow_le_pow_right (by omega) hi))
    rw [hzero] at hbit
    cases hbit
  · have hlt := lookup_lt hlookup
    omega

theorem maskToHex_of_lt {mask : ℕ} (hmask : mask < 2 ^ 256) :
    ∃ text, maskToHex (some mask) = .ok text :=
  ⟨_, by rw [maskToHex, maskToBytes_of_lt mask hmask]; rfl⟩

/-- The gate lets the principal through. -/
def Accepts (permission : String) (principal : Principal) : Prop :=
  ∃ checker, permissionRequired permission = .ok checker ∧ checker principal = .ok principal

theorem accepts_iff {permission : String} {b : ℕ} {principal : Principal}
    (hb : permissionRegistry.lookup permission = some b) :
    Accepts permission principal ↔
      principal.isSuperuser = true ∨ principal.permMask.testBit b = true := by
  rw [Accepts, permissionRequired, hb]
  simp [permissionChecker_eq_ok_iff]

/-- In every reachable state a token minted for a user decodes to a principal
whose gates open exactly at the superuser flag and the effective permissions. -/
theorem minted_accepts_iff {Token : Type} (jwt : Jwt Token)
    {accessTokenExpireMinutes now now' : ℤ} (hdb : Reachable db) {userId : Uuid}
    {user : LoadedUser} (huser : UserRepository.getByIdWithGrants db.toTables userId = some user)
    (hnow : now' < now + accessTokenExpireMinutes * 60) (authMethod : String) :
    (ActiveOwner db.toTables user.toUser → ∃ token,
      mintAccessToken jwt accessTokenExpireMinutes db.toTables now user authMethod = .ok token) ∧
    ∀ token, mintAccessToken jwt accessTokenExpireMinutes db.toTables now user authMethod =
        .ok token → ∀ cache : AuthzCache,
      (cache.isUserInactive user.id = false → cache.isTenantInactive user.tenantId = false →
        cache.isStale user.id user.permVersion = false →
          ∃ principal, getCurrentPrincipal jwt cache now' token = .ok principal) ∧
      ∀ principal, getCurrentPrincipal jwt cache now' token = .ok principal →
        ∀ entry ∈ permissionRegistry, Accepts entry.1 principal ↔
          user.isSuperuser = true ∨ entry.1 ∈ effectivePermissions user := by
  obtain ⟨_, hloaded, _⟩ := UserRepository.getByIdWithGrants_eq_some huser
  have hmask : effectivePermissionMask user < 2 ^ 256 := by
    rw [hloaded]
    exact mask_lt db user.toUser
  obtain ⟨text, htext⟩ := maskToHex_of_lt hmask
  have hdecode := hexToMask_maskToHex _ hmask text htext
  refine ⟨?_, ?_⟩
  · exact fun hactive => ⟨_, mintAccessToken_eq_ok_iff.mpr ⟨hactive, text, htext, rfl⟩⟩
  · intro token hmint cache
    obtain ⟨_, text', htext', rfl⟩ := mintAccessToken_eq_ok_iff.mp hmint
    obtain rfl : text' = text := Except.ok.inj (htext'.symm.trans htext)
    refine ⟨?_, ?_⟩
    · intro huserok htenantok hfresh
      exact ⟨_, (getCurrentPrincipal_encode_eq_ok_iff hnow).mpr
        ⟨⟨huserok, htenantok, hfresh⟩, _, hdecode, rfl⟩⟩
    · intro principal hprincipal entry hentry
      obtain ⟨_, permMask, hpermMask, rfl⟩ :=
        (getCurrentPrincipal_encode_eq_ok_iff hnow).mp hprincipal
      obtain rfl : permMask = effectivePermissionMask user :=
        Except.ok.inj (hpermMask.symm.trans hdecode)
      have hb := lookup_eq_some_iff.mpr hentry
      rw [accepts_iff hb]
      refine or_congr Iff.rfl ?_
      change (effectivePermissionMask user).testBit entry.2 = true ↔ _
      rw [hloaded]
      exact testBit_mask_iff_mem hdb.catalogued hdb.masksAgree hb

end Paths

def ann : User where
  id := 2
  username := "ann"
  email := "ann@example.com"
  password := some "pw"
  isVerified := true
  isSuperuser := false
  isActive := true
  createdById := some 1
  tenantId := none
  permVersion := 2

theorem ann_accepts :
    ∃ token principal,
      mintAccessToken plainJwt 30 staffed.toTables 0 (staffed.loadUser ann) "password" =
        .ok token ∧
      getCurrentPrincipal plainJwt .empty 60 token = .ok principal ∧
      Accepts "role:read" principal ∧ ¬ Accepts "role:delete" principal := by
  have hrow : staffed.users.get 2 = some ann := by decide +kernel
  have hann : UserRepository.getByIdWithGrants staffed.toTables 2 = some (staffed.loadUser ann) := by
    rw [UserRepository.getByIdWithGrants, hrow, Option.map_some]
  have hnow : (60 : ℤ) < 0 + 30 * 60 := by decide
  obtain ⟨hmint, hgates⟩ := minted_accepts_iff plainJwt staffed_reachable hann hnow "password"
  obtain ⟨token, htoken⟩ := hmint ⟨rfl, fun i hi => absurd hi (Option.some_ne_none i).symm⟩
  obtain ⟨hbuild, hgate⟩ := hgates token htoken .empty
  obtain ⟨principal, hprincipal⟩ := hbuild rfl rfl rfl
  have hread : "role:read" ∈ effectivePermissions (staffed.loadUser ann) := by decide +kernel
  have hdelete : "role:delete" ∉ effectivePermissions (staffed.loadUser ann) := by decide +kernel
  refine ⟨token, principal, htoken, hprincipal, ?_, ?_⟩
  · exact (hgate principal hprincipal ("role:read", 1) (by decide)).mpr (Or.inr hread)
  · intro haccepts
    rcases (hgate principal hprincipal ("role:delete", 4) (by decide)).mp haccepts with hsuper | hmem
    · cases hsuper
    · exact hdelete hmem

end FastapiTemplate
