import FastapiTemplate.Bootstrap
import FastapiTemplate.Confinement
import FastapiTemplate.Implied
import FastapiTemplate.MaskAgreement

/-!
Authoring a role in one call or permission by permission. Creating a role and
adding to it leave the delegation rows alone, so the allowed mask of the actor
stays what it was; each addition brings the closure of its name, less what the
role has; and the closures of the names together are the closure of the list.
-/
namespace FastapiTemplate.Authoring

open Library.KeyedTable Library.Committing Library.BitMask

/-! ### Rows that the schema accepts -/

section Accepted

variable {t : Tables}

/-- A new permission of a role, and the mask that goes with it. -/
theorem addPermission_constraints {roleId : RoleId} {permissionId : PermissionId} {mask : ℕ}
    (ht : t.Constraints) (hrole : (t.roles.get roleId).isSome)
    (hpermission : (t.permissions.get permissionId).isSome) (hfits : mask < 2 ^ 256) :
    ({ t with
      roles := t.roles.update (fun r => r.id = roleId) (fun r => { r with permissionMask := mask })
        (Role.id_setMask mask)
      rolePermissions := insert (roleId, permissionId) t.rolePermissions } : Tables).Constraints := by
  have hget : ∀ k, ((t.roles.update (fun r => r.id = roleId)
      (fun r => { r with permissionMask := mask }) (Role.id_setMask mask)).get k).isSome =
        (t.roles.get k).isSome := by
    intro k
    rw [Table.get_update, Option.isSome_map]
  have hrows : ∀ r ∈ (t.roles.update (fun r => r.id = roleId)
      (fun r => { r with permissionMask := mask }) (Role.id_setMask mask)).rows,
      ∃ r' ∈ t.roles.rows, r.tenantId = r'.tenantId ∧
        (r.permissionMask = mask ∨ r.permissionMask = r'.permissionMask) := by
    intro r hr
    obtain ⟨r', hr', rfl⟩ := List.mem_map.mp hr
    refine ⟨r', hr', ?_⟩
    by_cases hid : r'.id = roleId
    · simp [hid]
    · simp [hid]
  exact { ht with
    roleName := by
      change ((t.roles.rows.map _).map _).Nodup
      rw [List.map_map]
      convert ht.roleName using 2
      funext r
      by_cases hid : r.id = roleId
      · simp [hid]
      · simp [hid]
    roleTenant := by
      intro r hr
      obtain ⟨r', hr', htenant, _⟩ := hrows r hr
      rw [htenant]
      exact ht.roleTenant r' hr'
    userRole := by
      intro x hx
      rw [hget]
      exact ht.userRole x hx
    rolePermission := by
      intro x hx
      rw [hget]
      rcases Finset.mem_insert.mp hx with rfl | hx
      · exact ⟨hrole, hpermission⟩
      · exact ht.rolePermission x hx
    grantableRole := by
      intro x hx
      rw [hget, hget]
      exact ht.grantableRole x hx
    grantablePermission := by
      intro x hx
      rw [hget]
      exact ht.grantablePermission x hx
    masksFit := by
      refine ⟨?_, ht.masksFit.2⟩
      intro r hr
      obtain ⟨r', hr', _, hmask | hmask⟩ := hrows r hr
      · rw [hmask]
        exact hfits
      · rw [hmask]
        exact ht.masksFit.1 r' hr' }

/-- A role that may grant another one. -/
theorem insertRoleLink_constraints {roleId grantableRoleId : RoleId} (ht : t.Constraints)
    (hrole : (t.roles.get roleId).isSome) (hgrantable : (t.roles.get grantableRoleId).isSome) :
    ({ t with roleGrantableRoles := insert (roleId, grantableRoleId) t.roleGrantableRoles } :
      Tables).Constraints :=
  { ht with
    grantableRole := by
      intro x hx
      rcases Finset.mem_insert.mp hx with rfl | hx
      · exact ⟨hrole, hgrantable⟩
      · exact ht.grantableRole x hx }

end Accepted

/-! ### What an actor may put into a role -/

/-- The mask that `_grantable_mask_for` returns. -/
def allowedMask (t : Tables) (actor : LoadedUser) : ℕ :=
  match actor.tenant with
  | none => RoleRepository.getGrantablePermissionMask t actor.roleIds
  | some tenant =>
    RoleRepository.getGrantablePermissionMask t actor.roleIds &&& tenant.allowedPermissionMask

theorem grantableMaskFor_apply (actor : LoadedUser) (db : Db) :
    RoleService.grantableMaskFor actor db = (.ok (allowedMask db.toTables actor), db, []) := by
  unfold RoleService.grantableMaskFor allowedMask
  rw [query, Action.read_bind_apply]
  cases actor.tenant <;> rfl

/-- The tables that the allowed mask is computed from. -/
structure SameGrants (t t' : Tables) : Prop where
  permissions : t'.permissions = t.permissions
  grantable : t'.roleGrantablePermissions = t.roleGrantablePermissions

theorem SameGrants.trans {t t' t'' : Tables} (h : SameGrants t t') (h' : SameGrants t' t'') :
    SameGrants t t'' :=
  ⟨h'.permissions.trans h.permissions, h'.grantable.trans h.grantable⟩

theorem SameGrants.allowedMask_eq {t t' : Tables} (h : SameGrants t t') (actor : LoadedUser) :
    allowedMask t' actor = allowedMask t actor := by
  have hmask : RoleRepository.getGrantablePermissionMask t' actor.roleIds =
      RoleRepository.getGrantablePermissionMask t actor.roleIds := by
    unfold RoleRepository.getGrantablePermissionMask RoleRepository.getGrantablePermissionIds
    rw [h.permissions, h.grantable]
  rw [allowedMask, allowedMask, hmask]

/-- A superuser may grant anything, any other actor what the allowed mask has. -/
def MayGrant (t : Tables) (actor : LoadedUser) (mask : ℕ) : Prop :=
  actor.isSuperuser = true ∨ andNot mask (allowedMask t actor) = 0

/-! ### The permissions of a role -/

/-- The role has exactly the permissions in `P`, and the mask of them. -/
structure RoleHas (t : Tables) (row : Role) (P : Permission → Prop) : Prop where
  get : t.roles.get row.id = some row
  links : ∀ p ∈ t.permissions.rows, (row.id, p.id) ∈ t.rolePermissions ↔ P p
  mask : ∀ i, row.permissionMask.testBit i = true ↔
    ∃ p ∈ t.permissions.rows, P p ∧ p.bitPosition = some i

theorem RoleHas.congr {t : Tables} {row : Role} {P Q : Permission → Prop} (h : RoleHas t row P)
    (hPQ : ∀ p ∈ t.permissions.rows, P p ↔ Q p) : RoleHas t row Q where
  get := h.get
  links p hp := (h.links p hp).trans (hPQ p hp)
  mask i := by
    rw [h.mask i]
    constructor
    · rintro ⟨p, hp, hPp, hbit⟩
      exact ⟨p, hp, (hPQ p hp).mp hPp, hbit⟩
    · rintro ⟨p, hp, hQp, hbit⟩
      exact ⟨p, hp, (hPQ p hp).mpr hQp, hbit⟩

theorem RoleHas.mem_permissionsOf {t : Tables} {row : Role} {P : Permission → Prop}
    (h : RoleHas t row P) {p : Permission} :
    p ∈ t.permissionsOf row.id ↔ p ∈ t.permissions.rows ∧ P p := by
  rw [Tables.mem_permissionsOf]
  constructor
  · rintro ⟨hp, hlink⟩
    exact ⟨hp, (h.links p hp).mp hlink⟩
  · rintro ⟨hp, hPp⟩
    exact ⟨hp, (h.links p hp).mpr hPp⟩

/-- Two roles with the same permissions have the same mask. -/
theorem RoleHas.mask_eq {t t' : Tables} {row row' : Role} {P : Permission → Prop}
    (h : RoleHas t row P) (h' : RoleHas t' row' P) (hpermissions : t'.permissions = t.permissions) :
    row'.permissionMask = row.permissionMask := by
  apply Nat.eq_of_testBit_eq
  intro i
  rw [Bool.eq_iff_iff, h.mask i, h'.mask i, hpermissions]

/-- A later version of the role, with the permissions in `P`; delegation is as before. -/
structure Grown (t : Tables) (row : Role) (t' : Tables) (row' : Role) (P : Permission → Prop) :
    Prop where
  id : row'.id = row.id
  tenantId : row'.tenantId = row.tenantId
  grants : SameGrants t t'
  has : RoleHas t' row' P

theorem Grown.trans {t t' t'' : Tables} {row row' row'' : Role} {P Q : Permission → Prop}
    (h : Grown t row t' row' P) (h' : Grown t' row' t'' row'' Q) : Grown t row t'' row'' Q :=
  ⟨h'.id.trans h.id, h'.tenantId.trans h.tenantId, h.grants.trans h'.grants, h'.has⟩

section AddPermission

variable {db : Db} {row : Role} {P : Permission → Prop} {p : Permission}

/-- Adding a permission that the role does not have. -/
theorem add_permission (hcat : db.toTables.Catalogued) (h : RoleHas db.toTables row P)
    (hp : p ∈ db.permissions.rows) (hnew : ¬ P p) :
    ∃ (db' : Db) (row' : Role) (es : List Event),
      RoleRepository.addPermission (db.loadRole row) p db = (.ok (db'.loadRole row'), db', es) ∧
      Grown db.toTables row db'.toTables row' (fun q => P q ∨ q = p) := by
  obtain ⟨b, hb, hlookup⟩ := hcat.bit hp
  have hfits : RoleRepository.maskWith row.permissionMask p < 2 ^ 256 := by
    rw [RoleRepository.maskWith, hb]
    apply Nat.or_lt_two_pow
    · exact db.constraints.masksFit.1 row (Table.mem_of_get h.get)
    · rw [bit, Nat.one_shiftLeft]
      exact Nat.pow_lt_pow_right (by omega) (lookup_lt hlookup)
  have hfree : (row.id, p.id) ∉ db.rolePermissions := fun hlink => hnew ((h.links p hp).mp hlink)
  have hsome : (db.roles.get row.id).isSome := by
    rw [h.get]
    rfl
  let t := Tables.bumpPermVersion { db.toTables with
    roles := db.roles.update (fun r => r.id = row.id)
      (fun r => { r with permissionMask := RoleRepository.maskWith row.permissionMask p })
      (Role.id_setMask _)
    rolePermissions := insert (row.id, p.id) db.rolePermissions } (db.holds row.id)
  let row' : Role := { row with permissionMask := RoleRepository.maskWith row.permissionMask p }
  have ht : t.Constraints := Bootstrap.bumpPermVersion_constraints
    (addPermission_constraints db.constraints hsome (by rw [Table.get_of_mem hp]; rfl) hfits)
  have hget : t.roles.get row.id = some row' := by
    change (db.roles.update _ _ (Role.id_setMask _)).get row.id = _
    rw [Table.get_update, h.get]
    simp [row']
  have hbody : ∃ es, RoleRepository.addPermissionTx (db.loadRole row) p db.toTables =
      .ok (t.loadRole row', t, es) := by
    have hmask : db.toTables.setPermissionMask row.id
        (RoleRepository.maskWith row.permissionMask p) = .ok { db.toTables with
          roles := db.roles.update (fun r => r.id = row.id)
            (fun r => { r with permissionMask := RoleRepository.maskWith row.permissionMask p })
            (Role.id_setMask _) } := if_pos hsome
    have hlink : Tables.insertLink db.rolePermissions (row.id, p.id) =
        .ok (insert (row.id, p.id) db.rolePermissions) := if_neg hfree
    have hrefresh : RoleRepository.refresh t row.id = .ok (t.loadRole row') := by
      unfold RoleRepository.refresh RoleRepository.getById
      rw [hget]
      rfl
    refine ⟨t.versionEvents (db.holds row.id), ?_⟩
    unfold RoleRepository.addPermissionTx
    change (db.toTables.setPermissionMask row.id
      (RoleRepository.maskWith row.permissionMask p) >>= _) = _
    rw [hmask]
    change (Tables.insertLink db.rolePermissions (row.id, p.id) >>= _) = _
    rw [hlink]
    change (RoleRepository.refresh t row.id >>= _) = _
    rw [hrefresh]
    rfl
  obtain ⟨es, hbody⟩ := hbody
  refine ⟨⟨t, ht⟩, row', es, transaction_commits hbody ht, rfl, rfl, ⟨rfl, rfl⟩, hget, ?_, ?_⟩
  · intro q hq
    change (row.id, q.id) ∈ insert (row.id, p.id) db.rolePermissions ↔ _
    rw [Finset.mem_insert, Prod.mk.injEq, eq_self_iff_true, true_and, h.links q hq, or_comm]
    have hid : q.id = p.id ↔ q = p := by
      constructor
      · exact fun hid => List.inj_on_of_nodup_map db.permissions.nodup hq hp hid
      · exact fun heq => by rw [heq]
    rw [hid]
  · intro i
    rw [testBit_maskWith, h.mask i]
    constructor
    · rintro (⟨q, hq, hPq, hbit⟩ | hbit)
      · exact ⟨q, hq, Or.inl hPq, hbit⟩
      · exact ⟨p, hp, Or.inr rfl, hbit⟩
    · rintro ⟨q, hq, hPq | rfl, hbit⟩
      · exact Or.inl ⟨q, hq, hPq, hbit⟩
      · exact Or.inr hbit

/-- Adding rows that the role does not have, one after another. -/
theorem add_permissions {ps : List Permission} (hcat : db.toTables.Catalogued)
    (h : RoleHas db.toTables row P) (hrows : ∀ p ∈ ps, p ∈ db.permissions.rows)
    (hnodup : ps.Nodup) (hnew : ∀ p ∈ ps, ¬ P p) :
    ∃ (db' : Db) (row' : Role) (es : List Event),
      ps.foldlM RoleRepository.addPermission (db.loadRole row) db =
        (.ok (db'.loadRole row'), db', es) ∧
      Grown db.toTables row db'.toTables row' (fun q => P q ∨ q ∈ ps) := by
  induction ps generalizing db row P with
  | nil => exact ⟨db, row, [], rfl, rfl, rfl, ⟨rfl, rfl⟩, h.congr (fun q _ => by simp)⟩
  | cons p ps ih =>
    obtain ⟨hfresh, hnodup⟩ := List.nodup_cons.mp hnodup
    obtain ⟨db₁, row₁, es₁, hadd, hgrown₁⟩ := add_permission hcat h (hrows p (by simp))
      (hnew p (by simp))
    have hrows₁ : ∀ q ∈ ps, q ∈ db₁.permissions.rows := by
      intro q hq
      rw [hgrown₁.grants.permissions]
      exact hrows q (by simp [hq])
    have hnew₁ : ∀ q ∈ ps, ¬ (P q ∨ q = p) := by
      intro q hq hor
      rcases hor with hPq | heq
      · exact hnew q (by simp [hq]) hPq
      · apply hfresh
        rw [← heq]
        exact hq
    obtain ⟨db₂, row₂, es₂, hrest, hgrown₂⟩ := ih (hcat.of_eq hgrown₁.grants.permissions)
      hgrown₁.has hrows₁ hnodup hnew₁
    have hgrown := hgrown₁.trans hgrown₂
    refine ⟨db₂, row₂, es₁ ++ es₂, ?_, hgrown.id, hgrown.tenantId, hgrown.grants,
      hgrown.has.congr (fun q _ => ?_)⟩
    · rw [List.foldlM_cons]
      exact Action.bind_apply_of_ok hadd hrest
    · rw [List.mem_cons, or_assoc]

end AddPermission

/-! ### The delegation check -/

/-- The actor may put the permission into a role. -/
def Permitted (actor : LoadedUser) (allowed : ℕ) (p : Permission) : Prop :=
  actor.isSuperuser = true ∨ ∀ i, p.bitPosition = some i → allowed.testBit i = true

/-- The test on a mask tests the row of every name in it. -/
theorem mayGrant_iff {t : Tables} {actor : LoadedUser} {allowed mask : ℕ} {names : List String}
    (hcat : t.Catalogued) (hmask : maskFor names = .ok mask)
    (hallowed : allowedMask t actor = allowed) :
    MayGrant t actor mask ↔
      ∀ p ∈ t.permissions.rows, p.name ∈ names → Permitted actor allowed p := by
  rw [MayGrant, hallowed, andNot_eq_zero_iff]
  constructor
  · rintro (hsuper | h) p hp hname
    · exact Or.inl hsuper
    · apply Or.inr
      intro i hbit
      apply h i
      rw [hcat.testBit_maskFor hmask]
      refine ⟨p, ?_, hbit⟩
      rw [PermissionRepository.getByNames, List.mem_filter, decide_eq_true_eq]
      exact ⟨hp, hname⟩
  · intro h
    by_cases hsuper : actor.isSuperuser = true
    · exact Or.inl hsuper
    · apply Or.inr
      intro i hi
      obtain ⟨p, hp, hbit⟩ := (hcat.testBit_maskFor hmask).mp hi
      rw [PermissionRepository.getByNames, List.mem_filter, decide_eq_true_eq] at hp
      exact (h p hp.1 hp.2).resolve_left hsuper i hbit

/-- `if not actor.is_superuser`: the mask against the allowed mask. -/
def checkMask (actor : LoadedUser) (mask : ℕ) (e : Err) : Service Unit :=
  RoleService.unlessSuperuser actor.isSuperuser do
    let allowedMask ← RoleService.grantableMaskFor actor
    Action.ensure (andNot mask allowedMask = 0) e

theorem checkMask_apply {actor : LoadedUser} {mask : ℕ} {e : Err} {db : Db}
    (h : MayGrant db.toTables actor mask) : checkMask actor mask e db = (.ok (), db, []) := by
  unfold checkMask RoleService.unlessSuperuser
  by_cases hsuper : actor.isSuperuser = true
  · rw [if_pos hsuper]
    rfl
  · rw [if_neg hsuper, Action.bind_apply_ok (grantableMaskFor_apply actor db)]
    exact congrFun (if_pos (h.resolve_left hsuper)) db

theorem checkMask_apply_not {actor : LoadedUser} {mask : ℕ} {e : Err} {db : Db}
    (h : ¬ MayGrant db.toTables actor mask) : checkMask actor mask e db = (.error e, db, []) := by
  obtain ⟨hsuper, hmask⟩ := not_or.mp h
  unfold checkMask RoleService.unlessSuperuser
  rw [if_neg hsuper, Action.bind_apply_ok (grantableMaskFor_apply actor db)]
  exact congrFun (if_neg hmask) db

section AddPermissionToRole

variable {db : Db} {row : Role} {P : Permission → Prop} {p : Permission} {actor : LoadedUser}
  {allowed : ℕ}

/-- The actor may edit the role: it is global or of the actor's tenant. -/
def InScope (row : Role) (actor : LoadedUser) : Prop :=
  actor.isSuperuser = true ∨ row.tenantId = none ∨ row.tenantId = actor.tenantId

theorem getRole_apply (h : RoleHas db.toTables row P) (hscope : InScope row actor) :
    RoleService.getRole row.id actor.scope db = (.ok (db.loadRole row), db, []) := by
  unfold RoleService.getRole
  rw [query, Action.read_bind_apply, RoleRepository.getById, h.get, Option.map_some,
    Action.require_some_bind]
  apply Action.bind_apply_ok
  unfold RoleService.ensureRoleInScope RoleService.unlessSuperuser
  cases hsuper : actor.isSuperuser with
  | true =>
    rw [if_pos (show actor.scope.isSuperuser = true from hsuper)]
    rfl
  | false =>
    rw [if_neg (show ¬ actor.scope.isSuperuser = true by rw [LoadedUser.scope, hsuper]; simp)]
    rcases hscope with hscope | hscope
    · rw [hsuper] at hscope
      cases hscope
    · exact congrFun (if_pos hscope) db

theorem addPermissionToRole_granted (h : RoleHas db.toTables row P) (hscope : InScope row actor)
    (hp : p ∈ db.permissions.rows) (hgranted : P p) :
    RoleService.addPermissionToRole row.id p.id actor db =
      (.error (.permissionAlreadyGranted "Permission already assigned to role"), db, []) := by
  unfold RoleService.addPermissionToRole
  rw [Action.bind_apply_ok (getRole_apply h hscope), query, Action.read_bind_apply,
    RoleRepository.getPermissionById, Table.get_of_mem hp, Action.require_some_bind]
  apply Action.ensure_bind_apply_not
  rw [not_not, List.mem_map]
  exact ⟨p, h.mem_permissionsOf.mpr ⟨hp, hgranted⟩, rfl⟩

/-- The names of the permission and of what the role lacks of its closure. -/
theorem mem_names_iff (h : RoleHas db.toTables row P) (hp : p ∈ db.permissions.rows)
    (hnew : ¬ P p) {q : Permission} (hq : q ∈ db.permissions.rows) :
    q.name ∈ p.name :: RoleService.impliedNames (db.loadRole row) p ↔
      permissionImplies.Implied [p.name] q.name ∧ ¬ P q := by
  have hname : ∀ {r : Permission}, r ∈ db.permissions.rows → r.name = q.name → r = q :=
    fun hr hrq => List.inj_on_of_nodup_map db.constraints.permissionName hr hq hrq
  have hhas : q.name ∈ (db.toTables.permissionsOf row.id).map Permission.name ↔ P q := by
    rw [List.mem_map]
    constructor
    · rintro ⟨r, hr, hrq⟩
      obtain ⟨hrow, hPr⟩ := h.mem_permissionsOf.mp hr
      rw [← hname hrow hrq]
      exact hPr
    · exact fun hPq => ⟨q, h.mem_permissionsOf.mpr ⟨hq, hPq⟩, rfl⟩
  rw [List.mem_cons, RoleService.impliedNames, List.mem_filter, decide_eq_true_eq,
    mem_expandImplied]
  change _ ∨ _ ∧ ¬ q.name ∈ (db.toTables.permissionsOf row.id).map Permission.name ∧ _ ↔ _
  rw [hhas]
  constructor
  · rintro (heq | ⟨himplied, hPq, _⟩)
    · rw [← hname hp heq.symm]
      exact ⟨.of_mem (by simp), hnew⟩
    · exact ⟨himplied, hPq⟩
  · rintro ⟨himplied, hPq⟩
    by_cases heq : q.name = p.name
    · exact Or.inl heq
    · exact Or.inr ⟨himplied, hPq, heq⟩

/-- The rows that are added after the permission itself. -/
theorem mem_impliedPerms (h : RoleHas db.toTables row P) (hp : p ∈ db.permissions.rows)
    (hnew : ¬ P p) {q : Permission} :
    q ∈ PermissionRepository.getByNames db.toTables
        (RoleService.impliedNames (db.loadRole row) p) ↔
      q ∈ db.permissions.rows ∧ permissionImplies.Implied [p.name] q.name ∧ ¬ P q ∧ q ≠ p := by
  rw [PermissionRepository.getByNames, List.mem_filter, decide_eq_true_eq]
  apply and_congr_right
  intro hq
  have hself : p.name ∉ RoleService.impliedNames (db.loadRole row) p := by
    rw [RoleService.impliedNames, List.mem_filter]
    simp
  have hmem := mem_names_iff h hp hnew hq
  rw [List.mem_cons] at hmem
  rw [← and_assoc, ← hmem]
  constructor
  · intro hname
    refine ⟨Or.inr hname, ?_⟩
    rintro rfl
    exact hself hname
  · rintro ⟨heq | hname, hne⟩
    · exact absurd (List.inj_on_of_nodup_map db.constraints.permissionName hq hp heq) hne
    · exact hname

theorem impliedNames_known (hcat : db.toTables.Catalogued) (hp : p ∈ db.permissions.rows) :
    ∀ n ∈ p.name :: RoleService.impliedNames (db.loadRole row) p,
      (permissionRegistry.lookup n).isSome := by
  obtain ⟨b, _, hlookup⟩ := hcat.bit hp
  have hself : ∀ n ∈ [p.name], (permissionRegistry.lookup n).isSome := by
    intro n hn
    rw [List.mem_singleton.mp hn, hlookup]
    rfl
  intro n hn
  rcases List.mem_cons.mp hn with heq | hn
  · exact hself n (by simp [heq])
  · exact lookup_isSome_of_implied (mem_expandImplied.mp (List.mem_filter.mp hn).1) hself

/-- For a permission that the role has not, only the delegation check is left. -/
theorem addPermissionToRole_apply {mask : ℕ} (h : RoleHas db.toTables row P)
    (hscope : InScope row actor) (hp : p ∈ db.permissions.rows) (hnew : ¬ P p)
    (hmask : maskFor (p.name :: RoleService.impliedNames (db.loadRole row) p) = .ok mask) :
    RoleService.addPermissionToRole row.id p.id actor db =
      (do
        checkMask actor mask (.grantNotAllowed
          "Requested permission exceeds what you are allowed to grant")
        let impliedPerms ← query (PermissionRepository.getByNames ·
          (RoleService.impliedNames (db.loadRole row) p))
        let added ← RoleRepository.addPermission (db.loadRole row) p
        impliedPerms.foldlM RoleRepository.addPermission added) db := by
  unfold RoleService.addPermissionToRole checkMask
  rw [Action.bind_apply_ok (getRole_apply h hscope), query, Action.read_bind_apply,
    RoleRepository.getPermissionById, Table.get_of_mem hp, Action.require_some_bind,
    Action.ensure_bind_apply]
  · simp only [hmask, Action.ofExcept_ok_bind]
  · intro hmem
    obtain ⟨q, hq, hid⟩ := List.mem_map.mp hmem
    obtain ⟨hrow, hPq⟩ := h.mem_permissionsOf.mp hq
    rw [List.inj_on_of_nodup_map db.permissions.nodup hrow hp hid] at hPq
    exact hnew hPq

/-- Adding a new permission goes through when the actor may grant all that it
implies, and then the role has all of that. -/
theorem addPermissionToRole_new (hcat : db.toTables.Catalogued) (h : RoleHas db.toTables row P)
    (hscope : InScope row actor) (hp : p ∈ db.permissions.rows) (hnew : ¬ P p)
    (hallowed : allowedMask db.toTables actor = allowed)
    (hold : ∀ q ∈ db.permissions.rows, P q → Permitted actor allowed q) :
    ((∀ q ∈ db.permissions.rows, permissionImplies.Implied [p.name] q.name →
        Permitted actor allowed q) ∧
      ∃ (db' : Db) (row' : Role) (es : List Event),
        RoleService.addPermissionToRole row.id p.id actor db =
          (.ok (db'.loadRole row'), db', es) ∧
        Grown db.toTables row db'.toTables row'
          (fun q => P q ∨ permissionImplies.Implied [p.name] q.name)) ∨
    (¬ (∀ q ∈ db.permissions.rows, permissionImplies.Implied [p.name] q.name →
        Permitted actor allowed q) ∧
      RoleService.addPermissionToRole row.id p.id actor db = (.error (.grantNotAllowed
        "Requested permission exceeds what you are allowed to grant"), db, [])) := by
  obtain ⟨mask, hmask⟩ := exists_maskFor (@impliedNames_known db row p hcat hp)
  -- what the role has already was granted by the same actor
  have hmay : MayGrant db.toTables actor mask ↔ ∀ q ∈ db.permissions.rows,
      permissionImplies.Implied [p.name] q.name → Permitted actor allowed q := by
    rw [mayGrant_iff hcat hmask hallowed]
    apply forall₂_congr
    intro q hq
    rw [mem_names_iff h hp hnew hq]
    constructor
    · intro hnot himplied
      by_cases hPq : P q
      · exact hold q hq hPq
      · exact hnot ⟨himplied, hPq⟩
    · exact fun hall himplied => hall himplied.1
  rw [addPermissionToRole_apply h hscope hp hnew hmask, ← hmay]
  by_cases hgrant : MayGrant db.toTables actor mask
  · refine Or.inl ⟨hgrant, ?_⟩
    rw [Action.bind_apply_ok (checkMask_apply hgrant), query, Action.read_bind_apply]
    obtain ⟨db₁, row₁, es₁, hadd, hgrown₁⟩ := add_permission hcat h hp hnew
    have hmem := fun q => mem_impliedPerms h hp hnew (q := q)
    obtain ⟨db₂, row₂, es₂, hrest, hgrown₂⟩ := add_permissions
      (hcat.of_eq hgrown₁.grants.permissions) hgrown₁.has
      (fun q (hq : q ∈ PermissionRepository.getByNames db.toTables
          (RoleService.impliedNames (db.loadRole row) p)) => by
        rw [hgrown₁.grants.permissions]
        exact ((hmem q).mp hq).1)
      (List.Nodup.filter _ (List.Nodup.of_map _ db.permissions.nodup))
      (fun q hq => not_or.mpr ((hmem q).mp hq).2.2)
    have hgrown := hgrown₁.trans hgrown₂
    refine ⟨db₂, row₂, es₁ ++ es₂, Action.bind_apply_of_ok hadd hrest, hgrown.id, hgrown.tenantId,
      hgrown.grants, hgrown.has.congr (fun q hq => ?_)⟩
    rw [hgrown.grants.permissions] at hq
    rw [hmem q]
    constructor
    · rintro ((hPq | rfl) | ⟨_, himplied, _⟩)
      · exact Or.inl hPq
      · exact Or.inr (.of_mem (by simp))
      · exact Or.inr himplied
    · rintro (hPq | himplied)
      · exact Or.inl (Or.inl hPq)
      · by_cases hcases : P q ∨ q = p
        · exact Or.inl hcases
        · obtain ⟨hPq, hne⟩ := not_or.mp hcases
          exact Or.inr ⟨hq, himplied, hPq, hne⟩
  · exact Or.inr ⟨hgrant, Action.bind_apply_error (checkMask_apply_not hgrant)⟩

end AddPermissionToRole

/-! ### Creating a role -/

section CreateRole

variable {db : Db} {actor : LoadedUser} {name : String} {names : List String} {mask : ℕ}

/-- The tenant of a role that the actor creates. -/
def roleTenant (actor : LoadedUser) : Option Uuid :=
  if actor.isSuperuser then none else actor.tenantId

/-- The insertions of `createRole` go through. -/
structure Creatable (db : Db) (name : String) (actor : LoadedUser) : Prop where
  name : RoleRepository.getByName db.toTables name (roleTenant actor) = none
  id : db.roles.get db.rolesIdSeq = none
  tenant : (roleTenant actor).all (fun i => (db.tenants.get i).isSome)
  linked : actor.isSuperuser = true ∨
    ∀ r ∈ actor.roles, r.id = db.rolesIdSeq ∨ (db.roles.get r.id).isSome

/-- What is left of `createRole` once the name is free and the mask is computed. -/
theorem createRole_apply
    (hname : RoleRepository.getByName db.toTables name (roleTenant actor) = none)
    (hmask : maskFor (expandImplied names) = .ok mask) :
    RoleService.createRole ⟨name, names⟩ actor db = (do
      checkMask actor mask (.grantNotAllowed
        "Requested permissions exceed what you are allowed to grant")
      let permissions ← query (PermissionRepository.getByNames · (expandImplied names))
      let newRole ← RoleRepository.create ⟨name, names⟩ (roleTenant actor) permissions mask
      RoleService.unlessSuperuser actor.isSuperuser
        (ForM.forM actor.roles (RoleService.linkGrantableRole newRole.id))
      return newRole) db := by
  unfold RoleService.createRole checkMask
  rw [query, Action.read_bind_apply]
  refine (Action.ensure_bind_apply hname).trans ?_
  change (Action.ofExcept (maskFor (expandImplied names)) >>= _) db = _
  rw [hmask, Action.ofExcept_ok_bind]
  rfl

theorem createRole_taken
    (hname : RoleRepository.getByName db.toTables name (roleTenant actor) ≠ none) :
    RoleService.createRole ⟨name, names⟩ actor db = (.error (.roleExists name), db, []) := by
  unfold RoleService.createRole
  rw [query, Action.read_bind_apply]
  exact Action.ensure_bind_apply_not hname

theorem createRole_refused
    (hname : RoleRepository.getByName db.toTables name (roleTenant actor) = none)
    (hmask : maskFor (expandImplied names) = .ok mask)
    (hgrant : ¬ MayGrant db.toTables actor mask) :
    RoleService.createRole ⟨name, names⟩ actor db = (.error (.grantNotAllowed
      "Requested permissions exceed what you are allowed to grant"), db, []) := by
  rw [createRole_apply hname hmask]
  exact Action.bind_apply_error (checkMask_apply_not hgrant)

/-- A committed row with its permissions. -/
theorem create_role (names : List String) {permissions : List Permission}
    (hcreatable : Creatable db name actor)
    (hrows : ∀ p ∈ permissions, p ∈ db.permissions.rows) (hfits : mask < 2 ^ 256)
    (hmask : ∀ i, mask.testBit i = true ↔ ∃ p ∈ permissions, p.bitPosition = some i) :
    ∃ (db' : Db) (row : Role),
      RoleRepository.create ⟨name, names⟩ (roleTenant actor) permissions mask db =
        (.ok (db'.loadRole row), db', []) ∧
      row.id = db.rolesIdSeq ∧ row.tenantId = roleTenant actor ∧
      SameGrants db.toTables db'.toTables ∧ RoleHas db'.toTables row (· ∈ permissions) ∧
      ∀ k, (db'.roles.get k).isSome ↔ k = db.rolesIdSeq ∨ (db.roles.get k).isSome := by
  let row := RoleRepository.newRole db.toTables name (roleTenant actor) mask
  let granted := RoleRepository.links row.id permissions
  obtain ⟨roles, hinsert⟩ : ∃ roles, db.roles.insert? row = some roles :=
    Table.insert?_of_get_none hcreatable.id
  have hunused : (row.tenantId, row.name) ∉ db.roles.rows.map (fun r => (r.tenantId, r.name)) := by
    intro hmem
    obtain ⟨r, hr, heq⟩ := List.mem_map.mp hmem
    have hnot := List.find?_eq_none.mp hcreatable.name r hr
    rw [decide_eq_true_eq] at hnot
    exact hnot ⟨(Prod.mk.inj heq).2, (Prod.mk.inj heq).1⟩
  have hgranted : ∀ x ∈ granted, x.1 = row.id ∧ (db.permissions.get x.2).isSome := by
    intro x hx
    obtain ⟨hid, p, hp, hpid⟩ := RoleRepository.mem_links.mp hx
    rw [← hpid, Table.get_of_mem (hrows p hp)]
    exact ⟨hid, rfl⟩
  let t : Tables := { db.toTables with
    roles := roles
    rolesIdSeq := db.rolesIdSeq + 1
    rolePermissions := db.rolePermissions ∪ granted }
  have hkept : ∀ k, (db.roles.get k).isSome → (roles.get k).isSome :=
    fun _ => Table.isSome_insert? hinsert
  have ht : t.Constraints := { Bootstrap.insertRole_constraints db.constraints hinsert hunused
      hcreatable.tenant hfits hgranted with
    grantablePermission := fun x hx =>
      ⟨hkept _ (db.constraints.grantablePermission x hx).1,
        (db.constraints.grantablePermission x hx).2⟩ }
  have hrow : db.toTables.insertRole row = .ok { db.toTables with
      roles := roles
      rolesIdSeq := db.rolesIdSeq + 1 } := by
    unfold Tables.insertRole
    rw [hinsert]
  have hbody : RoleRepository.createTx name (roleTenant actor) permissions mask db.toTables =
      .ok (t.loadRole row, t, []) := by
    unfold RoleRepository.createTx
    change (db.toTables.insertRole row >>= _) = _
    rw [hrow]
    rfl
  have hlinks : ∀ p ∈ db.permissions.rows, (row.id, p.id) ∈ t.rolePermissions ↔
      p ∈ permissions := by
    intro p hp
    have hfree : (row.id, p.id) ∉ db.rolePermissions := by
      intro hlink
      have hsome := (db.constraints.rolePermission _ hlink).1
      rw [show db.roles.get row.id = none from hcreatable.id] at hsome
      cases hsome
    change _ ∈ db.rolePermissions ∪ granted ↔ _
    rw [Finset.mem_union, or_iff_right hfree, RoleRepository.mem_links_row hrows hp,
      eq_self_iff_true, true_and]
  refine ⟨⟨t, ht⟩, row, transaction_commits hbody ht, rfl, rfl, ⟨rfl, rfl⟩,
    ⟨Table.get_insert?_self hinsert, hlinks, ?_⟩, ?_⟩
  · intro i
    change mask.testBit i = true ↔ _
    rw [hmask i]
    constructor
    · rintro ⟨p, hp, hbit⟩
      exact ⟨p, hrows p hp, hp, hbit⟩
    · rintro ⟨p, _, hp, hbit⟩
      exact ⟨p, hp, hbit⟩
  · intro k
    change (roles.get k).isSome ↔ _
    rw [Table.get_insert? hinsert]
    by_cases hk : k = db.rolesIdSeq
    · simp [hk, row, RoleRepository.newRole]
    · simp [hk, row, RoleRepository.newRole, Ne.symm hk]

/-- Only the roles that a role may grant have changed. -/
def Linked (t t' : Tables) : Prop :=
  ∃ links, t' = { t with roleGrantableRoles := links }

theorem Linked.trans {t t' t'' : Tables} (h : Linked t t') (h' : Linked t' t'') : Linked t t'' := by
  obtain ⟨links, rfl⟩ := h
  obtain ⟨links', rfl⟩ := h'
  exact ⟨links', rfl⟩

theorem Linked.roles {t t' : Tables} (h : Linked t t') : t'.roles = t.roles := by
  obtain ⟨links, rfl⟩ := h
  rfl

theorem linkGrantableRole_apply {newId : RoleId} {r : LoadedRole}
    (hnew : (db.roles.get newId).isSome) (hr : (db.roles.get r.id).isSome) :
    ∃ db' : Db, RoleService.linkGrantableRole newId r db = (.ok (), db', []) ∧
      Linked db.toTables db'.toTables := by
  unfold RoleService.linkGrantableRole
  rw [query, Action.read_bind_apply]
  by_cases hlinked : (r.id, newId) ∈ db.roleGrantableRoles
  · rw [if_pos (decide_eq_true hlinked)]
    exact ⟨db, rfl, db.roleGrantableRoles, rfl⟩
  · rw [if_neg (by simp [hlinked])]
    have hlink : Tables.insertLink db.roleGrantableRoles (r.id, newId) =
        .ok (insert (r.id, newId) db.roleGrantableRoles) := if_neg hlinked
    have hbody : RoleRepository.addGrantableRoleTx r.id newId db.toTables = .ok ((),
        { db.toTables with
          roleGrantableRoles := insert (r.id, newId) db.roleGrantableRoles }, []) := by
      unfold RoleRepository.addGrantableRoleTx
      rw [hlink]
      rfl
    have ht := insertRoleLink_constraints db.constraints hr hnew
    exact ⟨⟨_, ht⟩, transaction_commits hbody ht, _, rfl⟩

/-- The foreign key of a link requires the role that grants. -/
theorem linkGrantableRole_ok {newId : RoleId} {r : LoadedRole} {db' : Db} {es : List Event}
    (h : RoleService.linkGrantableRole newId r db = (.ok (), db', es)) :
    (db.roles.get r.id).isSome ∧ db'.roles = db.roles := by
  unfold RoleService.linkGrantableRole at h
  rw [query, Action.read_bind_apply] at h
  by_cases hlinked : (r.id, newId) ∈ db.roleGrantableRoles
  · rw [if_pos (decide_eq_true hlinked)] at h
    cases h
    exact ⟨(db.constraints.grantableRole _ hlinked).1, rfl⟩
  · rw [if_neg (by simp [hlinked])] at h
    rcases transaction_run h with ⟨e, hr, _⟩ | ⟨a, _, hbody⟩
    · cases hr
    · obtain ⟨ht, _⟩ := RoleRepository.addGrantableRoleTx_eq_ok hbody
      have hroles : db'.roles = db.roles := by rw [ht]
      have hmem : (r.id, newId) ∈ db'.roleGrantableRoles := by
        rw [ht]
        exact Finset.mem_insert_self _ _
      rw [← hroles]
      exact ⟨(db'.constraints.grantableRole _ hmem).1, rfl⟩

theorem linkGrantableRoles_apply {newId : RoleId} {rs : List LoadedRole}
    (hnew : (db.roles.get newId).isSome) (hrs : ∀ r ∈ rs, (db.roles.get r.id).isSome) :
    ∃ db' : Db, ForM.forM rs (RoleService.linkGrantableRole newId) db = (.ok (), db', []) ∧
      Linked db.toTables db'.toTables := by
  induction rs generalizing db with
  | nil => exact ⟨db, rfl, db.roleGrantableRoles, rfl⟩
  | cons r rs ih =>
    obtain ⟨db₁, hrun₁, hlinked₁⟩ := linkGrantableRole_apply hnew (hrs r (by simp))
    have hroles := hlinked₁.roles
    obtain ⟨db₂, hrun₂, hlinked₂⟩ := ih (by rw [hroles]; exact hnew)
      (fun q hq => by rw [hroles]; exact hrs q (by simp [hq]))
    refine ⟨db₂, ?_, hlinked₁.trans hlinked₂⟩
    rw [List.forM_cons]
    exact Action.bind_apply_of_ok hrun₁ hrun₂

theorem linkGrantableRoles_ok {newId : RoleId} {rs : List LoadedRole} {db' : Db}
    {es : List Event} (h : ForM.forM rs (RoleService.linkGrantableRole newId) db =
      (.ok (), db', es)) : ∀ r ∈ rs, (db.roles.get r.id).isSome := by
  induction rs generalizing db es with
  | nil => simp
  | cons r rs ih =>
    rw [List.forM_cons] at h
    rcases Action.bind_run h with ⟨e, _, hr⟩ | ⟨u, db₁, es₁, es₂, hrun, hrest, _⟩
    · cases hr
    · obtain ⟨hsome, hroles⟩ := linkGrantableRole_ok hrun
      intro q hq
      rcases List.mem_cons.mp hq with rfl | hq
      · exact hsome
      · have hq' := ih hrest q hq
        rw [hroles] at hq'
        exact hq'

theorem maskFor_lt (h : maskFor names = .ok mask) : mask < 2 ^ 256 := by
  apply Nat.lt_pow_two_of_testBit
  intro i hi
  by_contra hbit
  have hset : mask.testBit i = true := by simpa using hbit
  obtain ⟨n, _, hlookup⟩ := (Registry.testBit_maskFor h i).mp hset
  have hlt := lookup_lt hlookup
  omega

/-- A role that the checks and the schema accept is created, with its closure. -/
theorem createRole_creatable (hcat : db.toTables.Catalogued)
    (hcreatable : Creatable db name actor) (hmask : maskFor (expandImplied names) = .ok mask)
    (hgrant : MayGrant db.toTables actor mask) :
    ∃ (db' : Db) (role : LoadedRole) (row : Role),
      RoleService.createRole ⟨name, names⟩ actor db = (.ok role, db', []) ∧
      role.toRole = row ∧ row.id = db.rolesIdSeq ∧ row.tenantId = roleTenant actor ∧
      SameGrants db.toTables db'.toTables ∧
      RoleHas db'.toTables row (fun p => permissionImplies.Implied names p.name) := by
  have hmem : ∀ p, p ∈ PermissionRepository.getByNames db.toTables (expandImplied names) ↔
      p ∈ db.permissions.rows ∧ permissionImplies.Implied names p.name := by
    intro p
    rw [PermissionRepository.getByNames, List.mem_filter, decide_eq_true_eq, mem_expandImplied]
  obtain ⟨db₁, row, hcreate, hid, htenant, hgrants, hhas, hroles⟩ := create_role names
    hcreatable (fun p hp => ((hmem p).mp hp).1) (maskFor_lt hmask)
    (fun i => hcat.testBit_maskFor hmask)
  have hnew : (db₁.roles.get row.id).isSome := by
    rw [hhas.get]
    rfl
  have hlink : ∃ db₂ : Db, RoleService.unlessSuperuser actor.isSuperuser (ForM.forM actor.roles
      (RoleService.linkGrantableRole row.id)) db₁ = (.ok (), db₂, []) ∧
      Linked db₁.toTables db₂.toTables := by
    by_cases hsuper : actor.isSuperuser = true
    · refine ⟨db₁, congrFun (if_pos hsuper) db₁, db₁.roleGrantableRoles, rfl⟩
    · obtain ⟨db₂, hrun, hlinked⟩ := linkGrantableRoles_apply hnew
        (fun r hr => (hroles r.id).mpr (hcreatable.linked.resolve_left hsuper r hr))
      exact ⟨db₂, (congrFun (if_neg hsuper) db₁).trans hrun, hlinked⟩
  obtain ⟨db₂, hlink, links, hlinked⟩ := hlink
  refine ⟨db₂, db₁.loadRole row, row, ?_, rfl, hid, htenant, ?_, ?_⟩
  · rw [createRole_apply hcreatable.name hmask, Action.bind_apply_ok (checkMask_apply hgrant), query,
      Action.read_bind_apply]
    exact (Action.bind_apply_ok hcreate).trans (Action.bind_apply_ok hlink)
  · rw [hlinked]
    exact ⟨hgrants.permissions, hgrants.grantable⟩
  · have himplied : RoleHas db₁.toTables row (fun p => permissionImplies.Implied names p.name) := by
      refine hhas.congr (fun p hp => ?_)
      rw [hgrants.permissions] at hp
      rw [hmem p]
      exact and_iff_right hp
    rw [hlinked]
    exact ⟨himplied.get, himplied.links, himplied.mask⟩

/-- A role that is created was accepted by the checks and by the schema. -/
theorem creatable_of_createRole {role : LoadedRole} {db' : Db} {es : List Event}
    (hmask : maskFor (expandImplied names) = .ok mask)
    (h : RoleService.createRole ⟨name, names⟩ actor db = (.ok role, db', es)) :
    Creatable db name actor ∧ MayGrant db.toTables actor mask := by
  have hname : RoleRepository.getByName db.toTables name (roleTenant actor) = none := by
    by_contra htaken
    rw [createRole_taken htaken] at h
    cases h
  have hgrant : MayGrant db.toTables actor mask := by
    by_contra hnot
    rw [createRole_refused hname hmask hnot] at h
    cases h
  refine ⟨?_, hgrant⟩
  rw [createRole_apply hname hmask, Action.bind_apply_ok (checkMask_apply hgrant), query,
    Action.read_bind_apply] at h
  rcases Action.bind_run h with ⟨e, _, hr⟩ | ⟨role₁, db₁, es₁, es₂, hcreate, hrest, _⟩
  · cases hr
  rcases transaction_run hcreate with ⟨e, hr, _⟩ | ⟨role', hr, hbody⟩
  · cases hr
  cases hr
  obtain ⟨roles, hinsert, ht, hloaded, _⟩ := RoleRepository.createTx_eq_ok hbody
  have hroles : db₁.roles = roles := by rw [ht]
  have htenants : db₁.tenants = db.tenants := by rw [ht]
  have hid : role₁.id = db.rolesIdSeq := by
    rw [hloaded]
    rfl
  refine ⟨hname, (Table.insert?_eq_some hinsert).1, ?_, ?_⟩
  · have hrow : RoleRepository.newRole db.toTables name (roleTenant actor) mask ∈ db₁.roles.rows := by
      rw [hroles]
      exact (Table.mem_insert? hinsert).mpr (Or.inr rfl)
    have htenant := db₁.constraints.roleTenant _ hrow
    rw [htenants] at htenant
    exact htenant
  · by_cases hsuper : actor.isSuperuser = true
    · exact Or.inl hsuper
    · apply Or.inr
      intro r hr
      rcases Action.bind_run hrest with ⟨e, _, hr⟩ | ⟨u, db₂, _, _, hlink, _, _⟩
      · cases hr
      · rw [RoleService.unlessSuperuser, if_neg hsuper] at hlink
        have hsome := linkGrantableRoles_ok hlink r hr
        rw [hroles, Table.get_insert? hinsert] at hsome
        by_cases hk : r.id = db.rolesIdSeq
        · exact Or.inl hk
        · right
          rw [if_neg (fun heq => hk (by rw [← heq]; rfl))] at hsome
          exact hsome

end CreateRole

/-! ### Permission by permission -/

/-- A permission that the role has already is skipped. -/
def skipGranted (m : Service LoadedRole) : Service Unit := fun db =>
  match m db with
  | (.ok _, db', es) => (.ok (), db', es)
  | (.error (.permissionAlreadyGranted _), db', es) => (.ok (), db', es)
  | (.error e, db', es) => (.error e, db', es)

/-- An empty role, then one call for each permission. -/
def authorEach (name : String) (permissionIds : List PermissionId) (actor : LoadedUser) :
    Service RoleId := do
  let role ← RoleService.createRole ⟨name, []⟩ actor
  ForM.forM permissionIds (fun permissionId =>
    skipGranted (RoleService.addPermissionToRole role.id permissionId actor))
  return role.id

section EachPermission

variable {actor : LoadedUser} {allowed : ℕ}

/-- The loop goes through when the actor may grant the closure of all names,
and then the role has it; otherwise it stops at the delegation check. -/
theorem add_each {db : Db} {row : Role} {done : List String} {order : List Permission}
    (hcat : db.toTables.Catalogued)
    (h : RoleHas db.toTables row (fun q => permissionImplies.Implied done q.name))
    (hscope : InScope row actor) (horder : ∀ p ∈ order, p ∈ db.permissions.rows)
    (hallowed : allowedMask db.toTables actor = allowed)
    (hold : ∀ q ∈ db.permissions.rows, permissionImplies.Implied done q.name →
      Permitted actor allowed q) :
    ((∀ q ∈ db.permissions.rows,
        permissionImplies.Implied (done ++ order.map Permission.name) q.name →
          Permitted actor allowed q) ∧
      ∃ (db' : Db) (row' : Role) (es : List Event),
        ForM.forM (order.map Permission.id) (fun permissionId =>
          skipGranted (RoleService.addPermissionToRole row.id permissionId actor)) db =
            (.ok (), db', es) ∧
        Grown db.toTables row db'.toTables row' (fun q =>
          permissionImplies.Implied (done ++ order.map Permission.name) q.name)) ∨
    (¬ (∀ q ∈ db.permissions.rows,
        permissionImplies.Implied (done ++ order.map Permission.name) q.name →
          Permitted actor allowed q) ∧
      ∃ (db' : Db) (es : List Event),
        ForM.forM (order.map Permission.id) (fun permissionId =>
          skipGranted (RoleService.addPermissionToRole row.id permissionId actor)) db =
            (.error (.grantNotAllowed
              "Requested permission exceeds what you are allowed to grant"), db', es)) := by
  induction order generalizing db row done with
  | nil =>
    simp only [List.map_nil, List.append_nil]
    exact Or.inl ⟨hold, db, row, [], rfl, rfl, rfl, ⟨rfl, rfl⟩, h⟩
  | cons p order ih =>
    have hp := horder p (by simp)
    have hnames : done ++ (p :: order).map Permission.name =
        (done ++ [p.name]) ++ order.map Permission.name := by simp
    rw [hnames, List.map_cons, List.forM_cons]
    by_cases hgranted : permissionImplies.Implied done p.name
    · -- the call is skipped: the closure has the permission already
      have hsame : ∀ n, permissionImplies.Implied (done ++ [p.name]) n ↔
          permissionImplies.Implied done n := by
        intro n
        apply Implications.implied_append_of_implied
        intro m hm
        rw [List.mem_singleton.mp hm]
        exact hgranted
      have hskip : skipGranted (RoleService.addPermissionToRole row.id p.id actor) db =
          (.ok (), db, []) := by
        unfold skipGranted
        rw [addPermissionToRole_granted h hscope hp hgranted]
      rw [Action.bind_apply_ok hskip]
      exact ih hcat (h.congr (fun q _ => (hsame q.name).symm)) hscope
        (fun q hq => horder q (by simp [hq])) hallowed
        (fun q hq himplied => hold q hq ((hsame q.name).mp himplied))
    · rcases addPermissionToRole_new hcat h hscope hp hgranted hallowed hold with
        ⟨hall, db₁, row₁, es₁, hadd, hgrown₁⟩ | ⟨hnot, hadd⟩
      · have hskip : skipGranted (RoleService.addPermissionToRole row.id p.id actor) db =
            (.ok (), db₁, es₁) := by
          unfold skipGranted
          rw [hadd]
        have hrows : db₁.permissions = db.permissions := hgrown₁.grants.permissions
        have hhas : RoleHas db₁.toTables row₁
            (fun q => permissionImplies.Implied (done ++ [p.name]) q.name) :=
          hgrown₁.has.congr (fun q _ => Implications.implied_append.symm)
        have hrest := ih (hcat.of_eq hrows) hhas
          (by rw [InScope, hgrown₁.tenantId]; exact hscope)
          (fun q hq => by rw [hrows]; exact horder q (by simp [hq]))
          (by rw [hgrown₁.grants.allowedMask_eq, hallowed])
          (by
            intro q hq himplied
            rw [hrows] at hq
            rcases Implications.implied_append.mp himplied with himplied | himplied
            · exact hold q hq himplied
            · exact hall q hq himplied)
        rw [hrows, hgrown₁.id] at hrest
        rcases hrest with ⟨hall', db₂, row₂, es₂, hrun, hgrown₂⟩ | ⟨hnot, db₂, es₂, hrun⟩
        · exact Or.inl ⟨hall', db₂, row₂, es₁ ++ es₂, Action.bind_apply_of_ok hskip hrun,
            hgrown₁.trans hgrown₂⟩
        · exact Or.inr ⟨hnot, db₂, es₁ ++ es₂, Action.bind_apply_of_ok hskip hrun⟩
      · have hskip : skipGranted (RoleService.addPermissionToRole row.id p.id actor) db =
            (.error (.grantNotAllowed
              "Requested permission exceeds what you are allowed to grant"), db, []) := by
          unfold skipGranted
          rw [hadd]
        refine Or.inr ⟨?_, db, [], Action.bind_apply_error hskip⟩
        intro hall
        apply hnot
        intro q hq himplied
        exact hall q hq (Implications.implied_append.mpr (Or.inl
          (Implications.implied_append.mpr (Or.inr himplied))))

theorem maskFor_nothing : maskFor (expandImplied []) = .ok 0 := by decide

theorem mayGrant_nothing {t : Tables} : MayGrant t actor 0 := by
  refine Or.inr ?_
  rw [andNot_eq_zero_iff]
  intro i hbit
  rw [Nat.zero_testBit] at hbit
  cases hbit

/-- The calls for each permission go through when the actor may grant the
closure of them all, and otherwise one of them stops at the delegation check. -/
theorem authorEach_cases {db : Db} {name : String} {order : List Permission}
    (hcat : db.toTables.Catalogued) (hcreatable : Creatable db name actor)
    (horder : ∀ p ∈ order, p ∈ db.permissions.rows) :
    ((∀ q ∈ db.permissions.rows, permissionImplies.Implied (order.map Permission.name) q.name →
        Permitted actor (allowedMask db.toTables actor) q) ∧
      ∃ (db' : Db) (row : Role) (es : List Event),
        authorEach name (order.map Permission.id) actor db = (.ok row.id, db', es) ∧
        row.id = db.rolesIdSeq ∧ db'.permissions = db.permissions ∧
        RoleHas db'.toTables row (fun q =>
          permissionImplies.Implied (order.map Permission.name) q.name)) ∨
    (¬ (∀ q ∈ db.permissions.rows, permissionImplies.Implied (order.map Permission.name) q.name →
        Permitted actor (allowedMask db.toTables actor) q) ∧
      ∃ (db' : Db) (es : List Event),
        authorEach name (order.map Permission.id) actor db = (.error (.grantNotAllowed
          "Requested permission exceeds what you are allowed to grant"), db', es)) := by
  obtain ⟨db₁, role, row, hcreate, hrole, hid, htenant, hgrants, hhas⟩ :=
    createRole_creatable hcat hcreatable maskFor_nothing mayGrant_nothing
  have hroleId : role.id = row.id := by rw [← hrole]
  have hrows : db₁.permissions = db.permissions := hgrants.permissions
  have hscope : InScope row actor := by
    rw [InScope, htenant, roleTenant]
    by_cases hsuper : actor.isSuperuser = true
    · exact Or.inl hsuper
    · rw [if_neg hsuper]
      exact Or.inr (Or.inr rfl)
  have hnone : ∀ q ∈ db₁.permissions.rows, permissionImplies.Implied [] q.name →
      Permitted actor (allowedMask db.toTables actor) q := by
    intro q _ himplied
    obtain ⟨start, hstart, _⟩ := himplied
    cases hstart
  have heach := add_each (hcat.of_eq hrows) hhas hscope (by rw [hrows]; exact horder)
    (hgrants.allowedMask_eq actor) hnone
  rw [List.nil_append, hrows] at heach
  have hauthor : authorEach name (order.map Permission.id) actor db =
      (do
        ForM.forM (order.map Permission.id) (fun permissionId =>
          skipGranted (RoleService.addPermissionToRole row.id permissionId actor))
        return row.id) db₁ := by
    unfold authorEach
    rw [Action.bind_apply_ok hcreate, hroleId]
  rcases heach with ⟨hall, db₂, row₂, es, hrun, hgrown⟩ | ⟨hnot, db₂, es, hrun⟩
  · refine Or.inl ⟨hall, db₂, row₂, es ++ [], ?_, hgrown.id.trans hid,
      hgrown.grants.permissions.trans hrows, hgrown.has⟩
    rw [hauthor, hgrown.id]
    exact Action.bind_apply_of_ok hrun rfl
  · refine Or.inr ⟨hnot, db₂, es, ?_⟩
    rw [hauthor]
    exact Action.bind_apply_error hrun

end EachPermission

/-! ### The two routes -/

section Routes

variable {db : Db} {actor : LoadedUser} {name : String} {names : List String}
  {order : List Permission}

/-- One role after both routes: the closure of the names, and one mask. -/
structure SameRole (t t' : Tables) (roleId : RoleId) (names : List String) : Prop where
  closure : ∀ n, n ∈ (t.permissionsOf roleId).map Permission.name ↔
    permissionImplies.Implied names n
  permissions : t'.permissionsOf roleId = t.permissionsOf roleId
  mask : ∃ row row', t.roles.get roleId = some row ∧ t'.roles.get roleId = some row' ∧
    row'.permissionMask = row.permissionMask

/-- Creating the role with all names at once, and with one call for each of them. -/
structure RoutesAgree (db : Db) (actor : LoadedUser) (name : String) (names : List String)
    (order : List Permission) : Prop where
  succeed : (RoleService.createRole ⟨name, names⟩ actor db).1.isOk = true ↔
    (authorEach name (order.map Permission.id) actor db).1.isOk = true
  /-- The second route fails after its first call at the delegation check only. -/
  allowed : (RoleService.createRole ⟨name, []⟩ actor db).1.isOk = true →
    ((RoleService.createRole ⟨name, names⟩ actor db).1.isOk = true ↔
      ∀ text, (authorEach name (order.map Permission.id) actor db).1 ≠
        .error (.grantNotAllowed text))
  same : ∀ role db₁ es₁ roleId db₂ es₂,
    RoleService.createRole ⟨name, names⟩ actor db = (.ok role, db₁, es₁) →
    authorEach name (order.map Permission.id) actor db = (.ok roleId, db₂, es₂) →
    roleId = role.id ∧ SameRole db₁.toTables db₂.toTables roleId names

/-- Roles with the permissions of one closure, each in its own database. -/
theorem sameRole {t t' : Tables} {row row' : Role} (hcat : t.Catalogued)
    (hnames : ∀ n ∈ names, (permissionRegistry.lookup n).isSome)
    (h : RoleHas t row (fun p => permissionImplies.Implied names p.name))
    (h' : RoleHas t' row' (fun p => permissionImplies.Implied names p.name))
    (hid : row'.id = row.id) (hpermissions : t'.permissions = t.permissions) :
    SameRole t t' row.id names where
  closure := by
    intro n
    rw [List.mem_map]
    constructor
    · rintro ⟨p, hp, rfl⟩
      exact (h.mem_permissionsOf.mp hp).2
    · intro himplied
      obtain ⟨b, hb⟩ := Option.isSome_iff_exists.mp (lookup_isSome_of_implied himplied hnames)
      obtain ⟨p, hp, rfl, _⟩ := hcat.row hb
      exact ⟨p, h.mem_permissionsOf.mpr ⟨hp, himplied⟩, rfl⟩
  permissions := by
    rw [Tables.permissionsOf, Tables.permissionsOf, hpermissions]
    apply List.filter_congr
    intro p hp
    apply decide_eq_decide.mpr
    rw [h.links p hp, ← hid]
    exact h'.links p (by rw [hpermissions]; exact hp)
  mask := ⟨row, row', h.get, by rw [← hid]; exact h'.get, h.mask_eq h' hpermissions⟩

/-- Routes that succeed agree when they leave the same role. -/
theorem routesAgree_of_ok {role : LoadedRole} {roleId : RoleId} {db₁ db₂ : Db}
    {es₁ es₂ : List Event}
    (h : RoleService.createRole ⟨name, names⟩ actor db = (.ok role, db₁, es₁))
    (h' : authorEach name (order.map Permission.id) actor db = (.ok roleId, db₂, es₂))
    (hid : roleId = role.id) (hsame : SameRole db₁.toTables db₂.toTables roleId names) :
    RoutesAgree db actor name names order where
  succeed := by
    rw [h, h']
    exact iff_of_true rfl rfl
  allowed := by
    intro _
    rw [h, h']
    refine iff_of_true rfl ?_
    intro text htext
    cases htext
  same := by
    intro role' db₁' es₁' roleId' db₂' es₂' hcreate heach
    rw [h] at hcreate
    rw [h'] at heach
    cases hcreate
    cases heach
    exact ⟨hid, hsame⟩

/-- Routes that fail agree, when the second one fails at the check if it can start. -/
theorem routesAgree_of_errors {e e' : Err} {db₁ db₂ : Db} {es₁ es₂ : List Event}
    (h : RoleService.createRole ⟨name, names⟩ actor db = (.error e, db₁, es₁))
    (h' : authorEach name (order.map Permission.id) actor db = (.error e', db₂, es₂))
    (hstart : (RoleService.createRole ⟨name, []⟩ actor db).1.isOk = true →
      ∃ text, e' = .grantNotAllowed text) : RoutesAgree db actor name names order where
  succeed := by
    rw [h, h']
    exact iff_of_false Bool.false_ne_true Bool.false_ne_true
  allowed := by
    intro hok
    obtain ⟨text, rfl⟩ := hstart hok
    rw [h, h']
    exact iff_of_false Bool.false_ne_true (fun hne => hne text rfl)
  same := by
    intro role db₁ es₁ roleId db₂ es₂ hcreate
    rw [h] at hcreate
    cases hcreate

/-- Neither route starts with a role that the actor cannot create. -/
theorem routesAgree_of_not_creatable {mask : ℕ} (hnot : ¬ Creatable db name actor)
    (hmask : maskFor (expandImplied names) = .ok mask) :
    RoutesAgree db actor name names order := by
  have hnone : ∀ {ns : List String} {m : ℕ} {role : LoadedRole} {db' : Db} {es : List Event},
      maskFor (expandImplied ns) = .ok m →
      RoleService.createRole ⟨name, ns⟩ actor db ≠ (.ok role, db', es) :=
    fun hm hrun => hnot (creatable_of_createRole hm hrun).1
  rcases hwhole : RoleService.createRole ⟨name, names⟩ actor db with ⟨e | role, db₁, es₁⟩
  · rcases hfirst : RoleService.createRole ⟨name, []⟩ actor db with ⟨e' | role, db₂, es₂⟩
    · have heach : authorEach name (order.map Permission.id) actor db = (.error e', db₂, es₂) := by
        unfold authorEach
        exact Action.bind_apply_error hfirst
      refine routesAgree_of_errors hwhole heach ?_
      rw [hfirst]
      exact fun h => absurd h Bool.false_ne_true
    · exact absurd hfirst (hnone maskFor_nothing)
  · exact absurd hwhole (hnone hmask)

/-- All names at once and one call for each of them lead to the same role, or
neither does. -/
theorem routes_agree (hcat : db.toTables.Catalogued)
    (hnames : ∀ n ∈ names, (permissionRegistry.lookup n).isSome)
    (horder : ∀ p ∈ order, p ∈ db.permissions.rows)
    (hsame : ∀ n, n ∈ names ↔ n ∈ order.map Permission.name) :
    RoutesAgree db actor name names order := by
  have hclosed : ∀ n ∈ expandImplied names, (permissionRegistry.lookup n).isSome :=
    fun n hn => lookup_isSome_of_implied (mem_expandImplied.mp hn) hnames
  obtain ⟨mask, hmask⟩ := exists_maskFor hclosed
  have himplied : ∀ n, permissionImplies.Implied (order.map Permission.name) n ↔
      permissionImplies.Implied names n := by
    intro n
    exact ⟨fun h => h.mono (fun m hm => (hsame m).mpr hm),
      fun h => h.mono (fun m hm => (hsame m).mp hm)⟩
  have hmay : MayGrant db.toTables actor mask ↔ ∀ p ∈ db.permissions.rows,
      permissionImplies.Implied names p.name →
        Permitted actor (allowedMask db.toTables actor) p := by
    rw [mayGrant_iff hcat hmask rfl]
    simp only [mem_expandImplied]
  by_cases hcreatable : Creatable db name actor
  · have heach := authorEach_cases hcat hcreatable horder
    simp only [himplied, ← hmay] at heach
    rcases heach with ⟨hgrant, db₁, row₁, es₁, heach, hid₁, hrows₁, hhas₁⟩ |
      ⟨hgrant, db₁, es₁, heach⟩
    · obtain ⟨db₂, role₂, row₂, hcreate, hrole₂, hid₂, _, hgrants₂, hhas₂⟩ :=
        createRole_creatable hcat hcreatable hmask hgrant
      have hid : row₁.id = row₂.id := hid₁.trans hid₂.symm
      have hrows : db₁.permissions = db₂.permissions := hrows₁.trans hgrants₂.permissions.symm
      refine routesAgree_of_ok hcreate heach (by rw [hid, ← hrole₂]) ?_
      rw [hid]
      exact sameRole (hcat.of_eq hgrants₂.permissions) hnames hhas₂ hhas₁ hid hrows
    · exact routesAgree_of_errors (createRole_refused hcreatable.name hmask hgrant) heach
        (fun _ => ⟨_, rfl⟩)
  · exact routesAgree_of_not_creatable hcreatable hmask

end Routes

theorem routes_agree_acme : (RoleService.createRole ⟨"auditor", ["role:create", "role:read"]⟩
      (acme.loadUser boss) acme).1.isOk = true ∧
    RoutesAgree acme (acme.loadUser boss) "auditor" ["role:create", "role:read"]
      [⟨2, "role:read", some 1⟩, ⟨1, "role:create", some 0⟩] :=
  ⟨by decide +kernel, routes_agree acme_reachable.catalogued (by decide) (by decide +kernel)
    (fun n => by simp [or_comm])⟩

end FastapiTemplate.Authoring
