import FastapiTemplate.Authoring
import FastapiTemplate.Ceiling

/-!
The ceilings over whole runs, whoever the actors are. A bit of a tenant's role
comes from one of four changes; the author's ceiling bounds it unless a
superuser adds it with `add_permission_to_role`, which skips the check. The
runs carry the set of the bits that superusers have added in this way; where
these are within the ceilings, the ceilings bound every role of a tenant.
-/
namespace FastapiTemplate

open Library.KeyedTable Library.Committing Library.BitMask

/-! ### Where the bits of a tenant's role come from -/

/-- The change sets the bit in the role of the tenant. -/
inductive BitOrigin (tenantId : Uuid) (roleId : RoleId) (i : ℕ) : Change → Prop
  | created (name : String) (permissions : List Permission) (mask : ℕ) :
      mask.testBit i = true →
      BitOrigin tenantId roleId i (.createRole name (some tenantId) permissions mask)
  | bootstrapped (allowed : ℕ) : tenantRoleMask.testBit i = true →
      BitOrigin tenantId roleId i (.createRootTenantRole tenantId allowed)
  | resynced (tenantId' : Uuid) (allowed : ℕ) : tenantRoleMask.testBit i = true →
      BitOrigin tenantId roleId i (.syncRootTenantRole tenantId' allowed)
  | added (role : LoadedRole) (permission : Permission) : role.id = roleId →
      role.tenantId = some tenantId → permission.bitPosition = some i →
      BitOrigin tenantId roleId i (.addPermission role permission)

/-- The role had the bit. -/
def HadBit (t : Tables) (tenantId : Uuid) (roleId : RoleId) (i : ℕ) : Prop :=
  ∃ r ∈ t.roles.rows, r.id = roleId ∧ r.tenantId = some tenantId ∧
    r.permissionMask.testBit i = true

/-- The bits that the roles of tenants have gained since `db`. -/
def RolesGain (bound : Uuid → RoleId → ℕ → Prop) (db s : Db) : Prop :=
  ∀ r' ∈ s.roles.rows, ∀ tenantId, r'.tenantId = some tenantId → ∀ i,
    r'.permissionMask.testBit i = true →
      HadBit db.toTables tenantId r'.id i ∨ bound tenantId r'.id i

theorem testBit_right_of_and {a b i : ℕ} (h : (a &&& b).testBit i = true) : b.testBit i = true :=
  within_and_right a b i h

section Origin

variable {db db' : Db} {es : List Event} {tenantId : Uuid} {r' : Role} {i : ℕ}

/-- A set bit was there, or the change is one of the four. -/
theorem Change.bit_origin {c : Change} (hcur : c.Current db.toTables)
    (h : c.Commits db db' es) (hr' : r' ∈ db'.roles.rows)
    (htenant : r'.tenantId = some tenantId) (hbit : r'.permissionMask.testBit i = true) :
    HadBit db.toTables tenantId r'.id i ∨ BitOrigin tenantId r'.id i c := by
  obtain ⟨tokens, happly⟩ := Change.commits_apply h
  cases c with
  | createRole name owner permissions mask =>
    obtain ⟨a, h⟩ := h
    obtain ⟨roles, hinsert, ht, _⟩ := RoleRepository.createTx_eq_ok h
    rw [ht] at hr'
    rcases (Table.mem_insert? hinsert).mp hr' with hold | rfl
    · exact Or.inl ⟨r', hold, rfl, htenant, hbit⟩
    · obtain rfl : owner = some tenantId := htenant
      exact Or.inr (.created name permissions mask hbit)
  | createRootTenantRole owner allowed =>
    obtain ⟨a, h⟩ := h
    obtain ⟨roles, hinsert, ht, _⟩ := RoleRepository.createRootTenantRoleTx_eq_ok h
    rw [ht] at hr'
    rcases (Table.mem_insert? hinsert).mp hr' with hold | rfl
    · exact Or.inl ⟨r', hold, rfl, htenant, hbit⟩
    · obtain rfl : owner = tenantId := Option.some.inj htenant
      exact Or.inr (.bootstrapped allowed (testBit_right_of_and hbit))
  | syncRootTenantRole owner allowed =>
    obtain ⟨a, h⟩ := h
    rcases RoleRepository.syncRootTenantRolePermissionsTx_eq_ok h with
      ⟨_, ht, _⟩ | ⟨role, _, hsync⟩
    · rw [ht] at hr'
      exact Or.inl ⟨r', hr', rfl, htenant, hbit⟩
    · obtain ⟨_, ht, _⟩ := RoleRepository.resyncRole_eq_ok hsync
      rw [ht, Tables.bumpPermVersion_roles] at hr'
      obtain ⟨r, hr, hid, rfl | ⟨_, rfl⟩⟩ := @Table.mem_update _ _ _ _ _ _ (by intro _; rfl) _ hr'
      · exact Or.inl ⟨r', hr, rfl, htenant, hbit⟩
      · exact Or.inr (.resynced owner allowed (testBit_right_of_and hbit))
  | updateRole role data =>
    rw [happly] at hr'
    obtain ⟨r, hr, hid, rfl | ⟨_, rfl⟩⟩ := @Table.mem_update _ _ _ _ _ _ (by intro _; rfl) _ hr'
    · exact Or.inl ⟨r', hr, rfl, htenant, hbit⟩
    · exact Or.inl ⟨r, hr, hid, htenant, hbit⟩
  | deleteRole role =>
    rw [happly] at hr'
    exact Or.inl ⟨r', Table.mem_delete hr', rfl, htenant, hbit⟩
  | addPermission role permission =>
    obtain ⟨hrow, _, _⟩ := RoleRepository.getById_eq_some hcur.1
    rw [happly] at hr'
    obtain ⟨r, hr, hid, rfl | ⟨hsel, rfl⟩⟩ := @Table.mem_update _ _ _ _ _ _ (by intro _; rfl) _ hr'
    · exact Or.inl ⟨r', hr, rfl, htenant, hbit⟩
    · obtain rfl := Table.eq_of_get hr (of_decide_eq_true hsel) hrow
      rcases testBit_maskWith.mp hbit with hold | hnew
      · exact Or.inl ⟨role.toRole, hr, rfl, htenant, hold⟩
      · exact Or.inr (.added role permission rfl htenant hnew)
  | removePermission role permission =>
    obtain ⟨hrow, _, _⟩ := RoleRepository.getById_eq_some hcur.1
    rw [happly] at hr'
    obtain ⟨r, hr, hid, rfl | ⟨hsel, rfl⟩⟩ := @Table.mem_update _ _ _ _ _ _ (by intro _; rfl) _ hr'
    · exact Or.inl ⟨r', hr, rfl, htenant, hbit⟩
    · obtain rfl := Table.eq_of_get hr (of_decide_eq_true hsel) hrow
      exact Or.inl ⟨role.toRole, hr, rfl, htenant, (testBit_maskWithout.mp hbit).1⟩
  | _ =>
    rw [happly] at hr'
    exact Or.inl ⟨r', hr', rfl, htenant, hbit⟩

end Origin

/-! ### What one transaction adds -/

/-- A bit that a change of the operation may set in a role of the tenant: the
root role's are tenant permissions, an author's are in the author's ceiling. -/
def MayAdd (actor : User) (call : Call) (s : Db) (tenantId : Uuid) (roleId : RoleId) (i : ℕ) :
    Prop :=
  (tenantRoleMask.testBit i = true ∧ ¬ call.Grants) ∨
    (∃ tenant, s.tenants.get tenantId = some tenant ∧
      tenant.allowedPermissionMask.testBit i = true) ∨
    actor.isSuperuser = true ∧ ∃ permissionId, call = .addPermissionToRole roleId permissionId

section Adds

variable {actor : User} {call : Call} {s s' : Db} {es : List Event}

/-- A superuser's `create_role` aside, which makes a global role. -/
theorem gain_of_performed (hcat : s.toTables.Catalogued)
    (hglobal : actor.isSuperuser = true → ∀ role, call ≠ .createRole role)
    (h : Performed actor call s s' es) : RolesGain (MayAdd actor call s) s s' := by
  intro r' hr' tenantId htenant i hbit
  obtain ⟨c, hperforms, hcur, hauth, hcommit⟩ := h
  rcases Change.bit_origin hcur hcommit hr' htenant hbit with hhad | horigin
  · exact Or.inl hhad
  · right
    cases horigin with
    | created name permissions mask hmask =>
      cases call with
      | createRole role =>
        have hsuper : actor.isSuperuser = false :=
          Bool.eq_false_of_not_eq_true (fun htrue => hglobal htrue role rfl)
        obtain ⟨howner, hunder⟩ := hauth hsuper
        obtain ⟨tenant, hrow⟩ : ∃ tenant, s.tenants.get tenantId = some tenant := by
          have hexists := s'.constraints.roleTenant r' hr'
          obtain ⟨a, hcommit⟩ := hcommit
          obtain ⟨roles, _, ht, _⟩ := RoleRepository.createTx_eq_ok hcommit
          rw [htenant, ht] at hexists
          exact Option.isSome_iff_exists.mp hexists
        have hwithin := hunder tenantId (by rw [← howner]; rfl) tenant hrow
        exact Or.inr (Or.inl ⟨tenant, hrow, hwithin i hmask⟩)
      | _ => exact absurd hperforms id
    | bootstrapped allowed hroot =>
      refine Or.inl ⟨hroot, ?_⟩
      intro hgrants
      cases hgrants <;> exact absurd hperforms id
    | resynced owner allowed hroot =>
      refine Or.inl ⟨hroot, ?_⟩
      intro hgrants
      cases hgrants <;> exact absurd hperforms id
    | added role permission hid howner hnew =>
      cases call with
      | addPermissionToRole roleId permissionId =>
        by_cases hsuper : actor.isSuperuser = true
        · obtain rfl : role.id = roleId := hperforms
          exact Or.inr (Or.inr ⟨hsuper, permissionId, by rw [hid]⟩)
        · obtain ⟨hscope, b, hb, hunder⟩ := hauth (Bool.eq_false_of_not_eq_true hsuper)
          obtain ⟨hrow, _, _⟩ := RoleRepository.getById_eq_some hcur.1
          have hmember : actor.tenantId = some tenantId := by
            rcases hscope with hnone | hsame
            · rw [howner] at hnone
              cases hnone
            · rw [← hsame, howner]
          obtain ⟨tenant, htenantRow⟩ : ∃ tenant, s.tenants.get tenantId = some tenant := by
            have hexists := s.constraints.roleTenant role.toRole (Table.mem_of_get hrow)
            rw [howner] at hexists
            exact Option.isSome_iff_exists.mp hexists
          have hsame : b = i := by
            have hlookup := (hcat.bit_iff (Table.mem_of_get hcur.2)).mp hnew
            rw [hb] at hlookup
            exact Option.some.inj hlookup
          have hwithin := hunder tenantId (by rw [hmember]; rfl) tenant htenantRow
          rw [hsame] at hwithin
          exact Or.inr (Or.inl ⟨tenant, htenantRow, (within_bit_iff _ _).mp hwithin⟩)
      | _ => exact absurd hperforms id

end Adds

/-! ### The ceilings of the tenants -/

/-- Every ceiling is made of tenant permissions. -/
def TenantsWithin (t : Tables) : Prop :=
  ∀ x ∈ t.tenants.rows, Within x.allowedPermissionMask tenantRoleMask

theorem Change.tenantsWithin {c : Change} {db db' : Db} {es : List Event}
    (hcur : c.Current db.toTables) (h : c.Commits db db' es) (hdb : TenantsWithin db.toTables) :
    TenantsWithin db'.toTables := by
  obtain ⟨tokens, happly⟩ := Change.commits_apply h
  cases c with
  | createTenant tenantId name mask =>
    obtain ⟨a, h⟩ := h
    obtain ⟨tenants, hinsert, ht, _⟩ := TenantRepository.createTx_eq_ok h
    intro x hx
    rw [ht] at hx
    rcases (Table.mem_insert? hinsert).mp hx with hold | rfl
    · exact hdb x hold
    · exact hcur
  | setAllowedPermissionMask tenant mask =>
    intro x hx
    rw [happly] at hx
    obtain ⟨y, hy, _, rfl | ⟨_, rfl⟩⟩ := @Table.mem_update _ _ _ _ _ _ (by intro _; rfl) _ hx
    · exact hdb x hy
    · exact hcur.2
  | setTenantActive tenant isActive =>
    intro x hx
    rw [happly] at hx
    obtain ⟨y, hy, _, rfl | ⟨_, rfl⟩⟩ := @Table.mem_update _ _ _ _ _ _ (by intro _; rfl) _ hx
    · exact hdb x hy
    · exact hdb y hy
  | syncRootTenantRole tenantId allowed =>
    intro x hx
    rw [happly] at hx
    simp only [Change.apply] at hx
    split at hx <;> exact hdb x hx
  | _ =>
    intro x hx
    rw [happly] at hx
    exact hdb x hx

/-- The two operations that set the bits of a role which its author chooses. -/
def Call.Authors (call : Call) : Prop :=
  (∃ role, call = .createRole role) ∨
    ∃ roleId permissionId, call = .addPermissionToRole roleId permissionId

/-- No transaction of the two authoring operations touches a tenant. -/
theorem tenants_of_performed {actor : User} {call : Call} {s s' : Db} {es : List Event}
    (hcall : call.Authors) (h : Performed actor call s s' es) : s'.tenants = s.tenants := by
  obtain ⟨c, hperforms, _, _, hcommit⟩ := h
  obtain ⟨tokens, happly⟩ := Change.commits_apply hcommit
  rw [happly]
  rcases hcall with ⟨role, rfl⟩ | ⟨roleId, permissionId, rfl⟩
  · cases c with
    | createRole _ _ _ _ => rfl
    | addGrantableRole _ _ => rfl
    | _ => exact absurd hperforms id
  · cases c with
    | addPermission _ _ => rfl
    | _ => exact absurd hperforms id

/-- The bit is in the ceiling of the tenant. -/
def InCeiling (t : Tables) (tenantId : Uuid) (_ : RoleId) (i : ℕ) : Prop :=
  ∃ tenant, t.tenants.get tenantId = some tenant ∧ tenant.allowedPermissionMask.testBit i = true

/-! ### A superuser's role -/

/-- The roles of tenants, the ceilings and the catalogue are as they were. -/
structure TenantRolesKept (s s' : Db) : Prop where
  roles : ∀ r ∈ s'.roles.rows, r.tenantId ≠ none → r ∈ s.roles.rows
  tenants : s'.tenants = s.tenants
  permissions : s'.permissions = s.permissions

theorem TenantRolesKept.refl (s : Db) : TenantRolesKept s s := ⟨fun _ hr _ => hr, rfl, rfl⟩

theorem TenantRolesKept.trans {s s' s'' : Db} (h : TenantRolesKept s s')
    (h' : TenantRolesKept s' s'') : TenantRolesKept s s'' :=
  ⟨fun r hr hne => h.roles r (h'.roles r hr hne) hne, h'.tenants.trans h.tenants,
    h'.permissions.trans h.permissions⟩

/-- A superuser's `create_role` makes one global role. -/
theorem does_createRole_superuser {role : RoleCreate} {actor : LoadedUser} {db : Db}
    (hsuper : actor.isSuperuser = true) :
    Does (fun s s' _ => TenantRolesKept s s') (RoleService.createRole role actor) db
      (fun _ _ => True) := by
  unfold RoleService.createRole RoleService.unlessSuperuser
  simp only [hsuper, if_true]
  refine does_query (Does.ensure_bind ?_)
  intro _
  refine Does.ofExcept_bind ?_
  intro requested _
  refine Does.bind (Q := fun _ s => s = db) (Does.pure rfl) ?_
  rintro _ _ rfl
  refine does_query ?_
  refine Does.bind (Q := fun _ _ => True) (does_transaction ?_)
    (fun _ _ _ => Does.bind (Q := fun _ _ => True) (Does.pure trivial)
      (fun _ _ _ => Does.pure trivial))
  intro newRole db' es hcommit
  obtain ⟨roles, hinsert, ht, _⟩ := RoleRepository.createTx_eq_ok hcommit
  refine ⟨⟨?_, by rw [ht], by rw [ht]⟩, trivial⟩
  intro r hr hne
  rw [ht] at hr
  rcases (Table.mem_insert? hinsert).mp hr with hold | rfl
  · exact hold
  · exact absurd rfl hne

/-! ### What a request adds -/

section Gain

variable {bound : Uuid → RoleId → ℕ → Prop} {db s s' : Db}

theorem RolesGain.refl (bound : Uuid → RoleId → ℕ → Prop) (db : Db) : RolesGain bound db db :=
  fun r' hr' _ htenant _ hbit => Or.inl ⟨r', hr', rfl, htenant, hbit⟩

theorem RolesGain.trans (h : RolesGain bound db s) (h' : RolesGain bound s s') :
    RolesGain bound db s' := by
  intro r' hr' tenantId htenant i hbit
  rcases h' r' hr' tenantId htenant i hbit with ⟨r, hr, hid, hsame, hbefore⟩ | hbound
  · rw [← hid]
    exact h r hr tenantId hsame i hbefore
  · exact Or.inr hbound

theorem TenantRolesKept.gain (h : TenantRolesKept db s) : RolesGain bound db s := by
  intro r' hr' tenantId htenant i hbit
  have hold := h.roles r' hr' (by rw [htenant]; exact Option.some_ne_none tenantId)
  exact Or.inl ⟨r', hold, rfl, htenant, hbit⟩

end Gain

section Request

variable {getPasswordHash : String → Except Err String} {actorId : Uuid} {call : Call}
  {db db' : Db} {r : Except Err Unit} {es : List Event}

theorem createRole_kept {actor : User} {role : RoleCreate}
    (hactor : db.users.get actorId = some actor) (hsuper : actor.isSuperuser = true)
    (h : request getPasswordHash actorId (.createRole role) db = (r, db', es)) :
    TenantRolesKept db db' := by
  have hdoes : Does (fun s s' _ => TenantRolesKept s s')
      (request getPasswordHash actorId (.createRole role)) db (fun _ _ => True) :=
    does_request_of hactor (fun _ => does_discard (does_createRole_superuser hsuper))
  have hpath := hdoes.1
  rw [h] at hpath
  exact hpath.collapse (R := fun s s' _ => TenantRolesKept s s') TenantRolesKept.refl
    (fun h h' => h.trans h') (fun _ _ _ h => h)

/-- The superuser who calls is the one that adds. -/
def SuperuserAdding (db : Db) (actorId : Uuid) (call : Call) (roleId : RoleId) : Prop :=
  (∃ actor, db.users.get actorId = some actor ∧ actor.isSuperuser = true) ∧
    ∃ permissionId, call = .addPermissionToRole roleId permissionId

/-- The bits that a request adds are tenant permissions, but for a superuser's. -/
theorem request_gain (hcat : db.toTables.Catalogued) (hwithin : TenantsWithin db.toTables)
    (h : request getPasswordHash actorId call db = (r, db', es)) :
    RolesGain (fun _ roleId i => tenantRoleMask.testBit i = true ∨
      SuperuserAdding db actorId call roleId) db db' := by
  rcases request_path h with ⟨_, _, rfl, _⟩ | ⟨actor, hactor, hpath⟩
  · exact .refl _ _
  · by_cases hglobal : actor.isSuperuser = true ∧ ∃ role, call = .createRole role
    · obtain ⟨hsuper, role, rfl⟩ := hglobal
      exact (createRole_kept hactor hsuper h).gain
    · have hnot : actor.isSuperuser = true → ∀ role, call ≠ .createRole role :=
        fun hsuper role heq => hglobal ⟨hsuper, role, heq⟩
      refine (hpath.invariant (I := fun s => s.toTables.Catalogued ∧ TenantsWithin s.toTables ∧
        RolesGain _ db s) ?_ ⟨hcat, hwithin, .refl _ _⟩).2.2
      rintro s s' fs hstep ⟨hcat, hwithin, hgain⟩
      have hadds := gain_of_performed hcat hnot hstep
      obtain ⟨c, _, hcur, _, hcommit⟩ := hstep
      refine ⟨Change.catalogued hcur hcommit hcat, Change.tenantsWithin hcur hcommit hwithin,
        hgain.trans ?_⟩
      intro r' hr' tenantId htenant i hbit
      rcases hadds r' hr' tenantId htenant i hbit with
        hhad | ⟨hroot, _⟩ | ⟨tenant, hrow, hceiling⟩ | ⟨hsuper, hcall⟩
      · exact Or.inl hhad
      · exact Or.inr (Or.inl hroot)
      · exact Or.inr (Or.inl (hwithin tenant (Table.mem_of_get hrow) i hceiling))
      · exact Or.inr (Or.inr ⟨⟨actor, hactor, hsuper⟩, hcall⟩)

/-- The authoring operations, without a superuser's `add_permission_to_role`. -/
def Checked (actor : User) (call : Call) : Prop :=
  (∃ role, call = .createRole role) ∨
    actor.isSuperuser = false ∧
      ∃ roleId permissionId, call = .addPermissionToRole roleId permissionId

theorem tenants_of_authoring (hcall : call.Authors)
    (h : request getPasswordHash actorId call db = (r, db', es)) : db'.tenants = db.tenants := by
  rcases request_path h with ⟨_, _, rfl, _⟩ | ⟨actor, _, hpath⟩
  · rfl
  · exact hpath.invariant (I := fun s => s.tenants = db.tenants)
      (fun s s' fs hstep hkept => (tenants_of_performed hcall hstep).trans hkept) rfl

/-- The bits that a checked operation adds are in the tenant's ceiling. -/
theorem checked_gain {actor : User} (hcat : db.toTables.Catalogued)
    (hactor : db.users.get actorId = some actor) (hchecked : Checked actor call)
    (h : request getPasswordHash actorId call db = (r, db', es)) :
    RolesGain (InCeiling db.toTables) db db' := by
  by_cases hglobal : actor.isSuperuser = true ∧ ∃ role, call = .createRole role
  · obtain ⟨hsuper, role, rfl⟩ := hglobal
    exact (createRole_kept hactor hsuper h).gain
  · have hnot : actor.isSuperuser = true → ∀ role, call ≠ .createRole role :=
      fun hsuper role heq => hglobal ⟨hsuper, role, heq⟩
    have hcall : call.Authors := hchecked.imp id (fun hadd => hadd.2)
    refine ((path_of_request hactor h).invariant (I := fun s => s.toTables.Catalogued ∧
      s.tenants = db.tenants ∧ RolesGain (InCeiling db.toTables) db s) ?_
      ⟨hcat, rfl, .refl _ _⟩).2.2
    rintro s s' fs hstep ⟨hcat, htenants, hgain⟩
    have hkept := tenants_of_performed hcall hstep
    have hadds := gain_of_performed hcat hnot hstep
    obtain ⟨c, _, hcur, _, hcommit⟩ := hstep
    refine ⟨Change.catalogued hcur hcommit hcat, hkept.trans htenants, hgain.trans ?_⟩
    intro r' hr' tenantId htenant i hbit
    rcases hadds r' hr' tenantId htenant i hbit with
      hhad | ⟨_, hgrants⟩ | ⟨tenant, hrow, hceiling⟩ | ⟨hsuper, roleId, hadd⟩
    · exact Or.inl hhad
    · rcases hcall with ⟨role, rfl⟩ | ⟨roleId, permissionId, rfl⟩
      · exact absurd (.createRole role) hgrants
      · exact absurd (.addPermissionToRole roleId permissionId) hgrants
    · rw [htenants] at hrow
      exact Or.inr ⟨tenant, hrow, hceiling⟩
    · rcases hchecked with ⟨role, rfl⟩ | ⟨hfalse, _⟩
      · cases hadd
      · rw [hfalse] at hsuper
        cases hsuper

end Request

/-! ### A superuser within the ceiling -/

/-- Every bit that a superuser adds to a role of a tenant is in the ceiling of the
tenant, but for what the role has. -/
def Call.WithinCeiling (t : Tables) (actorId : Uuid) : Call → Prop
  | addPermissionToRole roleId permissionId =>
    ∀ actor role tenant permission name i, t.users.get actorId = some actor →
      actor.isSuperuser = true → t.roles.get roleId = some role →
      role.tenantId = some tenant.id → t.tenants.get tenant.id = some tenant →
      t.permissions.get permissionId = some permission →
      name ∈ expandImplied [permission.name] → permissionRegistry.lookup name = some i →
      tenant.allowedPermissionMask.testBit i = true ∨ role.permissionMask.testBit i = true
  | _ => True

/-- One addition to a role that the tenant `owner` had: of a permission that
`permission` implies. -/
structure AddsImplied (roleId : RoleId) (owner : Option Uuid) (permission : Permission)
    (role : LoadedRole) (implied : Permission) (s s' : Db) (es : List Event) : Prop where
  id : role.id = roleId
  tenantId : role.tenantId = owner
  name : implied.name ∈ expandImplied [permission.name]
  current : (Change.addPermission role implied).Current s.toTables
  commits : (Change.addPermission role implied).Commits s s' es

/-- The additions of `add_permission_to_role` that starts in `db`. -/
def AddsTo (db : Db) (roleId : RoleId) (permissionId : PermissionId) (s s' : Db)
    (es : List Event) : Prop :=
  ∃ row permission role implied, db.roles.get roleId = some row ∧
    db.permissions.get permissionId = some permission ∧
    AddsImplied roleId row.tenantId permission role implied s s' es

theorem does_addPermission_implied {db s : Db} {permissionId : PermissionId}
    {role role' : LoadedRole} {permission implied : Permission}
    (hrole : RoleRepository.getById db.toTables role.id = some role)
    (hpermission : db.permissions.get permissionId = some permission)
    (hadding : AddingTo db role role' s) (hmem : implied ∈ db.permissions.rows)
    (himplied : implied.name ∈ expandImplied [permission.name]) :
    Does (AddsTo db role.id permissionId) (RoleRepository.addPermission role' implied) s
      (AddingTo db role) := by
  obtain ⟨hrow, _, _⟩ := RoleRepository.getById_eq_some hrole
  obtain ⟨hget, htenant, hpermissions, _⟩ := id hadding
  have hid : role'.id = role.id := RoleRepository.getById_id hget
  have hcurrent : (Change.addPermission role' implied).Current s.toTables := by
    refine ⟨by rw [hid]; exact hget, ?_⟩
    rw [hpermissions]
    exact Table.get_of_mem hmem
  refine does_transaction ?_
  intro role'' s' es hcommit
  exact ⟨⟨role.toRole, permission, role', implied, hrow, hpermission, hid, htenant, himplied,
    hcurrent, ⟨role'', hcommit⟩⟩, addingTo_of_addPermission hadding hcommit⟩

/-- All that the loop of `add_permission_to_role` adds is implied by the permission. -/
theorem does_addPermissionToRole_implied {roleId : RoleId} {permissionId : PermissionId}
    {actor : LoadedUser} {db : Db} (hactor : db.toTables.Loaded actor) :
    Does (AddsTo db roleId permissionId)
      (RoleService.addPermissionToRole roleId permissionId actor) db (fun _ _ => True) := by
  refine does_getRole ?_
  intro role hrole _
  obtain rfl := RoleRepository.getById_id hrole
  refine does_query (Does.require_bind ?_)
  intro permission hpermission
  refine Does.ensure_bind ?_
  intro _
  refine does_check (P := True) ?_ ?_
  · refine does_grantableMaskFor hactor ?_
    intro _ _
    refine Does.ofExcept_bind ?_
    intro _ _
    exact Does.ensure (fun _ => ⟨rfl, trivial⟩)
  intro _
  refine does_query ?_
  refine Does.bind (does_addPermission_implied hrole hpermission ⟨hrole, rfl, rfl, rfl⟩
    (Table.mem_of_get hpermission) (mem_expandImplied.mpr (.of_mem (by simp)))) ?_
  intro added s hadding
  refine Does.weaken (Does.foldlM (I := AddingTo db role) hadding ?_) (fun _ _ _ => trivial)
  intro role' s' implied himplied hadding
  obtain ⟨hmem, hname⟩ : implied ∈ db.permissions.rows ∧
      implied.name ∈ RoleService.impliedNames role permission := by
    simpa [PermissionRepository.getByNames] using himplied
  exact does_addPermission_implied hrole hpermission hadding hmem (List.mem_filter.mp hname).1

section Within

variable {getPasswordHash : String → Except Err String} {actorId : Uuid} {call : Call}
  {db db' : Db} {r : Except Err Unit} {es : List Event}

/-- A superuser's addition to a role, while it is within the ceiling. -/
theorem superuser_keeps {actor : User} {roleId : RoleId} {permissionId : PermissionId}
    (hcat : db.toTables.Catalogued) (hactor : db.users.get actorId = some actor)
    (hsuper : actor.isSuperuser = true)
    (hwithin : (Call.addPermissionToRole roleId permissionId).WithinCeiling db.toTables actorId)
    (h : request getPasswordHash actorId (.addPermissionToRole roleId permissionId) db =
      (r, db', es)) : RolesGain (InCeiling db.toTables) db db' := by
  have hdoes : Does (AddsTo db roleId permissionId)
      (request getPasswordHash actorId (.addPermissionToRole roleId permissionId)) db
      (fun _ _ => True) :=
    does_request_of hactor (fun hloaded => does_discard (does_addPermissionToRole_implied hloaded))
  have hpath := hdoes.1
  rw [h] at hpath
  refine (hpath.invariant (I := fun s => s.toTables.Catalogued ∧
    RolesGain (InCeiling db.toTables) db s) ?_ ⟨hcat, .refl _ _⟩).2
  rintro s s' fs ⟨row, permission, role, implied, hrow, hpermission, hadds⟩ ⟨hcat, hgain⟩
  refine ⟨Change.catalogued hadds.current hadds.commits hcat, ?_⟩
  intro r' hr' tenantId htenant i hbit
  rcases Change.bit_origin hadds.current hadds.commits hr' htenant hbit with
    ⟨r, hr, hid, hsame, hbefore⟩ | horigin
  · rw [← hid]
    exact hgain r hr tenantId hsame i hbefore
  · cases horigin with
    | added _ _ hid howner hnew =>
      have hsame : row.tenantId = some tenantId := hadds.tenantId.symm.trans howner
      obtain ⟨tenant, htenantRow⟩ : ∃ tenant, db.tenants.get tenantId = some tenant := by
        have hexists := db.constraints.roleTenant row (Table.mem_of_get hrow)
        rw [hsame] at hexists
        exact Option.isSome_iff_exists.mp hexists
      obtain rfl := Table.key_of_get htenantRow
      have hlookup := (hcat.bit_iff (Table.mem_of_get hadds.current.2)).mp hnew
      rcases hwithin actor row tenant permission implied.name i hactor hsuper hrow hsame htenantRow
        hpermission hadds.name hlookup with hceiling | hhad
      · exact Or.inr ⟨tenant, htenantRow, hceiling⟩
      · have hrole : row.id = r'.id := (Table.key_of_get hrow).trans (hadds.id.symm.trans hid)
        exact Or.inl ⟨row, Table.mem_of_get hrow, hrole, hsame, hhad⟩

/-- A superuser's addition that goes through sets the bit of every implied name. -/
theorem superuser_sets {actor : User} {row : Role} {permission : Permission} {roleId : RoleId}
    {permissionId : PermissionId} {name : String} {i : ℕ} (hcat : db.toTables.Catalogued)
    (hagree : db.toTables.MasksAgree) (hactor : db.users.get actorId = some actor)
    (hsuper : actor.isSuperuser = true) (hrow : db.roles.get roleId = some row)
    (hpermission : db.permissions.get permissionId = some permission)
    (hname : name ∈ expandImplied [permission.name])
    (hlookup : permissionRegistry.lookup name = some i)
    (h : request getPasswordHash actorId (.addPermissionToRole roleId permissionId) db =
      (.ok (), db', es)) :
    ∃ r' ∈ db'.roles.rows, r'.id = row.id ∧ r'.tenantId = row.tenantId ∧
      r'.permissionMask.testBit i = true := by
  obtain rfl := Table.key_of_get hrow
  obtain rfl := Table.key_of_get hpermission
  have hhas : Authoring.RoleHas db.toTables row (fun p => (row.id, p.id) ∈ db.rolePermissions) :=
    ⟨hrow, fun _ _ => Iff.rfl, hagree row (Table.mem_of_get hrow)⟩
  have hscope : Authoring.InScope row (db.toTables.loadUser actor) := Or.inl hsuper
  have hp := Table.mem_of_get hpermission
  have hnew : (row.id, permission.id) ∉ db.rolePermissions := by
    intro hgranted
    have hrefused := Authoring.addPermissionToRole_granted hhas hscope hp hgranted
    have hfails : request getPasswordHash actorId (.addPermissionToRole row.id permission.id) db =
        (.error (.permissionAlreadyGranted "Permission already assigned to role"), db, []) :=
      (request_run hactor _).trans (Action.bind_apply_error hrefused)
    rw [h] at hfails
    cases hfails
  obtain ⟨_, db₁, row₁, fs, hadds, hgrown⟩ | ⟨hnot, _⟩ :=
    Authoring.addPermissionToRole_new hcat hhas hscope hp hnew rfl (fun _ _ _ => Or.inl hsuper)
  · obtain ⟨q, hq, rfl, hbit⟩ := hcat.row hlookup
    have hruns : request getPasswordHash actorId (.addPermissionToRole row.id permission.id) db =
        (.ok (), db₁, fs ++ []) :=
      (request_run hactor _).trans (Action.bind_apply_of_ok hadds rfl)
    rw [h] at hruns
    obtain rfl : db' = db₁ := congrArg (fun x => x.2.1) hruns
    have himplied := mem_expandImplied.mp hname
    refine ⟨row₁, Table.mem_of_get hgrown.has.get, hgrown.id, hgrown.tenantId,
      (hgrown.has.mask i).mpr ⟨q, ?_, Or.inr himplied, hbit⟩⟩
    rw [hgrown.grants.permissions]
    exact hq
  · exact absurd (fun _ _ _ => Or.inl hsuper) hnot

theorem authoring_keeps (hcat : db.toTables.Catalogued) (hcall : call.Authors)
    (hwithin : call.WithinCeiling db.toTables actorId)
    (h : request getPasswordHash actorId call db = (r, db', es)) :
    RolesGain (InCeiling db.toTables) db db' := by
  rcases request_path h with ⟨_, _, rfl, _⟩ | ⟨actor, hactor, _⟩
  · exact .refl _ _
  · by_cases hchecked : Checked actor call
    · exact checked_gain hcat hactor hchecked h
    · rcases hcall with hrole | ⟨roleId, permissionId, rfl⟩
      · exact absurd (Or.inl hrole) hchecked
      · have hsuper : actor.isSuperuser = true := by
          by_contra hfalse
          exact hchecked (Or.inr ⟨Bool.eq_false_of_not_eq_true hfalse, _, _, rfl⟩)
        exact superuser_keeps hcat hactor hsuper hwithin h

/-- A call that goes through stays in the ceilings exactly under the condition. -/
theorem authoring_gain_iff (hcat : db.toTables.Catalogued) (hagree : db.toTables.MasksAgree)
    (hcall : call.Authors)
    (h : request getPasswordHash actorId call db = (.ok (), db', es)) :
    RolesGain (InCeiling db'.toTables) db db' ↔ call.WithinCeiling db.toTables actorId := by
  have hceilings : InCeiling db'.toTables = InCeiling db.toTables := by
    funext tenantId roleId i
    rw [InCeiling, InCeiling, tenants_of_authoring hcall h]
  rw [hceilings]
  constructor
  · intro hgain
    rcases hcall with ⟨role, rfl⟩ | ⟨roleId, permissionId, rfl⟩
    · exact trivial
    · intro actor row tenant permission name i hactor hsuper hrow howner htenant hpermission
        hname hlookup
      obtain ⟨r', hr', hid, hsame, hbit⟩ := superuser_sets hcat hagree hactor hsuper hrow
        hpermission hname hlookup h
      rcases hgain r' hr' tenant.id (hsame.trans howner) i hbit with
        ⟨r, hr, hrid, _, hbefore⟩ | ⟨tenant', htenant', hceiling⟩
      · obtain rfl := Table.eq_of_get hr (hrid.trans (hid.trans (Table.key_of_get hrow))) hrow
        exact Or.inr hbefore
      · obtain rfl := Option.some.inj (htenant'.symm.trans htenant)
        exact Or.inl hceiling
  · exact fun hwithin => authoring_keeps hcat hcall hwithin h

end Within

/-! ### Runs -/

/-- The bits that a superuser's call has added to a role of a tenant. -/
def superuserAdds (db : Db) (actorId : Uuid) (call : Call) (db' : Db) : Set (RoleId × ℕ) :=
  {x | SuperuserAdding db actorId call x.1 ∧
    (∃ tenantId, HadBit db'.toTables tenantId x.1 x.2) ∧
    ∀ tenantId, ¬ HadBit db.toTables tenantId x.1 x.2}

/-- The runs of `Reachable`, with the bits that superusers have added to roles
by `add_permission_to_role`. -/
inductive CeilingRun : Set (RoleId × ℕ) → Db → Prop
  | synced : CeilingRun ∅ synced
  | request {added : Set (RoleId × ℕ)} {db : Db} (getPasswordHash : String → Except Err String)
      (actorId : Uuid) (call : Call) : CeilingRun added db →
      CeilingRun (added ∪
        superuserAdds db actorId call (request getPasswordHash actorId call db).2.1)
        (request getPasswordHash actorId call db).2.1
  | outside {added : Set (RoleId × ℕ)} {db db' : Db} {es : List Event} (c : Change) : c.Outside →
      c.Current db.toTables → c.Commits db db' es → CeilingRun added db → CeilingRun added db'

theorem CeilingRun.reachable {added : Set (RoleId × ℕ)} {db : Db} (h : CeilingRun added db) :
    Reachable db := by
  induction h with
  | synced => exact .synced
  | request getPasswordHash actorId call _ ih => exact .request _ _ _ ih
  | outside c houtside hcur hcommit _ ih => exact .outside c houtside hcur hcommit ih

theorem Reachable.ceilingRun {db : Db} (h : Reachable db) : ∃ added, CeilingRun added db := by
  induction h with
  | synced => exact ⟨∅, .synced⟩
  | request getPasswordHash actorId call _ ih =>
    obtain ⟨added, h⟩ := ih
    exact ⟨_, .request getPasswordHash actorId call h⟩
  | outside c houtside hcur hcommit _ ih =>
    obtain ⟨added, h⟩ := ih
    exact ⟨added, .outside c houtside hcur hcommit h⟩

theorem Reachable.tenantsWithin {db : Db} (h : Reachable db) : TenantsWithin db.toTables :=
  h.invariant (I := fun db => TenantsWithin db.toTables)
    (by
      have hnone : FastapiTemplate.synced.tenants.rows = [] := by decide +kernel
      intro x hx
      rw [hnone] at hx
      exact absurd hx List.not_mem_nil)
    (fun _ _ _ _ => Change.tenantsWithin)

/-- What is outside the tenant permissions was added by a superuser. -/
def MasksBounded (added : Set (RoleId × ℕ)) (db : Db) : Prop :=
  ∀ r ∈ db.roles.rows, r.tenantId ≠ none → ∀ i, r.permissionMask.testBit i = true →
    tenantRoleMask.testBit i = true ∨ (r.id, i) ∈ added

theorem CeilingRun.masksBounded {added : Set (RoleId × ℕ)} {db : Db} (h : CeilingRun added db) :
    MasksBounded added db := by
  induction h with
  | synced =>
    have hnone : FastapiTemplate.synced.roles.rows = [] := by decide +kernel
    intro r hr
    rw [hnone] at hr
    exact absurd hr List.not_mem_nil
  | @request added db getPasswordHash actorId call hrun ih =>
    rcases hreq : FastapiTemplate.request getPasswordHash actorId call db with ⟨r, db', es⟩
    have hreach := hrun.reachable
    have hgain := request_gain hreach.catalogued hreach.tenantsWithin hreq
    intro r' hr' hne i hbit
    obtain ⟨tenantId, htenant⟩ := Option.ne_none_iff_exists'.mp hne
    by_cases hhad : ∃ owner, HadBit db.toTables owner r'.id i
    · obtain ⟨owner, r, hr, hid, hsame, hbefore⟩ := hhad
      have hearlier := ih r hr (by rw [hsame]; exact Option.some_ne_none owner) i hbefore
      rw [← hid]
      exact hearlier.imp id Or.inl
    · rcases hgain r' hr' tenantId htenant i hbit with hold | hroot | hsuper
      · exact absurd ⟨tenantId, hold⟩ hhad
      · exact Or.inl hroot
      · exact Or.inr (Or.inr ⟨hsuper, ⟨tenantId, r', hr', rfl, htenant, hbit⟩,
          fun owner hold => hhad ⟨owner, hold⟩⟩)
  | outside c houtside hcur hcommit _ ih =>
    intro r' hr' hne i hbit
    obtain ⟨tenantId, htenant⟩ := Option.ne_none_iff_exists'.mp hne
    rcases Change.bit_origin hcur hcommit hr' htenant hbit with
      ⟨r, hr, hid, hsame, hbefore⟩ | horigin
    · rw [← hid]
      exact ih r hr (by rw [hsame]; exact Option.some_ne_none tenantId) i hbefore
    · cases horigin <;> exact absurd houtside id

/-- Whoever the actors are, the ceilings are tenant permissions, a role of a
tenant exceeds them only by what superusers have added to it, and what a
checked operation adds is in the ceiling of the role's tenant. -/
theorem ceilings_hold {added : Set (RoleId × ℕ)} {db : Db} (h : CeilingRun added db) :
    TenantsWithin db.toTables ∧ MasksBounded added db ∧
      ∀ (getPasswordHash : String → Except Err String) (actorId : Uuid) (call : Call)
        (actor : User) (db' : Db) (es : List Event), db.users.get actorId = some actor →
        Checked actor call → request getPasswordHash actorId call db = (.ok (), db', es) →
        RolesGain (fun tenantId _ i => ∃ tenant, db'.tenants.get tenantId = some tenant ∧
          tenant.allowedPermissionMask.testBit i = true) db db' := by
  have hreach := h.reachable
  refine ⟨hreach.tenantsWithin, h.masksBounded, ?_⟩
  intro getPasswordHash actorId call actor db' es hactor hchecked hrun
  have hcall : call.Authors := hchecked.imp id (fun hadd => hadd.2)
  rw [tenants_of_authoring hcall hrun]
  exact checked_gain hreach.catalogued hactor hchecked hrun

/-- The runs in which no superuser adds a bit outside the ceiling of the role's
tenant. -/
inductive WithinRun : Db → Prop
  | synced : WithinRun synced
  | request {db : Db} (getPasswordHash : String → Except Err String) (actorId : Uuid)
      (call : Call) : WithinRun db → call.WithinCeiling db.toTables actorId →
      WithinRun (request getPasswordHash actorId call db).2.1
  | outside {db db' : Db} {es : List Event} (c : Change) : c.Outside → c.Current db.toTables →
      c.Commits db db' es → WithinRun db → WithinRun db'

/-- What superusers add in such a run are tenant permissions. -/
theorem WithinRun.ceilingRun {db : Db} (h : WithinRun db) :
    ∃ added, CeilingRun added db ∧ ∀ x ∈ added, tenantRoleMask.testBit x.2 = true := by
  induction h with
  | synced => exact ⟨∅, .synced, fun _ hx => absurd hx (Set.notMem_empty _)⟩
  | outside c houtside hcur hcommit _ ih =>
    obtain ⟨added, hrun, hadded⟩ := ih
    exact ⟨added, .outside c houtside hcur hcommit hrun, hadded⟩
  | @request db getPasswordHash actorId call _ hwithin ih =>
    obtain ⟨added, hrun, hadded⟩ := ih
    have hnext := hrun.request getPasswordHash actorId call
    rcases hreq : FastapiTemplate.request getPasswordHash actorId call db with ⟨r, db', es⟩
    rw [hreq] at hnext
    refine ⟨_, hnext, ?_⟩
    rintro x (hold | ⟨⟨_, permissionId, rfl⟩, ⟨tenantId, r', hr', hid, htenant, hbit⟩, hnew⟩)
    · exact hadded x hold
    · have hgain := authoring_keeps hrun.reachable.catalogued (Or.inr ⟨_, _, rfl⟩) hwithin hreq
      rcases hgain r' hr' tenantId htenant x.2 hbit with hhad | ⟨tenant, hrow, hceiling⟩
      · rw [hid] at hhad
        exact absurd hhad (hnew tenantId)
      · exact hrun.reachable.tenantsWithin tenant (Table.mem_of_get hrow) x.2 hceiling

/-- While no superuser adds a bit outside the ceiling of the role's tenant, the
ceilings and the roles of tenants are within the tenant permissions. A call that
goes through keeps to the ceilings exactly when it is no such addition. -/
theorem ceilings_hold_iff {db : Db} (h : WithinRun db) :
    TenantsWithin db.toTables ∧
      (∀ r ∈ db.roles.rows, r.tenantId ≠ none → Within r.permissionMask tenantRoleMask) ∧
      ∀ (getPasswordHash : String → Except Err String) (actorId : Uuid) (call : Call) (db' : Db)
        (es : List Event), call.Authors →
        request getPasswordHash actorId call db = (.ok (), db', es) →
        (RolesGain (InCeiling db'.toTables) db db' ↔ call.WithinCeiling db.toTables actorId) := by
  obtain ⟨added, hrun, hadded⟩ := h.ceilingRun
  obtain ⟨htenants, hmasks, _⟩ := ceilings_hold hrun
  refine ⟨htenants, ?_, ?_⟩
  · intro r hr hne i hbit
    exact (hmasks r hr hne i hbit).elim id (hadded (r.id, i))
  · intro getPasswordHash actorId call db' es hcall hok
    exact authoring_gain_iff hrun.reachable.catalogued hrun.reachable.masksAgree hcall hok

theorem acmeViewer_withinRun : WithinRun acmeViewer := by
  have hseeded : WithinRun seeded := by
    unfold seeded UserRepository.create
    rcases (Change.createUser root).commits_transaction rfl FastapiTemplate.synced with
      hsame | ⟨es, hcommits⟩
    · rw [hsame]
      exact .synced
    · exact .outside (.createUser root) rfl trivial hcommits .synced
  have hacme : WithinRun acme := .request _ _ _ hseeded trivial
  exact .request _ _ _ hacme trivial

/-- The superuser adds role:create, which acme may have, to the role `viewer`. -/
def acmeAuthor : Db := (request .ok 1 (.addPermissionToRole 2 1) acmeViewer).2.1

theorem acmeAuthor_withinCeiling :
    (Call.addPermissionToRole 2 1).WithinCeiling acmeViewer.toTables 1 := by
  have hfacts : ((acmeViewer.roles.get 2).all (fun r => r.tenantId = some 10) = true ∧
      (acmeViewer.tenants.get 10).all (fun t => t.allowedPermissionMask = 7) = true ∧
      (acmeViewer.permissions.get 1).all (fun p => p.name = "role:create") = true) ∧
      ∀ name ∈ expandImplied ["role:create"],
        (permissionRegistry.lookup name).all (Nat.testBit 7) = true := by
    decide +kernel
  obtain ⟨⟨hroles, htenants, hpermissions⟩, hbits⟩ := hfacts
  intro actor role tenant permission name i _ _ hrole howner htenant hpermission hname hlookup
  rw [hrole, Option.all_some, decide_eq_true_eq, howner, Option.some.injEq] at hroles
  rw [hroles] at htenant
  rw [htenant, Option.all_some, decide_eq_true_eq] at htenants
  rw [hpermission, Option.all_some, decide_eq_true_eq] at hpermissions
  rw [hpermissions] at hname
  have hbit := hbits name hname
  rw [hlookup, Option.all_some] at hbit
  rw [htenants]
  exact Or.inl hbit

theorem acmeAuthor_withinRun : WithinRun acmeAuthor :=
  .request .ok 1 (.addPermissionToRole 2 1) acmeViewer_withinRun acmeAuthor_withinCeiling

theorem ceilings_hold_iff_author :
    TenantsWithin acmeAuthor.toTables ∧
      (∀ r ∈ acmeAuthor.roles.rows, r.tenantId ≠ none → Within r.permissionMask tenantRoleMask) ∧
      RolesGain (InCeiling acmeAuthor.toTables) acmeViewer acmeAuthor := by
  have hok : (request .ok 1 (.addPermissionToRole 2 1) acmeViewer).1 = .ok () := by
    decide +kernel
  obtain ⟨_, _, hgain⟩ := ceilings_hold_iff acmeViewer_withinRun
  obtain ⟨htenants, hmasks, _⟩ := ceilings_hold_iff acmeAuthor_withinRun
  have hiff := hgain .ok 1 (.addPermissionToRole 2 1) acmeAuthor _ (Or.inr ⟨2, 1, rfl⟩) (ran_ok hok)
  exact ⟨htenants, hmasks, hiff.mpr acmeAuthor_withinCeiling⟩

/-! A superuser adds tenant:create, which no tenant may have, to the role
`viewer` of the tenant acme. -/

def overreached : Db := (request .ok 1 (.addPermissionToRole 2 14) acmeViewer).2.1

theorem superuser_exceeds_ceiling :
    Reachable acmeViewer ∧ (request .ok 1 (.addPermissionToRole 2 14) acmeViewer).1 = .ok () ∧
      Reachable overreached ∧ ¬ tenantRoleMask.testBit 13 = true ∧
      (∃ r ∈ overreached.roles.rows, r.tenantId = some 10 ∧
        r.permissionMask.testBit 13 = true) ∧
      ∀ r ∈ acmeViewer.roles.rows, r.permissionMask.testBit 13 = false := by
  have hviewer : Reachable acmeViewer := .request _ _ _ acme_reachable
  have hfacts : (request .ok 1 (.addPermissionToRole 2 14) acmeViewer).1 = .ok () ∧
      ¬ tenantRoleMask.testBit 13 = true ∧
      (∃ r ∈ overreached.roles.rows, r.tenantId = some 10 ∧
        r.permissionMask.testBit 13 = true) ∧
      ∀ r ∈ acmeViewer.roles.rows, r.permissionMask.testBit 13 = false := by
    decide +kernel
  obtain ⟨hok, htenant, hadded, hbefore⟩ := hfacts
  exact ⟨hviewer, hok, .request _ _ _ hviewer, htenant, hadded, hbefore⟩

end FastapiTemplate
