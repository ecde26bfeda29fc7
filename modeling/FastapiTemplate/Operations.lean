import FastapiTemplate.Authority

/-!
The operations, one lemma each. Run by an actor loaded from the current tables,
an operation commits only changes that it may perform, with current arguments,
and authorized ones unless the actor is a superuser. The results about runs of
operations use only these lemmas and the ones about changes.
-/
namespace FastapiTemplate

open Library.KeyedTable Library.Committing Library.BitMask RoleService

variable {db : Db} {actor : LoadedUser}

/-! ### `RoleService` -/

theorem does_updateRole {roleId : RoleId} {data : RoleUpdate} :
    Does (Performed actor.toUser (.updateRole roleId data))
      (RoleService.updateRole roleId data actor) db (fun _ _ => True) := by
  refine does_getRole ?_
  intro role hrole hscope
  obtain rfl := RoleRepository.getById_id hrole
  exact does_last (.updateRole role data) rfl rfl hrole hscope

/-- A normal return has deleted the role. -/
theorem does_deleteRole {roleId : RoleId} :
    Does (Performed actor.toUser (.deleteRole roleId)) (RoleService.deleteRole roleId actor) db
      (fun _ db' => ∃ role, RoleRepository.getById db.toTables roleId = some role ∧
        ∃ es, RoleRepository.deleteTx role db.toTables = .ok ((), db'.toTables, es)) := by
  refine does_getRole ?_
  intro role hrole hscope
  obtain rfl := RoleRepository.getById_id hrole
  exact does_change (.deleteRole role) rfl rfl hrole hscope
    (fun _ _ es hcommit => ⟨role, hrole, es, hcommit⟩)

theorem does_removePermissionFromRole {roleId : RoleId} {permissionId : PermissionId} :
    Does (Performed actor.toUser (.removePermissionFromRole roleId permissionId))
      (RoleService.removePermissionFromRole roleId permissionId actor) db (fun _ _ => True) := by
  refine does_getRole ?_
  intro role hrole hscope
  obtain rfl := RoleRepository.getById_id hrole
  refine does_query (Does.require_bind ?_)
  intro perm hperm
  refine Does.ensure_bind ?_
  intro _
  have hid : perm.id = permissionId := Table.key_of_get hperm
  exact does_last (.removePermission role perm) rfl ⟨rfl, hid⟩ ⟨hrole, by rw [hid]; exact hperm⟩
    hscope

/-- The only commit is made on the state of the checks. -/
theorem does_addGrantableRole_at {roleId grantableRoleId : RoleId}
    (hactor : db.toTables.Loaded actor) :
    Does (fun s s' es =>
        Performed actor.toUser (.addGrantableRole roleId grantableRoleId) s s' es ∧ s = db ∧
          ∀ role, db.roles.get roleId = some role → actor.isSuperuser = false →
            InScope actor.tenantId role)
      (RoleService.addGrantableRole roleId grantableRoleId actor) db (fun _ _ => True) := by
  refine does_getRole ?_
  intro role hrole hscope
  obtain ⟨hrow, _, rfl⟩ := RoleRepository.getById_eq_some hrole
  refine does_query (Does.require_bind ?_)
  intro _ _
  refine does_check (does_query (Does.ensure (fun hallowed => ⟨rfl, hallowed⟩))) ?_
  intro hallowed
  refine does_query (Does.ensure_bind ?_)
  intro _
  refine does_change_and (.addGrantableRole role.id grantableRoleId) rfl ⟨rfl, rfl⟩ trivial
    (fun hsuper => Or.inl (hactor.delegatesRole (hallowed hsuper))) ?_
  intro _ _ _ _
  refine ⟨⟨rfl, ?_⟩, trivial⟩
  intro row hget hsuper
  obtain rfl := Option.some.inj (hrow.symm.trans hget)
  exact hscope hsuper

theorem does_addGrantableRole {roleId grantableRoleId : RoleId}
    (hactor : db.toTables.Loaded actor) :
    Does (Performed actor.toUser (.addGrantableRole roleId grantableRoleId))
      (RoleService.addGrantableRole roleId grantableRoleId actor) db (fun _ _ => True) :=
  (does_addGrantableRole_at hactor).mono (fun _ _ _ h => h.1)

theorem does_removeGrantableRole {roleId grantableRoleId : RoleId} :
    Does (Performed actor.toUser (.removeGrantableRole roleId grantableRoleId))
      (RoleService.removeGrantableRole roleId grantableRoleId actor) db (fun _ _ => True) := by
  refine does_getRole ?_
  intro _ _ _
  refine does_query (Does.require_bind ?_)
  intro _ _
  refine does_query (Does.ensure_bind ?_)
  intro _
  exact does_last (.removeGrantableRole roleId grantableRoleId) rfl ⟨rfl, rfl⟩ trivial
    (fun _ => trivial)

theorem does_addGrantablePermission {roleId : RoleId} {permissionId : PermissionId}
    (hactor : db.toTables.Loaded actor) :
    Does (Performed actor.toUser (.addGrantablePermission roleId permissionId))
      (RoleService.addGrantablePermission roleId permissionId actor) db (fun _ _ => True) := by
  refine does_getRole ?_
  intro _ _ _
  refine does_query (Does.require_bind ?_)
  intro _ _
  refine does_check (does_query (Does.ensure (fun hallowed => ⟨rfl, hallowed⟩))) ?_
  intro hallowed
  refine does_query (Does.ensure_bind ?_)
  intro _
  exact does_last (.addGrantablePermission roleId permissionId) rfl ⟨rfl, rfl⟩ trivial
    (fun hsuper => hactor.delegatesPermission (hallowed hsuper))

theorem does_removeGrantablePermission {roleId : RoleId} {permissionId : PermissionId} :
    Does (Performed actor.toUser (.removeGrantablePermission roleId permissionId))
      (RoleService.removeGrantablePermission roleId permissionId actor) db (fun _ _ => True) := by
  refine does_getRole ?_
  intro _ _ _
  refine does_query (Does.require_bind ?_)
  intro _ _
  refine does_query (Does.ensure_bind ?_)
  intro _
  exact does_last (.removeGrantablePermission roleId permissionId) rfl ⟨rfl, rfl⟩ trivial
    (fun _ => trivial)

/-- What a transaction of a role's creation leaves alone; its links are of the
roles of the actor. -/
def LinksHeld (actor : LoadedUser) (s s' : Db) : Prop :=
  s'.users = s.users ∧ s'.userRoles = s.userRoles ∧
    ∀ x ∈ s'.roleGrantableRoles, x ∈ s.roleGrantableRoles ∨ x.1 ∈ actor.roleIds

/-- The new row is still there when the actor's roles are linked to it. -/
theorem does_createRole_linking {role : RoleCreate} (hactor : db.toTables.Loaded actor) :
    Does (fun s s' es => Performed actor.toUser (.createRole role) s s' es ∧
        LinksHeld actor s s')
      (RoleService.createRole role actor) db (fun _ _ => True) := by
  unfold RoleService.createRole
  refine does_query (Does.ensure_bind ?_)
  intro _
  refine Does.ofExcept_bind ?_
  intro requested hrequested
  have hcheck : Does (fun s s' es => Performed actor.toUser (.createRole role) s s' es ∧
      LinksHeld actor s s') (do
      let allowedMask ← grantableMaskFor actor
      Action.ensure (andNot requested allowedMask = 0)
        (.grantNotAllowed "Requested permissions exceed what you are allowed to grant")) db
      (fun _ db' => db' = db ∧ db.toTables.UnderCeiling actor.tenantId requested) := by
    refine does_grantableMaskFor hactor ?_
    intro mask hceiling
    refine Does.ensure ?_
    intro hwithin
    exact ⟨rfl, hceiling.mono ((andNot_eq_zero_iff _ _).mp hwithin)⟩
  refine does_check hcheck ?_
  intro hceiling
  refine does_query ?_
  refine Does.bind
    (Q := fun newRole db' => ∃ row, db'.roles.get newRole.id = some row ∧
      (actor.isSuperuser = false → row.tenantId = actor.tenantId)) ?_ ?_
  · refine does_change_and (.createRole role.name _ _ requested) rfl rfl
      ⟨_, hrequested, rfl⟩ ?_ ?_
    · intro hsuper
      exact ⟨by simp [hsuper], hceiling hsuper⟩
    · intro newRole db' es hcommit
      obtain ⟨roles, hinsert, ht, rfl, _⟩ := RoleRepository.createTx_eq_ok hcommit
      have hrow : db'.roles.get db.rolesIdSeq = some (RoleRepository.newRole db.toTables role.name
          (if actor.isSuperuser then none else actor.tenantId) requested) := by
        rw [ht]
        exact (Table.get_insert? hinsert _).trans (if_pos rfl)
      refine ⟨?_, _, hrow, fun hsuper => by simp [RoleRepository.newRole, hsuper]⟩
      rw [LinksHeld, ht]
      exact ⟨rfl, rfl, fun _ hlink => Or.inl hlink⟩
  · rintro newRole db' ⟨row, hrow, htenant⟩
    refine Does.bind (Q := fun _ _ => True) ?_ (fun _ _ _ => Does.pure trivial)
    unfold unlessSuperuser
    refine Does.ite (fun _ => Does.pure trivial) ?_
    intro hsuper
    have hsuper : actor.isSuperuser = false := by simpa using hsuper
    refine Does.weaken (Does.forM (I := fun s => s.roles.get newRole.id = some row) hrow ?_)
      (fun _ _ _ => trivial)
    intro s actorRole hactorRole hrow
    refine does_query (Does.ite (fun _ => Does.pure hrow) ?_)
    intro _
    refine does_change_and (.addGrantableRole actorRole.id newRole.id) rfl trivial trivial
      (fun _ => Or.inr ⟨row, hrow, htenant hsuper⟩) ?_
    intro _ s' es hcommit
    obtain ⟨ht, _⟩ := RoleRepository.addGrantableRoleTx_eq_ok hcommit
    rw [LinksHeld, ht]
    refine ⟨⟨rfl, rfl, ?_⟩, hrow⟩
    intro x hlink
    rcases Finset.mem_insert.mp hlink with rfl | hold
    · exact Or.inr (List.mem_map_of_mem hactorRole)
    · exact Or.inl hold

theorem does_createRole {role : RoleCreate} (hactor : db.toTables.Loaded actor) :
    Does (Performed actor.toUser (.createRole role)) (RoleService.createRole role actor) db
      (fun _ _ => True) :=
  (does_createRole_linking hactor).mono (fun _ _ _ h => h.1)

/-- The bit of a name in a checked mask is in the catalogue and under the ceiling. -/
theorem underCeiling_of_maskFor {t : Tables} {tenantId : Option Uuid} {names : List String}
    {mask allowed : ℕ} {name : String} (hmask : maskFor names = .ok mask)
    (hwithin : Within mask allowed) (hallowed : t.UnderCeiling tenantId allowed)
    (hname : name ∈ names) :
    ∃ b, permissionRegistry.lookup name = some b ∧ t.UnderCeiling tenantId (bit b) := by
  obtain ⟨b, hb⟩ := Registry.known_of_maskFor hmask name hname
  have hbit : mask.testBit b = true := (Registry.testBit_maskFor hmask b).mpr ⟨name, hname, hb⟩
  exact ⟨b, hb, hallowed.mono (((within_bit_iff b mask).mpr hbit).trans hwithin)⟩

/-- What the loop over the implied permissions keeps: the refreshed role is the
row, in its tenant, and the catalogue and the ceilings have not moved. -/
def AddingTo (db : Db) (role role' : LoadedRole) (s : Db) : Prop :=
  RoleRepository.getById s.toTables role.id = some role' ∧ role'.tenantId = role.tenantId ∧
    s.permissions = db.permissions ∧ s.tenants = db.tenants

theorem addingTo_of_addPermission {role role' role'' : LoadedRole} {s s' : Db} {p : Permission}
    {es : List Event} (hadding : AddingTo db role role' s)
    (h : RoleRepository.addPermissionTx role' p s.toTables = .ok (role'', s'.toTables, es)) :
    AddingTo db role role'' s' := by
  obtain ⟨hget, htenant, hpermissions, htenants⟩ := hadding
  obtain ⟨hrow, _, hid⟩ := RoleRepository.getById_eq_some hget
  obtain ⟨_, _, ht, _, hget'⟩ := RoleRepository.addPermissionTx_eq_ok h
  rw [hid] at hget'
  refine ⟨hget', ?_, by rw [← hpermissions, ht]; rfl, by rw [← htenants, ht]; rfl⟩
  obtain ⟨hrow', _, _⟩ := RoleRepository.getById_eq_some hget'
  rw [ht, Tables.bumpPermVersion_roles, Table.get_update, hrow, Option.map_some] at hrow'
  have hsame := congrArg Role.tenantId (Option.some.inj hrow')
  rw [← htenant, ← hsame]
  split <;> rfl

theorem does_addPermissionToRole {roleId : RoleId} {permissionId : PermissionId}
    (hactor : db.toTables.Loaded actor) :
    Does (Performed actor.toUser (.addPermissionToRole roleId permissionId))
      (RoleService.addPermissionToRole roleId permissionId actor) db (fun _ _ => True) := by
  refine does_getRole ?_
  intro role hrole hscope
  obtain rfl := RoleRepository.getById_id hrole
  refine does_query (Does.require_bind ?_)
  intro perm hperm
  refine Does.ensure_bind ?_
  intro _
  have hid : perm.id = permissionId := Table.key_of_get hperm
  -- every name the loop adds is in the list whose mask was checked
  have hcheck : Does (Performed actor.toUser (.addPermissionToRole role.id permissionId)) (do
      let allowedMask ← grantableMaskFor actor
      let mask ← Action.ofExcept (maskFor (perm.name :: impliedNames role perm))
      Action.ensure (andNot mask allowedMask = 0)
        (.grantNotAllowed "Requested permission exceeds what you are allowed to grant")) db
      (fun _ db' => db' = db ∧ ∀ name ∈ perm.name :: impliedNames role perm,
        ∃ b, permissionRegistry.lookup name = some b ∧
          db.toTables.UnderCeiling actor.tenantId (bit b)) := by
    refine does_grantableMaskFor hactor ?_
    intro allowed hallowed
    refine Does.ofExcept_bind ?_
    intro mask hmask
    refine Does.ensure ?_
    intro hwithin
    have hwithin := (andNot_eq_zero_iff _ _).mp hwithin
    exact ⟨rfl, fun name hname => underCeiling_of_maskFor hmask hwithin hallowed hname⟩
  refine does_check hcheck ?_
  intro hceiling
  refine does_query ?_
  refine Does.bind (Q := AddingTo db role) ?_ ?_
  · refine does_change (.addPermission role perm) rfl rfl
      ⟨hrole, by rw [hid]; exact hperm⟩ ?_ ?_
    · intro hsuper
      exact ⟨hscope hsuper, hceiling hsuper perm.name (by simp)⟩
    · intro role' s es hcommit
      exact addingTo_of_addPermission ⟨hrole, rfl, rfl, rfl⟩ hcommit
  · intro added s hadding
    refine Does.weaken (Does.foldlM (I := AddingTo db role) hadding ?_) (fun _ _ _ => trivial)
    intro role' s p hp hadding
    obtain ⟨hmem, hname⟩ : p ∈ db.permissions.rows ∧ p.name ∈ impliedNames role perm := by
      simpa [PermissionRepository.getByNames] using hp
    obtain ⟨hget, htenant, hpermissions, htenants⟩ := hadding
    have hid' : role'.id = role.id := RoleRepository.getById_id hget
    refine does_change (.addPermission role' p) rfl hid' ⟨by rw [hid']; exact hget, ?_⟩ ?_ ?_
    · rw [hpermissions]
      exact Table.get_of_mem hmem
    · intro hsuper
      obtain ⟨b, hb, hunder⟩ := hceiling hsuper p.name (by simp [hname])
      refine ⟨?_, b, hb, ?_⟩
      · rw [InScope, htenant]
        exact hscope hsuper
      · intro i hi tenant htenant
        rw [htenants] at htenant
        exact hunder i hi tenant htenant
    · intro role'' s' es hcommit
      exact addingTo_of_addPermission ⟨hget, htenant, hpermissions, htenants⟩ hcommit

/-! ### `UserManagementService` -/

section Users

open UserManagementService

variable {getPasswordHash : String → Except Err String}

theorem does_createUser {newId : Uuid} {data : UserCreate} :
    Does (Performed actor.toUser (.createUser newId data))
      (createUser getPasswordHash newId actor data) db (fun _ _ => True) := by
  unfold createUser
  refine does_query (Does.ensure_bind ?_)
  intro _
  refine does_query (Does.ensure_bind ?_)
  intro _
  refine Does.ofExcept_bind ?_
  intro password _
  refine Does.bind (Q := fun _ _ => True) ?_ (fun _ _ _ => Does.read trivial)
  exact does_last (.createUser _) rfl ⟨rfl, rfl⟩ trivial (fun _ => rfl)

/-- The only commit is made on the state of the checks, and a normal return has
given the role to a user of the actor's tenant. -/
theorem does_assignRole_at {targetUserId : Uuid} {roleId : RoleId}
    (hactor : db.toTables.Loaded actor) :
    Does (fun s s' es =>
        Performed actor.toUser (.assignRole targetUserId roleId) s s' es ∧ s = db)
      (assignRole actor targetUserId roleId) db (fun _ db' =>
        (actor.isSuperuser = false →
          ∃ user, db.users.get targetUserId = some user ∧ user.tenantId = actor.tenantId) ∧
        ∃ es, RoleRepository.assignToUserTx roleId targetUserId db.toTables =
          .ok ((), db'.toTables, es)) := by
  refine does_query (Does.ensure_bind ?_)
  intro hallowed
  refine does_query (Does.require_bind ?_)
  intro _ _
  refine does_query (Does.require_bind ?_)
  intro target htarget
  refine does_ensureSameTenant ?_
  intro htenant
  refine does_query (Does.ensure_bind ?_)
  intro _
  exact does_change_and (.assignToUser roleId targetUserId) rfl ⟨rfl, rfl⟩ trivial
    (fun hsuper => ⟨hactor.canGrantRole hallowed hsuper, target, htarget, htenant hsuper⟩)
    (fun _ _ es hcommit => ⟨rfl, fun hsuper => ⟨target, htarget, htenant hsuper⟩, es, hcommit⟩)

theorem does_assignRole {targetUserId : Uuid} {roleId : RoleId}
    (hactor : db.toTables.Loaded actor) :
    Does (Performed actor.toUser (.assignRole targetUserId roleId))
      (assignRole actor targetUserId roleId) db (fun _ db' =>
        (actor.isSuperuser = false →
          ∃ user, db.users.get targetUserId = some user ∧ user.tenantId = actor.tenantId) ∧
        ∃ es, RoleRepository.assignToUserTx roleId targetUserId db.toTables =
          .ok ((), db'.toTables, es)) :=
  (does_assignRole_at hactor).mono (fun _ _ _ h => h.1)

theorem does_removeRole {targetUserId : Uuid} {roleId : RoleId} :
    Does (Performed actor.toUser (.removeRole targetUserId roleId))
      (removeRole actor targetUserId roleId) db (fun _ _ => True) := by
  refine does_query (Does.ensure_bind ?_)
  intro _
  refine does_query (Does.require_bind ?_)
  intro _ _
  refine does_query (Does.require_bind ?_)
  intro target htarget
  refine does_ensureSameTenant ?_
  intro htenant
  refine does_query (Does.ensure_bind ?_)
  intro _
  exact does_last (.removeFromUser roleId targetUserId) rfl ⟨rfl, rfl⟩ trivial
    (fun hsuper => ⟨target, htarget, htenant hsuper⟩)

/-- A normal return has granted the permission to a user of the actor's tenant. -/
theorem does_grantPermission {targetUserId : Uuid} {permissionId : PermissionId}
    (hactor : db.toTables.Loaded actor) :
    Does (Performed actor.toUser (.grantPermission targetUserId permissionId))
      (grantPermission actor targetUserId permissionId) db (fun _ db' =>
        ∃ user permission, db.users.get targetUserId = some user ∧
          (actor.isSuperuser = false → user.tenantId = actor.tenantId) ∧
          db.permissions.get permissionId = some permission ∧
          ∃ es, UserRepository.grantPermissionTx (db.toTables.loadUser user) permission
            db.toTables = .ok ((), db'.toTables, es)) := by
  refine does_query (Does.ensure_bind ?_)
  intro hallowed
  refine does_query (Does.require_bind ?_)
  intro permission hpermission
  refine does_query (Does.require_bind ?_)
  intro target htarget
  refine does_ensureSameTenant ?_
  intro htenant
  refine does_query (Does.ensure_bind ?_)
  intro _
  have hid : permission.id = permissionId := Table.key_of_get hpermission
  obtain ⟨hrow, hloaded, htargetId⟩ := UserRepository.getByIdWithGrants_eq_some htarget
  refine does_change (.grantPermission target permission) rfl ⟨htargetId, hid⟩
    ⟨by rw [htargetId]; exact htarget, by rw [hid]; exact hpermission⟩ ?_ ?_
  · intro hsuper
    refine ⟨?_, htenant hsuper⟩
    rw [hid]
    exact hactor.canGrantPermission hallowed hsuper
  · intro _ db' es hcommit
    rw [hloaded] at hcommit
    exact ⟨target.toUser, permission, hrow, htenant, hpermission, es, hcommit⟩

theorem does_revokePermission {targetUserId : Uuid} {permissionId : PermissionId} :
    Does (Performed actor.toUser (.revokePermission targetUserId permissionId))
      (revokePermission actor targetUserId permissionId) db (fun _ _ => True) := by
  refine does_query (Does.ensure_bind ?_)
  intro _
  refine does_query (Does.require_bind ?_)
  intro permission hpermission
  refine does_query (Does.require_bind ?_)
  intro target htarget
  refine does_ensureSameTenant ?_
  intro htenant
  refine does_query (Does.ensure_bind ?_)
  intro _
  have hid : permission.id = permissionId := Table.key_of_get hpermission
  have htargetId : target.id = targetUserId :=
    (UserRepository.getByIdWithGrants_eq_some htarget).2.2
  exact does_last (.revokePermission target permission) rfl ⟨htargetId, hid⟩
    ⟨by rw [htargetId]; exact htarget, by rw [hid]; exact hpermission⟩ htenant

theorem does_setUserActive {targetUserId : Uuid} {isActive : Bool} :
    Does (Performed actor.toUser (.setUserActive targetUserId isActive))
      (setUserActive actor.scope targetUserId isActive) db (fun _ _ => True) := by
  refine does_query (Does.require_bind ?_)
  intro target htarget
  refine does_ensureSameTenant ?_
  intro htenant
  have htargetId : target.id = targetUserId := Table.key_of_get htarget
  exact does_last (.setUserActive target isActive) rfl ⟨htargetId, rfl⟩
    (by rw [Change.Current, htargetId]; exact htarget) htenant

end Users

/-! ### `TenantService` -/

section Tenants

open TenantService

variable {getPasswordHash : String → Except Err String}

theorem within_and_right (a b : ℕ) : Within (a &&& b) b :=
  ((within_and_iff _ _ _).mp (Within.refl _)).2

/-- The four transactions of the bootstrap, in order. -/
theorem does_createTenantWithAdmin {newTenantId newUserId : Uuid} {data : TenantCreate} :
    Does (Performed actor.toUser (.createTenantWithAdmin newTenantId newUserId data))
      (createTenantWithAdmin getPasswordHash newTenantId newUserId actor data) db
      (fun _ _ => True) := by
  refine Does.ensure_bind ?_
  intro hsuper
  have hnot : ∀ {P : Prop}, actor.isSuperuser = false → P := by
    intro P hfalse
    rw [hsuper] at hfalse
    cases hfalse
  refine does_query (Does.ensure_bind ?_)
  intro _
  refine does_query (Does.ensure_bind ?_)
  intro _
  refine does_query (Does.ensure_bind ?_)
  intro _
  refine Does.ofExcept_bind ?_
  intro requested _
  refine Does.bind (Q := fun (tenant : Tenant) _ => tenant.id = newTenantId) ?_ ?_
  · refine does_change (.createTenant newTenantId data.name _) rfl rfl (within_and_right _ _)
      hnot ?_
    intro tenant s es hcommit
    obtain ⟨_, _, _, rfl, _⟩ := TenantRepository.createTx_eq_ok hcommit
    rfl
  rintro tenant s rfl
  refine Does.bind (Q := fun _ _ => True) ?_ ?_
  · exact does_last (.createRootTenantRole tenant.id _) rfl rfl (within_and_right _ _) hnot
  intro adminRole s _
  refine Does.ofExcept_bind ?_
  intro password _
  refine Does.bind (Q := fun (user : User) _ => user.id = newUserId) ?_ ?_
  · refine does_change (.createUser _) rfl ⟨rfl, rfl, rfl⟩ trivial hnot ?_
    intro user s es hcommit
    obtain ⟨_, _, _, rfl, _⟩ := UserRepository.createTx_eq_ok hcommit
    rfl
  rintro user s rfl
  refine Does.bind (Q := fun _ _ => True) ?_ (fun _ _ _ => Does.pure trivial)
  exact does_last (.assignToUser adminRole.id user.id) rfl rfl trivial hnot

theorem does_setTenantActive {tenantId : Uuid} {isActive : Bool} :
    Does (Performed actor.toUser (.setTenantActive tenantId isActive))
      (setTenantActive actor tenantId isActive) db (fun _ _ => True) := by
  refine Does.ensure_bind ?_
  intro hsuper
  refine Does.bind (Q := fun tenant s => s = db ∧ db.tenants.get tenantId = some tenant)
    (does_query (Does.require (fun _ htenant => ⟨rfl, htenant⟩))) ?_
  rintro tenant _ ⟨rfl, htenant⟩
  have hid : tenant.id = tenantId := Table.key_of_get htenant
  refine does_last (.setTenantActive tenant isActive) rfl ⟨hid, rfl⟩ ?_ ?_
  · rw [Change.Current, hid]
    exact htenant
  · intro hfalse
    rw [hsuper] at hfalse
    cases hfalse

theorem does_updateTenantPermissions {tenantId : Uuid} {allowedPermissions : List String} :
    Does (Performed actor.toUser (.updateTenantPermissions tenantId allowedPermissions))
      (updateTenantPermissions actor tenantId allowedPermissions) db (fun _ _ => True) := by
  refine Does.ensure_bind ?_
  intro hsuper
  have hnot : ∀ {P : Prop}, actor.isSuperuser = false → P := by
    intro P hfalse
    rw [hsuper] at hfalse
    cases hfalse
  refine Does.bind (Q := fun tenant s => s = db ∧ db.tenants.get tenantId = some tenant)
    (does_query (Does.require (fun _ htenant => ⟨rfl, htenant⟩))) ?_
  rintro tenant _ ⟨rfl, htenant⟩
  have hid : tenant.id = tenantId := Table.key_of_get htenant
  refine Does.ofExcept_bind ?_
  intro requested _
  refine Does.bind (Q := fun (updated : Tenant) _ => updated.id = tenantId) ?_ ?_
  · refine does_change (.setAllowedPermissionMask tenant _) rfl hid
      ⟨by rw [hid]; exact htenant, within_and_right _ _⟩ hnot ?_
    intro updated s es hcommit
    obtain ⟨_, rfl, _⟩ := TenantRepository.setAllowedPermissionMaskTx_eq_ok hcommit
    exact hid
  rintro updated s hupdated
  refine Does.bind (Q := fun _ _ => True) ?_ (fun _ _ _ => Does.pure trivial)
  exact does_last (.syncRootTenantRole updated.id _) rfl hupdated (within_and_right _ _) hnot

end Tenants

/-! ### The reads -/

section Reads

variable {S : Db → Db → List Event → Prop} {scope : Scope}

theorem does_getRole_read {roleId : RoleId} :
    Does S (RoleService.getRole roleId scope) db (fun _ _ => True) := by
  refine does_query (Does.require_bind ?_)
  intro role _
  exact does_check (P := True) (Does.ensure (fun _ => ⟨rfl, trivial⟩))
    (fun _ => Does.pure trivial)

theorem does_getAllRoles {skip limit : ℕ} :
    Does S (RoleService.getAllRoles scope skip limit) db (fun _ _ => True) :=
  Does.ite (fun _ => Does.read trivial) (fun _ => Does.read trivial)

theorem does_getRoleGrants {roleId : RoleId} :
    Does S (RoleService.getRoleGrants roleId scope) db (fun _ _ => True) := by
  refine does_getRole ?_
  intro _ _ _
  exact does_query (does_query (does_query (does_query (Does.pure trivial))))

theorem does_listUsers {skip limit : ℕ} {filterTenantId : Option Uuid} :
    Does S (UserManagementService.listUsers scope skip limit filterTenantId) db
      (fun _ _ => True) := by
  unfold UserManagementService.listUsers
  refine Does.ite (fun _ => ?_) (fun _ => Does.read trivial)
  cases filterTenantId with
  | none => exact Does.read trivial
  | some _ => exact Does.read trivial

theorem does_countUsers {filterTenantId : Option Uuid} :
    Does S (UserManagementService.countUsers scope filterTenantId) db (fun _ _ => True) := by
  unfold UserManagementService.countUsers
  refine Does.ite (fun _ => ?_) (fun _ => Does.read trivial)
  cases filterTenantId with
  | none => exact Does.read trivial
  | some _ => exact Does.read trivial

theorem does_getUserDetail {userId : Uuid} :
    Does S (UserManagementService.getUserDetail scope userId) db (fun _ _ => True) := by
  refine Does.bind (Q := fun _ s => s = db) (does_query (Does.require (fun _ _ => rfl))) ?_
  rintro user _ rfl
  exact does_ensureSameTenant (fun _ => Does.pure trivial)

theorem does_getGrants :
    Does S (UserManagementService.getGrants actor) db (fun _ _ => True) :=
  Does.ite (fun _ => does_query (does_query (Does.pure trivial)))
    (fun _ => does_query (does_query (does_query (does_query (Does.pure trivial)))))

end Reads

/-! ### Every operation -/

section Runs

variable {getPasswordHash : String → Except Err String}

/-- An operation commits only what it may perform. -/
theorem does_call (call : Call) (hactor : db.toTables.Loaded actor) :
    Does (Performed actor.toUser call) (call.run getPasswordHash actor) db (fun _ _ => True) := by
  cases call with
  | createRole role => exact does_discard (does_createRole hactor)
  | getRole roleId => exact does_discard does_getRole_read
  | getAllRoles skip limit => exact does_discard does_getAllRoles
  | getRoleGrants roleId => exact does_discard does_getRoleGrants
  | updateRole roleId roleUpdate => exact does_discard does_updateRole
  | deleteRole roleId => exact does_deleteRole.weaken (fun _ _ _ => trivial)
  | addPermissionToRole roleId permissionId =>
    exact does_discard (does_addPermissionToRole hactor)
  | removePermissionFromRole roleId permissionId =>
    exact does_discard does_removePermissionFromRole
  | addGrantableRole roleId grantableRoleId => exact does_addGrantableRole hactor
  | removeGrantableRole roleId grantableRoleId => exact does_removeGrantableRole
  | addGrantablePermission roleId permissionId => exact does_addGrantablePermission hactor
  | removeGrantablePermission roleId permissionId => exact does_removeGrantablePermission
  | createUser newId data => exact does_discard does_createUser
  | listUsers skip limit filterTenantId => exact does_discard does_listUsers
  | countUsers filterTenantId => exact does_discard does_countUsers
  | getUserDetail userId => exact does_discard does_getUserDetail
  | getGrants => exact does_discard does_getGrants
  | assignRole targetUserId roleId => exact (does_assignRole hactor).weaken (fun _ _ _ => trivial)
  | removeRole targetUserId roleId => exact does_removeRole
  | grantPermission targetUserId permissionId =>
    exact (does_grantPermission hactor).weaken (fun _ _ _ => trivial)
  | revokePermission targetUserId permissionId => exact does_revokePermission
  | setUserActive targetUserId isActive => exact does_setUserActive
  | createTenantWithAdmin newTenantId newUserId data =>
    exact does_discard does_createTenantWithAdmin
  | setTenantActive tenantId isActive => exact does_discard does_setTenantActive
  | updateTenantPermissions tenantId allowedPermissions =>
    exact does_discard does_updateTenantPermissions

/-- A request loads its actor and does what the operation does. -/
theorem does_request {S : Db → Db → List Event → Prop} {Q : Unit → Db → Prop} {actorId : Uuid}
    {call : Call} (h : ∀ user, db.users.get actorId = some user →
      db.toTables.Loaded (db.toTables.loadUser user) →
      Does S (call.run getPasswordHash (db.toTables.loadUser user)) db Q) :
    Does S (request getPasswordHash actorId call) db Q := by
  refine does_query (Does.require_bind ?_)
  intro actor hactor
  obtain ⟨user, hrow, rfl⟩ := Option.map_eq_some_iff.mp hactor
  obtain rfl := Table.key_of_get hrow
  exact h user hrow hactor

/-- The actor that a request loads is the one who is there. -/
theorem does_request_of {S : Db → Db → List Event → Prop} {Q : Unit → Db → Prop} {actorId : Uuid}
    {call : Call} {user : User} (huser : db.users.get actorId = some user)
    (h : db.toTables.Loaded (db.toTables.loadUser user) →
      Does S (call.run getPasswordHash (db.toTables.loadUser user)) db Q) :
    Does S (request getPasswordHash actorId call) db Q := by
  refine does_request ?_
  intro user' huser' hloaded
  obtain rfl := Option.some.inj (huser.symm.trans huser')
  exact h hloaded

/-- The transactions of a request are those that its actor may commit. -/
theorem path_of_request {actorId : Uuid} {call : Call} {user : User} {r : Except Err Unit}
    {db' : Db} {es : List Event} (huser : db.users.get actorId = some user)
    (h : request getPasswordHash actorId call db = (r, db', es)) :
    Path (Performed user call) db db' es := by
  have hdoes : Does (Performed user call) (request getPasswordHash actorId call) db
      (fun _ _ => True) := does_request_of huser (does_call call)
  have hpath := hdoes.1
  rw [h] at hpath
  exact hpath

theorem request_run {actorId : Uuid} {user : User} (huser : db.users.get actorId = some user)
    (call : Call) : request getPasswordHash actorId call db =
      call.run getPasswordHash (db.toTables.loadUser user) db := by
  have hfound : UserRepository.getByIdWithGrants db.toTables actorId =
      some (db.toTables.loadUser user) := by
    rw [UserRepository.getByIdWithGrants, huser, Option.map_some]
  unfold request
  rw [query, Action.read_bind_apply, hfound, Action.require_some_bind]

/-- A request without its actor fails; with one it commits what the actor may. -/
theorem request_path {actorId : Uuid} {call : Call} {r : Except Err Unit} {db' : Db}
    {es : List Event} (h : request getPasswordHash actorId call db = (r, db', es)) :
    (db.users.get actorId = none ∧ r = .error (.userNotFound actorId.str) ∧ db' = db ∧ es = []) ∨
      ∃ user, db.users.get actorId = some user ∧ Path (Performed user call) db db' es := by
  rcases hu : db.users.get actorId with _ | user
  · left
    have hnone : UserRepository.getByIdWithGrants db.toTables actorId = none := by
      rw [UserRepository.getByIdWithGrants, hu, Option.map_none]
    rw [request, query, Action.read_bind_apply, hnone, Action.require,
      Action.raise_bind_apply] at h
    cases h
    exact ⟨rfl, rfl, rfl, rfl⟩
  · exact Or.inr ⟨user, rfl, path_of_request hu h⟩

end Runs
end FastapiTemplate
