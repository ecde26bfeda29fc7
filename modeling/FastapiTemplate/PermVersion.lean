import FastapiTemplate.System

/-!
`perm_version` against changes of effective permissions. Every change except
the deletion of a role bumps and announces the version of each user whose mask
it can move, and the relation composes along the transactions of an operation.
Deleting a role takes its bits from the holders without touching their
versions, so it is tracked exactly when each holder keeps every bit of the
role from another source.
-/
namespace FastapiTemplate

open Library.KeyedTable Library.Committing Library.BitMask

/-- Users stay, versions do not go down, and a new version is announced. -/
def Announced (db db' : Db) (es : List Event) : Prop :=
  ∀ userId u, db.users.get userId = some u →
    ∃ u', db'.users.get userId = some u' ∧ u.permVersion ≤ u'.permVersion ∧
      (u.permVersion ≠ u'.permVersion → Event.permVersion userId.str u'.permVersion ∈ es)

/-- A mask that moves takes the version with it. -/
def Guarded (db db' : Db) : Prop :=
  ∀ userId u u', db.users.get userId = some u → db'.users.get userId = some u' →
    u.permVersion = u'.permVersion →
      effectivePermissionMask (db'.loadUser u') = effectivePermissionMask (db.loadUser u)

/-- Every user whose mask differs afterwards has a larger version, which has
been handed to `publish_events`. -/
def Tracked (db db' : Db) (es : List Event) : Prop :=
  ∀ userId u u', db.users.get userId = some u → db'.users.get userId = some u' →
    effectivePermissionMask (db'.loadUser u') ≠ effectivePermissionMask (db.loadUser u) →
      u.permVersion < u'.permVersion ∧ Event.permVersion userId.str u'.permVersion ∈ es

theorem announced_refl (db : Db) : Announced db db [] :=
  fun _ u hu => ⟨u, hu, Nat.le_refl _, fun hne => absurd rfl hne⟩

theorem Announced.trans {s s' s'' : Db} {es fs : List Event} (h : Announced s s' es)
    (h' : Announced s' s'' fs) : Announced s s'' (es ++ fs) := by
  intro userId u hu
  obtain ⟨u', hu', hle, hevent⟩ := h userId u hu
  obtain ⟨u'', hu'', hle', hevent'⟩ := h' userId u' hu'
  refine ⟨u'', hu'', hle.trans hle', ?_⟩
  intro hne
  rw [List.mem_append]
  by_cases hsame : u'.permVersion = u''.permVersion
  · rw [← hsame] at hne ⊢
    exact Or.inl (hevent hne)
  · exact Or.inr (hevent' hsame)

theorem guarded_refl (db : Db) : Guarded db db := by
  intro userId u u' hu hu' _
  rw [Option.some.inj (hu.symm.trans hu')]

/-- A version that is back at its value has stood still on the way. -/
theorem Guarded.trans {s s' s'' : Db} {es fs : List Event} (hann : Announced s s' es)
    (hann' : Announced s' s'' fs) (h : Guarded s s') (h' : Guarded s' s'') : Guarded s s'' := by
  intro userId u u'' hu hu'' hversion
  obtain ⟨u', hu', hle, _⟩ := hann userId u hu
  obtain ⟨v, hv, hle', _⟩ := hann' userId u' hu'
  obtain rfl := Option.some.inj (hu''.symm.trans hv)
  rw [h' userId u' u'' hu' hu'' (by omega), h userId u u' hu hu' (by omega)]

theorem Announced.tracked {db db' : Db} {es : List Event} (h : Announced db db' es)
    (hguarded : Guarded db db') : Tracked db db' es := by
  intro userId u u' hu hu' hmask
  obtain ⟨v, hv, hle, hevent⟩ := h userId u hu
  obtain rfl := Option.some.inj (hu'.symm.trans hv)
  have hne : u.permVersion ≠ u'.permVersion :=
    fun hsame => hmask (hguarded userId u u' hu hu' hsame)
  exact ⟨by omega, hevent hne⟩

/-! ### One change -/

section Change

variable {c : Change} {db db' : Db} {es : List Event}

theorem Change.announced (hcur : c.Current db.toTables) (h : c.Commits db db' es) :
    Announced db db' es := by
  intro userId u hu
  obtain ⟨u', hu', hstep⟩ := Change.row_step hcur h hu
  obtain rfl := Table.key_of_get hu
  refine ⟨u', hu', ?_⟩
  by_cases hbump : c.Bumps db.toTables u.id
  · obtain ⟨hversion, hevent⟩ := hstep.bumped hbump
    exact ⟨by omega, fun _ => hevent⟩
  · have hversion := hstep.kept hbump
    exact ⟨by omega, fun hne => absurd hversion.symm hne⟩

theorem Change.guarded (hcur : c.Current db.toTables) (h : c.Commits db db' es)
    (hdrop : ∀ userId, ¬ c.DropsRoleOf db.toTables userId) : Guarded db db' := by
  intro userId u u' hu hu' hversion
  obtain ⟨v, hv, hstep⟩ := Change.row_step hcur h hu
  obtain rfl := Option.some.inj (hu'.symm.trans hv)
  obtain rfl := Table.key_of_get hu
  have hbump : ¬ c.Bumps db.toTables u.id := by
    intro hbump
    have := (hstep.bumped hbump).1
    omega
  exact (Change.sameGrants h hbump (hdrop u.id)).maskOf_eq (Table.key_of_get hu')

end Change

/-! ### The deletion of a role -/

def LoadedUser.withoutRole (user : LoadedUser) (roleId : RoleId) : LoadedUser :=
  { user with roles := user.roles.filter (fun r => r.id ≠ roleId) }

/-- The condition on the state before the call: a role that is deleted leaves
each holder every one of its bits from another role or a direct grant. -/
def Call.Spares (db : Db) : Call → Prop
  | deleteRole roleId => ∀ role, db.roles.get roleId = some role →
      ∀ u ∈ db.users.rows, (u.id, roleId) ∈ db.userRoles →
        Within role.permissionMask
          (effectivePermissionMask ((db.loadUser u).withoutRole roleId))
  | _ => True

section Delete

variable {db db' : Db} {role : LoadedRole} {es : List Event}

theorem mask_of_deleteTx (h : RoleRepository.deleteTx role db.toTables = .ok ((), db'.toTables, es))
    (u : User) : effectivePermissionMask (db'.loadUser u) =
      effectivePermissionMask ((db.loadUser u).withoutRole role.id) := by
  obtain ⟨ht, _⟩ := RoleRepository.deleteTx_eq_ok h
  refine Nat.eq_of_testBit_eq ?_
  intro i
  rw [Bool.eq_iff_iff, Tables.testBit_maskOf, testBit_effectivePermissionMask]
  refine or_congr ?_ ?_
  · simp only [LoadedUser.withoutRole, List.mem_filter, decide_eq_true_eq, and_assoc]
    refine Iff.trans ?_ (Tables.exists_mem_rolesOf
      (P := fun r => r.id ≠ role.id ∧ r.permissionMask.testBit i = true)).symm
    refine exists_congr ?_
    intro roleId
    rw [ht]
    simp only [Table.get_delete, Option.filter_eq_some_iff, Finset.mem_filter,
      Tables.loadRole_toRole, Bool.not_eq_true', decide_eq_false_iff_not]
    constructor
    · rintro ⟨r, ⟨hr, hne⟩, ⟨hheld, _⟩, hbit⟩
      exact ⟨r, hr, hheld, hne, hbit⟩
    · rintro ⟨r, hr, hheld, hne, hbit⟩
      obtain rfl := Table.key_of_get hr
      exact ⟨r, ⟨hr, hne⟩, ⟨hheld, hne⟩, hbit⟩
  · rw [ht]
    exact Tables.exists_mem_directPermissions.symm

theorem testBit_withoutRole {u : User} {roleId : RoleId} {r : Role} {i : ℕ}
    (hr : db.roles.get roleId = some r) :
    (effectivePermissionMask (db.loadUser u)).testBit i = true ↔
      (effectivePermissionMask ((db.loadUser u).withoutRole roleId)).testBit i = true ∨
        ((u.id, roleId) ∈ db.userRoles ∧ r.permissionMask.testBit i = true) := by
  rw [testBit_effectivePermissionMask, testBit_effectivePermissionMask]
  simp only [LoadedUser.withoutRole, List.mem_filter, decide_eq_true_eq]
  constructor
  · rintro (⟨x, hx, hbit⟩ | hdirect)
    · by_cases hid : x.id = roleId
      · obtain ⟨row, hmem, hheld, rfl⟩ := Tables.mem_rolesOf.mp hx
        obtain rfl := hid
        obtain rfl := Option.some.inj (hr.symm.trans (Table.get_of_mem hmem))
        exact Or.inr ⟨hheld, hbit⟩
      · exact Or.inl (Or.inl ⟨x, ⟨hx, hid⟩, hbit⟩)
    · exact Or.inl (Or.inr hdirect)
  · rintro ((⟨x, ⟨hx, _⟩, hbit⟩ | hdirect) | ⟨hheld, hbit⟩)
    · exact Or.inl ⟨x, hx, hbit⟩
    · exact Or.inr hdirect
    · exact Or.inl (Tables.exists_mem_rolesOf.mpr ⟨roleId, r, hr, hheld, hbit⟩)

/-- A deletion moves no version, so it is tracked when it moves no mask. -/
theorem tracked_deleteTx_iff {roleId : RoleId}
    (hrole : RoleRepository.getById db.toTables roleId = some role)
    (h : RoleRepository.deleteTx role db.toTables = .ok ((), db'.toTables, es))
    {fs : List Event} : Tracked db db' fs ↔ (Call.deleteRole roleId).Spares db := by
  obtain ⟨hrow, _, rfl⟩ := RoleRepository.getById_eq_some hrole
  obtain ⟨ht, _⟩ := RoleRepository.deleteTx_eq_ok h
  have husers : db'.users = db.users := by rw [ht]
  constructor
  · intro htracked r hr u hu hheld i hbit
    have hget := Table.get_of_mem hu
    by_contra hlost
    have hmask : effectivePermissionMask (db'.loadUser u) ≠
        effectivePermissionMask (db.loadUser u) := by
      intro hsame
      have hbits := (testBit_withoutRole (u := u) (i := i) hr).mpr (Or.inr ⟨hheld, hbit⟩)
      rw [← hsame, mask_of_deleteTx h] at hbits
      exact hlost hbits
    have hlt := (htracked u.id u u hget (by rw [husers]; exact hget) hmask).1
    omega
  · intro hspares userId u u' hu hu' hmask
    rw [husers] at hu'
    obtain rfl := Option.some.inj (hu.symm.trans hu')
    obtain rfl := Table.key_of_get hu
    refine absurd ?_ hmask
    rw [mask_of_deleteTx h]
    refine Nat.eq_of_testBit_eq ?_
    intro i
    rw [Bool.eq_iff_iff, testBit_withoutRole hrow]
    constructor
    · exact Or.inl
    · rintro (hbit | ⟨hheld, hbit⟩)
      · exact hbit
      · exact hspares _ hrow u (Table.mem_of_get hu) hheld i hbit

end Delete

/-! ### Operations -/

theorem tracked_of_path {user : User} {call : Call} {db db' : Db} {es : List Event}
    (hcall : ∀ roleId, call ≠ .deleteRole roleId) (h : Path (Performed user call) db db' es) :
    Tracked db db' es := by
  have hboth : Announced db db' es ∧ Guarded db db' := by
    refine Path.collapse (R := fun db db' es => Announced db db' es ∧ Guarded db db')
      (fun s => ⟨announced_refl s, guarded_refl s⟩) ?_ ?_ h
    · rintro s s' s'' es fs ⟨hann, hguard⟩ ⟨hann', hguard'⟩
      exact ⟨hann.trans hann', hguard.trans hann hann' hguard'⟩
    · rintro s s' es ⟨c, hperforms, hcur, _, hcommit⟩
      refine ⟨Change.announced hcur hcommit, Change.guarded hcur hcommit ?_⟩
      intro userId hdrop
      cases c with
      | deleteRole role => exact hcall role.id (Call.performs_deleteRole hperforms)
      | _ => exact hdrop
  exact hboth.1.tracked hboth.2

/-- A successful operation tracks every change of effective permissions if and
only if the role it deletes, if any, spares its holders. -/
theorem tracked_iff_spares {getPasswordHash : String → Except Err String} {actorId : Uuid}
    {call : Call} {db db' : Db} {es : List Event}
    (h : request getPasswordHash actorId call db = (.ok (), db', es)) :
    Tracked db db' es ↔ call.Spares db := by
  by_cases hcall : ∃ roleId, call = .deleteRole roleId
  · obtain ⟨roleId, rfl⟩ := hcall
    have hdoes : Does (fun _ _ _ => True) (request getPasswordHash actorId (.deleteRole roleId)) db
        (fun _ db' => ∃ role, RoleRepository.getById db.toTables roleId = some role ∧
          ∃ es, RoleRepository.deleteTx role db.toTables = .ok ((), db'.toTables, es)) :=
      does_request (fun _ _ _ => does_deleteRole.mono (fun _ _ _ _ => trivial))
    obtain ⟨role, hrole, fs, hcommit⟩ := hdoes.2 () (by rw [h])
    rw [h] at hcommit
    exact tracked_deleteTx_iff hrole hcommit
  · push Not at hcall
    rcases request_path h with ⟨_, hr, _, _⟩ | ⟨user, _, hpath⟩
    · cases hr
    · refine ⟨fun _ => ?_, fun _ => tracked_of_path hcall hpath⟩
      cases call with
      | deleteRole roleId => exact absurd rfl (hcall roleId)
      | _ => trivial

/-! In `staffed`, user 2 holds the role `reader` and nothing else. -/

/-- The mask and the version of a user. -/
def standing (db : Db) (userId : Uuid) : Option (ℕ × ℕ) :=
  (db.users.get userId).map (fun u => (effectivePermissionMask (db.loadUser u), u.permVersion))

theorem not_tracked {db db' : Db} {es : List Event} (userId : Uuid) (mask mask' version : ℕ)
    (h : standing db userId = some (mask, version))
    (h' : standing db' userId = some (mask', version)) (hne : mask' ≠ mask) :
    ¬ Tracked db db' es := by
  intro htracked
  obtain ⟨u, hu, hstanding⟩ := Option.map_eq_some_iff.mp h
  obtain ⟨u', hu', hstanding'⟩ := Option.map_eq_some_iff.mp h'
  obtain ⟨rfl, hversion⟩ := Prod.mk.inj hstanding
  obtain ⟨rfl, hversion'⟩ := Prod.mk.inj hstanding'
  have hlt := (htracked userId u u' hu hu' hne).1
  omega

/-- Deleting the role takes `role:read` from its holder at the same version. -/
theorem deleteRole_not_tracked :
    Reachable staffed ∧ (request .ok 1 (.deleteRole 1) staffed).1 = .ok () ∧
      ¬ Tracked staffed (request .ok 1 (.deleteRole 1) staffed).2.1
        (request .ok 1 (.deleteRole 1) staffed).2.2 := by
  refine ⟨staffed_reachable, by decide +kernel, ?_⟩
  exact not_tracked 2 2 0 2 (by decide +kernel) (by decide +kernel) (by decide)

theorem tracked_iff_spares_staffed :
    Tracked staffed (request .ok 1 (.deleteRole 1) staffed).2.1
        (request .ok 1 (.deleteRole 1) staffed).2.2 ↔ (Call.deleteRole 1).Spares staffed :=
  tracked_iff_spares (ran_ok (by decide +kernel))

end FastapiTemplate
