import FastapiTemplate.MaskAgreement

/-!
A token minted from several reads. The user row, the roles, their permissions,
the direct permissions and the tenant are read by separate queries, and
mutations commit between them. The version is read first and only goes up, so
a version that is current later has stood still since: no mutation in between
touched the grants of the user, and the assembled mask is the mask of any one
of these states.
-/
namespace FastapiTemplate

open Library.KeyedTable Library.Committing Library.BitMask

/-- The mutations of grants that bump the versions of everyone they affect. -/
def Change.Mutation : Change → Prop
  | assignToUser _ _ => True
  | removeFromUser _ _ => True
  | addPermission _ _ => True
  | removePermission _ _ => True
  | syncRootTenantRole _ _ => True
  | grantPermission _ _ => True
  | revokePermission _ _ => True
  | _ => False

/-- One mutation as an atomic transaction. -/
def Mutates (db db' : Db) (es : List Event) : Prop :=
  ∃ c : Change, c.Mutation ∧ c.Current db.toTables ∧ c.Commits db db' es

/-- Mutations commit one after the other. -/
def Mutated (db db' : Db) : Prop := ∃ es, Path Mutates db db' es

/-- `get_by_id_with_grants`, each of its queries on the tables of its moment. -/
def UserRepository.getByIdWithGrantsInSteps
    (atRow atRoles atRolePermissions atDirect atTenant : Tables) (userId : Uuid) :
    Option LoadedUser :=
  (UserRepository.getById atRow userId).map (fun u =>
    ⟨u, (atRoles.rolesOf u.id).map (fun r => atRolePermissions.loadRole r.toRole),
      atDirect.directPermissions u.id, u.tenantId.bind atTenant.tenants.get⟩)

/-- With nothing committed in between it is the one load of the services. -/
theorem UserRepository.getByIdWithGrantsInSteps_self (t : Tables) (userId : Uuid) :
    getByIdWithGrantsInSteps t t t t t userId = getByIdWithGrants t userId := by
  have hroles (u : User) :
      (t.rolesOf u.id).map (fun r => t.loadRole r.toRole) = t.rolesOf u.id := by
    rw [Tables.rolesOf, List.map_map]
    rfl
  simp only [getByIdWithGrantsInSteps, getById, getByIdWithGrants, hroles]
  rfl

/-- The version of the user does not go down, and if it does not go up their
grants are the same. -/
def Settled (userId : Uuid) (db db' : Db) : Prop :=
  ∀ u, db.users.get userId = some u → ∃ u', db'.users.get userId = some u' ∧
    u.permVersion ≤ u'.permVersion ∧
    (u'.permVersion ≤ u.permVersion → SameGrants db.toTables db'.toTables userId)

section Settled

variable {userId : Uuid} {db db' : Db} {es : List Event}

theorem Settled.refl (userId : Uuid) (db : Db) : Settled userId db db :=
  fun u hu => ⟨u, hu, Nat.le_refl _, fun _ => .refl _ _⟩

theorem Settled.trans {db'' : Db} (h : Settled userId db db') (h' : Settled userId db' db'') :
    Settled userId db db'' := by
  intro u hu
  obtain ⟨u', hu', hle, hsame⟩ := h u hu
  obtain ⟨u'', hu'', hle', hsame'⟩ := h' u' hu'
  exact ⟨u'', hu'', by omega, fun hback => (hsame (by omega)).trans (hsame' (by omega))⟩

theorem Mutates.settled (userId : Uuid) (h : Mutates db db' es) : Settled userId db db' := by
  obtain ⟨c, hmutation, hcur, hcommit⟩ := h
  intro u hu
  obtain ⟨u', hu', hstep⟩ := Change.row_step hcur hcommit hu
  obtain rfl := Table.key_of_get hu
  refine ⟨u', hu', ?_⟩
  by_cases hbump : c.Bumps db.toTables u.id
  · have hversion := (hstep.bumped hbump).1
    exact ⟨by omega, fun hback => by omega⟩
  · have hversion := hstep.kept hbump
    refine ⟨by omega, fun _ => Change.sameGrants hcommit hbump ?_⟩
    cases c with
    | deleteRole role => exact hmutation.elim
    | _ => exact id

theorem Mutated.settled (userId : Uuid) (h : Mutated db db') : Settled userId db db' := by
  obtain ⟨es, hpath⟩ := h
  exact Path.collapse (R := fun db db' _ => Settled userId db db') (fun s => .refl userId s)
    (fun h h' => h.trans h') (fun _ _ _ hstep => hstep.settled userId) hpath

end Settled

/-! ### The minted mask -/

/-- The bits of a mask that is assembled from several reads. -/
theorem testBit_mask_inSteps {atRow atRoles atRolePermissions atDirect atTenant : Tables}
    {userId : Uuid} {user : LoadedUser} {i : ℕ}
    (h : UserRepository.getByIdWithGrantsInSteps atRow atRoles atRolePermissions atDirect atTenant
      userId = some user) :
    (effectivePermissionMask user).testBit i = true ↔
      atRoles.RoleBit userId i ∨ atDirect.DirectBit userId i := by
  obtain ⟨u, hu, rfl⟩ := Option.map_eq_some_iff.mp h
  obtain rfl := Table.key_of_get hu
  rw [testBit_effectivePermissionMask]
  refine or_congr ?_ Tables.exists_mem_directPermissions
  simp only [List.mem_map, exists_exists_and_eq_and, Tables.loadRole_toRole]
  exact Tables.exists_mem_rolesOf

/-- A minted token whose version is not below the one in the database carries
the mask that the user has at that moment. -/
theorem minted_mask_current {Token : Type} (jwt : Jwt Token)
    {accessTokenExpireMinutes now now' : ℤ}
    {atRow atRoles atRolePermissions atDirect atTenant atMint later : Db} {userId : Uuid}
    {user : LoadedUser} {authMethod : String} {token : Token} {payload : TokenPayload} {u' : User}
    (hroles : Mutated atRow atRoles) (hrolePermissions : Mutated atRoles atRolePermissions)
    (hdirect : Mutated atRolePermissions atDirect) (htenant : Mutated atDirect atTenant)
    (hminting : Mutated atTenant atMint) (hlater : Mutated atMint later)
    (huser : UserRepository.getByIdWithGrantsInSteps atRow.toTables atRoles.toTables
      atRolePermissions.toTables atDirect.toTables atTenant.toTables userId = some user)
    (hmint : mintAccessToken jwt accessTokenExpireMinutes atMint.toTables now user authMethod =
      .ok token)
    (hnow : now' < now + accessTokenExpireMinutes * 60)
    (hpayload : verifyToken jwt now' token = some payload)
    (hu' : later.users.get userId = some u') (hversion : u'.permVersion ≤ payload.permVersion) :
    hexToMask (some payload.permMask) = .ok (effectivePermissionMask (later.loadUser u')) := by
  obtain ⟨_, text, htext, rfl⟩ := mintAccessToken_eq_ok_iff.mp hmint
  obtain rfl : user.claims text (now + accessTokenExpireMinutes * 60) authMethod = payload :=
    Option.some.inj ((jwt.decode_encode now' _ hnow).symm.trans hpayload)
  obtain ⟨u, hu, hloaded⟩ := Option.map_eq_some_iff.mp huser
  have huversion : user.permVersion = u.permVersion := by rw [← hloaded]
  change u'.permVersion ≤ user.permVersion at hversion
  -- the version has stood still from the first read on
  have hfromRoles : Settled userId atRoles later :=
    (hrolePermissions.settled userId).trans ((hdirect.settled userId).trans
      ((htenant.settled userId).trans ((hminting.settled userId).trans (hlater.settled userId))))
  have hfromDirect : Settled userId atDirect later :=
    (htenant.settled userId).trans ((hminting.settled userId).trans (hlater.settled userId))
  obtain ⟨u₁, hu₁, hle₁, _⟩ := hroles.settled userId u hu
  obtain ⟨u₂, hu₂, hle₂, _⟩ :=
    ((hrolePermissions.settled userId).trans (hdirect.settled userId)) u₁ hu₁
  obtain ⟨v, hv, _, hsameRoles⟩ := hfromRoles u₁ hu₁
  obtain rfl := Option.some.inj (hu'.symm.trans hv)
  obtain ⟨v, hv, _, hsameDirect⟩ := hfromDirect u₂ hu₂
  obtain rfl := Option.some.inj (hu'.symm.trans hv)
  have hsame : effectivePermissionMask user = effectivePermissionMask (later.loadUser u') := by
    refine Nat.eq_of_testBit_eq ?_
    intro i
    rw [Bool.eq_iff_iff, testBit_mask_inSteps huser, Tables.testBit_maskOf,
      Table.key_of_get hu', (hsameRoles (by omega)).roleBit_iff i,
      (hsameDirect (by omega)).directBit_iff i]
  rw [hsame] at htext
  exact hexToMask_maskToHex _ (mask_lt later u') text htext

/-! The superuser is given the role `reader` between the first two reads of
another holder. -/

def promoted : Db := (RoleRepository.assignToUser 1 1 staffed).2.1

theorem mutated_promoted : Mutated staffed promoted := by
  have hcommit : Commits (RoleRepository.assignToUserTx 1 1) staffed promoted
      (RoleRepository.assignToUser 1 1 staffed).2.2 := by
    unfold promoted RoleRepository.assignToUser
    exact commits_of_isOk (by decide +kernel)
  exact ⟨_, Path.single ⟨.assignToUser 1 1, trivial, trivial, hcommit⟩⟩

/-- What the reads assemble. -/
def annInSteps : LoadedUser :=
  ⟨ann, (promoted.rolesOf 2).map (fun r => promoted.loadRole r.toRole),
    promoted.directPermissions 2, none⟩

theorem ann_mask_current :
    ∃ token payload,
      mintAccessToken plainJwt 30 promoted.toTables 0 annInSteps "password" = .ok token ∧
      verifyToken plainJwt 60 token = some payload ∧
      hexToMask (some payload.permMask) = .ok (effectivePermissionMask (promoted.loadUser ann)) := by
  have hrow : staffed.users.get 2 = some ann := by decide +kernel
  have hrow' : promoted.users.get 2 = some ann := by decide +kernel
  have huser : UserRepository.getByIdWithGrantsInSteps staffed.toTables promoted.toTables
      promoted.toTables promoted.toTables promoted.toTables 2 = some annInSteps := by
    unfold UserRepository.getByIdWithGrantsInSteps UserRepository.getById
    rw [hrow]
    rfl
  have hrefl : Mutated promoted promoted := ⟨[], .nil _⟩
  have hnow : (60 : ℤ) < 0 + 30 * 60 := by decide
  obtain ⟨text, htext⟩ : ∃ text, maskToHex (some (effectivePermissionMask annInSteps)) =
      .ok text := by
    refine maskToHex_of_lt ?_
    decide +kernel
  have hmint : mintAccessToken plainJwt 30 promoted.toTables 0 annInSteps "password" =
      .ok (plainJwt.encode (annInSteps.claims text (0 + 30 * 60) "password")) :=
    mintAccessToken_eq_ok_iff.mpr
      ⟨⟨rfl, fun i hi => absurd hi (Option.some_ne_none i).symm⟩, text, htext, rfl⟩
  have hpayload := plainJwt.decode_encode 60 (annInSteps.claims text (0 + 30 * 60) "password") hnow
  refine ⟨_, _, hmint, hpayload, ?_⟩
  exact minted_mask_current plainJwt mutated_promoted hrefl hrefl hrefl hrefl hrefl huser hmint
    hnow hpayload hrow' (Nat.le_refl 2)

end FastapiTemplate
