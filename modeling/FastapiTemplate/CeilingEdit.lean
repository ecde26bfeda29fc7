import FastapiTemplate.Accounts
import FastapiTemplate.Authoring
import FastapiTemplate.ReadIsolation
import FastapiTemplate.RootRole

/-!
An edit of a ceiling, as the holders of the root role see it. The resync makes
the root role grant the whole new ceiling, so whatever their other roles grant
is cut back to exactly the ceiling. The delegation check of a new role is then
a test of names: what the request implies has to be among the edited names,
and not reserved for superusers.
-/
namespace FastapiTemplate.CeilingEdit

open Library.KeyedTable Library.Committing Library.BitMask Authoring

section Names

variable {names wanted : List String} {requested mask : ℕ}

/-- A mask of known names within the ceiling of other names. -/
theorem within_ceiling_iff (hrequested : maskFor names = .ok requested)
    (hmask : maskFor wanted = .ok mask) :
    Within mask (requested &&& tenantRoleMask) ↔
      ∀ n ∈ wanted, n ∈ names ∧ n ∉ superuserOnlyPermissions := by
  constructor
  · intro h n hn
    obtain ⟨b, hb⟩ := Registry.known_of_maskFor hmask n hn
    have hbit := h b ((Registry.testBit_maskFor hmask b).mpr ⟨n, hn, hb⟩)
    rw [Nat.testBit_and, Bool.and_eq_true] at hbit
    obtain ⟨m, hm, hmb⟩ := (Registry.testBit_maskFor hrequested b).mp hbit.1
    obtain ⟨k, hkb, hk⟩ := (testBit_tenantRoleMask b).mp hbit.2
    rw [lookup_injective hb hmb]
    refine ⟨hm, ?_⟩
    rw [lookup_injective hmb hkb]
    exact hk
  · intro h i hi
    obtain ⟨n, hn, hlookup⟩ := (Registry.testBit_maskFor hmask i).mp hi
    obtain ⟨hmem, hreserved⟩ := h n hn
    rw [Nat.testBit_and, Bool.and_eq_true]
    exact ⟨(Registry.testBit_maskFor hrequested i).mpr ⟨n, hmem, hlookup⟩,
      (testBit_tenantRoleMask i).mpr ⟨n, hlookup, hreserved⟩⟩

end Names

section Edited

variable {db db' : Db} {tenantId : Uuid} {actor : LoadedUser} {names : List String}
  {tenant : Tenant} {es : List Event} {root : Role}

/-- What a successful edit leaves: the stored ceiling, and the root role granting all of it. -/
structure Edited (db db' : Db) (tenantId : Uuid) (root : Role) (ceiling : ℕ) : Prop where
  catalogued : db'.toTables.Catalogued
  serial : db'.toTables.Serial
  superusers : db'.toTables.SuperusersGlobal
  tenant : (db'.tenants.get tenantId).map Tenant.allowedPermissionMask = some ceiling
  grantable : ∀ p, (root.id, p) ∈ db'.roleGrantablePermissions ↔ db'.toTables.OfCeiling ceiling p

theorem edited_of_run (hdb : Reachable db)
    (h : TenantService.updateTenantPermissions actor tenantId names db = (.ok tenant, db', es))
    (hroot : root ∈ db.roles.rows) (howner : root.tenantId = some tenantId)
    (hname : root.name = "tenant-admin") :
    ∃ requested, maskFor names = .ok requested ∧
      Edited db db' tenantId root (requested &&& tenantRoleMask) := by
  rcases updateTenantPermissions_run h with ⟨⟨e, he⟩, _⟩ |
    ⟨tenant₀, updated, requested, s, a, fs, _, htenant, hrequested, hs, hsync⟩
  · cases he
  refine ⟨requested, hrequested, ?_⟩
  have hcat : s.toTables.Catalogued := hdb.catalogued.of_eq (by rw [hs])
  have hserial : s.toTables.Serial := by
    rw [hs]
    exact ⟨hdb.serial.roles, hdb.serial.permissions⟩
  have hsuper : s.toTables.SuperusersGlobal := by
    rw [hs]
    exact hdb.superusersGlobal
  have hcommit :
      (Change.syncRootTenantRole tenantId (requested &&& tenantRoleMask)).Commits s db' fs :=
    ⟨a, hsync⟩
  obtain ⟨tokens, ht⟩ := Change.commits_apply hcommit
  have hserial' : db'.toTables.Serial := by
    rw [ht]
    exact ⟨(hserial.change _).roles, (hserial.change _).permissions⟩
  have htenants : db'.tenants = s.tenants := by
    rw [ht]
    simp only [Change.apply]
    split <;> rfl
  have hstored : (s.tenants.get tenantId).map Tenant.allowedPermissionMask =
      some (requested &&& tenantRoleMask) := by
    obtain rfl := Table.key_of_get htenant
    rw [hs, Table.get_update, htenant]
    simp
  have hclamp : requested &&& tenantRoleMask &&& tenantRoleMask = requested &&& tenantRoleMask := by
    rw [Nat.and_assoc, Nat.and_self]
  refine ⟨hcat.of_eq (Change.permissions_eq hcommit (fun _ _ => by simp)), hserial',
    hsuper.change hcommit (fun data hc => by cases hc), by rw [htenants]; exact hstored, ?_⟩
  rcases resync_of_commit hcat hsync with ⟨hnone, _⟩ | ⟨role, hfound, hexact, _⟩
  · rw [hs] at hnone
    exact absurd hname (getByName_eq_none hnone hroot howner)
  · rw [hs] at hfound
    obtain ⟨hget, hrname, hrowner⟩ := RoleRepository.getByName_eq_some hfound
    have hsame := db.role_name_unique (Table.mem_of_get hget) hroot (hrowner.trans howner.symm)
      (hrname.trans hname.symm)
    rw [hclamp, hsame] at hexact
    exact hexact.grantable

end Edited

section Holder

variable {db db' : Db} {tenantId : Uuid} {requested : ℕ} {root : Role} {user : User}

theorem mem_roleIds (hholds : (user.id, root.id) ∈ db'.userRoles) :
    root.id ∈ (db'.loadUser user).roleIds := by
  obtain ⟨row, hrow⟩ := Option.isSome_iff_exists.mp (db'.constraints.userRole _ hholds).2
  have hid : row.id = root.id := Table.key_of_get hrow
  rw [LoadedUser.roleIds, List.mem_map]
  refine ⟨db'.loadRole row, ?_, hid⟩
  change _ ∈ db'.toTables.rolesOf user.id
  rw [Tables.mem_rolesOf]
  exact ⟨row, Table.mem_of_get hrow, by rw [hid]; exact hholds, rfl⟩

/-- A holder of the root role may grant exactly the ceiling. -/
theorem Edited.allowedMask_eq (h : Edited db db' tenantId root (requested &&& tenantRoleMask))
    (htenant : user.tenantId = some tenantId) (hholds : (user.id, root.id) ∈ db'.userRoles) :
    allowedMask db'.toTables (db'.loadUser user) = requested &&& tenantRoleMask := by
  obtain ⟨tenant, hget, hceiling⟩ := Option.map_eq_some_iff.mp h.tenant
  have hloaded : (db'.loadUser user).tenant = some tenant := by
    change user.tenantId.bind db'.tenants.get = _
    rw [htenant, Option.bind_some, hget]
  rw [allowedMask, hloaded]
  simp only [hceiling]
  apply Nat.eq_of_testBit_eq
  intro i
  rw [Nat.testBit_and, Bool.eq_iff_iff, Bool.and_eq_true]
  constructor
  · exact And.right
  · intro hbit
    refine ⟨?_, hbit⟩
    have hbits := hbit
    rw [Nat.testBit_and, Bool.and_eq_true] at hbits
    obtain ⟨name, hlookup, _⟩ := (testBit_tenantRoleMask i).mp hbits.2
    obtain ⟨p, hp, _, hpbit⟩ := h.catalogued.row hlookup
    rw [Tables.testBit_getGrantablePermissionMask]
    exact ⟨root.id, mem_roleIds hholds, p.id, p, Table.get_of_mem hp,
      (h.grantable p.id).mpr ⟨p, Table.get_of_mem hp, i, hpbit, hbit⟩, hpbit⟩

theorem Edited.isSuperuser (h : Edited db db' tenantId root (requested &&& tenantRoleMask))
    (huser : user ∈ db'.users.rows) (htenant : user.tenantId = some tenantId) :
    user.isSuperuser = false :=
  h.superusers user huser (by rw [htenant]; simp)

/-- On a free name the schema accepts what a user of the tenant creates. -/
theorem Edited.creatable {name : String}
    (h : Edited db db' tenantId root (requested &&& tenantRoleMask))
    (huser : user ∈ db'.users.rows) (htenant : user.tenantId = some tenantId)
    (hname : RoleRepository.getByName db'.toTables name (some tenantId) = none) :
    Creatable db' name (db'.loadUser user) := by
  have hrole : roleTenant (db'.loadUser user) = some tenantId := by
    rw [roleTenant, if_neg (by
      rw [show (db'.loadUser user).isSuperuser = user.isSuperuser from rfl,
        h.isSuperuser huser htenant]
      simp)]
    exact htenant
  refine ⟨by rw [hrole]; exact hname, ?_, ?_, Or.inr ?_⟩
  · rw [Table.get_eq_none_iff]
    intro hmem
    obtain ⟨r, hr, hid⟩ := List.mem_map.mp hmem
    exact absurd hid (ne_of_lt (h.serial.roles.below r hr))
  · obtain ⟨tenant, hget, _⟩ := Option.map_eq_some_iff.mp h.tenant
    rw [hrole]
    change (db'.tenants.get tenantId).isSome = true
    rw [hget]
    rfl
  · intro r hr
    right
    obtain ⟨row, hrow, _, rfl⟩ := Tables.mem_rolesOf.mp hr
    change (db'.roles.get row.id).isSome = true
    rw [Table.get_of_mem hrow]
    rfl

end Holder

/-- What a holder of the root role may do after the edit: the allowed mask is
the ceiling, and a role on a free name is created when the names that its
request implies are of the edit and not reserved; otherwise the delegation
check refuses it. -/
structure Usable (db' : Db) (tenantId : Uuid) (names : List String) (ceiling : ℕ) (user : User) :
    Prop where
  allowed : RoleService.grantableMaskFor (db'.loadUser user) db' = (.ok ceiling, db', [])
  creates : ∀ name wanted, (∀ n ∈ wanted, (permissionRegistry.lookup n).isSome) →
    RoleRepository.getByName db'.toTables name (some tenantId) = none →
      ((RoleService.createRole ⟨name, wanted⟩ (db'.loadUser user) db').1.isOk = true ↔
        ∀ n ∈ expandImplied wanted, n ∈ names ∧ n ∉ superuserOnlyPermissions)
  refuses : ∀ name wanted, (∀ n ∈ wanted, (permissionRegistry.lookup n).isSome) →
    RoleRepository.getByName db'.toTables name (some tenantId) = none →
      ¬ (∀ n ∈ expandImplied wanted, n ∈ names ∧ n ∉ superuserOnlyPermissions) →
        RoleService.createRole ⟨name, wanted⟩ (db'.loadUser user) db' = (.error (.grantNotAllowed
          "Requested permissions exceed what you are allowed to grant"), db', [])

section Usable

variable {db db' : Db} {tenantId : Uuid} {actor : LoadedUser} {names : List String}
  {tenant : Tenant} {es : List Event} {root : Role} {user : User}

theorem Edited.usable {requested : ℕ}
    (h : Edited db db' tenantId root (requested &&& tenantRoleMask))
    (hrequested : maskFor names = .ok requested) (huser : user ∈ db'.users.rows)
    (htenant : user.tenantId = some tenantId) (hholds : (user.id, root.id) ∈ db'.userRoles) :
    Usable db' tenantId names (requested &&& tenantRoleMask) user := by
  have hallowed := h.allowedMask_eq htenant hholds
  have hsuper : (db'.loadUser user).isSuperuser = false := h.isSuperuser huser htenant
  have hcheck : ∀ {wanted : List String} {mask : ℕ}, maskFor (expandImplied wanted) = .ok mask →
      (MayGrant db'.toTables (db'.loadUser user) mask ↔
        ∀ n ∈ expandImplied wanted, n ∈ names ∧ n ∉ superuserOnlyPermissions) := by
    intro wanted mask hmask
    rw [MayGrant, hsuper, hallowed, andNot_eq_zero_iff, within_ceiling_iff hrequested hmask]
    simp
  have hmask : ∀ {wanted : List String}, (∀ n ∈ wanted, (permissionRegistry.lookup n).isSome) →
      ∃ mask, maskFor (expandImplied wanted) = .ok mask := by
    intro wanted hwanted
    exact exists_maskFor (fun n hn => lookup_isSome_of_implied (mem_expandImplied.mp hn) hwanted)
  refine ⟨?_, ?_, ?_⟩
  · rw [grantableMaskFor_apply, hallowed]
  · intro name wanted hwanted hname
    obtain ⟨mask, hmask⟩ := hmask hwanted
    have hcreatable := h.creatable huser htenant hname
    rw [← hcheck hmask]
    constructor
    · intro hok
      by_contra hnot
      rw [createRole_refused hcreatable.name hmask hnot] at hok
      cases hok
    · intro hgrant
      obtain ⟨db₁, role, row, hrun, _⟩ :=
        createRole_creatable h.catalogued hcreatable hmask hgrant
      rw [hrun]
      rfl
  · intro name wanted hwanted hname hnot
    obtain ⟨mask, hmask⟩ := hmask hwanted
    rw [← hcheck hmask] at hnot
    exact createRole_refused (h.creatable huser htenant hname).name hmask hnot

/-- A successful edit is usable at once by every holder of the root role. -/
theorem edit_usable (hdb : Reachable db)
    (hroot : root ∈ db.roles.rows) (howner : root.tenantId = some tenantId)
    (hname : root.name = "tenant-admin")
    (hedit : TenantService.updateTenantPermissions actor tenantId names db =
      (.ok tenant, db', es)) :
    ∃ requested, maskFor names = .ok requested ∧ ∀ user ∈ db'.users.rows,
      user.tenantId = some tenantId → (user.id, root.id) ∈ db'.userRoles →
        Usable db' tenantId names (requested &&& tenantRoleMask) user := by
  obtain ⟨requested, hrequested, hedited⟩ := edited_of_run hdb hedit hroot howner hname
  refine ⟨requested, hrequested, ?_⟩
  intro user huser htenant hholds
  exact hedited.usable hrequested huser htenant hholds

end Usable

/-! A superuser moves the ceiling of acme: the admin loses one name and wins
another one, with what it implies outside of the ceiling. -/

def moved : Except Err Tenant × Db × List Event :=
  TenantService.updateTenantPermissions Bootstrap.rootActor 10 ["role:create", "role:update"] acme

def movedBoss : User := { boss with permVersion := 3 }

def acmeRoot : Role := ⟨1, "tenant-admin", some 10, 7⟩

theorem moved_boss : acmeRoot ∈ acme.roles.rows ∧ moved.1 = .ok ⟨10, "acme", true, 9⟩ ∧
    movedBoss ∈ moved.2.1.users.rows ∧ (movedBoss.id, acmeRoot.id) ∈ moved.2.1.userRoles := by
  decide +kernel

theorem edit_usable_acme : ∃ requested, maskFor ["role:create", "role:update"] = .ok requested ∧
    Usable moved.2.1 10 ["role:create", "role:update"] (requested &&& tenantRoleMask)
      movedBoss := by
  have hfacts := moved_boss
  have hedit : moved = (.ok ⟨10, "acme", true, 9⟩, moved.2.1, moved.2.2) := by
    rw [← hfacts.2.1]
  -- the facts are all that is used of the state after the edit
  generalize moved.2.1 = after at hfacts hedit ⊢
  obtain ⟨hroot, _, hboss, hholds⟩ := hfacts
  obtain ⟨requested, hrequested, husable⟩ := edit_usable acme_reachable hroot rfl rfl hedit
  exact ⟨requested, hrequested, husable movedBoss hboss rfl hholds⟩

end FastapiTemplate.CeilingEdit
