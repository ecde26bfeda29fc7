import FastapiTemplate.AccountRuns
import FastapiTemplate.Bootstrap
import FastapiTemplate.Ceiling
import FastapiTemplate.Library.Delegation
import FastapiTemplate.Mediation
import FastapiTemplate.RoleMembership

/-!
What users who are no superusers get by working together. The delegation rows
make a web of roles; what the members of a coalition can be handed is reached
along its links from the roles that they hold. No call of theirs spreads any
other permission, to themselves or to anybody else, and each permission that is
reached can be taken. The same holds of the whole program when only they come
with access tokens, and so for the tokens that it hands out meanwhile.
-/
namespace FastapiTemplate

open Library.KeyedTable Library.Committing Library.BitMask Library.Delegation RoleService

/-- The roles of the tables and their delegation rows. -/
def Tables.web (t : Tables) : Web RoleId ℕ where
  carries roleId i := ∃ role, t.roles.get roleId = some role ∧ role.permissionMask.testBit i = true
  mayGrant roleId grantable := (roleId, grantable) ∈ t.roleGrantableRoles
  lends roleId i := ∃ permissionId p, t.permissions.get permissionId = some p ∧
    (roleId, permissionId) ∈ t.roleGrantablePermissions ∧ permissionRegistry.lookup p.name = some i

/-- The bits that the members can be handed by one another. -/
def Tables.Conferrable (t : Tables) (members : Set Uuid) (i : ℕ) : Prop :=
  ∃ userId ∈ members, ∃ held, (userId, held) ∈ t.userRoles ∧
    ∃ roleId, t.web.Reaches held roleId ∧ t.web.HandsOut roleId i

/-- The user is there and has bit `i` in their mask. -/
def Tables.HasBit (t : Tables) (userId : Uuid) (i : ℕ) : Prop :=
  ∃ user, t.users.get userId = some user ∧
    (effectivePermissionMask (t.loadUser user)).testBit i = true

/-- The permission carries only bits of `confer`. -/
def Permission.BitIn (confer : ℕ → Prop) (p : Permission) : Prop :=
  ∀ i, permissionRegistry.lookup p.name = some i → confer i

theorem Db.hasBit_iff {db : Db} {userId : Uuid} {i : ℕ} :
    db.toTables.HasBit userId i ↔
      db.toTables.RoleBit userId i ∨ db.toTables.DirectBit userId i := by
  constructor
  · rintro ⟨user, huser, hbit⟩
    obtain rfl := Table.key_of_get huser
    exact Tables.testBit_maskOf.mp hbit
  · intro hbit
    have hsome : (db.users.get userId).isSome := by
      rcases hbit with ⟨_, _, _, hheld, _⟩ | ⟨_, _, _, hheld, _⟩
      · exact (db.constraints.userRole _ hheld).1
      · exact (db.constraints.userPermission _ hheld).1
    obtain ⟨user, huser⟩ := Option.isSome_iff_exists.mp hsome
    obtain rfl := Table.key_of_get huser
    exact ⟨user, huser, Tables.testBit_maskOf.mpr hbit⟩

/-! ### One change -/

/-- What a change hands out is in `confer`. -/
def Change.Backed (confer : ℕ → Prop) (t : Tables) : Change → Prop
  | createRole _ _ _ mask => ∀ i, mask.testBit i = true → confer i
  | addPermission _ permission => permission.BitIn confer
  | addGrantableRole _ grantableRoleId => t.web.Tame confer grantableRoleId
  | addGrantablePermission _ permissionId =>
    ∀ p, t.permissions.get permissionId = some p → p.BitIn confer
  | assignToUser roleId _ => t.web.Tame confer roleId
  | grantPermission _ permission => permission.BitIn confer
  | createRootTenantRole _ _ => False
  | syncRootTenantRole _ _ => False
  | createWithBit _ _ => False
  | _ => True

/-- One commit that hands out bits of `confer` only. -/
def BackedStep (confer : ℕ → Prop) (db db' : Db) (_ : List Event) : Prop :=
  ∃ (c : Change) (es : List Event), c.Current db.toTables ∧ c.Backed confer db.toTables ∧
    c.Commits db db' es

/-- What users get from a change is in `confer`. -/
structure Confers (confer : ℕ → Prop) (t t' : Tables) : Prop where
  permissions : t'.permissions = t.permissions
  spreads : Web.Spreads confer t.web t'.web
  held : ∀ userId roleId, (userId, roleId) ∈ t'.userRoles →
    (userId, roleId) ∈ t.userRoles ∨ t.web.Tame confer roleId
  direct : ∀ userId permissionId, (userId, permissionId) ∈ t'.userPermissions →
    (userId, permissionId) ∈ t.userPermissions ∨
      ∀ p, t.permissions.get permissionId = some p → p.BitIn confer

section Confers

variable {confer : ℕ → Prop} {t t' : Tables}

/-- The rows of the roles may change by bits of `confer`; the links come from
the old tables or are named. -/
theorem Confers.of_rows (hpermissions : t'.permissions = t.permissions)
    (hroles : ∀ roleId role' i, t'.roles.get roleId = some role' →
      role'.permissionMask.testBit i = true → t.web.carries roleId i ∨ confer i)
    (hgrantableRole : ∀ x ∈ t'.roleGrantableRoles,
      x ∈ t.roleGrantableRoles ∨ t.web.Tame confer x.2)
    (hgrantablePermission : ∀ x ∈ t'.roleGrantablePermissions, x ∈ t.roleGrantablePermissions ∨
      ∀ p, t.permissions.get x.2 = some p → p.BitIn confer)
    (hheld : ∀ x ∈ t'.userRoles, x ∈ t.userRoles ∨ t.web.Tame confer x.2)
    (hdirect : ∀ x ∈ t'.userPermissions, x ∈ t.userPermissions ∨
      ∀ p, t.permissions.get x.2 = some p → p.BitIn confer) : Confers confer t t' where
  permissions := hpermissions
  spreads := {
    carries := by
      rintro roleId i ⟨role', hrole', hbit⟩
      exact hroles roleId role' i hrole' hbit
    mayGrant := fun roleId g hlink => hgrantableRole (roleId, g) hlink
    lends := by
      rintro roleId i ⟨permissionId, p, hp, hlink, hbit⟩
      rw [hpermissions] at hp
      rcases hgrantablePermission _ hlink with hold | hnew
      · exact Or.inl ⟨permissionId, p, hp, hold, hbit⟩
      · exact Or.inr (hnew p hp i hbit) }
  held := fun userId roleId hx => hheld (userId, roleId) hx
  direct := fun userId permissionId hx => hdirect (userId, permissionId) hx

theorem carries_of_get {roleId : RoleId} {role : Role} {i : ℕ}
    (hrole : t.roles.get roleId = some role) (hbit : role.permissionMask.testBit i = true) :
    t.web.carries roleId i :=
  ⟨role, hrole, hbit⟩

/-- The masks of the roles are updated with bits of `confer`. -/
theorem carries_of_update {p : Role → Bool} {f : Role → Role} {hf : ∀ r, (f r).id = r.id}
    (hmask : ∀ r i, t.roles.get r.id = some r → p r = true →
      (f r).permissionMask.testBit i = true → t.web.carries r.id i ∨ confer i)
    {roleId : RoleId} {role' : Role} {i : ℕ}
    (hrole' : (t.roles.update p f hf).get roleId = some role')
    (hbit : role'.permissionMask.testBit i = true) : t.web.carries roleId i ∨ confer i := by
  rw [Table.get_update] at hrole'
  obtain ⟨role, hrole, rfl⟩ := Option.map_eq_some_iff.mp hrole'
  obtain rfl := Table.key_of_get hrole
  split at hbit
  · rename_i hp
    exact hmask role i hrole hp hbit
  · exact Or.inl (carries_of_get hrole hbit)

/-- The mask of one role is replaced by bits that it had or of `confer`. -/
theorem carries_of_setMask {role : Role} {mask : ℕ} (hrole : t.roles.get role.id = some role)
    (hmask : ∀ i, mask.testBit i = true → role.permissionMask.testBit i = true ∨ confer i)
    {roleId : RoleId} {role' : Role} {i : ℕ}
    (hrole' : (t.roles.update (fun r => r.id = role.id)
      (fun r => { r with permissionMask := mask }) (Role.id_setMask mask)).get roleId =
        some role')
    (hbit : role'.permissionMask.testBit i = true) : t.web.carries roleId i ∨ confer i := by
  refine carries_of_update ?_ hrole' hbit
  intro r i _ hp hset
  have hid : r.id = role.id := of_decide_eq_true hp
  rcases hmask i hset with hold | hnew
  · rw [hid]
    exact Or.inl (carries_of_get hrole hold)
  · exact Or.inr hnew

end Confers

/-- The links after an insertion are the old ones and the new one. -/
theorem mem_or_of_insert {α : Type} [DecidableEq α] {links : Finset α} {y : α} {P : α → Prop}
    (hnew : P y) : ∀ x ∈ insert y links, x ∈ links ∨ P x := by
  intro x hx
  rcases Finset.mem_insert.mp hx with rfl | hold
  · exact Or.inr hnew
  · exact Or.inl hold

/-- A change that adds no link and no bit. -/
theorem Confers.of_subset {confer : ℕ → Prop} {t t' : Tables}
    (hpermissions : t'.permissions = t.permissions)
    (hroles : ∀ roleId role' i, t'.roles.get roleId = some role' →
      role'.permissionMask.testBit i = true → t.web.carries roleId i)
    (hgrantableRole : t'.roleGrantableRoles ⊆ t.roleGrantableRoles)
    (hgrantablePermission : t'.roleGrantablePermissions ⊆ t.roleGrantablePermissions)
    (hheld : t'.userRoles ⊆ t.userRoles) (hdirect : t'.userPermissions ⊆ t.userPermissions) :
    Confers confer t t' :=
  .of_rows hpermissions (fun roleId role' i h hbit => Or.inl (hroles roleId role' i h hbit))
    (fun _ hx => Or.inl (hgrantableRole hx)) (fun _ hx => Or.inl (hgrantablePermission hx))
    (fun _ hx => Or.inl (hheld hx)) (fun _ hx => Or.inl (hdirect hx))

theorem carries_of_rename {t : Tables} {p : Role → Bool} {f : Role → Role}
    {hf : ∀ r, (f r).id = r.id} (hmask : ∀ r i, t.roles.get r.id = some r → p r = true →
      (f r).permissionMask.testBit i = true → r.permissionMask.testBit i = true)
    {roleId : RoleId} {role' : Role} {i : ℕ}
    (hrole' : (t.roles.update p f hf).get roleId = some role')
    (hbit : role'.permissionMask.testBit i = true) : t.web.carries roleId i := by
  have hkept : ∀ r j, t.roles.get r.id = some r → p r = true →
      (f r).permissionMask.testBit j = true → t.web.carries r.id j ∨ False :=
    fun r j hr hp h => Or.inl (carries_of_get hr (hmask r j hr hp h))
  exact (@carries_of_update (fun _ => False) t p f hf hkept roleId role' i hrole' hbit).resolve_right
    id

/-- A commit whose change is backed hands out nothing else. -/
theorem Change.confers {confer : ℕ → Prop} {c : Change} {db db' : Db} {es : List Event}
    (hcat : db.toTables.Catalogued) (hcur : c.Current db.toTables)
    (hbacked : c.Backed confer db.toTables) (hcommit : c.Commits db db' es) :
    Confers confer db.toTables db'.toTables := by
  obtain ⟨tokens, ht⟩ := Change.commits_apply hcommit
  rw [ht]
  have hsame : ∀ roleId role' i, db.roles.get roleId = some role' →
      role'.permissionMask.testBit i = true → db.toTables.web.carries roleId i :=
    fun _ _ _ hrole hbit => carries_of_get hrole hbit
  have hsub {α : Type} (s : Finset α) : s ⊆ s := Finset.Subset.refl s
  cases c with
  | createRole name tenantId permissions mask =>
    refine .of_rows rfl ?_ (fun _ hx => Or.inl hx) (fun _ hx => Or.inl hx) (fun _ hx => Or.inl hx)
      (fun _ hx => Or.inl hx)
    intro roleId role' i hrole' hbit
    rcases Table.mem_insertD (Table.mem_of_get hrole') with hold | rfl
    · obtain rfl := Table.key_of_get hrole'
      exact Or.inl (carries_of_get (Table.get_of_mem hold) hbit)
    · exact Or.inr (hbacked i hbit)
  | updateRole role data =>
    refine .of_subset rfl ?_ (hsub _) (hsub _) (hsub _) (hsub _)
    intro roleId role' i hrole' hbit
    change (db.roles.update _ _ (Role.id_setName data.name)).get roleId = some role' at hrole'
    refine carries_of_rename ?_ hrole' hbit
    exact fun _ _ _ _ h => h
  | deleteRole role =>
    refine .of_subset rfl ?_ (Finset.filter_subset _ _) (Finset.filter_subset _ _)
      (Finset.filter_subset _ _) (hsub _)
    intro roleId role' i hrole' hbit
    change (db.roles.delete _).get roleId = some role' at hrole'
    rw [Table.get_delete] at hrole'
    exact carries_of_get (Option.filter_eq_some_iff.mp hrole').1 hbit
  | assignToUser roleId userId =>
    exact .of_rows rfl (fun roleId role' i h hbit => Or.inl (hsame roleId role' i h hbit))
      (fun _ hx => Or.inl hx) (fun _ hx => Or.inl hx) (mem_or_of_insert hbacked)
      (fun _ hx => Or.inl hx)
  | removeFromUser roleId userId =>
    exact .of_subset rfl hsame (hsub _) (hsub _) (Finset.erase_subset _ _) (hsub _)
  | addPermission role permission =>
    refine .of_rows rfl ?_ (fun _ hx => Or.inl hx) (fun _ hx => Or.inl hx) (fun _ hx => Or.inl hx)
      (fun _ hx => Or.inl hx)
    intro roleId role' i hrole' hbit
    change (db.roles.update _ _ (Role.id_setMask _)).get roleId = some role' at hrole'
    refine carries_of_setMask (RoleRepository.getById_eq_some hcur.1).1 ?_ hrole' hbit
    intro i hset
    refine (testBit_maskWith.mp hset).imp_right ?_
    intro hnew
    refine hbacked i ?_
    rw [← (hcat.known permission (Table.mem_of_get hcur.2)).2]
    exact hnew
  | removePermission role permission =>
    refine .of_rows rfl ?_ (fun _ hx => Or.inl hx) (fun _ hx => Or.inl hx) (fun _ hx => Or.inl hx)
      (fun _ hx => Or.inl hx)
    intro roleId role' i hrole' hbit
    change (db.roles.update _ _ (Role.id_setMask _)).get roleId = some role' at hrole'
    exact carries_of_setMask (RoleRepository.getById_eq_some hcur.1).1
      (fun i hset => Or.inl (testBit_maskWithout.mp hset).1) hrole' hbit
  | addGrantableRole roleId grantableRoleId =>
    exact .of_rows rfl (fun roleId role' i h hbit => Or.inl (hsame roleId role' i h hbit))
      (mem_or_of_insert hbacked) (fun _ hx => Or.inl hx) (fun _ hx => Or.inl hx)
      (fun _ hx => Or.inl hx)
  | removeGrantableRole roleId grantableRoleId =>
    exact .of_subset rfl hsame (Finset.erase_subset _ _) (hsub _) (hsub _) (hsub _)
  | addGrantablePermission roleId permissionId =>
    exact .of_rows rfl (fun roleId role' i h hbit => Or.inl (hsame roleId role' i h hbit))
      (fun _ hx => Or.inl hx) (mem_or_of_insert hbacked) (fun _ hx => Or.inl hx)
      (fun _ hx => Or.inl hx)
  | removeGrantablePermission roleId permissionId =>
    exact .of_subset rfl hsame (hsub _) (Finset.erase_subset _ _) (hsub _) (hsub _)
  | grantPermission user permission =>
    refine .of_rows rfl (fun roleId role' i h hbit => Or.inl (hsame roleId role' i h hbit))
      (fun _ hx => Or.inl hx) (fun _ hx => Or.inl hx) (fun _ hx => Or.inl hx)
      (mem_or_of_insert ?_)
    intro p hp
    obtain rfl := Option.some.inj (hcur.2.symm.trans hp)
    exact hbacked
  | revokePermission user permission =>
    exact .of_subset rfl hsame (hsub _) (hsub _) (hsub _) (Finset.erase_subset _ _)
  | createRootTenantRole tenantId allowed => exact hbacked.elim
  | syncRootTenantRole tenantId allowed => exact hbacked.elim
  | createWithBit name bitPosition => exact hbacked.elim
  | _ => exact .of_subset rfl hsame (hsub _) (hsub _) (hsub _) (hsub _)

/-! ### The invariant -/

/-- The members hold safe roles, and whatever bit anybody has is one that they
had or one of `confer`. -/
structure Bounded (members : Set Uuid) (confer : ℕ → Prop) (had : Uuid → ℕ → Prop)
    (t : Tables) : Prop where
  catalogued : t.Catalogued
  safe : ∀ userId ∈ members, ∀ roleId, (userId, roleId) ∈ t.userRoles → t.web.Safe confer roleId
  bits : ∀ userId i, t.RoleBit userId i ∨ t.DirectBit userId i → had userId i ∨ confer i

section Bounded

variable {members : Set Uuid} {confer : ℕ → Prop} {had : Uuid → ℕ → Prop} {t t' : Tables}

theorem bounded_conferrable (hcat : t.Catalogued) : Bounded members (t.Conferrable members)
    (fun userId i => t.RoleBit userId i ∨ t.DirectBit userId i) t where
  catalogued := hcat
  safe := fun userId hmember held hheld g hreach _ hi =>
    ⟨userId, hmember, held, hheld, g, hreach, hi⟩
  bits := fun _ _ hbit => Or.inl hbit

theorem Bounded.step (h : Bounded members confer had t) (hstep : Confers confer t t') :
    Bounded members confer had t' where
  catalogued := h.catalogued.of_eq hstep.permissions
  safe := by
    intro userId hmember roleId hheld
    rcases hstep.held userId roleId hheld with hold | htame
    · exact hstep.spreads.safe (h.safe userId hmember roleId hold)
    · exact hstep.spreads.safe htame.safe
  bits := by
    rintro userId i (⟨roleId, role', hrole', hheld, hbit⟩ | ⟨permissionId, p, hp, hheld, hbit⟩)
    · rcases hstep.spreads.carries roleId i ⟨role', hrole', hbit⟩ with ⟨role, hrole, hold⟩ | hnew
      · rcases hstep.held userId roleId hheld with hbefore | htame
        · exact h.bits userId i (Or.inl ⟨roleId, role, hrole, hbefore, hold⟩)
        · exact Or.inr (htame.carries i ⟨role, hrole, hold⟩)
      · exact Or.inr hnew
    · rw [hstep.permissions] at hp
      rcases hstep.direct userId permissionId hheld with hbefore | hnew
      · exact h.bits userId i (Or.inr ⟨permissionId, p, hp, hbefore, hbit⟩)
      · exact Or.inr (hnew p hp i hbit)

theorem Bounded.path {db db' : Db} {es : List Event} (h : Bounded members confer had db.toTables)
    (hpath : Path (BackedStep confer) db db' es) : Bounded members confer had db'.toTables := by
  refine hpath.invariant (I := fun s => Bounded members confer had s.toTables) ?_ h
  rintro s s' _ ⟨c, es, hcur, hbacked, hcommit⟩ hs
  exact hs.step (c.confers hs.catalogued hcur hbacked hcommit)

/-! ### What a member may hand out -/

variable {actor : User}

theorem Bounded.delegatesRole (h : Bounded members confer had t) (hmember : actor.id ∈ members)
    {roleId : RoleId} (hdelegates : t.DelegatesRole actor.id roleId) :
    t.web.Tame confer roleId := by
  obtain ⟨held, hheld, hlink⟩ := hdelegates
  exact (h.safe actor.id hmember held hheld).grants hlink

theorem Bounded.delegatesPermission (h : Bounded members confer had t)
    (hmember : actor.id ∈ members) {permissionId : PermissionId}
    (hdelegates : t.DelegatesPermission actor.id permissionId) {p : Permission}
    (hp : t.permissions.get permissionId = some p) : p.BitIn confer := by
  obtain ⟨held, hheld, hlink⟩ := hdelegates
  intro i hbit
  exact (h.safe actor.id hmember held hheld).lends ⟨permissionId, p, hp, hlink, hbit⟩

theorem Bounded.grantableMask {user : LoadedUser} (h : Bounded members confer had t)
    (hmember : user.id ∈ members) (hloaded : t.Loaded user) (i : ℕ)
    (hbit : (RoleRepository.getGrantablePermissionMask t user.roleIds).testBit i = true) :
    confer i := by
  obtain ⟨held, hheld, permissionId, p, hp, hlink, hi⟩ :=
    Tables.testBit_getGrantablePermissionMask.mp hbit
  rw [(h.catalogued.known p (Table.mem_of_get hp)).2] at hi
  exact (h.safe user.id hmember held (hloaded.held hheld)).lends ⟨permissionId, p, hp, hlink, hi⟩

/-- But for the calls that are gated by the mask, and the ones that link roles,
what the checks of the services establish is enough. -/
theorem Bounded.backed {c : Change} {call : Call} (h : Bounded members confer had t)
    (hmember : actor.id ∈ members) (hperforms : call.Performs c) (hcur : c.Current t)
    (hauth : c.Authorized actor t) (hrole : ∀ role, call ≠ .createRole role)
    (hpermission : ∀ roleId permissionId, call ≠ .addPermissionToRole roleId permissionId)
    (hlink : ∀ roleId grantableRoleId, call ≠ .addGrantableRole roleId grantableRoleId) :
    c.Backed confer t := by
  cases c with
  | createRole | addPermission | addGrantableRole =>
    cases call with
    | createRole role => exact absurd rfl (hrole role)
    | addPermissionToRole roleId permissionId => exact absurd rfl (hpermission roleId permissionId)
    | addGrantableRole roleId grantableRoleId => exact absurd rfl (hlink roleId grantableRoleId)
    | _ => exact hperforms.elim
  | assignToUser roleId userId => exact h.delegatesRole hmember hauth.1
  | grantPermission user permission => exact h.delegatesPermission hmember hauth.1 hcur.2
  | addGrantablePermission roleId permissionId =>
    exact fun p hp => h.delegatesPermission hmember hauth hp
  | createRootTenantRole => exact hauth.elim
  | syncRootTenantRole => exact hauth.elim
  | createWithBit => exact hauth.elim
  | _ => trivial

end Bounded

/-! ### The calls -/

section Calls

variable {members : Set Uuid} {confer : ℕ → Prop} {had : Uuid → ℕ → Prop} {db : Db}
  {actor : LoadedUser}

theorem does_backed {α : Type} {body : Tx α} {Q : α → Db → Prop} (c : Change)
    (hbody : c.Commits = Commits body) (hcat : db.toTables.Catalogued)
    (hcur : c.Current db.toTables) (hbacked : c.Backed confer db.toTables)
    (hpost : ∀ a db' es, body db.toTables = .ok (a, db'.toTables, es) →
      Confers confer db.toTables db'.toTables → Q a db') :
    Does (BackedStep confer) (transaction body) db Q := by
  refine does_transaction ?_
  intro a db' es hcommit
  have hcommits : c.Commits db db' es := by
    rw [hbody]
    exact ⟨a, hcommit⟩
  exact ⟨⟨c, es, hcur, hbacked, hcommits⟩,
    hpost a db' es hcommit (c.confers hcat hcur hbacked hcommits)⟩

/-- The ceiling only cuts the mask of what the actor may hand out. -/
theorem does_grantableMask {β : Type} {S : Db → Db → List Event → Prop} {f : ℕ → Service β}
    {Q : β → Db → Prop} (hbits : ∀ i, (RoleRepository.getGrantablePermissionMask db.toTables
      actor.roleIds).testBit i = true → confer i)
    (h : ∀ mask, (∀ i, mask.testBit i = true → confer i) → Does S (f mask) db Q) :
    Does S (grantableMaskFor actor >>= f) db Q := by
  have hmask : Does S (grantableMaskFor actor) db (fun mask db' => db' = db ∧
      ∀ i, mask.testBit i = true → confer i) := by
    unfold grantableMaskFor
    refine does_query ?_
    split
    · exact Does.pure ⟨rfl, hbits⟩
    · refine Does.pure ⟨rfl, ?_⟩
      intro i hi
      rw [Nat.testBit_and, Bool.and_eq_true] at hi
      exact hbits i hi.1
  refine Does.bind hmask ?_
  rintro mask _ ⟨rfl, hconfer⟩
  exact h mask hconfer

/-- The new role carries what its author may hand out, and nothing is linked to
it when its author's roles are. -/
theorem tame_of_create {name : String} {tenantId : Option Uuid} {permissions : List Permission}
    {mask : ℕ} {newRole : LoadedRole} {db' : Db} {es : List Event}
    (hmask : ∀ i, mask.testBit i = true → confer i)
    (hcommit : RoleRepository.createTx name tenantId permissions mask db.toTables =
      .ok (newRole, db'.toTables, es)) : db'.toTables.web.Tame confer newRole.id := by
  obtain ⟨roles, hinsert, ht, rfl, _⟩ := RoleRepository.createTx_eq_ok hcommit
  have hfresh : ¬ (db.roles.get db.rolesIdSeq).isSome = true := by
    rw [show db.roles.get db.rolesIdSeq = none from (Table.insert?_eq_some hinsert).1]
    exact Bool.false_ne_true
  refine ⟨?_, Web.safe_of_unlinked ?_ ?_⟩
  · rintro i ⟨role, hrole, hbit⟩
    rw [ht] at hrole
    obtain rfl := Option.some.inj (hrole.symm.trans (Table.get_insert?_self hinsert))
    exact hmask i hbit
  · intro g hlink
    rw [ht] at hlink
    exact hfresh (db.constraints.grantableRole _ hlink).1
  · rintro i ⟨permissionId, p, _, hlink, _⟩
    rw [ht] at hlink
    exact hfresh (db.constraints.grantablePermission _ hlink).1

theorem does_createRole_backed {role : RoleCreate} (hactor : db.toTables.Loaded actor)
    (hsuper : actor.isSuperuser = false) (hmember : actor.id ∈ members)
    (h : Bounded members confer had db.toTables) :
    Does (BackedStep confer) (RoleService.createRole role actor) db (fun _ _ => True) := by
  refine does_query (Does.ensure_bind ?_)
  intro _
  refine Does.ofExcept_bind ?_
  intro requested hrequested
  refine does_check (P := ∀ i, requested.testBit i = true → confer i) ?_ ?_
  · refine does_grantableMask (h.grantableMask hmember hactor) ?_
    intro allowed hallowed
    refine Does.ensure ?_
    intro hwithin
    exact ⟨rfl, fun i hi => hallowed i ((andNot_eq_zero_iff _ _).mp hwithin i hi)⟩
  intro hconfer
  have hconfer := hconfer hsuper
  refine does_query ?_
  refine Does.bind (Q := fun newRole s => Bounded members confer had s.toTables ∧
    s.toTables.web.Tame confer newRole.id) ?_ ?_
  · refine does_backed (.createRole role.name _ _ requested) rfl h.catalogued
      ⟨_, hrequested, rfl⟩ hconfer ?_
    intro newRole s es hcommit hconfers
    exact ⟨h.step hconfers, tame_of_create hconfer hcommit⟩
  rintro newRole s hs
  refine Does.bind (Q := fun _ _ => True) ?_ (fun _ _ _ => Does.pure trivial)
  refine Does.ite (fun _ => Does.pure trivial) ?_
  intro _
  refine Does.weaken (Does.forM (I := fun s => Bounded members confer had s.toTables ∧
    s.toTables.web.Tame confer newRole.id) hs ?_) (fun _ _ _ => trivial)
  rintro s actorRole _ ⟨hbounded, htame⟩
  refine does_query (Does.ite (fun _ => Does.pure ⟨hbounded, htame⟩) ?_)
  intro _
  refine does_backed (.addGrantableRole actorRole.id newRole.id) rfl hbounded.catalogued trivial
    htame ?_
  intro _ s' es _ hconfers
  exact ⟨hbounded.step hconfers, hconfers.spreads.tame htame⟩

/-- The checked mask covers the permission and all that it implies. -/
theorem does_addPermissionToRole_backed {roleId : RoleId} {permissionId : PermissionId}
    (hactor : db.toTables.Loaded actor) (hsuper : actor.isSuperuser = false)
    (hmember : actor.id ∈ members) (h : Bounded members confer had db.toTables) :
    Does (BackedStep confer) (RoleService.addPermissionToRole roleId permissionId actor) db
      (fun _ _ => True) := by
  refine does_getRole ?_
  intro role hrole _
  obtain rfl := RoleRepository.getById_id hrole
  refine does_query (Does.require_bind ?_)
  intro perm hperm
  refine Does.ensure_bind ?_
  intro _
  have hid : perm.id = permissionId := Table.key_of_get hperm
  refine does_check (P := ∀ p : Permission, p.name ∈ perm.name :: impliedNames role perm →
    p.BitIn confer) ?_ ?_
  · refine does_grantableMask (h.grantableMask hmember hactor) ?_
    intro allowed hallowed
    refine Does.ofExcept_bind ?_
    intro mask hmask
    refine Does.ensure ?_
    intro hwithin
    refine ⟨rfl, ?_⟩
    intro p hp i hi
    have hbit := (Registry.testBit_maskFor hmask i).mpr ⟨p.name, hp, hi⟩
    exact hallowed i ((andNot_eq_zero_iff _ _).mp hwithin i hbit)
  intro hconfer
  have hconfer := hconfer hsuper
  refine does_query ?_
  refine Does.bind (Q := fun role' s => Bounded members confer had s.toTables ∧
    AddingTo db role role' s) ?_ ?_
  · refine does_backed (.addPermission role perm) rfl h.catalogued
      ⟨hrole, by rw [hid]; exact hperm⟩ (hconfer perm (by simp)) ?_
    intro role' s es hcommit hconfers
    exact ⟨h.step hconfers, addingTo_of_addPermission ⟨hrole, rfl, rfl, rfl⟩ hcommit⟩
  intro added s hs
  refine Does.weaken (Does.foldlM (I := fun role' s => Bounded members confer had s.toTables ∧
    AddingTo db role role' s) hs ?_) (fun _ _ _ => trivial)
  rintro role' s p hp ⟨hbounded, hadding⟩
  obtain ⟨hmem, hname⟩ : p ∈ db.permissions.rows ∧ p.name ∈ impliedNames role perm := by
    simpa [PermissionRepository.getByNames] using hp
  have hget : RoleRepository.getById s.toTables role.id = some role' := hadding.1
  have hpermissions : s.permissions = db.permissions := hadding.2.2.1
  have hid' : role'.id = role.id := RoleRepository.getById_id hget
  refine does_backed (.addPermission role' p) rfl hbounded.catalogued
    ⟨by rw [hid']; exact hget, ?_⟩ (hconfer p (by simp [hname])) ?_
  · rw [hpermissions]
    exact Table.get_of_mem hmem
  · intro role'' s' es hcommit hconfers
    exact ⟨hbounded.step hconfers, addingTo_of_addPermission hadding hcommit⟩

theorem does_addGrantableRole_backed {roleId grantableRoleId : RoleId}
    (hactor : db.toTables.Loaded actor) (hsuper : actor.isSuperuser = false)
    (hmember : actor.id ∈ members) (h : Bounded members confer had db.toTables) :
    Does (BackedStep confer) (RoleService.addGrantableRole roleId grantableRoleId actor) db
      (fun _ _ => True) := by
  refine does_getRole ?_
  intro _ _ _
  refine does_query (Does.require_bind ?_)
  intro _ _
  refine does_check (does_query (Does.ensure (fun hallowed => ⟨rfl, hallowed⟩))) ?_
  intro hallowed
  refine does_query (Does.ensure_bind ?_)
  intro _
  have htame : db.toTables.web.Tame confer grantableRoleId :=
    h.delegatesRole hmember (hactor.delegatesRole (hallowed hsuper))
  exact does_backed (.addGrantableRole roleId grantableRoleId) rfl h.catalogued trivial htame
    (fun _ _ _ _ _ => trivial)

end Calls

/-! ### Requests -/

section Requests

variable {getPasswordHash : String → Except Err String} {members : Set Uuid} {confer : ℕ → Prop}
  {had : Uuid → ℕ → Prop} {db : Db} {actor : User}

/-- Whatever a member asks for, nothing but bits of `confer` is handed out. -/
theorem Bounded.request (h : Bounded members confer had db.toTables)
    (hactor : db.users.get actor.id = some actor) (hsuper : actor.isSuperuser = false)
    (hmember : actor.id ∈ members) (call : Call) :
    Bounded members confer had
      (FastapiTemplate.request getPasswordHash actor.id call db).2.1.toTables := by
  have hbacked (hrun : db.toTables.Loaded (db.toTables.loadUser actor) →
      Does (BackedStep confer) (call.run getPasswordHash (db.toTables.loadUser actor)) db
        (fun _ _ => True)) :
      Bounded members confer had
        (FastapiTemplate.request getPasswordHash actor.id call db).2.1.toTables :=
    h.path (does_request_of hactor hrun).1
  cases call with
  | createRole role =>
    exact hbacked (fun hloaded => does_discard (does_createRole_backed hloaded hsuper hmember h))
  | addPermissionToRole roleId permissionId =>
    exact hbacked
      (fun hloaded => does_discard (does_addPermissionToRole_backed hloaded hsuper hmember h))
  | addGrantableRole roleId grantableRoleId =>
    exact hbacked (fun hloaded => does_addGrantableRole_backed hloaded hsuper hmember h)
  | _ =>
    refine (path_of_request hactor rfl).invariant
      (I := fun s => Bounded members confer had s.toTables) ?_ h
    rintro s s' es ⟨c, hperforms, hcur, hauth, hcommit⟩ hs
    have hback := hs.backed hmember hperforms hcur (hauth hsuper) (fun _ h => by cases h)
      (fun _ _ h => by cases h) (fun _ _ h => by cases h)
    exact hs.step (c.confers hs.catalogued hcur hback hcommit)

end Requests

/-! ### What can be taken -/

section Taken

variable (getPasswordHash : String → Except Err String) {db : Db} {user : User}

theorem mem_roleIds {roleId : RoleId} (hheld : (user.id, roleId) ∈ db.userRoles) :
    roleId ∈ (db.toTables.loadUser user).roleIds := by
  obtain ⟨role, hrole⟩ := Option.isSome_iff_exists.mp (db.constraints.userRole _ hheld).2
  obtain rfl := Table.key_of_get hrole
  exact List.mem_map.mpr ⟨db.toTables.loadRole role,
    Tables.mem_rolesOf.mpr ⟨role, Table.mem_of_get hrole, hheld, rfl⟩, rfl⟩

theorem roles_ne_nil {roleId : RoleId} (hheld : (user.id, roleId) ∈ db.userRoles) :
    (db.toTables.loadUser user).roles ≠ [] := by
  intro hnil
  have hmem := mem_roleIds hheld
  rw [LoadedUser.roleIds, hnil] at hmem
  cases hmem

theorem canGrantRole_of_delegates {roleId : RoleId} (hsuper : user.isSuperuser = false)
    (h : db.toTables.DelegatesRole user.id roleId) :
    canGrantRole db.toTables (db.toTables.loadUser user) roleId = true := by
  obtain ⟨held, hheld, hlink⟩ := h
  unfold canGrantRole
  rw [if_neg (by simp [hsuper]), if_neg (roles_ne_nil hheld), decide_eq_true_eq]
  exact Finset.mem_image.mpr
    ⟨(held, roleId), Finset.mem_filter.mpr ⟨hlink, mem_roleIds hheld⟩, rfl⟩

theorem canGrantPermission_of_delegates {permissionId : PermissionId}
    (hsuper : user.isSuperuser = false) (h : db.toTables.DelegatesPermission user.id permissionId) :
    canGrantPermission db.toTables (db.toTables.loadUser user) permissionId = true := by
  obtain ⟨held, hheld, hlink⟩ := h
  unfold canGrantPermission
  rw [if_neg (by simp [hsuper]), if_neg (roles_ne_nil hheld), decide_eq_true_eq]
  exact Finset.mem_image.mpr
    ⟨(held, permissionId), Finset.mem_filter.mpr ⟨hlink, mem_roleIds hheld⟩, rfl⟩

theorem ensureSameTenant_self {β : Type} {f : Unit → Service β} :
    (UserManagementService.ensureSameTenant user (db.toTables.loadUser user).scope >>= f) db =
      f () db :=
  Action.ensure_bind_apply (Or.inr rfl)

/-- A user takes a role that one of their roles may grant. -/
theorem takes_role {roleId : RoleId} (huser : db.users.get user.id = some user)
    (hsuper : user.isSuperuser = false) (hdelegates : db.toTables.DelegatesRole user.id roleId)
    (hfree : (user.id, roleId) ∉ db.userRoles) :
    ∃ (db' : Db) (es : List Event),
      request getPasswordHash user.id (.assignRole user.id roleId) db = (.ok (), db', es) ∧
      db'.toTables = Tables.bumpPermVersion
        { db.toTables with userRoles := insert (user.id, roleId) db.userRoles } (· = user.id) := by
  have hallowed := canGrantRole_of_delegates hsuper hdelegates
  obtain ⟨held, _, hlink⟩ := hdelegates
  have hsome := (db.constraints.grantableRole _ hlink).2
  obtain ⟨role, hrole⟩ := Option.isSome_iff_exists.mp hsome
  have hfound : RoleRepository.getById db.toTables roleId = some (db.toTables.loadRole role) := by
    rw [RoleRepository.getById, hrole, Option.map_some]
  have hheld : RoleRepository.userHasRole db.toTables user.id roleId = false :=
    decide_eq_false hfree
  obtain ⟨db', es, hrun, ht⟩ := Bootstrap.assign_to_user (by rw [huser]; rfl) hsome hfree
  refine ⟨db', es, ?_, ht⟩
  rw [request_run huser]
  change UserManagementService.assignRole _ user.id roleId db = _
  unfold UserManagementService.assignRole
  rw [query, Action.read_bind_apply, Action.ensure_bind_apply hallowed, query,
    Action.read_bind_apply, hfound, Action.require_some_bind, query, Action.read_bind_apply,
    UserRepository.getById, huser, Action.require_some_bind, ensureSameTenant_self, query,
    Action.read_bind_apply, Action.ensure_bind_apply hheld]
  exact hrun

/-- A user takes a permission that one of their roles may grant. -/
theorem takes_permission {permission : Permission} (huser : db.users.get user.id = some user)
    (hsuper : user.isSuperuser = false)
    (hpermission : db.permissions.get permission.id = some permission)
    (hdelegates : db.toTables.DelegatesPermission user.id permission.id)
    (hfree : (user.id, permission.id) ∉ db.userPermissions) :
    ∃ (db' : Db) (es : List Event),
      request getPasswordHash user.id (.grantPermission user.id permission.id) db =
        (.ok (), db', es) ∧
      db'.permissions = db.permissions ∧ (user.id, permission.id) ∈ db'.userPermissions := by
  have hallowed := canGrantPermission_of_delegates hsuper hdelegates
  have hfound : UserRepository.getByIdWithGrants db.toTables user.id =
      some (db.toTables.loadUser user) := by
    rw [UserRepository.getByIdWithGrants, huser, Option.map_some]
  have hgranted : UserRepository.hasPermission db.toTables user.id permission.id = false :=
    decide_eq_false hfree
  let users := db.users.update (fun u => u.id = user.id)
    (fun u => { u with permVersion := user.permVersion + 1 })
    (User.id_setVersion (user.permVersion + 1))
  have husers : ({ db.toTables with users := users } : Tables).Constraints :=
    updateUsers_constraints _ _ db.constraints (fun _ => rfl) (fun _ => rfl) (fun _ => rfl)
      (fun _ => rfl)
  have hget : (users.get user.id).isSome = true := by
    rw [Table.get_update, huser]
    rfl
  let t : Tables := { db.toTables with
    users := users
    userPermissions := insert (user.id, permission.id) db.userPermissions }
  have ht : t.Constraints := { husers with
    userPermission := by
      intro x hx
      rcases Finset.mem_insert.mp hx with rfl | hold
      · exact ⟨hget, by rw [show t.permissions = db.permissions from rfl, hpermission]; rfl⟩
      · exact husers.userPermission x hold }
  have hversion : db.toTables.setPermVersion user.id (user.permVersion + 1) =
      .ok { db.toTables with users := users } := by
    unfold Tables.setPermVersion Tables.updateUser
    rw [if_pos (by rw [huser]; rfl)]
  have hlink : Tables.insertLink db.userPermissions (user.id, permission.id) =
      .ok (insert (user.id, permission.id) db.userPermissions) := if_neg hfree
  have hbody : UserRepository.grantPermissionTx (db.toTables.loadUser user) permission db.toTables =
      .ok ((), t, [.permVersion user.id.str (user.permVersion + 1)]) := by
    unfold UserRepository.grantPermissionTx
    simp only [Tables.loadUser_toUser, hversion]
    change Tables.insertLink db.userPermissions _ >>= _ = _
    rw [hlink]
    rfl
  refine ⟨⟨t, ht⟩, [.permVersion user.id.str (user.permVersion + 1)], ?_, rfl,
    Finset.mem_insert_self _ _⟩
  rw [request_run huser]
  change UserManagementService.grantPermission _ user.id permission.id db = _
  unfold UserManagementService.grantPermission
  rw [query, Action.read_bind_apply, Action.ensure_bind_apply hallowed, query,
    Action.read_bind_apply, RoleRepository.getPermissionById, hpermission,
    Action.require_some_bind, query, Action.read_bind_apply, hfound, Action.require_some_bind,
    Tables.loadUser_toUser, ensureSameTenant_self, query, Action.read_bind_apply,
    Action.ensure_bind_apply hgranted]
  exact transaction_commits hbody ht

end Taken

/-! ### Runs -/

/-- Calls of members, successful or raising; none of them is a superuser. -/
abbrev CoalitionRun (members : Set Uuid) : Db → Db → Prop :=
  StaffRun (fun _ actor _ => actor.id ∈ members)

section Runs

variable {members : Set Uuid} {db : Db} {user : User}

theorem Bounded.run {confer : ℕ → Prop} {had : Uuid → ℕ → Prop} {db' : Db}
    (h : Bounded members confer had db.toTables) (hrun : CoalitionRun members db db') :
    Bounded members confer had db'.toTables := by
  induction hrun with
  | start => exact h
  | call getPasswordHash actor call _ hactor hsuper hmember ih =>
    exact ih.request hactor hsuper hmember call

/-- A member walks along the links, from a role that they hold. -/
theorem takes_reached {held roleId : RoleId} (hmember : user.id ∈ members)
    (huser : db.users.get user.id = some user) (hsuper : user.isSuperuser = false)
    (hheld : (user.id, held) ∈ db.userRoles) (hreach : db.toTables.web.Reaches held roleId) :
    ∃ (db' : Db) (user' : User), CoalitionRun members db db' ∧
      db'.toTables.web = db.toTables.web ∧ user'.id = user.id ∧
      db'.users.get user'.id = some user' ∧ user'.isSuperuser = false ∧
      (user'.id, roleId) ∈ db'.userRoles := by
  induction hreach with
  | refl => exact ⟨db, user, .start, rfl, rfl, huser, hsuper, hheld⟩
  | @tail b c _ hlink ih =>
    obtain ⟨db₁, user₁, hrun, hweb, hid, huser₁, hsuper₁, hheld₁⟩ := ih
    by_cases hfree : (user₁.id, c) ∈ db₁.userRoles
    · exact ⟨db₁, user₁, hrun, hweb, hid, huser₁, hsuper₁, hfree⟩
    have hlink₁ : db₁.toTables.web.mayGrant b c := by
      rw [hweb]
      exact hlink
    obtain ⟨db₂, es, hcall, ht⟩ := takes_role .ok huser₁ hsuper₁
      ⟨b, hheld₁, hlink₁⟩ hfree
    have hgone : (request .ok user₁.id (.assignRole user₁.id c) db₁).2.1 = db₂ := by rw [hcall]
    refine ⟨db₂, { user₁ with permVersion := user₁.permVersion + 1 }, ?_, ?_, hid, ?_, hsuper₁, ?_⟩
    · rw [← hgone]
      exact .call .ok user₁ _ hrun huser₁ hsuper₁ (by rw [hid]; exact hmember)
    · rw [ht]
      exact hweb
    · rw [ht, Tables.get_bumpPermVersion]
      change (db₁.users.get user₁.id).map _ = _
      rw [huser₁]
      simp
    · rw [ht]
      exact Finset.mem_insert_self _ _

/-- What a role hands out, a member who holds it takes. -/
theorem takes_handed {roleId : RoleId} {i : ℕ} (hmember : user.id ∈ members)
    (huser : db.users.get user.id = some user) (hsuper : user.isSuperuser = false)
    (hheld : (user.id, roleId) ∈ db.userRoles) (hhands : db.toTables.web.HandsOut roleId i) :
    ∃ db', CoalitionRun members db db' ∧ db'.toTables.HasBit user.id i := by
  cases hhands with
  | role g hlink hcarries =>
    obtain ⟨db', user', hrun, hweb, hid, _, _, hheld'⟩ :=
      takes_reached hmember huser hsuper hheld (.single hlink)
    rw [← hweb] at hcarries
    obtain ⟨role, hrole, hbit⟩ := hcarries
    refine ⟨db', hrun, Db.hasBit_iff.mpr (Or.inl ⟨g, role, hrole, ?_, hbit⟩)⟩
    rw [← hid]
    exact hheld'
  | right hlends =>
    obtain ⟨permissionId, p, hp, hlink, hbit⟩ := hlends
    obtain rfl := Table.key_of_get hp
    by_cases hfree : (user.id, p.id) ∈ db.userPermissions
    · exact ⟨db, .start, Db.hasBit_iff.mpr (Or.inr ⟨p.id, p, hp, hfree, hbit⟩)⟩
    obtain ⟨db', es, hcall, hpermissions, hgranted⟩ := takes_permission .ok
      huser hsuper hp ⟨roleId, hheld, hlink⟩ hfree
    have hgone : (request .ok user.id (.grantPermission user.id p.id) db).2.1 = db' := by rw [hcall]
    refine ⟨db', ?_, Db.hasBit_iff.mpr (Or.inr ⟨p.id, p, ?_, hgranted, hbit⟩)⟩
    · rw [← hgone]
      exact .call .ok user _ .start huser hsuper hmember
    · rw [hpermissions]
      exact hp

end Runs

theorem StaffRun.trans {P : Tables → User → Call → Prop} {db db' db'' : Db}
    (h : StaffRun P db db') (h' : StaffRun P db' db'') : StaffRun P db db'' := by
  induction h' with
  | start => exact h
  | call getPasswordHash actor call _ hactor hsuper hcall ih =>
    exact .call getPasswordHash actor call ih hactor hsuper hcall

/-- Members of a coalition come to have exactly the bits that one of them has
or that can be handed to them along the delegation rows. -/
theorem coalition_gets_iff {members : Set Uuid} {db : Db} (hdb : Reachable db)
    (hmembers : ∀ u ∈ db.users.rows, u.id ∈ members → u.isSuperuser = false) (i : ℕ) :
    (∃ db', CoalitionRun members db db' ∧ ∃ userId ∈ members, db'.toTables.HasBit userId i) ↔
      (∃ userId ∈ members, db.toTables.HasBit userId i) ∨ db.toTables.Conferrable members i := by
  constructor
  · rintro ⟨db', hrun, userId, hmember, hbit⟩
    have hend : Bounded members _ _ db'.toTables := (bounded_conferrable hdb.catalogued).run hrun
    rcases hend.bits userId i (Db.hasBit_iff.mp hbit) with hhad | hconfer
    · exact Or.inl ⟨userId, hmember, Db.hasBit_iff.mpr hhad⟩
    · exact Or.inr hconfer
  · rintro (⟨userId, hmember, hbit⟩ | ⟨userId, hmember, held, hheld, roleId, hreach, hhands⟩)
    · exact ⟨db, .start, userId, hmember, hbit⟩
    · obtain ⟨user, huser⟩ := Option.isSome_iff_exists.mp (db.constraints.userRole _ hheld).1
      obtain rfl := Table.key_of_get huser
      have hsuper := hmembers user (Table.mem_of_get huser) hmember
      obtain ⟨db₁, user₁, hrun, hweb, hid, huser₁, hsuper₁, hheld₁⟩ :=
        takes_reached hmember huser hsuper hheld hreach
      rw [← hweb] at hhands
      have hmember₁ : user₁.id ∈ members := by rw [hid]; exact hmember
      obtain ⟨db₂, hrun', hbit⟩ := takes_handed hmember₁ huser₁ hsuper₁ hheld₁ hhands
      exact ⟨db₂, hrun.trans hrun', user₁.id, hmember₁, hbit⟩

/-! The admin of the narrowed tenant has lost `role:read`, but the role that
they may still grant carries it. -/

theorem narrowed_boss : ∀ u ∈ narrowed.users.rows, u.id = 11 → u.isSuperuser = false := by
  decide +kernel

theorem narrowed_conferrable : narrowed.toTables.Conferrable {11} 1 := by
  have hfacts : ((11, 1) ∈ narrowed.userRoles ∧ (1, 2) ∈ narrowed.roleGrantableRoles) ∧
      (narrowed.roles.get 2).any (fun r => r.permissionMask.testBit 1) = true := by
    decide +kernel
  generalize narrowed.toTables = t at hfacts ⊢
  obtain ⟨⟨hheld, hlink⟩, hmask⟩ := hfacts
  obtain ⟨viewer, hviewer, hbit⟩ := (Option.any_eq_true _ _).mp hmask
  exact ⟨11, rfl, 1, hheld, 1, .refl, .role 2 hlink ⟨viewer, hviewer, hbit⟩⟩

theorem coalition_gets_iff_narrowed : ∃ db', CoalitionRun {11} narrowed db' ∧
    ∃ userId ∈ ({11} : Set Uuid), db'.toTables.HasBit userId 1 :=
  (coalition_gets_iff narrowed_reachable (fun u hu hid => narrowed_boss u hu hid) 1).mpr
    (Or.inr narrowed_conferrable)

/-! ### The whole program -/

namespace Backend

section Machine

variable {Token Link : Type} {settings : AuthSettings Token} {serializer : TimedSerializer Link}
  {s s' : Backend Token} {members : Set Uuid} {confer : ℕ → Prop} {had : Uuid → ℕ → Prop}

/-- A token that passes is one of a member who is no superuser. -/
def OnlyMembers (settings : AuthSettings Token) (members : Set Uuid) (s : Backend Token) :
    Input Token Link → Prop
  | .route _ token cache _ => ∀ payload,
    (s.bearer token cache).authenticate settings.jwt = .ok payload →
      payload.id ∈ members ∧ payload.isSuperuser = false
  | _ => True

/-- One input, where nobody else comes with an access token. -/
def CoalitionStep (settings : AuthSettings Token) (serializer : TimedSerializer Link)
    (members : Set Uuid) (s s' : Backend Token) : Prop :=
  ∃ input, s.Allows settings serializer input ∧ s.OnlyMembers settings members input ∧
    s' = s.step settings serializer input

/-- The mask that a worker reads from the token has only these bits. -/
def TokenWithin (settings : AuthSettings Token) (allowed : Uuid → ℕ → Prop) (token : Token) :
    Prop :=
  ∀ now payload mask, settings.jwt.decode now token = some payload →
    hexToMask (some payload.permMask) = .ok mask →
    ∀ i, mask.testBit i = true → allowed payload.id i

/-- Outside of the routes nothing is handed out. -/
theorem backed_of_performs {input : Input Token Link} {c : Change} {t : Tables}
    (hroute : ∀ getPasswordHash token cache call, input ≠ .route getPasswordHash token cache call)
    (h : s.Performs serializer input c) : c.Backed confer t := by
  cases input with
  | route getPasswordHash token cache call => exact absurd rfl (hroute _ _ _ _)
  | login | refresh | logout | cleanup | googleCallback | register | seed =>
    cases c <;> trivial
  | verifyMail token =>
    obtain ⟨_, _, h⟩ := h
    cases c <;> trivial
  | verifyPassword getPasswordHash token userData =>
    obtain ⟨_, _, _, _, h⟩ := h
    cases c <;> trivial
  | wait | resetPassword | startup => exact h.elim

theorem Sound.bounded_step {input : Input Token Link} (hs : s.Sound settings)
    (hjwt : settings.jwt.Expires) (hallows : s.Allows settings serializer input)
    (honly : s.OnlyMembers settings members input)
    (h : Bounded members confer had s.db.toTables) :
    Bounded members confer had (s.step settings serializer input).db.toTables := by
  have hother (hroute : ∀ getPasswordHash token cache call,
      input ≠ .route getPasswordHash token cache call) :
      Bounded members confer had (s.step settings serializer input).db.toTables := by
    obtain ⟨es, hpath⟩ := hs.step_path hjwt hallows
    refine h.path (hpath.mono ?_)
    rintro db db' _ ⟨c, es, hperforms, hcur, hcommit⟩
    exact ⟨c, es, hcur, backed_of_performs hroute hperforms, hcommit⟩
  cases input with
  | route getPasswordHash token cache call =>
    change Bounded members confer had
      (call.route settings.jwt getPasswordHash (s.bearer token cache) s.db).2.1.toTables
    rcases hs.route_cases hjwt hallows getPasswordHash cache call with
      ⟨e, _, hrun⟩ | ⟨payload, owner, user, hauth, hadmission, hrun⟩
    · rw [hrun]
      exact h
    · rw [hrun]
      refine gated_db (I := fun db => Bounded members confer had db.toTables) h ?_
      intro _
      obtain ⟨hmember, hsuper⟩ := honly payload hauth
      obtain ⟨hrow, _, hid⟩ := UserRepository.getByIdWithGrants_eq_some hadmission.describes.loaded
      rw [hadmission.describes.isSuperuser] at hsuper
      rw [← hid] at hrow hmember ⊢
      exact h.request hrow hsuper hmember call
  | _ => exact hother (fun _ _ _ _ h => by cases h)

/-- What a new token says is what its owner has. -/
theorem tokenWithin_of_mints (hjwt : settings.jwt.Expires) {db : Db} {mintedAt : ℤ}
    {owner : LoadedUser} {authMethod : String} {token : Token}
    (h : Bounded members confer had db.toTables)
    (hmints : Mints settings db mintedAt owner authMethod token) :
    TokenWithin settings (fun userId i => had userId i ∨ confer i) token := by
  intro now payload mask hdecode hread i hbit
  obtain ⟨_, permMask, hmask, rfl⟩ := mintAccessToken_eq_ok_iff.mp hmints.2
  obtain ⟨rfl, _⟩ := hjwt _ _ _ hdecode
  have hsame := hexToMask_maskToHex _ (maskToHex_lt hmask) _ hmask
  obtain rfl := Except.ok.inj (hread.symm.trans hsame)
  rw [hmints.1.eq] at hbit
  exact h.bits owner.id i (Tables.testBit_maskOf.mp hbit)

/-- Nobody gets a permission that the members could not hand out at the start,
and no token that is issued says more. -/
theorem coalition_bounded (hjwt : settings.jwt.Expires) (h : Reached settings serializer s)
    (hrun : Relation.ReflTransGen (CoalitionStep settings serializer members) s s') :
    (∀ userId i, s'.db.toTables.HasBit userId i →
      s.db.toTables.HasBit userId i ∨ s.db.toTables.Conferrable members i) ∧
    ∀ token ∈ s'.issued, token ∈ s.issued ∨ TokenWithin settings (fun userId i =>
      s.db.toTables.HasBit userId i ∨ s.db.toTables.Conferrable members i) token := by
  have hs := h.sound hjwt
  have hstart : Bounded members (s.db.toTables.Conferrable members) s.db.toTables.HasBit
      s.db.toTables := by
    have hself : Bounded members (s.db.toTables.Conferrable members) _ s.db.toTables :=
      bounded_conferrable hs.reachable.catalogued
    exact ⟨hself.catalogued, hself.safe, fun userId i hbit => Or.inl (Db.hasBit_iff.mpr hbit)⟩
  have hend : s'.Sound settings ∧
      Bounded members (s.db.toTables.Conferrable members) s.db.toTables.HasBit s'.db.toTables ∧
      ∀ token ∈ s'.issued, token ∈ s.issued ∨ TokenWithin settings (fun userId i =>
        s.db.toTables.HasBit userId i ∨ s.db.toTables.Conferrable members i) token := by
    induction hrun with
    | refl => exact ⟨hs, hstart, fun _ htoken => Or.inl htoken⟩
    | tail _ hstep ih =>
      obtain ⟨hsound, hbounded, htokens⟩ := ih
      obtain ⟨input, hallows, honly, rfl⟩ := hstep
      have hbounded' := hsound.bounded_step hjwt hallows honly hbounded
      refine ⟨hsound.step hjwt hallows, hbounded', ?_⟩
      intro token htoken
      rcases step_issued hallows htoken with hold | ⟨owner, authMethod, mintedAt, hmints, _, _⟩
      · exact htokens token hold
      · exact Or.inr (tokenWithin_of_mints hjwt hbounded' hmints)
  exact ⟨fun userId i hbit => hend.2.1.bits userId i (Db.hasBit_iff.mp hbit), hend.2.2⟩

end Machine

/-- `ann` adds an account, and keeps the permission to. -/
def bobCreated : Backend TokenPayload :=
  plainStep annIn (.route .ok annToken .empty (.createUser 3 bob))

theorem bobCreated_hasBit : bobCreated.db.toTables.HasBit 2 18 := by
  have hmask : (bobCreated.db.users.get 2).any (fun u =>
      (effectivePermissionMask (bobCreated.db.toTables.loadUser u)).testBit 18) = true := by
    decide +kernel
  generalize bobCreated.db.toTables = t at hmask ⊢
  exact (Option.any_eq_true _ _).mp hmask

theorem coalition_bounded_annIn :
    annIn.db.toTables.HasBit 2 18 ∨ annIn.db.toTables.Conferrable {2} 18 := by
  have hstep : CoalitionStep Sessions.plainSettings plainSerializer {2} annIn bobCreated := by
    refine ⟨.route .ok annToken .empty (.createUser 3 bob), Or.inl annIn_issued, ?_, rfl⟩
    intro payload hauth
    have hann : (annIn.bearer annToken .empty).authenticate Sessions.plainSettings.jwt =
        .ok annToken := by decide +kernel
    obtain rfl := Except.ok.inj (hann.symm.trans hauth)
    exact ⟨rfl, rfl⟩
  exact (coalition_bounded plainJwt_expires annIn_reached (.single hstep)).1 2 18 bobCreated_hasBit

end Backend
end FastapiTemplate
