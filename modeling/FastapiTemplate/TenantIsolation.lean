import FastapiTemplate.Confinement

/-!
Tenant isolation of writes. An operation of a tenant's user who is no superuser
writes no row and no link of a user of another tenant. What it can still reach
is a role that the other user holds and that is global or owned by the actor's
tenant: the scope check lets the actor edit its permissions or delete it.
-/
namespace FastapiTemplate

open Library.KeyedTable Library.Committing Library.BitMask

/-- The change is about the status, the roles or the direct permissions of the user. -/
def Change.Targets (userId : Uuid) : Change → Prop
  | assignToUser _ targetId => userId = targetId
  | removeFromUser _ targetId => userId = targetId
  | grantPermission user _ => userId = user.id
  | revokePermission user _ => userId = user.id
  | setUserActive user _ => userId = user.id
  | _ => False

/-- The change deletes the role or edits its permissions. -/
def Change.Edits (roleId : RoleId) : Change → Prop
  | deleteRole role => role.id = roleId
  | addPermission role _ => role.id = roleId
  | removePermission role _ => role.id = roleId
  | _ => False

def Call.Edits (roleId : RoleId) : Call → Prop
  | deleteRole roleId' => roleId' = roleId
  | addPermissionToRole roleId' _ => roleId' = roleId
  | removePermissionFromRole roleId' _ => roleId' = roleId
  | _ => False

/-- The operation edits a role that the user holds and that the tenant may edit. -/
def Call.Reaches (t : Tables) (tenantId : Option Uuid) (userId : Uuid) (call : Call) : Prop :=
  ∃ roleId role, call.Edits roleId ∧ (userId, roleId) ∈ t.userRoles ∧
    t.roles.get roleId = some role ∧ InScope tenantId role

/-- What an operation leaves of a user of another tenant. -/
structure Isolated (call : Call) (tenantId : Option Uuid) (t t' : Tables) (u u' : User) :
    Prop where
  isActive : u'.isActive = u.isActive
  direct : ∀ permissionId,
    (u.id, permissionId) ∈ t'.userPermissions ↔ (u.id, permissionId) ∈ t.userPermissions
  held : ∀ roleId, call ≠ .deleteRole roleId →
    ((u.id, roleId) ∈ t'.userRoles ↔ (u.id, roleId) ∈ t.userRoles)
  unreached : ¬ call.Reaches t tenantId u.id →
    (∀ roleId, (u.id, roleId) ∈ t'.userRoles ↔ (u.id, roleId) ∈ t.userRoles) ∧
      effectivePermissionMask (t'.loadUser u') = effectivePermissionMask (t.loadUser u)

/-! ### One change -/

section Change

variable {c : Change} {call : Call} {actor u : User} {userId : Uuid} {roleId : RoleId}
  {t : Tables} {db db' : Db} {es : List Event}

/-- The checks let a tenant's user target users of the tenant only. -/
theorem Change.Authorized.not_targets (h : c.Authorized actor t) (hcur : c.Current t)
    (hu : t.users.get userId = some u) (htenant : u.tenantId ≠ actor.tenantId) :
    ¬ c.Targets userId := by
  intro htargets
  have hrow {v : User} (hv : t.users.get userId = some v) (hsame : v.tenantId = actor.tenantId) :
      False := by
    obtain rfl := Option.some.inj (hu.symm.trans hv)
    exact htenant hsame
  cases c with
  | assignToUser roleId targetId =>
    obtain rfl : userId = targetId := htargets
    obtain ⟨_, v, hv, hsame⟩ := h
    exact hrow hv hsame
  | removeFromUser roleId targetId =>
    obtain rfl : userId = targetId := htargets
    obtain ⟨v, hv, hsame⟩ := h
    exact hrow hv hsame
  | grantPermission user permission =>
    obtain rfl : userId = user.id := htargets
    exact hrow (UserRepository.getByIdWithGrants_eq_some hcur.1).1 h.2
  | revokePermission user permission =>
    obtain rfl : userId = user.id := htargets
    exact hrow (UserRepository.getByIdWithGrants_eq_some hcur.1).1 h
  | setUserActive user isActive =>
    obtain rfl : userId = user.id := htargets
    exact hrow hcur h
  | _ => exact htargets

/-- A mask that a tenant's user moves belongs to a target or to a holder of an
edited role in scope. -/
theorem Change.Authorized.edits (h : c.Authorized actor t) (hcur : c.Current t)
    (hbump : c.Bumps t userId ∨ c.DropsRoleOf t userId) (htargets : ¬ c.Targets userId) :
    ∃ roleId role, c.Edits roleId ∧ (userId, roleId) ∈ t.userRoles ∧
      t.roles.get roleId = some role ∧ InScope actor.tenantId role := by
  cases c with
  | deleteRole role =>
    rcases hbump with hbump | hheld
    · exact hbump.elim
    · exact ⟨role.id, role.toRole, rfl, hheld, (RoleRepository.getById_eq_some hcur).1, h⟩
  | addPermission role permission =>
    rcases hbump with hheld | hdrop
    · exact ⟨role.id, role.toRole, rfl, hheld, (RoleRepository.getById_eq_some hcur.1).1, h.1⟩
    · exact hdrop.elim
  | removePermission role permission =>
    rcases hbump with hheld | hdrop
    · exact ⟨role.id, role.toRole, rfl, hheld, (RoleRepository.getById_eq_some hcur.1).1, h⟩
    · exact hdrop.elim
  | syncRootTenantRole tenantId allowed => exact h.elim
  | setUserActive user isActive => exact (hbump.elim id id).elim
  | _ => exact (hbump.elim htargets id).elim

theorem Call.edits_of_performs (h : call.Performs c) (hedits : c.Edits roleId) :
    call.Edits roleId := by
  cases c with
  | deleteRole role =>
    obtain rfl := Call.performs_deleteRole h
    exact hedits
  | addPermission role permission =>
    cases call <;> simp_all [Call.Performs, Change.Edits, Call.Edits]
  | removePermission role permission =>
    cases call <;> simp_all [Call.Performs, Change.Edits, Call.Edits]
  | _ => exact hedits.elim

/-- A change leaves the links of the users it does not target, but for the
memberships in a role it deletes. -/
theorem Change.links_eq (h : c.Commits db db' es) (htargets : ¬ c.Targets userId) :
    (∀ permissionId, (userId, permissionId) ∈ db'.userPermissions ↔
      (userId, permissionId) ∈ db.userPermissions) ∧
    ∀ roleId, (∀ role, c = .deleteRole role → role.id ≠ roleId) →
      ((userId, roleId) ∈ db'.userRoles ↔ (userId, roleId) ∈ db.userRoles) := by
  obtain ⟨tokens, ht⟩ := Change.commits_apply h
  rw [ht]
  cases c with
  | syncRootTenantRole tenantId allowed =>
    simp only [apply]
    split <;> exact ⟨fun _ => Iff.rfl, fun _ _ => Iff.rfl⟩
  | deleteRole role =>
    refine ⟨fun _ => Iff.rfl, ?_⟩
    intro roleId hne
    have hrole : roleId ≠ role.id := (hne role rfl).symm
    simp [apply, hrole]
  | assignToUser roleId targetId =>
    have hne : userId ≠ targetId := htargets
    exact ⟨fun _ => Iff.rfl, by simp [apply, hne]⟩
  | removeFromUser roleId targetId =>
    have hne : userId ≠ targetId := htargets
    exact ⟨fun _ => Iff.rfl, by simp [apply, hne]⟩
  | grantPermission user permission =>
    have hne : userId ≠ user.id := htargets
    exact ⟨by simp [apply, hne], fun _ _ => Iff.rfl⟩
  | revokePermission user permission =>
    have hne : userId ≠ user.id := htargets
    exact ⟨by simp [apply, hne], fun _ _ => Iff.rfl⟩
  | _ => exact ⟨fun _ => Iff.rfl, fun _ _ => Iff.rfl⟩

/-- A role that somebody held before the change kept its tenant. -/
theorem Change.role_before {role' : Role} (h : c.Commits db db' es)
    (hheld : (userId, roleId) ∈ db.userRoles) (hrole : db'.roles.get roleId = some role') :
    ∃ role, db.roles.get roleId = some role ∧ role.tenantId = role'.tenantId := by
  obtain ⟨role, hget⟩ := Option.isSome_iff_exists.mp (db.constraints.userRole _ hheld).2
  refine ⟨role, hget, ?_⟩
  have hupdate {p : Role → Bool} {f : Role → Role} (hf : ∀ r, (f r).id = r.id)
      (hroles : db'.roles = db.roles.update p f hf) (htenant : ∀ r, (f r).tenantId = r.tenantId) :
      role.tenantId = role'.tenantId := by
    rw [hroles, Table.get_update, hget, Option.map_some] at hrole
    obtain rfl := Option.some.inj hrole
    split
    · exact (htenant role).symm
    · rfl
  have hsame (hroles : db'.roles = db.roles) : role.tenantId = role'.tenantId := by
    rw [hroles, hget] at hrole
    rw [Option.some.inj hrole]
  have hinsert {new : Role} (hroles : db'.roles = db.roles.insertD new) :
      role.tenantId = role'.tenantId := by
    rw [hroles, Table.get_insertD_of_get hget] at hrole
    rw [Option.some.inj hrole]
  obtain ⟨tokens, ht⟩ := Change.commits_apply h
  have hroles : db'.roles = (c.apply db.toTables).roles := by rw [ht]
  cases c with
  | createRole name tenantId permissions mask => exact hinsert hroles
  | createRootTenantRole tenantId allowed => exact hinsert hroles
  | syncRootTenantRole tenantId allowed =>
    simp only [apply] at hroles
    split at hroles
    · exact hsame hroles
    · exact hupdate (by intro _; rfl) hroles (fun _ => rfl)
  | updateRole role data => exact hupdate (by intro _; rfl) hroles (fun _ => rfl)
  | deleteRole dropped =>
    rw [hroles] at hrole
    simp only [apply, Table.get_delete, hget, Option.filter_eq_some_iff] at hrole
    rw [Option.some.inj hrole.1]
  | addPermission role permission => exact hupdate (by intro _; rfl) hroles (fun _ => rfl)
  | removePermission role permission => exact hupdate (by intro _; rfl) hroles (fun _ => rfl)
  | _ => exact hsame hroles

end Change

/-! ### Requests -/

/-- What the transactions of an operation, taken together, leave of a user of
another tenant. -/
structure Apart (call : Call) (tenantId : Option Uuid) (u : User) (db s : Db) : Prop where
  row : ∃ u', s.users.get u.id = some u' ∧ u'.tenantId = u.tenantId ∧ u'.isActive = u.isActive
  direct : ∀ permissionId,
    (u.id, permissionId) ∈ s.userPermissions ↔ (u.id, permissionId) ∈ db.userPermissions
  held : ∀ roleId, call ≠ .deleteRole roleId →
    ((u.id, roleId) ∈ s.userRoles ↔ (u.id, roleId) ∈ db.userRoles)
  unreached : ¬ call.Reaches db.toTables tenantId u.id →
    SameGrants db.toTables s.toTables u.id ∧
    ∀ roleId role', (u.id, roleId) ∈ db.userRoles → s.roles.get roleId = some role' →
      ∃ role, db.roles.get roleId = some role ∧ role.tenantId = role'.tenantId

section Request

variable {call : Call} {actor u : User} {db s s' : Db} {es : List Event}

theorem Apart.refl (hu : db.users.get u.id = some u) :
    Apart call actor.tenantId u db db where
  row := ⟨u, hu, rfl, rfl⟩
  direct _ := Iff.rfl
  held _ _ := Iff.rfl
  unreached _ := ⟨.refl _ _, fun _ role' _ hrole => ⟨role', hrole, rfl⟩⟩

theorem Apart.step (h : Apart call actor.tenantId u db s) (hsuper : actor.isSuperuser = false)
    (htenant : u.tenantId ≠ actor.tenantId) (hstep : Performed actor call s s' es) :
    Apart call actor.tenantId u db s' := by
  obtain ⟨c, hperforms, hcur, hauth, hcommit⟩ := hstep
  have hauth := hauth hsuper
  obtain ⟨u', hu', hutenant, huactive⟩ := h.row
  have htargets : ¬ c.Targets u.id := hauth.not_targets hcur hu' (by rw [hutenant]; exact htenant)
  have hlinks := Change.links_eq hcommit htargets
  refine ⟨?_, ?_, ?_, ?_⟩
  · obtain ⟨u'', hu'', hrow⟩ := Change.row_step hcur hcommit hu'
    refine ⟨u'', hu'', hrow.tenantId.trans hutenant, (hrow.isActive ?_).trans huactive⟩
    rw [Table.key_of_get hu']
    intro hsets
    cases c with
    | setUserActive user isActive => exact htargets hsets
    | _ => exact hsets
  · exact fun permissionId => (hlinks.1 permissionId).trans (h.direct permissionId)
  · intro roleId hcall
    refine (hlinks.2 roleId ?_).trans (h.held roleId hcall)
    rintro role rfl rfl
    exact hcall (Call.performs_deleteRole hperforms)
  · intro hreaches
    obtain ⟨hsame, hroles⟩ := h.unreached hreaches
    have hkept : ¬ (c.Bumps s.toTables u.id ∨ c.DropsRoleOf s.toTables u.id) := by
      intro hbump
      obtain ⟨roleId, role', hedits, hheld, hrole', hscope⟩ := hauth.edits hcur hbump htargets
      have hheld := (hsame.held roleId).mp hheld
      obtain ⟨role, hrole, hroletenant⟩ := hroles roleId role' hheld hrole'
      refine hreaches ⟨roleId, role, Call.edits_of_performs hperforms hedits, hheld, hrole, ?_⟩
      rw [InScope, hroletenant]
      exact hscope
    rw [not_or] at hkept
    refine ⟨hsame.trans (Change.sameGrants hcommit hkept.1 hkept.2), ?_⟩
    intro roleId role'' hheld hrole''
    obtain ⟨role', hrole', hsametenant⟩ :=
      Change.role_before hcommit ((hsame.held roleId).mpr hheld) hrole''
    obtain ⟨role, hrole, hroletenant⟩ := hroles roleId role' hheld hrole'
    exact ⟨role, hrole, hroletenant.trans hsametenant⟩

/-- An operation of a tenant's user leaves the users of the other tenants
alone, but for the holders of a role that it edits. -/
theorem isolated_of_request {getPasswordHash : String → Except Err String} {a b : Uuid}
    (hactor : db.users.get actor.id = some actor) (hsuper : actor.isSuperuser = false)
    (ha : actor.tenantId = some a) (hu : db.users.get u.id = some u) (hb : u.tenantId = some b)
    (hne : b ≠ a) (call : Call) :
    ∃ u', (request getPasswordHash actor.id call db).2.1.users.get u.id = some u' ∧
      Isolated call (some a) db.toTables
        (request getPasswordHash actor.id call db).2.1.toTables u u' := by
  have htenant : u.tenantId ≠ actor.tenantId := by
    rw [ha, hb]
    exact fun hsame => hne (Option.some.inj hsame)
  rcases hrun : request getPasswordHash actor.id call db with ⟨r, db', es⟩
  have hapart : Apart call actor.tenantId u db db' :=
    (path_of_request hactor hrun).invariant (I := fun s => Apart call actor.tenantId u db s)
      (fun _ _ _ hstep hs => hs.step hsuper htenant hstep) (.refl hu)
  obtain ⟨u', hu', _, huactive⟩ := hapart.row
  refine ⟨u', hu', huactive, hapart.direct, hapart.held, ?_⟩
  intro hreaches
  obtain ⟨hsame, _⟩ := hapart.unreached (by rw [ha]; exact hreaches)
  exact ⟨hsame.held, hsame.maskOf_eq (Table.key_of_get hu')⟩

end Request

/-! A superuser gives a user of a second tenant the global role `reader`. -/

def globex : Db :=
  (request .ok 1 (.createTenantWithAdmin 20 21 ⟨"globex", "chief", "chief@example.com", "pw",
    none⟩) acme).2.1

def globexStaffed : Db :=
  (request .ok 21 (.createUser 22 ⟨"carol", "carol@example.com", "pw"⟩) globex).2.1

def readerAuthored : Db := (request .ok 1 (.createRole ⟨"reader", ["role:read"]⟩) globexStaffed).2.1

def sharing : Db := (request .ok 1 (.assignRole 22 3) readerAuthored).2.1

def carol : User where
  id := 22
  username := "carol"
  email := "carol@example.com"
  password := some "pw"
  isVerified := true
  isSuperuser := false
  isActive := true
  createdById := some 21
  tenantId := some 20
  permVersion := 2

theorem sharing_reachable : Reachable sharing := by
  have hglobex : Reachable globex := .request _ _ _ acme_reachable
  have hstaffed : Reachable globexStaffed := .request _ _ _ hglobex
  have hauthored : Reachable readerAuthored := .request _ _ _ hstaffed
  exact .request _ _ _ hauthored

/-- The admin of the first tenant deletes the role, and with it the membership
and the mask of the user of the second tenant. -/
theorem deleteRole_not_isolated :
    Reachable sharing ∧ sharing.users.get boss.id = some boss ∧
      sharing.users.get carol.id = some carol ∧ boss.isSuperuser = false ∧
      boss.tenantId = some 10 ∧ carol.tenantId = some 20 ∧
      (carol.id, 3) ∈ sharing.userRoles ∧
      (carol.id, 3) ∉ (request .ok boss.id (.deleteRole 3) sharing).2.1.userRoles ∧
      effectivePermissionMask (sharing.loadUser carol) = 2 ∧
      effectivePermissionMask
        ((request .ok boss.id (.deleteRole 3) sharing).2.1.loadUser carol) = 0 :=
  ⟨sharing_reachable, by decide +kernel⟩

theorem isolated_of_request_sharing :
    ∃ u', (request .ok boss.id (.deleteRole 3) sharing).2.1.users.get carol.id = some u' ∧
      Isolated (.deleteRole 3) (some 10) sharing.toTables
        (request .ok boss.id (.deleteRole 3) sharing).2.1.toTables carol u' := by
  have hboss : sharing.users.get boss.id = some boss := by decide +kernel
  have hcarol : sharing.users.get carol.id = some carol := by decide +kernel
  exact isolated_of_request hboss rfl rfl hcarol rfl (by decide) _

end FastapiTemplate
