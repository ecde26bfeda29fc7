import FastapiTemplate.TenantIsolation

/-!
Whose roles the users of a tenant hold. A role is handed out along the links of
delegation, and a global role is held in several tenants, so a link from it to
a role of one tenant lets users of another give that role away. Runs that make
no such link, and hand out no role that leads to one, keep every user within
the global roles and those of their own tenant.
-/
namespace FastapiTemplate

open Library.KeyedTable Library.Committing

/-- Every user holds only global roles and roles of their tenant. -/
def Tables.HeldInScope (t : Tables) : Prop :=
  ∀ u ∈ t.users.rows, ∀ r ∈ t.roles.rows, (u.id, r.id) ∈ t.userRoles → InScope u.tenantId r

/-- Every role delegates only global roles and roles of its tenant. -/
def Tables.LinkedInScope (t : Tables) : Prop :=
  ∀ r ∈ t.roles.rows, ∀ g ∈ t.roles.rows, (r.id, g.id) ∈ t.roleGrantableRoles →
    InScope r.tenantId g

instance (t : Tables) : Decidable t.HeldInScope := by
  unfold Tables.HeldInScope InScope
  infer_instance

instance (t : Tables) : Decidable t.LinkedInScope := by
  unfold Tables.LinkedInScope InScope
  infer_instance

/-- The call gives nobody but superusers the delegation of a role of another
tenant. A new role of a tenant is linked to each role of its author, so all who
hold one of those belong to the tenant; the same goes for a link that is asked
for, and a role is handed out only where all that it delegates belongs. -/
def Call.Contained (t : Tables) (actor : User) : Call → Prop
  | createRole _ => actor.tenantId ≠ none → ∀ x ∈ t.userRoles, x.1 = actor.id →
    ∀ u ∈ t.users.rows, u.isSuperuser = false → (u.id, x.2) ∈ t.userRoles →
      u.tenantId = actor.tenantId
  | addGrantableRole roleId grantableRoleId => ∀ g ∈ t.roles.rows, g.id = grantableRoleId →
    ∀ u ∈ t.users.rows, u.isSuperuser = false → (u.id, roleId) ∈ t.userRoles →
      InScope u.tenantId g
  | assignRole targetUserId roleId => ∀ u ∈ t.users.rows, u.id = targetUserId →
    u.isSuperuser = false → ∀ g ∈ t.roles.rows, (roleId, g.id) ∈ t.roleGrantableRoles →
      InScope u.tenantId g
  | _ => True

/-- Calls, successful or raising, of users who are no superusers, of any
tenants or of none, each made where `P` holds. -/
inductive StaffRun (P : Tables → User → Call → Prop) (db : Db) : Db → Prop
  | start : StaffRun P db db
  | call {db' : Db} (getPasswordHash : String → Except Err String) (actor : User) (call : Call) :
      StaffRun P db db' → db'.users.get actor.id = some actor → actor.isSuperuser = false →
      P db'.toTables actor call →
      StaffRun P db (request getPasswordHash actor.id call db').2.1

/-! ### The invariant -/

/-- Users hold what is in their scope, and so is what they can hand out; the
roles of a tenant lead to nothing outside its scope. -/
structure Segregated (t : Tables) : Prop where
  held : t.HeldInScope
  owned : ∀ r ∈ t.roles.rows, r.tenantId ≠ none → ∀ g ∈ t.roles.rows,
    (r.id, g.id) ∈ t.roleGrantableRoles → InScope r.tenantId g
  delegated : ∀ u ∈ t.users.rows, u.isSuperuser = false → ∀ r ∈ t.roles.rows,
    (u.id, r.id) ∈ t.userRoles → ∀ g ∈ t.roles.rows, (r.id, g.id) ∈ t.roleGrantableRoles →
      InScope u.tenantId g

section Segregated

variable {t t' : Tables}

theorem segregated_of_inScope (hheld : t.HeldInScope) (hlinks : t.LinkedInScope) : Segregated t := by
  refine ⟨hheld, fun r hr _ g hg hlink => hlinks r hr g hg hlink, ?_⟩
  intro u hu _ r hr hhas g hg hlink
  rcases hlinks r hr g hg hlink with hglobal | hsame
  · exact Or.inl hglobal
  · rcases hheld u hu r hr hhas with hnone | htenant
    · exact Or.inl (hsame.trans hnone)
    · exact Or.inr (hsame.trans htenant)

/-- The rows of `t'` are rows of `t`, but for columns that play no part. -/
structure RowsFrom (t t' : Tables) : Prop where
  roles : ∀ r' ∈ t'.roles.rows, ∃ r ∈ t.roles.rows, r.id = r'.id ∧ r.tenantId = r'.tenantId
  users : ∀ u' ∈ t'.users.rows, ∃ u ∈ t.users.rows, u.id = u'.id ∧ u.tenantId = u'.tenantId ∧
    u.isSuperuser = u'.isSuperuser

/-- No new role, user, membership or link. -/
theorem Segregated.of_subset (h : Segregated t) (hrows : RowsFrom t t')
    (hheld : t'.userRoles ⊆ t.userRoles) (hlinks : t'.roleGrantableRoles ⊆ t.roleGrantableRoles) :
    Segregated t' where
  held := by
    intro u' hu' r' hr' hhas
    obtain ⟨u, hu, huid, hutenant, _⟩ := hrows.users u' hu'
    obtain ⟨r, hr, hrid, hrtenant⟩ := hrows.roles r' hr'
    have hscope := h.held u hu r hr (by rw [huid, hrid]; exact hheld hhas)
    rw [InScope, hrtenant, hutenant] at hscope
    exact hscope
  owned := by
    intro r' hr' htenant g' hg' hlink
    obtain ⟨r, hr, hrid, hrtenant⟩ := hrows.roles r' hr'
    obtain ⟨g, hg, hgid, hgtenant⟩ := hrows.roles g' hg'
    have hscope := h.owned r hr (by rw [hrtenant]; exact htenant) g hg
      (by rw [hrid, hgid]; exact hlinks hlink)
    rw [InScope, hrtenant, hgtenant] at hscope
    exact hscope
  delegated := by
    intro u' hu' hsuper r' hr' hhas g' hg' hlink
    obtain ⟨u, hu, huid, hutenant, husuper⟩ := hrows.users u' hu'
    obtain ⟨r, hr, hrid, _⟩ := hrows.roles r' hr'
    obtain ⟨g, hg, hgid, hgtenant⟩ := hrows.roles g' hg'
    have hscope := h.delegated u hu (husuper.trans hsuper) r hr
      (by rw [huid, hrid]; exact hheld hhas) g hg (by rw [hrid, hgid]; exact hlinks hlink)
    rw [InScope, hutenant, hgtenant] at hscope
    exact hscope

end Segregated

/-! ### One change -/

/-- The change lets no one grant a role of another tenant. -/
def Change.Contained (t : Tables) : Change → Prop
  | addGrantableRole roleId grantableRoleId => ∀ g ∈ t.roles.rows, g.id = grantableRoleId →
    (∀ r ∈ t.roles.rows, r.id = roleId → r.tenantId ≠ none → InScope r.tenantId g) ∧
      ∀ u ∈ t.users.rows, u.isSuperuser = false → (u.id, roleId) ∈ t.userRoles →
        InScope u.tenantId g
  | assignToUser roleId userId => ∀ u ∈ t.users.rows, u.id = userId → u.isSuperuser = false →
    ∀ g ∈ t.roles.rows, (roleId, g.id) ∈ t.roleGrantableRoles → InScope u.tenantId g
  | _ => True

section Step

variable {db db' : Db} {es : List Event}

theorem rowsFrom_update_role {t : Tables} {p : Role → Bool} {f : Role → Role}
    (hf : ∀ r, (f r).id = r.id) (htenant : ∀ r, (f r).tenantId = r.tenantId) :
    ∀ r' ∈ (t.roles.update p f hf).rows, ∃ r ∈ t.roles.rows, r.id = r'.id ∧
      r.tenantId = r'.tenantId := by
  intro r' hr'
  obtain ⟨r, hr, hid, rfl | ⟨_, rfl⟩⟩ := Table.mem_update hr'
  · exact ⟨r', hr, rfl, rfl⟩
  · exact ⟨r, hr, hid, (htenant r).symm⟩

theorem rowsFrom_update_user {t : Tables} {p : User → Bool} {f : User → User}
    (hf : ∀ u, (f u).id = u.id) (htenant : ∀ u, (f u).tenantId = u.tenantId)
    (hsuper : ∀ u, (f u).isSuperuser = u.isSuperuser) :
    ∀ u' ∈ (t.users.update p f hf).rows, ∃ u ∈ t.users.rows, u.id = u'.id ∧
      u.tenantId = u'.tenantId ∧ u.isSuperuser = u'.isSuperuser := by
  intro u' hu'
  obtain ⟨u, hu, hid, rfl | ⟨_, rfl⟩⟩ := Table.mem_update hu'
  · exact ⟨u', hu, rfl, rfl, rfl⟩
  · exact ⟨u, hu, hid, (htenant u).symm, (hsuper u).symm⟩

theorem rowsFrom_same_role (t : Tables) : ∀ r' ∈ t.roles.rows, ∃ r ∈ t.roles.rows,
    r.id = r'.id ∧ r.tenantId = r'.tenantId :=
  fun r hr => ⟨r, hr, rfl, rfl⟩

theorem rowsFrom_same_user (t : Tables) : ∀ u' ∈ t.users.rows, ∃ u ∈ t.users.rows,
    u.id = u'.id ∧ u.tenantId = u'.tenantId ∧ u.isSuperuser = u'.isSuperuser :=
  fun u hu => ⟨u, hu, rfl, rfl, rfl⟩

theorem rowsFrom_bumped {t : Tables} {ids : Uuid → Bool} :
    ∀ u' ∈ (t.bumpPermVersion ids).users.rows, ∃ u ∈ t.users.rows, u.id = u'.id ∧
      u.tenantId = u'.tenantId ∧ u.isSuperuser = u'.isSuperuser :=
  rowsFrom_update_user (by intro _; rfl) (fun _ => rfl) (fun _ => rfl)

/-- A new role has no holders and no links. -/
theorem Segregated.createRole (h : Segregated db.toTables) {name : String} {tenantId : Option Uuid}
    {permissions : List Permission} {mask : ℕ} {role : LoadedRole}
    (hcommit : RoleRepository.createTx name tenantId permissions mask db.toTables =
      .ok (role, db'.toTables, es)) : Segregated db'.toTables := by
  obtain ⟨roles, hinsert, ht, _⟩ := RoleRepository.createTx_eq_ok hcommit
  obtain ⟨hfresh, happend⟩ := Table.insert?_eq_some hinsert
  have hfresh : db.roles.get db.rolesIdSeq = none := hfresh
  have hrow : ∀ r ∈ db'.roles.rows, (db.roles.get r.id).isSome → r ∈ db.roles.rows := by
    intro r hr hsome
    rw [ht, happend, List.mem_append, List.mem_singleton] at hr
    rcases hr with hr | rfl
    · exact hr
    · change (db.roles.get db.rolesIdSeq).isSome = true at hsome
      rw [hfresh] at hsome
      cases hsome
  have husers : db'.users = db.users := by rw [ht]
  have hheld : db'.userRoles = db.userRoles := by rw [ht]
  have hlinks : db'.roleGrantableRoles = db.roleGrantableRoles := by rw [ht]
  refine ⟨?_, ?_, ?_⟩
  · intro u hu r hr hhas
    rw [husers] at hu
    rw [hheld] at hhas
    exact h.held u hu r (hrow r hr (db.constraints.userRole _ hhas).2) hhas
  · intro r hr htenant g hg hlink
    rw [hlinks] at hlink
    have hends := db.constraints.grantableRole _ hlink
    exact h.owned r (hrow r hr hends.1) htenant g (hrow g hg hends.2) hlink
  · intro u hu hsuper r hr hhas g hg hlink
    rw [husers] at hu
    rw [hheld] at hhas
    rw [hlinks] at hlink
    have hends := db.constraints.grantableRole _ hlink
    exact h.delegated u hu hsuper r (hrow r hr hends.1) hhas g (hrow g hg hends.2) hlink

/-- A new user holds nothing. -/
theorem Segregated.createUser (h : Segregated db.toTables) {data : UserRepository.NewUser}
    {user : User}
    (hcommit : UserRepository.createTx data db.toTables = .ok (user, db'.toTables, es)) :
    Segregated db'.toTables := by
  obtain ⟨users, hinsert, ht, _⟩ := UserRepository.createTx_eq_ok hcommit
  obtain ⟨hfresh, happend⟩ := Table.insert?_eq_some hinsert
  have hrow : ∀ u ∈ db'.users.rows, (db.users.get u.id).isSome → u ∈ db.users.rows := by
    intro u hu hsome
    rw [ht, happend, List.mem_append, List.mem_singleton] at hu
    rcases hu with hu | rfl
    · exact hu
    · rw [hfresh] at hsome
      cases hsome
  have hroles : db'.roles = db.roles := by rw [ht]
  have hheld : db'.userRoles = db.userRoles := by rw [ht]
  have hlinks : db'.roleGrantableRoles = db.roleGrantableRoles := by rw [ht]
  refine ⟨?_, ?_, ?_⟩
  · intro u hu r hr hhas
    rw [hroles] at hr
    rw [hheld] at hhas
    exact h.held u (hrow u hu (db.constraints.userRole _ hhas).1) r hr hhas
  · rw [hroles, hlinks]
    exact h.owned
  · intro u hu hsuper r hr hhas g hg hlink
    rw [hroles] at hr hg
    rw [hheld] at hhas
    rw [hlinks] at hlink
    exact h.delegated u (hrow u hu (db.constraints.userRole _ hhas).1) hsuper r hr hhas g hg hlink

/-- A user of the actor's tenant can be given what the actor delegates. -/
theorem Segregated.delegates {actor : User} {roleId : RoleId} (h : Segregated db.toTables)
    (hactor : ∃ u ∈ db.users.rows, u.id = actor.id ∧ u.tenantId = actor.tenantId ∧
      u.isSuperuser = false)
    (hdelegates : db.toTables.DelegatesRole actor.id roleId) :
    ∀ g ∈ db.roles.rows, g.id = roleId → InScope actor.tenantId g := by
  intro g hg hid
  obtain ⟨u, hu, huid, hutenant, husuper⟩ := hactor
  obtain ⟨held, hheld, hlink⟩ := hdelegates
  obtain ⟨r, hr⟩ := Option.isSome_iff_exists.mp (db.constraints.userRole _ hheld).2
  have hrid : r.id = held := Table.key_of_get hr
  have hscope := h.delegated u hu husuper r (Table.mem_of_get hr) (by rw [huid, hrid]; exact hheld)
    g hg (by rw [hrid, hid]; exact hlink)
  rw [hutenant] at hscope
  exact hscope

/-- A role that its holders can be given by the actor. -/
theorem Segregated.assignToUser {actor : User} {roleId : RoleId} {userId : Uuid}
    {target : User} (h : Segregated db.toTables)
    (hactor : ∃ u ∈ db.users.rows, u.id = actor.id ∧ u.tenantId = actor.tenantId ∧
      u.isSuperuser = false)
    (hdelegates : db.toTables.DelegatesRole actor.id roleId)
    (htarget : db.users.get userId = some target) (hsame : target.tenantId = actor.tenantId)
    (hcontained : (Change.assignToUser roleId userId).Contained db.toTables)
    (hcommit : RoleRepository.assignToUserTx roleId userId db.toTables =
      .ok ((), db'.toTables, es)) : Segregated db'.toTables := by
  obtain ⟨_, ht, _⟩ := RoleRepository.assignToUserTx_eq_ok hcommit
  have hroles : db'.roles = db.roles := by rw [ht]; rfl
  have hlinks : db'.roleGrantableRoles = db.roleGrantableRoles := by rw [ht]; rfl
  have hheld : db'.userRoles = insert (userId, roleId) db.userRoles := by rw [ht]; rfl
  have husers : ∀ u' ∈ db'.users.rows, ∃ u ∈ db.users.rows, u.id = u'.id ∧
      u.tenantId = u'.tenantId ∧ u.isSuperuser = u'.isSuperuser := by
    rw [ht]
    exact rowsFrom_bumped
  refine ⟨?_, ?_, ?_⟩
  · intro u' hu' r hr hhas
    obtain ⟨u, hu, huid, hutenant, _⟩ := husers u' hu'
    rw [hroles] at hr
    rw [hheld, ← huid] at hhas
    rw [← hutenant]
    rcases Finset.mem_insert.mp hhas with hnew | hold
    · obtain ⟨hid, hrid⟩ := Prod.mk.inj hnew
      rw [Table.eq_of_get hu hid htarget, hsame]
      exact h.delegates hactor hdelegates r hr hrid
    · exact h.held u hu r hr hold
  · rw [hroles, hlinks]
    exact h.owned
  · intro u' hu' hsuper r hr hhas g hg hlink
    obtain ⟨u, hu, huid, hutenant, husuper⟩ := husers u' hu'
    rw [hroles] at hr hg
    rw [hheld, ← huid] at hhas
    rw [hlinks] at hlink
    rw [← hutenant]
    rcases Finset.mem_insert.mp hhas with hnew | hold
    · obtain ⟨hid, hrid⟩ := Prod.mk.inj hnew
      rw [hrid] at hlink
      exact hcontained u hu hid (husuper.trans hsuper) g hg hlink
    · exact h.delegated u hu (husuper.trans hsuper) r hr hold g hg hlink

/-- The holders of the role may be given all that it delegates. -/
theorem Segregated.addGrantableRole {roleId grantableRoleId : RoleId}
    (h : Segregated db.toTables)
    (hcontained : (Change.addGrantableRole roleId grantableRoleId).Contained db.toTables)
    (hcommit : RoleRepository.addGrantableRoleTx roleId grantableRoleId db.toTables =
      .ok ((), db'.toTables, es)) : Segregated db'.toTables := by
  obtain ⟨ht, _⟩ := RoleRepository.addGrantableRoleTx_eq_ok hcommit
  rw [ht]
  refine ⟨h.held, ?_, ?_⟩
  · intro r hr htenant g hg hlink
    rcases Finset.mem_insert.mp hlink with hnew | hold
    · obtain ⟨hrid, hgid⟩ := Prod.mk.inj hnew
      exact (hcontained g hg hgid).1 r hr hrid htenant
    · exact h.owned r hr htenant g hg hold
  · intro u hu hsuper r hr hhas g hg hlink
    rcases Finset.mem_insert.mp hlink with hnew | hold
    · obtain ⟨hrid, hgid⟩ := Prod.mk.inj hnew
      rw [hrid] at hhas
      exact (hcontained g hg hgid).2 u hu hsuper hhas
    · exact h.delegated u hu hsuper r hr hhas g hg hold

/-- An authorized change that is contained. -/
theorem Segregated.step {actor : User} {c : Change} (h : Segregated db.toTables)
    (hactor : ∃ u ∈ db.users.rows, u.id = actor.id ∧ u.tenantId = actor.tenantId ∧
      u.isSuperuser = false)
    (hauth : c.Authorized actor db.toTables) (hcontained : c.Contained db.toTables)
    (hcommit : c.Commits db db' es) : Segregated db'.toTables := by
  obtain ⟨tokens, ht⟩ := Change.commits_apply hcommit
  cases c with
  | createRole name tenantId permissions mask =>
    obtain ⟨a, hcommit⟩ := hcommit
    exact h.createRole hcommit
  | createUser data =>
    obtain ⟨a, hcommit⟩ := hcommit
    exact h.createUser hcommit
  | addGrantableRole roleId grantableRoleId =>
    obtain ⟨a, hcommit⟩ := hcommit
    exact h.addGrantableRole hcontained hcommit
  | assignToUser roleId userId =>
    obtain ⟨a, hcommit⟩ := hcommit
    obtain ⟨hdelegates, target, htarget, hsame⟩ := hauth
    exact h.assignToUser hactor hdelegates htarget hsame hcontained hcommit
  | updateRole role data =>
    rw [ht]
    exact h.of_subset ⟨rowsFrom_update_role (by intro _; rfl) (fun _ => rfl),
      rowsFrom_same_user _⟩ (Finset.Subset.refl _) (Finset.Subset.refl _)
  | deleteRole role =>
    rw [ht]
    exact h.of_subset ⟨fun r hr => rowsFrom_same_role _ r (Table.mem_delete hr),
      rowsFrom_same_user _⟩ (Finset.filter_subset _ _) (Finset.filter_subset _ _)
  | addPermission role permission | removePermission role permission =>
    rw [ht]
    exact h.of_subset ⟨rowsFrom_update_role (by intro _; rfl) (fun _ => rfl),
      rowsFrom_update_user (by intro _; rfl) (fun _ => rfl) (fun _ => rfl)⟩
      (Finset.Subset.refl _) (Finset.Subset.refl _)
  | removeGrantableRole roleId grantableRoleId =>
    rw [ht]
    exact h.of_subset ⟨rowsFrom_same_role _, rowsFrom_same_user _⟩ (Finset.Subset.refl _)
      (Finset.erase_subset _ _)
  | addGrantablePermission roleId permissionId | removeGrantablePermission roleId permissionId =>
    rw [ht]
    exact h.of_subset ⟨rowsFrom_same_role _, rowsFrom_same_user _⟩ (Finset.Subset.refl _)
      (Finset.Subset.refl _)
  | removeFromUser roleId userId =>
    rw [ht]
    exact h.of_subset ⟨rowsFrom_same_role _,
      rowsFrom_update_user (by intro _; rfl) (fun _ => rfl) (fun _ => rfl)⟩
      (Finset.erase_subset _ _) (Finset.Subset.refl _)
  | grantPermission user permission | revokePermission user permission
  | setUserActive user isActive =>
    rw [ht]
    exact h.of_subset ⟨rowsFrom_same_role _,
      rowsFrom_update_user (by intro _; rfl) (fun _ => rfl) (fun _ => rfl)⟩
      (Finset.Subset.refl _) (Finset.Subset.refl _)
  | _ => exact hauth.elim

end Step

/-! ### One call -/

/-- The actor's row is there, with the columns that the checks have read. -/
def ActorIn (actor : User) (db : Db) : Prop :=
  ∃ u, db.users.get actor.id = some u ∧ u.tenantId = actor.tenantId ∧ u.isSuperuser = false

section Request

variable {actor : User} {db db' : Db} {es : List Event} {call : Call}

theorem ActorIn.row (h : ActorIn actor db) :
    ∃ u ∈ db.users.rows, u.id = actor.id ∧ u.tenantId = actor.tenantId ∧
      u.isSuperuser = false := by
  obtain ⟨u, hu, htenant, hsuper⟩ := h
  exact ⟨u, Table.mem_of_get hu, Table.key_of_get hu, htenant, hsuper⟩

/-- One transaction of a call, when its change is contained. -/
theorem Segregated.performed (h : Segregated db.toTables) (hin : ActorIn actor db)
    (hsuper : actor.isSuperuser = false)
    (hcontained : ∀ c : Change, call.Performs c → c.Authorized actor db.toTables →
      c.Commits db db' es → c.Contained db.toTables)
    (hstep : Performed actor call db db' es) : Segregated db'.toTables ∧ ActorIn actor db' := by
  obtain ⟨c, hperforms, hcur, hauth, hcommit⟩ := hstep
  refine ⟨h.step hin.row (hauth hsuper) (hcontained c hperforms (hauth hsuper) hcommit) hcommit, ?_⟩
  obtain ⟨u, hu, htenant, hnot⟩ := hin
  obtain ⟨u', hu', hrow⟩ := Change.row_step hcur hcommit hu
  exact ⟨u', hu', hrow.tenantId.trans htenant, hrow.isSuperuser.trans hnot⟩

/-- The links of a new role are contained when all who hold a role of its
author belong to the author's tenant. -/
theorem Segregated.linksHeld {s s' : Db} {data : RoleCreate} (h : Segregated s.toTables)
    (hin : ActorIn actor s) (hloaded : db.toTables.Loaded (db.toTables.loadUser actor))
    (husers : s.users = db.users) (hheld : s.userRoles = db.userRoles)
    (hcall : (Call.createRole data).Contained db.toTables actor)
    (hlinks : LinksHeld (db.toTables.loadUser actor) s s') {c : Change}
    (hperforms : (Call.createRole data).Performs c) (hauth : c.Authorized actor s.toTables)
    (hcommit : c.Commits s s' es) : c.Contained s.toTables := by
  cases c with
  | createRole name tenantId permissions mask => trivial
  | addGrantableRole roleId grantableRoleId =>
    intro g hg hgid
    obtain ⟨a, hcommit⟩ := hcommit
    obtain ⟨ht, _⟩ := RoleRepository.addGrantableRoleTx_eq_ok hcommit
    have hnew : (roleId, grantableRoleId) ∈ s'.roleGrantableRoles := by
      rw [ht]
      exact Finset.mem_insert_self _ _
    rcases hlinks.2.2 _ hnew with hold | hroleId
    · rw [← hgid] at hold
      refine ⟨fun r hr hrid htenant => h.owned r hr htenant g hg (by rw [hrid]; exact hold), ?_⟩
      intro u hu hnot hhas
      obtain ⟨r, hr⟩ := Option.isSome_iff_exists.mp (s.constraints.userRole _ hhas).2
      obtain rfl := Table.key_of_get hr
      exact h.delegated u hu hnot r (Table.mem_of_get hr) hhas g hg hold
    · have hhasActor : (actor.id, roleId) ∈ s.userRoles := by
        rw [hheld]
        exact hloaded.held hroleId
      have hscope : InScope actor.tenantId g := by
        rcases hauth with hdelegates | ⟨role, hrole, htenant⟩
        · exact h.delegates hin.row hdelegates g hg hgid
        · rw [← hgid, Table.get_of_mem hg] at hrole
          obtain rfl := Option.some.inj hrole
          exact Or.inr htenant
      refine ⟨?_, ?_⟩
      · intro r hr hrid htenant
        obtain ⟨u, hu, huid, hutenant, _⟩ := hin.row
        rcases h.held u hu r hr (by rw [huid, hrid]; exact hhasActor) with hglobal | hsame
        · exact absurd hglobal htenant
        · rw [hsame, hutenant]
          exact hscope
      · intro u hu hnot hhas
        by_cases hnone : actor.tenantId = none
        · rcases hscope with hglobal | hsame
          · exact Or.inl hglobal
          · exact Or.inl (hsame.trans hnone)
        · rw [husers] at hu
          rw [hheld] at hhas hhasActor
          rw [hcall hnone _ hhasActor rfl u hu hnot hhas]
          exact hscope
  | _ => exact absurd hperforms id

/-- A call that is contained, successful or raising. -/
theorem Segregated.request {getPasswordHash : String → Except Err String}
    (h : Segregated db.toTables) (hactor : db.users.get actor.id = some actor)
    (hsuper : actor.isSuperuser = false) (hcall : call.Contained db.toTables actor) :
    Segregated (FastapiTemplate.request getPasswordHash actor.id call db).2.1.toTables := by
  have hin : ActorIn actor db := ⟨actor, hactor, rfl, hsuper⟩
  cases call with
  | createRole data =>
    have hdoes : Does (fun s s' es => Performed actor (.createRole data) s s' es ∧
        LinksHeld (db.toTables.loadUser actor) s s')
        (FastapiTemplate.request getPasswordHash actor.id (.createRole data)) db
        (fun _ _ => True) :=
      does_request_of hactor (fun hloaded => does_discard (does_createRole_linking hloaded))
    have hloaded : db.toTables.Loaded (db.toTables.loadUser actor) := by
      rw [Tables.Loaded, Tables.loadUser_toUser, UserRepository.getByIdWithGrants, hactor]
      rfl
    refine (hdoes.1.invariant (I := fun s => (Segregated s.toTables ∧ ActorIn actor s) ∧
      s.users = db.users ∧ s.userRoles = db.userRoles) ?_ ⟨⟨h, hin⟩, rfl, rfl⟩).1.1
    intro s s' es hstep hs
    obtain ⟨hstep, hlinks⟩ := hstep
    obtain ⟨⟨hs, hins⟩, husers, hheld⟩ := hs
    refine ⟨hs.performed hins hsuper ?_ hstep, hlinks.1.trans husers, hlinks.2.1.trans hheld⟩
    intro c hperforms hauth hcommit
    exact hs.linksHeld hins hloaded husers hheld hcall hlinks hperforms hauth hcommit
  | addGrantableRole roleId grantableRoleId =>
    have hdoes : Does (fun s s' es =>
        Performed actor (.addGrantableRole roleId grantableRoleId) s s' es ∧ s = db ∧
          ∀ role, db.roles.get roleId = some role → actor.isSuperuser = false →
            InScope actor.tenantId role)
        (FastapiTemplate.request getPasswordHash actor.id
          (.addGrantableRole roleId grantableRoleId)) db (fun _ _ => True) :=
      does_request_of hactor does_addGrantableRole_at
    refine (hdoes.1.invariant (I := fun s => Segregated s.toTables ∧ ActorIn actor s) ?_
      ⟨h, hin⟩).1
    intro s s' es hstep hs
    obtain ⟨hstep, rfl, hscope⟩ := hstep
    refine hs.1.performed hs.2 hsuper ?_ hstep
    intro c hperforms hauth _
    cases c with
    | addGrantableRole roleId' grantableRoleId' =>
      obtain ⟨rfl, rfl⟩ := hperforms
      intro g hg hgid
      refine ⟨?_, hcall g hg hgid⟩
      intro r hr hrid htenant
      have hr' := Table.get_of_mem hr
      rw [hrid] at hr'
      rcases hscope r hr' hsuper with hglobal | hown
      · exact absurd hglobal htenant
      · rw [hown]
        rcases hauth with hdelegates | ⟨role, hrole, hroleTenant⟩
        · exact hs.1.delegates hs.2.row hdelegates g hg hgid
        · rw [← hgid, Table.get_of_mem hg] at hrole
          obtain rfl := Option.some.inj hrole
          exact Or.inr hroleTenant
    | _ => exact absurd hperforms id
  | assignRole targetUserId roleId =>
    have hdoes : Does (fun s s' es =>
        Performed actor (.assignRole targetUserId roleId) s s' es ∧ s = db)
        (FastapiTemplate.request getPasswordHash actor.id (.assignRole targetUserId roleId)) db
        (fun _ _ => True) :=
      does_request_of hactor
        (fun hloaded => (does_assignRole_at hloaded).weaken (fun _ _ _ => trivial))
    refine (hdoes.1.invariant (I := fun s => Segregated s.toTables ∧ ActorIn actor s) ?_
      ⟨h, hin⟩).1
    intro s s' es hstep hs
    obtain ⟨hstep, rfl⟩ := hstep
    refine hs.1.performed hs.2 hsuper ?_ hstep
    intro c hperforms _ _
    cases c with
    | assignToUser roleId' userId =>
      obtain ⟨rfl, rfl⟩ := hperforms
      exact hcall
    | _ => exact absurd hperforms id
  | createTenantWithAdmin newTenantId newUserId data =>
    have hdoes : Does (fun _ _ _ => False) (FastapiTemplate.request getPasswordHash actor.id
        (.createTenantWithAdmin newTenantId newUserId data)) db (fun _ _ => True) := by
      refine does_request_of hactor (fun _ => ?_)
      refine does_discard (Q := fun _ _ => True) (Does.ensure_bind ?_)
      intro htrue
      rw [Tables.loadUser_toUser, hsuper] at htrue
      cases htrue
    exact hdoes.1.invariant (I := fun s => Segregated s.toTables) (fun _ _ _ hno => hno.elim) h
  | _ =>
    refine ((path_of_request hactor rfl).invariant
      (I := fun s => Segregated s.toTables ∧ ActorIn actor s) ?_ ⟨h, hin⟩).1
    intro s s' es hstep hs
    refine hs.1.performed hs.2 hsuper ?_ hstep
    intro c hperforms _ _
    cases c with
    | addGrantableRole => exact absurd hperforms id
    | assignToUser => exact absurd hperforms id
    | _ => trivial

end Request

/-! ### Runs -/

/-- After a run of contained calls every user holds only global roles and roles
of their own tenant. -/
theorem heldInScope_of_run {db db' : Db} (hheld : db.toTables.HeldInScope)
    (hlinks : db.toTables.LinkedInScope)
    (hrun : StaffRun (fun t actor call => call.Contained t actor) db db') :
    db'.toTables.HeldInScope := by
  have hend : Segregated db'.toTables := by
    induction hrun with
    | start => exact segregated_of_inScope hheld hlinks
    | call getPasswordHash actor call _ hactor hsuper hcall ih =>
      exact ih.request hactor hsuper hcall
  exact hend.held

/-! The global role `reader` is held in both tenants. The admin of one authors
a role, which the global one then delegates; a user of the other takes it. -/

def shared : Db := (request .ok 1 (.assignRole 11 3) sharing).2.1

def sharedBoss : User :=
  { boss with permVersion := 3 }

def secretAuthored : Db :=
  (request .ok sharedBoss.id (.createRole ⟨"secret", []⟩) shared).2.1

def leaked : Db := (request .ok carol.id (.assignRole carol.id 4) secretAuthored).2.1

theorem assignRole_crosses_tenants :
    shared.toTables.HeldInScope ∧ shared.toTables.LinkedInScope ∧
      StaffRun (fun _ _ _ => True) shared leaked ∧ ¬ leaked.toTables.HeldInScope := by
  have hfacts : (shared.toTables.HeldInScope ∧ shared.toTables.LinkedInScope) ∧
      shared.users.get sharedBoss.id = some sharedBoss ∧
      secretAuthored.users.get carol.id = some carol ∧ ¬ leaked.toTables.HeldInScope := by
    decide +kernel
  obtain ⟨hstart, hboss, hcarol, hend⟩ := hfacts
  have hauthored : StaffRun (fun _ _ _ => True) shared secretAuthored :=
    .call .ok sharedBoss _ .start hboss rfl trivial
  have hleaked : StaffRun (fun _ _ _ => True) shared leaked :=
    .call .ok carol _ hauthored hcarol rfl trivial
  exact ⟨hstart.1, hstart.2, hleaked, hend⟩

/-- Before the admin holds the global role, the new role stays in the tenant. -/
theorem heldInScope_of_run_sharing :
    (request .ok boss.id (.createRole ⟨"secret", []⟩) sharing).2.1.toTables.HeldInScope := by
  have hfacts : (sharing.toTables.HeldInScope ∧ sharing.toTables.LinkedInScope) ∧
      sharing.users.get boss.id = some boss ∧
      ∀ x ∈ sharing.userRoles, x.1 = boss.id → ∀ u ∈ sharing.users.rows,
        u.isSuperuser = false → (u.id, x.2) ∈ sharing.userRoles → u.tenantId = boss.tenantId := by
    decide +kernel
  obtain ⟨hstart, hboss, hholders⟩ := hfacts
  exact heldInScope_of_run hstart.1 hstart.2 (.call .ok boss _ .start hboss rfl
    (fun _ => hholders))

end FastapiTemplate
