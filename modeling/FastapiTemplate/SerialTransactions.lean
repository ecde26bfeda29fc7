import FastapiTemplate.Library.SerialRuns
import FastapiTemplate.VersionRace

/-!
What the scripts have to do with the transactions of the repositories. A script
whose statements all read the same committed data commits exactly what the
repository computes in one go from objects that are loaded from that data. So
in the runs where each session that commits would go the same way on what is
committed then, the tables move by whole repository transactions, which are
changes on current objects.
-/
namespace FastapiTemplate

open Library.KeyedTable Library.ReadCommitted Library.Committing

/-! ### The repository transactions -/

/-- The call of `RoleRepository`, once the role is loaded. -/
def Edit.tx (e : Edit) (role : LoadedRole) : Tx LoadedRole :=
  if e.adding then RoleRepository.addPermissionTx role e.permission
  else RoleRepository.removePermissionTx role e.permission

def Membership.tx (m : Membership) : Tx Unit :=
  if m.assigning then RoleRepository.assignToUserTx m.roleId m.userId
  else RoleRepository.removeFromUserTx m.roleId m.userId

/-- The call of `UserRepository`, once the user is loaded. -/
def Grant.tx (g : Grant) (user : LoadedUser) : Tx Unit :=
  if g.granting then UserRepository.grantPermissionTx user g.permission
  else UserRepository.revokePermissionTx user g.permission

/-- The rows that the new association row refers to. -/
def Edit.Refers (e : Edit) (t : Tables) : Prop :=
  e.adding = true → (t.permissions.get e.permission.id).isSome = true

def Membership.Refers (m : Membership) (t : Tables) : Prop :=
  m.assigning = true → (t.users.get m.userId).isSome = true ∧ (t.roles.get m.roleId).isSome = true

def Grant.Refers (g : Grant) (t : Tables) : Prop :=
  g.granting = true → (t.permissions.get g.permission.id).isSome = true

/-- The transaction of a script in one go: the objects are loaded from the
tables that it writes, and pass the check of the service. -/
inductive Point.Whole (t : Tables) : Point → Tables → Prop
  | edit {e : Edit} {role role' : LoadedRole} {t' : Tables} {es : List Event} :
      RoleRepository.getById t e.roleId = some role → e.check role.permissions = none →
      e.Refers t → e.tx role t = .ok (role', t', es) → Whole t (.loadRole e) t'
  | membership {m : Membership} {t' : Tables} {es : List Event} :
      m.Refers t → m.tx t = .ok ((), t', es) → Whole t (.writeMember m) t'
  | grant {g : Grant} {user : LoadedUser} {t' : Tables} {es : List Event} :
      UserRepository.getByIdWithGrants t g.userId = some user →
      g.check user.permissions = none → g.Refers t → g.tx user t = .ok ((), t', es) →
      Whole t (.loadUser g) t'

/-! ### What the repositories compute -/

theorem bind_of_ok {ε α β : Type} {x : Except ε α} {a : α} {f : α → Except ε β}
    (h : x = .ok a) : x >>= f = f a := by
  rw [h]
  rfl

theorem Tables.bumped_holders (t t' : Tables) (roleId : RoleId) :
    t'.bumped (t.holders roleId) = t'.bumpPermVersion (t.holds roleId) := by
  have hids : (fun userId => decide (userId ∈ t.holders roleId)) = t.holds roleId := by
    funext userId
    rw [Tables.holds, decide_eq_decide]
    simp only [Tables.holders, Finset.mem_image, Finset.mem_filter, Prod.exists]
    constructor
    · rintro ⟨user, role, ⟨hmem, rfl⟩, rfl⟩
      exact hmem
    · intro hmem
      exact ⟨userId, roleId, ⟨hmem, rfl⟩, rfl⟩
  rw [Tables.bumped, hids]

theorem Tables.bumped_singleton (t : Tables) (userId : Uuid) :
    t.bumped {userId} = t.bumpPermVersion (· = userId) := by
  rw [Tables.bumped]
  congr 1
  funext other
  simp only [Finset.mem_singleton]

/-- The role and its permissions, as a script loads them. -/
structure Edit.Passes (e : Edit) (t : Tables) (role : Role) : Prop where
  row : t.roles.get e.roleId = some role
  check : e.check (t.permissionsOf role.id) = none

structure Grant.Passes (g : Grant) (t : Tables) (user : User) : Prop where
  row : t.users.get g.userId = some user
  check : g.check (t.directPermissions user.id) = none

/-- The tables with the new mask in the row. -/
def Edit.masked (e : Edit) (t : Tables) (role : Role) : Tables :=
  e.setMask (e.mask role.permissionMask) t

/-- Rows that the function keeps are written back as they are. -/
theorem Library.KeyedTable.Table.update_fixed {ρ κ : Type*} {key : ρ → κ} (t : Table key)
    {p : ρ → Bool} {f : ρ → ρ} {hf : ∀ r, key (f r) = key r}
    (h : ∀ r ∈ t.rows, p r = true → f r = r) : t.update p f hf = t := by
  obtain ⟨rows, hnodup⟩ := t
  rw [Table.update, Table.mk.injEq]
  refine (List.map_congr_left ?_).trans (List.map_id _)
  intro r hr
  by_cases hp : p r = true
  · rw [if_pos hp, h r hr hp, id]
  · rw [if_neg hp, id]

section Edit

variable {e : Edit} {t : Tables} {role : Role}

theorem Edit.setMask_same (h : t.roles.get e.roleId = some role) :
    e.setMask role.permissionMask t = t := by
  rw [Edit.setMask, Table.update_fixed]
  intro r hr hid
  rw [Table.eq_of_get hr (of_decide_eq_true hid) h]

/-- The mask that is flushed: one that stays is not. -/
def Edit.flushes (e : Edit) (role : Role) : Option ℕ :=
  if e.mask role.permissionMask = role.permissionMask then none
  else some (e.mask role.permissionMask)

theorem Edit.flushed_flushes (h : t.roles.get e.roleId = some role) :
    e.flushed (e.flushes role) t = e.masked t role := by
  rw [Edit.flushes, Edit.masked]
  split
  · rename_i hmask
    rw [hmask, Edit.setMask_same h]
    rfl
  · rfl

theorem refresh_of_get {roleId : RoleId} (h : (t.roles.get roleId).isSome = true) :
    ∃ role', RoleRepository.refresh t roleId = .ok role' := by
  obtain ⟨row, hrow⟩ := Option.isSome_iff_exists.mp h
  refine ⟨t.loadRole row, ?_⟩
  rw [RoleRepository.refresh, RoleRepository.getById, hrow]
  rfl

/-- What the transaction leaves. -/
def Edit.outcome (e : Edit) (t : Tables) (role : Role) : Tables :=
  Tables.bumped (t.holders e.roleId) (e.link (e.masked t role))

theorem Edit.isSome_setMask (h : t.roles.get e.roleId = some role) (mask : ℕ) :
    ((e.setMask mask t).roles.get e.roleId).isSome = true := by
  rw [Edit.setMask, Table.get_update, h]
  rfl

/-- A removal has found the permission among the loaded ones. -/
theorem Edit.check_mem {permissions : List Permission} (h : e.check permissions = none)
    (hadding : e.adding = false) : e.permission.id ∈ permissions.map Permission.id := by
  by_contra hnot
  rw [Edit.check, hadding, if_neg Bool.false_ne_true, if_neg hnot] at h
  cases h

theorem Edit.Passes.tx_eq (h : e.Passes t role)
    (hlink : e.canLink (e.masked t role) = true) :
    ∃ role' es, e.tx (t.loadRole role) t = .ok (role', e.outcome t role, es) := by
  have hid : role.id = e.roleId := Table.key_of_get h.row
  have hmask : ∀ mask, t.setPermissionMask role.id mask = .ok (e.setMask mask t) := by
    intro mask
    rw [Tables.setPermissionMask, Tables.updateRole, hid, if_pos (by rw [h.row]; rfl)]
    rfl
  have hget : ((e.outcome t role).roles.get role.id).isSome = true := by
    rw [hid]
    exact Edit.isSome_setMask h.row _
  rw [Edit.outcome, Tables.bumped_holders, ← hid] at hget
  obtain ⟨role', hrefresh⟩ := refresh_of_get hget
  rw [Edit.outcome, Tables.bumped_holders, ← hid]
  cases hadding : e.adding with
  | true =>
    rw [Edit.canLink, if_pos hadding, ← hid] at hlink
    have hset : t.setPermissionMask role.id
        (RoleRepository.maskWith role.permissionMask e.permission) = .ok (e.masked t role) := by
      rw [hmask, Edit.masked, Edit.mask, if_pos hadding]
    have hinsert : Tables.insertLink (e.masked t role).rolePermissions
        (role.id, e.permission.id) = .ok (e.link (e.masked t role)).rolePermissions := by
      simp only [Edit.link, if_pos hadding, ← hid]
      exact if_neg (of_decide_eq_true hlink).1
    rw [Edit.tx, if_pos hadding]
    exact ⟨role', _, (bind_of_ok hset).trans ((bind_of_ok hinsert).trans (bind_of_ok hrefresh))⟩
  | false =>
    rw [Edit.canLink, hadding, if_neg Bool.false_ne_true, ← hid] at hlink
    have hset : t.setPermissionMask role.id
        (RoleRepository.maskWithout role.permissionMask e.permission) =
          .ok (e.masked t role) := by
      rw [hmask, Edit.masked, Edit.mask, hadding, if_neg Bool.false_ne_true]
    have hdelete : Tables.deleteLink (e.masked t role).rolePermissions
        (role.id, e.permission.id) = .ok (e.link (e.masked t role)).rolePermissions := by
      simp only [Edit.link, hadding, if_neg Bool.false_ne_true, ← hid]
      exact if_pos (of_decide_eq_true hlink)
    have hmem : e.permission.id ∈ (t.loadRole role).permissions.map Permission.id :=
      Edit.check_mem h.check hadding
    rw [Edit.tx, hadding, if_neg Bool.false_ne_true]
    unfold RoleRepository.removePermissionTx
    rw [if_neg (not_not_intro hmem)]
    exact ⟨role', _, (bind_of_ok hset).trans ((bind_of_ok hdelete).trans (bind_of_ok hrefresh))⟩

end Edit

theorem Membership.tx_eq {m : Membership} {t : Tables} (hlink : m.canLink t = true) :
    ∃ es, m.tx t = .ok ((), Tables.bumped {m.userId} (m.link t), es) := by
  rw [Tables.bumped_singleton]
  cases hassigning : m.assigning with
  | true =>
    have hfree : (m.userId, m.roleId) ∉ t.userRoles := by
      rw [Membership.canLink, if_pos hassigning] at hlink
      exact (of_decide_eq_true hlink).1
    have hinsert : Tables.insertLink t.userRoles (m.userId, m.roleId) =
        .ok (m.link t).userRoles := by
      simp only [Membership.link, if_pos hassigning]
      exact if_neg hfree
    rw [Membership.tx, if_pos hassigning]
    exact ⟨_, bind_of_ok hinsert⟩
  | false =>
    rw [Membership.tx, hassigning, if_neg Bool.false_ne_true, Membership.link, hassigning,
      if_neg Bool.false_ne_true]
    exact ⟨_, rfl⟩

def Grant.versioned (g : Grant) (t : Tables) (user : User) : Tables :=
  g.setVersion (user.permVersion + 1) t

theorem Grant.check_mem {g : Grant} {permissions : List Permission} (h : g.check permissions = none)
    (hgranting : g.granting = false) : g.permission.id ∈ permissions.map Permission.id := by
  by_contra hnot
  rw [Grant.check, hgranting, if_neg Bool.false_ne_true, if_neg hnot] at h
  cases h

theorem Grant.Passes.tx_eq {g : Grant} {t : Tables} {user : User} (h : g.Passes t user)
    (hlink : g.canLink (g.versioned t user) = true) :
    ∃ es, g.tx (t.loadUser user) t = .ok ((), g.link (g.versioned t user), es) := by
  have hid : user.id = g.userId := Table.key_of_get h.row
  have hset : t.setPermVersion user.id (user.permVersion + 1) = .ok (g.versioned t user) := by
    rw [Tables.setPermVersion, Tables.updateUser, hid, if_pos (by rw [h.row]; rfl)]
    rfl
  cases hgranting : g.granting with
  | true =>
    rw [Grant.canLink, if_pos hgranting, ← hid] at hlink
    have hinsert : Tables.insertLink (g.versioned t user).userPermissions
        (user.id, g.permission.id) = .ok (g.link (g.versioned t user)).userPermissions := by
      simp only [Grant.link, if_pos hgranting, ← hid]
      exact if_neg (of_decide_eq_true hlink).1
    rw [Grant.tx, if_pos hgranting]
    exact ⟨_, (bind_of_ok hset).trans (bind_of_ok hinsert)⟩
  | false =>
    rw [Grant.canLink, hgranting, if_neg Bool.false_ne_true, ← hid] at hlink
    have hdelete : Tables.deleteLink (g.versioned t user).userPermissions
        (user.id, g.permission.id) = .ok (g.link (g.versioned t user)).userPermissions := by
      simp only [Grant.link, hgranting, if_neg Bool.false_ne_true, ← hid]
      exact if_pos (of_decide_eq_true hlink)
    have hmem : g.permission.id ∈ (t.loadUser user).permissions.map Permission.id :=
      Grant.check_mem h.check hgranting
    rw [Grant.tx, hgranting, if_neg Bool.false_ne_true]
    unfold UserRepository.revokePermissionTx
    rw [if_neg (not_not_intro hmem)]
    exact ⟨_, (bind_of_ok hset).trans (bind_of_ok hdelete)⟩

/-! ### What a script knows -/

/-- What a script that began at a point has found in the tables, where nobody
else has committed. -/
inductive Point.Knows (t : Tables) : Point → Point → Prop
  | start {p : Point} : Knows t p p
  | raised {p : Point} {error : Err} : Knows t p (.raised error)
  | role {e : Edit} {role : Role} : t.roles.get e.roleId = some role →
      Knows t (.loadRole e) (.loadPermissions e role)
  | mask {e : Edit} {role : Role} : e.Passes t role →
      e.mask role.permissionMask ≠ role.permissionMask →
      Knows t (.loadRole e) (.flushMask e (e.mask role.permissionMask))
  | flushed {e : Edit} {role : Role} : e.Passes t role →
      Knows t (.loadRole e) (.flushLink e (e.flushes role))
  | linked {e : Edit} {role : Role} : e.Passes t role → e.canLink (e.masked t role) = true →
      Knows t (.loadRole e) (.findHolders e (e.flushes role))
  | found {e : Edit} {role : Role} : e.Passes t role → e.canLink (e.masked t role) = true →
      Knows t (.loadRole e) (.bumpHolders e (e.flushes role) (t.holders e.roleId))
  | edited {e : Edit} {role : Role} : e.Passes t role → e.canLink (e.masked t role) = true →
      Knows t (.loadRole e) (.commitEdit e (e.flushes role) (t.holders e.roleId))
  | member {m : Membership} : m.canLink t = true → Knows t (.writeMember m) (.bumpMember m)
  | joined {m : Membership} : m.canLink t = true → Knows t (.writeMember m) (.commitMember m)
  | user {g : Grant} {user : User} : t.users.get g.userId = some user →
      Knows t (.loadUser g) (.loadDirect g user)
  | direct {g : Grant} {user : User} : g.Passes t user →
      Knows t (.loadUser g) (.flushVersion g user)
  | versioned {g : Grant} {user : User} : g.Passes t user →
      Knows t (.loadUser g) (.flushGrant g user)
  | granted {g : Grant} {user : User} : g.Passes t user →
      g.canLink (g.versioned t user) = true → Knows t (.loadUser g) (.commitGrant g user)

theorem Point.starts_not_commit {p next : Point} (h : p.Starts) : p.code ≠ .commit next := by
  intro hcode
  cases p with
  | loadRole e => cases hcode
  | writeMember m => cases hcode
  | loadUser g => cases hcode
  | _ => cases h

section Knows

variable {t : Tables} {p q q' next : Point}

/-- The first statement finds the row, or raises. -/
theorem Point.Knows.first (hstarts : p.Starts) (h : Point.outline.AloneStep t p q) :
    Knows t p q := by
  cases p with
  | loadRole e =>
    have hq := h.of_select rfl
    have hpending : Point.outline.pending (.loadRole e) t = t := rfl
    rw [hpending] at hq
    cases hrole : t.roles.get e.roleId with
    | none =>
      rw [hrole] at hq
      rw [hq]
      exact .raised
    | some role =>
      rw [hrole] at hq
      rw [hq]
      exact .role hrole
  | writeMember m =>
    obtain ⟨hlink, rfl⟩ := h.of_write rfl
    exact .member hlink
  | loadUser g =>
    have hq := h.of_select rfl
    have hpending : Point.outline.pending (.loadUser g) t = t := rfl
    rw [hpending] at hq
    cases huser : t.users.get g.userId with
    | none =>
      rw [huser] at hq
      rw [hq]
      exact .raised
    | some user =>
      rw [huser] at hq
      rw [hq]
      exact .user huser
  | _ => cases hstarts

/-- The edit writes no membership. -/
theorem Edit.holders_pending (e : Edit) (mask : Option ℕ) :
    (Point.outline.pending (.findHolders e mask) t).holders e.roleId = t.holders e.roleId := by
  cases mask <;> rfl

theorem Edit.knows_afterLoad {e : Edit} {role : Role} (h : t.roles.get e.roleId = some role) :
    Point.Knows t (.loadRole e) (e.afterLoad role (t.permissionsOf role.id)) := by
  unfold Edit.afterLoad
  split
  · exact .raised
  · rename_i hcheck
    split
    · rename_i hmask
      have hflushes : e.flushes role = none := if_pos hmask
      rw [← hflushes]
      exact .flushed ⟨h, hcheck⟩
    · rename_i hmask
      exact .mask ⟨h, hcheck⟩ hmask

theorem Point.Knows.step (hstarts : p.Starts) (h : Knows t p q)
    (hstep : Point.outline.AloneStep t q q') : Knows t p q' := by
  cases h with
  | start => exact .first hstarts hstep
  | raised => exact absurd rfl hstep.not_halt
  | @role e role hrole =>
    obtain rfl := hstep.of_select rfl
    exact Edit.knows_afterLoad hrole
  | @mask e role hpasses hmask =>
    obtain ⟨_, rfl⟩ := hstep.of_write rfl
    have hflushes : e.flushes role = some (e.mask role.permissionMask) := if_neg hmask
    rw [← hflushes]
    exact .flushed hpasses
  | @flushed e role hpasses =>
    obtain ⟨hlink, rfl⟩ := hstep.of_write rfl
    have hpending : Point.outline.pending (.flushLink e (e.flushes role)) t = e.masked t role :=
      Edit.flushed_flushes hpasses.row
    rw [hpending] at hlink
    exact .linked hpasses hlink
  | @linked e role hpasses hlink =>
    obtain rfl := hstep.of_select rfl
    rw [Edit.holders_pending]
    exact .found hpasses hlink
  | found hpasses hlink =>
    obtain ⟨_, rfl⟩ := hstep.of_write rfl
    exact .edited hpasses hlink
  | member hlink =>
    obtain ⟨_, rfl⟩ := hstep.of_write rfl
    exact .joined hlink
  | @user g user huser =>
    have hq := hstep.of_select rfl
    have hpending : Point.outline.pending (.loadDirect g user) t = t := rfl
    rw [hpending] at hq
    cases hcheck : g.check (t.directPermissions user.id) with
    | some error =>
      rw [hcheck] at hq
      rw [hq]
      exact .raised
    | none =>
      rw [hcheck] at hq
      rw [hq]
      exact .direct ⟨huser, hcheck⟩
  | direct hpasses =>
    obtain ⟨_, rfl⟩ := hstep.of_write rfl
    exact .versioned hpasses
  | versioned hpasses =>
    obtain ⟨hlink, rfl⟩ := hstep.of_write rfl
    exact .granted hpasses hlink
  | edited _ _ => exact absurd rfl hstep.not_commit
  | joined _ => exact absurd rfl hstep.not_commit
  | granted _ _ => exact absurd rfl hstep.not_commit

/-- What is committed is the transaction of the repository. -/
theorem Point.Knows.whole (hstarts : p.Starts) (h : Knows t p q)
    (hcode : q.code = .commit next) : p.Whole t (Point.outline.pending q t) := by
  cases h with
  | start => exact absurd hcode (Point.starts_not_commit hstarts)
  | @edited e role hpasses hlink =>
    obtain ⟨role', es, htx⟩ := hpasses.tx_eq hlink
    have hpending : Point.outline.pending
        (.commitEdit e (e.flushes role) (t.holders e.roleId)) t = e.outcome t role := by
      rw [Edit.outcome, ← Edit.flushed_flushes hpasses.row]
      rfl
    rw [hpending]
    refine .edit ?_ hpasses.check ?_ htx
    · rw [RoleRepository.getById, hpasses.row]
      rfl
    · intro hadding
      rw [Edit.canLink, if_pos hadding] at hlink
      exact (of_decide_eq_true hlink).2.2
  | @joined m hlink =>
    obtain ⟨es, htx⟩ := Membership.tx_eq hlink
    refine .membership ?_ htx
    intro hassigning
    rw [Membership.canLink, if_pos hassigning] at hlink
    exact (of_decide_eq_true hlink).2
  | @granted g user hpasses hlink =>
    obtain ⟨es, htx⟩ := hpasses.tx_eq hlink
    refine .grant ?_ hpasses.check ?_ htx
    · rw [UserRepository.getByIdWithGrants, hpasses.row]
      rfl
    · intro hgranting
      rw [Grant.canLink, if_pos hgranting] at hlink
      exact (of_decide_eq_true hlink).2.2
  | _ => cases hcode

end Knows

theorem Point.knows_of_alone {t : Tables} {p q : Point} (hstarts : p.Starts)
    (h : Point.outline.Alone t p q) : Point.Knows t p q :=
  h.invariant (fun _ _ hknows hstep => hknows.step hstarts hstep) .start

/-- A script on its own commits what the repository commits. -/
theorem Point.whole_of_transacts {t t' : Tables} {p : Point} (hstarts : p.Starts)
    (h : Point.outline.Transacts p t t') : p.Whole t t' := by
  obtain ⟨q, next, halone, hcode, rfl⟩ := h
  exact (Point.knows_of_alone hstarts halone).whole hstarts hcode

/-! ### The script of a whole transaction -/

section Scripts

variable {t t' : Tables}

/-- With a role that passes the check the script comes to the association row. -/
theorem Edit.Passes.loads {e : Edit} {role : Role} (h : e.Passes t role) :
    Point.outline.Alone t (.loadRole e) (.flushLink e (e.flushes role)) := by
  have hrole : Point.outline.AloneStep t (.loadRole e) (.loadPermissions e role) := by
    refine Outline.aloneStep_of_select rfl ?_
    have hpending : Point.outline.pending (.loadRole e) t = t := rfl
    rw [hpending, h.row]
  have hafter : Point.outline.AloneStep t (.loadPermissions e role)
      (e.afterLoad role (t.permissionsOf role.id)) := Outline.aloneStep_of_select rfl rfl
  by_cases hmask : e.mask role.permissionMask = role.permissionMask
  · have hnext : e.afterLoad role (t.permissionsOf role.id) = .flushLink e none := by
      rw [Edit.afterLoad, h.check]
      exact if_pos hmask
    rw [hnext] at hafter
    rw [Edit.flushes, if_pos hmask]
    exact .tail (.single hrole) hafter
  · have hnext : e.afterLoad role (t.permissionsOf role.id) =
        .flushMask e (e.mask role.permissionMask) := by
      rw [Edit.afterLoad, h.check]
      exact if_neg hmask
    rw [hnext] at hafter
    have hflush : Point.outline.AloneStep t (.flushMask e (e.mask role.permissionMask))
        (.flushLink e (some (e.mask role.permissionMask))) := by
      refine .write rfl ?_
      change (t.roles.get e.roleId).isSome = true
      rw [h.row]
      rfl
    rw [Edit.flushes, if_neg hmask]
    exact .tail (.tail (.single hrole) hafter) hflush

theorem Edit.Passes.alone {e : Edit} {role : Role} (h : e.Passes t role)
    (hlink : e.canLink (e.masked t role) = true) :
    Point.outline.Alone t (.loadRole e)
      (.commitEdit e (e.flushes role) (t.holders e.roleId)) := by
  have hwrite : Point.outline.AloneStep t (.flushLink e (e.flushes role))
      (.findHolders e (e.flushes role)) := by
    refine .write rfl ?_
    change e.canLink (e.flushed (e.flushes role) t) = true
    rw [Edit.flushed_flushes h.row]
    exact hlink
  have hfind : Point.outline.AloneStep t (.findHolders e (e.flushes role))
      (.bumpHolders e (e.flushes role) (t.holders e.roleId)) := by
    refine Outline.aloneStep_of_select rfl ?_
    rw [Edit.holders_pending]
  have hbump : Point.outline.AloneStep t (.bumpHolders e (e.flushes role) (t.holders e.roleId))
      (.commitEdit e (e.flushes role) (t.holders e.roleId)) := .write rfl rfl
  exact ((h.loads.tail hwrite).tail hfind).tail hbump

theorem Edit.Passes.transacts {e : Edit} {role : Role} (h : e.Passes t role)
    (hlink : e.canLink (e.masked t role) = true) :
    Point.outline.Transacts (.loadRole e) t (e.outcome t role) := by
  refine ⟨_, _, h.alone hlink, rfl, ?_⟩
  rw [Edit.outcome, ← Edit.flushed_flushes h.row]
  rfl

theorem Membership.transacts {m : Membership} (hlink : m.canLink t = true) :
    Point.outline.Transacts (.writeMember m) t (Tables.bumped {m.userId} (m.link t)) := by
  have hwrite : Point.outline.AloneStep t (.writeMember m) (.bumpMember m) := .write rfl hlink
  have hbump : Point.outline.AloneStep t (.bumpMember m) (.commitMember m) := .write rfl rfl
  exact ⟨_, _, .tail (.single hwrite) hbump, rfl, rfl⟩

theorem Grant.Passes.alone {g : Grant} {user : User} (h : g.Passes t user)
    (hlink : g.canLink (g.versioned t user) = true) :
    Point.outline.Alone t (.loadUser g) (.commitGrant g user) := by
  have huser : Point.outline.AloneStep t (.loadUser g) (.loadDirect g user) := by
    refine Outline.aloneStep_of_select rfl ?_
    have hpending : Point.outline.pending (.loadUser g) t = t := rfl
    rw [hpending, h.row]
  have hdirect : Point.outline.AloneStep t (.loadDirect g user) (.flushVersion g user) := by
    refine Outline.aloneStep_of_select rfl ?_
    have hpending : Point.outline.pending (.loadDirect g user) t = t := rfl
    rw [hpending, h.check]
  have hversion : Point.outline.AloneStep t (.flushVersion g user) (.flushGrant g user) := by
    refine .write rfl ?_
    change (t.users.get g.userId).isSome = true
    rw [h.row]
    rfl
  have hgrant : Point.outline.AloneStep t (.flushGrant g user) (.commitGrant g user) :=
    .write rfl hlink
  exact .tail (.tail (.tail (.single huser) hdirect) hversion) hgrant

theorem Grant.Passes.transacts {g : Grant} {user : User} (h : g.Passes t user)
    (hlink : g.canLink (g.versioned t user) = true) :
    Point.outline.Transacts (.loadUser g) t (g.link (g.versioned t user)) :=
  ⟨_, _, h.alone hlink, rfl, rfl⟩

theorem Edit.canLink_of_tx {e : Edit} {role : Role} {role' : LoadedRole} {es : List Event}
    (hrow : t.roles.get e.roleId = some role) (hrefers : e.Refers t)
    (htx : e.tx (t.loadRole role) t = .ok (role', t', es)) :
    e.canLink (e.masked t role) = true := by
  have hid : role.id = e.roleId := Table.key_of_get hrow
  cases hadding : e.adding with
  | true =>
    rw [Edit.tx, if_pos hadding] at htx
    obtain ⟨_, hfree, _⟩ := RoleRepository.addPermissionTx_eq_ok htx
    rw [Edit.canLink, if_pos hadding]
    refine decide_eq_true ⟨?_, Edit.isSome_setMask hrow _, hrefers hadding⟩
    rw [← hid]
    exact hfree
  | false =>
    rw [Edit.tx, hadding, if_neg Bool.false_ne_true] at htx
    obtain ⟨_, hmem, _⟩ := RoleRepository.removePermissionTx_eq_ok htx
    rw [Edit.canLink, hadding, if_neg Bool.false_ne_true, ← hid]
    exact decide_eq_true hmem

theorem Membership.canLink_of_tx {m : Membership} {es : List Event} (hrefers : m.Refers t)
    (htx : m.tx t = .ok ((), t', es)) : m.canLink t = true := by
  cases hassigning : m.assigning with
  | true =>
    rw [Membership.tx, if_pos hassigning] at htx
    obtain ⟨hfree, _⟩ := RoleRepository.assignToUserTx_eq_ok htx
    rw [Membership.canLink, if_pos hassigning]
    exact decide_eq_true ⟨hfree, hrefers hassigning⟩
  | false => rw [Membership.canLink, hassigning, if_neg Bool.false_ne_true]

theorem Grant.canLink_of_tx {g : Grant} {user : User} {es : List Event}
    (hrow : t.users.get g.userId = some user) (hrefers : g.Refers t)
    (htx : g.tx (t.loadUser user) t = .ok ((), t', es)) :
    g.canLink (g.versioned t user) = true := by
  have hid : user.id = g.userId := Table.key_of_get hrow
  cases hgranting : g.granting with
  | true =>
    rw [Grant.tx, if_pos hgranting] at htx
    obtain ⟨_, hfree, _⟩ := UserRepository.grantPermissionTx_eq_ok htx
    have hsome : ((g.versioned t user).users.get g.userId).isSome = true := by
      rw [Grant.versioned, Grant.setVersion, Table.get_update, hrow]
      rfl
    rw [Grant.canLink, if_pos hgranting]
    refine decide_eq_true ⟨?_, hsome, hrefers hgranting⟩
    rw [← hid]
    exact hfree
  | false =>
    rw [Grant.tx, hgranting, if_neg Bool.false_ne_true] at htx
    obtain ⟨_, hmem, _⟩ := UserRepository.revokePermissionTx_eq_ok htx
    rw [Grant.canLink, hgranting, if_neg Bool.false_ne_true, ← hid]
    exact decide_eq_true hmem

/-- What the repository commits, a script on its own commits, too. -/
theorem Point.Whole.transacts {p : Point} (h : p.Whole t t') :
    Point.outline.Transacts p t t' := by
  cases h with
  | @edit e loaded role' _ es hloaded hcheck hrefers htx =>
    obtain ⟨role, hrow, rfl⟩ := Option.map_eq_some_iff.mp hloaded
    have hpasses : e.Passes t role := ⟨hrow, hcheck⟩
    have hlink := Edit.canLink_of_tx hrow hrefers htx
    obtain ⟨_, _, htx'⟩ := hpasses.tx_eq hlink
    cases htx.symm.trans htx'
    exact hpasses.transacts hlink
  | @membership m _ es hrefers htx =>
    have hlink := Membership.canLink_of_tx hrefers htx
    obtain ⟨_, htx'⟩ := Membership.tx_eq hlink
    cases htx.symm.trans htx'
    exact Membership.transacts hlink
  | @grant g loaded _ es hloaded hcheck hrefers htx =>
    obtain ⟨user, hrow, rfl⟩ := Option.map_eq_some_iff.mp hloaded
    have hpasses : g.Passes t user := ⟨hrow, hcheck⟩
    have hlink := Grant.canLink_of_tx hrow hrefers htx
    obtain ⟨_, htx'⟩ := hpasses.tx_eq hlink
    cases htx.symm.trans htx'
    exact hpasses.transacts hlink

end Scripts

/-- What it means that an edit would go the same way. -/
theorem Edit.alone_iff {t : Tables} {e : Edit} {mask : Option ℕ} {holders : Finset Uuid} :
    Point.outline.Alone t (.loadRole e) (.commitEdit e mask holders) ↔
      ∃ role, e.Passes t role ∧ e.canLink (e.masked t role) = true ∧ mask = e.flushes role ∧
        holders = t.holders e.roleId := by
  constructor
  · intro h
    have hstarts : (Point.loadRole e).Starts := trivial
    cases Point.knows_of_alone hstarts h with
    | edited hpasses hlink => exact ⟨_, hpasses, hlink, rfl, rfl⟩
  · rintro ⟨role, hpasses, hlink, rfl, rfl⟩
    exact hpasses.alone hlink

theorem Grant.alone_iff {t : Tables} {g : Grant} {user : User} :
    Point.outline.Alone t (.loadUser g) (.commitGrant g user) ↔
      g.Passes t user ∧ g.canLink (g.versioned t user) = true := by
  constructor
  · intro h
    have hstarts : (Point.loadUser g).Starts := trivial
    cases Point.knows_of_alone hstarts h with
    | granted hpasses hlink => exact ⟨hpasses, hlink⟩
  · rintro ⟨hpasses, hlink⟩
    exact hpasses.alone hlink

/-- A script whose statements all read the tables `t` commits exactly what the
repository commits in one go. -/
theorem transacts_iff {t t' : Tables} {p : Point} (hstarts : p.Starts) :
    Point.outline.Transacts p t t' ↔ p.Whole t t' :=
  ⟨Point.whole_of_transacts hstarts, Point.Whole.transacts⟩

/-- One of the two grants to ann. -/
def annGrant : Grant := ⟨true, 2, ⟨1, "role:create", some 0⟩⟩

theorem transacts_iff_ann : ∃ t', Point.outline.Transacts (.loadUser annGrant) joined.toTables t' ∧
    joined.toTables.versionOf 2 = some 1 ∧ t'.versionOf 2 = some 2 := by
  have htest : joined.toTables.versionOf 2 = some 1 ∧
      (joined.toTables.permissions.get 1).isSome = true ∧
      (UserRepository.getByIdWithGrants joined.toTables 2).any (fun user =>
        annGrant.check user.permissions = none ∧
        (annGrant.tx user joined.toTables).toOption.any (fun x =>
          x.2.1.versionOf 2 = some 2) = true) = true := by decide +kernel
  generalize joined.toTables = t at htest ⊢
  obtain ⟨hversion, hpermission, hloaded⟩ := htest
  obtain ⟨user, hget, hpasses⟩ := (Option.any_eq_true _ _).mp hloaded
  obtain ⟨hcheck, hcommits⟩ := of_decide_eq_true hpasses
  obtain ⟨⟨_, t', es⟩, htx, hmoved⟩ := (Option.any_eq_true _ _).mp hcommits
  have htx : annGrant.tx user t = .ok ((), t', es) := by
    cases hx : annGrant.tx user t with
    | error e =>
      rw [hx] at htx
      cases htx
    | ok x =>
      rw [hx] at htx
      rw [Option.some.inj htx]
  have hstarts : (Point.loadUser annGrant).Starts := trivial
  exact ⟨t', (transacts_iff hstarts).mpr (.grant hget hcheck (fun _ => hpermission) htx), hversion,
    of_decide_eq_true hmoved⟩

/-! ### Runs of many scripts -/

/-- The transaction has committed. -/
def Point.IsDone : Point → Prop
  | done _ => True
  | _ => False

theorem Point.not_done_select {p : Point} {next : Tables → Point} (h : p.code = .select next)
    (t : Tables) : ¬ (next t).IsDone := by
  intro hdone
  cases p with
  | loadRole e =>
    obtain rfl := Command.select.inj h
    dsimp only at hdone
    cases hrole : t.roles.get e.roleId <;> rw [hrole] at hdone <;> cases hdone
  | loadPermissions e role =>
    obtain rfl := Command.select.inj h
    unfold Edit.afterLoad at hdone
    dsimp only at hdone
    split at hdone
    · cases hdone
    · split at hdone <;> cases hdone
  | loadUser g =>
    obtain rfl := Command.select.inj h
    dsimp only at hdone
    cases huser : t.users.get g.userId <;> rw [huser] at hdone <;> cases hdone
  | loadDirect g user =>
    obtain rfl := Command.select.inj h
    dsimp only at hdone
    cases hcheck : g.check (t.directPermissions user.id) <;> rw [hcheck] at hdone <;> cases hdone
  | readRow userId =>
    obtain rfl := Command.select.inj h
    dsimp only at hdone
    cases huser : t.users.get userId <;> rw [huser] at hdone <;> cases hdone
  | _ =>
    cases h
    try cases hdone

theorem Point.ends : Ends Point.code Point.IsDone where
  commit := by
    intro p next hcode
    cases p <;> cases hcode <;> trivial
  select := Point.not_done_select
  write := by
    intro p rows guard effect next hcode hdone
    cases p <;> cases hcode <;> cases hdone
  halt := by
    intro p hdone
    cases p with
    | done users => rfl
    | _ => cases hdone

/-! ### Memberships -/

/-- What a membership script has found, as long as it holds. -/
inductive Membership.Holds (m : Membership) (t : Tables) : Point → Prop
  | writeMember : Holds m t (.writeMember m)
  | bumpMember : m.canLink t = true → Holds m t (.bumpMember m)
  | commitMember : m.canLink t = true → Holds m t (.commitMember m)
  | done (users : Finset Uuid) : Holds m t (.done users)

section Members

variable {m : Membership} {t t' : Tables} {p q : Point}

theorem Membership.Holds.moves (h : m.Holds t p) (hmoves : Point.outline.Moves t p t' (some q)) :
    m.Holds t' q := by
  cases h with
  | writeMember =>
    obtain ⟨rfl, hnone | ⟨hlink, hnext⟩⟩ := hmoves.of_write rfl
    · cases hnone
    · obtain rfl := Option.some.inj hnext
      exact .bumpMember hlink
  | bumpMember hlink =>
    obtain ⟨rfl, hnone | ⟨_, hnext⟩⟩ := hmoves.of_write rfl
    · cases hnone
    · obtain rfl := Option.some.inj hnext
      exact .commitMember hlink
  | commitMember hlink =>
    rcases hmoves.of_commit rfl with ⟨_, hnone⟩ | ⟨_, hnext⟩
    · cases hnone
    · obtain rfl := Option.some.inj hnext
      exact .done _
  | done users => exact absurd rfl hmoves.not_halt

/-- It could start over and come to the same point. -/
theorem Membership.Holds.alone (h : m.Holds t p) (hcode : p.code ≠ .halt) :
    Point.outline.Alone t (.writeMember m) p := by
  have hbump : Point.outline.AloneStep t (.bumpMember m) (.commitMember m) := .write rfl rfl
  cases h with
  | writeMember => exact .refl
  | bumpMember hlink => exact .single (.write rfl hlink)
  | commitMember hlink => exact .tail (.single (.write rfl hlink)) hbump
  | done users => exact absurd rfl hcode

/-- The link of a user and a role, as far as the scripts write it. -/
def Tables.memberRow (row : Row) (t : Tables) : Bool :=
  match row with
  | .userRole userId roleId => (userId, roleId) ∈ t.userRoles
  | _ => false

theorem Membership.mem_link {x : Uuid × RoleId} (h : x ≠ (m.userId, m.roleId)) :
    x ∈ (m.link t).userRoles ↔ x ∈ t.userRoles := by
  unfold Membership.link
  split
  · exact Finset.mem_insert.trans (or_iff_right h)
  · exact Finset.mem_erase.trans (and_iff_right h)

/-- A link is written only under the lock of its row. -/
theorem Point.locks_members : Point.outline.Locks Tables.memberRow := by
  intro p row hfree t
  cases row with
  | userRole userId roleId =>
    change decide ((userId, roleId) ∈ (p.pending t).userRoles) =
      decide ((userId, roleId) ∈ t.userRoles)
    change Row.userRole userId roleId ∉ p.held at hfree
    rw [decide_eq_decide]
    cases p with
    | bumpMember m =>
      refine Membership.mem_link ?_
      intro hx
      cases hx
      exact hfree (Finset.mem_singleton_self _)
    | commitMember m =>
      refine Membership.mem_link (m := m) ?_
      intro hx
      cases hx
      exact hfree (Finset.mem_union_left _ (Finset.mem_singleton_self _))
    | flushLink e mask => cases mask <;> exact Iff.rfl
    | findHolders e mask => cases mask <;> exact Iff.rfl
    | bumpHolders e mask holders => cases mask <;> exact Iff.rfl
    | commitEdit e mask holders => cases mask <;> exact Iff.rfl
    | _ => exact Iff.rfl
  | _ => rfl

/-- No script deletes a user or a role, or makes one. -/
theorem Point.pending_rows (p : Point) (t : Tables) (userId : Uuid) (roleId : RoleId) :
    ((p.pending t).users.get userId).isSome = (t.users.get userId).isSome ∧
      ((p.pending t).roles.get roleId).isSome = (t.roles.get roleId).isSome := by
  have hflushed : ∀ (e : Edit) mask, ((e.flushed mask t).roles.get roleId).isSome =
      (t.roles.get roleId).isSome := by
    intro e mask
    cases mask with
    | none => rfl
    | some mask =>
      rw [Edit.flushed, Edit.setMask, Table.get_update, Option.isSome_map]
  have husers : ∀ (e : Edit) mask, ((e.flushed mask t).users.get userId).isSome =
      (t.users.get userId).isSome := by
    intro e mask
    cases mask <;> rfl
  cases p with
  | flushLink e mask => exact ⟨husers e mask, hflushed e mask⟩
  | findHolders e mask => exact ⟨husers e mask, hflushed e mask⟩
  | bumpHolders e mask holders => exact ⟨husers e mask, hflushed e mask⟩
  | commitEdit e mask holders =>
    refine ⟨?_, hflushed e mask⟩
    change ((Tables.bumped holders (e.link (e.flushed mask t))).users.get userId).isSome = _
    rw [Tables.bumped, Tables.get_bumpPermVersion, Option.isSome_map]
    exact husers e mask
  | commitMember m =>
    refine ⟨?_, rfl⟩
    change ((Tables.bumped {m.userId} (m.link t)).users.get userId).isSome = _
    rw [Tables.bumped, Tables.get_bumpPermVersion, Option.isSome_map]
    rfl
  | flushGrant g user =>
    refine ⟨?_, rfl⟩
    rw [pending, Grant.setVersion, Table.get_update, Option.isSome_map]
  | commitGrant g user =>
    refine ⟨?_, rfl⟩
    change ((g.setVersion (user.permVersion + 1) t).users.get userId).isSome = _
    rw [Grant.setVersion, Table.get_update, Option.isSome_map]
  | _ => exact ⟨rfl, rfl⟩

end Members

/-- The sessions before their first statements. -/
def Database.opening {ι : Type*} (t : Tables) (begins : ι → Point) : Database ι :=
  ⟨t, fun i => some (.start (begins i))⟩

section Runs

variable {ι : Type*} [DecidableEq ι] {t : Tables} {begins : ι → Point} {s s' : Database ι}
  {i j : ι} {m : Membership}

omit [DecidableEq ι] in
theorem Database.opening_opens (hstarts : ∀ i, (begins i).Starts) :
    (Database.opening t begins).Opens Point.Starts :=
  fun i => ⟨begins i, hstarts i, rfl⟩

theorem Point.Starts.not_done {p : Point} (h : p.Starts) : ¬ p.IsDone := by
  intro hdone
  cases p with
  | done users => cases h
  | _ => cases hdone

omit [DecidableEq ι] in
theorem Database.opening_serial (hstarts : ∀ i, (begins i).Starts) :
    Serial Point.outline begins Point.IsDone t (Database.opening t begins) [] := by
  refine ⟨(Database.opening_opens hstarts).fits, List.nodup_nil, ?_, .nil t⟩
  intro i
  refine iff_of_false List.not_mem_nil ?_
  rintro ⟨p, hp, hdone⟩
  obtain rfl := Option.some.inj hp
  exact (hstarts i).not_done hdone

/-- The row that a membership script has locked keeps what it has found. -/
theorem Membership.canLink_step (hstep : Step Point.code s j s') (hfits : Point.outline.Fits s)
    (hs : s.Exclusive) (hne : i ≠ j) {y : Session Tables Row Point} (hy : s.sessions i = some y)
    (hheld : Row.userRole m.userId m.roleId ∈ y.held) :
    m.canLink s'.committed = m.canLink s.committed := by
  have hrow := hstep.held_row Point.locks_members hfits hs hne hy hheld
  change decide ((m.userId, m.roleId) ∈ s'.committed.userRoles) =
    decide ((m.userId, m.roleId) ∈ s.committed.userRoles) at hrow
  rw [decide_eq_decide] at hrow
  have hrows : (s'.committed.users.get m.userId).isSome =
      (s.committed.users.get m.userId).isSome ∧
      (s'.committed.roles.get m.roleId).isSome = (s.committed.roles.get m.roleId).isSome := by
    obtain ⟨p, _, hmoves⟩ := hfits.moves hstep
    generalize s'.committed = c', s'.point j = q at hmoves
    cases hmoves with
    | select _ => exact ⟨rfl, rfl⟩
    | write _ _ => exact ⟨rfl, rfl⟩
    | commit _ => exact Point.pending_rows p _ _ _
    | rollback _ => exact ⟨rfl, rfl⟩
  unfold Membership.canLink
  split
  · rw [decide_eq_decide, hrow, hrows.1, hrows.2]
  · rfl

/-- Everything that the membership scripts have found holds. -/
structure MembersHold (begins : ι → Point) (s : Database ι) : Prop where
  fits : Point.outline.Fits s
  exclusive : s.Exclusive
  holds : ∀ i m, begins i = .writeMember m → ∀ p, s.point i = some p → m.Holds s.committed p

omit [DecidableEq ι] in
theorem Database.opening_membersHold (hstarts : ∀ i, (begins i).Starts) :
    MembersHold begins (Database.opening t begins) := by
  have hopens : (Database.opening t begins).Opens Point.Starts := Database.opening_opens hstarts
  refine ⟨hopens.fits, hopens.exclusive, ?_⟩
  intro i m hbegins p hp
  obtain rfl := Option.some.inj hp
  change m.Holds t (begins i)
  rw [hbegins]
  exact .writeMember

theorem MembersHold.step (h : MembersHold begins s) (hstep : Step Point.code s j s') :
    MembersHold begins s' := by
  refine ⟨h.fits.step hstep, hstep.exclusive h.exclusive, ?_⟩
  intro i m hbegins p hp
  by_cases hne : i = j
  · subst hne
    obtain ⟨p₀, hp₀, hmoves⟩ := h.fits.moves hstep
    rw [hp] at hmoves
    exact (h.holds i m hbegins p₀ hp₀).moves hmoves
  · rw [hstep.point_of_ne hne] at hp
    obtain ⟨y, hy, rfl⟩ := Option.map_eq_some_iff.mp hp
    have hheld := (h.fits i y hy).2
    have hfound := h.holds i m hbegins y.point hp
    cases hpoint : y.point <;> rw [hpoint] at hfound hheld <;> cases hfound
    · exact .writeMember
    · rename_i hlink
      refine .bumpMember ?_
      rw [Membership.canLink_step hstep h.fits h.exclusive hne hy ?_]
      · exact hlink
      · rw [hheld]
        exact Finset.mem_singleton_self _
    · rename_i hlink
      refine .commitMember ?_
      rw [Membership.canLink_step hstep h.fits h.exclusive hne hy ?_]
      · exact hlink
      · rw [hheld]
        exact Finset.mem_union_left _ (Finset.mem_singleton_self _)
    · exact .done _

/-- A session that loads an object is validated when it commits. -/
def LoadsValid (begins : ι → Point) (s : Database ι) (i : ι) (s' : Database ι) : Prop :=
  (∀ m, begins i ≠ .writeMember m) → Point.outline.Valid begins s i s'

omit [DecidableEq ι] in
theorem MembersHold.valid (h : MembersHold begins s) (hloads : LoadsValid begins s i s') :
    Point.outline.Valid begins s i s' := by
  by_cases hmember : ∃ m, begins i = .writeMember m
  · obtain ⟨m, hbegins⟩ := hmember
    intro p next hp hcode _
    rw [hbegins]
    refine (h.holds i m hbegins p hp).alone ?_
    rw [hcode]
    exact fun hhalt => by cases hhalt
  · exact hloads (fun m hbegins => hmember ⟨m, hbegins⟩)

/-- When every edit and every grant that commits would go the same way on what
is committed then, the tables move by whole repository transactions, one for
each session that has committed. -/
theorem commits_serial (hstarts : ∀ i, (begins i).Starts)
    (hrun : Steps Point.code (LoadsValid begins) (Database.opening t begins) s) :
    ∃ order : List ι, order.Nodup ∧
      (∀ i, i ∈ order ↔ ∃ p, s.point i = some p ∧ p.IsDone) ∧
      InTurn (fun i t t' => (begins i).Whole t t') order t s.committed := by
  have hall : MembersHold begins s ∧
      ∃ order, Serial Point.outline begins Point.IsDone t s order := by
    refine hrun.invariant (I := fun s => MembersHold begins s ∧
      ∃ order, Serial Point.outline begins Point.IsDone t s order) ?_
      ⟨Database.opening_membersHold hstarts, [], Database.opening_serial hstarts⟩
    rintro s i s' hloads hstep ⟨hmembers, order, hserial⟩
    exact ⟨hmembers.step hstep, hserial.step Point.ends (hmembers.valid hloads) hstep⟩
  obtain ⟨_, order, h⟩ := hall
  refine ⟨order, h.nodup, h.mem_iff, h.turns.mono ?_⟩
  exact fun i _ _ => Point.whole_of_transacts (hstarts i)

end Runs

/-! ### Two grants that overlap -/

deriving instance DecidableEq for Point

/-- Grants to root and to ann. -/
def twoBegins (i : Bool) : Point :=
  .loadUser (if i then annGrant else ⟨true, 1, ⟨2, "role:read", some 1⟩⟩)

/-- Both users are loaded before either transaction commits. -/
def grantsOverlapping : List Bool :=
  [false, true, false, true, true, false, true, false, true, false]

/-- The test of `LoadsValid` for grants. -/
def isValid (begins : Bool → Point) (s : Database Bool) (i : Bool) : Bool :=
  match s.point i with
  | some (.commitGrant g user) =>
    begins i = .loadUser g ∧ s.committed.users.get g.userId = some user ∧
      g.check (s.committed.directPermissions user.id) = none ∧
      g.canLink (g.versioned s.committed user) = true
  | some (.commitEdit _ _ _) => false
  | some (.commitMember _) => false
  | _ => true

theorem valid_of_isValid {begins : Bool → Point} {s s' : Database Bool} {i : Bool}
    (h : isValid begins s i = true) : LoadsValid begins s i s' := by
  intro _ p next hp hcode _
  unfold isValid at h
  rw [hp] at h
  cases p with
  | commitGrant g user =>
    obtain ⟨hbegins, hrow, hcheck, hlink⟩ := of_decide_eq_true h
    rw [hbegins]
    exact Grant.alone_iff.mpr ⟨⟨hrow, hcheck⟩, hlink⟩
  | commitEdit e mask holders => cases h
  | commitMember m => cases h
  | _ => cases hcode

theorem commits_serial_grants : ∃ s : Database Bool,
    Steps Point.code (LoadsValid twoBegins) (Database.opening joined.toTables twoBegins) s ∧
    s.committed.versionOf 1 = some 2 ∧ s.committed.versionOf 2 = some 2 ∧
    ∃ order : List Bool, order.Nodup ∧
      (∀ i, i ∈ order ↔ ∃ p, s.point i = some p ∧ p.IsDone) ∧
      InTurn (fun i t t' => (twoBegins i).Whole t t') order joined.toTables s.committed := by
  have hrun : (schedule Point.code (isValid twoBegins) grantsOverlapping
      (Database.opening joined.toTables twoBegins)).any (fun s =>
        s.committed.versionOf 1 = some 2 ∧ s.committed.versionOf 2 = some 2) = true := by
    decide +kernel
  obtain ⟨s, hs, htest⟩ := steps_of_schedule_any hrun
  obtain ⟨hroot, hann⟩ := of_decide_eq_true htest
  have hsteps : Steps Point.code (LoadsValid twoBegins)
      (Database.opening joined.toTables twoBegins) s :=
    hs.mono (fun _ _ _ => valid_of_isValid)
  have hstarts : ∀ i, (twoBegins i).Starts := fun _ => trivial
  exact ⟨s, hsteps, hroot, hann, commits_serial hstarts hsteps⟩

/-! ### Changes -/

/-- The permission that the service has looked up is a row of the tables. -/
def Point.Names (t : Tables) : Point → Prop
  | loadRole e => t.permissions.get e.permission.id = some e.permission
  | loadUser g => t.permissions.get g.permission.id = some g.permission
  | _ => True

/-- The transaction in one go is a change of the database on current objects. -/
theorem Point.Whole.change {p : Point} {db db' : Db} (h : p.Whole db.toTables db'.toTables)
    (hnames : p.Names db.toTables) :
    ∃ c es, Change.Current db.toTables c ∧ Change.Commits c db db' es := by
  cases h with
  | @edit e role role' _ es hrole _ _ htx =>
    have hcurrent : RoleRepository.getById db.toTables role.id = some role := by
      rw [(RoleRepository.getById_eq_some hrole).2.2]
      exact hrole
    cases hadding : e.adding with
    | true =>
      rw [Edit.tx, if_pos hadding] at htx
      exact ⟨.addPermission role e.permission, es, ⟨hcurrent, hnames⟩, role', htx⟩
    | false =>
      rw [Edit.tx, hadding, if_neg Bool.false_ne_true] at htx
      exact ⟨.removePermission role e.permission, es, ⟨hcurrent, hnames⟩, role', htx⟩
  | @membership m _ es _ htx =>
    cases hassigning : m.assigning with
    | true =>
      rw [Membership.tx, if_pos hassigning] at htx
      exact ⟨.assignToUser m.roleId m.userId, es, trivial, (), htx⟩
    | false =>
      rw [Membership.tx, hassigning, if_neg Bool.false_ne_true] at htx
      exact ⟨.removeFromUser m.roleId m.userId, es, trivial, (), htx⟩
  | @grant g user _ es huser _ _ htx =>
    have hcurrent : UserRepository.getByIdWithGrants db.toTables user.id = some user := by
      rw [(UserRepository.getByIdWithGrants_eq_some huser).2.2]
      exact huser
    cases hgranting : g.granting with
    | true =>
      rw [Grant.tx, if_pos hgranting] at htx
      exact ⟨.grantPermission user g.permission, es, ⟨hcurrent, hnames⟩, (), htx⟩
    | false =>
      rw [Grant.tx, hgranting, if_neg Bool.false_ne_true] at htx
      exact ⟨.revokePermission user g.permission, es, ⟨hcurrent, hnames⟩, (), htx⟩

/-- No script writes the catalogue. -/
theorem Point.pending_permissions (p : Point) (t : Tables) :
    (p.pending t).permissions = t.permissions := by
  cases p with
  | flushLink e mask => cases mask <;> rfl
  | findHolders e mask => cases mask <;> rfl
  | bumpHolders e mask holders => cases mask <;> rfl
  | commitEdit e mask holders => cases mask <;> rfl
  | _ => rfl

theorem Point.Names.congr {p : Point} {t t' : Tables} (h : p.Names t)
    (hpermissions : t'.permissions = t.permissions) : p.Names t' := by
  cases p with
  | loadRole e =>
    change t'.permissions.get e.permission.id = some e.permission
    rw [hpermissions]
    exact h
  | loadUser g =>
    change t'.permissions.get g.permission.id = some g.permission
    rw [hpermissions]
    exact h
  | _ => trivial

section Changes

variable {ι : Type*} [DecidableEq ι] {begins : ι → Point} {db : Db} {s s' : Database ι} {i : ι}

/-- What is about to be committed meets the constraints of the schema. -/
def Accepted (s : Database ι) (i : ι) : Prop :=
  ∀ p next, s.point i = some p → p.code = .commit next →
    (Point.outline.pending p s.committed).Constraints

/-- The tables that are committed have been reached by changes. -/
def Changed (begins : ι → Point) (db : Db) (s : Database ι) : Prop :=
  ∃ db' : Db, db'.toTables = s.committed ∧ (∀ i, (begins i).Names db'.toTables) ∧
    Relation.ReflTransGen
      (fun db db' => ∃ c es, Change.Current db.toTables c ∧ Change.Commits c db db' es) db db'

theorem Changed.step (h : Changed begins db s) (hstarts : ∀ i, (begins i).Starts)
    (hfits : Point.outline.Fits s) (hvalid : Point.outline.Valid begins s i s')
    (haccepted : Accepted s i) (hstep : Step Point.code s i s') : Changed begins db s' := by
  obtain ⟨db₁, hdb₁, hnames, hchanges⟩ := h
  rcases hvalid.moved hfits hstep with hsame | ⟨p, next, hp, hcode, hpending, htransacts⟩
  · exact ⟨db₁, by rw [hsame, hdb₁], hnames, hchanges⟩
  · have hconstraints : s'.committed.Constraints := by
      rw [hpending]
      exact haccepted p next hp hcode
    have hpermissions : s'.committed.permissions = db₁.permissions := by
      rw [hpending, hdb₁]
      exact Point.pending_permissions p _
    have hwhole := Point.whole_of_transacts (hstarts i) htransacts
    rw [← hdb₁] at hwhole
    let db₂ : Db := ⟨s'.committed, hconstraints⟩
    have hchange := Point.Whole.change (show (begins i).Whole db₁.toTables db₂.toTables from hwhole)
      (hnames i)
    exact ⟨db₂, rfl, fun j => (hnames j).congr hpermissions,
      hchanges.tail hchange⟩

/-- As long as the database accepts what is committed, such a run is a run of
changes on current objects. -/
theorem commits_changes (hstarts : ∀ i, (begins i).Starts)
    (hnames : ∀ i, (begins i).Names db.toTables)
    (hrun : Steps Point.code (fun s i s' => LoadsValid begins s i s' ∧ Accepted s i)
      (Database.opening db.toTables begins) s) :
    ∃ db' : Db, db'.toTables = s.committed ∧ Relation.ReflTransGen
      (fun db db' => ∃ c es, Change.Current db.toTables c ∧ Change.Commits c db db' es) db db' := by
  have hall : MembersHold begins s ∧ Changed begins db s := by
    refine Steps.invariant (I := fun s => MembersHold begins s ∧ Changed begins db s) ?_ hrun
      ⟨Database.opening_membersHold hstarts, db, rfl, hnames, .refl⟩
    rintro s i s' ⟨hloads, haccepted⟩ hstep ⟨hmembers, hchanged⟩
    exact ⟨hmembers.step hstep, hchanged.step hstarts hmembers.fits (hmembers.valid hloads)
      haccepted hstep⟩
  obtain ⟨_, db', hdb', _, hchanges⟩ := hall
  exact ⟨db', hdb', hchanges⟩

end Changes

/-- The test of `Accepted`, at every point. -/
def isAccepted (s : Database Bool) (i : Bool) : Bool :=
  (s.point i).all (fun p => (Point.outline.pending p s.committed).Constraints)

theorem accepted_of_isAccepted {s : Database Bool} {i : Bool} (h : isAccepted s i = true) :
    Accepted s i := by
  intro p next hp _
  unfold isAccepted at h
  rw [hp] at h
  exact of_decide_eq_true h

theorem commits_changes_grants : ∃ (s : Database Bool) (db' : Db),
    s.committed.versionOf 1 = some 2 ∧ s.committed.versionOf 2 = some 2 ∧
    db'.toTables = s.committed ∧ Relation.ReflTransGen
      (fun db db' => ∃ c es, Change.Current db.toTables c ∧ Change.Commits c db db' es)
      joined db' := by
  have hrun : (schedule Point.code (fun s i => isValid twoBegins s i && isAccepted s i)
      grantsOverlapping (Database.opening joined.toTables twoBegins)).any (fun s =>
        s.committed.versionOf 1 = some 2 ∧ s.committed.versionOf 2 = some 2) = true := by
    decide +kernel
  obtain ⟨s, hs, htest⟩ := steps_of_schedule_any hrun
  obtain ⟨hroot, hann⟩ := of_decide_eq_true htest
  have hsteps : Steps Point.code (fun s i s' => LoadsValid twoBegins s i s' ∧ Accepted s i)
      (Database.opening joined.toTables twoBegins) s := by
    refine hs.mono ?_
    intro s i s' htests
    obtain ⟨hvalid, haccepted⟩ := (Bool.and_eq_true _ _).mp htests
    exact ⟨valid_of_isValid hvalid, accepted_of_isAccepted haccepted⟩
  have hstarts : ∀ i, (twoBegins i).Starts := fun _ => trivial
  have hnames : ∀ i, (twoBegins i).Names joined.toTables := by
    have hrows : joined.permissions.get 1 = some ⟨1, "role:create", some 0⟩ ∧
        joined.permissions.get 2 = some ⟨2, "role:read", some 1⟩ := by decide +kernel
    intro i
    cases i
    · exact hrows.2
    · exact hrows.1
  obtain ⟨db', hdb', hchanges⟩ := commits_changes hstarts hnames hsteps
  exact ⟨s, db', hroot, hann, hdb', hchanges⟩

end FastapiTemplate
