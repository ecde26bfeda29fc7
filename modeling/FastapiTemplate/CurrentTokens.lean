import FastapiTemplate.AccountRuns
import FastapiTemplate.PermVersion

/-!
Tokens against the rows of today. The mask of a user does not move unless their
version goes up, except where a role of theirs is deleted. A worker that has
heard of every bump and every deactivation of a user therefore lets in only the
tokens that say what the row says, and its routes decide as if they had read
the row.
-/
namespace FastapiTemplate

open Library.KeyedTable Library.Committing Library.BitMask

/-! ### The version and the mask -/

/-- The version of the user does not go down, and where it stands still so does
their mask. -/
def Steady (userId : Uuid) (db db' : Db) : Prop :=
  ∀ u, db.users.get userId = some u → ∃ u', db'.users.get userId = some u' ∧
    u.permVersion ≤ u'.permVersion ∧
    (u'.permVersion = u.permVersion →
      effectivePermissionMask (db'.loadUser u') = effectivePermissionMask (db.loadUser u))

/-- A role of the user that is deleted leaves them each of its bits from
another role or a direct grant. -/
def Call.LeavesRights (userId : Uuid) (db : Db) : Call → Prop
  | deleteRole roleId => ∀ role u, db.roles.get roleId = some role →
      db.users.get userId = some u → (userId, roleId) ∈ db.userRoles →
      Within role.permissionMask (effectivePermissionMask ((db.loadUser u).withoutRole roleId))
  | _ => True

section Steady

variable {userId : Uuid} {db db' : Db} {es : List Event}

theorem Steady.refl (userId : Uuid) (db : Db) : Steady userId db db :=
  fun u hu => ⟨u, hu, le_refl _, fun _ => rfl⟩

theorem Steady.trans {db'' : Db} (h : Steady userId db db') (h' : Steady userId db' db'') :
    Steady userId db db'' := by
  intro u hu
  obtain ⟨u', hu', hle, hmask⟩ := h u hu
  obtain ⟨u'', hu'', hle', hmask'⟩ := h' u' hu'
  refine ⟨u'', hu'', hle.trans hle', ?_⟩
  intro hsame
  rw [hmask' (by omega), hmask (by omega)]

theorem Change.steady {c : Change} (hcur : c.Current db.toTables) (hcommit : c.Commits db db' es)
    (hdrop : ¬ c.DropsRoleOf db.toTables userId) : Steady userId db db' := by
  intro u hu
  obtain ⟨u', hu', hstep⟩ := Change.row_step hcur hcommit hu
  obtain rfl := Table.key_of_get hu
  refine ⟨u', hu', ?_⟩
  by_cases hbump : c.Bumps db.toTables u.id
  · have hversion := (hstep.bumped hbump).1
    exact ⟨by omega, fun hsame => by omega⟩
  · have hversion := hstep.kept hbump
    exact ⟨by omega, fun _ => (Change.sameGrants hcommit hbump hdrop).maskOf_eq
      (Table.key_of_get hu')⟩

theorem steady_of_path {P : Change → Prop} (hP : ∀ role, ¬ P (.deleteRole role))
    (hpath : Path (ChangeStep P) db db' es) : Steady userId db db' := by
  refine Path.collapse (R := fun db db' _ => Steady userId db db') (fun s => .refl userId s)
    (fun h h' => h.trans h') ?_ hpath
  rintro s s' _ ⟨c, es, hc, hcur, hcommit⟩
  refine Change.steady hcur hcommit ?_
  cases c with
  | deleteRole role => exact absurd hc (hP role)
  | _ => exact id

theorem steady_deleteTx {role : LoadedRole}
    (hrole : RoleRepository.getById db.toTables role.id = some role)
    (h : RoleRepository.deleteTx role db.toTables = .ok ((), db'.toTables, es))
    (hleaves : (Call.deleteRole role.id).LeavesRights userId db) : Steady userId db db' := by
  intro u hu
  obtain ⟨hrow, _, _⟩ := RoleRepository.getById_eq_some hrole
  obtain ⟨ht, _⟩ := RoleRepository.deleteTx_eq_ok h
  refine ⟨u, by rw [ht]; exact hu, le_refl _, fun _ => ?_⟩
  rw [mask_of_deleteTx h]
  refine Nat.eq_of_testBit_eq ?_
  intro i
  rw [Bool.eq_iff_iff, testBit_withoutRole hrow]
  constructor
  · exact Or.inl
  · rintro (hbit | ⟨hheld, hbit⟩)
    · exact hbit
    · exact hleaves _ u hrow hu (Table.key_of_get hu ▸ hheld) i hbit

/-- A role is deleted once. -/
theorem steady_of_deletion {roleId : RoleId}
    (hleaves : (Call.deleteRole roleId).LeavesRights userId db)
    (hpath : Path (ChangeStep (Call.deleteRole roleId).Performs) db db' es) :
    Steady userId db db' := by
  cases hpath with
  | nil => exact .refl userId db
  | cons hstep hrest =>
    obtain ⟨c, _, hc, hcur, hcommit⟩ := hstep
    cases c with
    | deleteRole role =>
      obtain rfl := hc
      obtain ⟨⟨⟩, hdeleted⟩ := hcommit
      have hfirst := steady_deleteTx hcur hdeleted hleaves
      cases hrest with
      | nil => exact hfirst
      | cons hstep' _ =>
        obtain ⟨c', _, hc', hcur', _⟩ := hstep'
        cases c' with
        | deleteRole role' =>
          obtain ⟨hrow, _, _⟩ := RoleRepository.getById_eq_some hcur'
          obtain ⟨ht, _⟩ := RoleRepository.deleteTx_eq_ok hdeleted
          rw [ht, Table.get_delete, Option.filter_eq_some_iff] at hrow
          simp [show role'.id = role.id from hc'] at hrow
        | _ => exact hc'.elim
    | _ => exact hc.elim

theorem steady_of_performs {call : Call} (hleaves : call.LeavesRights userId db)
    (hpath : Path (ChangeStep call.Performs) db db' es) : Steady userId db db' := by
  by_cases hcall : ∃ roleId, call = .deleteRole roleId
  · obtain ⟨roleId, rfl⟩ := hcall
    exact steady_of_deletion hleaves hpath
  · exact steady_of_path (fun role hc => hcall ⟨role.id, Call.performs_deleteRole hc⟩) hpath

end Steady

/-! ### Versions count from one -/

theorem Change.version_pos {c : Change} {db db' : Db} {es : List Event}
    (hcur : c.Current db.toTables) (hcommit : c.Commits db db' es)
    (hdb : ∀ u ∈ db.users.rows, 1 ≤ u.permVersion) : ∀ u ∈ db'.users.rows, 1 ≤ u.permVersion := by
  intro u' hu'
  obtain ⟨tokens, ht⟩ := Change.commits_apply hcommit
  have hrow : u' ∈ (c.apply db.toTables).users.rows := by
    rw [ht] at hu'
    exact hu'
  rcases Change.user_row hrow with ⟨u, hu, hid, _⟩ | ⟨data, _, rfl⟩
  · obtain ⟨u'', hget, hstep⟩ := Change.row_step hcur hcommit (Table.get_of_mem hu)
    obtain rfl := Table.eq_of_get hu' hid.symm hget
    have hold := hdb u hu
    by_cases hbump : c.Bumps db.toTables u.id
    · have hversion := (hstep.bumped hbump).1
      omega
    · have hversion := hstep.kept hbump
      omega
  · exact le_refl _

theorem Reachable.version_pos {db : Db} (h : Reachable db) :
    ∀ u ∈ db.users.rows, 1 ≤ u.permVersion :=
  h.invariant (by decide +kernel) (fun _ _ _ _ hcur hcommit => Change.version_pos hcur hcommit)

/-! ### What a worker has heard -/

/-- The cache denies the user what the tables deny them. -/
structure AuthzCache.UpToDate (cache : AuthzCache) (t : Tables) (userId : Uuid) : Prop where
  user : ∀ u, t.users.get userId = some u → u.isActive = false →
    cache.isUserInactive userId = true
  tenant : ∀ u tenantId x, t.users.get userId = some u → u.tenantId = some tenantId →
    t.tenants.get tenantId = some x → x.isActive = false →
    cache.isTenantInactive (some tenantId) = true
  version : ∀ u, t.users.get userId = some u → ∀ v, 1 ≤ v → v < u.permVersion →
    cache.isStale userId v = true

/-- Claims that such a cache lets pass are about an active user of an active
tenant, or of none. -/
theorem AuthzCache.UpToDate.activeOwner {cache : AuthzCache} {db : Db} {payload : TokenPayload}
    {user : LoadedUser} {mask : ℕ} (h : cache.UpToDate db.toTables payload.id)
    (hadmits : cache.Admits payload) (hdescribes : payload.Describes db.toTables user mask) :
    ActiveOwner db.toTables user.toUser := by
  obtain ⟨hrow, _, _⟩ := UserRepository.getByIdWithGrants_eq_some hdescribes.loaded
  refine ⟨?_, ?_⟩
  · by_contra hnot
    have hdenied := h.user user.toUser hrow (by simpa using hnot)
    rw [hadmits.user] at hdenied
    cases hdenied
  · intro tenantId htenant
    have hforeign := db.constraints.userTenant user.toUser (Table.mem_of_get hrow)
    rw [htenant, Option.all_some] at hforeign
    obtain ⟨x, hx⟩ := Option.isSome_iff_exists.mp hforeign
    refine ⟨x, hx, ?_⟩
    by_contra hnot
    have hdenied := h.tenant user.toUser tenantId x hrow htenant hx (by simpa using hnot)
    rw [← htenant, ← hdescribes.tenantId, hadmits.tenant] at hdenied
    cases hdenied

namespace Backend

/-! ### Tokens of a run -/

section Runs

variable {Token Link : Type} {settings : AuthSettings Token} {serializer : TimedSerializer Link}
  {s s' : Backend Token} {input : Input Token Link} {log : List (Entry Token Link)}
  {userId : Uuid} {token : Token} {cache : AuthzCache} {payload : TokenPayload}

def LeavesRights (userId : Uuid) : Entry Token Link → Prop
  | (s, .route _ _ _ call) => call.LeavesRights userId s.db
  | _ => True

theorem Sound.steady (hs : s.Sound settings) (hjwt : settings.jwt.Expires)
    (hallows : s.Allows settings serializer input) (hleaves : LeavesRights userId (s, input)) :
    Steady userId s.db (s.step settings serializer input).db := by
  obtain ⟨es, hpath⟩ := hs.step_path hjwt hallows
  cases input with
  | route getPasswordHash token cache call => exact steady_of_performs hleaves hpath
  | verifyMail | verifyPassword =>
    refine steady_of_path ?_ hpath
    rintro role ⟨_, h⟩
    simp [Change.Verifies, Change.Resets] at h
  | _ => exact steady_of_path (fun _ hc => hc.elim) hpath

/-- Since a token of the user was minted, their mask has not moved without
their version. -/
def SteadySince (settings : AuthSettings Token) (userId : Uuid) (s : Backend Token) : Prop :=
  ∀ token ∈ s.issued, ∃ (db : Db) (owner : LoadedUser) (authMethod : String) (mintedAt : ℤ),
    Reachable db ∧ Mints settings db mintedAt owner authMethod token ∧
      (owner.id = userId → Steady userId db s.db)

theorem Trace.steadySince {now : ℤ} (hjwt : settings.jwt.Expires)
    (hrun : Trace settings serializer (start now) log s)
    (hleaves : ∀ e ∈ log, LeavesRights userId e) : SteadySince settings userId s := by
  induction hrun with
  | nil => exact fun _ htoken => absurd htoken List.not_mem_nil
  | @snoc s' log input htrace hallows ih =>
    have hsteady : Steady userId s'.db (s'.step settings serializer input).db :=
      ((htrace.reached (.start now)).sound hjwt).steady hjwt hallows
        (hleaves _ (List.mem_append_right _ (List.mem_singleton_self _)))
    have hsound := ((htrace.snoc input hallows).reached (.start now)).sound hjwt
    intro token htoken
    rcases step_issued hallows htoken with hold | ⟨owner, authMethod, mintedAt, hmints, _, _⟩
    · obtain ⟨db, owner, authMethod, mintedAt, hreachable, hmints, hsince⟩ :=
        ih (fun e he => hleaves e (List.mem_append_left _ he)) token hold
      exact ⟨db, owner, authMethod, mintedAt, hreachable, hmints,
        fun hid => (hsince hid).trans hsteady⟩
    · exact ⟨_, owner, authMethod, mintedAt, hsound.reachable, hmints, fun _ => .refl _ _⟩

/-- A worker that is up to date for the user of a token decides on what their
row is entitled to now, unless a role of theirs was deleted that gave them more
than they keep. -/
theorem route_decides_on_row {now : ℤ} (hjwt : settings.jwt.Expires)
    (hrun : Trace settings serializer (start now) log s) (hknows : s.KnowsToken settings token)
    (hauth : (s.bearer token cache).authenticate settings.jwt = .ok payload)
    (hcurrent : cache.UpToDate s.db.toTables payload.id)
    (hleaves : ∀ e ∈ log, LeavesRights payload.id e) :
    ∃ user, UserRepository.getByIdWithGrants s.db.toTables payload.id = some user ∧
      ActiveOwner s.db.toTables user.toUser ∧ payload.permVersion = user.permVersion ∧
      payload.tenantId = user.tenantId ∧ payload.isSuperuser = user.isSuperuser ∧
      hexToMask (some payload.permMask) = .ok (effectivePermissionMask user) ∧
      ∀ (getPasswordHash : String → Except Err String) (call : Call),
        call.route settings.jwt getPasswordHash (s.bearer token cache) s.db =
          gated s.db.toTables user (effectivePermissionMask user) call.gate
            (request getPasswordHash payload.id call) s.db := by
  have hs := (hrun.reached (.start now)).sound hjwt
  obtain ⟨_, user, hadmission⟩ := hs.admission hjwt hknows hauth
  have hdescribes := hadmission.describes
  obtain ⟨hrow, hloaded, hid⟩ := UserRepository.getByIdWithGrants_eq_some hdescribes.loaded
  obtain ⟨hdecode, _⟩ := authenticate_eq_ok hauth
  have hactive := hcurrent.activeOwner hadmission.admits hdescribes
  rcases hknows with hissued | hforged
  swap
  · rw [show (s.bearer token cache).token = token from rfl, hforged] at hdecode
    cases hdecode
  obtain ⟨db, owner, authMethod, mintedAt, hreachable, hmints, hsteady⟩ :=
    hrun.steadySince hjwt hleaves token hissued
  obtain ⟨_, permMask, hmask, htoken⟩ := mintAccessToken_eq_ok_iff.mp hmints.2
  rw [htoken] at hdecode
  obtain ⟨rfl, _⟩ := hjwt _ _ _ hdecode
  obtain ⟨u', hu', hle, hsame⟩ := hsteady rfl owner.toUser hmints.1.row
  obtain rfl := Option.some.inj (hrow.symm.trans hu')
  have hversion : user.permVersion = owner.permVersion := by
    by_contra hne
    have hpos := hreachable.version_pos _ (Table.mem_of_get hmints.1.row)
    have hstale := hcurrent.version user.toUser hrow owner.permVersion hpos (by omega)
    cases hadmission.admits.fresh.symm.trans hstale
  have hrights : hexToMask (some permMask) = .ok (effectivePermissionMask user) := by
    rw [hloaded, hsame hversion, ← hmints.1.eq]
    exact hexToMask_maskToHex _ (maskToHex_lt hmask) _ hmask
  refine ⟨user, hdescribes.loaded, hactive, hversion.symm, hdescribes.tenantId,
    hdescribes.isSuperuser, hrights, ?_⟩
  intro getPasswordHash call
  exact route_run hauth ⟨hdescribes.loaded, hdescribes.tenantId, hdescribes.isSuperuser, hrights⟩

end Runs

/-! `ann` after her login, at a worker that has heard of her new role. -/

def annHeard : AuthzCache := ⟨∅, ∅, AList.insert 2 2 ∅⟩

theorem annHeard_upToDate : annHeard.UpToDate annIn.db.toTables 2 := by
  have hrow : ∃ u, annIn.db.users.get 2 = some u ∧ u.isActive = true ∧ u.tenantId = none ∧
      u.permVersion = 2 := by
    refine ⟨annRow, ?_⟩
    decide +kernel
  obtain ⟨u, hu, hactive, htenant, hversion⟩ := hrow
  refine ⟨?_, ?_, ?_⟩
  · intro u' hu' hinactive
    obtain rfl := Option.some.inj (hu.symm.trans hu')
    cases hactive.symm.trans hinactive
  · intro u' tenantId x hu' hsome
    obtain rfl := Option.some.inj (hu.symm.trans hu')
    cases htenant.symm.trans hsome
  · intro u' hu' v hpos hv
    obtain rfl := Option.some.inj (hu.symm.trans hu')
    rw [hversion] at hv
    obtain rfl : v = 1 := by omega
    decide

theorem annIn_decides : ∃ user,
    UserRepository.getByIdWithGrants annIn.db.toTables annToken.id = some user ∧
    ActiveOwner annIn.db.toTables user.toUser ∧ annToken.permVersion = user.permVersion ∧
    annToken.tenantId = user.tenantId ∧ annToken.isSuperuser = user.isSuperuser ∧
    hexToMask (some annToken.permMask) = .ok (effectivePermissionMask user) ∧
    ∀ (getPasswordHash : String → Except Err String) (call : Call),
      call.route Sessions.plainSettings.jwt getPasswordHash (annIn.bearer annToken annHeard)
          annIn.db =
        gated annIn.db.toTables user (effectivePermissionMask user) call.gate
          (request getPasswordHash annToken.id call) annIn.db := by
  have hauth : (annIn.bearer annToken annHeard).authenticate Sessions.plainSettings.jwt =
      .ok annToken := by decide +kernel
  have hleaves : ∀ e ∈ annLog, LeavesRights annToken.id e := by
    simp [annLog, LeavesRights, Call.LeavesRights]
  exact route_decides_on_row plainJwt_expires annIn_trace (Or.inl annIn_issued) hauth
    annHeard_upToDate hleaves

end Backend
end FastapiTemplate
