import FastapiTemplate.Backend

/-!
What the gates guarantee over the runs of the whole program. A route refuses
and changes nothing, or it does what its operation does for the row behind the
token. Whatever a route commits was authorized by the services in the state it
was committed on, and by a permission that the caller had when the token was
minted or a delegation that holds now. And a token outlives neither its expiry
nor, by more than that, the account of its user.
-/
namespace FastapiTemplate.Backend

open Library.KeyedTable Library.Committing Library.BitMask

section Routes

variable {Token Link : Type} {settings : AuthSettings Token} {serializer : TimedSerializer Link}
  {s : Backend Token} {token : Token}

/-- A route answers with the error of `_authenticate`, or the claims are about
a row that is there and it does what a request of that user does behind its
gate. The database is one that the services reach. Of an answer only success or
the error is compared, not the value that the route returns. -/
theorem route_refines_request (hjwt : settings.jwt.Expires) (h : Reached settings serializer s)
    (hknows : s.KnowsToken settings token) (cache : AuthzCache)
    (getPasswordHash : String → Except Err String) (call : Call) :
    Reachable s.db ∧
    (∀ e, (s.bearer token cache).authenticate settings.jwt = .error e →
      call.route settings.jwt getPasswordHash (s.bearer token cache) s.db = (.error e, s.db, [])) ∧
    ∀ payload, (s.bearer token cache).authenticate settings.jwt = .ok payload →
      ∃ user mask, UserRepository.getByIdWithGrants s.db.toTables payload.id = some user ∧
        payload.tenantId = user.tenantId ∧ payload.isSuperuser = user.isSuperuser ∧
        hexToMask (some payload.permMask) = .ok mask ∧
        call.route settings.jwt getPasswordHash (s.bearer token cache) s.db =
          gated s.db.toTables user mask call.gate (request getPasswordHash payload.id call)
            s.db := by
  have hs := h.sound hjwt
  refine ⟨hs.reachable, fun e hauth => route_refused hauth, ?_⟩
  intro payload hauth
  obtain ⟨owner, user, hadmission⟩ := hs.admission hjwt hknows hauth
  have hdescribes := hadmission.describes
  exact ⟨user, _, hdescribes.loaded, hdescribes.tenantId, hdescribes.isSuperuser,
    hdescribes.permMask, route_run hauth hdescribes⟩

end Routes

def bob : UserCreate := ⟨"bob", "bob@example.com", "pw"⟩

/-- `ann` creates a user. -/
theorem annIn_refines : ∃ user mask db' es,
    UserRepository.getByIdWithGrants annIn.db.toTables 2 = some user ∧
      hexToMask (some annToken.permMask) = .ok mask ∧
      (Call.createUser 3 bob).route Sessions.plainSettings.jwt .ok
        (annIn.bearer annToken .empty) annIn.db = (.ok (), db', es) ∧
      gated annIn.db.toTables user mask (.permission "user:create")
        (request .ok 2 (.createUser 3 bob)) annIn.db = (.ok (), db', es) ∧
      annIn.db.users.get 3 = none ∧ (db'.users.get 3).isSome := by
  have hauth : (annIn.bearer annToken .empty).authenticate Sessions.plainSettings.jwt = .ok annToken := by
    decide +kernel
  obtain ⟨_, _, hroute⟩ := route_refines_request plainJwt_expires annIn_reached
    (Or.inl annIn_issued) .empty .ok (.createUser 3 bob)
  obtain ⟨user, mask, hloaded, _, _, hmask, hrun⟩ := hroute annToken hauth
  have hfacts : ((Call.createUser 3 bob).route Sessions.plainSettings.jwt .ok
        (annIn.bearer annToken .empty) annIn.db).1 = .ok () ∧
      annIn.db.users.get 3 = none ∧ (((Call.createUser 3 bob).route Sessions.plainSettings.jwt .ok
        (annIn.bearer annToken .empty) annIn.db).2.1.users.get 3).isSome := by
    decide +kernel
  rcases hresult : (Call.createUser 3 bob).route Sessions.plainSettings.jwt .ok
    (annIn.bearer annToken .empty) annIn.db with ⟨r, db', es⟩
  rw [hresult] at hfacts
  obtain ⟨rfl, hnone, hsome⟩ := hfacts
  rw [hresult] at hrun
  exact ⟨user, mask, db', es, hloaded, hmask, rfl, hrun.symm, hnone, hsome⟩

/-! ### Authority -/

section Authority

variable {Token Link : Type} {settings : AuthSettings Token} {serializer : TimedSerializer Link}
  {s : Backend Token} {token : Token} {cache : AuthzCache} {payload : TokenPayload}
  {owner user : LoadedUser}

/-- The user had the permission in the database of the runs where the token was
minted for them. -/
def HadPermission (settings : AuthSettings Token) (token : Token) (userId : Uuid) (name : String) :
    Prop :=
  ∃ (db : Db) (owner : LoadedUser) (authMethod : String) (mintedAt : ℤ), Reachable db ∧
    Mints settings db mintedAt owner authMethod token ∧ owner.id = userId ∧
    name ∈ effectivePermissions owner

/-- What lets a user who is no superuser through the gate. -/
def Entitled (settings : AuthSettings Token) (s : Backend Token) (token : Token)
    (userId : Uuid) : Gate → Prop
  | .permission name => HadPermission settings token userId name
  | .grantRole roleId => s.db.toTables.DelegatesRole userId roleId
  | .grantPermission permissionId => s.db.toTables.DelegatesPermission userId permissionId
  | .superuser => False
  | .signedIn => True

theorem Admission.hadPermission (h : Admission settings s token cache payload owner user)
    {name : String} {b : ℕ} (hb : permissionRegistry.lookup name = some b)
    (hbit : (effectivePermissionMask owner).testBit b = true) :
    HadPermission settings token user.id name := by
  obtain ⟨db, authMethod, mintedAt, hreach, hmints, _⟩ := h.minted
  refine ⟨db, owner, authMethod, mintedAt, hreach, hmints, ?_, ?_⟩
  · rw [← h.id]
    exact (UserRepository.getByIdWithGrants_eq_some h.describes.loaded).2.2.symm
  · have howner := hmints.1.eq
    rw [howner] at hbit ⊢
    exact (testBit_mask_iff_mem hreach.catalogued hreach.masksAgree hb).mp hbit

theorem Admission.entitled (h : Admission settings s token cache payload owner user) {gate : Gate}
    (hgate : gate.refusal s.db.toTables user (effectivePermissionMask owner) = none)
    (hsuper : user.isSuperuser = false) : Entitled settings s token user.id gate := by
  have hloaded := loaded_of_getByIdWithGrants h.describes.loaded
  cases gate with
  | permission name =>
    obtain ⟨b, hb, hpass⟩ := Gate.permission_passes hgate
    rw [hsuper] at hpass
    exact h.hadPermission hb (hpass.resolve_left Bool.false_ne_true)
  | grantRole roleId => exact hloaded.canGrantRole (Gate.grantRole_passes hgate) hsuper
  | grantPermission permissionId =>
    exact hloaded.canGrantPermission (Gate.grantPermission_passes hgate) hsuper
  | superuser =>
    rw [Gate.superuser_passes hgate] at hsuper
    cases hsuper
  | signedIn => trivial

/-- A route that returns or changes anything acts for the user of the token,
whose row is there. What it commits was authorized in the state it was committed
on, and unless the user is a superuser they were entitled at the gate. -/
theorem route_authority (hjwt : settings.jwt.Expires) (h : Reached settings serializer s)
    (hknows : s.KnowsToken settings token) (cache : AuthzCache)
    (getPasswordHash : String → Except Err String) (call : Call) {r : Except Err Unit} {db' : Db}
    {es : List Event}
    (hrun : call.route settings.jwt getPasswordHash (s.bearer token cache) s.db = (r, db', es))
    (hdone : r = .ok () ∨ db' ≠ s.db) :
    ∃ (payload : TokenPayload) (user : User),
      (s.bearer token cache).authenticate settings.jwt = .ok payload ∧
      s.db.users.get payload.id = some user ∧ Path (Performed user call) s.db db' es ∧
      (user.isSuperuser = false → Entitled settings s token user.id call.gate) := by
  rcases (h.sound hjwt).route_cases hjwt hknows getPasswordHash cache call with
    ⟨e, _, hrefused⟩ | ⟨payload, owner, user, hauth, hadmission, hgated⟩
  · rw [hrefused] at hrun
    cases hrun
    rcases hdone with hok | hne
    · cases hok
    · exact absurd rfl hne
  rw [hgated] at hrun
  obtain ⟨hrow, _, hid⟩ := UserRepository.getByIdWithGrants_eq_some hadmission.describes.loaded
  rcases hgate : call.gate.refusal s.db.toTables user (effectivePermissionMask owner) with _ | e
  · rw [gated_of_none hgate, ← hid] at hrun
    refine ⟨payload, user.toUser, hauth, hrow, ?_, hadmission.entitled hgate⟩
    rw [← hid] at hrow
    exact path_of_request hrow hrun
  · rw [gated_of_some hgate] at hrun
    cases hrun
    rcases hdone with hok | hne
    · cases hok
    · exact absurd rfl hne

end Authority

theorem ann_creates_bob : ∃ (db' : Db) (es : List Event) (payload : TokenPayload) (user : User),
    (annIn.bearer annToken .empty).authenticate Sessions.plainSettings.jwt = .ok payload ∧
      annIn.db.users.get payload.id = some user ∧
      Path (Performed user (.createUser 3 bob)) annIn.db db' es ∧
      (user.isSuperuser = false →
        HadPermission Sessions.plainSettings annToken user.id "user:create") := by
  rcases hrun : (Call.createUser 3 bob).route Sessions.plainSettings.jwt .ok
    (annIn.bearer annToken .empty) annIn.db with ⟨r, db', es⟩
  have hdone : r = .ok () := by
    have hok : ((Call.createUser 3 bob).route Sessions.plainSettings.jwt .ok
        (annIn.bearer annToken .empty) annIn.db).1 = .ok () := by decide +kernel
    rw [hrun] at hok
    exact hok
  exact ⟨db', es, route_authority plainJwt_expires annIn_reached (Or.inl annIn_issued) .empty .ok
    (.createUser 3 bob) hrun (Or.inl hdone)⟩

/-! ### Lockout -/

section Lockout

variable {Token Link : Type} {settings : AuthSettings Token} {serializer : TimedSerializer Link}
  {s s' : Backend Token} {token : Token} {userId : Uuid}

/-- The user is there, and they or their tenant are not active. -/
def LockedOut (userId : Uuid) (s : Backend Token) : Prop :=
  ∃ u, s.db.users.get userId = some u ∧ ¬ ActiveOwner s.db.toTables u

/-- One input, after which the user is locked out. -/
def LockedStep (settings : AuthSettings Token) (serializer : TimedSerializer Link) (userId : Uuid)
    (s s' : Backend Token) : Prop :=
  ∃ input, s.Allows settings serializer input ∧ s' = s.step settings serializer input ∧
    LockedOut userId s'

theorem not_lockedOut_of_mints {mintedAt : ℤ} {owner : LoadedUser} {authMethod : String}
    (hmints : Mints settings s.db mintedAt owner authMethod token)
    (hlocked : LockedOut userId s) : owner.id ≠ userId := by
  rintro rfl
  obtain ⟨u, hu, hinactive⟩ := hlocked
  obtain rfl := Option.some.inj (hu.symm.trans hmints.1.row)
  exact hinactive (mintAccessToken_eq_ok_iff.mp hmints.2).1

/-- No token of the user is younger than `since`. -/
def NoneSince (settings : AuthSettings Token) (userId : Uuid) (since : ℤ)
    (s : Backend Token) : Prop :=
  ∀ token ∈ s.issued, ∃ (db : Db) (owner : LoadedUser) (authMethod : String) (mintedAt : ℤ),
    Mints settings db mintedAt owner authMethod token ∧ (owner.id = userId → mintedAt ≤ since)

theorem NoneSince.run (h : NoneSince settings userId s.now s)
    (hrun : Relation.ReflTransGen (LockedStep settings serializer userId) s s') :
    NoneSince settings userId s.now s' := by
  induction hrun with
  | refl => exact h
  | tail _ hstep ih =>
    obtain ⟨input, hallows, rfl, hlocked⟩ := hstep
    intro token htoken
    rcases step_issued hallows htoken with hold | ⟨owner, authMethod, mintedAt, hmints, _, _⟩
    · exact ih token hold
    · exact ⟨_, owner, authMethod, mintedAt, hmints,
        fun hid => absurd hid (not_lockedOut_of_mints hmints hlocked)⟩

/-- Once a user has been locked out for the lifetime of a token, no token
passes for them at any worker, whatever its cache has heard. -/
theorem lockout_after_expiry (hjwt : settings.jwt.Expires) (h : Reached settings serializer s)
    (hrun : Relation.ReflTransGen (LockedStep settings serializer userId) s s')
    (hlong : s.now / second + settings.accessTokenExpireMinutes * 60 ≤ s'.now / second)
    (hknows : s'.KnowsToken settings token) (cache : AuthzCache) {payload : TokenPayload}
    (hauth : (s'.bearer token cache).authenticate settings.jwt = .ok payload) :
    payload.id ≠ userId := by
  have hnone : NoneSince settings userId s.now s' := by
    refine NoneSince.run ?_ hrun
    intro token htoken
    obtain ⟨db, owner, authMethod, mintedAt, _, hmints, hle, _⟩ := (h.sound hjwt).issued token htoken
    exact ⟨db, owner, authMethod, mintedAt, hmints, fun _ => hle⟩
  obtain ⟨hdecode, _⟩ := authenticate_eq_ok hauth
  change settings.jwt.decode (s'.now / second) token = some payload at hdecode
  rcases hknows with hissued | hforged
  · obtain ⟨db, owner, authMethod, mintedAt, hmints, hsince⟩ := hnone token hissued
    obtain ⟨_, permMask, _, htoken⟩ := mintAccessToken_eq_ok_iff.mp hmints.2
    rw [htoken] at hdecode
    obtain ⟨rfl, hlive⟩ := hjwt _ _ _ hdecode
    intro hid
    have hlive : s'.now / second < mintedAt / second + settings.accessTokenExpireMinutes * 60 :=
      hlive
    have hmono := Int.ediv_le_ediv (c := second) (by decide) (hsince hid)
    omega
  · rw [hforged] at hdecode
    cases hdecode

end Lockout

/-! The superuser deactivates `ann`; half an hour later a token of the superuser
still passes, and it is not a token of `ann`. -/

def annOut : Backend TokenPayload :=
  plainStep annIn (.route .ok rootToken .empty (.setUserActive 2 false))

def rootBack : Backend TokenPayload :=
  plainStep annOut (.login true 60 (1800 * second) (1800 * second) (1800 * second) "third" "root"
    "pw")

def rootToken' : TokenPayload := { rootToken with exp := 3600 }

theorem lockedOut_of_inactive {userId : Uuid} {s : Backend TokenPayload}
    (h : (s.db.users.get userId).any (fun u => u.isActive = false) = true) : LockedOut userId s := by
  obtain ⟨u, hu, hinactive⟩ := Option.any_eq_true _ _ |>.mp h
  refine ⟨u, hu, fun hactive => ?_⟩
  rw [hactive.active] at hinactive
  cases of_decide_eq_true hinactive

theorem rootBack_locked :
    Relation.ReflTransGen (LockedStep Sessions.plainSettings plainSerializer 2) annIn rootBack ∧
      (rootBack.bearer rootToken' .empty).authenticate Sessions.plainSettings.jwt =
        .ok rootToken' ∧
      rootToken'.id ≠ 2 := by
  have hout : LockedStep Sessions.plainSettings plainSerializer 2 annIn annOut :=
    ⟨.route .ok rootToken .empty (.setUserActive 2 false),
      Or.inl (by decide +kernel : rootToken ∈ annIn.issued), rfl,
      lockedOut_of_inactive (by decide +kernel)⟩
  have hnow : annOut.now ≤ 1800 * second := by decide +kernel
  have hback : LockedStep Sessions.plainSettings plainSerializer 2 annOut rootBack :=
    ⟨.login true 60 (1800 * second) (1800 * second) (1800 * second) "third" "root" "pw",
      ⟨hnow, le_refl _, le_refl _⟩, rfl, lockedOut_of_inactive (by decide +kernel)⟩
  have hknows : rootBack.KnowsToken Sessions.plainSettings rootToken' :=
    Or.inl (by decide +kernel)
  have hauth : (rootBack.bearer rootToken' .empty).authenticate Sessions.plainSettings.jwt =
      .ok rootToken' := by decide +kernel
  have hrun := (Relation.ReflTransGen.single hout).tail hback
  exact ⟨hrun, hauth,
    lockout_after_expiry plainJwt_expires annIn_reached hrun (by decide +kernel) hknows .empty hauth⟩

end FastapiTemplate.Backend
