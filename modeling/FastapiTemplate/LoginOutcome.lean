import FastapiTemplate.Credentials
import FastapiTemplate.MaskAgreement

/-!
How a login may end. Every exception but one is declared: the limiter's, the
one for a wrong name or password, those of an unverified or deactivated account
and of an inactive tenant. The exception is the comparison with a password that
is not there. Minting cannot fail beyond them, since every mask fits the claim,
and the new refresh token can be stored when it has not been drawn before.
-/
namespace FastapiTemplate

open Library.KeyedTable Library.Committing

/-- The exceptions that a login declares. -/
inductive LoginUser.Declared : Err → Prop
  | rateLimit (message retryAfter : String) : Declared (.rateLimit message retryAfter)
  | userUnauthenticated : Declared .userUnauthenticated
  | userNotVerified : Declared .userNotVerified
  | userDeactivated : Declared .userDeactivated
  | tenantInactive : Declared .tenantInactive

/-- `checkpw` answers when it is given a hash and at most 72 bytes. -/
def AuthSettings.Answers {Token : Type} (settings : AuthSettings Token) (isHash : String → Prop) :
    Prop :=
  ∀ plain hashed, plain.toByteArray.size ≤ 72 → isHash hashed →
    ∃ same, settings.checkPassword plain hashed = .ok same

/-- The row of the submitted name has no password. -/
def Passwordless (t : Tables) (username : String) : Prop :=
  ∃ user, UserRepository.getByUsername t username = some user ∧ user.password = none

section Login

variable {Token : Type} {settings : AuthSettings Token} {db db' : Db} {es : List Event}

/-- The mask of a loaded user can always be written into the claims. -/
theorem mint_error {now : ℤ} {user : User} {authMethod : String} {e : Err}
    (h : mint settings now (db.loadUser user) authMethod db = (.error e, db', es)) :
    e = .userDeactivated ∨ e = .tenantInactive := by
  rw [mint, query, Action.read_bind_apply] at h
  rcases hactive : ensureActive db.toTables user with e' | _
  · have hminted : mintAccessToken settings.jwt settings.accessTokenExpireMinutes db.toTables
        (now / second) (db.loadUser user) authMethod = .error e' := by
      unfold mintAccessToken
      change (ensureActive db.toTables user >>= _) = _
      rw [hactive]
      rfl
    rw [hminted] at h
    cases h
    exact ensureActive_error hactive
  · obtain ⟨permMask, hmask⟩ := maskToHex_of_lt (mask_lt db user)
    have hminted : mintAccessToken settings.jwt settings.accessTokenExpireMinutes db.toTables
        (now / second) (db.loadUser user) authMethod = .ok _ :=
      mintAccessToken_eq_ok_iff.mpr ⟨ensureActive_eq_ok_iff.mp hactive, permMask, hmask, rfl⟩
    rw [hminted] at h
    cases h

/-- A token that was not drawn before can be stored for a user. -/
theorem create_fresh {token : String} {user : User} (expiresAt : ℤ) (huser : user ∈ db.users.rows)
    (hfresh : db.refreshTokens.get token = none) : ∃ row db' es,
      transaction (RefreshTokenRepository.createTx token user.id expiresAt) db =
        (.ok row, db', es) := by
  obtain ⟨k, hinsert⟩ :=
    Table.insert?_of_get_none (r := (⟨token, user.id, expiresAt, false⟩ : RefreshToken)) hfresh
  have hconstraints : (db.toTables.withTokens k).Constraints := by
    refine constraints_withTokens ?_
    intro row hrow
    rcases (Table.mem_insert? hinsert).mp hrow with hold | rfl
    · exact db.constraints.tokenUser row hold
    · change (db.users.get user.id).isSome
      rw [Table.get_of_mem huser]
      rfl
  have hbody : RefreshTokenRepository.createTx token user.id expiresAt db.toTables =
      .ok (⟨token, user.id, expiresAt, false⟩, db.toTables.withTokens k, []) := by
    unfold RefreshTokenRepository.createTx
    rw [hinsert]
    rfl
  exact ⟨_, _, _, transaction_commits hbody hconstraints⟩

variable {isHash : String → Prop} {isAllowed : Bool} {window : ℕ}
  {mintedAt issuedAt expiresFrom : ℤ} {jti username password : String}

/-- Without a stored password the comparison raises. -/
theorem LoginUser.login_passwordless (hnone : Passwordless db.toTables username) :
    (LoginUser.login settings true window mintedAt issuedAt expiresFrom jti username password
      db).1 = .error (.attributeError "'NoneType' object has no attribute 'encode'") := by
  obtain ⟨user, huser, hpassword⟩ := hnone
  unfold login
  rw [Action.ensure_bind_apply rfl, query, Action.read_bind_apply, huser,
    Action.require_some_bind, hpassword]
  rfl

/-- Past the comparison, whatever is raised is declared. -/
theorem LoginUser.login_error {e : Err} (hanswers : settings.Answers isHash)
    (hhashed : db.toTables.Hashed isHash) (hsize : password.toByteArray.size ≤ 72)
    (hfresh : ∀ user ∈ db.users.rows,
      db.refreshTokens.get (createRefreshToken settings issuedAt user.id none jti) = none)
    (hpassword : isAllowed = true → ¬ Passwordless db.toTables username)
    (h : LoginUser.login settings isAllowed window mintedAt issuedAt expiresFrom jti username
      password db = (.error e, db', es)) : Declared e := by
  unfold login at h
  rcases Action.ensure_bind_run h with ⟨_, herror, _⟩ | ⟨hallowed, hrest⟩
  · cases herror
    exact .rateLimit _ _
  clear h
  rw [query, Action.read_bind_apply] at hrest
  rcases Action.require_bind_run hrest with ⟨_, herror, _⟩ | ⟨user, hfound, hcompare⟩
  · cases herror
    exact .userUnauthenticated
  have huser : user ∈ db.users.rows := List.mem_of_find?_eq_some hfound
  rcases Action.ofExcept_bind_run hcompare with ⟨e', hraised, _⟩ | ⟨same, _, hcompared⟩
  · -- the stored password is a hash, so the comparison does not raise
    exfalso
    rcases hstored : user.password with _ | hashed
    · exact hpassword hallowed ⟨user, hfound, hstored⟩
    · obtain ⟨same, hsame⟩ := hanswers password hashed hsize (hhashed user huser hashed hstored)
      rw [hstored, verifyPassword, hsame] at hraised
      cases hraised
  rcases Action.ensure_bind_run hcompared with ⟨_, herror, _⟩ | ⟨_, hmatches⟩
  · cases herror
    exact .userUnauthenticated
  rcases Action.ensure_bind_run hmatches with ⟨_, herror, _⟩ | ⟨_, hverified⟩
  · cases herror
    exact .userNotVerified
  rw [query, Action.read_bind_apply] at hverified
  rcases Action.require_bind_run hverified with ⟨hgone, _, _⟩ | ⟨loaded, hloaded, hmints⟩
  · rw [UserRepository.getByIdWithGrants, Table.get_of_mem huser] at hgone
    cases hgone
  rw [UserRepository.getByIdWithGrants, Table.get_of_mem huser] at hloaded
  obtain rfl := Option.some.inj hloaded
  rcases Action.bind_run hmints with ⟨e', hmint, herror⟩ | ⟨access, db₁, _, _, hmint, hstores, _⟩
  · cases herror
    rcases mint_error hmint with rfl | rfl
    · exact .userDeactivated
    · exact .tenantInactive
  obtain rfl := (mint_run hmint).1
  obtain ⟨row, db₂, es₂, hstored⟩ := create_fresh (expiresFrom + settings.refreshExpire * day) huser
    (hfresh user huser)
  rcases Action.bind_run hstores with ⟨e', hcreate, _⟩ | ⟨_, _, _, _, _, hdone, _⟩
  · rw [hstored] at hcreate
    cases hcreate
  · cases hdone

/-- On every database of the program, a login raises nothing undeclared just
when the limiter stops it or its account is not one without a password. -/
theorem LoginUser.login_declared_iff (hanswers : settings.Answers isHash)
    (hdb : Populated settings isHash db) (hsize : password.toByteArray.size ≤ 72)
    (hfresh : ∀ user ∈ db.users.rows,
      db.refreshTokens.get (createRefreshToken settings issuedAt user.id none jti) = none) :
    (∀ e, (LoginUser.login settings isAllowed window mintedAt issuedAt expiresFrom jti username
      password db).1 = .error e → Declared e) ↔
      (isAllowed = true → ¬ Passwordless db.toTables username) := by
  constructor
  · rintro hdeclared rfl hnone
    have hraised := hdeclared _ (login_passwordless hnone)
    cases hraised
  · intro hpassword e herror
    rcases hrun : LoginUser.login settings isAllowed window mintedAt issuedAt expiresFrom jti
      username password db with ⟨r, db', es⟩
    rw [hrun] at herror
    obtain rfl : r = .error e := herror
    exact login_error hanswers hdb.hashed hsize hfresh hpassword hrun

end Login

/-! ### An account from Google

The first sign-in of zoe makes an account without a password; somebody then
tries its name at the password login. The account of ann is registered and
verified. -/

/-- A mark in front of the password stands for the hash. -/
def markedHash (password : String) : Except Err String := .ok ("$2b$" ++ password)

def IsMarked (hashed : String) : Prop := ∃ password, hashed = "$2b$" ++ password

/-- What is not marked is refused as a salt. -/
def markedSettings : AuthSettings TokenPayload :=
  { Sessions.plainSettings with
    checkPassword := fun plain hashed =>
      if hashed.toList.take 4 = "$2b$".toList then .ok (decide ("$2b$" ++ plain = hashed))
      else .error .valueError }

theorem markedHash_hashes : Hashes IsMarked markedHash := by
  intro password hashed h
  exact ⟨password, (Except.ok.inj h).symm⟩

theorem markedSettings_answers : markedSettings.Answers IsMarked := by
  rintro plain _ _ ⟨password, rfl⟩
  refine ⟨decide ("$2b$" ++ plain = "$2b$" ++ password), ?_⟩
  have htake : ("$2b$" ++ password).toList.take 4 = "$2b$".toList := by
    rw [String.toList_append]
    exact List.take_left' rfl
  exact if_pos htake

def zoeSignedUp : Db :=
  (GoogleOAuthService.handleCallback markedSettings 3 0 0 0 "g" (some "zoe@example.com")
    synced).2.1

theorem zoeSignedUp_populated : Populated markedSettings IsMarked zoeSignedUp :=
  .handleCallback 3 0 0 0 "g" (some "zoe@example.com") .synced

def annRegistered : Db :=
  (RegisterUser.register markedHash 2 ⟨"ann", "ann@example.com", "pw"⟩ synced).2.1

def annVerified : Db := (VerifyMail.verifyMail (some "ann@example.com") annRegistered).2.1

theorem annVerified_populated : Populated markedSettings IsMarked annVerified :=
  .verifyMail _ (.register _ _ _ markedHash_hashes .synced)

theorem annVerified_rows : annVerified.refreshTokens.rows = [] ∧
    (LoginUser.login markedSettings true 60 0 0 0 "first" "ann" "pw" annVerified).1.isOk = true ∧
    (UserRepository.getByUsername annVerified.toTables "ann").map User.password =
      some (some "$2b$pw") := by
  decide +kernel

theorem LoginUser.login_declared_iff_ann :
    (LoginUser.login markedSettings true 60 0 0 0 "first" "ann" "pw" annVerified).1.isOk = true ∧
    ((∀ e, (LoginUser.login markedSettings true 60 0 0 0 "first" "ann" "pw" annVerified).1 =
      .error e → Declared e) ↔ (true = true → ¬ Passwordless annVerified.toTables "ann")) := by
  refine ⟨annVerified_rows.2.1, login_declared_iff markedSettings_answers annVerified_populated
    (by decide) ?_⟩
  intro user _
  rw [Table.get_eq_none_iff, annVerified_rows.1]
  exact List.not_mem_nil

/-- Guessing at an account from Google ends in an exception nobody declares. -/
theorem LoginUser.login_zoe :
    (LoginUser.login markedSettings true 60 0 0 0 "first" "zoe" "guess" zoeSignedUp).1 =
      .error (.attributeError "'NoneType' object has no attribute 'encode'") ∧
    "guess".toByteArray.size ≤ 72 ∧ Populated markedSettings IsMarked zoeSignedUp ∧
    ¬ ∀ e, (LoginUser.login markedSettings true 60 0 0 0 "first" "zoe" "guess" zoeSignedUp).1 =
      .error e → Declared e := by
  have hstored : (UserRepository.getByUsername zoeSignedUp.toTables "zoe").map User.password =
      some none := by
    decide +kernel
  have hraises : (LoginUser.login markedSettings true 60 0 0 0 "first" "zoe" "guess"
      zoeSignedUp).1 = .error (.attributeError "'NoneType' object has no attribute 'encode'") :=
    login_passwordless (Option.map_eq_some_iff.mp hstored)
  refine ⟨hraises, by decide, zoeSignedUp_populated, ?_⟩
  intro hdeclared
  have hraised := hdeclared _ hraises
  cases hraised

end FastapiTemplate
