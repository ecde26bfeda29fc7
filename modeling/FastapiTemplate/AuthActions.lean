import FastapiTemplate.AccessToken
import FastapiTemplate.UserRepository
import Mathlib.Order.Interval.Finset.Nat

/-!
`services.auth.actions` as far as it issues and takes back refresh tokens:
login, the Google callback, refresh and logout, and the task that cleans the
table up. Times are microseconds since the epoch; each call to the clock is an
argument of its own. The answers of the rate limiter, of Google and of `bcrypt`
are arguments, and so is the signed encoding of a refresh token.
-/
namespace FastapiTemplate

open Library.KeyedTable Library.Committing

/-- The claims of a refresh token; `jti` is drawn at random. -/
structure RefreshClaims where
  /-- Seconds since the epoch. -/
  exp : ℤ
  userId : String
  jti : String
  deriving DecidableEq

/-- The settings and the libraries that the actions use. -/
structure AuthSettings (Token : Type) where
  jwt : Jwt Token
  accessTokenExpireMinutes : ℤ
  /-- In days. -/
  refreshExpire : ℤ
  production : Bool
  encodeRefresh : RefreshClaims → String
  /-- `bcrypt.checkpw`, which raises on what it cannot compare. -/
  checkPassword : String → String → Except Err Bool

structure TokenResponse (Token : Type) where
  accessToken : Token
  refreshToken : String
  tokenType : String

/-- The arguments of `set_cookie`. -/
structure Cookie where
  key : String
  value : String
  httponly : Bool
  secure : Bool
  samesite : String
  /-- In seconds. -/
  maxAge : ℤ

structure GoogleOAuthCallbackResponse (Token : Type) extends TokenResponse Token where
  user : User
  isNewUser : Bool

/-- One second and one day. -/
def second : ℤ := 1000000
def day : ℤ := 24 * 60 * 60 * second

section Actions

variable {Token : Type} (settings : AuthSettings Token)

/-- A zero `expires_delta` counts as absent. -/
def createRefreshToken (now : ℤ) (userId : Uuid) (expiresDelta : Option ℤ) (jti : String) :
    String :=
  let delta := match expiresDelta with
    | none => 7 * day
    | some delta => if delta = 0 then 7 * day else delta
  settings.encodeRefresh ⟨(now + delta) / second, userId.str, jti⟩

/-- `mint_access_token` on the session of a request. -/
def mint (now : ℤ) (user : LoadedUser) (authMethod : String) : Service Token := do
  let minted ← query (fun t =>
    mintAccessToken settings.jwt settings.accessTokenExpireMinutes t (now / second) user authMethod)
  Action.ofExcept minted

/-- An account without a password has nothing to compare with. -/
def verifyPassword (plainPassword : String) (hashedPassword : Option String) :
    Except Err Bool :=
  match hashedPassword with
  | none => .error (.attributeError "'NoneType' object has no attribute 'encode'")
  | some hashedPassword => settings.checkPassword plainPassword hashedPassword

def LoginUser.login (isAllowed : Bool) (window : ℕ) (mintedAt issuedAt expiresFrom : ℤ)
    (jti username password : String) : Service (TokenResponse Token × Cookie) := do
  Action.ensure (isAllowed = true) (.rateLimit
    "Too many login attempts for this account. Please wait before trying again." window.repr)
  let found ← query (UserRepository.getByUsername · username)
  let user ← Action.require found .userUnauthenticated
  let verified ← Action.ofExcept (verifyPassword settings password user.password)
  Action.ensure (verified = true) .userUnauthenticated
  Action.ensure (user.isVerified = true) .userNotVerified
  let loaded ← query (UserRepository.getByIdWithGrants · user.id)
  let userWithGrants ← Action.require loaded
    (.attributeError "'NoneType' object has no attribute 'is_active'")
  let accessToken ← mint settings mintedAt userWithGrants "password"
  let refreshToken := createRefreshToken settings issuedAt user.id none jti
  let cookie : Cookie := ⟨"refresh_token", refreshToken, true, settings.production, "lax",
    settings.refreshExpire * 24 * 60 * 60⟩
  let _ ← transaction (RefreshTokenRepository.createTx refreshToken user.id
    (expiresFrom + settings.refreshExpire * day))
  return (⟨accessToken, refreshToken, "bearer"⟩, cookie)

def breach : Err :=
  .httpException 403 "Security breach detected. All sessions invalidated. Please login again."

def Refresh.refresh (checkedAt mintedAt issuedAt expiresFrom : ℤ) (jti refreshToken : String) :
    Service (TokenResponse Token) := do
  let found ← query (RefreshTokenRepository.getByToken · refreshToken)
  let dbToken ← Action.require found (.httpException 401 "Invalid refresh token")
  if dbToken.isRevoked then do
    transaction (RefreshTokenRepository.deleteAllForUserTx dbToken.userId)
    Action.raise breach
  else if dbToken.expiresAt < checkedAt then do
    transaction (RefreshTokenRepository.deleteInstanceTx dbToken)
    Action.raise (.httpException 401 "Refresh token expired")
  else do
    transaction (RefreshTokenRepository.revokeTx dbToken)
    let userId := dbToken.userId
    let loaded ← query (UserRepository.getByIdWithGrants · userId)
    let user ← Action.require loaded (.userNotFound userId.str)
    let newAccessToken ← mint settings mintedAt user "password"
    let newRefreshToken := createRefreshToken settings issuedAt userId none jti
    let _ ← transaction (RefreshTokenRepository.createTx newRefreshToken userId
      (expiresFrom + settings.refreshExpire * day))
    return ⟨newAccessToken, newRefreshToken, "bearer"⟩

end Actions

/-- The browser may have no cookie. -/
def LogoutUser.logout (refreshToken : Option String) : Service String := do
  match refreshToken with
  | none => pure ()
  | some refreshToken =>
    if refreshToken ≠ "" then
      transaction (RefreshTokenRepository.deleteByTokenTx refreshToken)
  return "Successfully logged out"

def cleanupExpiredTokens (now : ℤ) : Service Unit :=
  transaction (RefreshTokenRepository.deleteExpiredOrRevokedTx now)

/-! ### The Google callback -/

/-- `[a-zA-Z0-9_.-]`. -/
def isIdentifierChar (c : Char) : Bool :=
  c.isAlphanum || c = '_' || c = '.' || c = '-'

def sanitizeIdentifier (value : String) (maxLen : ℕ) : String :=
  let cleaned := (value.toList.filter isIdentifierChar).take maxLen
  if cleaned = [] then "user" else String.ofList cleaned

/-- The loop over the suffixes, for as many rounds as `fuel`. -/
def freeUsername (t : Tables) (baseUsername : String) : ℕ → ℕ → String → String
  | 0, _, candidate => candidate
  | fuel + 1, suffix, candidate =>
    if UserRepository.existsByUsername t candidate then
      freeUsername t baseUsername fuel (suffix + 1) (baseUsername ++ (suffix + 1).repr)
    else candidate

/-- `email.split("@")[0]`. -/
def localPart (email : String) : String :=
  String.ofList ((email.toList.splitOn '@').headD [])

/-- One round more than there are users suffices. -/
def buildUniqueUsername (t : Tables) (email : String) : String :=
  let baseUsername := sanitizeIdentifier (localPart email) 50
  freeUsername t baseUsername (t.users.rows.length + 1) 1 baseUsername

/-- The account that was found, or a new one. -/
def GoogleOAuthService.account (newUserId : Uuid) (email : String) (found : Option User) :
    Service User :=
  match found with
  | some user => pure user
  | none => do
    let username ← query (buildUniqueUsername · email)
    UserRepository.create
      { id := newUserId, username := username, email := email, password := none,
        isVerified := true }

def GoogleOAuthService.handleCallback {Token : Type} (settings : AuthSettings Token)
    (newUserId : Uuid) (mintedAt expiresFrom issuedAt : ℤ) (jti : String)
    (email : Option String) : Service (GoogleOAuthCallbackResponse Token) := do
  let email := email.getD ""
  Action.ensure (email ≠ "") (.httpException 400 "Email not provided by Google")
  let found ← query (UserRepository.getByEmail · email)
  let user ← account newUserId email found
  let loaded ← query (UserRepository.getByIdWithGrants · user.id)
  let userWithGrants ← Action.require loaded
    (.attributeError "'NoneType' object has no attribute 'is_active'")
  let accessToken ← mint settings mintedAt userWithGrants "google"
  let refreshToken := createRefreshToken settings issuedAt user.id
    (some (settings.refreshExpire * day)) jti
  let _ ← transaction (RefreshTokenRepository.createTx refreshToken user.id
    (expiresFrom + settings.refreshExpire * day))
  return { accessToken := accessToken, refreshToken := refreshToken, tokenType := "bearer",
           user := user, isNewUser := found.isNone }

/-! ### What an action does to the tokens -/

/-- The tables with other refresh tokens. -/
def Tables.withTokens (t : Tables) (refreshTokens : Table RefreshToken.token) : Tables :=
  { t with refreshTokens := refreshTokens }

theorem constraints_withTokens {db : Db} {refreshTokens : Table RefreshToken.token}
    (h : ∀ k ∈ refreshTokens.rows, (db.users.get k.userId).isSome) :
    (db.toTables.withTokens refreshTokens).Constraints := by
  obtain ⟨_, _, _, _, _, _, _, _, _, _, _, _, _, _, _, _⟩ := db.constraints
  constructor <;> assumption

theorem constraints_delete (db : Db) (p : RefreshToken → Bool) :
    (db.toTables.withTokens (db.refreshTokens.delete p)).Constraints :=
  constraints_withTokens (fun k hk => db.constraints.tokenUser k (Table.mem_delete hk))

/-- The row of a token after its refresh has revoked it. -/
def revoked (refreshTokens : Table RefreshToken.token) (token : String) :
    Table RefreshToken.token :=
  refreshTokens.update (fun k => k.token = token) (fun k => { k with isRevoked := true })
    RefreshToken.token_setRevoked

theorem constraints_revoked (db : Db) (token : String) :
    (db.toTables.withTokens (revoked db.refreshTokens token)).Constraints := by
  refine constraints_withTokens ?_
  intro k hk
  obtain ⟨row, hrow, _, rfl | ⟨_, rfl⟩⟩ := Table.mem_update hk
  · exact db.constraints.tokenUser k hrow
  · exact db.constraints.tokenUser row hrow

section Outcomes

variable {Token : Type} {settings : AuthSettings Token} {db db' : Db} {es : List Event}

/-- How a refresh may end, by the row of the token that was presented. -/
inductive Refresh.Outcome (db db' : Db) (checkedAt : ℤ) (token : String) :
    Except Err (TokenResponse Token) → Prop
  | unknown : db.refreshTokens.get token = none → db' = db →
      Outcome db db' checkedAt token (.error (.httpException 401 "Invalid refresh token"))
  | reused (row : RefreshToken) : db.refreshTokens.get token = some row →
      row.isRevoked = true →
      db'.toTables = db.toTables.withTokens
        (db.refreshTokens.delete (fun k => k.userId = row.userId)) →
      Outcome db db' checkedAt token (.error breach)
  | expired (row : RefreshToken) : db.refreshTokens.get token = some row →
      row.isRevoked = false → row.expiresAt < checkedAt →
      db'.toTables = db.toTables.withTokens (db.refreshTokens.delete (fun k => k.token = token)) →
      Outcome db db' checkedAt token (.error (.httpException 401 "Refresh token expired"))
  | failed (row : RefreshToken) (e : Err) : db.refreshTokens.get token = some row →
      row.isRevoked = false → checkedAt ≤ row.expiresAt → e ≠ breach →
      db'.toTables = db.toTables.withTokens (revoked db.refreshTokens token) →
      Outcome db db' checkedAt token (.error e)
  | rotated (row : RefreshToken) (response : TokenResponse Token) (expiresAt : ℤ)
      (refreshTokens : Table RefreshToken.token) : db.refreshTokens.get token = some row →
      row.isRevoked = false → checkedAt ≤ row.expiresAt →
      (revoked db.refreshTokens token).insert?
        ⟨response.refreshToken, row.userId, expiresAt, false⟩ = some refreshTokens →
      db'.toTables = db.toTables.withTokens refreshTokens →
      Outcome db db' checkedAt token (.ok response)

theorem mintAccessToken_ne_breach {t : Tables} {now : ℤ} {user : LoadedUser}
    {authMethod : String} {e : Err}
    (h : mintAccessToken settings.jwt settings.accessTokenExpireMinutes t now user authMethod =
      .error e) : e ≠ breach := by
  unfold mintAccessToken createAccessToken at h
  rcases hactive : ensureActive t user.toUser with e' | _
  · rw [hactive] at h
    obtain rfl : e' = e := Except.error.inj h
    rcases ensureActive_error hactive with rfl | rfl <;> simp [breach]
  · rcases hhex : maskToHex (some (effectivePermissionMask user)) with e' | text
    · rw [hactive, hhex] at h
      obtain rfl : e' = e := Except.error.inj h
      rw [maskToHex_eq_error hhex]
      simp [breach]
    · rw [hactive, hhex] at h
      cases h

/-- Minting reads only, and its errors are not the breach. -/
theorem mint_run {now : ℤ} {user : LoadedUser} {authMethod : String} {r : Except Err Token}
    (h : mint settings now user authMethod db = (r, db', es)) :
    db' = db ∧ r ≠ .error breach := by
  rw [mint, query, Action.read_bind_apply] at h
  rcases hminted : mintAccessToken settings.jwt settings.accessTokenExpireMinutes db.toTables
    (now / second) user authMethod with e | token
  · rw [hminted] at h
    obtain ⟨rfl, rfl, rfl⟩ := h
    refine ⟨rfl, ?_⟩
    intro hbreach
    exact mintAccessToken_ne_breach hminted (Except.error.inj hbreach)
  · rw [hminted] at h
    cases h
    exact ⟨rfl, nofun⟩

theorem revokeTx_withTokens {row : RefreshToken} (hrow : db.refreshTokens.get row.token = some row) :
    RefreshTokenRepository.revokeTx row db.toTables =
      .ok ((), db.toTables.withTokens (revoked db.refreshTokens row.token), []) := by
  unfold RefreshTokenRepository.revokeTx
  rw [if_pos (by rw [hrow]; rfl)]
  rfl

/-- A token that cannot be stored leaves the tables as they are. -/
theorem create_error {token : String} {userId : Uuid} {expiresAt : ℤ} {e : Err}
    (h : transaction (RefreshTokenRepository.createTx token userId expiresAt) db =
      (.error e, db', es)) : e ≠ breach ∧ db' = db := by
  rcases transaction_run h with ⟨e', he, rfl, hbody | rfl | rfl⟩ | ⟨a, ha, _⟩
  · obtain rfl := Except.error.inj he
    unfold RefreshTokenRepository.createTx at hbody
    split at hbody
    · cases hbody
      exact ⟨by simp [breach], rfl⟩
    · cases hbody
  · obtain rfl := Except.error.inj he
    exact ⟨by simp [breach], rfl⟩
  · obtain rfl := Except.error.inj he
    exact ⟨by simp [breach], rfl⟩
  · cases ha

theorem create_ok {token : String} {userId : Uuid} {expiresAt : ℤ} {row : RefreshToken}
    (h : transaction (RefreshTokenRepository.createTx token userId expiresAt) db =
      (.ok row, db', es)) :
    ∃ refreshTokens, db.refreshTokens.insert? ⟨token, userId, expiresAt, false⟩ =
      some refreshTokens ∧ db'.toTables = db.toTables.withTokens refreshTokens := by
  rcases transaction_run h with ⟨e, he, _⟩ | ⟨a, ha, hbody⟩
  · cases he
  · obtain ⟨refreshTokens, hinsert, ht, _⟩ := RefreshTokenRepository.createTx_eq_ok hbody
    exact ⟨refreshTokens, hinsert, ht⟩

theorem Refresh.refresh_outcome {checkedAt mintedAt issuedAt expiresFrom : ℤ}
    {jti refreshToken : String} {r : Except Err (TokenResponse Token)}
    (h : Refresh.refresh settings checkedAt mintedAt issuedAt expiresFrom jti refreshToken db =
      (r, db', es)) : Outcome db db' checkedAt refreshToken r := by
  rw [refresh, query, Action.read_bind_apply] at h
  rcases Action.require_bind_run h with ⟨hnone, rfl, rfl⟩ | ⟨row, hrow, hfound⟩
  · exact .unknown hnone rfl
  clear h
  obtain rfl : row.token = refreshToken := Table.key_of_get hrow
  split at hfound
  · rename_i hrevoked
    obtain ⟨gs, hrest⟩ := transaction_bind_run rfl (constraints_delete db _) hfound
    cases hrest
    exact .reused row hrow hrevoked rfl
  rename_i hrevoked
  rw [Bool.not_eq_true] at hrevoked
  split at hfound
  · rename_i hexpired
    obtain ⟨gs, hrest⟩ := transaction_bind_run rfl (constraints_delete db _) hfound
    cases hrest
    exact .expired row hrow hrevoked hexpired rfl
  rename_i hexpired
  rw [not_lt] at hexpired
  obtain ⟨gs, hrest⟩ :=
    transaction_bind_run (revokeTx_withTokens hrow) (constraints_revoked db _) hfound
  simp only [query, Action.read_bind_apply] at hrest
  rcases Action.require_bind_run hrest with ⟨_, rfl, rfl⟩ | ⟨user, _, hloaded⟩
  · exact .failed row _ hrow hrevoked hexpired (by simp [breach]) rfl
  rcases Action.bind_run hloaded with ⟨e, hmint, rfl⟩ | ⟨access, db₁, es₁, es₂, hmint, hminted, _⟩
  · obtain ⟨rfl, hne⟩ := mint_run hmint
    exact .failed row e hrow hrevoked hexpired (fun he => hne (by rw [he])) rfl
  obtain ⟨rfl, _⟩ := mint_run hmint
  rcases Action.bind_run hminted with ⟨e, hcreate, rfl⟩ |
    ⟨created, db₂, es₁, es₂, hcreate, hdone, _⟩
  · obtain ⟨hne, rfl⟩ := create_error hcreate
    exact .failed row e hrow hrevoked hexpired hne rfl
  · obtain ⟨refreshTokens, hinsert, ht⟩ := create_ok hcreate
    cases hdone
    exact .rotated row _ _ refreshTokens hrow hrevoked hexpired hinsert ht

/-- The row of a new token has been added. -/
def Issues (db db' : Db) (token : String) (userId : Uuid) : Prop :=
  ∃ expiresAt, db.refreshTokens.insert? ⟨token, userId, expiresAt, false⟩ =
    some db'.refreshTokens

theorem issues_of_create {token : String} {userId : Uuid} {expiresAt : ℤ} {row : RefreshToken}
    (h : transaction (RefreshTokenRepository.createTx token userId expiresAt) db =
      (.ok row, db', es)) : Issues db db' token userId := by
  obtain ⟨refreshTokens, hinsert, ht⟩ := create_ok h
  refine ⟨expiresAt, ?_⟩
  rw [hinsert, ht]
  rfl

/-- A login issues one token, which is also the value of the cookie. -/
theorem LoginUser.login_outcome {isAllowed : Bool} {window : ℕ}
    {mintedAt issuedAt expiresFrom : ℤ} {jti username password : String}
    {r : Except Err (TokenResponse Token × Cookie)}
    (h : LoginUser.login settings isAllowed window mintedAt issuedAt expiresFrom jti username
      password db = (r, db', es)) :
    (∃ e, r = .error e ∧ db' = db) ∨ ∃ response cookie userId, r = .ok (response, cookie) ∧
      cookie.value = response.refreshToken ∧
      (∃ claims, response.refreshToken = settings.encodeRefresh claims) ∧
      Issues db db' response.refreshToken userId := by
  unfold login at h
  rcases Action.ensure_bind_run h with ⟨_, rfl, rfl⟩ | ⟨_, hallowed⟩
  · exact Or.inl ⟨_, rfl, rfl⟩
  rw [query, Action.read_bind_apply] at hallowed
  rcases Action.require_bind_run hallowed with ⟨_, rfl, rfl⟩ | ⟨user, _, hfound⟩
  · exact Or.inl ⟨_, rfl, rfl⟩
  rcases Action.ofExcept_bind_run hfound with ⟨e, _, rfl, rfl⟩ | ⟨verified, _, hcompared⟩
  · exact Or.inl ⟨e, rfl, rfl⟩
  rcases Action.ensure_bind_run hcompared with ⟨_, rfl, rfl⟩ | ⟨_, hpassword⟩
  · exact Or.inl ⟨_, rfl, rfl⟩
  rcases Action.ensure_bind_run hpassword with ⟨_, rfl, rfl⟩ | ⟨_, hverified⟩
  · exact Or.inl ⟨_, rfl, rfl⟩
  rw [query, Action.read_bind_apply] at hverified
  rcases Action.require_bind_run hverified with ⟨_, rfl, rfl⟩ | ⟨loaded, _, hloaded⟩
  · exact Or.inl ⟨_, rfl, rfl⟩
  rcases Action.bind_run hloaded with ⟨e, hmint, rfl⟩ | ⟨access, db₁, _, _, hmint, hminted, _⟩
  · exact Or.inl ⟨e, rfl, (mint_run hmint).1⟩
  obtain rfl := (mint_run hmint).1
  rcases Action.bind_run hminted with ⟨e, hcreate, rfl⟩ | ⟨_, db₂, _, _, hcreate, hdone, _⟩
  · exact Or.inl ⟨e, rfl, (create_error hcreate).2⟩
  · cases hdone
    exact Or.inr ⟨_, _, user.id, rfl, rfl, ⟨_, rfl⟩, issues_of_create hcreate⟩

theorem GoogleOAuthService.account_run {newUserId : Uuid} {email : String} {found : Option User}
    {r : Except Err User} (h : account newUserId email found db = (r, db', es)) :
    db'.refreshTokens = db.refreshTokens := by
  unfold account at h
  cases found with
  | some user =>
    cases h
    rfl
  | none =>
    simp only [query, Action.read_bind_apply, UserRepository.create] at h
    rcases transaction_run h with ⟨_, _, rfl, _⟩ | ⟨a, _, hbody⟩
    · rfl
    · obtain ⟨users, _, ht, _⟩ := UserRepository.createTx_eq_ok hbody
      rw [ht]

/-- So does a callback; creating the account leaves the tokens alone. -/
theorem GoogleOAuthService.handleCallback_outcome {newUserId : Uuid}
    {mintedAt expiresFrom issuedAt : ℤ} {jti : String} {email : Option String}
    {r : Except Err (GoogleOAuthCallbackResponse Token)}
    (h : GoogleOAuthService.handleCallback settings newUserId mintedAt expiresFrom issuedAt jti
      email db = (r, db', es)) :
    (∃ e, r = .error e ∧ db'.refreshTokens = db.refreshTokens) ∨
      ∃ response userId, r = .ok response ∧ Issues db db' response.refreshToken userId := by
  unfold handleCallback at h
  rcases Action.ensure_bind_run h with ⟨_, rfl, rfl⟩ | ⟨_, hemail⟩
  · exact Or.inl ⟨_, rfl, rfl⟩
  rw [query, Action.read_bind_apply] at hemail
  rcases Action.bind_run hemail with ⟨e, hrun, rfl⟩ | ⟨user, db₁, _, _, hrun, hrest, _⟩
  · exact Or.inl ⟨e, rfl, account_run hrun⟩
  have htokens := account_run hrun
  rw [query, Action.read_bind_apply] at hrest
  rcases Action.require_bind_run hrest with ⟨_, rfl, rfl⟩ | ⟨loaded, _, hloaded⟩
  · exact Or.inl ⟨_, rfl, htokens⟩
  rcases Action.bind_run hloaded with ⟨e, hmint, rfl⟩ | ⟨access, db₂, _, _, hmint, hminted, _⟩
  · exact Or.inl ⟨e, rfl, by rw [(mint_run hmint).1, htokens]⟩
  obtain rfl := (mint_run hmint).1
  rcases Action.bind_run hminted with ⟨e, hcreate, rfl⟩ | ⟨_, db₂, _, _, hcreate, hdone, _⟩
  · exact Or.inl ⟨e, rfl, by rw [(create_error hcreate).2, htokens]⟩
  · cases hdone
    obtain ⟨expiresAt, hinsert⟩ := issues_of_create hcreate
    rw [htokens] at hinsert
    exact Or.inr ⟨_, user.id, rfl, expiresAt, hinsert⟩

end Outcomes

/-- An empty string counts as no cookie. -/
theorem LogoutUser.logout_deletes {refreshToken : String} (hne : refreshToken ≠ "")
    {db db' : Db} {es : List Event} {r : Except Err String}
    (h : LogoutUser.logout (some refreshToken) db = (r, db', es)) :
    db'.refreshTokens = db.refreshTokens.delete (fun k => k.token = refreshToken) := by
  unfold logout at h
  simp only [if_pos hne] at h
  obtain ⟨_, hrest⟩ := transaction_bind_run rfl (constraints_delete db _) h
  cases hrest
  rfl

theorem LogoutUser.logout_outcome {refreshToken : Option String} {db db' : Db} {es : List Event}
    {r : Except Err String} (h : LogoutUser.logout refreshToken db = (r, db', es)) :
    db' = db ∨ ∃ token, refreshToken = some token ∧
      db'.refreshTokens = db.refreshTokens.delete (fun k => k.token = token) := by
  cases refreshToken with
  | none =>
    cases h
    exact Or.inl rfl
  | some token =>
    by_cases hne : token = ""
    · subst hne
      cases h
      exact Or.inl rfl
    · exact Or.inr ⟨token, rfl, logout_deletes hne h⟩

theorem cleanupExpiredTokens_outcome {now : ℤ} {db db' : Db} {es : List Event}
    {r : Except Err Unit} (h : cleanupExpiredTokens now db = (r, db', es)) :
    db'.refreshTokens = db.refreshTokens.delete (fun k => k.expiresAt < now ∨ k.isRevoked) := by
  rw [cleanupExpiredTokens, transaction_commits rfl (constraints_delete db _)] at h
  cases h
  rfl

end FastapiTemplate
