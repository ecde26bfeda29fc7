import FastapiTemplate.AuthzCache
import FastapiTemplate.Delegation
import FastapiTemplate.Mask
import FastapiTemplate.TenantRepository

/-!
Access tokens. `mint_access_token` puts the mask and the version of a loaded
user into the claims; `get_current_principal` trusts the claims once the
signature and the authz cache allow it, and `permission_required` tests one
bit. The signed encoding is a parameter: decoding an encoded payload returns
it until it expires.
-/
namespace FastapiTemplate

open Library.BitMask Library.Committing

structure TokenPayload where
  id : Uuid
  tenantId : Option Uuid
  isSuperuser : Bool
  /-- The hexadecimal text of the mask. -/
  permMask : String
  permVersion : ℕ
  /-- Seconds since the epoch, the resolution of the claim. -/
  exp : ℤ
  authMethod : String
  deriving DecidableEq

/-- The JWT library with the key of the application, at a given time. -/
structure Jwt (Token : Type) where
  encode : TokenPayload → Token
  decode : ℤ → Token → Option TokenPayload
  decode_encode : ∀ now payload, now < payload.exp → decode now (encode payload) = some payload

structure Principal where
  id : Uuid
  tenantId : Option Uuid
  isSuperuser : Bool
  permMask : ℕ
  permVersion : ℕ
  deriving DecidableEq

section Tokens

variable {Token : Type} (jwt : Jwt Token) (accessTokenExpireMinutes : ℤ)

/-- A zero `expires_delta` counts as absent. -/
def expiry (now : ℤ) (expiresDelta : Option ℤ) : ℤ :=
  match expiresDelta with
  | none => now + accessTokenExpireMinutes * 60
  | some delta => if delta = 0 then now + accessTokenExpireMinutes * 60 else now + delta

def createAccessToken (now : ℤ) (userId : Uuid) (tenantId : Option Uuid) (isSuperuser : Bool)
    (permMask permVersion : ℕ) (expiresDelta : Option ℤ) (authMethod : String) :
    Except Err Token := do
  let permMask ← maskToHex (some permMask)
  return jwt.encode ⟨userId, tenantId, isSuperuser, permMask, permVersion,
    expiry accessTokenExpireMinutes now expiresDelta, authMethod⟩

def verifyToken (now : ℤ) (token : Token) : Option TokenPayload := jwt.decode now token

/-- The checks of `mint_access_token`; the tenant is read here. -/
def ensureActive (t : Tables) (user : User) : Except Err Unit :=
  if user.isActive = false then .error .userDeactivated
  else match user.tenantId with
    | none => .ok ()
    | some tenantId =>
      match TenantRepository.getById t tenantId with
      | none => .error .tenantInactive
      | some tenant => if tenant.isActive = false then .error .tenantInactive else .ok ()

def mintAccessToken (t : Tables) (now : ℤ) (user : LoadedUser) (authMethod : String) :
    Except Err Token := do
  ensureActive t user.toUser
  createAccessToken jwt accessTokenExpireMinutes now user.id user.tenantId user.isSuperuser
    (effectivePermissionMask user) user.permVersion none authMethod

/-- `_authenticate`. -/
def authenticate (cache : AuthzCache) (now : ℤ) (token : Token) : Except Err TokenPayload :=
  match verifyToken jwt now token with
  | none => .error .invalidToken
  | some payload =>
    if cache.isUserInactive payload.id then .error .userDeactivated
    else if cache.isTenantInactive payload.tenantId then .error .tenantInactive
    else if cache.isStale payload.id payload.permVersion then .error .staleToken
    else .ok payload

def getCurrentPrincipal (cache : AuthzCache) (now : ℤ) (token : Token) : Except Err Principal := do
  let payload ← authenticate jwt cache now token
  let permMask ← hexToMask (some payload.permMask)
  return ⟨payload.id, payload.tenantId, payload.isSuperuser, permMask, payload.permVersion⟩

end Tokens

def permissionChecker (requiredPermission : String) (b : ℕ) (principal : Principal) :
    Except Err Principal :=
  if principal.isSuperuser then .ok principal
  else if principal.permMask &&& bit b = 0 then
    .error (.httpException 403 s!"Missing required permission: {requiredPermission}")
  else .ok principal

/-- The bit is looked up when the route is declared. -/
def permissionRequired (requiredPermission : String) :
    Except Err (Principal → Except Err Principal) :=
  match permissionRegistry.lookup requiredPermission with
  | none => .error (.keyError requiredPermission)
  | some b => .ok (permissionChecker requiredPermission b)

theorem permissionChecker_eq_ok_iff {name : String} {b : ℕ} {principal : Principal} :
    permissionChecker name b principal = .ok principal ↔
      principal.isSuperuser = true ∨ principal.permMask.testBit b = true := by
  unfold permissionChecker
  rw [← and_bit_ne_zero_iff]
  by_cases hsuper : principal.isSuperuser = true
  · simp [hsuper]
  · by_cases hmask : principal.permMask &&& bit b = 0 <;> simp [hsuper, hmask]

/-! ### Minting -/

/-- The user is active, and so is their tenant, if they have one. -/
structure ActiveOwner (t : Tables) (user : User) : Prop where
  active : user.isActive = true
  tenant : ∀ i, user.tenantId = some i →
    ∃ tenant, t.tenants.get i = some tenant ∧ tenant.isActive = true

theorem ensureActive_eq_ok_iff {t : Tables} {user : User} :
    ensureActive t user = .ok () ↔ ActiveOwner t user := by
  unfold ensureActive TenantRepository.getById
  constructor
  · intro h
    split at h
    · cases h
    · rename_i hactive
      refine ⟨by simpa using hactive, ?_⟩
      intro i hi
      rw [hi] at h
      rcases hget : t.tenants.get i with _ | tenant
      · simp [hget] at h
      · refine ⟨tenant, rfl, ?_⟩
        by_contra hne
        simp [hget, hne] at h
  · intro h
    rw [if_neg (by simp [h.active])]
    rcases htenant : user.tenantId with _ | i
    · rfl
    · obtain ⟨tenant, hget, hactive⟩ := h.tenant i htenant
      simp [hget, hactive]

theorem ensureActive_error {t : Tables} {user : User} {e : Err}
    (h : ensureActive t user = .error e) : e = .userDeactivated ∨ e = .tenantInactive := by
  unfold ensureActive at h
  split at h
  · exact Or.inl (Except.error.inj h).symm
  · split at h
    · cases h
    · split at h
      · exact Or.inr (Except.error.inj h).symm
      · split at h
        · exact Or.inr (Except.error.inj h).symm
        · cases h

/-- The claims of a token that is minted from a loaded user. -/
def LoadedUser.claims (user : LoadedUser) (permMask : String) (exp : ℤ) (authMethod : String) :
    TokenPayload :=
  ⟨user.id, user.tenantId, user.isSuperuser, permMask, user.permVersion, exp, authMethod⟩

section Minting

variable {Token : Type} {jwt : Jwt Token} {accessTokenExpireMinutes now : ℤ} {t : Tables}
  {user : LoadedUser} {authMethod : String} {token : Token}

theorem mintAccessToken_eq_ok_iff :
    mintAccessToken jwt accessTokenExpireMinutes t now user authMethod = .ok token ↔
      ActiveOwner t user.toUser ∧
      ∃ permMask, maskToHex (some (effectivePermissionMask user)) = .ok permMask ∧
        token = jwt.encode
          (user.claims permMask (now + accessTokenExpireMinutes * 60) authMethod) := by
  constructor
  · intro h
    obtain ⟨_, hactive, h⟩ := bind_eq_ok h
    obtain ⟨permMask, hmask, h⟩ := bind_eq_ok h
    exact ⟨ensureActive_eq_ok_iff.mp hactive, permMask, hmask, (Except.ok.inj h).symm⟩
  · rintro ⟨hactive, permMask, hmask, rfl⟩
    unfold mintAccessToken createAccessToken
    rw [ensureActive_eq_ok_iff.mpr hactive, hmask]
    rfl

end Minting

/-! ### Authentication -/

/-- The cache has nothing against the claims. -/
structure AuthzCache.Admits (cache : AuthzCache) (payload : TokenPayload) : Prop where
  user : cache.isUserInactive payload.id = false
  tenant : cache.isTenantInactive payload.tenantId = false
  fresh : cache.isStale payload.id payload.permVersion = false

def TokenPayload.principal (payload : TokenPayload) (permMask : ℕ) : Principal :=
  ⟨payload.id, payload.tenantId, payload.isSuperuser, permMask, payload.permVersion⟩

section Authentication

variable {Token : Type} {jwt : Jwt Token} {cache : AuthzCache} {now : ℤ} {payload : TokenPayload}
  {principal : Principal}

theorem authenticate_encode_eq_ok_iff {payload' : TokenPayload} (hnow : now < payload.exp) :
    authenticate jwt cache now (jwt.encode payload) = .ok payload' ↔
      cache.Admits payload ∧ payload' = payload := by
  have hverify : verifyToken jwt now (jwt.encode payload) = some payload :=
    jwt.decode_encode now payload hnow
  unfold authenticate
  simp only [hverify]
  constructor
  · intro h
    split_ifs at h with huser htenant hstale
    exact ⟨⟨by simpa using huser, by simpa using htenant, by simpa using hstale⟩,
      (Except.ok.inj h).symm⟩
  · rintro ⟨hadmits, rfl⟩
    simp [hadmits.user, hadmits.tenant, hadmits.fresh]

/-- The principal of an unexpired token. -/
theorem getCurrentPrincipal_encode_eq_ok_iff (hnow : now < payload.exp) :
    getCurrentPrincipal jwt cache now (jwt.encode payload) = .ok principal ↔
      cache.Admits payload ∧ ∃ permMask, hexToMask (some payload.permMask) = .ok permMask ∧
        principal = payload.principal permMask := by
  constructor
  · intro h
    obtain ⟨payload', hauth, h⟩ := bind_eq_ok h
    obtain ⟨hadmits, hpayload⟩ := (authenticate_encode_eq_ok_iff hnow).mp hauth
    rw [hpayload] at h
    obtain ⟨permMask, hmask, h⟩ := bind_eq_ok h
    exact ⟨hadmits, permMask, hmask, (Except.ok.inj h).symm⟩
  · rintro ⟨hadmits, permMask, hmask, rfl⟩
    unfold getCurrentPrincipal
    rw [(authenticate_encode_eq_ok_iff hnow).mpr ⟨hadmits, rfl⟩]
    simp only [bind, Except.bind, hmask]
    rfl

end Authentication
/-- Claims in the clear, refused once they have expired. -/
def plainJwt : Jwt TokenPayload where
  encode payload := payload
  decode now payload := if now < payload.exp then some payload else none
  decode_encode now payload hnow := by rw [if_pos hnow]

end FastapiTemplate
