import FastapiTemplate.Credentials

/-!
`services.verify.utils` and the mails with a signed link. The links that verify
an address and those that reset a password are signed with one secret under
two salts, and each kind has its own age limit. The signing library is a
parameter: it loads back what it has signed under the same salt, from the
second it was signed to the age limit.
-/
namespace FastapiTemplate

open Library.Committing

/-- The dictionary in a link; the code reads nothing but its `email`. -/
structure LinkData where
  email : Option String
  deriving DecidableEq

/-- The `URLSafeTimedSerializer`s with the secret of the application, by their
salt. Times are in seconds. -/
structure TimedSerializer (Link : Type) where
  dumps : String → ℤ → LinkData → Link
  loads : String → ℤ → ℤ → Link → Option LinkData
  loads_dumps : ∀ salt issuedAt now maxAge data, loads salt now maxAge (dumps salt issuedAt data) =
    if issuedAt ≤ now ∧ now ≤ issuedAt + maxAge then some data else none
  loads_other : ∀ salt salt' issuedAt now maxAge data, salt ≠ salt' →
    loads salt now maxAge (dumps salt' issuedAt data) = none

/-- `serializer` and `password_reset_serializer`. -/
def emailSalt : String := "email-configuration"
def resetSalt : String := "password-reset"

/-- A day, and half an hour. -/
def emailMaxAge : ℤ := 60 * 60 * 24
def resetMaxAge : ℤ := 60 * 30

section Links

variable {Link : Type} (serializer : TimedSerializer Link)

def createUrlSafeToken (now : ℤ) (data : LinkData) : Link :=
  serializer.dumps emailSalt now data

def decodeUrlSafeToken (now : ℤ) (token : Link) : Except Err LinkData :=
  match serializer.loads emailSalt now emailMaxAge token with
  | some data => .ok data
  | none => .error (.httpException 400 "Invalid or expired token")

def createPasswordResetToken (now : ℤ) (data : LinkData) : Link :=
  serializer.dumps resetSalt now data

def decodePasswordResetToken (now : ℤ) (token : Link) : Except Err LinkData :=
  match serializer.loads resetSalt now resetMaxAge token with
  | some data => .ok data
  | none => .error (.httpException 400 "Link expired or already used")

/-! ### The routes that send and take links -/

inductive Purpose
  | verifyMail
  | resetPassword
  deriving DecidableEq

/-- A mail, by the purpose of its link and the second of its signature. -/
structure Mail where
  recipient : String
  purpose : Purpose
  issuedAt : ℤ
  deriving DecidableEq

def Mail.link (mail : Mail) : Link :=
  match mail.purpose with
  | .verifyMail => createUrlSafeToken serializer mail.issuedAt ⟨some mail.recipient⟩
  | .resetPassword => createPasswordResetToken serializer mail.issuedAt ⟨some mail.recipient⟩

/-- `send_mail` of both services: what the mail queue or the mail server raises
is logged and dropped. -/
def sendMail (purpose : Purpose) (now : ℤ) (sent : Bool) (email : String) : List Mail :=
  if sent then [⟨email, purpose, now⟩] else []

def RegisterUser.sendMail (now : ℤ) (sent : Bool) (email : String) : List Mail :=
  FastapiTemplate.sendMail .verifyMail now sent email

def ResetPassword.sendMail (now : ℤ) (sent : Bool) (email : String) : List Mail :=
  FastapiTemplate.sendMail .resetPassword now sent email

/-- The mail is sent in the background, once the answer is out. -/
def ResetPassword.resetPassword (email : String) : Service String := do
  let known ← query (UserRepository.existsByEmail · email)
  Action.ensure (known = true) (.userNotFound email)
  return "Please Check you mail for password reset link"

def verifyUserAccount (now : ℤ) (token : Link) : Service JsonResponse := do
  let data ← Action.ofExcept (decodeUrlSafeToken serializer now token)
  VerifyMail.verifyMail data.email

def resetPasswordUpdate (getPasswordHash : String → Except Err String) (now : ℤ)
    (token : Link) (userData : UserNewPassword) : Service JsonResponse := do
  let data ← Action.ofExcept (decodePasswordResetToken serializer now token)
  PasswordReset.verifyPassword getPasswordHash data.email userData

end Links

/-! ### Which link is taken for what -/

def Purpose.salt : Purpose → String
  | verifyMail => emailSalt
  | resetPassword => resetSalt

def Purpose.maxAge : Purpose → ℤ
  | verifyMail => emailMaxAge
  | resetPassword => resetMaxAge

/-- A mail of this purpose to this address, no older than the limit. -/
structure Mail.Live (mail : Mail) (purpose : Purpose) (now : ℤ) (email : Option String) :
    Prop where
  kind : mail.purpose = purpose
  recipient : email = some mail.recipient
  issued : mail.issuedAt ≤ now
  fresh : now ≤ mail.issuedAt + purpose.maxAge

section Decoding

variable {Link : Type} {serializer : TimedSerializer Link} {now : ℤ} {mail : Mail}
  {data : LinkData}

theorem Purpose.salt_injective {purpose purpose' : Purpose} (h : purpose.salt = purpose'.salt) :
    purpose = purpose' := by
  cases purpose <;> cases purpose' <;> first | rfl | exact absurd h (by decide)

theorem Mail.link_eq : mail.link serializer =
    serializer.dumps mail.purpose.salt mail.issuedAt ⟨some mail.recipient⟩ := by
  unfold Mail.link
  cases mail.purpose <;> rfl

/-- A link loads for its own purpose only, and then for its recipient. -/
theorem loads_link_eq_some_iff (purpose : Purpose) :
    serializer.loads purpose.salt now purpose.maxAge (mail.link serializer) = some data ↔
      mail.Live purpose now data.email := by
  rw [Mail.link_eq]
  by_cases hpurpose : mail.purpose = purpose
  · rw [hpurpose, serializer.loads_dumps]
    constructor
    · intro h
      split_ifs at h with hage
      obtain rfl := Option.some.inj h
      exact ⟨hpurpose, rfl, hage.1, hage.2⟩
    · intro h
      rw [if_pos ⟨h.issued, h.fresh⟩, ← h.recipient]
  · have hsalt : purpose.salt ≠ mail.purpose.salt :=
      fun h => hpurpose (Purpose.salt_injective h).symm
    rw [serializer.loads_other _ _ _ _ _ _ hsalt]
    constructor
    · intro h
      cases h
    · exact fun h => absurd h.kind hpurpose

theorem decodeUrlSafeToken_eq_ok_iff {token : Link} :
    decodeUrlSafeToken serializer now token = .ok data ↔
      serializer.loads emailSalt now emailMaxAge token = some data := by
  unfold decodeUrlSafeToken
  rcases serializer.loads emailSalt now emailMaxAge token with _ | found <;> simp

theorem decodePasswordResetToken_eq_ok_iff {token : Link} :
    decodePasswordResetToken serializer now token = .ok data ↔
      serializer.loads resetSalt now resetMaxAge token = some data := by
  unfold decodePasswordResetToken
  rcases serializer.loads resetSalt now resetMaxAge token with _ | found <;> simp

end Decoding

/-- Links in the clear. -/
def plainSerializer : TimedSerializer (String × ℤ × LinkData) where
  dumps salt issuedAt data := (salt, issuedAt, data)
  loads salt now maxAge link :=
    if link.1 = salt ∧ link.2.1 ≤ now ∧ now ≤ link.2.1 + maxAge then some link.2.2 else none
  loads_dumps salt issuedAt now maxAge data := by simp
  loads_other salt salt' issuedAt now maxAge data hne := by simp [hne.symm]

end FastapiTemplate
