import FastapiTemplate.Accounts
import FastapiTemplate.Sessions

/-!
The passwords of the accounts. Registration, the services, the seed command and
the password reset store what the hash function returns; an account made by the
Google callback has no password. So a stored password is always a hash. A login
hands the stored password to the comparison as it is, and fails in a way that
nobody declares when there is none.
-/
namespace FastapiTemplate

open Library.KeyedTable Library.Committing

/-! ### The other actions on accounts -/

/-- `schema.auth.UserRegister`. -/
structure UserRegister where
  username : String
  email : String
  password : String

/-- `schema.auth.UserNewPassword`. -/
structure UserNewPassword where
  newPassword : String
  confirmPassword : String

/-- The message of the answer, with the new user. -/
def RegisterUser.register (getPasswordHash : String → Except Err String) (newId : Uuid)
    (userData : UserRegister) : Service (String × User) := do
  let usernameTaken ← query (UserRepository.existsByUsername · userData.username)
  Action.ensure (usernameTaken = false) (.usernameExist userData.username)
  let emailTaken ← query (UserRepository.existsByEmail · userData.email)
  Action.ensure (emailTaken = false) (.userMailExist userData.email)
  let hashedPassword ← Action.ofExcept (getPasswordHash userData.password)
  let newUser ← UserRepository.create {
    id := newId
    username := userData.username
    email := userData.email
    password := some hashedPassword }
  return ("Account Created Successfully! Check mail to verify your Account", newUser)

/-- `cli.seed`; the user, unless the name was taken. -/
def seed (getPasswordHash : String → Except Err String) (newId : Uuid)
    (username email password : String) : Service (Option User) := do
  let usernameTaken ← query (UserRepository.existsByUsername · username)
  if usernameTaken then return none
  else do
    let hashedPassword ← Action.ofExcept (getPasswordHash password)
    let user ← UserRepository.create {
      id := newId
      username := username
      email := email
      password := some hashedPassword
      isVerified := true
      isSuperuser := true }
    return some user

/-- The status code and the message of a `JSONResponse`. -/
abbrev JsonResponse := ℕ × String

/-- The address that a signed link carries; a missing one and an empty one count
as absent. -/
def addressOf (userEmail : Option String) : Option String :=
  userEmail.filter (fun email => email ≠ "")

def VerifyMail.verifyMail (userEmail : Option String) : Service JsonResponse :=
  match addressOf userEmail with
  | some email => do
    let found ← query (UserRepository.getByEmail · email)
    let user ← Action.require found (.userNotFound "unknown")
    UserRepository.setVerified user
    return (200, "Account verified successfully")
  | none => return (500, "Error occured during verification")

def PasswordReset.verifyPassword (getPasswordHash : String → Except Err String)
    (userEmail : Option String) (userData : UserNewPassword) : Service JsonResponse :=
  match addressOf userEmail with
  | some email => do
    let found ← query (UserRepository.getByEmail · email)
    let user ← Action.require found (.userNotFound "unknown")
    Action.ensure (userData.newPassword = userData.confirmPassword)
      (.httpException 404 "Password and confirm Password are not same")
    let hashedPassword ← Action.ofExcept (getPasswordHash userData.newPassword)
    UserRepository.setPassword user hashedPassword
    return (200, "Account Password Reset Successfully")
  | none => return (500, "Error occured during Reset Password")

/-! ### Stored passwords -/

/-- A stored password satisfies `isHash`. -/
def Tables.Hashed (isHash : String → Prop) (t : Tables) : Prop :=
  ∀ u ∈ t.users.rows, ∀ password, u.password = some password → isHash password

/-- The function returns hashes. -/
def Hashes (isHash : String → Prop) (getPasswordHash : String → Except Err String) : Prop :=
  ∀ password hashed, getPasswordHash password = .ok hashed → isHash hashed

/-- What the change stores as a password is a hash. -/
def Change.StoresHash (isHash : String → Prop) : Change → Prop
  | createUser data => ∀ password, data.password = some password → isHash password
  | setPassword _ hashedPassword => isHash hashedPassword
  | _ => True

section Hashed

variable {isHash : String → Prop} {db db' : Db} {es : List Event}

theorem Tables.Hashed.change {c : Change} (h : db.toTables.Hashed isHash)
    (hcommit : c.Commits db db' es) (hstores : c.StoresHash isHash) :
    db'.toTables.Hashed isHash := by
  obtain ⟨tokens, ht⟩ := Change.commits_apply hcommit
  intro u' hu' password hpassword
  rw [ht] at hu'
  rcases Change.user_row hu' with ⟨u, hu, _, _, _, hsame | ⟨stored, hset, hc⟩⟩ | ⟨data, hc, hrow⟩
  · rw [← hsame] at hpassword
    exact h u hu password hpassword
  · rw [hset] at hpassword
    obtain rfl := Option.some.inj hpassword
    cases hc
    exact hstores
  · rw [hrow] at hpassword
    rw [hc] at hstores
    exact hstores password hpassword

/-- A transaction keeps the passwords hashed. -/
def KeepsHashed (isHash : String → Prop) (db db' : Db) (_ : List Event) : Prop :=
  db.toTables.Hashed isHash → db'.toTables.Hashed isHash

theorem does_stores {α : Type} {body : Tx α} (c : Change) (hbody : c.Commits = Commits body)
    (hstores : c.StoresHash isHash) :
    Does (KeepsHashed isHash) (transaction body) db (fun _ _ => True) := by
  refine does_transaction ?_
  intro a db' es hcommit
  refine ⟨?_, trivial⟩
  intro h
  have hcommits : c.Commits db db' es := by
    rw [hbody]
    exact ⟨a, hcommit⟩
  exact h.change hcommits hstores

theorem Tables.Hashed.run {α : Type} {m : Service α} {Q : α → Db → Prop}
    (hm : Does (KeepsHashed isHash) m db Q) (h : db.toTables.Hashed isHash) :
    (m db).2.1.toTables.Hashed isHash :=
  hm.1.invariant (I := fun s : Db => s.toTables.Hashed isHash) (fun _ _ _ hkeeps => hkeeps) h

/-! ### Every path that writes a password -/

/-- The new account has a password that is a hash, or none. -/
theorem does_create {β : Type} {data : UserRepository.NewUser} {f : User → Service β}
    (hpassword : ∀ password, data.password = some password → isHash password)
    (hf : ∀ user s, Does (KeepsHashed isHash) (f user) s (fun _ _ => True)) :
    Does (KeepsHashed isHash) (UserRepository.create data >>= f) db (fun _ _ => True) :=
  Does.bind (does_stores (.createUser data) rfl hpassword) (fun user s _ => hf user s)

variable {getPasswordHash : String → Except Err String}

theorem does_register {newId : Uuid} {userData : UserRegister}
    (hhash : Hashes isHash getPasswordHash) :
    Does (KeepsHashed isHash) (RegisterUser.register getPasswordHash newId userData) db
      (fun _ _ => True) := by
  refine does_query (Does.ensure_bind ?_)
  intro _
  refine does_query (Does.ensure_bind ?_)
  intro _
  refine Does.ofExcept_bind ?_
  intro hashed hhashed
  refine does_create ?_ (fun _ _ => Does.pure trivial)
  rintro _ ⟨⟩
  exact hhash _ _ hhashed

theorem does_seed {newId : Uuid} {username email password : String}
    (hhash : Hashes isHash getPasswordHash) :
    Does (KeepsHashed isHash) (seed getPasswordHash newId username email password) db
      (fun _ _ => True) := by
  refine does_query (Does.ite (fun _ => Does.pure trivial) ?_)
  intro _
  refine Does.ofExcept_bind ?_
  intro hashed hhashed
  refine does_create ?_ (fun _ _ => Does.pure trivial)
  rintro _ ⟨⟩
  exact hhash _ _ hhashed

theorem does_verifyMail {userEmail : Option String} :
    Does (KeepsHashed isHash) (VerifyMail.verifyMail userEmail) db (fun _ _ => True) := by
  unfold VerifyMail.verifyMail
  split
  · refine does_query (Does.require_bind ?_)
    intro user _
    exact Does.bind (does_stores (.setVerified user) rfl trivial) (fun _ _ _ => Does.pure trivial)
  · exact Does.pure trivial

theorem does_verifyPassword {userEmail : Option String} {userData : UserNewPassword}
    (hhash : Hashes isHash getPasswordHash) :
    Does (KeepsHashed isHash) (PasswordReset.verifyPassword getPasswordHash userEmail userData) db
      (fun _ _ => True) := by
  unfold PasswordReset.verifyPassword
  split
  · refine does_query (Does.require_bind ?_)
    intro user _
    refine Does.ensure_bind ?_
    intro _
    refine Does.ofExcept_bind ?_
    intro hashed hhashed
    exact Does.bind (does_stores (.setPassword user hashed) rfl (hhash _ _ hhashed))
      (fun _ _ _ => Does.pure trivial)
  · exact Does.pure trivial

/-- A callback stores an account without a password. -/
theorem does_handleCallback {Token : Type} {settings : AuthSettings Token} {newUserId : Uuid}
    {mintedAt expiresFrom issuedAt : ℤ} {jti : String} {email : Option String} :
    Does (KeepsHashed isHash) (GoogleOAuthService.handleCallback settings newUserId mintedAt
      expiresFrom issuedAt jti email) db (fun _ _ => True) := by
  refine Does.ensure_bind ?_
  intro _
  refine does_query ?_
  refine Does.bind (Q := fun _ _ => True) ?_ ?_
  · unfold GoogleOAuthService.account
    split
    · exact Does.pure trivial
    · refine does_query (does_stores (.createUser _) rfl ?_)
      intro _ hnone
      cases hnone
  intro user s _
  refine does_query (Does.require_bind ?_)
  intro loaded _
  refine Does.bind (Q := fun _ _ => True) ?_ ?_
  · exact does_query (Does.ofExcept (fun _ _ => trivial))
  intro access s _
  exact Does.bind (does_stores (.token (.create _ _ _)) rfl trivial)
    (fun _ _ _ => Does.pure trivial)

theorem does_createUser_hashed {newId : Uuid} {actor : LoadedUser} {data : UserCreate}
    (hhash : Hashes isHash getPasswordHash) :
    Does (KeepsHashed isHash) (UserManagementService.createUser getPasswordHash newId actor data)
      db (fun _ _ => True) := by
  refine does_query (Does.ensure_bind ?_)
  intro _
  refine does_query (Does.ensure_bind ?_)
  intro _
  refine Does.ofExcept_bind ?_
  intro hashed hhashed
  refine does_create ?_ (fun _ _ => Does.read trivial)
  rintro _ ⟨⟩
  exact hhash _ _ hhashed

theorem does_createTenantWithAdmin_hashed {newTenantId newUserId : Uuid} {actor : LoadedUser}
    {data : TenantCreate} (hhash : Hashes isHash getPasswordHash) :
    Does (KeepsHashed isHash) (TenantService.createTenantWithAdmin getPasswordHash newTenantId
      newUserId actor data) db (fun _ _ => True) := by
  refine Does.ensure_bind ?_
  intro _
  refine does_query (Does.ensure_bind ?_)
  intro _
  refine does_query (Does.ensure_bind ?_)
  intro _
  refine does_query (Does.ensure_bind ?_)
  intro _
  refine Does.ofExcept_bind ?_
  intro requested _
  refine Does.bind (does_stores (.createTenant newTenantId data.name _) rfl trivial) ?_
  intro tenant s _
  refine Does.bind (does_stores (.createRootTenantRole tenant.id _) rfl trivial) ?_
  intro adminRole s _
  refine Does.ofExcept_bind ?_
  intro hashed hhashed
  refine does_create ?_ ?_
  · rintro _ ⟨⟩
    exact hhash _ _ hhashed
  intro user s
  exact Does.bind (does_stores (.assignToUser adminRole.id user.id) rfl trivial)
    (fun _ _ _ => Does.pure trivial)

/-- Only two operations store a password. -/
theorem does_request_hashed {actorId : Uuid} {call : Call}
    (hhash : Hashes isHash getPasswordHash) :
    Does (KeepsHashed isHash) (request getPasswordHash actorId call) db (fun _ _ => True) := by
  refine does_request ?_
  intro user _ hloaded
  have hother (hcreates : ∀ data, ¬ call.Performs (.createUser data)) :
      Does (KeepsHashed isHash) (call.run getPasswordHash (db.toTables.loadUser user)) db
        (fun _ _ => True) := by
    refine (does_call call hloaded).mono ?_
    rintro s s' es ⟨c, hperforms, _, _, hcommit⟩ h
    refine h.change hcommit ?_
    cases c with
    | createUser data => exact absurd hperforms (hcreates data)
    | setPassword user hashedPassword => cases call <;> exact hperforms.elim
    | _ => exact trivial
  cases call with
  | createUser newId data => exact does_discard (does_createUser_hashed hhash)
  | createTenantWithAdmin newTenantId newUserId data =>
    exact does_discard (does_createTenantWithAdmin_hashed hhash)
  | _ => exact hother (fun _ hperforms => hperforms.elim)

end Hashed

/-! ### The databases of the program -/

/-- The database after the first startup, and after any number of these: the
seven paths that write accounts, among them every request, each with a hash
function of its own, and what leaves the users alone. -/
inductive Populated {Token : Type} (settings : AuthSettings Token) (isHash : String → Prop) :
    Db → Prop
  | synced : Populated settings isHash synced
  | register {db : Db} (getPasswordHash : String → Except Err String) (newId : Uuid)
      (userData : UserRegister) : Hashes isHash getPasswordHash → Populated settings isHash db →
      Populated settings isHash (RegisterUser.register getPasswordHash newId userData db).2.1
  | request {db : Db} (getPasswordHash : String → Except Err String) (actorId : Uuid)
      (call : Call) : Hashes isHash getPasswordHash → Populated settings isHash db →
      Populated settings isHash (request getPasswordHash actorId call db).2.1
  | seed {db : Db} (getPasswordHash : String → Except Err String) (newId : Uuid)
      (username email password : String) : Hashes isHash getPasswordHash →
      Populated settings isHash db →
      Populated settings isHash (seed getPasswordHash newId username email password db).2.1
  | handleCallback {db : Db} (newUserId : Uuid) (mintedAt expiresFrom issuedAt : ℤ) (jti : String)
      (email : Option String) : Populated settings isHash db →
      Populated settings isHash (GoogleOAuthService.handleCallback settings newUserId mintedAt
        expiresFrom issuedAt jti email db).2.1
  | verifyMail {db : Db} (userEmail : Option String) : Populated settings isHash db →
      Populated settings isHash (VerifyMail.verifyMail userEmail db).2.1
  | verifyPassword {db : Db} (getPasswordHash : String → Except Err String)
      (userEmail : Option String) (userData : UserNewPassword) : Hashes isHash getPasswordHash →
      Populated settings isHash db → Populated settings isHash
        (PasswordReset.verifyPassword getPasswordHash userEmail userData db).2.1
  | other {db : Db} (db' : Db) : db'.users = db.users → Populated settings isHash db →
      Populated settings isHash db'

theorem Populated.hashed {Token : Type} {settings : AuthSettings Token} {isHash : String → Prop}
    {db : Db} (h : Populated settings isHash db) : db.toTables.Hashed isHash := by
  induction h with
  | synced =>
    have hnone : FastapiTemplate.synced.users.rows = [] := by decide +kernel
    intro u hu
    rw [hnone] at hu
    cases hu
  | register getPasswordHash newId userData hhash _ ih => exact ih.run (does_register hhash)
  | request getPasswordHash actorId call hhash _ ih => exact ih.run (does_request_hashed hhash)
  | seed getPasswordHash newId username email password hhash _ ih =>
    exact ih.run (does_seed hhash)
  | handleCallback newUserId mintedAt expiresFrom issuedAt jti email _ ih =>
    exact ih.run does_handleCallback
  | verifyMail userEmail _ ih => exact ih.run does_verifyMail
  | verifyPassword getPasswordHash userEmail userData hhash _ ih =>
    exact ih.run (does_verifyPassword hhash)
  | other db' husers _ ih =>
    intro u hu
    rw [husers] at hu
    exact ih u hu

end FastapiTemplate
