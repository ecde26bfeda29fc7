import FastapiTemplate.AccountLinks
import FastapiTemplate.CatalogSync

/-!
What the code outside the three services commits, action by action: the sign-in
actions and the cleanup touch refresh tokens, registration, the Google callback
and the seed command add accounts without a tenant, a link verifies an address
or stores a password, and a restart finds the catalogue complete. So none of
them leaves the databases that the runs of the services reach.
-/
namespace FastapiTemplate

open Library.KeyedTable Library.Committing

/-- One commit outside the services, of a kind that `P` names. -/
def OutsideStep (P : Change → Prop) (db db' : Db) (_ : List Event) : Prop :=
  ∃ (c : Change) (es : List Event), P c ∧ c.Outside ∧ c.Current db.toTables ∧ c.Commits db db' es

theorem does_outside {α : Type} {P : Change → Prop} {body : Tx α} {db : Db} {Q : α → Db → Prop}
    (c : Change) (hbody : c.Commits = Commits body) (hP : P c) (houtside : c.Outside)
    (hcur : c.Current db.toTables)
    (hpost : ∀ a db' es, body db.toTables = .ok (a, db'.toTables, es) → Q a db') :
    Does (OutsideStep P) (transaction body) db Q := by
  refine does_transaction ?_
  intro a db' es hcommit
  refine ⟨⟨c, es, hP, houtside, hcur, ?_⟩, hpost a db' es hcommit⟩
  rw [hbody]
  exact ⟨a, hcommit⟩

/-- The change is about refresh tokens only. -/
def Change.IsToken : Change → Prop
  | token _ => True
  | _ => False

section Actions

variable {Token : Type} {settings : AuthSettings Token} {db : Db} {α : Type}

/-- What minting has checked; the tables are those of the moment. -/
def Mints (settings : AuthSettings Token) (db : Db) (mintedAt : ℤ) (owner : LoadedUser)
    (authMethod : String) (token : Token) : Prop :=
  db.toTables.Loaded owner ∧
    mintAccessToken settings.jwt settings.accessTokenExpireMinutes db.toTables (mintedAt / second)
      owner authMethod = .ok token

theorem does_mint {S : Db → Db → List Event → Prop} {mintedAt : ℤ} {owner : LoadedUser}
    {authMethod : String} {f : Token → Service α} {Q : α → Db → Prop}
    (howner : db.toTables.Loaded owner)
    (hf : ∀ token, Mints settings db mintedAt owner authMethod token → Does S (f token) db Q) :
    Does S (mint settings mintedAt owner authMethod >>= f) db Q := by
  refine Does.bind (Q := fun token db' => db' = db ∧
    Mints settings db mintedAt owner authMethod token) ?_ ?_
  · refine does_query (Does.ofExcept ?_)
    exact fun token hminted => ⟨rfl, howner, hminted⟩
  · rintro token _ ⟨rfl, hmints⟩
    exact hf token hmints

/-- Storing a refresh token does not touch what minting reads. -/
theorem does_createToken {refreshToken : String} {userId : Uuid} {expiresAt mintedAt : ℤ}
    {owner : LoadedUser} {authMethod : String} {token : Token} {f : RefreshToken → Service α}
    {Q : α → Db → Prop} (hmints : Mints settings db mintedAt owner authMethod token)
    (hf : ∀ row db', db'.users = db.users → Mints settings db' mintedAt owner authMethod token →
      Does (OutsideStep Change.IsToken) (f row) db' Q) :
    Does (OutsideStep Change.IsToken)
      (transaction (RefreshTokenRepository.createTx refreshToken userId expiresAt) >>= f) db Q := by
  refine Does.bind (Q := fun _ db' => db'.users = db.users ∧
    Mints settings db' mintedAt owner authMethod token) ?_ ?_
  · refine does_outside (.token (.create refreshToken userId expiresAt)) rfl trivial trivial
      trivial ?_
    intro row db' es hcommit
    obtain ⟨refreshTokens, _, ht, _⟩ := RefreshTokenRepository.createTx_eq_ok hcommit
    unfold Mints
    rw [ht]
    exact ⟨rfl, hmints⟩
  · rintro row db' ⟨husers, hmints'⟩
    exact hf row db' husers hmints'

theorem loaded_of_getByIdWithGrants {t : Tables} {userId : Uuid} {user : LoadedUser}
    (h : UserRepository.getByIdWithGrants t userId = some user) : t.Loaded user := by
  unfold Tables.Loaded
  rw [(UserRepository.getByIdWithGrants_eq_some h).2.2]
  exact h

theorem getByUsername_eq_some {t : Tables} {username : String} {user : User}
    (h : UserRepository.getByUsername t username = some user) :
    t.users.get user.id = some user ∧ user.username = username :=
  ⟨Table.get_of_mem (List.mem_of_find?_eq_some h), by simpa using List.find?_some h⟩

theorem getByEmail_eq_some {t : Tables} {email : String} {user : User}
    (h : UserRepository.getByEmail t email = some user) :
    t.users.get user.id = some user ∧ user.email = email :=
  ⟨Table.get_of_mem (List.mem_of_find?_eq_some h), by simpa using List.find?_some h⟩

/-- A login commits a refresh token only, and the access token that it returns
was minted for a verified user of this name whose password it has compared. -/
theorem does_login {isAllowed : Bool} {window : ℕ} {mintedAt issuedAt expiresFrom : ℤ}
    {jti username password : String} :
    Does (OutsideStep Change.IsToken) (LoginUser.login settings isAllowed window mintedAt issuedAt
      expiresFrom jti username password) db (fun r db' => ∃ owner,
        Mints settings db' mintedAt owner "password" r.1.accessToken ∧
        db.users.get owner.id = some owner.toUser ∧ isAllowed = true ∧
        owner.username = username ∧ owner.isVerified = true ∧
        verifyPassword settings password owner.password = .ok true) := by
  refine Does.ensure_bind ?_
  intro hallowed
  refine does_query (Does.require_bind ?_)
  intro user huser
  obtain ⟨hrow, hname⟩ := getByUsername_eq_some huser
  refine Does.ofExcept_bind ?_
  intro compared hcompared
  refine Does.ensure_bind ?_
  rintro rfl
  refine Does.ensure_bind ?_
  intro hverified
  refine does_query (Does.require_bind ?_)
  intro owner howner
  have hsame : owner.toUser = user :=
    Option.some.inj ((UserRepository.getByIdWithGrants_eq_some howner).1.symm.trans hrow)
  refine does_mint (loaded_of_getByIdWithGrants howner) ?_
  intro token hmints
  refine does_createToken hmints ?_
  intro row db' _ hmints'
  refine Does.pure ⟨owner, hmints', ?_, hallowed, ?_⟩
  · rw [hsame]
    exact hrow
  rw [hsame]
  exact ⟨hname, hverified, hcompared⟩

theorem does_refresh {checkedAt mintedAt issuedAt expiresFrom : ℤ} {jti refreshToken : String} :
    Does (OutsideStep Change.IsToken) (Refresh.refresh settings checkedAt mintedAt issuedAt
      expiresFrom jti refreshToken) db (fun response db' => ∃ owner,
        Mints settings db' mintedAt owner "password" response.accessToken) := by
  refine does_query (Does.require_bind ?_)
  intro row _
  refine Does.ite ?_ ?_
  · intro _
    exact Does.bind (Q := fun _ _ => True) (does_outside (.token (.deleteAllForUser row.userId)) rfl
      trivial trivial trivial (fun _ _ _ _ => trivial)) (fun _ _ _ => Does.raise)
  intro _
  refine Does.ite ?_ ?_
  · intro _
    exact Does.bind (Q := fun _ _ => True) (does_outside (.token (.deleteByToken row.token)) rfl
      trivial trivial trivial (fun _ _ _ _ => trivial)) (fun _ _ _ => Does.raise)
  intro _
  refine Does.bind (Q := fun _ _ => True) (does_outside (.token (.revoke row)) rfl
    trivial trivial trivial (fun _ _ _ _ => trivial)) ?_
  intro _ db₁ _
  refine does_query (Does.require_bind ?_)
  intro owner howner
  refine does_mint (loaded_of_getByIdWithGrants howner) ?_
  intro token hmints
  refine does_createToken hmints ?_
  intro created db' _ hmints'
  exact Does.pure ⟨owner, hmints'⟩

theorem does_logout {refreshToken : Option String} :
    Does (OutsideStep Change.IsToken) (LogoutUser.logout refreshToken) db (fun _ _ => True) := by
  cases refreshToken with
  | none => exact Does.pure trivial
  | some token =>
    refine Does.ite ?_ (fun _ => Does.pure trivial)
    intro _
    exact Does.bind (Q := fun _ _ => True) (does_outside (.token (.deleteByToken token)) rfl trivial
      trivial trivial (fun _ _ _ _ => trivial)) (fun _ _ _ => Does.pure trivial)

/-- The change adds an account outside of the tenants, or it is about refresh
tokens only. -/
def Change.AddsAccount : Change → Prop
  | createUser data => data.tenantId = none
  | token _ => True
  | _ => False

theorem does_handleCallback_outside {newUserId : Uuid} {mintedAt expiresFrom issuedAt : ℤ}
    {jti : String} {email : Option String} :
    Does (OutsideStep Change.AddsAccount) (GoogleOAuthService.handleCallback settings newUserId
      mintedAt expiresFrom issuedAt jti email) db (fun response db' => ∃ owner,
        Mints settings db' mintedAt owner "google" response.accessToken) := by
  refine Does.ensure_bind ?_
  intro _
  refine does_query ?_
  refine Does.bind (Q := fun _ _ => True) ?_ ?_
  · unfold GoogleOAuthService.account
    split
    · exact Does.pure trivial
    · exact does_query (does_outside (.createUser _) rfl rfl rfl trivial (fun _ _ _ _ => trivial))
  intro user db₁ _
  refine does_query (Does.require_bind ?_)
  intro owner howner
  refine does_mint (loaded_of_getByIdWithGrants howner) ?_
  intro token hmints
  refine Does.mono (does_createToken hmints ?_) ?_
  · intro row db' _ hmints'
    exact Does.pure ⟨owner, hmints'⟩
  · rintro s s' _ ⟨c, es, hc, houtside, hcur, hcommit⟩
    refine ⟨c, es, ?_, houtside, hcur, hcommit⟩
    cases c with
    | token change => exact trivial
    | _ => exact hc.elim

/-- A registration adds an account that is not verified yet. -/
theorem does_register_outside {getPasswordHash : String → Except Err String} {newId : Uuid}
    {userData : UserRegister} :
    Does (OutsideStep Change.AddsAccount) (RegisterUser.register getPasswordHash newId userData) db
      (fun r db' => db'.users.get newId = some r.2 ∧ r.2.username = userData.username ∧
        r.2.email = userData.email ∧ r.2.isVerified = false ∧ ∃ hashedPassword,
          getPasswordHash userData.password = .ok hashedPassword ∧
            r.2.password = some hashedPassword) := by
  refine does_query (Does.ensure_bind ?_)
  intro _
  refine does_query (Does.ensure_bind ?_)
  intro _
  refine Does.ofExcept_bind ?_
  intro hashed hhashed
  refine Does.bind (Q := fun user db' => db'.users.get newId = some user ∧
      user.username = userData.username ∧ user.email = userData.email ∧
      user.isVerified = false ∧ user.password = some hashed) ?_ ?_
  · refine does_outside (.createUser _) rfl rfl rfl trivial ?_
    intro user db' es hcommit
    obtain ⟨users, hinsert, ht, rfl, _⟩ := UserRepository.createTx_eq_ok hcommit
    rw [ht]
    exact ⟨Table.get_insert?_self hinsert, rfl, rfl, rfl, rfl⟩
  · rintro user db' ⟨hrow, hname, hemail, hverified, hpassword⟩
    exact Does.pure ⟨hrow, hname, hemail, hverified, hashed, hhashed, hpassword⟩

theorem does_seed_outside {getPasswordHash : String → Except Err String} {newId : Uuid}
    {username email password : String} :
    Does (OutsideStep Change.AddsAccount) (seed getPasswordHash newId username email password) db
      (fun _ _ => True) := by
  refine does_query (Does.ite (fun _ => Does.pure trivial) ?_)
  intro _
  refine Does.ofExcept_bind ?_
  intro hashed _
  exact Does.bind (Q := fun _ _ => True) (does_outside (.createUser _) rfl rfl rfl trivial
    (fun _ _ _ _ => trivial)) (fun _ _ _ => Does.pure trivial)

/-! ### Links -/

/-- The change verifies an account with this address. -/
def Change.Verifies (email : Option String) : Change → Prop
  | setVerified user => email = some user.email
  | _ => False

/-- The change stores this password for an account with this address. -/
def Change.Resets (email : Option String) (hashedPassword : String) : Change → Prop
  | setPassword user stored => email = some user.email ∧ stored = hashedPassword
  | _ => False

/-- The two inputs agree, and the password hashes. -/
def UserNewPassword.HashesTo (userData : UserNewPassword)
    (getPasswordHash : String → Except Err String) (hashedPassword : String) : Prop :=
  userData.newPassword = userData.confirmPassword ∧
    getPasswordHash userData.newPassword = .ok hashedPassword

variable {Link : Type} {serializer : TimedSerializer Link}

/-- The address of a link that is accepted is the one that gets verified. -/
theorem does_verifyUserAccount {now : ℤ} {token : Link} :
    Does (OutsideStep (fun c => ∃ data, decodeUrlSafeToken serializer now token = .ok data ∧
      c.Verifies (addressOf data.email))) (verifyUserAccount serializer now token) db
      (fun _ _ => True) := by
  refine Does.ofExcept_bind ?_
  intro data hdata
  unfold VerifyMail.verifyMail
  split
  · rename_i email hemail
    refine does_query (Does.require_bind ?_)
    intro user huser
    obtain ⟨hrow, rfl⟩ := getByEmail_eq_some huser
    exact Does.bind (Q := fun _ _ => True) (does_outside (.setVerified user) rfl
      ⟨data, hdata, hemail⟩ trivial hrow (fun _ _ _ _ => trivial))
      (fun _ _ _ => Does.pure trivial)
  · exact Does.pure trivial

theorem does_resetPasswordUpdate {getPasswordHash : String → Except Err String} {now : ℤ}
    {token : Link} {userData : UserNewPassword} :
    Does (OutsideStep (fun c => ∃ data hashedPassword,
      decodePasswordResetToken serializer now token = .ok data ∧
      userData.HashesTo getPasswordHash hashedPassword ∧
      c.Resets (addressOf data.email) hashedPassword))
      (resetPasswordUpdate serializer getPasswordHash now token userData) db (fun _ _ => True) := by
  refine Does.ofExcept_bind ?_
  intro data hdata
  unfold PasswordReset.verifyPassword
  split
  · rename_i email hemail
    refine does_query (Does.require_bind ?_)
    intro user huser
    obtain ⟨hrow, rfl⟩ := getByEmail_eq_some huser
    refine Does.ensure_bind ?_
    intro hsame
    refine Does.ofExcept_bind ?_
    intro hashed hhashed
    exact Does.bind (Q := fun _ _ => True) (does_outside (.setPassword user hashed) rfl
      ⟨data, hashed, hdata, ⟨hsame, hhashed⟩, hemail, rfl⟩ trivial hrow (fun _ _ _ _ => trivial))
      (fun _ _ _ => Does.pure trivial)
  · exact Does.pure trivial

end Actions

/-! ### Reachable databases -/

theorem Reachable.path {P : Change → Prop} {db db' : Db} {es : List Event}
    (hpath : Path (OutsideStep P) db db' es) (h : Reachable db) : Reachable db' := by
  refine hpath.invariant ?_ h
  rintro s s' _ ⟨c, es, _, houtside, hcur, hcommit⟩ hs
  exact .outside c houtside hcur hcommit hs

theorem does_deleteTokens (db : Db) (tokens : List String) :
    ∃ db' es, Path (OutsideStep Change.IsToken) db db' es ∧ db'.toTables =
      db.toTables.withTokens (db.refreshTokens.delete (fun k => k.token ∈ tokens)) := by
  induction tokens generalizing db with
  | nil =>
    refine ⟨db, [], .nil db, ?_⟩
    have hnone : db.refreshTokens.delete (fun k => k.token ∈ ([] : List String)) =
        db.refreshTokens :=
      (Table.delete_congr (fun k _ => by simp)).trans (Table.delete_false db.refreshTokens)
    rw [hnone]
    rfl
  | cons token tokens ih =>
    let deleted : Db := ⟨_, constraints_delete db (fun k => k.token = token)⟩
    have hdeleted : OutsideStep Change.IsToken db deleted [] :=
      ⟨.token (.deleteByToken token), [], trivial, trivial, trivial, (), rfl⟩
    obtain ⟨db', es, hpath, ht⟩ := ih deleted
    refine ⟨db', [] ++ es, .cons hdeleted hpath, ?_⟩
    rw [ht]
    change db.toTables.withTokens ((db.refreshTokens.delete _).delete _) = _
    rw [Table.delete_delete]
    congr 1
    exact Table.delete_congr (fun k _ => by simp)

/-- The one statement of the cleanup deletes like so many logouts. -/
theorem cleanup_path (db : Db) (now : ℤ) :
    ∃ es, Path (OutsideStep Change.IsToken) db (cleanupExpiredTokens now db).2.1 es := by
  let expired := db.refreshTokens.rows.filter (fun k => k.expiresAt < now ∨ k.isRevoked)
  obtain ⟨db', es, hpath, ht⟩ := does_deleteTokens db (expired.map RefreshToken.token)
  refine ⟨es, ?_⟩
  have hsame : db.refreshTokens.delete (fun k => k.token ∈ expired.map RefreshToken.token) =
      db.refreshTokens.delete (fun k => k.expiresAt < now ∨ k.isRevoked) := by
    refine Table.delete_congr ?_
    intro k hk
    rw [decide_eq_decide, List.mem_map]
    constructor
    · rintro ⟨row, hrow, htoken⟩
      obtain ⟨hmem, hexpired⟩ := List.mem_filter.mp hrow
      have hsamerow : row = k := Table.eq_of_get hmem htoken (Table.get_of_mem hk)
      rw [← hsamerow]
      exact of_decide_eq_true hexpired
    · exact fun hexpired => ⟨k, List.mem_filter.mpr ⟨hk, decide_eq_true hexpired⟩, rfl⟩
  have hrun : (cleanupExpiredTokens now db).2.1.toTables = db'.toTables := by
    rw [cleanupExpiredTokens, transaction_commits rfl (constraints_delete db _), ht, hsame]
  generalize (cleanupExpiredTokens now db).2.1 = after at hrun ⊢
  obtain ⟨t, ht⟩ := after
  cases hrun
  exact hpath

/-- The tables have the whole catalogue already. -/
theorem Tables.Catalogued.sync_run {db : Db} (h : db.toTables.Catalogued) :
    SyncPermissions.syncWithSession permissionRegistry db = (.ok (), db, []) := by
  have hentries : ∀ entries : Registry, entries ⊆ permissionRegistry →
      (ForM.forM entries SyncPermissions.syncEntry : Service PUnit) db = (.ok (), db, []) := by
    intro entries
    induction entries with
    | nil => exact fun _ => rfl
    | cons entry entries ih =>
      intro hsub
      obtain ⟨p, hp, hname⟩ := h.complete entry (hsub List.mem_cons_self)
      have hbit : p.bitPosition = some entry.2 := by
        rw [(h.known p hp).2, hname]
        exact lookup_eq_some_iff.mpr (hsub List.mem_cons_self)
      have hentry := SyncPermissions.syncEntry_present hp hname
      rw [if_pos hbit] at hentry
      rw [List.forM_cons, Action.bind_apply_ok hentry]
      exact ih (fun e he => hsub (List.mem_cons_of_mem entry he))
  exact hentries _ (fun _ he => he)

end FastapiTemplate
