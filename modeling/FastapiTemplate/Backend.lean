import FastapiTemplate.MaskAgreement
import FastapiTemplate.OutsideSteps
import FastapiTemplate.Routes

/-!
The whole program as one machine. Its state is the database, the clock, the
access tokens handed out and the account mails sent; its inputs are the
requests to every route that writes or reads the tables, the seed command, a
restart and the cleanup task. A caller may present any token or link that was
handed out, or one that was never signed, at any worker with any cache. Every
database that the machine reaches is one that the runs of the services reach,
and the claims of every token agree with the row of its user for good.
-/
namespace FastapiTemplate

open Library.KeyedTable Library.Committing Library.BitMask

/-- Times are in microseconds. -/
structure Backend (Token : Type) where
  db : Db
  now : ℤ
  issued : List Token
  mails : List Mail

inductive Input (Token Link : Type)
  | wait (later : ℤ)
  | route (getPasswordHash : String → Except Err String) (token : Token) (cache : AuthzCache)
      (call : Call)
  | login (isAllowed : Bool) (window : ℕ) (mintedAt issuedAt expiresFrom : ℤ)
      (jti username password : String)
  | googleCallback (newUserId : Uuid) (mintedAt expiresFrom issuedAt : ℤ) (jti : String)
      (email : Option String)
  | refresh (checkedAt mintedAt issuedAt expiresFrom : ℤ) (jti refreshToken : String)
  | logout (refreshToken : Option String)
  | cleanup
  | register (getPasswordHash : String → Except Err String) (newId : Uuid)
      (userData : UserRegister) (sentAt : ℤ) (sent : Bool)
  | resetPassword (email : String) (sentAt : ℤ) (sent : Bool)
  | verifyMail (token : Link)
  | verifyPassword (getPasswordHash : String → Except Err String) (token : Link)
      (userData : UserNewPassword)
  | seed (getPasswordHash : String → Except Err String) (newId : Uuid)
      (username email password : String)
  | startup

/-- What an answer hands out, when there is one. -/
def handedOut {α β : Type} (r : Except Err α) (f : α → List β) : List β :=
  match r with
  | .ok a => f a
  | .error _ => []

namespace Backend

section Machine

variable {Token Link : Type}

/-- Right after the first startup. -/
def start (now : ℤ) : Backend Token := ⟨synced, now, [], []⟩

def bearer (s : Backend Token) (token : Token) (cache : AuthzCache) : Bearer Token :=
  ⟨token, cache, s.now / second⟩

variable (settings : AuthSettings Token) (serializer : TimedSerializer Link)

def step (s : Backend Token) : Input Token Link → Backend Token
  | .wait later => { s with now := later }
  | .route getPasswordHash token cache call =>
    { s with db := (call.route settings.jwt getPasswordHash (s.bearer token cache) s.db).2.1 }
  | .login isAllowed window mintedAt issuedAt expiresFrom jti username password =>
    let run := LoginUser.login settings isAllowed window mintedAt issuedAt expiresFrom jti username
      password s.db
    { s with
      db := run.2.1
      now := expiresFrom
      issued := handedOut run.1 (fun r => [r.1.accessToken]) ++ s.issued }
  | .googleCallback newUserId mintedAt expiresFrom issuedAt jti email =>
    let run := GoogleOAuthService.handleCallback settings newUserId mintedAt expiresFrom issuedAt
      jti email s.db
    { s with
      db := run.2.1
      now := issuedAt
      issued := handedOut run.1 (fun r => [r.accessToken]) ++ s.issued }
  | .refresh checkedAt mintedAt issuedAt expiresFrom jti refreshToken =>
    let run := Refresh.refresh settings checkedAt mintedAt issuedAt expiresFrom jti refreshToken s.db
    { s with
      db := run.2.1
      now := expiresFrom
      issued := handedOut run.1 (fun r => [r.accessToken]) ++ s.issued }
  | .logout refreshToken => { s with db := (LogoutUser.logout refreshToken s.db).2.1 }
  | .cleanup => { s with db := (cleanupExpiredTokens s.now s.db).2.1 }
  | .register getPasswordHash newId userData sentAt sent =>
    let run := RegisterUser.register getPasswordHash newId userData s.db
    { s with
      db := run.2.1
      now := sentAt
      mails := handedOut run.1 (fun _ => RegisterUser.sendMail (sentAt / second) sent
        userData.email) ++ s.mails }
  | .resetPassword email sentAt sent =>
    let run := ResetPassword.resetPassword email s.db
    { s with
      now := sentAt
      mails := handedOut run.1 (fun _ => ResetPassword.sendMail (sentAt / second) sent email) ++
        s.mails }
  | .verifyMail token =>
    { s with db := (verifyUserAccount serializer (s.now / second) token s.db).2.1 }
  | .verifyPassword getPasswordHash token userData =>
    { s with db := (resetPasswordUpdate serializer getPasswordHash (s.now / second) token userData
      s.db).2.1 }
  | .seed getPasswordHash newId username email password =>
    { s with db := (FastapiTemplate.seed getPasswordHash newId username email password s.db).2.1 }
  | .startup => { s with db := (SyncPermissions.syncWithSession permissionRegistry s.db).2.1 }

/-- The caller was given the token, or it was never signed. -/
def KnowsToken (s : Backend Token) (token : Token) : Prop :=
  token ∈ s.issued ∨ ∀ now, settings.jwt.decode now token = none

/-- The caller was given the link, or it was never signed. -/
def KnowsLink (s : Backend Token) (token : Link) : Prop :=
  (∃ mail ∈ s.mails, token = mail.link serializer) ∨
    ∀ salt now maxAge, serializer.loads salt now maxAge token = none

/-- The clock does not go back, and nobody signs but the program. -/
def Allows (s : Backend Token) : Input Token Link → Prop
  | .wait later => s.now ≤ later
  | .route _ token _ _ => s.KnowsToken settings token
  | .login _ _ mintedAt issuedAt expiresFrom _ _ _ =>
    s.now ≤ mintedAt ∧ mintedAt ≤ issuedAt ∧ issuedAt ≤ expiresFrom
  | .googleCallback _ mintedAt expiresFrom issuedAt _ _ =>
    s.now ≤ mintedAt ∧ mintedAt ≤ expiresFrom ∧ expiresFrom ≤ issuedAt
  | .refresh checkedAt mintedAt issuedAt expiresFrom _ _ =>
    s.now ≤ checkedAt ∧ checkedAt ≤ mintedAt ∧ mintedAt ≤ issuedAt ∧ issuedAt ≤ expiresFrom
  | .register _ _ _ sentAt _ => s.now ≤ sentAt
  | .resetPassword _ sentAt _ => s.now ≤ sentAt
  | .verifyMail token => s.KnowsLink serializer token
  | .verifyPassword _ token _ => s.KnowsLink serializer token
  | _ => True

/-- What the machine reaches from the first startup. -/
inductive Reached : Backend Token → Prop
  | start (now : ℤ) : Reached (start now)
  | step {s : Backend Token} (input : Input Token Link) : Reached s →
      s.Allows settings serializer input → Reached (s.step settings serializer input)

end Machine
end Backend

/-! ### Rows that stay -/

/-- One commit of a kind that `P` names. -/
def ChangeStep (P : Change → Prop) (db db' : Db) (_ : List Event) : Prop :=
  ∃ (c : Change) (es : List Event), P c ∧ c.Current db.toTables ∧ c.Commits db db' es

theorem ChangeStep.of_outside {P : Change → Prop} {db db' : Db} {es : List Event}
    (h : Path (OutsideStep P) db db' es) : Path (ChangeStep P) db db' es := by
  refine h.mono ?_
  rintro s s' _ ⟨c, es, hP, _, hcur, hcommit⟩
  exact ⟨c, es, hP, hcur, hcommit⟩

theorem ChangeStep.of_performed {actor : User} {call : Call} {db db' : Db} {es : List Event}
    (h : Path (Performed actor call) db db' es) : Path (ChangeStep call.Performs) db db' es := by
  refine h.mono ?_
  rintro s s' es ⟨c, hperforms, hcur, _, hcommit⟩
  exact ⟨c, es, hperforms, hcur, hcommit⟩

/-- The user is still there, in the same tenant and with the same flag. -/
def Tables.Keeps (t : Tables) (u : User) : Prop :=
  ∃ u', t.users.get u.id = some u' ∧ u'.tenantId = u.tenantId ∧ u'.isSuperuser = u.isSuperuser

theorem Tables.Keeps.path {P : Change → Prop} {db db' : Db} {es : List Event} {u : User}
    (hpath : Path (ChangeStep P) db db' es) (h : db.toTables.Keeps u) : db'.toTables.Keeps u := by
  refine hpath.invariant (I := fun s => s.toTables.Keeps u) ?_ h
  rintro s s' _ ⟨c, es, _, hcur, hcommit⟩ ⟨u', hu', htenant, hsuper⟩
  obtain ⟨u'', hu'', hrow⟩ := Change.row_step hcur hcommit hu'
  exact ⟨u'', hu'', hrow.tenantId.trans htenant, hrow.isSuperuser.trans hsuper⟩

/-! ### Tokens -/

/-- PyJWT gives back the claims that it has encoded, and only until they expire. -/
def Jwt.Expires {Token : Type} (jwt : Jwt Token) : Prop :=
  ∀ now payload payload', jwt.decode now (jwt.encode payload) = some payload' →
    payload' = payload ∧ now < payload.exp

theorem plainJwt_expires : plainJwt.Expires := by
  intro now payload payload' h
  change (if now < payload.exp then some payload else none) = some payload' at h
  split_ifs at h with hnow
  exact ⟨(Option.some.inj h).symm, hnow⟩

theorem authenticate_eq_ok {Token : Type} {jwt : Jwt Token} {cache : AuthzCache} {now : ℤ}
    {token : Token} {payload : TokenPayload} (h : authenticate jwt cache now token = .ok payload) :
    jwt.decode now token = some payload ∧ cache.Admits payload := by
  unfold authenticate verifyToken at h
  split at h
  · cases h
  · rename_i found hfound
    split_ifs at h with huser htenant hstale
    obtain rfl := Except.ok.inj h
    exact ⟨hfound, by simpa using huser, by simpa using htenant, by simpa using hstale⟩

namespace Backend

section Runs

variable {Token Link : Type} {settings : AuthSettings Token} {serializer : TimedSerializer Link}
  {s : Backend Token} {token : Token} {cache : AuthzCache} {payload : TokenPayload}

/-- The token was minted in a database of the runs, for a user who is still there. -/
def Issued (settings : AuthSettings Token) (s : Backend Token) (token : Token) : Prop :=
  ∃ (db : Db) (owner : LoadedUser) (authMethod : String) (mintedAt : ℤ), Reachable db ∧
    Mints settings db mintedAt owner authMethod token ∧ mintedAt ≤ s.now ∧
    s.db.toTables.Keeps owner.toUser

/-- The invariant of the machine. -/
structure Sound (settings : AuthSettings Token) (s : Backend Token) : Prop where
  reachable : Reachable s.db
  issued : ∀ token ∈ s.issued, Issued settings s token

/-- A token that passed `_authenticate`: where it was minted, and what its
claims say about the row of today. -/
structure Admission (settings : AuthSettings Token) (s : Backend Token) (token : Token)
    (cache : AuthzCache) (payload : TokenPayload) (owner user : LoadedUser) : Prop where
  minted : ∃ (db : Db) (authMethod : String) (mintedAt : ℤ), Reachable db ∧
    Mints settings db mintedAt owner authMethod token ∧ mintedAt ≤ s.now ∧
    s.now / second < mintedAt / second + settings.accessTokenExpireMinutes * 60
  id : payload.id = owner.id
  admits : cache.Admits payload
  describes : payload.Describes s.db.toTables user (effectivePermissionMask owner)

theorem Sound.admission (hs : s.Sound settings) (hjwt : settings.jwt.Expires)
    (hknows : s.KnowsToken settings token)
    (hauth : (s.bearer token cache).authenticate settings.jwt = .ok payload) :
    ∃ owner user, Admission settings s token cache payload owner user := by
  obtain ⟨hdecode, hadmits⟩ := authenticate_eq_ok hauth
  rcases hknows with hissued | hforged
  · obtain ⟨db, owner, authMethod, mintedAt, hreach, hmints, hle, u, hu, htenant, hsuper⟩ :=
      hs.issued token hissued
    obtain ⟨_, permMask, hmask, htoken⟩ := mintAccessToken_eq_ok_iff.mp hmints.2
    rw [htoken] at hdecode
    obtain ⟨rfl, hlive⟩ := hjwt _ _ _ hdecode
    refine ⟨owner, s.db.toTables.loadUser u, ⟨db, authMethod, mintedAt, hreach, hmints, hle, hlive⟩,
      rfl, hadmits, ?_, htenant.symm, hsuper.symm, ?_⟩
    · change UserRepository.getByIdWithGrants s.db.toTables owner.id = _
      rw [UserRepository.getByIdWithGrants, hu, Option.map_some]
    · exact hexToMask_maskToHex _ (maskToHex_lt hmask) _ hmask
  · rw [show (s.bearer token cache).token = token from rfl, hforged] at hdecode
    cases hdecode

/-! ### One input -/

theorem Sound.route_cases (hs : s.Sound settings) (hjwt : settings.jwt.Expires)
    (hknows : s.KnowsToken settings token) (getPasswordHash : String → Except Err String)
    (cache : AuthzCache) (call : Call) :
    (∃ e, (s.bearer token cache).authenticate settings.jwt = .error e ∧
      call.route settings.jwt getPasswordHash (s.bearer token cache) s.db = (.error e, s.db, [])) ∨
    ∃ payload owner user, (s.bearer token cache).authenticate settings.jwt = .ok payload ∧
      Admission settings s token cache payload owner user ∧
      call.route settings.jwt getPasswordHash (s.bearer token cache) s.db =
        gated s.db.toTables user (effectivePermissionMask owner) call.gate
          (request getPasswordHash payload.id call) s.db := by
  rcases hauth : (s.bearer token cache).authenticate settings.jwt with e | payload
  · exact Or.inl ⟨e, rfl, route_refused hauth⟩
  · obtain ⟨owner, user, hadmission⟩ := hs.admission hjwt hknows hauth
    exact Or.inr ⟨payload, owner, user, rfl, hadmission, route_run hauth hadmission.describes⟩

/-- A gated request changes what the request changes, or nothing. -/
theorem gated_db {t : Tables} {user : LoadedUser} {mask : ℕ} {gate : Gate} {m : Service Unit}
    {db : Db} {I : Db → Prop} (hsame : I db) (hm : gate.refusal t user mask = none → I (m db).2.1) :
    I (gated t user mask gate m db).2.1 := by
  rcases hrefusal : gate.refusal t user mask with _ | e
  · rw [gated_of_none hrefusal]
    exact hm hrefusal
  · rw [gated_of_some hrefusal]
    exact hsame

/-- The changes that an input may commit. -/
def Performs (serializer : TimedSerializer Link) (s : Backend Token) :
    Input Token Link → Change → Prop
  | .route _ _ _ call, c => call.Performs c
  | .login _ _ _ _ _ _ _ _, c => c.IsToken
  | .refresh _ _ _ _ _ _, c => c.IsToken
  | .logout _, c => c.IsToken
  | .cleanup, c => c.IsToken
  | .googleCallback _ _ _ _ _ _, c => c.AddsAccount
  | .register _ _ _ _ _, c => c.AddsAccount
  | .seed _ _ _ _ _, c => c.AddsAccount
  | .verifyMail token, c => ∃ data,
    decodeUrlSafeToken serializer (s.now / second) token = .ok data ∧
      c.Verifies (addressOf data.email)
  | .verifyPassword getPasswordHash token userData, c => ∃ data hashedPassword,
    decodePasswordResetToken serializer (s.now / second) token = .ok data ∧
      userData.HashesTo getPasswordHash hashedPassword ∧
      c.Resets (addressOf data.email) hashedPassword
  | _, _ => False

variable {input : Input Token Link}

/-- Every input commits changes of its kind, one after the other. -/
theorem Sound.step_path (hs : s.Sound settings) (hjwt : settings.jwt.Expires)
    (hallows : s.Allows settings serializer input) :
    ∃ es, Path (ChangeStep (s.Performs serializer input)) s.db
      (s.step settings serializer input).db es := by
  cases input with
  | wait | resetPassword => exact ⟨[], .nil _⟩
  | route getPasswordHash token cache call =>
    change ∃ es, Path (ChangeStep call.Performs) s.db
      (call.route settings.jwt getPasswordHash (s.bearer token cache) s.db).2.1 es
    rcases hs.route_cases hjwt hallows getPasswordHash cache call with
      ⟨e, _, hrun⟩ | ⟨payload, owner, user, _, hadmission, hrun⟩
    · rw [hrun]
      exact ⟨[], .nil _⟩
    · rw [hrun]
      refine gated_db (I := fun db => ∃ es, Path (ChangeStep call.Performs) s.db db es)
        ⟨[], .nil _⟩ ?_
      intro _
      obtain ⟨hrow, _, hid⟩ := UserRepository.getByIdWithGrants_eq_some hadmission.describes.loaded
      rw [← hid] at hrow ⊢
      exact ⟨_, ChangeStep.of_performed (path_of_request hrow rfl)⟩
  | login => exact ⟨_, ChangeStep.of_outside does_login.1⟩
  | refresh => exact ⟨_, ChangeStep.of_outside does_refresh.1⟩
  | logout => exact ⟨_, ChangeStep.of_outside does_logout.1⟩
  | cleanup =>
    obtain ⟨es, hpath⟩ := cleanup_path s.db s.now
    exact ⟨es, ChangeStep.of_outside hpath⟩
  | googleCallback => exact ⟨_, ChangeStep.of_outside does_handleCallback_outside.1⟩
  | register => exact ⟨_, ChangeStep.of_outside does_register_outside.1⟩
  | seed => exact ⟨_, ChangeStep.of_outside does_seed_outside.1⟩
  | verifyMail => exact ⟨_, ChangeStep.of_outside does_verifyUserAccount.1⟩
  | verifyPassword => exact ⟨_, ChangeStep.of_outside does_resetPasswordUpdate.1⟩
  | startup =>
    change ∃ es, Path _ s.db (SyncPermissions.syncWithSession permissionRegistry s.db).2.1 es
    rw [hs.reachable.catalogued.sync_run]
    exact ⟨[], .nil _⟩

theorem Sound.step_reachable (hs : s.Sound settings) (hjwt : settings.jwt.Expires)
    (hallows : s.Allows settings serializer input) :
    Reachable (s.step settings serializer input).db := by
  have houtside {α : Type} {P : Change → Prop} {m : Service α} {Q : α → Db → Prop}
      (hm : Does (OutsideStep P) m s.db Q) : Reachable (m s.db).2.1 := hs.reachable.path hm.1
  cases input with
  | wait | resetPassword => exact hs.reachable
  | route getPasswordHash token cache call =>
    change Reachable (call.route settings.jwt getPasswordHash (s.bearer token cache) s.db).2.1
    rcases hs.route_cases hjwt hallows getPasswordHash cache call with
      ⟨e, _, hrun⟩ | ⟨payload, owner, user, _, _, hrun⟩
    · rw [hrun]
      exact hs.reachable
    · rw [hrun]
      exact gated_db hs.reachable (fun _ => .request _ _ _ hs.reachable)
  | login => exact houtside does_login
  | refresh => exact houtside does_refresh
  | logout => exact houtside does_logout
  | cleanup =>
    obtain ⟨es, hpath⟩ := cleanup_path s.db s.now
    exact hs.reachable.path hpath
  | googleCallback => exact houtside does_handleCallback_outside
  | register => exact houtside does_register_outside
  | seed => exact houtside does_seed_outside
  | verifyMail => exact houtside does_verifyUserAccount
  | verifyPassword => exact houtside does_resetPasswordUpdate
  | startup =>
    change Reachable (SyncPermissions.syncWithSession permissionRegistry s.db).2.1
    rw [hs.reachable.catalogued.sync_run]
    exact hs.reachable

theorem step_now (hallows : s.Allows settings serializer input) :
    s.now ≤ (s.step settings serializer input).now := by
  cases input with
  | wait | register | resetPassword => exact hallows
  | login | googleCallback => exact hallows.1.trans (hallows.2.1.trans hallows.2.2)
  | refresh => exact hallows.1.trans (hallows.2.1.trans (hallows.2.2.1.trans hallows.2.2.2))
  | _ => exact le_refl _

/-- A token that an input hands out was minted in the database it leaves. -/
theorem step_issued (hallows : s.Allows settings serializer input)
    (htoken : token ∈ (s.step settings serializer input).issued) :
    token ∈ s.issued ∨ ∃ owner authMethod mintedAt,
      Mints settings (s.step settings serializer input).db mintedAt owner authMethod token ∧
        s.now ≤ mintedAt ∧ mintedAt ≤ (s.step settings serializer input).now := by
  have hhanded {α : Type} {P : Change → Prop} {m : Service α} {f : α → Token} {mintedAt : ℤ}
      {authMethod : String} {Q : α → Db → Prop} (hm : Does (OutsideStep P) m s.db Q)
      (hQ : ∀ r db', Q r db' → ∃ owner, Mints settings db' mintedAt owner authMethod (f r))
      (hmem : token ∈ handedOut (m s.db).1 (fun r => [f r]) ++ s.issued) :
      token ∈ s.issued ∨ ∃ owner, Mints settings (m s.db).2.1 mintedAt owner authMethod token := by
    rcases List.mem_append.mp hmem with hnew | hold
    · rcases hr : (m s.db).1 with e | r
      · rw [hr] at hnew
        cases hnew
      · rw [hr] at hnew
        obtain rfl := List.mem_singleton.mp hnew
        exact Or.inr (hQ r _ (hm.2 r hr))
    · exact Or.inl hold
  cases input with
  | login =>
    obtain ⟨h₁, h₂, h₃⟩ := hallows
    rcases hhanded does_login (fun _ _ ⟨owner, h, _⟩ => ⟨owner, h⟩) htoken with hold | ⟨owner, h⟩
    · exact Or.inl hold
    · exact Or.inr ⟨owner, _, _, h, h₁, h₂.trans h₃⟩
  | googleCallback =>
    obtain ⟨h₁, h₂, h₃⟩ := hallows
    rcases hhanded does_handleCallback_outside (fun _ _ h => h) htoken with hold | ⟨owner, h⟩
    · exact Or.inl hold
    · exact Or.inr ⟨owner, _, _, h, h₁, h₂.trans h₃⟩
  | refresh =>
    obtain ⟨h₁, h₂, h₃, h₄⟩ := hallows
    rcases hhanded does_refresh (fun _ _ h => h) htoken with hold | ⟨owner, h⟩
    · exact Or.inl hold
    · exact Or.inr ⟨owner, _, _, h, h₁.trans h₂, h₃.trans h₄⟩
  | _ => exact Or.inl htoken

theorem Sound.step (hs : s.Sound settings) (hjwt : settings.jwt.Expires)
    (hallows : s.Allows settings serializer input) :
    (s.step settings serializer input).Sound settings := by
  have hreach := hs.step_reachable hjwt hallows
  refine ⟨hreach, ?_⟩
  intro token htoken
  rcases step_issued hallows htoken with hold | ⟨owner, authMethod, mintedAt, hmints, _, hle⟩
  · obtain ⟨db, owner, authMethod, mintedAt, hdb, hmints, hle, hkeeps⟩ := hs.issued token hold
    obtain ⟨es, hpath⟩ := hs.step_path hjwt hallows
    exact ⟨db, owner, authMethod, mintedAt, hdb, hmints, hle.trans (step_now hallows),
      hkeeps.path hpath⟩
  · exact ⟨_, owner, authMethod, mintedAt, hreach, hmints, hle, owner.toUser, hmints.1.row, rfl,
      rfl⟩

theorem start_sound (now : ℤ) : (start now : Backend Token).Sound settings := by
  refine ⟨?_, fun _ htoken => absurd htoken List.not_mem_nil⟩
  simp only [start]
  exact .synced

theorem Reached.sound (h : Reached settings serializer s) (hjwt : settings.jwt.Expires) :
    s.Sound settings := by
  induction h with
  | start now => exact start_sound now
  | step input _ hallows ih => exact ih.step hjwt hallows

end Runs

/-! ### A short run

The seeded superuser logs in, authors the global role `staff`, which may create
users, and gives it to the new user `ann`, who logs in as well. -/

abbrev PlainLink := String × ℤ × LinkData

def plainStep (s : Backend TokenPayload) (input : Input TokenPayload PlainLink) :
    Backend TokenPayload :=
  s.step Sessions.plainSettings plainSerializer input

abbrev PlainReached (s : Backend TokenPayload) : Prop :=
  Reached Sessions.plainSettings plainSerializer s

theorem plainReached_step {s : Backend TokenPayload} (h : PlainReached s)
    (input : Input TokenPayload PlainLink)
    (hallows : s.Allows Sessions.plainSettings plainSerializer input) :
    PlainReached (plainStep s input) :=
  .step input h hallows

theorem plainReached_route {s : Backend TokenPayload} (h : PlainReached s) {token : TokenPayload}
    (htoken : token ∈ s.issued) (call : Call) :
    PlainReached (plainStep s (.route .ok token .empty call)) :=
  plainReached_step h _ (Or.inl htoken)

theorem plainReached_login {s : Backend TokenPayload} (h : PlainReached s) (hnow : s.now ≤ 0)
    (jti username password : String) :
    PlainReached (plainStep s (.login true 60 0 0 0 jti username password)) :=
  plainReached_step h _ ⟨hnow, le_refl _, le_refl _⟩

def founded : Backend TokenPayload :=
  plainStep (start 0) (.seed .ok 1 "root" "root@example.com" "pw")

def rootIn : Backend TokenPayload :=
  plainStep founded (.login true 60 0 0 0 "first" "root" "pw")

def rootToken : TokenPayload :=
  ⟨1, none, true, "0000000000000000000000000000000000000000000000000000000000000000", 1, 1800,
    "password"⟩

theorem rootIn_issued : rootToken ∈ rootIn.issued := by decide +kernel

def staffAuthored : Backend TokenPayload :=
  plainStep rootIn (.route .ok rootToken .empty (.createRole ⟨"staff", ["user:create"]⟩))

def annCreated : Backend TokenPayload :=
  plainStep staffAuthored
    (.route .ok rootToken .empty (.createUser 2 ⟨"ann", "ann@example.com", "pw"⟩))

def annHired : Backend TokenPayload :=
  plainStep annCreated (.route .ok rootToken .empty (.assignRole 2 1))

def annIn : Backend TokenPayload := plainStep annHired (.login true 60 0 0 0 "second" "ann" "pw")

def annToken : TokenPayload :=
  ⟨2, none, false, "0000000000000000000000000000000000000000000000000000000000040000", 2, 1800,
    "password"⟩

theorem annIn_issued : annToken ∈ annIn.issued := by decide +kernel

theorem rootIn_reached : PlainReached rootIn := by
  have hfounded : PlainReached founded :=
    plainReached_step (.start 0) (.seed .ok 1 "root" "root@example.com" "pw") trivial
  exact plainReached_login hfounded (by decide +kernel) _ _ _

theorem annIn_reached : PlainReached annIn := by
  have hauthored : PlainReached staffAuthored :=
    plainReached_route rootIn_reached rootIn_issued _
  have hcreated : PlainReached annCreated := plainReached_route hauthored (by decide +kernel) _
  have hhired : PlainReached annHired := plainReached_route hcreated (by decide +kernel) _
  exact plainReached_login hhired (by decide +kernel) _ _ _

end Backend
end FastapiTemplate
