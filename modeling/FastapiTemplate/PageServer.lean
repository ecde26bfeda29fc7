import FastapiTemplate.Backend
import FastapiTemplate.PageSession

/-!
One page of the admin client and the whole program behind it. A POST of the page
may be handled late or never, and an answer may be late or lost; meanwhile the
program serves everybody else, who present any token but those made out to this
page. The server revokes a refresh token only when it is handed in, and the page
hands in each of its tokens once, so the page never sets off the detection of
reuse, and every answer that reaches it brings a token it has not had before.
-/
namespace FastapiTemplate

open Library.KeyedTable Library.Committing

/-! ### What an input does to the refresh tokens -/

/-- The refresh token that is handed in for a new one. -/
def Input.presented {Token Link : Type} : Input Token Link → Option String
  | .refresh _ _ _ _ _ refreshToken => some refreshToken
  | _ => none

/-- A row that is revoked was so before, or its token has been handed in. -/
def RevokesOnly (presented : Option String) (db db' : Db) : Prop :=
  ∀ token row, db'.refreshTokens.get token = some row → row.isRevoked = true →
    presented = some token ∨ db.refreshTokens.get token = some row

def KeepsTokens (db db' : Db) (_ : List Event) : Prop := db'.refreshTokens = db.refreshTokens

section Rows

variable {c : Change} {db db' : Db} {es : List Event} {presented : Option String}

theorem Change.keepsTokens (h : c.Commits db db' es) (hc : ¬ c.IsToken) :
    db'.refreshTokens = db.refreshTokens := by
  have hsame {t : Tables} (ht : db'.toTables = t) (htokens : t.refreshTokens = db.refreshTokens) :
      db'.refreshTokens = db.refreshTokens := by
    rw [ht]
    exact htokens
  cases c with
  | token => exact absurd trivial hc
  | createRole =>
    obtain ⟨_, h⟩ := h
    obtain ⟨_, _, ht, _⟩ := RoleRepository.createTx_eq_ok h
    exact hsame ht rfl
  | createRootTenantRole =>
    obtain ⟨_, h⟩ := h
    obtain ⟨_, _, ht, _⟩ := RoleRepository.createRootTenantRoleTx_eq_ok h
    exact hsame ht rfl
  | syncRootTenantRole =>
    obtain ⟨_, h⟩ := h
    rcases RoleRepository.syncRootTenantRolePermissionsTx_eq_ok h with
      ⟨_, ht, _⟩ | ⟨role, _, hsync⟩
    · exact hsame ht rfl
    · exact hsame (RoleRepository.resyncRole_eq_ok hsync).2.1 rfl
  | updateRole =>
    obtain ⟨_, h⟩ := h
    exact hsame (RoleRepository.updateTx_eq_ok h).1 rfl
  | deleteRole =>
    obtain ⟨_, h⟩ := h
    exact hsame (RoleRepository.deleteTx_eq_ok h).1 rfl
  | assignToUser =>
    obtain ⟨_, h⟩ := h
    exact hsame (RoleRepository.assignToUserTx_eq_ok h).2.1 rfl
  | removeFromUser =>
    obtain ⟨_, h⟩ := h
    exact hsame (RoleRepository.removeFromUserTx_eq_ok h).1 rfl
  | addPermission =>
    obtain ⟨_, h⟩ := h
    exact hsame (RoleRepository.addPermissionTx_eq_ok h).2.2.1 rfl
  | removePermission =>
    obtain ⟨_, h⟩ := h
    exact hsame (RoleRepository.removePermissionTx_eq_ok h).2.2.1 rfl
  | addGrantableRole =>
    obtain ⟨_, h⟩ := h
    exact hsame (RoleRepository.addGrantableRoleTx_eq_ok h).1 rfl
  | removeGrantableRole =>
    obtain ⟨_, h⟩ := h
    exact hsame (RoleRepository.removeGrantableRoleTx_eq_ok h).1 rfl
  | addGrantablePermission =>
    obtain ⟨_, h⟩ := h
    exact hsame (RoleRepository.addGrantablePermissionTx_eq_ok h).1 rfl
  | removeGrantablePermission =>
    obtain ⟨_, h⟩ := h
    exact hsame (RoleRepository.removeGrantablePermissionTx_eq_ok h).1 rfl
  | createUser =>
    obtain ⟨_, h⟩ := h
    obtain ⟨_, _, ht, _⟩ := UserRepository.createTx_eq_ok h
    exact hsame ht rfl
  | setVerified =>
    obtain ⟨_, h⟩ := h
    exact hsame (UserRepository.setVerifiedTx_eq_ok h).1 rfl
  | setPassword =>
    obtain ⟨_, h⟩ := h
    exact hsame (UserRepository.setPasswordTx_eq_ok h).1 rfl
  | grantPermission =>
    obtain ⟨_, h⟩ := h
    exact hsame (UserRepository.grantPermissionTx_eq_ok h).2.2.1 rfl
  | revokePermission =>
    obtain ⟨_, h⟩ := h
    exact hsame (UserRepository.revokePermissionTx_eq_ok h).2.2.1 rfl
  | setUserActive =>
    obtain ⟨_, h⟩ := h
    exact hsame (UserRepository.setActiveTx_eq_ok h).2.1 rfl
  | createTenant =>
    obtain ⟨_, h⟩ := h
    obtain ⟨_, _, ht, _⟩ := TenantRepository.createTx_eq_ok h
    exact hsame ht rfl
  | setAllowedPermissionMask =>
    obtain ⟨_, h⟩ := h
    exact hsame (TenantRepository.setAllowedPermissionMaskTx_eq_ok h).1 rfl
  | setTenantActive =>
    obtain ⟨_, h⟩ := h
    exact hsame (TenantRepository.setActiveTx_eq_ok h).2.1 rfl
  | createWithBit =>
    obtain ⟨_, h⟩ := h
    obtain ⟨_, _, ht, _⟩ := PermissionRepository.createWithBitTx_eq_ok h
    exact hsame ht rfl

theorem keepsTokens_of_path (h : Path KeepsTokens db db' es) : KeepsTokens db db' es := by
  refine Path.collapse (fun _ => rfl) ?_ (fun _ _ _ hstep => hstep) h
  intro s s' s'' _ _ hfirst hsecond
  exact Eq.trans hsecond hfirst

theorem RevokesOnly.of_keeps (h : db'.refreshTokens = db.refreshTokens) :
    RevokesOnly presented db db' := by
  intro token row hrow _
  rw [h] at hrow
  exact Or.inr hrow

theorem RevokesOnly.of_path {P : Change → Prop} (hP : ∀ c, P c → ¬ c.IsToken)
    (h : Path (ChangeStep P) db db' es) : RevokesOnly presented db db' := by
  refine .of_keeps (keepsTokens_of_path (h.mono ?_))
  rintro s s' _ ⟨c, _, hc, _, hcommit⟩
  exact Change.keepsTokens hcommit (hP c hc)

theorem RevokesOnly.of_delete {p : RefreshToken → Bool}
    (h : db'.refreshTokens = db.refreshTokens.delete p) : RevokesOnly presented db db' := by
  intro token row hrow _
  rw [h, Table.get_delete] at hrow
  exact Or.inr (Option.filter_eq_some_iff.mp hrow).1

theorem RevokesOnly.of_issues {token : String} {userId : Uuid} (h : Issues db db' token userId) :
    RevokesOnly presented db db' := by
  obtain ⟨expiresAt, hinsert⟩ := h
  intro token' row hrow hrevoked
  rw [Table.get_insert? hinsert] at hrow
  split at hrow
  · obtain rfl := Option.some.inj hrow
    cases hrevoked
  · exact Or.inr hrow

theorem get_revoked {token token' : String} (hne : token ≠ token') :
    (revoked db.refreshTokens token).get token' = db.refreshTokens.get token' := by
  rw [revoked, Table.get_update]
  rcases hrow : db.refreshTokens.get token' with _ | row
  · rfl
  · obtain rfl := Table.key_of_get hrow
    simp only [Option.map_some, Ne.symm hne, decide_false, Bool.false_eq_true, if_false]

theorem RevokesOnly.of_refresh {Token : Type} {settings : AuthSettings Token}
    {checkedAt mintedAt issuedAt expiresFrom : ℤ} {jti refreshToken : String}
    {r : Except Err (TokenResponse Token)}
    (h : Refresh.refresh settings checkedAt mintedAt issuedAt expiresFrom jti refreshToken db =
      (r, db', es)) : RevokesOnly (some refreshToken) db db' := by
  cases Refresh.refresh_outcome h with
  | unknown _ hdb =>
    rw [hdb]
    exact .of_keeps rfl
  | reused row _ _ ht => exact .of_delete (by rw [ht]; rfl)
  | expired row _ _ _ ht => exact .of_delete (by rw [ht]; rfl)
  | failed row e _ _ _ _ ht =>
    intro token row' hrow _
    by_cases htoken : refreshToken = token
    · exact Or.inl (congrArg some htoken)
    · rw [ht] at hrow
      change (revoked db.refreshTokens refreshToken).get token = some row' at hrow
      rw [get_revoked htoken] at hrow
      exact Or.inr hrow
  | rotated row response expiresAt refreshTokens _ _ _ hinsert ht =>
    intro token row' hrow hrevoked
    by_cases htoken : refreshToken = token
    · exact Or.inl (congrArg some htoken)
    · rw [ht] at hrow
      change refreshTokens.get token = some row' at hrow
      rw [Table.get_insert? hinsert, get_revoked htoken] at hrow
      split at hrow
      · obtain rfl := Option.some.inj hrow
        cases hrevoked
      · exact Or.inr hrow

end Rows

section Accounts

variable {db : Db} {getPasswordHash : String → Except Err String}

theorem does_keepsTokens {α : Type} {body : Tx α} (c : Change) (hbody : c.Commits = Commits body)
    (hc : ¬ c.IsToken) : Does KeepsTokens (transaction body) db (fun _ _ => True) := by
  refine does_transaction ?_
  intro a db' es hcommit
  refine ⟨?_, trivial⟩
  have hcommits : c.Commits db db' es := by
    rw [hbody]
    exact ⟨a, hcommit⟩
  exact Change.keepsTokens hcommits hc

theorem does_register_keepsTokens {newId : Uuid} {userData : UserRegister} :
    Does KeepsTokens (RegisterUser.register getPasswordHash newId userData) db
      (fun _ _ => True) := by
  refine does_query (Does.ensure_bind ?_)
  intro _
  refine does_query (Does.ensure_bind ?_)
  intro _
  refine Does.ofExcept_bind ?_
  intro hashed _
  exact Does.bind (does_keepsTokens (.createUser _) rfl id) (fun _ _ _ => Does.pure trivial)

theorem does_seed_keepsTokens {newId : Uuid} {username email password : String} :
    Does KeepsTokens (seed getPasswordHash newId username email password) db
      (fun _ _ => True) := by
  refine does_query (Does.ite (fun _ => Does.pure trivial) ?_)
  intro _
  refine Does.ofExcept_bind ?_
  intro hashed _
  exact Does.bind (does_keepsTokens (.createUser _) rfl id) (fun _ _ _ => Does.pure trivial)

end Accounts

/-! ### The program -/

namespace Backend

section Inputs

variable {Token Link : Type} (settings : AuthSettings Token)

/-- The tokens of the answer to an input. -/
def responses (s : Backend Token) : Input Token Link → List (TokenResponse Token)
  | .login isAllowed window mintedAt issuedAt expiresFrom jti username password =>
    handedOut (LoginUser.login settings isAllowed window mintedAt issuedAt expiresFrom jti username
      password s.db).1 (fun r => [r.1])
  | .googleCallback newUserId mintedAt expiresFrom issuedAt jti email =>
    handedOut (GoogleOAuthService.handleCallback settings newUserId mintedAt expiresFrom issuedAt
      jti email s.db).1 (fun r => [r.toTokenResponse])
  | .refresh checkedAt mintedAt issuedAt expiresFrom jti refreshToken =>
    handedOut (Refresh.refresh settings checkedAt mintedAt issuedAt expiresFrom jti refreshToken
      s.db).1 (fun r => [r])
  | _ => []

variable {settings : AuthSettings Token} {serializer : TimedSerializer Link} {s : Backend Token}
  {input : Input Token Link}

theorem Sound.revokesOnly (hs : s.Sound settings) (hjwt : settings.jwt.Expires)
    (hallows : s.Allows settings serializer input) :
    RevokesOnly input.presented s.db (s.step settings serializer input).db := by
  obtain ⟨es, hpath⟩ := hs.step_path hjwt hallows
  cases input with
  | wait | resetPassword => exact .of_keeps rfl
  | route getPasswordHash token cache call =>
    refine .of_path ?_ hpath
    intro c hc htoken
    cases c with
    | token change => cases call <;> exact hc
    | _ => exact htoken
  | login isAllowed window mintedAt issuedAt expiresFrom jti username password =>
    rcases hrun : LoginUser.login settings isAllowed window mintedAt issuedAt expiresFrom jti
      username password s.db with ⟨r, db, es⟩
    simp only [Backend.step, hrun]
    rcases LoginUser.login_outcome hrun with ⟨_, _, rfl⟩ | ⟨_, _, _, _, _, _, hissues⟩
    · exact .of_keeps rfl
    · exact .of_issues hissues
  | googleCallback newUserId mintedAt expiresFrom issuedAt jti email =>
    rcases hrun : GoogleOAuthService.handleCallback settings newUserId mintedAt expiresFrom issuedAt
      jti email s.db with ⟨r, db, es⟩
    simp only [Backend.step, hrun]
    rcases GoogleOAuthService.handleCallback_outcome hrun with ⟨_, _, hsame⟩ | ⟨_, _, _, hissues⟩
    · exact .of_keeps hsame
    · exact .of_issues hissues
  | refresh => exact .of_refresh rfl
  | logout refreshToken =>
    rcases hrun : LogoutUser.logout refreshToken s.db with ⟨r, db, es⟩
    simp only [Backend.step, hrun]
    rcases LogoutUser.logout_outcome hrun with rfl | ⟨_, _, hdelete⟩
    · exact .of_keeps rfl
    · exact .of_delete hdelete
  | cleanup => exact .of_delete (cleanupExpiredTokens_outcome rfl)
  | register => exact .of_keeps (keepsTokens_of_path does_register_keepsTokens.1)
  | seed => exact .of_keeps (keepsTokens_of_path does_seed_keepsTokens.1)
  | verifyMail | verifyPassword =>
    refine .of_path ?_ hpath
    intro c hc htoken
    cases c with
    | token change => simp [Performs, Change.Verifies, Change.Resets] at hc
    | _ => exact htoken
  | startup => exact .of_path (fun _ hc => hc.elim) hpath

/-- A new refresh token is not revoked. -/
theorem responses_row {response : TokenResponse Token} (hresponse : response ∈
      s.responses settings input) {row : RefreshToken}
    (hrow : (s.step settings serializer input).db.refreshTokens.get response.refreshToken =
      some row) : row.isRevoked = false := by
  have hissued {db : Db} {userId : Uuid} (hissues : Issues s.db db response.refreshToken userId)
      (hget : db.refreshTokens.get response.refreshToken = some row) : row.isRevoked = false := by
    obtain ⟨expiresAt, hinsert⟩ := hissues
    obtain rfl := Option.some.inj (hget.symm.trans (Table.get_insert?_self hinsert))
    rfl
  cases input with
  | login isAllowed window mintedAt issuedAt expiresFrom jti username password =>
    rcases hrun : LoginUser.login settings isAllowed window mintedAt issuedAt expiresFrom jti
      username password s.db with ⟨r, db, es⟩
    simp only [responses, Backend.step, hrun] at hresponse hrow
    rcases LoginUser.login_outcome hrun with ⟨_, rfl, _⟩ | ⟨_, _, _, rfl, _, _, hissues⟩
    · cases hresponse
    · obtain rfl := List.mem_singleton.mp hresponse
      exact hissued hissues hrow
  | googleCallback newUserId mintedAt expiresFrom issuedAt jti email =>
    rcases hrun : GoogleOAuthService.handleCallback settings newUserId mintedAt expiresFrom issuedAt
      jti email s.db with ⟨r, db, es⟩
    simp only [responses, Backend.step, hrun] at hresponse hrow
    rcases GoogleOAuthService.handleCallback_outcome hrun with ⟨_, rfl, _⟩ | ⟨_, _, rfl, hissues⟩
    · cases hresponse
    · obtain rfl := List.mem_singleton.mp hresponse
      exact hissued hissues hrow
  | refresh checkedAt mintedAt issuedAt expiresFrom jti refreshToken =>
    rcases hrun : Refresh.refresh settings checkedAt mintedAt issuedAt expiresFrom jti refreshToken
      s.db with ⟨r, db, es⟩
    simp only [responses, Backend.step, hrun] at hresponse hrow
    cases Refresh.refresh_outcome hrun with
    | rotated old response' expiresAt refreshTokens _ _ _ hinsert ht =>
      obtain rfl := List.mem_singleton.mp hresponse
      rw [ht] at hrow
      obtain rfl := Option.some.inj (hrow.symm.trans (Table.get_insert?_self hinsert))
      rfl
    | _ => cases hresponse
  | _ => cases hresponse

end Inputs

end Backend

/-! ### The page -/

namespace Frontend

/-- The refresh token that an event brings to the page. -/
def Event.brings : Event → Option String
  | .refreshed _ _ refreshToken => some refreshToken
  | .loggedIn _ _ refreshToken => some refreshToken
  | _ => none

variable {mergeConfig : RequestConfig → RequestConfig} {page page' : Page} {e : Event}

theorem Client.refresh_posts (c : Client) : c.posts <+: c.refresh.1.posts ∧
    c.refresh.1.issued = c.issued := by
  rcases c.refresh_cases with hsame | ⟨_, ⟨token, _, hstart⟩ | hstart⟩
  · rw [hsame]
    exact ⟨List.prefix_rfl, rfl⟩
  · rw [hstart]
    exact ⟨List.prefix_append _ _, rfl⟩
  · rw [hstart]
    exact ⟨List.prefix_rfl, rfl⟩

theorem Page.unauthorized_posts (page : Page) (i : ℕ) (request : Request) :
    page.posts <+: (page.unauthorized i request).posts ∧
      (page.unauthorized i request).issued = page.issued := by
  rcases page.unauthorized_cases i request with ⟨_, heq⟩ | heq
  · rw [heq]
    exact page.toClient.refresh_posts
  · rw [heq]
    exact ⟨List.prefix_rfl, rfl⟩

theorem Page.resume_posts (page : Page) (i : ℕ) (request : Request) (newToken : Option String) :
    (page.resume mergeConfig i request newToken).toClient = page.toClient := by
  rcases @resume_cases mergeConfig page i request newToken with ⟨_, heq⟩ | heq
  · rw [heq]
    rfl
  · rw [heq]
    rfl

/-- A step posts on top of what was posted, and issued to the page is what the
events have brought. -/
theorem Page.step_posts (h : page.step mergeConfig e = some page') :
    page.posts <+: page'.posts ∧ page'.issued = page.issued ++ e.brings.toList := by
  have hkept {p : Page} (hset : some p = some page') (hp : p.toClient = page.toClient) :
      page.posts <+: page'.posts ∧ page'.issued = page.issued ++ [] := by
    obtain rfl := Option.some.inj hset
    rw [hp, List.append_nil]
    exact ⟨List.prefix_rfl, rfl⟩
  cases e with
  | request url => exact hkept h rfl
  | answered i =>
    obtain ⟨request, _, hset⟩ := Option.bind_eq_some_iff.mp h
    exact hkept hset rfl
  | unauthorized i =>
    obtain ⟨request, _, hset⟩ := Option.bind_eq_some_iff.mp h
    obtain rfl := Option.some.inj hset
    obtain ⟨hposts, hissued⟩ := page.unauthorized_posts i request
    refine ⟨hposts, ?_⟩
    rw [hissued]
    exact (List.append_nil _).symm
  | resumed i =>
    obtain ⟨request, _, hrest⟩ := Option.bind_eq_some_iff.mp h
    split at hrest
    · obtain ⟨call, _, hset⟩ := Option.bind_eq_some_iff.mp hrest
      split at hset
      · exact hkept hset (page.resume_posts i request _)
      · cases hset
    · cases hrest
  | refreshed j accessToken refreshToken =>
    obtain ⟨c, hc, hset⟩ := Option.bind_eq_some_iff.mp h
    obtain rfl := Option.some.inj hset
    obtain ⟨_, _, rfl⟩ := Client.refreshed_eq_some hc
    exact ⟨List.prefix_rfl, rfl⟩
  | refreshFailed j =>
    obtain ⟨c, hc, hset⟩ := Option.bind_eq_some_iff.mp h
    obtain rfl := Option.some.inj hset
    obtain ⟨_, rfl⟩ := Client.refreshFailed_eq_some hc
    exact ⟨List.prefix_rfl, (List.append_nil _).symm⟩
  | settled j =>
    obtain ⟨c, hc, hset⟩ := Option.bind_eq_some_iff.mp h
    obtain rfl := Option.some.inj hset
    obtain ⟨_, _, rfl⟩ := Client.settle_eq_some hc
    exact ⟨List.prefix_rfl, (List.append_nil _).symm⟩
  | loggedIn i accessToken refreshToken =>
    obtain ⟨request, _, hrest⟩ := Option.bind_eq_some_iff.mp h
    obtain ⟨_, _, hrest⟩ := Option.bind_eq_some_iff.mp hrest
    obtain ⟨c, hc, hset⟩ := Option.bind_eq_some_iff.mp hrest
    obtain rfl := Option.some.inj hset
    obtain ⟨_, rfl⟩ := Client.receive_eq_some hc
    exact ⟨List.prefix_rfl, rfl⟩
  | handleLogout => exact hkept h rfl
  | cleared i =>
    obtain ⟨_, _, hrest⟩ := Option.bind_eq_some_iff.mp h
    obtain ⟨request, _, hrest⟩ := Option.bind_eq_some_iff.mp hrest
    obtain ⟨_, _, hset⟩ := Option.bind_eq_some_iff.mp hrest
    obtain rfl := Option.some.inj hset
    exact ⟨List.prefix_rfl, (List.append_nil _).symm⟩

theorem Page.step_singleFlight (h : page.step mergeConfig e = some page')
    (hsingle : page.toClient.SingleFlight) : page'.toClient.SingleFlight := by
  rcases (Page.step_cases h).2 with hquiet | ⟨_, _, _, _, hreceive⟩
  · exact hsingle.quiet hquiet
  · exact hsingle.receive hreceive

end Frontend

/-! ### Both together -/

/-- An answer with tokens on its way to the page: to the POST of a refresh
token, or to a login. -/
structure Reply (Token : Type) where
  posted : Option String
  response : TokenResponse Token

/-- The event by which the page takes an answer. The characters of an access
token are those of `render`. -/
def Reply.Arrives {Token : Type} (render : Token → String) (page : Frontend.Page)
    (answer : Reply Token) : Frontend.Event → Prop
  | .refreshed j accessToken refreshToken => accessToken = render answer.response.accessToken ∧
    refreshToken = answer.response.refreshToken ∧
      ∃ posted, answer.posted = some posted ∧ page.toClient.Posting j posted
  | .loggedIn _ accessToken refreshToken => accessToken = render answer.response.accessToken ∧
    refreshToken = answer.response.refreshToken ∧ answer.posted = none
  | _ => False

/-- The refresh tokens ever made out, those made out to the page, and those that
the page has handed in; `answers` are on their way. -/
structure PageServer (Token : Type) where
  server : Backend Token
  page : Frontend.Page
  known : List String
  granted : List String
  handedIn : List String
  answers : List (Reply Token)

namespace PageServer

section System

variable {Token Link : Type}

/-- A POST of the page that the server has not handled. -/
def Due (w : PageServer Token) (refreshToken : String) : Prop :=
  w.handedIn.count refreshToken < w.page.posts.count refreshToken

/-- What the page asks of the server for tokens. -/
def Asks (w : PageServer Token) : Input Token Link → Prop
  | .login _ _ _ _ _ _ _ _ => True
  | .refresh _ _ _ _ _ refreshToken => w.Due refreshToken
  | _ => False

variable (settings : AuthSettings Token) (serializer : TimedSerializer Link)

/-- The server handles an input of somebody else. -/
def served (w : PageServer Token) (input : Input Token Link) : PageServer Token :=
  { w with
    server := w.server.step settings serializer input
    known := w.known ++ (w.server.responses settings input).map TokenResponse.refreshToken }

/-- The server handles an input of the page, and answers. -/
def answered (w : PageServer Token) (input : Input Token Link) : PageServer Token :=
  let responses := w.server.responses settings input
  { w.served settings serializer input with
    granted := w.granted ++ responses.map TokenResponse.refreshToken
    handedIn := w.handedIn ++ input.presented.toList
    answers := w.answers ++ responses.map (fun response => ⟨input.presented, response⟩) }

/-- No refresh token is made out twice. -/
def Fresh (w : PageServer Token) (input : Input Token Link) : Prop :=
  ∀ response ∈ w.server.responses settings input, response.refreshToken ∉ w.known

variable (render : Token → String) (mergeConfig : Frontend.RequestConfig → Frontend.RequestConfig)

inductive Step : PageServer Token → PageServer Token → Prop
  /-- The page goes on by itself, or learns that a request has failed. -/
  | page {w : PageServer Token} (e : Frontend.Event) {page : Frontend.Page} : e.brings = none →
      w.page.step mergeConfig e = some page → Step w { w with page := page }
  | asked {w : PageServer Token} (input : Input Token Link) :
      w.server.Allows settings serializer input → w.Asks input → w.Fresh settings input →
      Step w (w.answered settings serializer input)
  | delivered {w : PageServer Token} (e : Frontend.Event) (before after : List (Reply Token))
      (answer : Reply Token) {page : Frontend.Page} : w.answers = before ++ answer :: after →
      answer.Arrives render w.page e → w.page.step mergeConfig e = some page →
      Step w { w with page := page, answers := before ++ after }
  | others {w : PageServer Token} (input : Input Token Link) :
      w.server.Allows settings serializer input →
      (∀ token ∈ w.granted, input.presented ≠ some token) → w.Fresh settings input →
      Step w (w.served settings serializer input)

/-- A page that is opened when nothing has been made out to it. -/
structure Opened (w : PageServer Token) : Prop where
  sound : w.server.Sound settings
  page : w.page = .initial
  granted : w.granted = []
  handedIn : w.handedIn = []
  answers : w.answers = []

abbrev Steps : PageServer Token → PageServer Token → Prop :=
  Relation.ReflTransGen (Step settings serializer render mergeConfig)

end System

/-! ### What holds between them -/

section Invariant

variable {Token Link : Type} {settings : AuthSettings Token} {serializer : TimedSerializer Link}
  {render : Token → String} {mergeConfig : Frontend.RequestConfig → Frontend.RequestConfig}
  {w w' : PageServer Token} {input : Input Token Link}

/-- A token of the page that the server has revoked was handed in by the page,
which hands in what it has posted, as often as it has posted it. -/
structure InStep (settings : AuthSettings Token) (w : PageServer Token) : Prop where
  sound : w.server.Sound settings
  singleFlight : w.page.toClient.SingleFlight
  issued : ∀ token ∈ w.page.issued, token ∈ w.granted
  granted : ∀ token ∈ w.granted, token ∈ w.known
  answers : (w.answers.map (fun answer => answer.response.refreshToken)).Nodup
  pending : ∀ answer ∈ w.answers, answer.response.refreshToken ∈ w.granted ∧
    answer.response.refreshToken ∉ w.page.issued
  handedIn : ∀ token, w.handedIn.count token ≤ w.page.posts.count token
  revoked : ∀ token ∈ w.granted, ∀ row, w.server.db.refreshTokens.get token = some row →
    row.isRevoked = true → token ∈ w.handedIn

theorem InStep.posted_granted (h : w.InStep settings) {token : String}
    (hposted : token ∈ w.page.posts) : token ∈ w.granted :=
  h.issued token (h.singleFlight.posted token hposted)

theorem InStep.not_handedIn (h : w.InStep settings) {token : String} (hdue : w.Due token) :
    token ∉ w.handedIn := by
  intro hmem
  have honce : w.page.posts.count token ≤ 1 :=
    List.nodup_iff_count_le_one.mp h.singleFlight.nodup token
  have hpos := List.count_pos_iff.mpr hmem
  have hlt : w.handedIn.count token < w.page.posts.count token := hdue
  omega

theorem Due.posted {token : String} (hdue : w.Due token) : token ∈ w.page.posts := by
  have hlt : w.handedIn.count token < w.page.posts.count token := hdue
  exact List.count_pos_iff.mp (by omega)

theorem responses_cases (s : Backend Token) (input : Input Token Link) :
    s.responses settings input = [] ∨ ∃ response, s.responses settings input = [response] := by
  have hcases {α : Type} (r : Except Err α) (f : α → TokenResponse Token) :
      handedOut r (fun a => [f a]) = [] ∨
        ∃ response, handedOut r (fun a => [f a]) = [response] := by
    cases r with
    | error e => exact Or.inl rfl
    | ok a => exact Or.inr ⟨f a, rfl⟩
  cases input with
  | login | googleCallback | refresh => exact hcases _ _
  | _ => exact Or.inl rfl

theorem Opened.inStep (h : w.Opened settings) : w.InStep settings where
  sound := h.sound
  singleFlight := by
    rw [h.page]
    exact ⟨nofun, List.nodup_nil, nofun, nofun⟩
  issued := by
    rw [h.page]
    exact nofun
  granted := by
    rw [h.granted]
    exact nofun
  answers := by
    rw [h.answers]
    exact List.nodup_nil
  pending := by
    rw [h.answers]
    exact nofun
  handedIn := by
    intro token
    rw [h.handedIn]
    exact Nat.zero_le _
  revoked := by
    rw [h.granted]
    exact nofun

/-- The page goes on by itself. -/
theorem InStep.page (h : w.InStep settings) {e : Frontend.Event} {page : Frontend.Page}
    (hquiet : e.brings = none) (hstep : w.page.step mergeConfig e = some page) :
    InStep settings { w with page := page } := by
  obtain ⟨hposts, hissued⟩ := Frontend.Page.step_posts hstep
  rw [hquiet, Option.toList_none, List.append_nil] at hissued
  refine ⟨h.sound, Frontend.Page.step_singleFlight hstep h.singleFlight, ?_, h.granted, h.answers,
    ?_, ?_, h.revoked⟩
  · intro token htoken
    exact h.issued token (hissued ▸ htoken)
  · intro answer hanswer
    obtain ⟨hgranted, hnew⟩ := h.pending answer hanswer
    exact ⟨hgranted, fun hmem => hnew (hissued ▸ hmem)⟩
  · intro token
    exact (h.handedIn token).trans (hposts.sublist.count_le token)

/-- An answer arrives: its token was made out to the page and is new to it. -/
theorem InStep.delivered (h : w.InStep settings) {e : Frontend.Event} {answer : Reply Token}
    {before after : List (Reply Token)} {page : Frontend.Page}
    (hanswers : w.answers = before ++ answer :: after) (harrives : answer.Arrives render w.page e)
    (hstep : w.page.step mergeConfig e = some page) :
    InStep settings { w with page := page, answers := before ++ after } := by
  have hbrings : e.brings = some answer.response.refreshToken := by
    cases e with
    | refreshed => exact congrArg some harrives.2.1
    | loggedIn => exact congrArg some harrives.2.1
    | _ => exact harrives.elim
  obtain ⟨hposts, hissued⟩ := Frontend.Page.step_posts hstep
  rw [hbrings, Option.toList_some] at hissued
  have hmem : answer ∈ w.answers := by
    rw [hanswers]
    exact List.mem_append_right _ List.mem_cons_self
  have hrest : ∀ other ∈ before ++ after, other ∈ w.answers := by
    intro other hother
    rw [hanswers]
    rcases List.mem_append.mp hother with hbefore | hafter
    · exact List.mem_append_left _ hbefore
    · exact List.mem_append_right _ (List.mem_cons_of_mem _ hafter)
  have hnodup := h.answers
  rw [hanswers, List.map_append, List.map_cons, List.nodup_middle, List.nodup_cons,
    ← List.map_append] at hnodup
  refine ⟨h.sound, Frontend.Page.step_singleFlight hstep h.singleFlight, ?_, h.granted, hnodup.2,
    ?_, ?_, h.revoked⟩
  · intro token htoken
    rw [hissued] at htoken
    rcases List.mem_append.mp htoken with hold | hnew
    · exact h.issued token hold
    · rw [List.mem_singleton.mp hnew]
      exact (h.pending answer hmem).1
  · intro other hother
    obtain ⟨hgranted, hnew⟩ := h.pending other (hrest other hother)
    refine ⟨hgranted, ?_⟩
    intro htoken
    rw [hissued] at htoken
    rcases List.mem_append.mp htoken with hold | heq
    · exact hnew hold
    · exact hnodup.1 (List.mem_map.mpr ⟨other, hother, List.mem_singleton.mp heq⟩)
  · intro token
    exact (h.handedIn token).trans (hposts.sublist.count_le token)

/-- Somebody else hands in a token that is not of this page. -/
theorem InStep.served (h : w.InStep settings) (hjwt : settings.jwt.Expires)
    (hallows : w.server.Allows settings serializer input)
    (hothers : ∀ token ∈ w.granted, input.presented ≠ some token) :
    (w.served settings serializer input).InStep settings := by
  refine ⟨h.sound.step hjwt hallows, h.singleFlight, h.issued, ?_, h.answers, h.pending,
    h.handedIn, ?_⟩
  · intro token htoken
    exact List.mem_append_left _ (h.granted token htoken)
  · intro token htoken row hrow hrevoked
    rcases h.sound.revokesOnly hjwt hallows token row hrow hrevoked with hpresented | hold
    · exact absurd hpresented (hothers token htoken)
    · exact h.revoked token htoken row hold hrevoked

/-- The page hands in what it has posted. -/
theorem InStep.answered (h : w.InStep settings) (hjwt : settings.jwt.Expires)
    (hallows : w.server.Allows settings serializer input) (hasks : w.Asks input)
    (hfresh : w.Fresh settings input) : (w.answered settings serializer input).InStep settings := by
  have hdue : ∀ token, input.presented = some token → w.Due token := by
    intro token hpresented
    cases input with
    | refresh =>
      obtain rfl := Option.some.inj hpresented
      exact hasks
    | _ => cases hpresented
  refine ⟨h.sound.step hjwt hallows, h.singleFlight, ?_, ?_, ?_, ?_, ?_, ?_⟩
  · intro token htoken
    exact List.mem_append_left _ (h.issued token htoken)
  · intro token htoken
    rcases List.mem_append.mp htoken with hold | hnew
    · exact List.mem_append_left _ (h.granted token hold)
    · exact List.mem_append_right _ hnew
  · change ((w.answers ++ (w.server.responses settings input).map _).map _).Nodup
    rcases responses_cases w.server input with hnone | ⟨response, hone⟩
    · rw [hnone, List.map_nil, List.append_nil]
      exact h.answers
    · rw [hone, List.map_singleton, List.map_append, List.map_singleton, ← List.concat_eq_append,
        List.nodup_concat]
      refine ⟨?_, h.answers⟩
      intro hmem
      obtain ⟨answer, hanswer, hsame⟩ := List.mem_map.mp hmem
      have hold := h.granted _ (h.pending answer hanswer).1
      rw [hsame] at hold
      exact hfresh response (by rw [hone]; exact List.mem_singleton_self _) hold
  · intro answer hanswer
    rcases List.mem_append.mp hanswer with hold | hnew
    · obtain ⟨hgranted, hunknown⟩ := h.pending answer hold
      exact ⟨List.mem_append_left _ hgranted, hunknown⟩
    · obtain ⟨response, hresponse, rfl⟩ := List.mem_map.mp hnew
      refine ⟨List.mem_append_right _ (List.mem_map_of_mem hresponse), ?_⟩
      intro hissued
      exact hfresh response hresponse (h.granted _ (h.issued _ hissued))
  · intro token
    change (w.handedIn ++ input.presented.toList).count token ≤ w.page.posts.count token
    rw [List.count_append]
    rcases hpresented : input.presented with _ | presented
    · exact h.handedIn token
    · rw [Option.toList_some, List.count_singleton]
      have hlt : w.handedIn.count presented < w.page.posts.count presented := hdue _ hpresented
      have hle := h.handedIn token
      by_cases htoken : presented = token
      · subst htoken
        simp only [beq_self_eq_true, if_true]
        omega
      · simp only [beq_iff_eq, htoken, if_false]
        omega
  · intro token htoken row hrow hrevoked
    rcases List.mem_append.mp htoken with hold | hnew
    · rcases h.sound.revokesOnly hjwt hallows token row hrow hrevoked with hpresented | hbefore
      · exact List.mem_append_right _ (by rw [hpresented]; exact List.mem_singleton_self _)
      · exact List.mem_append_left _ (h.revoked token hold row hbefore hrevoked)
    · obtain ⟨response, hresponse, rfl⟩ := List.mem_map.mp hnew
      rw [Backend.responses_row hresponse hrow] at hrevoked
      cases hrevoked

theorem Step.inStep (hjwt : settings.jwt.Expires)
    (hstep : Step settings serializer render mergeConfig w w') (h : w.InStep settings) :
    w'.InStep settings := by
  cases hstep with
  | page e hquiet hstep => exact h.page hquiet hstep
  | asked input hallows hasks hfresh => exact h.answered hjwt hallows hasks hfresh
  | delivered e before after answer hanswers harrives hstep =>
    exact h.delivered hanswers harrives hstep
  | others input hallows hothers hfresh => exact h.served hjwt hallows hothers

theorem Steps.inStep (hjwt : settings.jwt.Expires)
    (hrun : Steps settings serializer render mergeConfig w w') (h : w.InStep settings) :
    w'.InStep settings := by
  induction hrun with
  | refl => exact h
  | tail _ hstep ih => exact hstep.inStep hjwt ih

end Invariant

/-! ### A short session

Ann signs in on a page, whose next request is refused, so that it posts the
refresh token that it has. -/

def atLogin : PageServer TokenPayload :=
  ⟨Backend.annHired, .initial, ["rt.first"], [], [], []⟩

def annLogin : Input TokenPayload Backend.PlainLink := .login true 60 0 0 0 "second" "ann" "pw"

theorem annLogin_response : ∃ response,
    Backend.annHired.responses Sessions.plainSettings annLogin = [response] ∧
      response.refreshToken = "rt.second" := by
  have hmap : (Backend.annHired.responses Sessions.plainSettings annLogin).map
      TokenResponse.refreshToken = ["rt.second"] := by
    decide +kernel
  obtain ⟨response, hone, htoken⟩ := List.map_eq_singleton_iff.mp hmap
  exact ⟨response, hone, htoken⟩

theorem signIn_steps : ∃ page₁ page₂ page₃ page₄ : Frontend.Page,
    Frontend.Page.initial.step id (.request (some "/auth/login")) = some page₁ ∧
      page₁.step id (.loggedIn 0 "access" "rt.second") = some page₂ ∧
      page₂.step id (.request (some "/users/")) = some page₃ ∧
      page₃.step id (.unauthorized 1) = some page₄ ∧ page₄.posts = ["rt.second"] :=
  ⟨_, _, _, _, rfl, rfl, rfl, rfl, by decide +kernel⟩

theorem annHired_reached : Backend.PlainReached Backend.annHired := by
  have hauthored : Backend.PlainReached Backend.staffAuthored :=
    Backend.plainReached_route Backend.rootIn_reached Backend.rootIn_issued _
  have hcreated : Backend.PlainReached Backend.annCreated :=
    Backend.plainReached_route hauthored (by decide +kernel) _
  exact Backend.plainReached_route hcreated (by decide +kernel) _

theorem annHired_now : Backend.annHired.now ≤ 0 := by decide +kernel

theorem atLogin_opened : Opened Sessions.plainSettings atLogin :=
  ⟨annHired_reached.sound plainJwt_expires, rfl, rfl, rfl, rfl⟩

theorem atLogin_run : ∃ w, Steps Sessions.plainSettings plainSerializer (fun _ => "access") id
    atLogin w ∧ w.Due "rt.second" := by
  obtain ⟨page₁, page₂, page₃, page₄, h₁, h₂, h₃, h₄, hposts⟩ := signIn_steps
  obtain ⟨response, hone, htoken⟩ := annLogin_response
  let asking : PageServer TokenPayload := { atLogin with page := page₁ }
  let waiting := asking.answered Sessions.plainSettings plainSerializer annLogin
  have hanswers : waiting.answers = [] ++ ⟨none, response⟩ :: [] := by
    change [] ++ (Backend.annHired.responses Sessions.plainSettings annLogin).map _ = _
    rw [hone]
    rfl
  have hasked : Step Sessions.plainSettings plainSerializer (fun _ => "access") id asking
      waiting := by
    refine .asked annLogin ⟨annHired_now, le_refl _, le_refl _⟩ trivial ?_
    intro response' hresponse
    change response' ∈ Backend.annHired.responses Sessions.plainSettings annLogin at hresponse
    rw [hone, List.mem_singleton] at hresponse
    rw [hresponse, htoken]
    change "rt.second" ∉ ["rt.first"]
    decide
  have hdelivered : Step Sessions.plainSettings plainSerializer (fun _ => "access") id waiting
      { waiting with page := page₂, answers := [] ++ [] } :=
    .delivered (.loggedIn 0 "access" "rt.second") [] [] ⟨none, response⟩ hanswers
      ⟨rfl, htoken.symm, rfl⟩ h₂
  refine ⟨{ waiting with page := page₄, answers := [] ++ [] }, ?_, ?_⟩
  · exact .tail (.tail (.tail (.tail (.single (.page _ rfl h₁)) hasked) hdelivered)
      (.page _ rfl h₃)) (.page _ rfl h₄)
  · change List.count "rt.second" ([] ++ []) < page₄.posts.count "rt.second"
    rw [hposts]
    decide

section Breaches

variable {Token Link : Type} {settings : AuthSettings Token} {serializer : TimedSerializer Link}
  {render : Token → String} {mergeConfig : Frontend.RequestConfig → Frontend.RequestConfig}
  {w w' : PageServer Token}

/-- Whatever gets lost or late, the server never takes a POST of the page for the
reuse of a token, handles each token once, and answers with tokens that the page
can take in. -/
theorem page_never_breaches (hjwt : settings.jwt.Expires) (hopened : w.Opened settings)
    (hrun : Steps settings serializer render mergeConfig w w') :
    (∀ refreshToken, w'.Due refreshToken →
      ∀ (checkedAt mintedAt issuedAt expiresFrom : ℤ) (jti : String),
        (Refresh.refresh settings checkedAt mintedAt issuedAt expiresFrom jti refreshToken
          w'.server.db).1 ≠ .error breach) ∧
      w'.handedIn.Nodup ∧
      ∀ answer ∈ w'.answers, ∀ accessToken,
        (w'.page.toClient.receive accessToken answer.response.refreshToken).isSome := by
  have h := Steps.inStep hjwt hrun hopened.inStep
  refine ⟨?_, ?_, ?_⟩
  · intro refreshToken hdue checkedAt mintedAt issuedAt expiresFrom jti hbreach
    rcases hexchange : Refresh.refresh settings checkedAt mintedAt issuedAt expiresFrom jti
      refreshToken w'.server.db with ⟨r, db, es⟩
    rw [hexchange] at hbreach
    obtain rfl : r = .error breach := hbreach
    cases Refresh.refresh_outcome hexchange with
    | reused row hrow hrevoked _ =>
      exact h.not_handedIn hdue
        (h.revoked refreshToken (h.posted_granted hdue.posted) row hrow hrevoked)
    | failed row e _ _ _ hne _ => exact hne rfl
  · refine List.nodup_iff_count_le_one.mpr ?_
    intro token
    exact (h.handedIn token).trans (List.nodup_iff_count_le_one.mp h.singleFlight.nodup token)
  · intro answer hanswer accessToken
    rw [Frontend.Client.receive, if_neg (h.pending answer hanswer).2]
    rfl

end Breaches

theorem page_never_breaches_ann : ∃ w : PageServer TokenPayload, w.Due "rt.second" ∧
    (∀ refreshToken, w.Due refreshToken →
      ∀ (checkedAt mintedAt issuedAt expiresFrom : ℤ) (jti : String),
        (Refresh.refresh Sessions.plainSettings checkedAt mintedAt issuedAt expiresFrom jti
          refreshToken w.server.db).1 ≠ .error breach) ∧
      w.handedIn.Nodup ∧
      ∀ answer ∈ w.answers, ∀ accessToken,
        (w.page.toClient.receive accessToken answer.response.refreshToken).isSome := by
  obtain ⟨w, hrun, hdue⟩ := atLogin_run
  exact ⟨w, hdue, page_never_breaches plainJwt_expires atLogin_opened hrun⟩

end PageServer
end FastapiTemplate
