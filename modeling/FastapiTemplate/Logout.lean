import FastapiTemplate.Lineage

/-!
Logging out. The browser keeps the cookie that the login has set and the token
that the last answer carried. A refresh answers with a new token and sets no
cookie, so the logout deletes the token of the login: the session is over only
if the tokens it was exchanged for are dead already.
-/
namespace FastapiTemplate

open Library.KeyedTable

namespace Sessions

variable {Token : Type} {settings : AuthSettings Token} {s₀ s s' : Sessions}

structure Browser where
  /-- The last value that the server has set in `refresh_token`. -/
  cookie : String
  /-- The refresh token of the last `TokenResponse`. -/
  latest : String

/-- A browser that has logged in and refreshes its latest token, while the run
goes on elsewhere. Only the login answers with a cookie. -/
inductive Session (settings : AuthSettings Token) (s₀ : Sessions) : Sessions → Browser → Prop
  | login {s : Sessions} (isAllowed : Bool) (window : ℕ) (mintedAt issuedAt expiresFrom : ℤ)
      (jti username password : String) {response : TokenResponse Token} {cookie : Cookie}
      {db : Db} {es : List Event} : Steps settings s₀ s → s.clock ≤ mintedAt →
      mintedAt ≤ issuedAt → issuedAt ≤ expiresFrom →
      LoginUser.login settings isAllowed window mintedAt issuedAt expiresFrom jti username password
        s.db = (.ok (response, cookie), db, es) → Fresh s.history response.refreshToken →
      Session settings s₀ (s.next db expiresFrom (issuance db response.refreshToken none))
        ⟨cookie.value, response.refreshToken⟩
  | refresh {s : Sessions} {b : Browser} (checkedAt mintedAt issuedAt expiresFrom : ℤ)
      (jti : String) {response : TokenResponse Token} {db : Db} {es : List Event} :
      Session settings s₀ s b → s.clock ≤ checkedAt → checkedAt ≤ mintedAt →
      mintedAt ≤ issuedAt → issuedAt ≤ expiresFrom →
      Refresh.refresh settings checkedAt mintedAt issuedAt expiresFrom jti b.latest s.db =
        (.ok response, db, es) → Fresh s.history response.refreshToken →
      Session settings s₀ (s.next db expiresFrom (refreshEntries s.db db b.latest (.ok response)))
        ⟨b.cookie, response.refreshToken⟩
  | elsewhere {s s' : Sessions} {b : Browser} : Session settings s₀ s b → Step settings s s' →
      Session settings s₀ s' b

/-- What the login leaves: a run, and a cookie with a token that was issued. -/
structure Opened (settings : AuthSettings Token) (s₀ s : Sessions) (b : Browser) : Prop where
  run : Steps settings s₀ s
  issued : ∃ userId, .issued b.cookie userId none ∈ s.history
  encoded : ∃ claims, b.cookie = settings.encodeRefresh claims

theorem Session.opened {b : Browser} (h : Session settings s₀ s b) : Opened settings s₀ s b := by
  induction h with
  | login isAllowed window mintedAt issuedAt expiresFrom jti username password hrun h₁ h₂ h₃
      hlogin hfresh =>
    have hstep := Step.login isAllowed window mintedAt issuedAt expiresFrom jti username password
      h₁ h₂ h₃ hlogin hfresh
    rcases LoginUser.login_outcome hlogin with ⟨_, herr, _⟩ | ⟨_, _, userId, hok, hcookie, hclaims,
      hissues⟩
    · cases herr
    · cases hok
      rw [← hcookie] at hclaims hissues
      refine ⟨hrun.tail hstep, ⟨userId, ?_⟩, hclaims⟩
      rw [← hcookie, next, issuance_of_issues hissues]
      exact List.mem_append_right _ (List.mem_singleton_self _)
  | refresh checkedAt mintedAt issuedAt expiresFrom jti _ h₁ h₂ h₃ h₄ hrefresh hfresh ih =>
    have hstep := Step.refresh checkedAt mintedAt issuedAt expiresFrom jti _ h₁ h₂ h₃ h₄ hrefresh
      (fun r hr => by
        obtain rfl := Except.ok.inj hr
        exact hfresh)
    obtain ⟨userId, hissued⟩ := ih.issued
    exact ⟨ih.run.tail hstep, ⟨userId, List.mem_append_left _ hissued⟩, ih.encoded⟩
  | elsewhere _ hstep ih =>
    obtain ⟨userId, hissued⟩ := ih.issued
    refine ⟨ih.run.tail hstep, ⟨userId, ?_⟩, ih.encoded⟩
    exact (Steps.history_prefix (.single hstep)).subset hissued

/-! ### Tokens that are dead stay dead -/

/-- No token of the lineage can be exchanged: its rows are revoked or expired. -/
def Dead (k : Table RefreshToken.token) (history : List Entry) (clock : ℤ) (root : String) :
    Prop :=
  ∀ row ∈ k.rows, Descends history root row.token →
    row.isRevoked = true ∨ row.expiresAt < clock

section Preservation

variable {clock clock' : ℤ} {k k' : Table RefreshToken.token} {history entries : List Entry}
  {root : String} {userId : Uuid} {parent : Option String}

theorem Dead.later (h : Dead k history clock root) (hclock : clock ≤ clock') :
    Dead k history clock' root := by
  intro row hrow hdescends
  rcases h row hrow hdescends with hrevoked | hexpired
  · exact Or.inl hrevoked
  · exact Or.inr (by omega)

theorem Dead.revoke (h : Dead k history clock root) (old : String) :
    Dead (revoked k old) history clock root := by
  intro row hrow hdescends
  rcases mem_revoked hrow with ⟨hold, _⟩ | ⟨hrevoked, _⟩
  · exact h row hold hdescends
  · exact Or.inl hrevoked

/-- A new row that does not join the lineage. -/
theorem Dead.insert (h : Dead k history clock root) (hlinear : Linear k history) {token : String}
    {owner : Uuid} {expiresAt : ℤ} (hissued : .issued root userId none ∈ history)
    (hfresh : Fresh history token)
    (hinsert : k.insert? ⟨token, owner, expiresAt, false⟩ = some k')
    (hparent : ∀ old, parent = some old →
      (∃ u p, .issued old u p ∈ history) ∧ ¬ Descends history root old) :
    Dead k' (history ++ [.issued token owner parent]) clock root := by
  intro row hrow hdescends
  rw [hlinear.descends_issue hfresh (fun old hold => (hparent old hold).1)] at hdescends
  rcases hdescends with hbefore | ⟨_, old, hold, hjoins⟩
  · rcases (Table.mem_insert? hinsert).mp hrow with hmem | rfl
    · exact h row hmem hbefore
    · obtain rfl := eq_of_descends_of_fresh hfresh hbefore
      exact absurd hissued (hfresh _ _)
  · exact absurd hjoins (hparent old hold).2

theorem Effect.dead (he : Effect clock k k' history entries) (hlinear : Linear k history)
    (hissued : .issued root userId none ∈ history) (h : Dead k history clock root) :
    Dead k' (history ++ entries) clock root := by
  cases he with
  | issue token owner expiresAt hfresh hinsert => exact h.insert hlinear hissued hfresh hinsert nofun
  | rotate old row token expiresAt hrow hlive hunexpired hfresh hinsert =>
    refine (h.revoke old).insert (hlinear.revoke old) hissued hfresh hinsert ?_
    intro old' hsame
    obtain rfl := Option.some.inj hsame
    obtain rfl := Table.key_of_get hrow
    have hmem := Table.mem_of_get hrow
    obtain ⟨p, hrecorded⟩ := hlinear.recorded row hmem
    refine ⟨⟨row.userId, p, hrecorded⟩, ?_⟩
    intro hdescends
    rcases h row hmem hdescends with hrevoked | hexpired
    · rw [hlive] at hrevoked
      cases hrevoked
    · omega
  | revoke old hk =>
    rw [hk, List.append_nil]
    exact h.revoke old
  | delete p _ hentries _ _ _ hk =>
    intro row hrow hdescends
    rw [hk] at hrow
    rw [descends_append (fun t u p => hentries t u (some p))] at hdescends
    exact h row (Table.mem_delete hrow) hdescends

end Preservation

theorem Steps.dead (h : Steps settings s s') (hlinear : Linear s.db.refreshTokens s.history)
    {root : String} {userId : Uuid} (hissued : .issued root userId none ∈ s.history)
    (hdead : Dead s.db.refreshTokens s.history s.clock root) :
    Dead s'.db.refreshTokens s'.history s'.clock root := by
  induction h with
  | refl => exact hdead
  | tail hsteps hstep ih =>
    obtain ⟨entries, hhistory, heffect, hclock⟩ := hstep.effect
    have hissued' := (Steps.history_prefix hsteps).subset hissued
    rw [hhistory]
    exact (heffect.dead (hlinear.steps hsteps) hissued' ih).later hclock

/-- A dead token is not accepted. -/
theorem refresh_of_dead {clock : ℤ} {history : List Entry} {db db' : Db} {root token jti : String}
    {checkedAt mintedAt issuedAt expiresFrom : ℤ} {response : TokenResponse Token}
    {es : List Event} (hdead : Dead db.refreshTokens history clock root)
    (hdescends : Descends history root token) (hclock : clock ≤ checkedAt) :
    Refresh.refresh settings checkedAt mintedAt issuedAt expiresFrom jti token db ≠
      (.ok response, db', es) := by
  intro hrun
  cases Refresh.refresh_outcome hrun with
  | rotated row _ _ _ hrow hlive hunexpired =>
    obtain rfl := Table.key_of_get hrow
    rcases hdead row (Table.mem_of_get hrow) hdescends with hrevoked | hexpired
    · rw [hlive] at hrevoked
      cases hrevoked
    · omega

/-! ### The logout -/

/-- The tokens that the session's first token was exchanged for are dead. -/
def Exhausted (s : Sessions) (b : Browser) : Prop :=
  ∀ row ∈ s.db.refreshTokens.rows, Descends s.history b.cookie row.token →
    row.token ≠ b.cookie → row.isRevoked = true ∨ row.expiresAt < s.clock

/-- A login whose token was never exchanged has nothing else to end. -/
theorem exhausted_of_unexchanged {b : Browser}
    (h : ∀ token userId, .issued token userId (some b.cookie) ∉ s.history) : Exhausted s b := by
  have halone : ∀ token, Descends s.history b.cookie token → token = b.cookie := by
    intro token hdescends
    induction hdescends with
    | root => rfl
    | exchanged _ hmem ih =>
      rw [ih] at hmem
      exact absurd hmem (h _ _)
  intro row _ hdescends hne
  exact absurd (halone row.token hdescends) hne

theorem logout_ends_session {b : Browser} (hinitial : s₀.Initial)
    (hencode : ∀ claims, settings.encodeRefresh claims ≠ "")
    (hsession : Session settings s₀ s b) (hexhausted : Exhausted s b)
    {r : Except Err String} {db : Db} {es : List Event}
    (hlogout : LogoutUser.logout (some b.cookie) s.db = (r, db, es))
    (hlater : Steps settings (s.next db s.clock [.logout b.cookie]) s') {token : String}
    (htoken : Descends s'.history b.cookie token) {checkedAt mintedAt issuedAt expiresFrom : ℤ}
    (hclock : s'.clock ≤ checkedAt) {jti : String} {response : TokenResponse Token} {db' : Db}
    {es' : List Event} :
    Refresh.refresh settings checkedAt mintedAt issuedAt expiresFrom jti token s'.db ≠
      (.ok response, db', es') := by
  have hopened := hsession.opened
  obtain ⟨userId, hissued⟩ := hopened.issued
  obtain ⟨claims, hcookie⟩ := hopened.encoded
  have hne : b.cookie ≠ "" := by
    rw [hcookie]
    exact hencode claims
  have hlinear := Steps.linear hinitial hopened.run
  have hstep : Step settings s (s.next db s.clock [.logout b.cookie]) := .logout _ hlogout
  have hdead : Dead db.refreshTokens (s.history ++ [.logout b.cookie]) s.clock b.cookie := by
    rw [LogoutUser.logout_deletes hne hlogout]
    intro row hrow hdescends
    rw [descends_append (by simp)] at hdescends
    obtain ⟨hmem, hkept⟩ := List.mem_filter.mp hrow
    exact hexhausted row hmem hdescends (by simpa using hkept)
  have hdead' := Steps.dead hlater (hlinear.steps (.single hstep))
    (List.mem_append_left _ hissued) hdead
  exact refresh_of_dead hdead' htoken hclock

/-! The browser that has not refreshed logs out for good; the one that has
refreshed once leaves `rt.second` behind. -/

/-- A login that is known to return `token`. -/
theorem Session.of_login {db db' : Db} {clock : ℤ} {history entries : List Entry}
    {token jti username password : String}
    (htoken : (LoginUser.login settings true 60 clock clock clock jti username password
      db).1.toOption.map (fun r => r.1.refreshToken) = some token)
    (hdb : (LoginUser.login settings true 60 clock clock clock jti username password db).2.1 = db')
    (hentries : issuance db' token none = entries) (hfresh : Fresh history token) :
    Session settings ⟨db, clock, history⟩ ⟨db', clock, history ++ entries⟩ ⟨token, token⟩ := by
  obtain ⟨⟨response, cookie⟩, hrun, rfl⟩ := run_of_token htoken
  have hsession := Session.login (s := ⟨db, clock, history⟩) true 60 clock clock clock jti username
    password .refl (le_refl _) (le_refl _) (le_refl _) hrun hfresh
  have hcookie : cookie.value = response.refreshToken := by
    rcases LoginUser.login_outcome hrun with ⟨_, herr, _⟩ | ⟨_, _, _, hok, hcookie, _, _⟩
    · cases herr
    · cases hok
      exact hcookie
  rw [hdb, hentries, hcookie] at hsession
  exact hsession

/-- A refresh that is known to return `token`. -/
theorem Session.of_refresh {db db' : Db} {clock : ℤ} {history entries : List Entry}
    {cookie old token jti : String} (h : Session settings s₀ ⟨db, clock, history⟩ ⟨cookie, old⟩)
    (htoken : (Refresh.refresh settings clock clock clock clock jti old
      db).1.toOption.map TokenResponse.refreshToken = some token)
    (hdb : (Refresh.refresh settings clock clock clock clock jti old db).2.1 = db')
    (hentries : issuance db' token (some old) = entries) (hfresh : Fresh history token) :
    Session settings s₀ ⟨db', clock, history ++ entries⟩ ⟨cookie, token⟩ := by
  obtain ⟨response, hrun, rfl⟩ := run_of_token htoken
  have hsession := h.refresh clock clock clock clock jti (le_refl _) (le_refl _) (le_refl _)
    (le_refl _) hrun hfresh
  rw [hdb, refreshEntries, hentries] at hsession
  exact hsession

theorem session_login : Session plainSettings start afterLogin ⟨"rt.first", "rt.first"⟩ :=
  Session.of_login login_first rfl issuance_first (by simp [Fresh])

theorem session_refresh : Session plainSettings start afterRefresh ⟨"rt.first", "rt.second"⟩ :=
  session_login.of_refresh refresh_second rfl issuance_second (by simp [Fresh])

theorem plainSettings_encodeRefresh (claims : RefreshClaims) :
    plainSettings.encodeRefresh claims ≠ "" := by
  simp [plainSettings]

def loggedOut : Db := (LogoutUser.logout (some "rt.first") signedIn).2.1

def loggedOutLate : Db := (LogoutUser.logout (some "rt.first") exchanged).2.1

theorem logout_leaves_second : (Refresh.refresh plainSettings 0 0 0 0 "third" "rt.second"
    loggedOutLate).1.toOption.map TokenResponse.refreshToken = some "rt.third" := by
  decide +kernel

theorem exhausted_login : Exhausted afterLogin ⟨"rt.first", "rt.first"⟩ :=
  exhausted_of_unexchanged (by simp [afterLogin])

theorem logout_ends_first : ¬ ∃ response db es, Refresh.refresh plainSettings 0 0 0 0 "second"
    "rt.first" loggedOut = (.ok response, db, es) := by
  rintro ⟨response, db', es', hrefresh⟩
  -- the session is `afterLogin`, and nothing happens after the logout
  have hended (s : Sessions) (db : Db) (hsession : Session plainSettings start s
      ⟨"rt.first", "rt.first"⟩) (hexhausted : Exhausted s ⟨"rt.first", "rt.first"⟩)
      (hclock : s.clock = 0) (hdb : (LogoutUser.logout (some "rt.first") s.db).2.1 = db) :
      Refresh.refresh plainSettings 0 0 0 0 "second" "rt.first" db ≠
        (.ok response, db', es') := by
    rcases hlogout : LogoutUser.logout (some "rt.first") s.db with ⟨r, k, es⟩
    rw [hlogout] at hdb
    obtain rfl := hdb
    exact logout_ends_session start_initial plainSettings_encodeRefresh hsession hexhausted hlogout
      .refl .root (le_of_eq hclock)
  have hdb : (LogoutUser.logout (some "rt.first") afterLogin.db).2.1 = loggedOut := by
    rw [afterLogin_db, loggedOut]
  exact hended afterLogin loggedOut session_login exhausted_login rfl hdb hrefresh

theorem logout_misses_second : start.Initial ∧
    (∀ claims, plainSettings.encodeRefresh claims ≠ "") ∧
    Session plainSettings start afterRefresh ⟨"rt.first", "rt.second"⟩ ∧
    (LogoutUser.logout (some "rt.first") exchanged).2.1 = loggedOutLate ∧
    Descends afterRefresh.history "rt.first" "rt.second" ∧
    ∃ response db es, Refresh.refresh plainSettings 0 0 0 0 "third" "rt.second" loggedOutLate =
      (.ok response, db, es) := by
  refine ⟨start_initial, plainSettings_encodeRefresh, session_refresh, rfl, ?_, ?_⟩
  · have hissued : .issued "rt.second" 2 (some "rt.first") ∈ afterRefresh.history := by
      simp [afterRefresh]
    exact .exchanged .root hissued
  · obtain ⟨response, hrun, _⟩ := run_of_token logout_leaves_second
    exact ⟨response, _, _, hrun⟩

end Sessions
end FastapiTemplate
