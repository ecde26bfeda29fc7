import FastapiTemplate.AuthActions
import FastapiTemplate.System
import Mathlib.Logic.Relation

/-!
Sequential runs of the actions that issue refresh tokens and take them back.
Besides the database a run keeps what has happened: the tokens issued, each
with its user and the token it was exchanged for, the breaches, the logouts and
the cleanups. Every new token is a string that was not issued before; the clock
does not go back. Whatever else the program commits leaves the tokens alone.
-/
namespace FastapiTemplate

open Library.KeyedTable Library.Committing

inductive Entry
  | issued (token : String) (userId : Uuid) (parent : Option String)
  | breach (userId : Uuid)
  | logout (token : String)
  | cleanup
  deriving DecidableEq

structure Sessions where
  db : Db
  clock : ℤ
  history : List Entry

namespace Sessions

variable {Token : Type}

/-- The string has never been issued. -/
def Fresh (history : List Entry) (token : String) : Prop :=
  ∀ userId parent, .issued token userId parent ∉ history

/-- What a successful login, callback or refresh adds to the history. -/
def issuance (db : Db) (token : String) (parent : Option String) : List Entry :=
  match db.refreshTokens.get token with
  | some row => [.issued row.token row.userId parent]
  | none => []

/-- What a refresh adds: the new token, or the breach it has raised. -/
def refreshEntries (db db' : Db) (token : String) (r : Except Err (TokenResponse Token)) :
    List Entry :=
  match r with
  | .ok response => issuance db' response.refreshToken (some token)
  | .error e =>
    if e = breach then
      match db.refreshTokens.get token with
      | some row => [.breach row.userId]
      | none => []
    else []

/-- The state after a call that has ended in `db` at the time `clock`. -/
def next (s : Sessions) (db : Db) (clock : ℤ) (entries : List Entry) : Sessions :=
  ⟨db, clock, s.history ++ entries⟩

inductive Step (settings : AuthSettings Token) : Sessions → Sessions → Prop
  | login {s : Sessions} (isAllowed : Bool) (window : ℕ) (mintedAt issuedAt expiresFrom : ℤ)
      (jti username password : String) {response : TokenResponse Token} {cookie : Cookie}
      {db : Db} {es : List Event} : s.clock ≤ mintedAt → mintedAt ≤ issuedAt →
      issuedAt ≤ expiresFrom →
      LoginUser.login settings isAllowed window mintedAt issuedAt expiresFrom jti username password
        s.db = (.ok (response, cookie), db, es) → Fresh s.history response.refreshToken →
      Step settings s (s.next db expiresFrom (issuance db response.refreshToken none))
  | callback {s : Sessions} (newUserId : Uuid) (mintedAt expiresFrom issuedAt : ℤ) (jti : String)
      (email : Option String) {response : GoogleOAuthCallbackResponse Token} {db : Db}
      {es : List Event} : s.clock ≤ mintedAt → mintedAt ≤ expiresFrom → expiresFrom ≤ issuedAt →
      GoogleOAuthService.handleCallback settings newUserId mintedAt expiresFrom issuedAt jti email
        s.db = (.ok response, db, es) → Fresh s.history response.refreshToken →
      Step settings s (s.next db issuedAt (issuance db response.refreshToken none))
  | refresh {s : Sessions} (checkedAt mintedAt issuedAt expiresFrom : ℤ)
      (jti refreshToken : String) {r : Except Err (TokenResponse Token)} {db : Db}
      {es : List Event} : s.clock ≤ checkedAt → checkedAt ≤ mintedAt → mintedAt ≤ issuedAt →
      issuedAt ≤ expiresFrom →
      Refresh.refresh settings checkedAt mintedAt issuedAt expiresFrom jti refreshToken s.db =
        (r, db, es) → (∀ response, r = .ok response → Fresh s.history response.refreshToken) →
      Step settings s (s.next db expiresFrom (refreshEntries s.db db refreshToken r))
  | logout {s : Sessions} (refreshToken : Option String) {r : Except Err String} {db : Db}
      {es : List Event} : LogoutUser.logout refreshToken s.db = (r, db, es) →
      Step settings s (s.next db s.clock (refreshToken.toList.map .logout))
  | cleanup {s : Sessions} (now : ℤ) {r : Except Err Unit} {db : Db} {es : List Event} :
      s.clock ≤ now → cleanupExpiredTokens now s.db = (r, db, es) →
      Step settings s (s.next db now [.cleanup])
  | other {s : Sessions} (db : Db) (clock : ℤ) : s.clock ≤ clock →
      db.refreshTokens = s.db.refreshTokens → Step settings s (s.next db clock [])

abbrev Steps (settings : AuthSettings Token) : Sessions → Sessions → Prop :=
  Relation.ReflTransGen (Step settings)

/-! ### What a step does -/

/-- The four ways in which a step changes the rows, with the entries that it
adds. Only a logout, a breach or a cleanup deletes a row that is revoked. -/
inductive Effect (clock : ℤ) (k k' : Table RefreshToken.token) (history : List Entry) :
    List Entry → Prop
  | issue (token : String) (userId : Uuid) (expiresAt : ℤ) : Fresh history token →
      k.insert? ⟨token, userId, expiresAt, false⟩ = some k' →
      Effect clock k k' history [.issued token userId none]
  | rotate (old : String) (row : RefreshToken) (token : String) (expiresAt : ℤ) :
      k.get old = some row → row.isRevoked = false → clock ≤ row.expiresAt →
      Fresh history token →
      (revoked k old).insert? ⟨token, row.userId, expiresAt, false⟩ = some k' →
      Effect clock k k' history [.issued token row.userId (some old)]
  | revoke (old : String) : k' = revoked k old → Effect clock k k' history []
  | delete (p : RefreshToken → Bool) (entries : List Entry) :
      (∀ token userId parent, .issued token userId parent ∉ entries) →
      (∀ row ∈ k.rows, p row = true → row.isRevoked = false ∨ .cleanup ∈ entries ∨
        .logout row.token ∈ entries ∨ .breach row.userId ∈ entries) →
      (∀ userId, .breach userId ∈ entries → ∀ row ∈ k.rows, row.userId = userId → p row = true) →
      (.cleanup ∈ entries → ∀ row ∈ k.rows, row.isRevoked = true → p row = true) →
      k' = k.delete p → Effect clock k k' history entries

theorem effect_same (clock : ℤ) (k : Table RefreshToken.token) (history : List Entry) :
    Effect clock k k history [] :=
  .delete (fun _ => false) [] (by simp) (by simp) (by simp) (by simp) (Table.delete_false k).symm

theorem issuance_of_issues {db db' : Db} {token : String} {userId : Uuid} {parent : Option String}
    (h : Issues db db' token userId) : issuance db' token parent = [.issued token userId parent] := by
  obtain ⟨expiresAt, hinsert⟩ := h
  have hget := Table.get_insert? hinsert token
  rw [if_pos rfl] at hget
  rw [issuance, hget]

theorem refresh_effect {settings : AuthSettings Token} {s : Sessions}
    {checkedAt mintedAt issuedAt expiresFrom : ℤ} {jti refreshToken : String}
    {r : Except Err (TokenResponse Token)} {db : Db} {es : List Event}
    (hclock : s.clock ≤ checkedAt)
    (hrun : Refresh.refresh settings checkedAt mintedAt issuedAt expiresFrom jti refreshToken
      s.db = (r, db, es))
    (hfresh : ∀ response, r = .ok response → Fresh s.history response.refreshToken) :
    Effect s.clock s.db.refreshTokens db.refreshTokens s.history
      (refreshEntries s.db db refreshToken r) := by
  rcases Refresh.refresh_outcome hrun with
    ⟨_, rfl⟩ | ⟨row, hrow, hrevoked, ht⟩ | ⟨row, hrow, hrevoked, _, ht⟩ |
    ⟨row, e, hrow, _, _, hne, ht⟩ | ⟨row, response, expiresAt, k, hrow, hrevoked, hlive, hinsert, ht⟩
  · rw [refreshEntries, if_neg (by simp [breach])]
    exact effect_same _ _ _
  · have hentries : refreshEntries s.db db refreshToken (.error breach : Except Err (TokenResponse
        Token)) = [.breach row.userId] := by
      simp [refreshEntries, hrow]
    rw [hentries]
    refine .delete (fun k => k.userId = row.userId) _ (by simp) ?_ ?_ (by simp) (by rw [ht]; rfl)
    · intro k _ hk
      simp [of_decide_eq_true hk]
    · intro userId hmem k _ hk
      simp only [List.mem_singleton, Entry.breach.injEq] at hmem
      simp [hk, hmem]
  · rw [refreshEntries, if_neg (by simp [breach])]
    refine .delete (fun k => k.token = refreshToken) _ (by simp) ?_ (by simp) (by simp)
      (by rw [ht]; rfl)
    intro k hk hp
    obtain rfl := Table.eq_of_get hk (of_decide_eq_true hp) hrow
    exact Or.inl hrevoked
  · rw [refreshEntries, if_neg hne]
    exact .revoke refreshToken (by rw [ht]; rfl)
  · have htokens : db.refreshTokens = k := by rw [ht]; rfl
    have hget := Table.get_insert? hinsert response.refreshToken
    rw [if_pos rfl] at hget
    have hentries : refreshEntries s.db db refreshToken (.ok response) =
        [.issued response.refreshToken row.userId (some refreshToken)] := by
      simp [refreshEntries, issuance, htokens, hget]
    rw [hentries, htokens]
    exact .rotate refreshToken row response.refreshToken expiresAt hrow hrevoked
      (le_trans hclock hlive) (hfresh response rfl) hinsert

theorem Step.effect {settings : AuthSettings Token} {s s' : Sessions}
    (h : Step settings s s') : ∃ entries, s'.history = s.history ++ entries ∧
      Effect s.clock s.db.refreshTokens s'.db.refreshTokens s.history entries ∧
      s.clock ≤ s'.clock := by
  cases h with
  | login isAllowed window mintedAt issuedAt expiresFrom jti username password h₁ h₂ h₃ hrun
      hfresh =>
    refine ⟨_, rfl, ?_, by change s.clock ≤ expiresFrom; omega⟩
    rcases LoginUser.login_outcome hrun with ⟨_, herr, _⟩ | ⟨_, _, userId, hok, _, _, hissues⟩
    · cases herr
    · cases hok
      rw [issuance_of_issues hissues]
      obtain ⟨expiresAt, hinsert⟩ := hissues
      exact .issue _ userId expiresAt hfresh hinsert
  | callback newUserId mintedAt expiresFrom issuedAt jti email h₁ h₂ h₃ hrun hfresh =>
    refine ⟨_, rfl, ?_, by change s.clock ≤ issuedAt; omega⟩
    rcases GoogleOAuthService.handleCallback_outcome hrun with ⟨_, herr, _⟩ | ⟨_, userId, hok, hissues⟩
    · cases herr
    · cases hok
      rw [issuance_of_issues hissues]
      obtain ⟨expiresAt, hinsert⟩ := hissues
      exact .issue _ userId expiresAt hfresh hinsert
  | refresh checkedAt mintedAt issuedAt expiresFrom jti refreshToken h₁ h₂ h₃ h₄ hrun hfresh =>
    exact ⟨_, rfl, refresh_effect h₁ hrun hfresh, by change s.clock ≤ expiresFrom; omega⟩
  | logout refreshToken hrun =>
    refine ⟨_, rfl, ?_, le_refl _⟩
    rcases LogoutUser.logout_outcome hrun with rfl | ⟨token, rfl, htokens⟩
    · refine .delete (fun _ => false) _ (by simp) (by simp) (by simp) (by simp) ?_
      exact (Table.delete_false _).symm
    · refine .delete (fun k => k.token = token) _ (by simp) ?_ (by simp) (by simp) htokens
      intro row _ hp
      simp [of_decide_eq_true hp]
  | cleanup now hclock hrun =>
    refine ⟨_, rfl, ?_, hclock⟩
    refine .delete (fun k => k.expiresAt < now ∨ k.isRevoked) _ (by simp) (by simp) (by simp) ?_
      (cleanupExpiredTokens_outcome hrun)
    intro _ row _ hrevoked
    simp [hrevoked]
  | other db clock hclock htokens =>
    refine ⟨[], rfl, ?_, hclock⟩
    change Effect s.clock s.db.refreshTokens db.refreshTokens s.history []
    rw [htokens]
    exact effect_same _ _ _

/-- Nothing has been issued. -/
structure Initial (s : Sessions) : Prop where
  tokens : s.db.refreshTokens.rows = []
  history : s.history = []

/-! ### A short run

The user `ann` logs in and refreshes once. -/

/-- Secrets in the clear. -/
def plainSettings : AuthSettings TokenPayload where
  jwt := plainJwt
  accessTokenExpireMinutes := 30
  refreshExpire := 7
  production := false
  encodeRefresh claims := "rt." ++ claims.jti
  checkPassword plain hashed := .ok (plain = hashed)

def signedIn : Db :=
  (LoginUser.login plainSettings true 60 0 0 0 "first" "ann" "pw" joined).2.1

def exchanged : Db := (Refresh.refresh plainSettings 0 0 0 0 "second" "rt.first" signedIn).2.1

theorem run_of_token {α : Type} {f : α → String} {run : Except Err α × Db × List Event}
    {token : String} (h : run.1.toOption.map f = some token) :
    ∃ a, run = (.ok a, run.2.1, run.2.2) ∧ f a = token := by
  obtain ⟨r, db, es⟩ := run
  cases r with
  | error e => cases h
  | ok a => exact ⟨a, rfl, Option.some.inj h⟩

theorem login_first : (LoginUser.login plainSettings true 60 0 0 0 "first" "ann" "pw"
    joined).1.toOption.map (fun r => r.1.refreshToken) = some "rt.first" := by
  decide +kernel

def firstRow : RefreshToken := ⟨"rt.first", 2, 7 * day, false⟩

theorem signedIn_first : signedIn.refreshTokens.get "rt.first" = some firstRow := by
  decide +kernel

theorem refresh_second : (Refresh.refresh plainSettings 0 0 0 0 "second" "rt.first"
    signedIn).1.toOption.map TokenResponse.refreshToken = some "rt.second" := by
  decide +kernel

theorem issuance_first : issuance signedIn "rt.first" none = [.issued "rt.first" 2 none] := by
  decide +kernel

theorem issuance_second :
    issuance exchanged "rt.second" (some "rt.first") = [.issued "rt.second" 2 (some "rt.first")] := by
  decide +kernel

def start : Sessions := ⟨joined, 0, []⟩

def afterLogin : Sessions := ⟨signedIn, 0, [.issued "rt.first" 2 none]⟩

theorem afterLogin_db : afterLogin.db = signedIn := by
  rw [afterLogin]

def afterRefresh : Sessions :=
  ⟨exchanged, 0, [.issued "rt.first" 2 none, .issued "rt.second" 2 (some "rt.first")]⟩

theorem start_initial : start.Initial where
  tokens := by decide +kernel
  history := rfl

/-- A login that is known to return `token`. -/
theorem Step.of_login {settings : AuthSettings Token} {db db' : Db} {clock : ℤ}
    {history entries : List Entry} {token jti username password : String}
    (htoken : (LoginUser.login settings true 60 clock clock clock jti username password
      db).1.toOption.map (fun r => r.1.refreshToken) = some token)
    (hdb : (LoginUser.login settings true 60 clock clock clock jti username password db).2.1 = db')
    (hentries : issuance db' token none = entries) (hfresh : Fresh history token) :
    Step settings ⟨db, clock, history⟩ ⟨db', clock, history ++ entries⟩ := by
  obtain ⟨⟨response, cookie⟩, hrun, rfl⟩ := run_of_token htoken
  have hstep := Step.login (s := ⟨db, clock, history⟩) true 60 clock clock clock jti username
    password (le_refl _) (le_refl _) (le_refl _) hrun hfresh
  rw [hdb, hentries] at hstep
  exact hstep

/-- A refresh that is known to return `token`. -/
theorem Step.of_refresh {settings : AuthSettings Token} {db db' : Db} {clock : ℤ}
    {history entries : List Entry} {token old jti : String}
    (htoken : (Refresh.refresh settings clock clock clock clock jti old
      db).1.toOption.map TokenResponse.refreshToken = some token)
    (hdb : (Refresh.refresh settings clock clock clock clock jti old db).2.1 = db')
    (hentries : issuance db' token (some old) = entries) (hfresh : Fresh history token) :
    Step settings ⟨db, clock, history⟩ ⟨db', clock, history ++ entries⟩ := by
  obtain ⟨response, hrun, rfl⟩ := run_of_token htoken
  have hstep := Step.refresh (s := ⟨db, clock, history⟩) clock clock clock clock jti old
    (le_refl _) (le_refl _) (le_refl _) (le_refl _) hrun (fun r hr => by
      obtain rfl := Except.ok.inj hr
      exact hfresh)
  rw [hdb, refreshEntries, hentries] at hstep
  exact hstep

theorem step_login : Step plainSettings start afterLogin :=
  Step.of_login login_first rfl issuance_first (by simp [Fresh])

theorem step_refresh : Step plainSettings afterLogin afterRefresh :=
  Step.of_refresh refresh_second rfl issuance_second (by simp [Fresh])

end Sessions
end FastapiTemplate
