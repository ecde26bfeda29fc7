import FastapiTemplate.Sessions

/-!
Refreshes that fail. The presented token is revoked, and committed, before the
user is loaded and the access token minted. So a refresh that is refused for an
inactive user or tenant has used up the token all the same, and the next one,
when they are active again, takes it for a stolen one.
-/
namespace FastapiTemplate

open Library.KeyedTable Library.Committing

/-- The user or the tenant is gone or inactive. -/
def Refused (e : Err) : Prop :=
  e = .userDeactivated ∨ e = .tenantInactive ∨ ∃ username, e = .userNotFound username

theorem ensureActive_refused {t : Tables} {user : User} {e : Err}
    (h : ensureActive t user = .error e) : Refused e ∧ ¬ ActiveOwner t user := by
  refine ⟨?_, ?_⟩
  · rcases ensureActive_error h with hdeactivated | hinactive
    · exact Or.inl hdeactivated
    · exact Or.inr (Or.inl hinactive)
  · intro hactive
    rw [ensureActive_eq_ok_iff.mpr hactive] at h
    cases h

section Refresh

variable {Token : Type} {settings : AuthSettings Token} {db db' : Db} {es : List Event}
  {checkedAt mintedAt issuedAt expiresFrom : ℤ} {jti refreshToken : String}

theorem activeOwner_withTokens {t : Tables} {refreshTokens : Table RefreshToken.token}
    {user : User} : ActiveOwner (t.withTokens refreshTokens) user ↔ ActiveOwner t user :=
  ⟨fun h => ⟨h.active, h.tenant⟩, fun h => ⟨h.active, h.tenant⟩⟩

/-- Minting is refused exactly if the user or the tenant is inactive. -/
theorem mint_refused {user : LoadedUser} {authMethod : String} {r : Except Err Token}
    (h : mint settings mintedAt user authMethod db = (r, db', es)) :
    (ActiveOwner db.toTables user.toUser ∧ ∀ e, r = .error e → ¬ Refused e) ∨
      (¬ ActiveOwner db.toTables user.toUser ∧ ∃ e, r = .error e ∧ Refused e) := by
  rw [mint, query, Action.read_bind_apply] at h
  unfold mintAccessToken createAccessToken at h
  rcases hactive : ensureActive db.toTables user.toUser with e | _
  · rw [hactive] at h
    obtain ⟨hrefused, hnot⟩ := ensureActive_refused hactive
    exact Or.inr ⟨hnot, e, (congrArg Prod.fst h).symm, hrefused⟩
  · refine Or.inl ⟨ensureActive_eq_ok_iff.mp hactive, ?_⟩
    rcases hhex : maskToHex (some (effectivePermissionMask user)) with e | text
    · rw [hactive, hhex] at h
      rintro e' rfl
      obtain rfl : e = e' := Except.error.inj (congrArg Prod.fst h)
      rw [maskToHex_eq_error hhex]
      rintro (hno | hno | ⟨_, hno⟩) <;> cases hno
    · rw [hactive, hhex] at h
      rintro e' rfl
      cases congrArg Prod.fst h

theorem create_not_refused {token : String} {userId : Uuid} {expiresAt : ℤ} {e : Err}
    (h : transaction (RefreshTokenRepository.createTx token userId expiresAt) db =
      (.error e, db', es)) : ¬ Refused e := by
  have hkind : e = .integrityError ∨ e = .overflowError := by
    rcases transaction_run h with ⟨e', he, _, hbody | hkind⟩ | ⟨a, ha, _⟩
    · unfold RefreshTokenRepository.createTx at hbody
      split at hbody
      · obtain rfl := Except.error.inj he
        exact Or.inl (Except.error.inj hbody).symm
      · cases hbody
    · obtain rfl := Except.error.inj he
      exact hkind
    · cases ha
  rcases hkind with rfl | rfl <;> rintro (hno | hno | ⟨_, hno⟩) <;> cases hno

/-- The owner of the token exists and is active, and so is their tenant. -/
def OwnerActive (db : Db) (row : RefreshToken) : Prop :=
  ∃ user, db.users.get row.userId = some user ∧ ActiveOwner db.toTables user

/-- How the refresh of a live token may end: its row is revoked by then. -/
theorem Refresh.refresh_live {row : RefreshToken} {r : Except Err (TokenResponse Token)}
    (hrow : db.refreshTokens.get refreshToken = some row) (hlive : row.isRevoked = false)
    (hunexpired : checkedAt ≤ row.expiresAt)
    (h : Refresh.refresh settings checkedAt mintedAt issuedAt expiresFrom jti refreshToken db =
      (r, db', es)) :
    (¬ OwnerActive db row ∧ ∃ e, r = .error e ∧ Refused e ∧
      db'.refreshTokens = revoked db.refreshTokens refreshToken) ∨
    (OwnerActive db row ∧ ∀ e, r = .error e → ¬ Refused e) := by
  rw [refresh, query, Action.read_bind_apply, RefreshTokenRepository.getByToken, hrow,
    Action.require_some_bind, if_neg (by rw [hlive]; exact Bool.false_ne_true),
    if_neg (not_lt.mpr hunexpired)] at h
  obtain rfl : row.token = refreshToken := Table.key_of_get hrow
  obtain ⟨gs, hrest⟩ := transaction_bind_run (revokeTx_withTokens hrow) (constraints_revoked db _) h
  simp only [query, Action.read_bind_apply] at hrest
  rcases Action.require_bind_run hrest with ⟨hgone, rfl, rfl⟩ | ⟨user, huser, hloaded⟩
  · refine Or.inl ⟨?_, _, rfl, Or.inr (Or.inr ⟨_, rfl⟩), rfl⟩
    rintro ⟨owner, howner, _⟩
    have hnone : db.users.get row.userId = none := Option.map_eq_none_iff.mp hgone
    rw [hnone] at howner
    cases howner
  obtain ⟨howner, _, _⟩ := UserRepository.getByIdWithGrants_eq_some huser
  have howner' : db.users.get row.userId = some user.toUser := howner
  have hactive : OwnerActive db row ↔ ActiveOwner db.toTables user.toUser := by
    constructor
    · rintro ⟨owner, hget, howned⟩
      rw [howner'] at hget
      obtain rfl := Option.some.inj hget
      exact howned
    · exact fun howned => ⟨_, howner', howned⟩
  rcases Action.bind_run hloaded with ⟨e, hmint, rfl⟩ | ⟨access, db₁, es₁, es₂, hmint, hminted, _⟩
  · rcases mint_refused hmint with ⟨howned, hnot⟩ | ⟨hnot, _, he, hrefused⟩
    · refine Or.inr ⟨hactive.mpr (activeOwner_withTokens.mp howned), ?_⟩
      intro e' he'
      obtain rfl := Except.error.inj he'
      exact hnot e rfl
    · obtain rfl := Except.error.inj he
      obtain ⟨rfl, _⟩ := mint_run hmint
      exact Or.inl ⟨fun ho => hnot (activeOwner_withTokens.mpr (hactive.mp ho)), e, rfl, hrefused,
        rfl⟩
  · rcases mint_refused hmint with ⟨howned, _⟩ | ⟨_, _, he, _⟩
    · refine Or.inr ⟨hactive.mpr (activeOwner_withTokens.mp howned), ?_⟩
      intro e he
      rcases Action.bind_run hminted with ⟨e', hcreate, rfl⟩ | ⟨created, db₂, _, _, _, hdone, _⟩
      · obtain rfl := Except.error.inj he
        exact create_not_refused hcreate
      · cases hdone
        cases he
    · cases he

/-- A refresh that is refused leaves the table, and the token is not reported
as stolen as long as the table stays like this. -/
def Refresh.LeavesSession (settings : AuthSettings Token)
    (checkedAt mintedAt issuedAt expiresFrom : ℤ) (jti refreshToken : String) (db : Db) : Prop :=
  ∀ e db' es, Refresh.refresh settings checkedAt mintedAt issuedAt expiresFrom jti refreshToken db =
      (.error e, db', es) → Refused e →
    db'.refreshTokens = db.refreshTokens ∧
      ∀ (later : Db) (checkedAt mintedAt issuedAt expiresFrom : ℤ) (jti : String),
        later.refreshTokens = db'.refreshTokens →
        (Refresh.refresh settings checkedAt mintedAt issuedAt expiresFrom jti refreshToken
          later).1 ≠ .error breach

theorem revoked_ne {refreshTokens : Table RefreshToken.token} {row : RefreshToken}
    (hrow : refreshTokens.get refreshToken = some row) (hlive : row.isRevoked = false) :
    revoked refreshTokens refreshToken ≠ refreshTokens := by
  intro hsame
  have hget : (revoked refreshTokens refreshToken).get refreshToken = some row := by
    rw [hsame, hrow]
  obtain rfl : row.token = refreshToken := Table.key_of_get hrow
  rw [revoked, Table.get_update, hrow, Option.map_some, if_pos (decide_eq_true rfl)] at hget
  have hrevoked := congrArg RefreshToken.isRevoked (Option.some.inj hget)
  rw [hlive] at hrevoked
  cases hrevoked

/-- A failed refresh leaves the session exactly if it cannot be refused. -/
theorem Refresh.leavesSession_iff {row : RefreshToken}
    (hrow : db.refreshTokens.get refreshToken = some row) (hlive : row.isRevoked = false)
    (hunexpired : checkedAt ≤ row.expiresAt) :
    Refresh.LeavesSession settings checkedAt mintedAt issuedAt expiresFrom jti refreshToken db ↔
      OwnerActive db row := by
  constructor
  · intro hleaves
    by_contra hinactive
    rcases hrun : Refresh.refresh settings checkedAt mintedAt issuedAt expiresFrom jti refreshToken
      db with ⟨r, db', es⟩
    rcases Refresh.refresh_live hrow hlive hunexpired hrun with
      ⟨_, e, rfl, hrefused, htokens⟩ | ⟨hactive, _⟩
    · have hsame := (hleaves e db' es hrun hrefused).1
      rw [htokens] at hsame
      exact revoked_ne hrow hlive hsame
    · exact hinactive hactive
  · intro hactive e db' es hrun hrefused
    rcases Refresh.refresh_live hrow hlive hunexpired hrun with ⟨hnot, _⟩ | ⟨_, hnot⟩
    · exact absurd hactive hnot
    · exact absurd hrefused (hnot e rfl)

end Refresh

/-! A user is deactivated, refreshes, and is activated again. -/

open Sessions

def raised {α : Type} (r : Except Err α) : Option Err :=
  match r with
  | .error e => some e
  | .ok _ => none

theorem run_of_raised {α : Type} {run : Except Err α × Db × List Event} {e : Err}
    (h : raised run.1 = some e) : run = (.error e, run.2.1, run.2.2) := by
  obtain ⟨r, db, es⟩ := run
  cases r with
  | error e' =>
    obtain rfl : e' = e := Option.some.inj h
    rfl
  | ok _ => cases h

theorem leavesSession_signedIn :
    Refresh.LeavesSession plainSettings 0 0 0 0 "second" "rt.first" signedIn := by
  refine (Refresh.leavesSession_iff signedIn_first rfl (by decide)).mpr ?_
  have hrow : (signedIn.users.get 2).any (fun u => u.isActive ∧ u.tenantId = none) = true := by
    decide +kernel
  obtain ⟨user, huser, hactive⟩ := (Option.any_eq_true _ _).mp hrow
  obtain ⟨hactive, htenant⟩ := of_decide_eq_true hactive
  refine ⟨user, huser, hactive, ?_⟩
  intro i hi
  rw [htenant] at hi
  cases hi

def deactivated : Db := (request .ok 1 (.setUserActive 2 false) signedIn).2.1

def refusedRefresh : Db := (Refresh.refresh plainSettings 0 0 0 0 "second" "rt.first"
  deactivated).2.1

def reactivated : Db := (request .ok 1 (.setUserActive 2 true) refusedRefresh).2.1

theorem refused_breaks_session :
    deactivated.refreshTokens.get "rt.first" = some firstRow ∧
    raised (Refresh.refresh plainSettings 0 0 0 0 "second" "rt.first" deactivated).1 =
      some .userDeactivated ∧
    (reactivated.users.get 2).map User.isActive = some true ∧
    raised (Refresh.refresh plainSettings 0 0 0 0 "second" "rt.first" reactivated).1 =
      some breach ∧
    ¬ Refresh.LeavesSession plainSettings 0 0 0 0 "second" "rt.first" deactivated := by
  have hfacts : deactivated.refreshTokens.get "rt.first" = some firstRow ∧
      raised (Refresh.refresh plainSettings 0 0 0 0 "second" "rt.first" deactivated).1 =
        some .userDeactivated ∧
      (reactivated.users.get 2).map User.isActive = some true ∧
      raised (Refresh.refresh plainSettings 0 0 0 0 "second" "rt.first" reactivated).1 =
        some breach ∧
      refusedRefresh.refreshTokens.get "rt.first" = some { firstRow with isRevoked := true } := by
    decide +kernel
  obtain ⟨hrow, hrefused, hactive, hbreach, hrevoked⟩ := hfacts
  refine ⟨hrow, hrefused, hactive, hbreach, ?_⟩
  intro hleaves
  have hsame := (hleaves .userDeactivated _ _ (run_of_raised hrefused) (Or.inl rfl)).1
  rw [refusedRefresh, hsame, hrow] at hrevoked
  have hflag := congrArg RefreshToken.isRevoked (Option.some.inj hrevoked)
  cases hflag

end FastapiTemplate
