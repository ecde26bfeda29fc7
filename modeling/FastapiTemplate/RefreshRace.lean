import FastapiTemplate.Sessions
import Mathlib.Logic.Function.Basic

/-!
Concurrent refreshes of one token. A call goes through phases, one for each
await, and the steps of the calls interleave on the committed tables. A call
that has found the row usable revokes it one await later; the token is
exchanged once as long as no other call reads the row in between.
-/
namespace FastapiTemplate

open Library.KeyedTable Library.Committing

/-- The clock readings of a call of `refresh`, and its random `jti`. -/
structure RefreshCall where
  checkedAt : ℤ
  mintedAt : ℤ
  issuedAt : ℤ
  expiresFrom : ℤ
  jti : String

namespace Refresh

variable {Token : Type}

/-- Where a call stands between two awaits. -/
inductive Phase (Token : Type)
  | reading
  | reused (row : RefreshToken)
  | expired (row : RefreshToken)
  | usable (row : RefreshToken)
  | revoked (row : RefreshToken)
  | loaded (row : RefreshToken) (user : LoadedUser)
  | minted (row : RefreshToken) (accessToken : Token)
  | done (response : TokenResponse Token)

/-- What the checks after `get_by_token` decide. -/
def checked (call : RefreshCall) (row : RefreshToken) : Phase Token :=
  if row.isRevoked then .reused row
  else if row.expiresAt < call.checkedAt then .expired row
  else .usable row

/-- The code from one await to the next. -/
def advance (settings : AuthSettings Token) (call : RefreshCall) (refreshToken : String) :
    Phase Token → Service (Phase Token)
  | .reading => do
    let found ← query (RefreshTokenRepository.getByToken · refreshToken)
    let dbToken ← Action.require found (.httpException 401 "Invalid refresh token")
    return checked call dbToken
  | .reused dbToken => do
    transaction (RefreshTokenRepository.deleteAllForUserTx dbToken.userId)
    Action.raise breach
  | .expired dbToken => do
    transaction (RefreshTokenRepository.deleteInstanceTx dbToken)
    Action.raise (.httpException 401 "Refresh token expired")
  | .usable dbToken => do
    transaction (RefreshTokenRepository.revokeTx dbToken)
    return .revoked dbToken
  | .revoked dbToken => do
    let loaded ← query (UserRepository.getByIdWithGrants · dbToken.userId)
    let user ← Action.require loaded (.userNotFound dbToken.userId.str)
    return .loaded dbToken user
  | .loaded dbToken user => do
    let newAccessToken ← mint settings call.mintedAt user "password"
    return .minted dbToken newAccessToken
  | .minted dbToken newAccessToken => do
    let newRefreshToken := createRefreshToken settings call.issuedAt dbToken.userId none call.jti
    let _ ← transaction (RefreshTokenRepository.createTx newRefreshToken dbToken.userId
      (call.expiresFrom + settings.refreshExpire * day))
    return .done ⟨newAccessToken, newRefreshToken, "bearer"⟩
  | .done response => pure (.done response)

/-- At most `n` more awaits, without another call in between. -/
def finish (settings : AuthSettings Token) (call : RefreshCall) (refreshToken : String) :
    ℕ → Phase Token → Service (TokenResponse Token)
  | 0, .done response => pure response
  | 0, _ => Action.raise .valueError
  | n + 1, phase => do
    let next ← advance settings call refreshToken phase
    finish settings call refreshToken n next

/-- `refresh` is its phases one after the other. -/
theorem refresh_eq_finish (settings : AuthSettings Token) (call : RefreshCall)
    (refreshToken : String) :
    refresh settings call.checkedAt call.mintedAt call.issuedAt call.expiresFrom call.jti
      refreshToken = finish settings call refreshToken 5 .reading := by
  rw [refresh, finish, advance, bind_assoc]
  congr 1
  funext found
  rw [bind_assoc]
  congr 1
  funext dbToken
  rw [pure_bind, checked]
  split
  · rw [finish, advance, bind_assoc]
    rfl
  · split
    · rw [finish, advance, bind_assoc]
      rfl
    · simp only [finish, advance, bind_assoc, pure_bind]

/-- The call has revoked the row, and may still return a response. -/
inductive Phase.Spent : Phase Token → Prop
  | revoked (row : RefreshToken) : Spent (.revoked row)
  | loaded (row : RefreshToken) (user : LoadedUser) : Spent (.loaded row user)
  | minted (row : RefreshToken) (accessToken : Token) : Spent (.minted row accessToken)
  | done (response : TokenResponse Token) : Spent (.done response)

/-- What one await may do to the tokens. -/
inductive Advanced (settings : AuthSettings Token) (call : RefreshCall) (token : String)
    (k k' : Table RefreshToken.token) : Phase Token → Except Err (Phase Token) → Prop
  | failed (phase : Phase Token) (e : Err) : k' = k → Advanced settings call token k k' phase (.error e)
  | read (row : RefreshToken) : k.get token = some row → k' = k →
      Advanced settings call token k k' .reading (.ok (checked call row))
  | deleted (phase : Phase Token) (e : Err) (p : RefreshToken → Bool) : k' = k.delete p →
      Advanced settings call token k k' phase (.error e)
  | revoked (row : RefreshToken) : k' = FastapiTemplate.revoked k row.token →
      Advanced settings call token k k' (.usable row) (.ok (.revoked row))
  | went (phase next : Phase Token) : phase.Spent → next.Spent → k' = k →
      Advanced settings call token k k' phase (.ok next)
  | created (row : RefreshToken) (accessToken : Token) (response : TokenResponse Token)
      (expiresAt : ℤ) :
      k.insert? ⟨createRefreshToken settings call.issuedAt row.userId none call.jti, row.userId,
        expiresAt, false⟩ = some k' →
      Advanced settings call token k k' (.minted row accessToken) (.ok (.done response))

theorem advance_advanced {settings : AuthSettings Token} {call : RefreshCall} {token : String}
    {db db' : Db} {es : List Event} {phase : Phase Token} {r : Except Err (Phase Token)}
    (h : advance settings call token phase db = (r, db', es)) :
    Advanced settings call token db.refreshTokens db'.refreshTokens phase r := by
  cases phase with
  | reading =>
    rw [advance, query, Action.read_bind_apply] at h
    rcases Action.require_bind_run h with ⟨_, rfl, rfl⟩ | ⟨row, hrow, hfound⟩
    · exact .failed _ _ rfl
    · cases hfound
      exact .read row hrow rfl
  | reused row =>
    rw [advance] at h
    obtain ⟨gs, hrest⟩ := transaction_bind_run rfl (constraints_delete db _) h
    cases hrest
    exact .deleted _ _ _ rfl
  | expired row =>
    rw [advance] at h
    obtain ⟨gs, hrest⟩ := transaction_bind_run rfl (constraints_delete db _) h
    cases hrest
    exact .deleted _ _ _ rfl
  | usable row =>
    rw [advance] at h
    rcases Action.bind_run h with ⟨e, hrun, rfl⟩ | ⟨_, db₁, _, _, hrun, hdone, _⟩
    · rcases transaction_run hrun with ⟨_, _, rfl, _⟩ | ⟨_, ha, _⟩
      · exact .failed _ _ rfl
      · cases ha
    · cases hdone
      rcases transaction_run hrun with ⟨_, ha, _⟩ | ⟨_, _, hbody⟩
      · cases ha
      · unfold RefreshTokenRepository.revokeTx at hbody
        split at hbody
        · obtain ⟨_, ht, _⟩ := by simpa only [Except.ok.injEq, Prod.mk.injEq] using hbody
          refine .revoked row ?_
          rw [← ht]
          rfl
        · cases hbody
  | revoked row =>
    simp only [advance, query, Action.read_bind_apply] at h
    rcases Action.require_bind_run h with ⟨_, rfl, rfl⟩ | ⟨user, _, hfound⟩
    · exact .failed _ _ rfl
    · cases hfound
      exact .went _ _ (.revoked row) (.loaded row user) rfl
  | loaded row user =>
    rw [advance] at h
    rcases Action.bind_run h with ⟨e, hmint, rfl⟩ | ⟨access, db₁, _, _, hmint, hdone, _⟩
    · obtain ⟨rfl, _⟩ := mint_run hmint
      exact .failed _ _ rfl
    · obtain ⟨rfl, _⟩ := mint_run hmint
      cases hdone
      exact .went _ _ (.loaded row user) (.minted row access) rfl
  | minted row accessToken =>
    rw [advance] at h
    rcases Action.bind_run h with ⟨e, hcreate, rfl⟩ | ⟨_, db₁, _, _, hcreate, hdone, _⟩
    · obtain ⟨_, rfl⟩ := create_error hcreate
      exact .failed _ _ rfl
    · cases hdone
      obtain ⟨k, hinsert, ht⟩ := create_ok hcreate
      have hk : db'.refreshTokens = k := by rw [ht]; rfl
      rw [← hk] at hinsert
      exact .created row accessToken _ _ hinsert
  | done response =>
    cases h
    exact .went _ _ (.done response) (.done response) rfl

/-- No row of the token can be used any more. -/
def Used (k : Table RefreshToken.token) (token : String) : Prop :=
  ∀ row, k.get token = some row → row.isRevoked = true

theorem used_revoked (k : Table RefreshToken.token) (token : String) :
    Used (FastapiTemplate.revoked k token) token := by
  intro row hrow
  rw [FastapiTemplate.revoked, Table.get_update, Option.map_eq_some_iff] at hrow
  obtain ⟨before, hbefore, rfl⟩ := hrow
  rw [if_pos (by simpa using Table.key_of_get hbefore)]

theorem Advanced.used {settings : AuthSettings Token} {call : RefreshCall} {token : String}
    {k k' : Table RefreshToken.token} {phase : Phase Token} {r : Except Err (Phase Token)}
    (h : Advanced settings call token k k' phase r) (hused : Used k token)
    (hfresh : ∀ userId, createRefreshToken settings call.issuedAt userId none call.jti ≠ token) :
    Used k' token := by
  cases h with
  | failed _ _ hk | read _ _ hk | went _ _ _ _ hk =>
    rw [hk]
    exact hused
  | deleted _ _ p hk =>
    intro row hrow
    rw [hk, Table.get_delete, Option.filter_eq_some_iff] at hrow
    exact hused row hrow.1
  | revoked before hk =>
    intro row hrow
    rw [hk, FastapiTemplate.revoked, Table.get_update, Option.map_eq_some_iff] at hrow
    obtain ⟨old, hold, rfl⟩ := hrow
    rw [← hused old hold, ite_self]
  | created row _ _ _ hinsert =>
    intro x hx
    rw [Table.get_insert? hinsert, if_neg (hfresh row.userId)] at hx
    exact hused x hx

/-- The call may still return a response: it is about to revoke the row, or has
revoked it. -/
def Phase.Claims (phase : Phase Token) : Prop := (∃ row, phase = .usable row) ∨ phase.Spent

theorem checked_eq_usable {call : RefreshCall} {row row' : RefreshToken}
    (h : checked call row = (.usable row' : Phase Token)) : row = row' ∧ row.isRevoked = false := by
  unfold checked at h
  split at h
  · cases h
  · rename_i hrevoked
    split at h
    · cases h
    · cases h
      exact ⟨rfl, by simpa using hrevoked⟩

theorem checked_not_spent (call : RefreshCall) (row : RefreshToken) :
    ¬ (checked call row : Phase Token).Spent := by
  unfold checked
  split
  · exact nofun
  · split <;> exact nofun

/-- Only reading a row that is not revoked makes a call claim the token. -/
theorem Advanced.claims {settings : AuthSettings Token} {call : RefreshCall} {token : String}
    {k k' : Table RefreshToken.token} {phase next : Phase Token}
    (h : Advanced settings call token k k' phase (.ok next)) (hclaims : next.Claims) :
    phase.Claims ∨ (phase = .reading ∧ ¬ Used k token) := by
  cases h with
  | read row hrow =>
    rcases hclaims with ⟨row', husable⟩ | hspent
    · obtain ⟨rfl, hlive⟩ := checked_eq_usable husable
      refine Or.inr ⟨rfl, ?_⟩
      intro hused
      rw [hused row hrow] at hlive
      cases hlive
    · exact absurd hspent (checked_not_spent call row)
  | revoked row => exact Or.inl (Or.inl ⟨row, rfl⟩)
  | went _ _ hspent => exact Or.inl (Or.inr hspent)
  | created row accessToken => exact Or.inl (Or.inr (.minted row accessToken))

theorem Advanced.spent {settings : AuthSettings Token} {call : RefreshCall} {token : String}
    {k k' : Table RefreshToken.token} {phase next : Phase Token}
    (h : Advanced settings call token k k' phase (.ok next)) (hspent : next.Spent) :
    phase.Spent ∨ ∃ row, phase = .usable row ∧ k' = FastapiTemplate.revoked k row.token := by
  cases h with
  | read row => exact absurd hspent (checked_not_spent call row)
  | revoked row hk => exact Or.inr ⟨row, rfl, hk⟩
  | went _ _ hbefore => exact Or.inl hbefore
  | created row accessToken => exact Or.inl (.minted row accessToken)

theorem Advanced.named {settings : AuthSettings Token} {call : RefreshCall} {token : String}
    {k k' : Table RefreshToken.token} {phase : Phase Token} {row : RefreshToken}
    (h : Advanced settings call token k k' phase (.ok (.usable row))) : row.token = token := by
  generalize hnext : (Phase.usable row : Phase Token) = next at h
  cases h with
  | read row' hrow =>
    obtain ⟨rfl, _⟩ := checked_eq_usable hnext.symm
    exact Table.key_of_get hrow
  | revoked row' => cases hnext
  | went _ _ _ hspent =>
    rw [← hnext] at hspent
    cases hspent
  | created row' accessToken => cases hnext

end Refresh

/-! ### The race -/

/-- The committed tables, and where each call stands; a call that has raised
stands at its error. -/
structure Race (ι Token : Type) where
  db : Db
  phase : ι → Except Err (Refresh.Phase Token)

namespace Race

open Refresh Sessions

variable {ι Token : Type} [DecidableEq ι] {settings : AuthSettings Token} {call : ι → RefreshCall}
  {token : String} {s s' s₀ : Race ι Token}

/-- The call `i` runs from one await to the next. -/
def Step (settings : AuthSettings Token) (call : ι → RefreshCall) (token : String) (i : ι)
    (s s' : Race ι Token) : Prop :=
  ∃ phase r db es, s.phase i = .ok phase ∧
    advance settings (call i) token phase s.db = (r, db, es) ∧ s' = ⟨db, Function.update s.phase i r⟩

/-- Interleavings in which `allowed` holds before each step. -/
abbrev Runs (settings : AuthSettings Token) (call : ι → RefreshCall) (token : String)
    (allowed : Race ι Token → ι → Prop) : Race ι Token → Race ι Token → Prop :=
  Relation.ReflTransGen (fun s s' => ∃ i, allowed s i ∧ Step settings call token i s s')

/-- The next step does not read the token between another call's read of a
usable row and its revocation. -/
def Apart (s : Race ι Token) (i : ι) : Prop :=
  s.phase i = .ok .reading → ∀ j row, s.phase j ≠ .ok (.usable row)

/-- At most one call claims the token, and once it has revoked the row nobody
else can use it. -/
structure Exclusive (token : String) (s : Race ι Token) : Prop where
  named : ∀ i row, s.phase i = .ok (.usable row) → row.token = token
  used : ∀ i phase, s.phase i = .ok phase → phase.Spent → Used s.db.refreshTokens token
  alone : ∀ i j phase phase', s.phase i = .ok phase → s.phase j = .ok phase' → phase.Claims →
    phase'.Claims → i = j

omit [DecidableEq ι] in
theorem exclusive_of_reading (h : ∀ i, s.phase i = .ok .reading) : Exclusive token s := by
  have hclaims : ∀ i phase, s.phase i = .ok phase → ¬ phase.Claims := by
    intro i phase hphase
    rw [h i] at hphase
    obtain rfl := Except.ok.inj hphase
    rintro (⟨_, husable⟩ | hspent)
    · cases husable
    · cases hspent
  refine ⟨?_, ?_, ?_⟩
  · intro i row hrow
    exact absurd (Or.inl ⟨row, rfl⟩) (hclaims i _ hrow)
  · intro i phase hphase hspent
    exact absurd (Or.inr hspent) (hclaims i phase hphase)
  · intro i j phase phase' hphase _ hclaim _
    exact absurd hclaim (hclaims i phase hphase)

theorem Exclusive.step (h : Exclusive token s) {i : ι} (hapart : Apart s i)
    (hfresh : ∀ i userId,
      createRefreshToken settings (call i).issuedAt userId none (call i).jti ≠ token)
    (hstep : Step settings call token i s s') : Exclusive token s' := by
  obtain ⟨before, r, db, es, hbefore, hrun, rfl⟩ := hstep
  have hadvanced := advance_advanced hrun
  have hkeeps : Used s.db.refreshTokens token → Used db.refreshTokens token :=
    fun hused => hadvanced.used hused (hfresh i)
  -- the call that moves is the only one that may begin to claim the token
  have hother : ∀ j phase, j ≠ i → Function.update s.phase i r j = .ok phase →
      s.phase j = .ok phase := by
    intro j phase hne hphase
    rwa [Function.update_of_ne hne] at hphase
  have hself : ∀ phase, Function.update s.phase i r i = .ok phase → r = .ok phase := by
    intro phase hphase
    rwa [Function.update_self] at hphase
  have hmoved : ∀ next, r = .ok next → next.Claims → ∀ j phase, j ≠ i →
      s.phase j = .ok phase → ¬ phase.Claims := by
    intro next hnext hclaims j phase hne hphase hclaim
    rw [hnext] at hadvanced
    rcases hadvanced.claims hclaims with hold | ⟨rfl, hunused⟩
    · exact hne (h.alone j i phase before hphase hbefore hclaim hold)
    · rcases hclaim with ⟨row, rfl⟩ | hspent
      · exact hapart hbefore j row hphase
      · exact hunused (h.used j phase hphase hspent)
  refine ⟨?_, ?_, ?_⟩
  · intro j row hrow
    by_cases hj : j = i
    · subst hj
      rw [hself _ hrow] at hadvanced
      exact hadvanced.named
    · exact h.named j row (hother j _ hj hrow)
  · intro j phase hphase hspent
    by_cases hj : j = i
    · subst hj
      rw [hself _ hphase] at hadvanced
      rcases hadvanced.spent hspent with hold | ⟨row, rfl, hk⟩
      · exact hkeeps (h.used j before hbefore hold)
      · change Used db.refreshTokens token
        rw [hk, h.named j row hbefore]
        exact used_revoked _ token
    · exact hkeeps (h.used j phase (hother j _ hj hphase) hspent)
  · intro j j' phase phase' hphase hphase' hclaim hclaim'
    by_cases hj : j = i
    · by_cases hj' : j' = i
      · rw [hj, hj']
      · subst hj
        exact absurd hclaim'
          (hmoved phase (hself _ hphase) hclaim j' phase' hj' (hother j' _ hj' hphase'))
    · by_cases hj' : j' = i
      · subst hj'
        exact absurd hclaim
          (hmoved phase' (hself _ hphase') hclaim' j phase hj (hother j _ hj hphase))
      · exact h.alone j j' phase phase' (hother j _ hj hphase) (hother j' _ hj' hphase') hclaim
          hclaim'

theorem Runs.exclusive (h : Runs settings call token Apart s₀ s)
    (hfresh : ∀ i userId,
      createRefreshToken settings (call i).issuedAt userId none (call i).jti ≠ token)
    (hstart : Exclusive token s₀) : Exclusive token s := by
  induction h with
  | refl => exact hstart
  | tail _ hstep ih =>
    obtain ⟨i, hapart, hmove⟩ := hstep
    exact ih.step hapart hfresh hmove

theorem refresh_single_use (hstart : ∀ i, s₀.phase i = .ok .reading)
    (hfresh : ∀ i userId,
      createRefreshToken settings (call i).issuedAt userId none (call i).jti ≠ token)
    (hrun : Runs settings call token Apart s₀ s) {i j : ι} {response response' : TokenResponse Token}
    (hi : s.phase i = .ok (.done response)) (hj : s.phase j = .ok (.done response')) : i = j := by
  have hexclusive := Runs.exclusive hrun hfresh (exclusive_of_reading hstart)
  exact hexclusive.alone i j _ _ hi hj (Or.inr (.done response)) (Or.inr (.done response'))

/-- A call that is left to itself goes through its phases. -/
theorem runs_of_finish {allowed : Race ι Token → ι → Prop} {i : ι} {n : ℕ} {phase : Phase Token}
    {response : TokenResponse Token} {db : Db} {es : List Event}
    (hallowed : ∀ db r, allowed ⟨db, Function.update s.phase i r⟩ i)
    (hphase : s.phase i = .ok phase)
    (hrun : finish settings (call i) token n phase s.db = (.ok response, db, es)) :
    Runs settings call token allowed s ⟨db, Function.update s.phase i (.ok (.done response))⟩ := by
  induction n generalizing s phase es with
  | zero =>
    cases phase with
    | done response' =>
      cases hrun
      rw [← hphase, Function.update_eq_self]
    | reading | reused | expired | usable | revoked | loaded | minted => cases hrun
  | succ n ih =>
    rw [finish] at hrun
    rcases Action.bind_run hrun with ⟨e, _, herr⟩ | ⟨next, db₁, es₁, es₂, hnext, hrest, _⟩
    · cases herr
    · have hfirst : allowed s i := by
        have hself := hallowed s.db (s.phase i)
        rwa [Function.update_eq_self] at hself
      have hlater := ih (s := ⟨db₁, Function.update s.phase i (.ok next)⟩)
        (fun db r => by
          rw [Function.update_idem]
          exact hallowed db r)
        (Function.update_self ..) hrest
      rw [Function.update_idem] at hlater
      exact .head ⟨i, hfirst, phase, .ok next, db₁, es₁, hphase, hnext, rfl⟩ hlater

theorem step_read {i : ι} {row : RefreshToken} (hphase : s.phase i = .ok .reading)
    (hrow : s.db.refreshTokens.get token = some row) : Step settings call token i s
      ⟨s.db, Function.update s.phase i (.ok (checked (call i) row))⟩ := by
  refine ⟨.reading, _, s.db, [], hphase, ?_, rfl⟩
  rw [advance, query, Action.read_bind_apply, RefreshTokenRepository.getByToken, hrow]
  rfl

/-- Before any call has begun, each of them can return, apart from the others. -/
theorem one_returns {i : ι} {new : String} (hreading : ∀ j, s.phase j = .ok .reading)
    (hnew : (finish settings (call i) token 5 .reading s.db).1.toOption.map
      TokenResponse.refreshToken = some new) :
    ∃ s' response, Runs settings call token Apart s s' ∧ s'.phase i = .ok (.done response) := by
  obtain ⟨response, hrun, _⟩ := run_of_token hnew
  refine ⟨_, response, runs_of_finish ?_ (hreading i) hrun, Function.update_self ..⟩
  intro db r hbefore j row husable
  by_cases hj : j = i
  · rw [hj, hbefore] at husable
    cases husable
  · have hphase := (Function.update_of_ne hj r s.phase).symm.trans husable
    rw [hreading j] at hphase
    cases hphase

/-- Two calls can both read the row before either revokes it. -/
theorem both_read {i j : ι} (hij : i ≠ j) {row : RefreshToken}
    (hreading : s.phase i = .ok .reading) (hreading' : s.phase j = .ok .reading)
    (hrow : s.db.refreshTokens.get token = some row)
    (hi : checked (call i) row = (.usable row : Phase Token))
    (hj : checked (call j) row = (.usable row : Phase Token)) :
    ∃ s', Runs settings call token (fun _ _ => True) s s' ∧ s'.db = s.db ∧
      s'.phase i = .ok (.usable row) ∧ s'.phase j = .ok (.usable row) := by
  have hread : Step settings call token i s _ := step_read hreading hrow
  have hread' : Step settings call token j
      ⟨s.db, Function.update s.phase i (.ok (checked (call i) row))⟩ _ :=
    step_read ((Function.update_of_ne hij.symm _ _).trans hreading') hrow
  refine ⟨_, .tail (.single ⟨i, trivial, hread⟩) ⟨j, trivial, hread'⟩, rfl, ?_, ?_⟩
  · rw [← hi]
    exact (Function.update_of_ne hij _ _).trans (Function.update_self ..)
  · rw [← hj]
    exact Function.update_self ..

/-- Then both can return. -/
theorem both_return {i j : ι} (hij : i ≠ j) {db₁ : Db} {row : RefreshToken} {new new' : String}
    (hi : s.phase i = .ok (.usable row)) (hj : s.phase j = .ok (.usable row))
    (hnew : (finish settings (call i) token 4 (.usable row) s.db).1.toOption.map
      TokenResponse.refreshToken = some new)
    (hdb : (finish settings (call i) token 4 (.usable row) s.db).2.1 = db₁)
    (hnew' : (finish settings (call j) token 4 (.usable row) db₁).1.toOption.map
      TokenResponse.refreshToken = some new') :
    ∃ s' response response', Runs settings call token (fun _ _ => True) s s' ∧
      s'.phase i = .ok (.done response) ∧ s'.phase j = .ok (.done response') := by
  obtain ⟨response, hrun, _⟩ := run_of_token hnew
  obtain ⟨response', hrun', _⟩ := run_of_token hnew'
  rw [hdb] at hrun
  have hfirst : Runs settings call token (fun _ _ => True) s _ :=
    runs_of_finish (fun _ _ => trivial) hi hrun
  have hj' : Function.update s.phase i (.ok (.done response)) j = .ok (.usable row) := by
    rw [Function.update_of_ne hij.symm, hj]
  have hsecond : Runs settings call token (fun _ _ => True)
      ⟨db₁, Function.update s.phase i (.ok (.done response))⟩ _ :=
    runs_of_finish (fun _ _ => trivial) hj' hrun'
  refine ⟨_, response, response', hfirst.trans hsecond, ?_, Function.update_self ..⟩
  exact (Function.update_of_ne hij _ _).trans (Function.update_self ..)

/-! Two calls present `rt.first`: one after the other, or both before the row is
revoked. -/

def twoCalls (i : Bool) : RefreshCall := ⟨0, 0, 0, 0, if i then "third" else "second"⟩

def bothReading : Race Bool TokenPayload := ⟨signedIn, fun _ => .ok .reading⟩

theorem twoCalls_fresh (i : Bool) (userId : Uuid) :
    createRefreshToken plainSettings (twoCalls i).issuedAt userId none (twoCalls i).jti ≠
      "rt.first" := by
  cases i <;> simp [createRefreshToken, plainSettings, twoCalls]

theorem finish_second : (finish plainSettings (twoCalls false) "rt.first" 5 .reading
    bothReading.db).1.toOption.map TokenResponse.refreshToken = some "rt.second" := by
  decide +kernel

/-- The second call has not even begun. -/
theorem refresh_single_use_second : ∃ s response, Runs plainSettings twoCalls "rt.first" Apart
    bothReading s ∧ s.phase false = .ok (.done response) ∧
    ∀ i response', s.phase i = .ok (.done response') → i = false := by
  obtain ⟨s, response, hrun, hdone⟩ := one_returns (i := false) (fun _ => rfl) finish_second
  refine ⟨s, response, hrun, hdone, ?_⟩
  intro i response' hdone'
  exact refresh_single_use (fun _ => rfl) twoCalls_fresh hrun hdone' hdone

theorem bothReading_row : bothReading.db.refreshTokens.get "rt.first" = some firstRow := by
  decide +kernel

theorem first_usable (i : Bool) :
    checked (twoCalls i) firstRow = (.usable firstRow : Phase TokenPayload) := by
  cases i <;> rfl

/-- The tables after the first of the two calls has returned. -/
def raced : Db :=
  (finish plainSettings (twoCalls false) "rt.first" 4 (.usable firstRow) bothReading.db).2.1

theorem raced_db : (finish plainSettings (twoCalls false) "rt.first" 4 (.usable firstRow)
    bothReading.db).2.1 = raced := rfl

theorem raced_second : (finish plainSettings (twoCalls false) "rt.first" 4 (.usable firstRow)
    bothReading.db).1.toOption.map TokenResponse.refreshToken = some "rt.second" := by
  decide +kernel

theorem raced_third : (finish plainSettings (twoCalls true) "rt.first" 4 (.usable firstRow)
    raced).1.toOption.map TokenResponse.refreshToken = some "rt.third" := by
  decide +kernel

theorem refresh_used_twice : (∀ i, bothReading.phase i = .ok .reading) ∧
    (∀ i userId, createRefreshToken plainSettings (twoCalls i).issuedAt userId none
      (twoCalls i).jti ≠ "rt.first") ∧
    ∃ s response response', Runs plainSettings twoCalls "rt.first" (fun _ _ => True) bothReading s ∧
      s.phase false = .ok (.done response) ∧ s.phase true = .ok (.done response') := by
  refine ⟨fun _ => rfl, twoCalls_fresh, ?_⟩
  have hread : ∃ s, Runs plainSettings twoCalls "rt.first" (fun _ _ => True) bothReading s ∧
      s.db = bothReading.db ∧ s.phase false = .ok (.usable firstRow) ∧
      s.phase true = .ok (.usable firstRow) :=
    both_read Bool.false_ne_true rfl rfl bothReading_row (first_usable false) (first_usable true)
  obtain ⟨s, hreads, hdb, hi, hj⟩ := hread
  have hsecond := raced_second
  have hraced := raced_db
  rw [← hdb] at hsecond hraced
  obtain ⟨s', response, response', hreturns, hdone, hdone'⟩ :=
    both_return Bool.false_ne_true hi hj hsecond hraced raced_third
  exact ⟨s', response, response', hreads.trans hreturns, hdone, hdone'⟩

end Race
end FastapiTemplate
