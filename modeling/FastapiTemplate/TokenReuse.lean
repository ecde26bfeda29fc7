import FastapiTemplate.Lineage

/-!
Presenting a token that was exchanged. The refresh that exchanged it left its
row behind, revoked, so that the reuse shows; only a logout of the token, a
breach of its user and a cleanup delete the row, and the cleanup deletes it
although it has not expired.
-/
namespace FastapiTemplate

open Library.KeyedTable

namespace Sessions

variable {Token : Type} {settings : AuthSettings Token} {s s₁ s₂ : Sessions}

/-- The row of an exchanged token: there and revoked, or gone after a cleanup. -/
structure Spent (token : String) (userId : Uuid) (k : Table RefreshToken.token)
    (later : List Entry) : Prop where
  kept : .cleanup ∉ later → ∃ row, k.get token = some row ∧ row.isRevoked = true ∧
    row.userId = userId
  gone : .cleanup ∈ later → k.get token = none

section Preservation

variable {clock : ℤ} {k k' : Table RefreshToken.token} {history later entries : List Entry}
  {token : String} {userId : Uuid} {parent : Option String} {row : RefreshToken}

/-- Without a cleanup, the revoked row stays. -/
theorem Effect.keeps_revoked (he : Effect clock k k' history entries)
    (hcleanup : .cleanup ∉ entries) (hlogout : .logout token ∉ entries)
    (hbreach : .breach row.userId ∉ entries) (hrow : k.get token = some row)
    (hrevoked : row.isRevoked = true) :
    k'.get token = some row := by
  cases he with
  | issue new owner expiresAt hfresh hinsert => exact Table.get_insert?_of_get hinsert hrow
  | rotate old _ new expiresAt _ _ _ _ hinsert =>
    refine Table.get_insert?_of_get hinsert ?_
    rw [revoked, Table.get_update, hrow, Option.map_some, ← hrevoked, ite_self]
  | revoke old hk =>
    rw [hk, revoked, Table.get_update, hrow, Option.map_some, ← hrevoked, ite_self]
  | delete p _ _ hdeleted _ _ hk =>
    rw [hk, Table.get_delete, hrow, Option.filter_eq_some_iff]
    refine ⟨rfl, ?_⟩
    by_contra hp
    have hcause := hdeleted row (Table.mem_of_get hrow) (by simpa using hp)
    rw [Table.key_of_get hrow, hrevoked] at hcause
    simp [hcleanup, hlogout, hbreach] at hcause

/-- A cleanup deletes the rows that are revoked. -/
theorem Effect.cleans_revoked (he : Effect clock k k' history entries)
    (hcleanup : .cleanup ∈ entries) (hrow : k.get token = some row)
    (hrevoked : row.isRevoked = true) : k'.get token = none := by
  cases he with
  | issue new owner expiresAt hfresh hinsert => simp at hcleanup
  | rotate old _ new expiresAt _ _ _ _ hinsert => simp at hcleanup
  | revoke old hk => simp at hcleanup
  | delete p _ _ _ _ hcleaned hk =>
    rw [hk, Table.get_delete, hrow, Option.filter_some,
      hcleaned hcleanup row (Table.mem_of_get hrow) hrevoked]
    rfl

theorem Effect.spent (he : Effect clock k k' history entries)
    (hissued : .issued token userId parent ∈ history) (hlogout : .logout token ∉ entries)
    (hbreach : .breach userId ∉ entries) (h : Spent token userId k later) :
    Spent token userId k' (later ++ entries) := by
  by_cases hlater : .cleanup ∈ later
  · have hgone := he.absent hissued (h.gone hlater)
    refine ⟨?_, fun _ => hgone⟩
    intro hno
    exact absurd (List.mem_append_left _ hlater) hno
  · obtain ⟨row, hrow, hrevoked, rfl⟩ := h.kept hlater
    refine ⟨?_, ?_⟩
    · intro hno
      have hcleanup : .cleanup ∉ entries := fun hmem => hno (List.mem_append_right _ hmem)
      exact ⟨row, he.keeps_revoked hcleanup hlogout hbreach hrow hrevoked, hrevoked, rfl⟩
    · intro hmem
      have hcleanup := (List.mem_append.mp hmem).resolve_left hlater
      exact he.cleans_revoked hcleanup hrow hrevoked

end Preservation

/-- A run without logouts of the token and breaches of its user. -/
theorem Steps.spent (h : Steps settings s₁ s₂) {token : String} {userId : Uuid}
    {parent : Option String} (hissued : .issued token userId parent ∈ s₁.history)
    (hspent : Spent token userId s₁.db.refreshTokens []) :
    ∃ later, s₂.history = s₁.history ++ later ∧
      (.logout token ∉ later → .breach userId ∉ later →
        Spent token userId s₂.db.refreshTokens later) := by
  induction h with
  | refl => exact ⟨[], by simp, fun _ _ => hspent⟩
  | @tail s s' hsteps hstep ih =>
    obtain ⟨later, hlater, ih⟩ := ih
    obtain ⟨entries, hentries, heffect, _⟩ := hstep.effect
    refine ⟨later ++ entries, by rw [hentries, hlater, List.append_assoc], ?_⟩
    intro hlogout hbreach
    rw [List.mem_append, not_or] at hlogout hbreach
    exact heffect.spent ((Steps.history_prefix hsteps).subset hissued) hlogout.2 hbreach.2
      (ih hlogout.1 hbreach.1)

/-- An exchanged token is spent. -/
theorem spent_of_refresh {db : Db} {token jti : String}
    {checkedAt mintedAt issuedAt expiresFrom : ℤ} {response : TokenResponse Token}
    {es : List Event} {row : RefreshToken} (hrow : s.db.refreshTokens.get token = some row)
    (hrun : Refresh.refresh settings checkedAt mintedAt issuedAt expiresFrom jti token s.db =
      (.ok response, db, es)) : Spent token row.userId db.refreshTokens [] := by
  refine ⟨?_, by simp⟩
  intro _
  cases Refresh.refresh_outcome hrun with
  | rotated row' _ expiresAt k hrow' _ _ hinsert ht =>
    obtain rfl : row = row' := Option.some.inj (hrow.symm.trans hrow')
    have htokens : db.refreshTokens = k := by rw [ht]; rfl
    refine ⟨{ row with isRevoked := true }, ?_, rfl, rfl⟩
    rw [htokens]
    refine Table.get_insert?_of_get hinsert ?_
    rw [revoked, Table.get_update, hrow, Option.map_some, if_pos]
    simpa using Table.key_of_get hrow

/-- Presenting `token` raises the breach and leaves no row of the user. -/
def Detects (settings : AuthSettings Token) (db : Db) (token : String) (userId : Uuid)
    (checkedAt mintedAt issuedAt expiresFrom : ℤ) (jti : String) : Prop :=
  let run := Refresh.refresh settings checkedAt mintedAt issuedAt expiresFrom jti token db
  (∃ db' es, run = (.error breach, db', es)) ∧
    ∀ row ∈ run.2.1.refreshTokens.rows, row.userId ≠ userId

theorem detects_iff {db : Db} {token jti : String} {userId : Uuid}
    {checkedAt mintedAt issuedAt expiresFrom : ℤ} {later : List Entry}
    (hspent : Spent token userId db.refreshTokens later) :
    Detects settings db token userId checkedAt mintedAt issuedAt expiresFrom jti ↔
      .cleanup ∉ later := by
  unfold Detects
  rcases hrun : Refresh.refresh settings checkedAt mintedAt issuedAt expiresFrom jti token db with
    ⟨r, db', es⟩
  have houtcome := Refresh.refresh_outcome hrun
  constructor
  · rintro ⟨⟨_, _, hresult⟩, _⟩ hcleanup
    cases hresult
    have hgone := hspent.gone hcleanup
    cases houtcome with
    | reused row hrow =>
      rw [hgone] at hrow
      cases hrow
    | failed row e hrow _ _ hne => exact hne rfl
  · intro hcleanup
    obtain ⟨row, hrow, hrevoked, rfl⟩ := hspent.kept hcleanup
    cases houtcome with
    | reused row' hrow' _ ht =>
      obtain rfl : row = row' := Option.some.inj (hrow.symm.trans hrow')
      refine ⟨⟨db', es, rfl⟩, ?_⟩
      intro k hk
      have htokens : db'.refreshTokens =
          db.refreshTokens.delete (fun k => k.userId = row.userId) := by rw [ht]; rfl
      rw [htokens] at hk
      simpa using (List.mem_filter.mp hk).2
    | unknown hnone =>
      rw [hrow] at hnone
      cases hnone
    | expired row' hrow' hlive | failed row' _ hrow' hlive | rotated row' _ _ _ hrow' hlive =>
      obtain rfl : row = row' := Option.some.inj (hrow.symm.trans hrow')
      rw [hrevoked] at hlive
      cases hlive

theorem reuse_detected_iff {s₀ : Sessions} (hinitial : s₀.Initial) (hrun : Steps settings s₀ s)
    {token jti : String} {row : RefreshToken} (hrow : s.db.refreshTokens.get token = some row)
    {checkedAt mintedAt issuedAt expiresFrom : ℤ} {response : TokenResponse Token} {db : Db}
    {es : List Event}
    (hexchange : Refresh.refresh settings checkedAt mintedAt issuedAt expiresFrom jti token s.db =
      (.ok response, db, es))
    (hlater : Steps settings
      (s.next db expiresFrom (refreshEntries s.db db token (.ok response))) s₂)
    {later : List Entry} (hhistory : s₂.history =
      s.history ++ refreshEntries s.db db token (.ok response) ++ later)
    (hlogout : .logout token ∉ later) (hbreach : .breach row.userId ∉ later)
    (checkedAt' mintedAt' issuedAt' expiresFrom' : ℤ) (jti' : String) :
    Detects settings s₂.db token row.userId checkedAt' mintedAt' issuedAt' expiresFrom' jti' ↔
      .cleanup ∉ later := by
  have hlinear := Steps.linear hinitial hrun
  obtain ⟨parent, hissued⟩ := hlinear.recorded row (Table.mem_of_get hrow)
  rw [Table.key_of_get hrow] at hissued
  have hissued' : .issued token row.userId parent ∈
      (s.next db expiresFrom (refreshEntries s.db db token (.ok response))).history :=
    List.mem_append_left _ hissued
  obtain ⟨entries, hentries, hspent⟩ :=
    Steps.spent hlater hissued' (spent_of_refresh hrow hexchange)
  obtain rfl : later = entries := List.append_cancel_left (hhistory.symm.trans hentries)
  exact detects_iff (hspent hlogout hbreach)

/-! The revoked row of `first` is cleaned up, and its reuse goes unnoticed. -/

def cleaned : Db := (cleanupExpiredTokens 0 exchanged).2.1

def afterCleanup : Sessions :=
  ⟨cleaned, 0, [.issued "rt.first" 2 none, .issued "rt.second" 2 (some "rt.first"), .cleanup]⟩

theorem Step.of_cleanup {db db' : Db} {clock : ℤ} {history : List Entry}
    (hdb : (cleanupExpiredTokens clock db).2.1 = db') :
    Step settings ⟨db, clock, history⟩ ⟨db', clock, history ++ [.cleanup]⟩ := by
  obtain rfl := hdb
  exact Step.cleanup (s := ⟨db, clock, history⟩) clock (le_refl _) rfl

theorem step_cleanup : Step plainSettings afterRefresh afterCleanup := Step.of_cleanup rfl

theorem first_row : afterLogin.db.refreshTokens.get "rt.first" = some firstRow := by
  rw [afterLogin_db]
  exact signedIn_first

theorem first_cleaned : afterCleanup.db.refreshTokens.get "rt.first" = none := by
  decide +kernel

theorem exchange_first : ∃ response es, Refresh.refresh plainSettings 0 0 0 0 "second" "rt.first"
    afterLogin.db = (.ok response, exchanged, es) := by
  rcases hrun : Refresh.refresh plainSettings 0 0 0 0 "second" "rt.first" signedIn with ⟨r, db, es⟩
  have htoken := refresh_second
  have hdb : exchanged = db := by rw [exchanged, hrun]
  rw [hrun] at htoken
  rw [hdb, afterLogin_db, hrun]
  cases r with
  | error e => cases htoken
  | ok response => exact ⟨response, es, rfl⟩

theorem reuse_detected_first : ∃ db, Detects plainSettings db "rt.first" 2 0 0 0 0 "third" := by
  obtain ⟨response, es, hexchange⟩ := exchange_first
  -- presented again at once
  have hreplay (s₀ s : Sessions) (row : RefreshToken) (db : Db) (hinitial : s₀.Initial)
      (hrun : Steps plainSettings s₀ s) (hrow : s.db.refreshTokens.get "rt.first" = some row)
      (hexchange : Refresh.refresh plainSettings 0 0 0 0 "second" "rt.first" s.db =
        (.ok response, db, es)) : Detects plainSettings db "rt.first" row.userId 0 0 0 0 "third" := by
    have hiff := reuse_detected_iff hinitial hrun hrow hexchange .refl (List.append_nil _).symm
      List.not_mem_nil List.not_mem_nil 0 0 0 0 "third"
    exact hiff.mpr List.not_mem_nil
  exact ⟨exchanged, hreplay start afterLogin _ exchanged start_initial (.single step_login)
    first_row hexchange⟩

theorem not_detects_of_absent {db : Db} {token jti : String} {userId : Uuid}
    {checkedAt mintedAt issuedAt expiresFrom : ℤ} (habsent : db.refreshTokens.get token = none) :
    ¬ Detects settings db token userId checkedAt mintedAt issuedAt expiresFrom jti := by
  rintro ⟨⟨db', es, hrun⟩, _⟩
  cases Refresh.refresh_outcome hrun with
  | reused row hrow =>
    rw [habsent] at hrow
    cases hrow
  | failed row e hrow =>
    rw [habsent] at hrow
    cases hrow

theorem cleanup_hides_reuse : start.Initial ∧ Steps plainSettings start afterLogin ∧
    afterLogin.db.refreshTokens.get "rt.first" = some firstRow ∧ 0 ≤ firstRow.expiresAt ∧
    (∃ response es, Refresh.refresh plainSettings 0 0 0 0 "second" "rt.first" afterLogin.db =
      (.ok response, exchanged, es)) ∧
    Steps plainSettings afterLogin afterCleanup ∧
    afterCleanup.history = afterRefresh.history ++ [.cleanup] ∧
    ¬ Detects plainSettings afterCleanup.db "rt.first" 2 0 0 0 0 "third" := by
  refine ⟨start_initial, .single step_login, first_row, by decide, exchange_first, ?_, rfl,
    not_detects_of_absent first_cleaned⟩
  exact .tail (.single step_refresh) step_cleanup

end Sessions
end FastapiTemplate
