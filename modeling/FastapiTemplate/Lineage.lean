import FastapiTemplate.Sessions

/-!
The lineages of refresh tokens. A token descends from the login that its chain
of exchanges starts with. The rows that descend from one login never hold two
tokens that are not revoked, and once a breach has deleted the rows of a user,
no token issued to that user before is accepted again.
-/
namespace FastapiTemplate

open Library.KeyedTable

/-- `token` was exchanged for, in any number of refreshes, from `root`. -/
inductive Descends (history : List Entry) (root : String) : String → Prop
  | root : Descends history root root
  | exchanged {parent token : String} {userId : Uuid} : Descends history root parent →
      .issued token userId (some parent) ∈ history → Descends history root token

namespace Sessions

variable {Token : Type} {settings : AuthSettings Token} {s₀ s s' : Sessions}

/-- The rows and the history fit together, and every lineage is linear. -/
structure Linear (k : Table RefreshToken.token) (history : List Entry) : Prop where
  recorded : ∀ row ∈ k.rows, ∃ parent, .issued row.token row.userId parent ∈ history
  parents : ∀ token userId parent, .issued token userId (some parent) ∈ history →
    ∃ userId' parent', .issued parent userId' parent' ∈ history
  owner : ∀ token userId userId' parent parent', .issued token userId parent ∈ history →
    .issued token userId' parent' ∈ history → userId = userId'
  linear : ∀ root, ∀ row ∈ k.rows, ∀ row' ∈ k.rows, row.isRevoked = false →
    row'.isRevoked = false → Descends history root row.token →
    Descends history root row'.token → row = row'

section Descent

variable {k k' : Table RefreshToken.token} {history entries : List Entry} {root token old : String}
  {userId : Uuid}

theorem descends_mono (h : Descends history root token) :
    Descends (history ++ entries) root token := by
  induction h with
  | root => exact .root
  | exchanged _ hmem ih => exact .exchanged ih (List.mem_append_left _ hmem)

/-- Only exchanges extend a lineage. -/
theorem descends_append (hentries : ∀ t u p, .issued t u (some p) ∉ entries) :
    Descends (history ++ entries) root token ↔ Descends history root token := by
  constructor
  · intro h
    induction h with
    | root => exact .root
    | exchanged _ hmem ih =>
      rcases List.mem_append.mp hmem with hold | hnew
      · exact .exchanged ih hold
      · exact absurd hnew (hentries _ _ _)
  · exact descends_mono

/-- Nothing descends from a string that was not issued but itself. -/
theorem Linear.eq_of_descends_fresh (h : Linear k history) (hfresh : Fresh history root)
    (hdescends : Descends history root token) : token = root := by
  induction hdescends with
  | root => rfl
  | exchanged _ hmem ih =>
    obtain ⟨_, _, hparent⟩ := h.parents _ _ _ hmem
    rw [ih] at hparent
    exact absurd hparent (hfresh _ _)

theorem eq_of_descends_of_fresh (hfresh : Fresh history token)
    (hdescends : Descends history root token) : token = root := by
  cases hdescends with
  | root => rfl
  | exchanged _ hmem => exact absurd hmem (hfresh _ _)

/-- An exchange puts the new token into the lineages of the old one. -/
theorem Linear.descends_exchange (h : Linear k history) (hfresh : Fresh history token)
    (hold : ∃ u p, .issued old u p ∈ history) {t : String} :
    Descends (history ++ [.issued token userId (some old)]) root t ↔
      Descends history root t ∨ (t = token ∧ Descends history root old) := by
  constructor
  · intro hdescends
    induction hdescends with
    | root => exact Or.inl .root
    | exchanged _ hmem ih =>
      rcases List.mem_append.mp hmem with hbefore | hnew
      · rcases ih with hparent | ⟨rfl, _⟩
        · exact Or.inl (.exchanged hparent hbefore)
        · obtain ⟨_, _, hissued⟩ := h.parents _ _ _ hbefore
          exact absurd hissued (hfresh _ _)
      · rw [List.mem_singleton, Entry.issued.injEq] at hnew
        obtain ⟨rfl, rfl, hparent⟩ := hnew
        obtain rfl := Option.some.inj hparent
        rcases ih with hparent | ⟨rfl, _⟩
        · exact Or.inr ⟨rfl, hparent⟩
        · obtain ⟨u, p, hissued⟩ := hold
          exact absurd hissued (hfresh _ _)
  · rintro (hdescends | ⟨rfl, hdescends⟩)
    · exact descends_mono hdescends
    · exact .exchanged (descends_mono hdescends)
        (List.mem_append_right _ (List.mem_singleton_self _))

/-- A token that is issued joins the lineages of its parent. -/
theorem Linear.descends_issue (h : Linear k history) {parent : Option String}
    (hfresh : Fresh history token)
    (hparent : ∀ old, parent = some old → ∃ u p, .issued old u p ∈ history) {t : String} :
    Descends (history ++ [.issued token userId parent]) root t ↔
      Descends history root t ∨
        (t = token ∧ ∃ old, parent = some old ∧ Descends history root old) := by
  cases parent with
  | none =>
    rw [descends_append (by simp)]
    simp
  | some old =>
    rw [h.descends_exchange hfresh (hparent old rfl)]
    simp

end Descent

section Preservation

variable {clock : ℤ} {k k' : Table RefreshToken.token} {history entries : List Entry}

/-- A row after a revocation: as it was, or the revoked row. -/
theorem mem_revoked {row : RefreshToken} {old : String} (hrow : row ∈ (revoked k old).rows) :
    (row ∈ k.rows ∧ row.token ≠ old) ∨
      (row.isRevoked = true ∧ ∃ before ∈ k.rows, before.token = row.token ∧
        before.userId = row.userId) := by
  obtain ⟨before, hbefore, rfl⟩ := List.mem_map.mp hrow
  by_cases htoken : before.token = old
  · rw [if_pos (by simpa using htoken)]
    exact Or.inr ⟨rfl, before, hbefore, rfl, rfl⟩
  · rw [if_neg (by simpa using htoken)]
    exact Or.inl ⟨hbefore, htoken⟩

/-- The rows that are not revoked are rows of `k`, and entries that issue
nothing leave the lineages alone. -/
theorem Linear.shrink (h : Linear k history)
    (hrows : ∀ row ∈ k'.rows, ∃ before ∈ k.rows, before.token = row.token ∧
      before.userId = row.userId ∧ (row.isRevoked = false → before = row))
    (hentries : ∀ t u p, .issued t u p ∉ entries) : Linear k' (history ++ entries) := by
  refine ⟨?_, ?_, ?_, ?_⟩
  · intro row hrow
    obtain ⟨before, hbefore, htoken, howner, _⟩ := hrows row hrow
    obtain ⟨parent, hissued⟩ := h.recorded before hbefore
    rw [htoken, howner] at hissued
    exact ⟨parent, List.mem_append_left _ hissued⟩
  · intro token userId parent hissued
    rcases List.mem_append.mp hissued with hold | hnew
    · obtain ⟨u, p, hparent⟩ := h.parents token userId parent hold
      exact ⟨u, p, List.mem_append_left _ hparent⟩
    · exact absurd hnew (hentries _ _ _)
  · intro token userId userId' parent parent' hissued hissued'
    have hold := (List.mem_append.mp hissued).resolve_right (hentries _ _ _)
    have hold' := (List.mem_append.mp hissued').resolve_right (hentries _ _ _)
    exact h.owner token userId userId' parent parent' hold hold'
  · intro root row hrow row' hrow' hrevoked hrevoked' hdescends hdescends'
    rw [descends_append (fun t u p => hentries t u (some p))] at hdescends hdescends'
    obtain ⟨before, hbefore, _, _, hsame⟩ := hrows row hrow
    obtain ⟨before', hbefore', _, _, hsame'⟩ := hrows row' hrow'
    obtain rfl := hsame hrevoked
    obtain rfl := hsame' hrevoked'
    exact h.linear root before hbefore before' hbefore' hrevoked hrevoked' hdescends hdescends'

theorem Linear.revoke (h : Linear k history) (old : String) : Linear (revoked k old) history := by
  have hshrink : Linear (revoked k old) (history ++ []) := by
    refine h.shrink ?_ (by simp)
    intro row hrow
    rcases mem_revoked hrow with ⟨hold, _⟩ | ⟨hrevoked, before, hbefore, htoken, howner⟩
    · exact ⟨row, hold, rfl, rfl, fun _ => rfl⟩
    · refine ⟨before, hbefore, htoken, howner, ?_⟩
      intro hfalse
      rw [hrevoked] at hfalse
      cases hfalse
  rwa [List.append_nil] at hshrink

/-- A new row joins the lineages of its parent, if none of their rows is live. -/
theorem Linear.insert (h : Linear k history) {token : String} {userId : Uuid} {expiresAt : ℤ}
    {parent : Option String} (hfresh : Fresh history token)
    (hinsert : k.insert? ⟨token, userId, expiresAt, false⟩ = some k')
    (hparent : ∀ old, parent = some old → (∃ u p, .issued old u p ∈ history) ∧
      ∀ root, Descends history root old → ∀ row ∈ k.rows, Descends history root row.token →
        row.isRevoked = true) :
    Linear k' (history ++ [.issued token userId parent]) := by
  have hknown : ∀ row ∈ k.rows, row.token ≠ token := by
    rintro row hrow rfl
    obtain ⟨p, hissued⟩ := h.recorded row hrow
    exact hfresh _ _ hissued
  have hdescends : ∀ root t, Descends (history ++ [.issued token userId parent]) root t ↔
      Descends history root t ∨
        (t = token ∧ ∃ old, parent = some old ∧ Descends history root old) :=
    fun root t => h.descends_issue hfresh (fun old hold => (hparent old hold).1)
  -- the new row is alone in its lineages
  have halone : ∀ root, ∀ row ∈ k.rows, row.isRevoked = false →
      Descends history root row.token →
      ¬ Descends (history ++ [.issued token userId parent]) root token := by
    intro root row hrow hrevoked hrowDescends htoken
    rcases (hdescends root token).mp htoken with hbefore | ⟨_, old, hold, holdDescends⟩
    · obtain rfl := eq_of_descends_of_fresh hfresh hbefore
      exact hknown row hrow (h.eq_of_descends_fresh hfresh hrowDescends)
    · have hdead := (hparent old hold).2 root holdDescends row hrow hrowDescends
      rw [hrevoked] at hdead
      cases hdead
  refine ⟨?_, ?_, ?_, ?_⟩
  · intro row hrow
    rcases (Table.mem_insert? hinsert).mp hrow with hold | rfl
    · obtain ⟨p, hissued⟩ := h.recorded row hold
      exact ⟨p, List.mem_append_left _ hissued⟩
    · exact ⟨parent, List.mem_append_right _ (List.mem_singleton_self _)⟩
  · intro t u p hissued
    have hbefore : ∃ u' p', .issued p u' p' ∈ history := by
      rcases List.mem_append.mp hissued with hold | hnew
      · exact h.parents t u p hold
      · rw [List.mem_singleton, Entry.issued.injEq] at hnew
        exact (hparent p hnew.2.2.symm).1
    obtain ⟨u', p', hmem⟩ := hbefore
    exact ⟨u', p', List.mem_append_left _ hmem⟩
  · intro t u u' p p' hissued hissued'
    rcases List.mem_append.mp hissued with hold | hnew
    · rcases List.mem_append.mp hissued' with hold' | hnew'
      · exact h.owner t u u' p p' hold hold'
      · rw [List.mem_singleton, Entry.issued.injEq] at hnew'
        rw [hnew'.1] at hold
        exact absurd hold (hfresh _ _)
    · rw [List.mem_singleton, Entry.issued.injEq] at hnew
      rcases List.mem_append.mp hissued' with hold' | hnew'
      · rw [hnew.1] at hold'
        exact absurd hold' (hfresh _ _)
      · rw [List.mem_singleton, Entry.issued.injEq] at hnew'
        rw [hnew.2.1, hnew'.2.1]
  · intro root row hrow row' hrow' hrevoked hrevoked' hd hd'
    have hbefore : ∀ x ∈ k.rows, Descends (history ++ [.issued token userId parent]) root
        x.token → Descends history root x.token :=
      fun x hx hxd => ((hdescends root x.token).mp hxd).resolve_right (fun hnew =>
        hknown x hx hnew.1)
    rcases (Table.mem_insert? hinsert).mp hrow with hold | rfl
    · rcases (Table.mem_insert? hinsert).mp hrow' with hold' | rfl
      · exact h.linear root row hold row' hold' hrevoked hrevoked' (hbefore row hold hd)
          (hbefore row' hold' hd')
      · exact absurd hd' (halone root row hold hrevoked (hbefore row hold hd))
    · rcases (Table.mem_insert? hinsert).mp hrow' with hold' | rfl
      · exact absurd hd (halone root row' hold' hrevoked' (hbefore row' hold' hd'))
      · rfl

theorem Effect.linear (he : Effect clock k k' history entries) (h : Linear k history) :
    Linear k' (history ++ entries) := by
  cases he with
  | issue token userId expiresAt hfresh hinsert => exact h.insert hfresh hinsert nofun
  | rotate old row token expiresAt hrow hrevoked _ hfresh hinsert =>
    refine (h.revoke old).insert hfresh hinsert ?_
    intro old' hsame
    obtain rfl := Option.some.inj hsame
    obtain rfl := Table.key_of_get hrow
    have hmem := Table.mem_of_get hrow
    obtain ⟨p, hissued⟩ := h.recorded row hmem
    refine ⟨⟨row.userId, p, hissued⟩, ?_⟩
    intro root hroot x hx hdescends
    rcases mem_revoked hx with ⟨hold, hne⟩ | ⟨hdead, _⟩
    · by_contra hlive
      rw [Bool.not_eq_true] at hlive
      have hsame := h.linear root x hold row hmem hlive hrevoked hdescends hroot
      exact hne (by rw [hsame])
    · exact hdead
  | revoke old hk =>
    rw [hk, List.append_nil]
    exact h.revoke old
  | delete p entries hissued _ _ _ hk =>
    rw [hk]
    refine h.shrink ?_ hissued
    intro row hrow
    exact ⟨row, Table.mem_delete hrow, rfl, rfl, fun _ => rfl⟩

/-- The row of a token that was issued and is gone does not come back. -/
theorem Effect.absent (he : Effect clock k k' history entries) {token : String} {userId : Uuid}
    {parent : Option String} (hissued : .issued token userId parent ∈ history)
    (habsent : k.get token = none) : k'.get token = none := by
  cases he with
  | issue new owner expiresAt hfresh hinsert =>
    rw [Table.get_insert? hinsert, if_neg, habsent]
    rintro rfl
    exact hfresh _ _ hissued
  | rotate old row new expiresAt _ _ _ hfresh hinsert =>
    rw [Table.get_insert? hinsert, if_neg, revoked, Table.get_update, habsent]
    · rfl
    · rintro rfl
      exact hfresh _ _ hissued
  | revoke old hk =>
    rw [hk, revoked, Table.get_update, habsent]
    rfl
  | delete p entries _ _ _ _ hk =>
    rw [hk, Table.get_delete, habsent]
    rfl

end Preservation

theorem Initial.linear (h : s.Initial) : Linear s.db.refreshTokens s.history := by
  constructor <;> simp [h.tokens, h.history]

theorem Linear.steps (hlinear : Linear s.db.refreshTokens s.history) (h : Steps settings s s') :
    Linear s'.db.refreshTokens s'.history := by
  induction h with
  | refl => exact hlinear
  | tail _ hstep ih =>
    obtain ⟨entries, hhistory, heffect, _⟩ := hstep.effect
    rw [hhistory]
    exact heffect.linear ih

theorem Steps.linear (hinitial : s₀.Initial) (h : Steps settings s₀ s) :
    Linear s.db.refreshTokens s.history :=
  hinitial.linear.steps h

theorem Steps.history_prefix (h : Steps settings s s') : s.history <+: s'.history := by
  induction h with
  | refl => exact List.prefix_rfl
  | tail _ hstep ih =>
    obtain ⟨entries, hhistory, _⟩ := hstep.effect
    rw [hhistory]
    exact ih.trans (List.prefix_append _ _)

theorem Steps.absent (h : Steps settings s s') {token : String} {userId : Uuid}
    {parent : Option String} (hissued : .issued token userId parent ∈ s.history)
    (habsent : s.db.refreshTokens.get token = none) : s'.db.refreshTokens.get token = none := by
  induction h with
  | refl => exact habsent
  | tail hsteps hstep ih =>
    obtain ⟨entries, _, heffect, _⟩ := hstep.effect
    exact heffect.absent ((Steps.history_prefix hsteps).subset hissued) ih

/-- A token without a row is not accepted. -/
theorem refresh_of_absent {db db' : Db} {token jti : String}
    {checkedAt mintedAt issuedAt expiresFrom : ℤ} {response : TokenResponse Token}
    {es : List Event} (habsent : db.refreshTokens.get token = none) :
    Refresh.refresh settings checkedAt mintedAt issuedAt expiresFrom jti token db ≠
      (.ok response, db', es) := by
  intro hrun
  cases Refresh.refresh_outcome hrun with
  | rotated row _ _ _ hrow =>
    rw [habsent] at hrow
    cases hrow

/-- A breach deletes the rows of its user. -/
theorem Step.absent_of_breach (h : Step settings s s') {userId : Uuid}
    (hbreach : s'.history = s.history ++ [.breach userId]) :
    ∀ row ∈ s'.db.refreshTokens.rows, row.userId ≠ userId := by
  obtain ⟨entries, hhistory, heffect, _⟩ := h.effect
  obtain rfl : [.breach userId] = entries := List.append_cancel_left (hbreach.symm.trans hhistory)
  cases heffect with
  | delete p _ _ _ hdeleted _ hk =>
    intro row hrow hsame
    rw [hk] at hrow
    obtain ⟨hmem, hkept⟩ := List.mem_filter.mp hrow
    rw [hdeleted userId (by simp) row hmem hsame] at hkept
    cases hkept

theorem lineage_linear_and_breach_final (hinitial : s₀.Initial) (hrun : Steps settings s₀ s) :
    (∀ root userId, .issued root userId none ∈ s.history →
      ∀ row ∈ s.db.refreshTokens.rows, ∀ row' ∈ s.db.refreshTokens.rows,
        row.isRevoked = false → row'.isRevoked = false → Descends s.history root row.token →
        Descends s.history root row'.token → row = row') ∧
      ∀ s₁ s₂ userId, Step settings s s₁ → s₁.history = s.history ++ [.breach userId] →
        Steps settings s₁ s₂ → ∀ token parent, .issued token userId parent ∈ s.history →
        ∀ checkedAt mintedAt issuedAt expiresFrom jti response db es,
          Refresh.refresh settings checkedAt mintedAt issuedAt expiresFrom jti token s₂.db ≠
            (.ok response, db, es) := by
  have hlinear := Steps.linear hinitial hrun
  refine ⟨fun root _ _ => hlinear.linear root, ?_⟩
  intro s₁ s₂ userId hstep hbreach hlater token parent hissued _ _ _ _ _ _ _ _
  have hissued₁ : .issued token userId parent ∈ s₁.history := by
    rw [hbreach]
    exact List.mem_append_left _ hissued
  have hlinear₁ := Steps.linear hinitial (hrun.tail hstep)
  have habsent : s₁.db.refreshTokens.get token = none := by
    rcases hrow : s₁.db.refreshTokens.get token with _ | row
    · rfl
    · obtain rfl := Table.key_of_get hrow
      have hmem := Table.mem_of_get hrow
      obtain ⟨p, hrecorded⟩ := hlinear₁.recorded row hmem
      have howner := hlinear₁.owner row.token _ _ _ _ hrecorded hissued₁
      exact absurd howner (hstep.absent_of_breach hbreach row hmem)
  exact refresh_of_absent (Steps.absent hlater hissued₁ habsent)

theorem steps_afterRefresh : Steps plainSettings start afterRefresh :=
  .tail (.single step_login) step_refresh

/-- Presenting a revoked token is a breach. -/
theorem Step.of_revoked {s : Sessions} {row : RefreshToken} {token : String} (jti : String)
    (hrow : s.db.refreshTokens.get token = some row) (hrevoked : row.isRevoked = true) :
    ∃ s', Step settings s s' ∧ s'.history = s.history ++ [.breach row.userId] := by
  rcases hrun : Refresh.refresh settings s.clock s.clock s.clock s.clock jti token s.db with
    ⟨r, db, es⟩
  cases Refresh.refresh_outcome hrun with
  | reused row' hrow' =>
    obtain rfl : row = row' := Option.some.inj (hrow.symm.trans hrow')
    refine ⟨_, .refresh s.clock s.clock s.clock s.clock jti token (le_refl _) (le_refl _)
      (le_refl _) (le_refl _) hrun nofun, ?_⟩
    simp [next, refreshEntries, hrow]
  | unknown hnone =>
    rw [hrow] at hnone
    cases hnone
  | expired row' hrow' hlive | failed row' _ hrow' hlive | rotated row' _ _ _ hrow' hlive =>
    obtain rfl : row = row' := Option.some.inj (hrow.symm.trans hrow')
    rw [hrevoked] at hlive
    cases hlive

theorem first_revoked : afterRefresh.db.refreshTokens.get "rt.first" =
    some ⟨"rt.first", 2, 7 * day, true⟩ := by
  decide +kernel

/-- In `afterRefresh`, and after `rt.first` is presented again. -/
theorem lineage_linear_afterRefresh : (∀ row ∈ afterRefresh.db.refreshTokens.rows,
    ∀ row' ∈ afterRefresh.db.refreshTokens.rows, row.isRevoked = false → row'.isRevoked = false →
    Descends afterRefresh.history "rt.first" row.token →
    Descends afterRefresh.history "rt.first" row'.token → row = row') ∧
    ∃ s, Step plainSettings afterRefresh s ∧ s.history = afterRefresh.history ++ [.breach 2] ∧
      ¬ ∃ response db es, Refresh.refresh plainSettings 0 0 0 0 "third" "rt.second" s.db =
        (.ok response, db, es) := by
  have hboth := lineage_linear_and_breach_final start_initial steps_afterRefresh
  have hsecond : .issued "rt.second" 2 (some "rt.first") ∈ afterRefresh.history := by
    simp [afterRefresh]
  refine ⟨hboth.1 "rt.first" 2 (by simp [afterRefresh]), ?_⟩
  obtain ⟨s, hstep, hbreach⟩ := Step.of_revoked "third" first_revoked rfl
  refine ⟨s, hstep, hbreach, ?_⟩
  rintro ⟨response, db, es, hrefresh⟩
  exact hboth.2 s s 2 hstep hbreach .refl "rt.second" _ hsecond 0 0 0 0 "third" response db es
    hrefresh

end Sessions
end FastapiTemplate
