import FastapiTemplate.Transactions
import FastapiTemplate.System
import Mathlib.Data.Fintype.Card

/-!
`perm_version` under concurrency. The increments of `RoleRepository` are
evaluated in the database under the lock of the row; `UserRepository` writes
the loaded version plus one. A value that is loaded before another bump commits
overwrites that bump, so the versions count the committed bumps in the runs
where no bump of the user commits between such a load and its write.
-/
namespace FastapiTemplate

open Library.KeyedTable Library.ReadCommitted

/-! ### What the points tell about a user -/

namespace Point

/-- The first point of a transaction that bumps versions. -/
def Starts : Point → Prop
  | loadRole _ => True
  | writeMember _ => True
  | loadUser _ => True
  | _ => False

/-- The transaction has committed, and has moved the version of the user. -/
def bumped (userId : Uuid) : Point → Bool
  | done users => userId ∈ users
  | _ => false

/-- The next statement commits a bump of the user. -/
def commitsBump (userId : Uuid) : Point → Bool
  | commitEdit _ _ holders => userId ∈ holders
  | commitMember m => userId = m.userId
  | commitGrant g _ => userId = g.userId
  | _ => false

/-- The user is loaded, to have a version written that is computed from the
loaded one, but not yet locked. -/
def betweenLoadAndWrite (userId : Uuid) : Point → Bool
  | loadDirect g _ => userId = g.userId
  | flushVersion g _ => userId = g.userId
  | _ => false

/-- The version of the user that a direct grant or revocation has loaded. -/
def loadedVersion (userId : Uuid) : Point → Option ℕ
  | loadDirect g user => if userId = g.userId then some user.permVersion else none
  | flushVersion g user => if userId = g.userId then some user.permVersion else none
  | flushGrant g user => if userId = g.userId then some user.permVersion else none
  | commitGrant g user => if userId = g.userId then some user.permVersion else none
  | _ => none

section Lemmas

variable {p : Point} {userId : Uuid} {v : ℕ}

theorem bumped_of_code (h : p.code ≠ .halt) : p.bumped userId = false := by
  cases p with
  | done users => exact absurd rfl h
  | _ => rfl

theorem bumped_select {next : Tables → Point} (h : p.code = .select next) (t : Tables) :
    (next t).bumped userId = false := by
  cases p with
  | loadRole e =>
    obtain rfl := Command.select.inj h
    dsimp only
    cases t.roles.get e.roleId <;> rfl
  | loadPermissions e role =>
    obtain rfl := Command.select.inj h
    unfold Edit.afterLoad
    dsimp only
    split
    · rfl
    · split <;> rfl
  | loadUser g =>
    obtain rfl := Command.select.inj h
    dsimp only
    cases t.users.get g.userId <;> rfl
  | loadDirect g user =>
    obtain rfl := Command.select.inj h
    dsimp only
    cases g.check (t.directPermissions user.id) <;> rfl
  | readRow readId =>
    obtain rfl := Command.select.inj h
    dsimp only
    cases t.users.get readId <;> rfl
  | _ =>
    cases h
    try rfl

theorem bumped_write {rows : Finset Row} {guard : Tables → Bool} {effect : Tables → Tables}
    {next : Point} (h : p.code = .write rows guard effect next) : next.bumped userId = false := by
  cases p <;> cases h <;> rfl

theorem bumped_commit {next : Point} (h : p.code = .commit next) :
    next.bumped userId = p.commitsBump userId := by
  cases p with
  | commitEdit e mask holders =>
    obtain rfl := Command.commit.inj h
    rfl
  | commitMember m =>
    obtain rfl := Command.commit.inj h
    simp [bumped, commitsBump]
  | commitGrant g user =>
    obtain rfl := Command.commit.inj h
    simp [bumped, commitsBump]
  | _ => cases h

/-- A loaded version was read from the tables when the user was loaded. -/
theorem loadedVersion_select {next : Tables → Point} (h : p.code = .select next) {t : Tables}
    (hloaded : (next (p.pending t)).loadedVersion userId = some v) :
    p.loadedVersion userId = some v ∨ t.versionOf userId = some v := by
  cases p with
  | loadRole e =>
    obtain rfl := Command.select.inj h
    dsimp only at hloaded
    cases hrole : (pending (.loadRole e) t).roles.get e.roleId <;> rw [hrole] at hloaded <;>
      cases hloaded
  | loadPermissions e role =>
    obtain rfl := Command.select.inj h
    unfold Edit.afterLoad at hloaded
    dsimp only at hloaded
    split at hloaded
    · cases hloaded
    · split at hloaded <;> cases hloaded
  | loadUser g =>
    obtain rfl := Command.select.inj h
    dsimp only at hloaded
    rcases hu : (pending (.loadUser g) t).users.get g.userId with _ | u
    · rw [hu] at hloaded
      cases hloaded
    · rw [hu] at hloaded
      change (if userId = g.userId then some u.permVersion else none) = some v at hloaded
      have hrow : t.users.get g.userId = some u := hu
      split at hloaded
      · rename_i hid
        right
        rw [Tables.versionOf, hid, hrow, Option.map_some, hloaded]
      · cases hloaded
  | loadDirect g user =>
    obtain rfl := Command.select.inj h
    dsimp only at hloaded
    split at hloaded
    · cases hloaded
    · exact Or.inl hloaded
  | readRow readId =>
    obtain rfl := Command.select.inj h
    dsimp only at hloaded
    split at hloaded <;> cases hloaded
  | _ => cases h <;> cases hloaded

theorem loadedVersion_write {rows : Finset Row} {guard : Tables → Bool}
    {effect : Tables → Tables} {next : Point} (h : p.code = .write rows guard effect next)
    (hloaded : next.loadedVersion userId = some v) : p.loadedVersion userId = some v := by
  cases p <;> cases h <;> exact hloaded

/-- With the version loaded, the row is locked or still to be written. -/
theorem held_of_loadedVersion (h : p.loadedVersion userId = some v)
    (hbetween : p.betweenLoadAndWrite userId = false) : Row.user userId ∈ p.held := by
  cases p with
  | loadDirect g user =>
    change (if userId = g.userId then some user.permVersion else none) = some v at h
    split at h
    · rename_i hid
      simp [betweenLoadAndWrite, hid] at hbetween
    · cases h
  | flushVersion g user =>
    change (if userId = g.userId then some user.permVersion else none) = some v at h
    split at h
    · rename_i hid
      simp [betweenLoadAndWrite, hid] at hbetween
    · cases h
  | flushGrant g user =>
    change (if userId = g.userId then some user.permVersion else none) = some v at h
    split at h
    · rename_i hid
      simp [held, hid]
    · cases h
  | commitGrant g user =>
    change (if userId = g.userId then some user.permVersion else none) = some v at h
    split at h
    · rename_i hid
      simp [held, hid]
    · cases h
  | _ => cases h

/-- Of the transactions that commit, only a direct grant has loaded a version. -/
theorem loadedVersion_commit {next : Point} (h : p.code = .commit next)
    (hloaded : p.loadedVersion userId = some v) :
    ∃ g user, p = .commitGrant g user ∧ g.userId = userId ∧ user.permVersion = v := by
  cases p with
  | commitGrant g user =>
    change (if userId = g.userId then some user.permVersion else none) = some v at hloaded
    split at hloaded
    · rename_i hid
      exact ⟨g, user, rfl, hid.symm, Option.some.inj hloaded⟩
    · cases hloaded
  | commitEdit e mask holders => cases hloaded
  | commitMember m => cases hloaded
  | _ => cases h

/-- A bump writes the loaded version plus one if one is loaded, and increments
the committed version if not. -/
theorem versionOf_commit {next : Point} (h : p.code = .commit next) {t : Tables}
    (hversion : t.versionOf userId = some v) :
    (p.pending t).versionOf userId =
      some (if p.commitsBump userId = true then (p.loadedVersion userId).getD v + 1 else v) := by
  cases p with
  | commitEdit e mask holders =>
    by_cases hmem : userId ∈ holders <;>
      simp [pending, commitsBump, loadedVersion, Tables.versionOf_bumped, hversion, hmem]
  | commitMember m =>
    by_cases hid : userId = m.userId
    · rw [hid] at hversion
      simp [pending, commitsBump, loadedVersion, Tables.versionOf_bumped, hversion, hid]
    · simp [pending, commitsBump, Tables.versionOf_bumped, hversion, hid]
  | commitGrant g user =>
    by_cases hid : userId = g.userId
    · rw [hid] at hversion
      simp [pending, commitsBump, loadedVersion, Grant.versionOf_setVersion, hversion, hid]
    · simp [pending, commitsBump, Grant.versionOf_setVersion, hversion, hid]
  | _ => cases h

end Lemmas

end Point

/-! ### Runs -/

section Runs

variable {ι : Type*} [DecidableEq ι] {s₀ s s' : Database ι} {i : ι} {userId : Uuid} {v v₀ : ℕ}

def Database.loadedVersion (userId : Uuid) (s : Database ι) (i : ι) : Option ℕ :=
  (s.point i).bind (Point.loadedVersion userId)

/-- How many committed transactions have bumped the user. -/
def Database.bumps [Fintype ι] (userId : Uuid) (s : Database ι) : ℕ :=
  (Finset.univ.filter (fun i => (s.point i).any (Point.bumped userId) = true)).card

/-- A direct grant or revocation that commits has written over the version that
it has loaded. -/
def Fresh (userId : Uuid) (s : Database ι) (i : ι) (s' : Database ι) : Prop :=
  ∀ g user, s.point i = some (.commitGrant g user) → g.userId = userId →
    (s'.point i).isSome = true → s.committed.versionOf userId = some user.permVersion

theorem Point.Starts.untouched {p : Point} (h : p.Starts) : p.pending = id ∧ p.held = ∅ := by
  cases p <;> first | exact ⟨rfl, rfl⟩ | cases h

omit [DecidableEq ι] in
theorem Database.Opens.fits (h : s₀.Opens Point.Starts) : Point.outline.Fits s₀ := by
  intro i x hx
  obtain ⟨p, hp, hpoint⟩ := h i
  rw [hpoint] at hx
  obtain rfl := Option.some.inj hx
  exact ⟨hp.untouched.1.symm, hp.untouched.2.symm⟩

omit [DecidableEq ι] in
theorem Database.Opens.exclusive (h : s₀.Opens Point.Starts) : s₀.Exclusive := by
  intro i j x y _ hx _
  obtain ⟨p, _, hpoint⟩ := h i
  rw [hpoint] at hx
  obtain rfl := Option.some.inj hx
  exact Finset.disjoint_empty_left _

omit [DecidableEq ι] in
theorem Database.Opens.point (h : s₀.Opens Point.Starts) (i : ι) :
    ∃ p, p.Starts ∧ s₀.point i = some p := by
  obtain ⟨p, hp, hpoint⟩ := h i
  exact ⟨p, hp, by rw [State.point, hpoint, Option.map_some]; rfl⟩

/-- A session that can step has not committed yet. -/
theorem Point.bumped_of_moves {c c' : Tables} {p : Point} {q : Option Point}
    (h : Point.outline.Moves c p c' q) (userId : Uuid) : p.bumped userId = false := by
  refine Point.bumped_of_code ?_
  intro hhalt
  cases h with
  | select hcode =>
    rw [hcode] at hhalt
    cases hhalt
  | write hcode _ =>
    rw [hcode] at hhalt
    cases hhalt
  | commit hcode =>
    rw [hcode] at hhalt
    cases hhalt
  | rollback hcode => exact hcode hhalt

theorem Database.bumps_of_point [Fintype ι] (hfits : Point.outline.Fits s)
    (h : Step Point.code s i s') (userId : Uuid) :
    s'.bumps userId =
      s.bumps userId + if (s'.point i).any (Point.bumped userId) = true then 1 else 0 := by
  obtain ⟨p, hp, hmoves⟩ := hfits.moves h
  have hbefore : ¬ (s.point i).any (Point.bumped userId) = true := by
    rw [hp, Option.any_some, Point.bumped_of_moves hmoves userId]
    exact Bool.false_ne_true
  have hothers : ∀ j, j ≠ i → s'.point j = s.point j := fun j hne => h.point_of_ne hne
  unfold Database.bumps
  by_cases hafter : (s'.point i).any (Point.bumped userId) = true
  · rw [if_pos hafter, ← Finset.card_insert_of_notMem
      (by simpa only [Finset.mem_filter, Finset.mem_univ, true_and] using hbefore)]
    congr 1
    ext j
    by_cases hj : j = i
    · simp [hj, hafter]
    · simp [hj, hothers j hj]
  · rw [if_neg hafter, Nat.add_zero]
    congr 1
    ext j
    by_cases hj : j = i
    · simp [hj, hafter, hbefore]
    · simp [hothers j hj]

/-- A step commits a bump of the user, or keeps the version and the count. -/
theorem Database.bumps_step [Fintype ι] (hfits : Point.outline.Fits s)
    (h : Step Point.code s i s') (hversion : s.committed.versionOf userId = some v) :
    (s'.committed.versionOf userId = some v ∧ s'.bumps userId = s.bumps userId) ∨
    (∃ p next, s.point i = some p ∧ p.code = .commit next ∧ p.commitsBump userId = true ∧
      s'.point i = some next ∧
      s'.committed.versionOf userId = some ((p.loadedVersion userId).getD v + 1) ∧
      s'.bumps userId = s.bumps userId + 1) := by
  have hcount := Database.bumps_of_point hfits h userId
  obtain ⟨p, hp, hmoves⟩ := hfits.moves h
  generalize s'.point i = q at hcount hmoves ⊢
  generalize s'.committed = c at hmoves ⊢
  cases hmoves with
  | select hcode =>
    left
    exact ⟨hversion, by simpa [Point.bumped_select hcode] using hcount⟩
  | write hcode _ =>
    left
    exact ⟨hversion, by simpa [Point.bumped_write hcode] using hcount⟩
  | @commit next hcode =>
    have hafter := Point.versionOf_commit (p := p) hcode hversion
    rw [Option.any_some, Point.bumped_commit hcode] at hcount
    by_cases hbump : p.commitsBump userId = true
    · rw [if_pos hbump] at hafter hcount
      exact Or.inr ⟨p, next, hp, hcode, hbump, rfl, hafter, hcount⟩
    · rw [if_neg hbump] at hafter hcount
      exact Or.inl ⟨hafter, hcount⟩
  | rollback _ =>
    left
    exact ⟨hversion, hcount⟩

/-- A version that is loaded after a step was loaded before, or is the one that
is committed. -/
theorem Database.loadedVersion_step {w : ℕ} {j : ι} (hfits : Point.outline.Fits s)
    (h : Step Point.code s i s') (hloaded : s'.loadedVersion userId j = some w) :
    s.loadedVersion userId j = some w ∨ s.committed.versionOf userId = some w := by
  unfold Database.loadedVersion at hloaded ⊢
  by_cases hj : j = i
  · subst hj
    obtain ⟨p, hp, hmoves⟩ := hfits.moves h
    rw [hp, Option.bind_some]
    generalize s'.point j = q at hloaded hmoves
    generalize s'.committed = c at hmoves
    cases hmoves with
    | select hcode => exact Point.loadedVersion_select hcode hloaded
    | write hcode _ => exact Or.inl (Point.loadedVersion_write hcode hloaded)
    | commit hcode =>
      cases p <;> cases hcode <;> cases hloaded
    | rollback _ => cases hloaded
  · rw [h.point_of_ne hj] at hloaded
    exact Or.inl hloaded

/-! ### Every committed bump counts -/

section Counted

variable [Fintype ι]

/-- Every committed bump has moved the version. -/
structure Counted (userId : Uuid) (v₀ : ℕ) (s : Database ι) : Prop where
  fits : Point.outline.Fits s
  version : s.committed.versionOf userId = some (v₀ + s.bumps userId)

/-- At least `lost` of the committed bumps have not moved the version, nor will
the loaded versions make up for them. -/
structure Behind (userId : Uuid) (v₀ lost : ℕ) (s : Database ι) : Prop where
  fits : Point.outline.Fits s
  version : ∃ v, s.committed.versionOf userId = some v ∧ v + lost ≤ v₀ + s.bumps userId
  loaded : ∀ i v, s.loadedVersion userId i = some v → v + lost ≤ v₀ + s.bumps userId

theorem Behind.step {lost : ℕ} (hs : Behind userId v₀ lost s) (h : Step Point.code s i s') :
    Behind userId v₀ lost s' := by
  obtain ⟨v, hversion, hle⟩ := hs.version
  have hcases := Database.bumps_step hs.fits h hversion
  refine ⟨hs.fits.step h, ?_, ?_⟩
  · rcases hcases with ⟨hafter, hcount⟩ | ⟨p, next, hp, _, _, _, hafter, hcount⟩
    · exact ⟨v, hafter, by omega⟩
    · refine ⟨_, hafter, ?_⟩
      have hbefore : (p.loadedVersion userId).getD v + lost ≤ v₀ + s.bumps userId := by
        rcases hloaded : p.loadedVersion userId with _ | w
        · exact hle
        · exact hs.loaded i w (by rw [Database.loadedVersion, hp, Option.bind_some, hloaded])
      omega
  · intro j w hw
    have hold : w + lost ≤ v₀ + s.bumps userId := by
      rcases Database.loadedVersion_step hs.fits h hw with hbefore | hnow
      · exact hs.loaded j w hbefore
      · rw [hversion] at hnow
        obtain rfl := Option.some.inj hnow
        exact hle
    rcases hcases with ⟨_, hcount⟩ | ⟨_, _, _, _, _, _, _, hcount⟩ <;> omega

theorem Counted.step (hs : Counted userId v₀ s) (h : Step Point.code s i s')
    (hfresh : Fresh userId s i s') :
    Counted userId v₀ s' ∧ s.bumps userId ≤ s'.bumps userId := by
  rcases Database.bumps_step hs.fits h hs.version with
    ⟨hafter, hcount⟩ | ⟨p, next, hp, hcode, _, hnext, hafter, hcount⟩
  · exact ⟨⟨hs.fits.step h, by rw [hcount, hafter]⟩, by omega⟩
  · have hcurrent : (p.loadedVersion userId).getD (v₀ + s.bumps userId) =
        v₀ + s.bumps userId := by
      rcases hloaded : p.loadedVersion userId with _ | w
      · rfl
      · obtain ⟨g, user, rfl, hid, rfl⟩ := Point.loadedVersion_commit hcode hloaded
        have hsame := hfresh g user hp hid (by rw [hnext]; rfl)
        rw [hs.version] at hsame
        exact (Option.some.inj hsame).symm
    rw [hcurrent] at hafter
    exact ⟨⟨hs.fits.step h, by rw [hcount, hafter, Nat.add_assoc]⟩, by omega⟩

omit [Fintype ι] in
theorem Database.point_commitGrant {g : Grant} {user : User} (hfits : Point.outline.Fits s)
    (h : Step Point.code s i s') (hp : s.point i = some (.commitGrant g user))
    (hcommit : (s'.point i).isSome = true) : s'.point i = some (.done {g.userId}) := by
  obtain ⟨p, hp', hmoves⟩ := hfits.moves h
  rw [hp] at hp'
  obtain rfl := Option.some.inj hp'
  generalize s'.point i = q at hmoves hcommit ⊢
  generalize s'.committed = c at hmoves
  cases hmoves with
  | select hcode => cases hcode
  | write hcode _ => cases hcode
  | commit hcode => cases hcode; rfl
  | rollback _ => cases hcommit

/-- The first direct grant that commits over another version than the one it has
loaded loses a bump. -/
theorem Counted.behind (hs : Counted userId v₀ s) (hbehind : Behind userId v₀ 0 s)
    (h : Step Point.code s i s') (hstale : ¬ Fresh userId s i s') : Behind userId v₀ 1 s' := by
  unfold Fresh at hstale
  push Not at hstale
  obtain ⟨g, user, hp, hid, hcommit, hother⟩ := hstale
  have hloaded : s.loadedVersion userId i = some user.permVersion := by
    rw [Database.loadedVersion, hp, Option.bind_some]
    exact if_pos hid.symm
  have hle := hbehind.loaded i _ hloaded
  have hne : v₀ + s.bumps userId ≠ user.permVersion := by
    intro heq
    exact hother (by rw [hs.version, heq])
  rcases Database.bumps_step hs.fits h hs.version with
    ⟨_, hcount⟩ | ⟨p, next, hp', hcode, _, _, hversion, hcount⟩
  · have hpoint := Database.bumps_of_point hs.fits h userId
    rw [Database.point_commitGrant hs.fits h hp hcommit, Option.any_some] at hpoint
    simp [Point.bumped, hid] at hpoint
    omega
  · rw [hp] at hp'
    obtain rfl := Option.some.inj hp'
    have hvalue : (Point.loadedVersion userId (.commitGrant g user)).getD
        (v₀ + s.bumps userId) = user.permVersion := by
      simp [Point.loadedVersion, hid]
    rw [hvalue] at hversion
    refine ⟨hs.fits.step h, ⟨_, hversion, by omega⟩, ?_⟩
    intro j w hw
    have hold : w ≤ v₀ + s.bumps userId := by
      rcases Database.loadedVersion_step hs.fits h hw with hbefore | hnow
      · exact hbehind.loaded j w hbefore
      · rw [hs.version] at hnow
        exact (Option.some.inj hnow).symm.le
    omega

omit [DecidableEq ι] in
theorem Database.Opens.bumps (h : s₀.Opens Point.Starts) (userId : Uuid) :
    s₀.bumps userId = 0 := by
  rw [Database.bumps, Finset.card_eq_zero, Finset.filter_eq_empty_iff]
  intro i _
  obtain ⟨p, hstarts, hp⟩ := h.point i
  rw [hp, Option.any_some]
  cases p <;> first | exact Bool.false_ne_true | cases hstarts

omit [DecidableEq ι] [Fintype ι] in
theorem Database.Opens.loadedVersion (h : s₀.Opens Point.Starts) (userId : Uuid) (i : ι) :
    s₀.loadedVersion userId i = none := by
  obtain ⟨p, hstarts, hp⟩ := h.point i
  rw [Database.loadedVersion, hp, Option.bind_some]
  cases p <;> first | rfl | cases hstarts

omit [DecidableEq ι] in
theorem Database.Opens.counted (h : s₀.Opens Point.Starts)
    (hversion : s₀.committed.versionOf userId = some v₀) :
    Counted userId v₀ s₀ ∧ Behind userId v₀ 0 s₀ := by
  refine ⟨⟨h.fits, by rw [h.bumps, hversion, Nat.add_zero]⟩, h.fits,
    ⟨v₀, hversion, by omega⟩, ?_⟩
  intro i v hloaded
  rw [h.loadedVersion] at hloaded
  cases hloaded

theorem Counted.steps (hs : Counted userId v₀ s) (h : Steps Point.code (Fresh userId) s s') :
    Counted userId v₀ s' ∧ s.bumps userId ≤ s'.bumps userId := by
  induction h with
  | refl => exact ⟨hs, le_refl _⟩
  | tail _ hlast ih =>
    obtain ⟨i, hfresh, hlast⟩ := hlast
    obtain ⟨hcounted, hle⟩ := ih.1.step hlast hfresh
    exact ⟨hcounted, ih.2.trans hle⟩

/-- Up to the first stale commit every bump counts, and after it one is missing
for good. -/
theorem fresh_or_behind (hopens : s₀.Opens Point.Starts)
    (hversion : s₀.committed.versionOf userId = some v₀)
    (hrun : Steps Point.code (fun _ _ _ => True) s₀ s) :
    (Steps Point.code (Fresh userId) s₀ s ∧ Counted userId v₀ s ∧ Behind userId v₀ 0 s) ∨
      Behind userId v₀ 1 s := by
  obtain ⟨hcounted₀, hbehind₀⟩ := hopens.counted hversion
  induction hrun with
  | refl => exact Or.inl ⟨.refl, hcounted₀, hbehind₀⟩
  | @tail s s' _ hlast ih =>
    obtain ⟨i, _, hlast⟩ := hlast
    rcases ih with ⟨hfreshes, hcounted, hbehind⟩ | hlost
    · by_cases hfresh : Fresh userId s i s'
      · exact Or.inl ⟨hfreshes.tail ⟨i, hfresh, hlast⟩, (hcounted.step hlast hfresh).1,
          hbehind.step hlast⟩
      · exact Or.inr (hcounted.behind hbehind hlast hfresh)
    · exact Or.inr (hlost.step hlast)

/-- No bump is lost exactly in the runs where a direct grant or revocation
commits only over the version that it has loaded; in these the version never
decreases. -/
theorem versions_count_iff (hopens : s₀.Opens Point.Starts)
    (hversion : s₀.committed.versionOf userId = some v₀)
    (hrun : Steps Point.code (fun _ _ _ => True) s₀ s) :
    (Steps Point.code (Fresh userId) s₀ s ↔
      s.committed.versionOf userId = some (v₀ + s.bumps userId)) ∧
    (Steps Point.code (Fresh userId) s₀ s → ∀ s', Steps Point.code (Fresh userId) s s' →
      ∃ v v', s.committed.versionOf userId = some v ∧ s'.committed.versionOf userId = some v' ∧
        v ≤ v') := by
  obtain ⟨hcounted₀, _⟩ := hopens.counted hversion
  refine ⟨⟨fun hfresh => (hcounted₀.steps hfresh).1.version, ?_⟩, ?_⟩
  · intro hcount
    rcases fresh_or_behind hopens hversion hrun with ⟨hfresh, _⟩ | hlost
    · exact hfresh
    · obtain ⟨v, hv, hle⟩ := hlost.version
      rw [hcount] at hv
      have hsame := Option.some.inj hv
      omega
  · intro hfresh s' hrest
    obtain ⟨hcounted, _⟩ := hcounted₀.steps hfresh
    obtain ⟨hcounted', hle⟩ := hcounted.steps hrest
    exact ⟨_, _, hcounted.version, hcounted'.version, Nat.add_le_add_left hle v₀⟩

/-- No bump of the user commits while another session has loaded the user and
has not locked the row yet. -/
def Calm (userId : Uuid) (s : Database ι) (i : ι) (_ : Database ι) : Prop :=
  ∀ p, s.point i = some p → p.commitsBump userId = true →
    ∀ j, j ≠ i → (s.point j).any (Point.betweenLoadAndWrite userId) = false

/-- Every loaded version is the one that is committed. -/
structure Current (userId : Uuid) (s : Database ι) : Prop where
  exclusive : s.Exclusive
  loaded : ∀ i v, s.loadedVersion userId i = some v → s.committed.versionOf userId = some v

/-- From the write on, the lock on the row keeps the version. -/
theorem Current.step (hs : Current userId s) (hcounted : Counted userId v₀ s)
    (h : Step Point.code s i s') (hcalm : Calm userId s i s') : Current userId s' := by
  refine ⟨h.exclusive hs.exclusive, ?_⟩
  intro j w hw
  have hbefore : s.committed.versionOf userId = some w :=
    (Database.loadedVersion_step hcounted.fits h hw).elim (hs.loaded j w) id
  rcases Database.bumps_step hcounted.fits h hbefore with
    ⟨hafter, _⟩ | ⟨p, next, hp, hcode, hbump, hnext, _⟩
  · exact hafter
  · by_cases hj : j = i
    · subst hj
      rw [Database.loadedVersion, hnext, Option.bind_some] at hw
      cases p <;> cases hcode <;> cases hw
    · obtain ⟨q, hq, hloaded⟩ := Option.bind_eq_some_iff.mp hw
      rw [h.point_of_ne hj] at hq
      obtain ⟨y, hy, rfl⟩ := Option.map_eq_some_iff.mp hq
      have hbetween := hcalm p hp hbump j hj
      rw [hq, Option.any_some] at hbetween
      have hheld : Row.user userId ∈ y.held := by
        rw [(hcounted.fits j y hy).2]
        exact Point.held_of_loadedVersion hloaded hbetween
      have hkept := h.held_row Point.locks_versions hcounted.fits hs.exclusive hj hy hheld
      change s'.committed.versionOf userId = s.committed.versionOf userId at hkept
      rw [hkept, hbefore]

/-- In a calm run no bump is lost. -/
theorem fresh_of_calm (hopens : s₀.Opens Point.Starts)
    (hversion : s₀.committed.versionOf userId = some v₀)
    (hrun : Steps Point.code (Calm userId) s₀ s) : Steps Point.code (Fresh userId) s₀ s := by
  obtain ⟨hcounted₀, _⟩ := hopens.counted hversion
  suffices h : Steps Point.code (Fresh userId) s₀ s ∧ Counted userId v₀ s ∧ Current userId s by
    exact h.1
  induction hrun with
  | refl =>
    refine ⟨.refl, hcounted₀, hopens.exclusive, ?_⟩
    intro i v hloaded
    rw [hopens.loadedVersion] at hloaded
    cases hloaded
  | @tail s s' _ hlast ih =>
    obtain ⟨i, hcalm, hlast⟩ := hlast
    obtain ⟨hfreshes, hcounted, hcurrent⟩ := ih
    have hfresh : Fresh userId s i s' := by
      intro g user hp hid _
      refine hcurrent.loaded i user.permVersion ?_
      rw [Database.loadedVersion, hp, Option.bind_some]
      exact if_pos hid.symm
    exact ⟨hfreshes.tail ⟨i, hfresh, hlast⟩, (hcounted.step hlast hfresh).1,
      hcurrent.step hcounted hlast hcalm⟩

end Counted

end Runs

/-! ### Two grants to one user -/

/-- Two requests grant ann the permissions 1 and 2. -/
def twoGrants : Database Bool where
  committed := joined.toTables
  sessions i := some (.start (.loadUser
    ⟨true, 2, if i then ⟨2, "role:read", some 1⟩ else ⟨1, "role:create", some 0⟩⟩))

theorem twoGrants_opens : twoGrants.Opens Point.Starts :=
  fun _ => ⟨.loadUser ⟨true, 2, _⟩, trivial, rfl⟩

/-- One after the other. -/
def grantsInTurn : List Bool := List.replicate 5 false ++ List.replicate 5 true

/-- Both load the user before either writes. -/
def grantsInterleaved : List Bool :=
  [false, false, true, true] ++ List.replicate 3 false ++ List.replicate 3 true

def isFresh (userId : Uuid) (s : Database Bool) (i : Bool) : Bool :=
  match s.point i with
  | some (.commitGrant g user) =>
    g.userId ≠ userId ∨ s.committed.versionOf userId = some user.permVersion
  | _ => true

theorem fresh_of_isFresh {userId : Uuid} {s s' : Database Bool} {i : Bool}
    (h : isFresh userId s i = true) : Fresh userId s i s' := by
  intro g user hp hid _
  unfold isFresh at h
  rw [hp] at h
  rcases of_decide_eq_true h with hne | hsame
  · exact absurd hid hne
  · exact hsame

theorem grants_in_turn_counted : ∃ s : Database Bool, Steps Point.code (Fresh 2) twoGrants s ∧
    s.bumps 2 = 2 ∧ s.committed.versionOf 2 = some (1 + s.bumps 2) := by
  have hrun : (schedule Point.code (isFresh 2) grantsInTurn twoGrants).any
      (fun s => Database.bumps 2 s = 2) = true := by decide +kernel
  obtain ⟨s, hs, hcount⟩ := steps_of_schedule_any hrun
  have hfresh : Steps Point.code (Fresh 2) twoGrants s :=
    hs.mono (fun _ _ _ => fresh_of_isFresh)
  have hall := hfresh.mono (fun _ _ _ _ => trivial)
  have hversion : twoGrants.committed.versionOf 2 = some 1 := by decide +kernel
  exact ⟨s, hfresh, of_decide_eq_true hcount,
    (versions_count_iff twoGrants_opens hversion hall).1.mp hfresh⟩

/-- Both grants commit, and the version has moved once. -/
theorem grants_lose_bump : ∃ s : Database Bool, Steps Point.code (fun _ _ _ => True) twoGrants s ∧
    (∀ i, (s.point i).any (Point.bumped 2) = true) ∧ s.bumps 2 = 2 ∧
    twoGrants.committed.versionOf 2 = some 1 ∧ s.committed.versionOf 2 = some 2 := by
  have hrun : (schedule Point.code (fun _ _ => true) grantsInterleaved twoGrants).any
      (fun s => (∀ i, (s.point i).any (Point.bumped 2) = true) ∧ Database.bumps 2 s = 2 ∧
        twoGrants.committed.versionOf 2 = some 1 ∧ s.committed.versionOf 2 = some 2) = true := by
    decide +kernel
  obtain ⟨s, hs, htest⟩ := steps_of_schedule_any hrun
  exact ⟨s, hs.mono (fun _ _ _ _ => trivial), of_decide_eq_true htest⟩

end FastapiTemplate
