import FastapiTemplate.MaskRace
import FastapiTemplate.MintSnapshot

/-!
An edit of a role, an assignment of the role and a mint for the assignee at the
same time. The edit bumps the holders that its subquery sees. An assignee that
it does not see, since the assignment has not committed, gets the new mask with
the version of the assignment alone: a mint that reads the roles after the
assignment and before the edit has the old mask with that version.
-/
namespace FastapiTemplate

open Library.KeyedTable Library.ReadCommitted

/-! ### The statements of an edit -/

/-- The holders that an edit has chosen to bump. -/
def Point.chosen : Point → Option (Finset Uuid)
  | bumpHolders _ _ holders => some holders
  | commitEdit _ _ holders => some holders
  | done holders => some holders
  | _ => none

/-- The points of an edit. -/
inductive Edit.Runs (e : Edit) : Point → Prop
  | loadRole : Runs e (.loadRole e)
  | loadPermissions (role : Role) : Runs e (.loadPermissions e role)
  | flushMask (mask : ℕ) : Runs e (.flushMask e mask)
  | flushLink (mask : Option ℕ) : Runs e (.flushLink e mask)
  | findHolders (mask : Option ℕ) : Runs e (.findHolders e mask)
  | bumpHolders (mask : Option ℕ) (holders : Finset Uuid) : Runs e (.bumpHolders e mask holders)
  | commitEdit (mask : Option ℕ) (holders : Finset Uuid) : Runs e (.commitEdit e mask holders)
  | ended {p : Point} : p.Over → Runs e p

/-- The edit goes on to another point without a commit. -/
structure Edit.Advances (e : Edit) (t : Tables) (p p' : Point) : Prop where
  runs : e.Runs p'
  fresh : p.chosen = none
  chosen : p'.chosen = none ∨ p'.chosen = some (t.holders e.roleId)
  open' : ∀ holders, p' ≠ .done holders

section Edit

variable {e : Edit} {t t' : Tables} {p : Point} {q : Option Point}

/-- An edit writes the role, its permissions and the versions of users. -/
theorem Edit.Runs.pending (h : e.Runs p) : (p.pending t).userRoles = t.userRoles ∧
    (p.pending t).permissions = t.permissions ∧
    (p.pending t).userPermissions = t.userPermissions := by
  cases h with
  | loadRole => exact ⟨rfl, rfl, rfl⟩
  | loadPermissions role => exact ⟨rfl, rfl, rfl⟩
  | flushMask mask => exact ⟨rfl, rfl, rfl⟩
  | flushLink mask => cases mask <;> exact ⟨rfl, rfl, rfl⟩
  | findHolders mask => cases mask <;> exact ⟨rfl, rfl, rfl⟩
  | bumpHolders mask holders => cases mask <;> exact ⟨rfl, rfl, rfl⟩
  | commitEdit mask holders => cases mask <;> exact ⟨rfl, rfl, rfl⟩
  | ended hover => cases hover <;> exact ⟨rfl, rfl, rfl⟩

theorem Edit.afterLoad_advances (e : Edit) (role : Role) (permissions : List Permission) :
    e.Advances t (.loadPermissions e role) (e.afterLoad role permissions) := by
  unfold Edit.afterLoad
  split
  · exact ⟨.ended (.raised _), rfl, Or.inl rfl, by simp⟩
  · split
    · exact ⟨.flushLink none, rfl, Or.inl rfl, by simp⟩
    · exact ⟨.flushMask _, rfl, Or.inl rfl, by simp⟩

/-- One step of an edit. -/
theorem Edit.Runs.moves (h : e.Runs p) (hmoves : Point.outline.Moves t p t' q) :
    (t' = t ∧ (q = none ∨ (∃ p', q = some p' ∧ e.Advances t p p') ∨
      ∃ mask holders, p = .bumpHolders e mask holders ∧
        q = some (.commitEdit e mask holders))) ∨
    ∃ mask holders, p = .commitEdit e mask holders ∧ t' = p.pending t ∧
      q = some (.done holders) := by
  cases h with
  | loadRole =>
    left
    obtain ⟨hsame, hnone | hnext⟩ := hmoves.of_select rfl
    · exact ⟨hsame, Or.inl hnone⟩
    refine ⟨hsame, Or.inr (Or.inl ⟨_, hnext, ?_⟩)⟩
    have hread : Point.outline.pending (.loadRole e) t = t := rfl
    rw [hread]
    cases t.roles.get e.roleId with
    | none => exact ⟨.ended (.raised _), rfl, Or.inl rfl, by simp⟩
    | some role => exact ⟨.loadPermissions role, rfl, Or.inl rfl, by simp⟩
  | loadPermissions role =>
    left
    obtain ⟨hsame, hnone | hnext⟩ := hmoves.of_select rfl
    · exact ⟨hsame, Or.inl hnone⟩
    · exact ⟨hsame, Or.inr (Or.inl ⟨_, hnext, e.afterLoad_advances role _⟩)⟩
  | flushMask mask =>
    left
    obtain ⟨hsame, hnone | ⟨_, hnext⟩⟩ := hmoves.of_write rfl
    · exact ⟨hsame, Or.inl hnone⟩
    · exact ⟨hsame, Or.inr (Or.inl ⟨_, hnext, .flushLink _, rfl, Or.inl rfl,
        by simp⟩)⟩
  | flushLink mask =>
    left
    obtain ⟨hsame, hnone | ⟨_, hnext⟩⟩ := hmoves.of_write rfl
    · exact ⟨hsame, Or.inl hnone⟩
    · exact ⟨hsame, Or.inr (Or.inl ⟨_, hnext, .findHolders _, rfl, Or.inl rfl,
        by simp⟩)⟩
  | findHolders mask =>
    left
    obtain ⟨hsame, hnone | hnext⟩ := hmoves.of_select rfl
    · exact ⟨hsame, Or.inl hnone⟩
    refine ⟨hsame, Or.inr (Or.inl ⟨_, hnext, .bumpHolders _ _, rfl, Or.inr ?_,
      by simp⟩)⟩
    have hheld : (Point.pending (.findHolders e mask) t).userRoles = t.userRoles :=
      (Edit.Runs.findHolders mask).pending.1
    change some (Tables.holders (Point.pending (.findHolders e mask) t) e.roleId) = _
    rw [Tables.holders, hheld, Tables.holders]
  | bumpHolders mask holders =>
    left
    obtain ⟨hsame, hnone | ⟨_, hnext⟩⟩ := hmoves.of_write rfl
    · exact ⟨hsame, Or.inl hnone⟩
    · exact ⟨hsame, Or.inr (Or.inr ⟨mask, holders, rfl, hnext⟩)⟩
  | commitEdit mask holders =>
    rcases hmoves.of_commit rfl with ⟨hsame, hnone⟩ | ⟨hafter, hnext⟩
    · exact Or.inl ⟨hsame, Or.inl hnone⟩
    · exact Or.inr ⟨mask, holders, rfl, hafter, hnext⟩
  | ended hover => exact absurd hmoves hover.stays

end Edit

/-! ### The statements of an assignment and of a mint -/

/-- The points of an assignment. -/
inductive Membership.Runs (m : Membership) : Point → Prop
  | writeMember : Runs m (.writeMember m)
  | bumpMember : Runs m (.bumpMember m)
  | commitMember : Runs m (.commitMember m)
  | done : Runs m (.done {m.userId})

/-- The points of a mint. -/
def Point.reading : Point → Bool
  | readRow _ => true
  | readRoles _ => true
  | readRolePermissions _ _ => true
  | readDirect _ _ => true
  | readTenant _ _ _ => true
  | loaded _ => true
  | raised _ => true
  | _ => false

/-- What a mint has loaded when it has read the roles of a user in `t`. -/
inductive Tables.Loads (t : Tables) (row : User) : Point → Prop
  | readRolePermissions : Loads t row (.readRolePermissions row
      (t.roles.rows.filter (fun r => (row.id, r.id) ∈ t.userRoles)))
  | readDirect (now : Tables) : Loads t row (.readDirect row
      ((t.roles.rows.filter (fun r => (row.id, r.id) ∈ t.userRoles)).map now.loadRole))
  | readTenant (now : Tables) : Loads t row (.readTenant row
      ((t.roles.rows.filter (fun r => (row.id, r.id) ∈ t.userRoles)).map now.loadRole)
      (t.directPermissions row.id))
  | loaded (now : Tables) (tenant : Option Tenant) : Loads t row (.loaded ⟨row,
      (t.roles.rows.filter (fun r => (row.id, r.id) ∈ t.userRoles)).map now.loadRole,
      t.directPermissions row.id, tenant⟩)

section Scripts

variable {m : Membership} {t t' atRoles : Tables} {p : Point} {q : Option Point} {row : User}
  {user : LoadedUser}

/-- One step of an assignment. -/
theorem Membership.Runs.moves (h : m.Runs p) (hmoves : Point.outline.Moves t p t' q) :
    (t' = t ∧ (q = none ∨ (p = .writeMember m ∧ m.canLink t = true ∧ q = some (.bumpMember m)) ∨
      (p = .bumpMember m ∧ q = some (.commitMember m)))) ∨
    p = .commitMember m ∧ t' = p.pending t ∧ q = some (.done {m.userId}) := by
  cases h with
  | writeMember =>
    left
    obtain ⟨hsame, hnone | ⟨hguard, hnext⟩⟩ := hmoves.of_write rfl
    · exact ⟨hsame, Or.inl hnone⟩
    · exact ⟨hsame, Or.inr (Or.inl ⟨rfl, hguard, hnext⟩)⟩
  | bumpMember =>
    left
    obtain ⟨hsame, hnone | ⟨_, hnext⟩⟩ := hmoves.of_write rfl
    · exact ⟨hsame, Or.inl hnone⟩
    · exact ⟨hsame, Or.inr (Or.inr ⟨rfl, hnext⟩)⟩
  | commitMember =>
    rcases hmoves.of_commit rfl with ⟨hsame, hnone⟩ | ⟨hafter, hnext⟩
    · exact Or.inl ⟨hsame, Or.inl hnone⟩
    · exact Or.inr ⟨rfl, hafter, hnext⟩
  | done => exact absurd rfl hmoves.not_halt

/-- A mint does not write. -/
theorem Point.reading_moves (h : p.reading = true) (hmoves : Point.outline.Moves t p t' q) :
    t' = t ∧ ∀ p', q = some p' → p'.reading = true := by
  have hgo : ∀ {next : Tables → Point}, p.code = .select next →
      (next (p.pending t)).reading = true → t' = t ∧ ∀ p', q = some p' → p'.reading = true := by
    intro next hcode hnext
    obtain ⟨hsame, hq⟩ := hmoves.of_select hcode
    refine ⟨hsame, ?_⟩
    intro p' hp'
    rcases hq with rfl | rfl
    · cases hp'
    · obtain rfl := Option.some.inj hp'
      exact hnext
  cases p with
  | readRow userId =>
    refine hgo rfl ?_
    split <;> rfl
  | readRoles row => exact hgo rfl rfl
  | readRolePermissions row roles => exact hgo rfl rfl
  | readDirect row roles => exact hgo rfl rfl
  | readTenant row roles direct => exact hgo rfl rfl
  | loaded user => exact absurd rfl hmoves.not_halt
  | raised error => exact absurd rfl hmoves.not_halt
  | _ => cases h

/-- The other queries of the mint do not read the roles again. -/
theorem Tables.Loads.moves (h : atRoles.Loads row p) (hmoves : Point.outline.Moves t p t' q)
    (hdirect : t.directPermissions row.id = atRoles.directPermissions row.id) :
    ∀ p', q = some p' → atRoles.Loads row p' := by
  have hgo : ∀ {next : Tables → Point}, p.code = .select next →
      atRoles.Loads row (next (p.pending t)) → ∀ p', q = some p' → atRoles.Loads row p' := by
    intro next hcode hnext p' hp'
    rcases (hmoves.of_select hcode).2 with rfl | rfl
    · cases hp'
    · obtain rfl := Option.some.inj hp'
      exact hnext
  cases h with
  | readRolePermissions => exact hgo rfl (.readDirect t)
  | readDirect now =>
    refine hgo rfl ?_
    change atRoles.Loads row (.readTenant row _ (t.directPermissions row.id))
    rw [hdirect]
    exact .readTenant now
  | readTenant now => exact hgo rfl (.loaded now _)
  | loaded now tenant => exact absurd rfl hmoves.not_halt

/-- The loaded mask is the one of the moment in which the roles were read. -/
theorem Tables.Loads.mask_eq (h : atRoles.Loads row (.loaded user)) :
    user.permVersion = row.permVersion ∧
      effectivePermissionMask user = effectivePermissionMask (atRoles.loadUser row) := by
  cases h with
  | loaded now tenant =>
    refine ⟨rfl, ?_⟩
    apply Nat.eq_of_testBit_eq
    intro i
    rw [Bool.eq_iff_iff, testBit_effectivePermissionMask, testBit_effectivePermissionMask]
    refine or_congr ?_ Iff.rfl
    simp only [Tables.loadUser, Tables.rolesOf, List.mem_map, exists_exists_and_eq_and,
      Tables.loadRole_toRole]

end Scripts

/-! ### The three sessions -/

inductive Party
  | editor
  | assigner
  | minter
  deriving DecidableEq

instance : Fintype Party where
  elems := {.editor, .assigner, .minter}
  complete := by
    intro i
    cases i <;> decide

def assignment (e : Edit) (userId : Uuid) : Membership := ⟨true, e.roleId, userId⟩

/-- The sessions before their first statements. -/
def racing (t : Tables) (e : Edit) (userId : Uuid) : Database Party where
  committed := t
  sessions
    | .editor => some (.start (.loadRole e))
    | .assigner => some (.start (.writeMember (assignment e userId)))
    | .minter => some (.start (.readRow userId))

/-- Each session is at a point of its script. -/
structure Scripted (e : Edit) (userId : Uuid) (s : Database Party) : Prop where
  fits : Point.outline.Fits s
  editor : ∀ p, s.point .editor = some p → e.Runs p
  assigner : ∀ p, s.point .assigner = some p → (assignment e userId).Runs p
  minter : ∀ p, s.point .minter = some p → p.reading = true

section Scripted

variable {e : Edit} {userId : Uuid} {t : Tables} {s s' : Database Party} {i : Party}

theorem racing_scripted (t : Tables) (e : Edit) (userId : Uuid) :
    Scripted e userId (racing t e userId) := by
  refine ⟨?_, ?_, ?_, ?_⟩
  · intro i x hx
    cases i <;> obtain rfl := Option.some.inj hx <;> exact ⟨rfl, rfl⟩
  · intro p hp
    obtain rfl := Option.some.inj hp
    exact .loadRole
  · intro p hp
    obtain rfl := Option.some.inj hp
    exact .writeMember
  · intro p hp
    obtain rfl := Option.some.inj hp
    rfl

/-- A step of the edit. -/
theorem Scripted.edits (h : Scripted e userId s) (hstep : Step Point.code s .editor s') :
    ∃ p, s.point .editor = some p ∧ e.Runs p ∧
      ((s'.committed = s.committed ∧ (s'.point .editor = none ∨
        (∃ p', s'.point .editor = some p' ∧ e.Advances s.committed p p') ∨
        ∃ mask holders, p = .bumpHolders e mask holders ∧
          s'.point .editor = some (.commitEdit e mask holders))) ∨
      ∃ mask holders, p = .commitEdit e mask holders ∧
        s'.committed = p.pending s.committed ∧ s'.point .editor = some (.done holders)) := by
  obtain ⟨p, hp, hmoves⟩ := h.fits.moves hstep
  exact ⟨p, hp, h.editor p hp, (h.editor p hp).moves hmoves⟩

/-- A step of the assignment. -/
theorem Scripted.assigns (h : Scripted e userId s) (hstep : Step Point.code s .assigner s') :
    ∃ p, s.point .assigner = some p ∧ p ≠ .done {userId} ∧
      ((s'.committed = s.committed ∧ (s'.point .assigner = none ∨
        (p = .writeMember (assignment e userId) ∧
          (assignment e userId).canLink s.committed = true ∧
          s'.point .assigner = some (.bumpMember (assignment e userId))) ∨
        (p = .bumpMember (assignment e userId) ∧
          s'.point .assigner = some (.commitMember (assignment e userId))))) ∨
      p = .commitMember (assignment e userId) ∧ s'.committed = p.pending s.committed ∧
        s'.point .assigner = some (.done {userId})) := by
  obtain ⟨p, hp, hmoves⟩ := h.fits.moves hstep
  refine ⟨p, hp, ?_, (h.assigner p hp).moves hmoves⟩
  intro hdone
  rw [hdone] at hmoves
  exact hmoves.not_halt rfl

/-- A step of the mint. -/
theorem Scripted.mints (h : Scripted e userId s) (hstep : Step Point.code s .minter s') :
    s'.committed = s.committed ∧ ∀ p, s'.point .minter = some p → p.reading = true := by
  obtain ⟨p, hp, hmoves⟩ := h.fits.moves hstep
  exact Point.reading_moves (h.minter p hp) hmoves

theorem Scripted.step (h : Scripted e userId s) (hstep : Step Point.code s i s') :
    Scripted e userId s' := by
  have hother : ∀ j, j ≠ i → s'.point j = s.point j := fun j hj => hstep.point_of_ne hj
  cases i with
  | editor =>
    refine ⟨h.fits.step hstep, ?_, by rw [hother _ (by decide)]; exact h.assigner,
      by rw [hother _ (by decide)]; exact h.minter⟩
    intro p' hp'
    obtain ⟨p, _, _, hcases⟩ := h.edits hstep
    rcases hcases with ⟨_, hnone | ⟨p'', hp'', hadvances⟩ | ⟨mask, holders, _, hnext⟩⟩ |
      ⟨mask, holders, _, _, hdone⟩
    · rw [hnone] at hp'
      cases hp'
    · obtain rfl : p'' = p' := Option.some.inj (hp''.symm.trans hp')
      exact hadvances.runs
    · obtain rfl := Option.some.inj (hnext.symm.trans hp')
      exact .commitEdit mask holders
    · obtain rfl := Option.some.inj (hdone.symm.trans hp')
      exact .ended (.done holders)
  | assigner =>
    refine ⟨h.fits.step hstep, by rw [hother _ (by decide)]; exact h.editor, ?_,
      by rw [hother _ (by decide)]; exact h.minter⟩
    intro p' hp'
    obtain ⟨p, _, _, hcases⟩ := h.assigns hstep
    rcases hcases with ⟨_, hnone | ⟨_, _, hnext⟩ | ⟨_, hnext⟩⟩ | ⟨_, _, hdone⟩
    · rw [hnone] at hp'
      cases hp'
    · obtain rfl := Option.some.inj (hnext.symm.trans hp')
      exact .bumpMember
    · obtain rfl := Option.some.inj (hnext.symm.trans hp')
      exact .commitMember
    · obtain rfl := Option.some.inj (hdone.symm.trans hp')
      exact .done
  | minter =>
    exact ⟨h.fits.step hstep, by rw [hother _ (by decide)]; exact h.editor,
      by rw [hother _ (by decide)]; exact h.assigner, (h.mints hstep).2⟩

/-- An assignment that gets past its first statement finds the user, and not
with the role. -/
theorem joinable_of_assigned {users : Finset Uuid}
    (hrun : Steps Point.code (fun _ _ _ => True) (racing t e userId) s)
    (hassigned : s.point .assigner = some (.done users)) :
    (userId, e.roleId) ∉ t.userRoles ∧ ∃ v, t.versionOf userId = some v := by
  suffices h : Scripted e userId s ∧
      ((s.committed.userRoles = t.userRoles ∧
        (s.committed.versionOf userId).isSome = (t.versionOf userId).isSome ∧
        ∀ p, s.point .assigner = some p → p = .writeMember (assignment e userId)) ∨
      ((userId, e.roleId) ∉ t.userRoles ∧ (t.versionOf userId).isSome = true)) by
    rcases h.2 with ⟨_, _, hstart⟩ | ⟨hfree, hsome⟩
    · cases hstart _ hassigned
    · exact ⟨hfree, Option.isSome_iff_exists.mp hsome⟩
  clear hassigned
  induction hrun with
  | refl =>
    refine ⟨racing_scripted t e userId, Or.inl ⟨rfl, rfl, ?_⟩⟩
    intro p hp
    exact (Option.some.inj hp).symm
  | @tail s s' _ hlast ih =>
    obtain ⟨i, _, hstep⟩ := hlast
    obtain ⟨hscripted, hcases⟩ := ih
    refine ⟨hscripted.step hstep, ?_⟩
    rcases hcases with ⟨hroles, hsome, hstart⟩ | hjoinable
    · cases i with
      | editor =>
        left
        rw [hstep.point_of_ne (by decide)]
        obtain ⟨p, _, hruns, hafter⟩ := hscripted.edits hstep
        rcases hafter with ⟨hsame, _⟩ | ⟨mask, holders, rfl, hafter, _⟩
        · rw [hsame]
          exact ⟨hroles, hsome, hstart⟩
        · refine ⟨by rw [hafter, hruns.pending.1, hroles], ?_, hstart⟩
          rw [hafter, ← hsome]
          simp [Point.pending, Tables.versionOf_bumped]
      | assigner =>
        obtain ⟨p, hp, _, hafter⟩ := hscripted.assigns hstep
        obtain rfl := hstart p hp
        rcases hafter with ⟨hsame, hnone | ⟨_, hlink, _⟩ | ⟨hbump, _⟩⟩ | ⟨hcommit, _⟩
        · refine Or.inl ⟨by rw [hsame, hroles], by rw [hsame, hsome], ?_⟩
          intro p hp
          rw [hnone] at hp
          cases hp
        · right
          have hlink' : (userId, e.roleId) ∉ s.committed.userRoles ∧
              (s.committed.users.get userId).isSome = true ∧
              (s.committed.roles.get e.roleId).isSome = true :=
            of_decide_eq_true hlink
          rw [← hroles, ← hsome, Tables.versionOf, Option.isSome_map]
          exact ⟨hlink'.1, hlink'.2.1⟩
        · cases hbump
        · cases hcommit
      | minter =>
        left
        rw [hstep.point_of_ne (by decide), (hscripted.mints hstep).1]
        exact ⟨hroles, hsome, hstart⟩
    · exact Or.inr hjoinable

end Scripted

/-! ### Versions and memberships -/

/-- The versions count the commits, and the user has the role from the commit of
the assignment on. -/
structure Raced (t : Tables) (e : Edit) (userId : Uuid) (v₀ : ℕ) (s : Database Party) : Prop
    extends Scripted e userId s where
  counted : Counted userId v₀ s
  permissions : s.committed.permissions = t.permissions
  userPermissions : s.committed.userPermissions = t.userPermissions
  joined : (userId, e.roleId) ∈ s.committed.userRoles ↔
    s.point .assigner = some (.done {userId})

section Raced

variable {e : Edit} {userId : Uuid} {t : Tables} {v₀ : ℕ} {s s' : Database Party} {i : Party}

theorem racing_raced (hfree : (userId, e.roleId) ∉ t.userRoles)
    (hversion : t.versionOf userId = some v₀) : Raced t e userId v₀ (racing t e userId) := by
  have hscripted := racing_scripted t e userId
  have hbumps : (racing t e userId).bumps userId = 0 := by
    rw [Database.bumps, Finset.card_eq_zero, Finset.filter_eq_empty_iff]
    intro i _
    cases i <;> exact Bool.false_ne_true
  refine ⟨hscripted, ⟨hscripted.fits, ?_⟩, rfl, rfl, ?_⟩
  · rw [hbumps]
    exact hversion
  · constructor
    · intro hheld
      exact absurd hheld hfree
    · intro hdone
      cases hdone

/-- No session has loaded a version to write it. -/
theorem Scripted.fresh (h : Scripted e userId s) (i : Party) : Fresh userId s i s' := by
  intro g user hp
  exfalso
  cases i with
  | editor =>
    cases h.editor _ hp with
    | ended hover => cases hover
  | assigner => cases h.assigner _ hp
  | minter => cases h.minter _ hp

/-- A commit of the edit moves the version of those it has chosen. -/
theorem Raced.bumps_edited (h : Raced t e userId v₀ s) (hstep : Step Point.code s i s')
    {holders : Finset Uuid} (hdone : s'.point i = some (.done holders)) (hmem : userId ∈ holders) :
    s'.bumps userId = s.bumps userId + 1 := by
  rw [Database.bumps_of_point h.fits hstep, hdone, Option.any_some, Point.bumped]
  simp [hmem]

theorem Raced.bumps_kept (h : Raced t e userId v₀ s) (hstep : Step Point.code s i s')
    (hopen : (s'.point i).any (Point.bumped userId) = false) :
    s'.bumps userId = s.bumps userId := by
  rw [Database.bumps_of_point h.fits hstep, hopen]
  rfl

theorem Raced.step (h : Raced t e userId v₀ s) (hstep : Step Point.code s i s') :
    Raced t e userId v₀ s' := by
  have hcounted := (h.counted.step hstep (h.fresh i)).1
  have hscripted := h.toScripted.step hstep
  cases i with
  | editor =>
    obtain ⟨p, _, hruns, hcases⟩ := h.edits hstep
    have hkept : s'.committed.userRoles = s.committed.userRoles ∧
        s'.committed.permissions = s.committed.permissions ∧
        s'.committed.userPermissions = s.committed.userPermissions := by
      rcases hcases with ⟨hsame, _⟩ | ⟨_, _, _, hafter, _⟩
      · rw [hsame]
        exact ⟨rfl, rfl, rfl⟩
      · rw [hafter]
        exact hruns.pending
    obtain ⟨hroles, hpermissions, hdirect⟩ := hkept
    refine ⟨hscripted, hcounted, hpermissions.trans h.permissions,
      hdirect.trans h.userPermissions, ?_⟩
    rw [hroles, hstep.point_of_ne (by decide)]
    exact h.joined
  | assigner =>
    obtain ⟨p, hp, hopen, hcases⟩ := h.assigns hstep
    have hout : (userId, e.roleId) ∉ s.committed.userRoles := by
      rw [h.joined, hp]
      intro hdone
      exact hopen (Option.some.inj hdone)
    rcases hcases with ⟨hsame, hnext⟩ | ⟨rfl, hafter, hdone⟩
    · refine ⟨hscripted, hcounted, by rw [hsame, h.permissions],
        by rw [hsame, h.userPermissions], ?_⟩
      rw [hsame]
      constructor
      · intro hheld
        exact absurd hheld hout
      · intro hdone
        rcases hnext with hnone | ⟨_, _, hbump⟩ | ⟨_, hcommit⟩
        · cases hnone.symm.trans hdone
        · cases hbump.symm.trans hdone
        · cases hcommit.symm.trans hdone
    · refine ⟨hscripted, hcounted, by rw [hafter]; exact h.permissions,
        by rw [hafter]; exact h.userPermissions, ?_⟩
      rw [hafter, hdone]
      refine iff_of_true ?_ rfl
      exact Finset.mem_insert_self _ _
  | minter =>
    obtain ⟨hsame, _⟩ := h.mints hstep
    refine ⟨hscripted, hcounted, by rw [hsame, h.permissions],
      by rw [hsame, h.userPermissions], ?_⟩
    rw [hsame, hstep.point_of_ne (by decide)]
    exact h.joined

/-- Before the assignment an edit of the role is nothing to the user. -/
theorem Edit.Runs.sameGrants {p : Point} (h : e.Runs p)
    (hout : (userId, e.roleId) ∉ t.userRoles) : SameGrants t (p.pending t) userId := by
  have hflushed (mask : Option ℕ) : SameGrants t (e.flushed mask t) userId := by
    cases mask with
    | none => exact .refl _ _
    | some mask => exact sameGrants_of_role (Role.id_setMask mask) hout rfl rfl rfl rfl
  have hrest {t' : Tables} (mask : Option ℕ) (hroles : t'.roles = (e.flushed mask t).roles)
      (huserRoles : t'.userRoles = (e.flushed mask t).userRoles)
      (hpermissions : t'.permissions = (e.flushed mask t).permissions)
      (hdirect : t'.userPermissions = (e.flushed mask t).userPermissions) :
      SameGrants t t' userId :=
    (hflushed mask).trans (sameGrants_of_eq hroles huserRoles hpermissions hdirect)
  cases h with
  | loadRole => exact .refl _ _
  | loadPermissions role => exact .refl _ _
  | flushMask mask => exact .refl _ _
  | flushLink mask => exact hflushed mask
  | findHolders mask => exact hrest mask rfl rfl rfl rfl
  | bumpHolders mask holders => exact hrest mask rfl rfl rfl rfl
  | commitEdit mask holders => exact hrest mask rfl rfl rfl rfl
  | ended hover => cases hover <;> exact .refl _ _

end Raced

/-! ### The mask that is read and the mask to come -/

/-- The holders that the edit has chosen do not include the user, and it has not
committed. -/
def Point.passesOver (userId : Uuid) : Point → Bool
  | bumpHolders _ _ holders => userId ∉ holders
  | commitEdit _ _ holders => userId ∉ holders
  | _ => false

/-- With a current version, the roles are not read while an edit that passes over
the user is about to change their mask. -/
def Unpassed (s : Database Party) (i : Party) (_ : Database Party) : Prop :=
  ∀ user p, i = .minter → s.point .minter = some (.readRoles user) →
    s.committed.versionOf user.id = some user.permVersion → s.point .editor = some p →
    p.passesOver user.id = true →
    effectivePermissionMask ((p.pending s.committed).loadUser user) =
      effectivePermissionMask (s.committed.loadUser user)

/-- No commit to come bumps the user. -/
structure Final (userId : Uuid) (s : Database Party) (p : Point) : Prop where
  assigned : s.point .assigner = some (.done {userId})
  editor : s.point .editor = some p
  passed : p.passesOver userId = true ∨ ∃ holders, p = .done holders

/-- A current version that stays goes with the mask that stays. -/
def Agrees (userId : Uuid) (s : Database Party) (atRoles : Tables) (row : User) : Prop :=
  s.committed.versionOf userId = some row.permVersion → ∀ p, Final userId s p →
    effectivePermissionMask ((p.pending s.committed).loadUser row) =
      effectivePermissionMask (atRoles.loadUser row)

section Masks

variable {e : Edit} {userId : Uuid} {t atRoles : Tables} {v₀ : ℕ} {s s' : Database Party}
  {i : Party} {p p' : Point} {row : User}

theorem Point.chosen_of_passesOver (h : p.passesOver userId = true) :
    ∃ holders, p.chosen = some holders ∧ userId ∉ holders := by
  cases p with
  | bumpHolders e mask holders => exact ⟨holders, rfl, of_decide_eq_true h⟩
  | commitEdit e mask holders => exact ⟨holders, rfl, of_decide_eq_true h⟩
  | _ => cases h

theorem Point.bumped_of_reading (h : p.reading = true) : p.bumped userId = false := by
  cases p <;> first | rfl | cases h

/-- The increments of versions leave the masks alone. -/
theorem mask_bumped (t : Tables) (holders : Finset Uuid) (row : User) :
    effectivePermissionMask ((t.bumped holders).loadUser row) =
      effectivePermissionMask (t.loadUser row) :=
  (sameGrants_of_eq rfl rfl rfl rfl).maskOf_eq rfl

/-- The step before a final state was taken in a final state, if it has not
bumped the user. -/
theorem Raced.final_before (h : Raced t e userId v₀ s) (hstep : Step Point.code s i s')
    (hfinal : Final userId s' p') (hbumps : s'.bumps userId = s.bumps userId) :
    ∃ p, Final userId s p ∧
      effectivePermissionMask ((p'.pending s'.committed).loadUser row) =
        effectivePermissionMask ((p.pending s.committed).loadUser row) := by
  have hother : ∀ j, j ≠ i → s'.point j = s.point j := fun j hj => hstep.point_of_ne hj
  have heditor := hfinal.editor
  cases i with
  | editor =>
    have hassigned : s.point .assigner = some (.done {userId}) := by
      rw [← hother .assigner (by decide)]
      exact hfinal.assigned
    obtain ⟨p, hp, _, hcases⟩ := h.edits hstep
    rcases hcases with ⟨hsame, hnone | ⟨p'', hp'', hadvances⟩ | ⟨mask, holders, rfl, hnext⟩⟩ |
      ⟨mask, holders, rfl, hafter, hdone⟩
    · cases hnone.symm.trans heditor
    · -- the holders are chosen in this step, the user among them
      obtain rfl : p'' = p' := Option.some.inj (hp''.symm.trans heditor)
      exfalso
      rcases hfinal.passed with hpasses | ⟨holders, hdone⟩
      · obtain ⟨holders, hchosen, hout⟩ := Point.chosen_of_passesOver hpasses
        rcases hadvances.chosen with hnone | hholders
        · cases hnone.symm.trans hchosen
        · obtain rfl := Option.some.inj (hholders.symm.trans hchosen)
          apply hout
          rw [Tables.holders, Finset.mem_image]
          exact ⟨_, Finset.mem_filter.mpr ⟨h.joined.mpr hassigned, rfl⟩, rfl⟩
      · exact hadvances.open' holders hdone
    · obtain rfl := Option.some.inj (hnext.symm.trans heditor)
      refine ⟨_, ⟨hassigned, hp, Or.inl ?_⟩, ?_⟩
      · rcases hfinal.passed with hpasses | ⟨_, hdone⟩
        · exact hpasses
        · cases hdone
      · rw [hsame]
        exact mask_bumped _ holders row
    · obtain rfl := Option.some.inj (hdone.symm.trans heditor)
      have hout : userId ∉ holders := by
        intro hmem
        have hmoved := h.bumps_edited hstep hdone hmem
        omega
      refine ⟨_, ⟨hassigned, hp, Or.inl (decide_eq_true hout)⟩, ?_⟩
      rw [hafter]
      rfl
  | assigner =>
    exfalso
    obtain ⟨p, _, _, hcases⟩ := h.assigns hstep
    have hassigned := hfinal.assigned
    rcases hcases with ⟨_, hnone | ⟨_, _, hbump⟩ | ⟨_, hcommit⟩⟩ | ⟨_, _, hdone⟩
    · cases hnone.symm.trans hassigned
    · cases hbump.symm.trans hassigned
    · cases hcommit.symm.trans hassigned
    · have hmoved := h.bumps_edited hstep hdone (Finset.mem_singleton_self userId)
      omega
  | minter =>
    rw [hother .editor (by decide)] at heditor
    have hassigned := hfinal.assigned
    rw [hother .assigner (by decide)] at hassigned
    exact ⟨p', ⟨hassigned, heditor, hfinal.passed⟩, by rw [(h.mints hstep).1]⟩

/-- A final state stays final, with the mask and the version that it has, unless
the edit is rolled back. -/
theorem Raced.final_after (h : Raced t e userId v₀ s) (hstep : Step Point.code s i s')
    (hfinal : Final userId s p) : s'.bumps userId = s.bumps userId ∧
      (s'.point .editor = none ∨ ∃ p', Final userId s' p' ∧
        effectivePermissionMask ((p'.pending s'.committed).loadUser row) =
          effectivePermissionMask ((p.pending s.committed).loadUser row)) := by
  have hother : ∀ j, j ≠ i → s'.point j = s.point j := fun j hj => hstep.point_of_ne hj
  cases i with
  | editor =>
    have hassigned : s'.point .assigner = some (.done {userId}) := by
      rw [hother .assigner (by decide)]
      exact hfinal.assigned
    obtain ⟨p', hp', _, hcases⟩ := h.edits hstep
    obtain rfl := Option.some.inj (hfinal.editor.symm.trans hp')
    rcases hcases with ⟨hsame, hnone | ⟨p'', hp'', hadvances⟩ | ⟨mask, holders, rfl, hnext⟩⟩ |
      ⟨mask, holders, rfl, hafter, hdone⟩
    · exact ⟨h.bumps_kept hstep (by rw [hnone]; rfl), Or.inl hnone⟩
    · exfalso
      rcases hfinal.passed with hpasses | ⟨holders, rfl⟩
      · obtain ⟨holders, hchosen, _⟩ := Point.chosen_of_passesOver hpasses
        cases hadvances.fresh.symm.trans hchosen
      · cases hadvances.fresh
    · refine ⟨h.bumps_kept hstep (by rw [hnext]; rfl),
        Or.inr ⟨_, ⟨hassigned, hnext, Or.inl ?_⟩, ?_⟩⟩
      · rcases hfinal.passed with hpasses | ⟨_, hdone⟩
        · exact hpasses
        · cases hdone
      · rw [hsame]
        exact mask_bumped _ holders row
    · have hout : userId ∉ holders := by
        rcases hfinal.passed with hpasses | ⟨_, hdone⟩
        · exact of_decide_eq_true hpasses
        · cases hdone
      refine ⟨h.bumps_kept hstep ?_, Or.inr ⟨_, ⟨hassigned, hdone, Or.inr ⟨holders, rfl⟩⟩, ?_⟩⟩
      · rw [hdone, Option.any_some]
        exact decide_eq_false hout
      · rw [hafter]
        rfl
  | assigner =>
    exfalso
    obtain ⟨p', hp', hopen, _⟩ := h.assigns hstep
    exact hopen (Option.some.inj (hp'.symm.trans hfinal.assigned))
  | minter =>
    have hmints := h.mints hstep
    refine ⟨h.bumps_kept hstep ?_, Or.inr ⟨p, ⟨?_, ?_, hfinal.passed⟩, by rw [hmints.1]⟩⟩
    · rw [Option.any_eq_false]
      intro p' hp'
      rw [Point.bumped_of_reading (hmints.2 p' hp')]
    · rw [hother .assigner (by decide)]
      exact hfinal.assigned
    · rw [hother .editor (by decide)]
      exact hfinal.editor

theorem Agrees.step (h : Agrees userId s atRoles row) (hrace : Raced t e userId v₀ s)
    (hle : row.permVersion ≤ v₀ + s.bumps userId) (hstep : Step Point.code s i s') :
    Agrees userId s' atRoles row := by
  intro hversion p' hfinal
  have hmono := (hrace.counted.step hstep (hrace.fresh i)).2
  rw [(hrace.step hstep).counted.version] at hversion
  have hcurrent := Option.some.inj hversion
  obtain ⟨p, hfinal, hsame⟩ :=
    @Raced.final_before _ _ _ _ _ _ _ p' row hrace hstep hfinal (by omega)
  rw [hsame]
  refine h ?_ p hfinal
  rw [hrace.counted.version]
  congr 1
  omega

end Masks

/-! ### Runs -/

/-- What a mint of the user has read, of a row with a version up to `version`. -/
inductive Minting (t : Tables) (userId : Uuid) (version : ℕ) (Q : Tables → User → Prop) :
    Point → Prop
  | readRow : Minting t userId version Q (.readRow userId)
  | raised (error : Err) : Minting t userId version Q (.raised error)
  | readRoles {row : User} : row.id = userId → row.permVersion ≤ version →
      Minting t userId version Q (.readRoles row)
  | loads {atRoles : Tables} {row : User} {p : Point} : row.id = userId →
      row.permVersion ≤ version →
      (∀ id, atRoles.directPermissions id = t.directPermissions id) → Q atRoles row →
      atRoles.Loads row p → Minting t userId version Q p

/-- Where every mask that is read with a current version is the one to come. -/
structure Minted (t : Tables) (e : Edit) (userId : Uuid) (v₀ : ℕ) (s : Database Party) : Prop
    extends Raced t e userId v₀ s where
  minting : ∀ p, s.point .minter = some p →
    Minting t userId (v₀ + s.bumps userId) (Agrees userId s) p

/-- The mint has read another mask than the one to come, with the version that
stays. -/
structure Misread (t : Tables) (e : Edit) (userId : Uuid) (v₀ : ℕ) (atRoles : Tables)
    (row : User) (s : Database Party) : Prop extends Raced t e userId v₀ s where
  direct : ∀ id, atRoles.directPermissions id = t.directPermissions id
  loads : ∀ p, s.point .minter = some p → atRoles.Loads row p
  version : s.committed.versionOf userId = some row.permVersion
  assigned : s.point .assigner = some (.done {userId})
  final : s.point .editor = none ∨ ∃ p, Final userId s p ∧
    effectivePermissionMask ((p.pending s.committed).loadUser row) ≠
      effectivePermissionMask (atRoles.loadUser row)

section Runs

variable {e : Edit} {userId : Uuid} {t atRoles : Tables} {v₀ v v' : ℕ} {s s' : Database Party}
  {i : Party} {p : Point} {row : User} {Q Q' : Tables → User → Prop}

theorem Minting.mono (h : Minting t userId v Q p) (hle : v ≤ v')
    (hQ : ∀ atRoles row, row.id = userId → row.permVersion ≤ v → Q atRoles row → Q' atRoles row) :
    Minting t userId v' Q' p := by
  cases h with
  | readRow => exact .readRow
  | raised error => exact .raised error
  | readRoles hid hversion => exact .readRoles hid (hversion.trans hle)
  | loads hid hversion hdirect hread hloads =>
    exact .loads hid (hversion.trans hle) hdirect (hQ _ _ hid hversion hread) hloads

theorem Raced.directPermissions_eq (h : Raced t e userId v₀ s) (id : Uuid) :
    s.committed.directPermissions id = t.directPermissions id := by
  rw [Tables.directPermissions, Tables.directPermissions, h.permissions, h.userPermissions]

/-- What the mint reads next. -/
theorem Minted.mints (h : Minted t e userId v₀ s) (hstep : Step Point.code s .minter s')
    (hunpassed : Unpassed s .minter s') : ∀ p, s'.point .minter = some p →
      Minting t userId (v₀ + s.bumps userId) (Agrees userId s) p := by
  intro p' hp'
  obtain ⟨p, hp, hmoves⟩ := h.fits.moves hstep
  rw [hp'] at hmoves
  cases h.minting p hp with
  | readRow =>
    obtain ⟨_, hnone | hnext⟩ := hmoves.of_select rfl
    · cases hnone
    · obtain rfl := Option.some.inj hnext
      have hread : Point.outline.pending (.readRow userId) s.committed = s.committed := rfl
      rw [hread]
      have hversion := h.counted.version
      cases hrow : s.committed.users.get userId with
      | none => exact .raised _
      | some row =>
        rw [Tables.versionOf, hrow] at hversion
        exact .readRoles (Table.key_of_get hrow) (Option.some.inj hversion).le
  | raised error => exact absurd rfl hmoves.not_halt
  | @readRoles row hid hle =>
    obtain ⟨_, hnone | hnext⟩ := hmoves.of_select rfl
    · cases hnone
    · obtain rfl := Option.some.inj hnext
      refine .loads hid hle h.directPermissions_eq ?_ .readRolePermissions
      intro hversion p hfinal
      rcases hfinal.passed with hpasses | ⟨holders, rfl⟩
      · rw [← hid] at hversion hpasses
        exact hunpassed row p rfl hp hversion hfinal.editor hpasses
      · rfl
  | @loads atRoles row _ hid hle hdirect hagrees hloads =>
    have hsame := (h.directPermissions_eq row.id).trans (hdirect row.id).symm
    exact .loads hid hle hdirect hagrees (hloads.moves hmoves hsame p' rfl)

theorem Minted.step (h : Minted t e userId v₀ s) (hstep : Step Point.code s i s')
    (hunpassed : Unpassed s i s') : Minted t e userId v₀ s' := by
  refine ⟨h.toRaced.step hstep, ?_⟩
  have hmono := (h.counted.step hstep (h.fresh i)).2
  have hread : ∀ p, s'.point .minter = some p →
      Minting t userId (v₀ + s.bumps userId) (Agrees userId s) p := by
    by_cases hi : i = .minter
    · subst hi
      exact h.mints hstep hunpassed
    · intro p hp
      rw [hstep.point_of_ne (Ne.symm hi)] at hp
      exact h.minting p hp
  intro p hp
  refine (hread p hp).mono (by omega) ?_
  intro atRoles row _ hle hagrees
  exact hagrees.step h.toRaced hle hstep

/-- The read that the condition rules out. -/
theorem Minted.misread (h : Minted t e userId v₀ s) (hstep : Step Point.code s i s')
    (hpassed : ¬ Unpassed s i s') : ∃ row, row.id = userId ∧
      Misread t e userId v₀ s.committed row s' := by
  unfold Unpassed at hpassed
  push Not at hpassed
  obtain ⟨row, p, rfl, hp, hversion, heditor, hpasses, hdiffer⟩ := hpassed
  have hid : row.id = userId := by
    cases h.minting _ hp with
    | readRoles hid _ => exact hid
    | loads _ _ _ _ hloads => cases hloads
  subst hid
  have hassigned : s.point .assigner = some (.done {row.id}) := by
    rw [← h.joined]
    by_contra hout
    exact hdiffer (((h.editor p heditor).sameGrants hout).maskOf_eq rfl)
  have hfinal : Final row.id s p := ⟨hassigned, heditor, Or.inl hpasses⟩
  obtain ⟨hbumps, hafter⟩ := @Raced.final_after _ _ _ _ _ _ _ p row h.toRaced hstep hfinal
  refine ⟨row, rfl, h.toRaced.step hstep, h.directPermissions_eq, ?_, ?_, ?_, ?_⟩
  · intro p' hp'
    obtain ⟨p₀, hp₀, hmoves⟩ := h.fits.moves hstep
    obtain rfl := Option.some.inj (hp.symm.trans hp₀)
    obtain ⟨_, hnone | hnext⟩ := hmoves.of_select rfl
    · cases hnone.symm.trans hp'
    · obtain rfl := Option.some.inj (hnext.symm.trans hp')
      exact .readRolePermissions
  · rw [(h.toRaced.step hstep).counted.version, hbumps, ← h.counted.version]
    exact hversion
  · rw [hstep.point_of_ne (by decide)]
    exact hassigned
  · rcases hafter with hnone | ⟨p', hfinal', hsame⟩
    · exact Or.inl hnone
    · exact Or.inr ⟨p', hfinal', by rw [hsame]; exact hdiffer⟩

theorem Misread.step (h : Misread t e userId v₀ atRoles row s)
    (hstep : Step Point.code s i s') : Misread t e userId v₀ atRoles row s' := by
  have hloads : ∀ p, s'.point .minter = some p → atRoles.Loads row p := by
    intro p' hp'
    by_cases hi : i = .minter
    · subst hi
      obtain ⟨p, hp, hmoves⟩ := h.fits.moves hstep
      exact (h.loads p hp).moves hmoves ((h.directPermissions_eq _).trans (h.direct _).symm) p' hp'
    · rw [hstep.point_of_ne (Ne.symm hi)] at hp'
      exact h.loads p' hp'
  have hassigned : s'.point .assigner = some (.done {userId}) := by
    by_cases hi : i = .assigner
    · subst hi
      obtain ⟨p, hp, hopen, _⟩ := h.assigns hstep
      exact absurd (Option.some.inj (hp.symm.trans h.assigned)) hopen
    · rw [hstep.point_of_ne (Ne.symm hi)]
      exact h.assigned
  have hrace := h.toRaced.step hstep
  rcases h.final with hnone | ⟨p, hfinal, hdiffer⟩
  · -- only the mint is left
    have hi : i = .minter := by
      obtain ⟨p, hp, _⟩ := h.fits.moves hstep
      cases i with
      | editor => cases hnone.symm.trans hp
      | assigner =>
        obtain ⟨p, hp, hopen, _⟩ := h.assigns hstep
        exact absurd (Option.some.inj (hp.symm.trans h.assigned)) hopen
      | minter => rfl
    subst hi
    refine ⟨hrace, h.direct, hloads, ?_, hassigned, Or.inl ?_⟩
    · rw [(h.mints hstep).1]
      exact h.version
    · rw [hstep.point_of_ne (by decide)]
      exact hnone
  · obtain ⟨hbumps, hafter⟩ := @Raced.final_after _ _ _ _ _ _ _ p row h.toRaced hstep hfinal
    refine ⟨hrace, h.direct, hloads, ?_, hassigned, ?_⟩
    · rw [hrace.counted.version, hbumps, ← h.counted.version]
      exact h.version
    · rcases hafter with hnone | ⟨p', hfinal', hsame⟩
      · exact Or.inl hnone
      · exact Or.inr ⟨p', hfinal', by rw [hsame]; exact hdiffer⟩

/-- Up to the first read that the condition rules out the masks agree, and after
it the token has another one for good. -/
theorem minted_or_misread (hfree : (userId, e.roleId) ∉ t.userRoles)
    (hversion : t.versionOf userId = some v₀)
    (hrun : Steps Point.code (fun _ _ _ => True) (racing t e userId) s) :
    (Steps Point.code Unpassed (racing t e userId) s ∧ Minted t e userId v₀ s) ∨
      ∃ atRoles row, row.id = userId ∧ Misread t e userId v₀ atRoles row s := by
  induction hrun with
  | refl =>
    refine Or.inl ⟨.refl, racing_raced hfree hversion, ?_⟩
    intro p hp
    obtain rfl := Option.some.inj hp
    exact .readRow
  | @tail s s' _ hlast ih =>
    obtain ⟨i, _, hstep⟩ := hlast
    rcases ih with ⟨hsteps, hminted⟩ | ⟨atRoles, row, hid, hmisread⟩
    · by_cases hunpassed : Unpassed s i s'
      · exact Or.inl ⟨hsteps.tail ⟨i, hunpassed, hstep⟩, hminted.step hstep hunpassed⟩
      · obtain ⟨row, hid, hmisread⟩ := hminted.misread hstep hunpassed
        exact Or.inr ⟨_, row, hid, hmisread⟩
    · exact Or.inr ⟨atRoles, row, hid, hmisread.step hstep⟩

/-- After both commits a token with the version of the user has their mask,
exactly in the runs where the mint does not read the roles of the user with a
current version while the edit has passed over them and is about to change
their mask. -/
theorem token_current_iff {Token : Type} (jwt : Jwt Token) {accessTokenExpireMinutes now now' : ℤ}
    {atMint : Tables} {users users' : Finset Uuid} {user : LoadedUser} {authMethod : String}
    {token : Token} {payload : TokenPayload}
    (hrun : Steps Point.code (fun _ _ _ => True) (racing t e userId) s)
    (hedited : s.point .editor = some (.done users))
    (hassigned : s.point .assigner = some (.done users'))
    (hloaded : s.point .minter = some (.loaded user))
    (hmint : mintAccessToken jwt accessTokenExpireMinutes atMint now user authMethod = .ok token)
    (hnow : now' < now + accessTokenExpireMinutes * 60)
    (hpayload : verifyToken jwt now' token = some payload) :
    Steps Point.code Unpassed (racing t e userId) s ↔
      ∀ row, s.committed.users.get userId = some row → payload.permVersion = row.permVersion →
        hexToMask (some payload.permMask) =
          .ok (effectivePermissionMask (s.committed.loadUser row)) := by
  obtain ⟨hfree, v₀, hversion⟩ := joinable_of_assigned hrun hassigned
  obtain ⟨_, text, htext, rfl⟩ := mintAccessToken_eq_ok_iff.mp hmint
  obtain rfl : user.claims text (now + accessTokenExpireMinutes * 60) authMethod = payload :=
    Option.some.inj ((jwt.decode_encode now' _ hnow).symm.trans hpayload)
  have hclaim : hexToMask (some text) = .ok (effectivePermissionMask user) :=
    hexToMask_maskToHex _ (maskToHex_lt htext) text htext
  change _ ↔ ∀ row, s.committed.users.get userId = some row → user.permVersion = row.permVersion →
    hexToMask (some text) = .ok (effectivePermissionMask (s.committed.loadUser row))
  rw [hclaim]
  have hdone (h : Raced t e userId v₀ s) : Final userId s (.done users) := by
    refine ⟨?_, hedited, Or.inr ⟨users, rfl⟩⟩
    cases h.assigner _ hassigned
    exact hassigned
  constructor
  · intro hunpassed row hrow hcurrent
    have hminted : Minted t e userId v₀ s := by
      refine hunpassed.invariant (fun _ _ _ hcond hstep h => h.step hstep hcond)
        ⟨racing_raced hfree hversion, ?_⟩
      intro p hp
      obtain rfl := Option.some.inj hp
      exact .readRow
    cases hminted.minting _ hloaded with
    | @loads atRoles row' _ hid _ _ hagrees hloads =>
      obtain ⟨hsame, hmask⟩ := hloads.mask_eq
      have hstays := hagrees (by rw [Tables.versionOf, hrow, Option.map_some, ← hcurrent, hsame])
        _ (hdone hminted.toRaced)
      have hrows : effectivePermissionMask (s.committed.loadUser row) =
          effectivePermissionMask (s.committed.loadUser row') :=
        (SameGrants.refl _ _).maskOf_eq ((Table.key_of_get hrow).trans hid.symm)
      rw [hmask, hrows]
      exact congrArg Except.ok hstays.symm
  · intro hall
    rcases minted_or_misread hfree hversion hrun with ⟨hunpassed, _⟩ |
      ⟨atRoles, row, hid, hmisread⟩
    · exact hunpassed
    · exfalso
      obtain ⟨hsame, hmask⟩ := (hmisread.loads _ hloaded).mask_eq
      obtain ⟨row', hrow', hcurrent⟩ := Option.map_eq_some_iff.mp hmisread.version
      have hequal := Except.ok.inj (hall row' hrow' (hsame.trans hcurrent.symm))
      have hrows : effectivePermissionMask (s.committed.loadUser row') =
          effectivePermissionMask (s.committed.loadUser row) :=
        (SameGrants.refl _ _).maskOf_eq ((Table.key_of_get hrow').trans hid.symm)
      rcases hmisread.final with hnone | ⟨p, hfinal, hdiffer⟩
      · cases hnone.symm.trans hedited
      · obtain rfl := Option.some.inj (hfinal.editor.symm.trans hedited)
        apply hdiffer
        change effectivePermissionMask (s.committed.loadUser row) = _
        rw [← hrows, ← hequal, hmask]

end Runs

/-! ### A role that is extended while it is assigned -/

/-- What a mint of the loaded user puts into the token. -/
def Point.minted : Point → Option (User × ℕ)
  | loaded user => some (user.toUser, effectivePermissionMask user)
  | _ => none

theorem loaded_of_minted {s : Database Party} {i : Party} {row : User} {mask : ℕ}
    (h : (s.point i).bind Point.minted = some (row, mask)) :
    ∃ user, s.point i = some (.loaded user) ∧ user.toUser = row ∧
      effectivePermissionMask user = mask := by
  obtain ⟨p, hp, hminted⟩ := Option.bind_eq_some_iff.mp h
  cases p with
  | loaded user =>
    obtain ⟨hrow, hmask⟩ := Prod.mk.inj (Option.some.inj hminted)
    exact ⟨user, hp, hrow, hmask⟩
  | _ => cases hminted

/-- An active user without a tenant gets a token. -/
theorem exists_token (t : Tables) {user : LoadedUser} (hactive : user.isActive = true)
    (htenant : user.tenantId = none) (hmask : effectivePermissionMask user < 2 ^ 256) :
    ∃ token payload, mintAccessToken plainJwt 30 t 0 user "password" = .ok token ∧
      verifyToken plainJwt 60 token = some payload ∧ payload.permVersion = user.permVersion ∧
      hexToMask (some payload.permMask) = .ok (effectivePermissionMask user) := by
  obtain ⟨text, htext⟩ := maskToHex_of_lt hmask
  have hnow : (60 : ℤ) < 0 + 30 * 60 := by decide
  have howner : ActiveOwner t user.toUser := by
    refine ⟨hactive, ?_⟩
    intro id hid
    cases htenant.symm.trans hid
  exact ⟨_, user.claims text (0 + 30 * 60) "password",
    mintAccessToken_eq_ok_iff.mpr ⟨howner, text, htext, rfl⟩, plainJwt.decode_encode 60 _ hnow,
    rfl, hexToMask_maskToHex _ hmask text htext⟩

/-- A request gives the role `reader` another permission. -/
def createForReader : Edit := ⟨true, 1, ⟨1, "role:create", some 0⟩⟩

/-- One after the other. -/
def assignedInTurn : List Party :=
  List.replicate 7 .editor ++ List.replicate 3 .assigner ++ List.replicate 5 .minter

/-- The role is assigned, and the token minted, before the edit commits. -/
def assignedMeanwhile : List Party :=
  List.replicate 6 .editor ++ List.replicate 3 .assigner ++ List.replicate 5 .minter ++ [.editor]

theorem token_current_iff_inTurn : ∃ s : Database Party, ∃ token payload,
    Steps Point.code (fun _ _ _ => True) (racing joined.toTables createForReader 2) s ∧
      verifyToken plainJwt 60 token = some payload ∧
      hexToMask (some payload.permMask) = .ok 3 ∧
      (Steps Point.code Unpassed (racing joined.toTables createForReader 2) s ↔
        ∀ row, s.committed.users.get 2 = some row → payload.permVersion = row.permVersion →
          hexToMask (some payload.permMask) =
            .ok (effectivePermissionMask (s.committed.loadUser row))) := by
  have hrun : (schedule Point.code (fun _ _ => true) assignedInTurn
      (racing joined.toTables createForReader 2)).any (fun s =>
        (s.point .editor).any isDone ∧ (s.point .assigner).any isDone ∧
        (s.point .minter).bind Point.minted = some ({ ann with permVersion := 2 }, 3)) = true := by
    decide +kernel
  obtain ⟨s, hs, htest⟩ := steps_of_schedule_any hrun
  obtain ⟨heditor, hassigner, hminter⟩ := of_decide_eq_true htest
  obtain ⟨users, hedited⟩ := done_of_isDone heditor
  obtain ⟨users', hassigned⟩ := done_of_isDone hassigner
  obtain ⟨user, hloaded, hrow, hmask⟩ := loaded_of_minted hminter
  obtain ⟨token, payload, hmint, hpayload, _, hclaim⟩ := @exists_token joined.toTables user
    (by rw [hrow]; rfl) (by rw [hrow]; rfl) (by rw [hmask]; decide)
  have hall : Steps Point.code (fun _ _ _ => True) (racing joined.toTables createForReader 2) s :=
    hs.mono (fun _ _ _ _ => trivial)
  exact ⟨s, token, payload, hall, hpayload, by rw [hclaim, hmask],
    token_current_iff plainJwt hall hedited hassigned hloaded hmint (by decide) hpayload⟩

/-- Both transactions commit, and the token has the version of the user, but not
the permission that the role has got. -/
theorem token_keeps_old_mask : ∃ s : Database Party, ∃ user token payload row,
    Steps Point.code (fun _ _ _ => True) (racing joined.toTables createForReader 2) s ∧
      (∃ users, s.point .editor = some (.done users)) ∧
      (∃ users, s.point .assigner = some (.done users)) ∧
      s.point .minter = some (.loaded user) ∧
      mintAccessToken plainJwt 30 joined.toTables 0 user "password" = .ok token ∧
      verifyToken plainJwt 60 token = some payload ∧
      s.committed.users.get 2 = some row ∧ payload.permVersion = row.permVersion ∧
      hexToMask (some payload.permMask) = .ok 2 ∧
      effectivePermissionMask (s.committed.loadUser row) = 3 := by
  have hrun : (schedule Point.code (fun _ _ => true) assignedMeanwhile
      (racing joined.toTables createForReader 2)).any (fun s =>
        (s.point .editor).any isDone ∧ (s.point .assigner).any isDone ∧
        (s.point .minter).bind Point.minted = some ({ ann with permVersion := 2 }, 2) ∧
        (s.committed.users.get 2).map (fun row =>
          (row.permVersion, effectivePermissionMask (s.committed.loadUser row))) =
            some (2, 3)) = true := by
    decide +kernel
  obtain ⟨s, hs, htest⟩ := steps_of_schedule_any hrun
  obtain ⟨heditor, hassigner, hminter, hafter⟩ := of_decide_eq_true htest
  obtain ⟨user, hloaded, hrow, hmask⟩ := loaded_of_minted hminter
  obtain ⟨row, hget, hafter⟩ := Option.map_eq_some_iff.mp hafter
  obtain ⟨hversion, hnew⟩ := Prod.mk.inj hafter
  obtain ⟨token, payload, hmint, hpayload, hsame, hclaim⟩ := @exists_token joined.toTables user
    (by rw [hrow]; rfl) (by rw [hrow]; rfl) (by rw [hmask]; decide)
  refine ⟨s, user, token, payload, row, hs.mono (fun _ _ _ _ => trivial),
    done_of_isDone heditor, done_of_isDone hassigner, hloaded, hmint, hpayload, hget, ?_,
    by rw [hclaim, hmask], hnew⟩
  rw [hsame, hversion, hrow]

end FastapiTemplate
