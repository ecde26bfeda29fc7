import FastapiTemplate.MaskAgreement
import FastapiTemplate.VersionRace

/-!
Two edits of one role at the same time. An edit computes the mask in memory from
the role that it has loaded and writes it as a value, while the association is
inserted or deleted row by row. So the mask keeps agreeing with the associations
as long as no edit commits a new mask while another one goes on with the mask
that it has loaded before, and it stops to agree for good when one does.
-/
namespace FastapiTemplate

open Library.KeyedTable Library.ReadCommitted Library.BitMask

/-! ### One edit -/

/-- The mask has the bits of the permissions attached to the role. -/
def Tables.MaskIs (t : Tables) (roleId : RoleId) (mask : ℕ) : Prop :=
  ∀ i, mask.testBit i = true ↔ t.AttachedBit roleId i

def Tables.cachedMask (t : Tables) (roleId : RoleId) : Option ℕ :=
  (t.roles.get roleId).map Role.permissionMask

/-- The cached mask of the role agrees with its permissions. -/
def Tables.RoleAgrees (t : Tables) (roleId : RoleId) : Prop :=
  ∃ mask, t.cachedMask roleId = some mask ∧ t.MaskIs roleId mask

/-- No two permissions have the same bit. -/
def Tables.BitsApart (t : Tables) : Prop :=
  ∀ p ∈ t.permissions.rows, ∀ q ∈ t.permissions.rows, ∀ b, p.bitPosition = some b →
    q.bitPosition = some b → p = q

theorem Db.bitsApart (db : Db) : db.toTables.BitsApart := by
  intro p hp q hq b hpb hqb
  by_contra hne
  have hpairwise := List.pairwise_filterMap.mp db.constraints.permissionBit
  have : Std.Symm (fun a a' : Permission => ∀ b, a.bitPosition = some b → ∀ b',
      a'.bitPosition = some b' → b ≠ b') :=
    ⟨fun _ _ h b hb b' hb' hsame => h b' hb' b hb hsame.symm⟩
  exact hpairwise.forall hp hq hne b hpb b hqb rfl

section Edit

variable {t : Tables} {e : Edit} {mask m : ℕ}

theorem Tables.MaskIs.unique (h : t.MaskIs e.roleId mask) (h' : t.MaskIs e.roleId m) : mask = m := by
  apply Nat.eq_of_testBit_eq
  intro i
  rw [Bool.eq_iff_iff, h i, h' i]

theorem Edit.testBit_mask {i : ℕ} : (e.mask m).testBit i = true ↔
    if e.permission.bitPosition = some i then e.adding = true else m.testBit i = true := by
  unfold Edit.mask
  by_cases hadding : e.adding = true
  · rw [if_pos hadding, testBit_maskWith]
    by_cases hbit : e.permission.bitPosition = some i <;> simp [hbit, hadding]
  · rw [if_neg hadding, testBit_maskWithout]
    by_cases hbit : e.permission.bitPosition = some i <;> simp [hbit, hadding]

/-- A permission without a bit leaves the mask alone. -/
theorem Edit.mask_of_none (h : e.permission.bitPosition = none) : e.mask m = m := by
  apply Nat.eq_of_testBit_eq
  intro i
  rw [Bool.eq_iff_iff, testBit_mask, h]
  simp

theorem Edit.mem_link {x : RoleId × PermissionId} : x ∈ (e.link t).rolePermissions ↔
    if x = (e.roleId, e.permission.id) then e.adding = true else x ∈ t.rolePermissions := by
  unfold Edit.link
  by_cases hadding : e.adding = true
  · by_cases hx : x = (e.roleId, e.permission.id) <;> simp [hadding, hx]
  · by_cases hx : x = (e.roleId, e.permission.id) <;> simp [hadding, hx]

/-- The edited mask is the one of the edited associations. -/
theorem Tables.MaskIs.link (h : t.MaskIs e.roleId m) (hrow : e.permission ∈ t.permissions.rows)
    (hapart : t.BitsApart) : (e.link t).MaskIs e.roleId (e.mask m) := by
  intro i
  rw [Edit.testBit_mask]
  by_cases hbit : e.permission.bitPosition = some i
  · rw [if_pos hbit]
    constructor
    · intro hadding
      exact ⟨e.permission, hrow, Edit.mem_link.mpr (by rw [if_pos rfl]; exact hadding), hbit⟩
    · rintro ⟨p, hp, hlink, hpbit⟩
      obtain rfl := hapart p hp e.permission hrow i hpbit hbit
      rw [Edit.mem_link, if_pos rfl] at hlink
      exact hlink
  · rw [if_neg hbit, h i]
    have hother : ∀ p ∈ t.permissions.rows, p.bitPosition = some i →
        (e.roleId, p.id) ≠ (e.roleId, e.permission.id) := by
      intro p hp hpbit hsame
      rw [List.inj_on_of_nodup_map t.permissions.nodup hp hrow (Prod.mk.inj hsame).2] at hpbit
      exact hbit hpbit
    constructor
    · rintro ⟨p, hp, hlink, hpbit⟩
      refine ⟨p, hp, Edit.mem_link.mpr ?_, hpbit⟩
      rw [if_neg (hother p hp hpbit)]
      exact hlink
    · rintro ⟨p, hp, hlink, hpbit⟩
      rw [Edit.mem_link, if_neg (hother p hp hpbit)] at hlink
      exact ⟨p, hp, hlink, hpbit⟩

/-- What passes the check of the service changes the mask, if it has a bit. -/
theorem Edit.mask_ne (h : t.MaskIs e.roleId m) (hrow : e.permission ∈ t.permissions.rows)
    (hapart : t.BitsApart) (hbit : e.permission.bitPosition ≠ none)
    (hcheck : e.check (t.permissionsOf e.roleId) = none) : e.mask m ≠ m := by
  obtain ⟨b, hb⟩ := Option.ne_none_iff_exists'.mp hbit
  have hattached : t.AttachedBit e.roleId b ↔
      e.permission.id ∈ (t.permissionsOf e.roleId).map Permission.id := by
    rw [List.mem_map]
    constructor
    · rintro ⟨p, hp, hlink, hpb⟩
      obtain rfl := hapart p hp e.permission hrow b hpb hb
      exact ⟨e.permission, Tables.mem_permissionsOf.mpr ⟨hp, hlink⟩, rfl⟩
    · rintro ⟨p, hp, hid⟩
      obtain ⟨_, hlink⟩ := Tables.mem_permissionsOf.mp hp
      rw [hid] at hlink
      exact ⟨e.permission, hrow, hlink, hb⟩
  intro hsame
  have hmask := @testBit_mask e m b
  rw [hsame, if_pos hb, h b, hattached] at hmask
  unfold Edit.check at hcheck
  by_cases hadding : e.adding = true
  · rw [if_pos hadding, if_pos (hmask.mpr hadding)] at hcheck
    cases hcheck
  · rw [if_neg hadding, if_neg (fun hmem => hadding (hmask.mp hmem))] at hcheck
    cases hcheck

/-- Edits of different bits commute. -/
theorem Edit.mask_comm {e' : Edit}
    (hapart : ∀ b, e.permission.bitPosition = some b → e'.permission.bitPosition ≠ some b) :
    e.mask (e'.mask m) = e'.mask (e.mask m) := by
  apply Nat.eq_of_testBit_eq
  intro i
  rw [Bool.eq_iff_iff, testBit_mask, testBit_mask, testBit_mask, testBit_mask]
  by_cases hbit : e.permission.bitPosition = some i
  · rw [if_pos hbit, if_neg (hapart i hbit), if_pos hbit]
  · rw [if_neg hbit, if_neg hbit]

/-- What another edit has changed is not changed back. -/
theorem Edit.mask_cancel {e' : Edit}
    (hapart : ∀ b, e.permission.bitPosition = some b → e'.permission.bitPosition ≠ some b)
    (h : e.mask (e'.mask m) = e.mask m) : e'.mask m = m := by
  apply Nat.eq_of_testBit_eq
  intro i
  have hi : (e.mask (e'.mask m)).testBit i = (e.mask m).testBit i := by rw [h]
  rw [Bool.eq_iff_iff] at hi ⊢
  by_cases hbit : e.permission.bitPosition = some i
  · rw [testBit_mask, if_neg (hapart i hbit)]
  · rw [testBit_mask, if_neg hbit, testBit_mask (e := e), if_neg hbit] at hi
    exact hi

end Edit

/-! ### Where an edit stands -/

/-- The mask that an edit flushes when it has loaded `m`. -/
def Edit.written (e : Edit) (m : ℕ) : Option ℕ :=
  if e.permission.bitPosition = none then none else some (e.mask m)

/-- The edit makes a difference to `m`, if its permission has a bit. -/
def Edit.Changes (e : Edit) (m : ℕ) : Prop :=
  e.permission.bitPosition ≠ none → e.mask m ≠ m

/-- The edit has loaded the role with the mask `m` and has not ended. -/
inductive Edit.Underway (e : Edit) (m : ℕ) : Point → Prop
  | loadPermissions (role : Role) : role.id = e.roleId → role.permissionMask = m →
      Underway e m (.loadPermissions e role)
  | flushMask : e.Changes m → e.permission.bitPosition ≠ none →
      Underway e m (.flushMask e (e.mask m))
  | flushLink : e.Changes m → Underway e m (.flushLink e (e.written m))
  | findHolders : e.Changes m → Underway e m (.findHolders e (e.written m))
  | bumpHolders (holders : Finset Uuid) : e.Changes m →
      Underway e m (.bumpHolders e (e.written m) holders)
  | commitEdit (holders : Finset Uuid) : e.Changes m →
      Underway e m (.commitEdit e (e.written m) holders)

/-- The tables that an edit commits. -/
def Edit.after (e : Edit) (m : ℕ) (holders : Finset Uuid) (t : Tables) : Tables :=
  Tables.bumped holders (e.link (e.flushed (e.written m) t))

section Underway

variable {e : Edit} {m mask : ℕ} {holders : Finset Uuid} {t t' : Tables} {p : Point}
  {q : Option Point} {roleId : RoleId}

theorem Edit.flushed_permissions (written : Option ℕ) :
    (e.flushed written t).permissions = t.permissions := by
  cases written <;> rfl

theorem Edit.flushed_rolePermissions (written : Option ℕ) :
    (e.flushed written t).rolePermissions = t.rolePermissions := by
  cases written <;> rfl

theorem Edit.after_permissions : (e.after m holders t).permissions = t.permissions :=
  Edit.flushed_permissions _

/-- After the commit the mask has to have the bits of the edited one. -/
theorem Tables.MaskIs.after (h : t.MaskIs e.roleId mask)
    (hrow : e.permission ∈ t.permissions.rows) (hapart : t.BitsApart) :
    (e.after m holders t).MaskIs e.roleId (e.mask mask) := by
  intro i
  rw [h.link hrow hapart i]
  have hpermissions : (e.after m holders t).permissions = (e.link t).permissions :=
    Edit.after_permissions
  refine (attachedBit_congr hpermissions ?_ i).symm
  intro permissionId
  change (e.roleId, permissionId) ∈ (e.link (e.flushed (e.written m) t)).rolePermissions ↔ _
  rw [Edit.mem_link, Edit.mem_link, Edit.flushed_rolePermissions]

/-- The cached mask after the commit. -/
theorem Edit.cachedMask_after (hmask : t.cachedMask e.roleId = some mask) :
    (e.after m holders t).cachedMask e.roleId =
      some (if e.permission.bitPosition = none then mask else e.mask m) := by
  have hroles : (e.after m holders t).roles = (e.flushed (e.written m) t).roles := rfl
  rw [Tables.cachedMask, hroles]
  unfold Edit.written
  by_cases hbit : e.permission.bitPosition = none
  · rw [if_pos hbit, if_pos hbit]
    exact hmask
  · rw [if_neg hbit, if_neg hbit]
    obtain ⟨role, hrole, _⟩ := Option.map_eq_some_iff.mp hmask
    have hget : (e.setMask (e.mask m) t).roles.get e.roleId =
        some { role with permissionMask := e.mask m } := by
      have hid := Table.key_of_get hrole
      rw [Edit.setMask, Table.get_update, hrole]
      simp [hid]
    change ((e.setMask (e.mask m) t).roles.get e.roleId).map Role.permissionMask = _
    rw [hget]
    rfl

/-- One step of an edit that has loaded `m`, when passing the check makes a
difference. -/
theorem Edit.Underway.moves (h : e.Underway m p) (hmoves : Point.outline.Moves t p t' q)
    (hpass : e.check (t.permissionsOf e.roleId) = none → e.Changes m) :
    (t' = t ∧ (q = none ∨ ∃ p', q = some p' ∧ (e.Underway m p' ∨ ∃ error, p' = .raised error))) ∨
      ∃ holders, p = .commitEdit e (e.written m) holders ∧ t' = e.after m holders t ∧
        q = some (.done holders) := by
  cases h with
  | loadPermissions role hid hmask =>
    left
    obtain ⟨hsame, hnone | hnext⟩ := hmoves.of_select rfl
    · exact ⟨hsame, Or.inl hnone⟩
    refine ⟨hsame, Or.inr ⟨_, hnext, ?_⟩⟩
    change e.Underway m (e.afterLoad role (t.permissionsOf role.id)) ∨
      ∃ error, e.afterLoad role (t.permissionsOf role.id) = .raised error
    rw [hid]
    unfold Edit.afterLoad
    rw [hmask]
    split
    · exact Or.inr ⟨_, rfl⟩
    · rename_i hcheck
      have hchanges := hpass hcheck
      split
      · rename_i hsame
        have hnone : e.written m = none := if_pos (by_contra (fun hbit => hchanges hbit hsame))
        rw [← hnone]
        exact Or.inl (.flushLink hchanges)
      · rename_i hne
        exact Or.inl (.flushMask hchanges (fun hbit => hne (Edit.mask_of_none hbit)))
  | flushMask hchanges hbit =>
    left
    obtain ⟨hsame, hnone | ⟨_, hnext⟩⟩ := hmoves.of_write rfl
    · exact ⟨hsame, Or.inl hnone⟩
    have hsome : e.written m = some (e.mask m) := if_neg hbit
    rw [← hsome] at hnext
    exact ⟨hsame, Or.inr ⟨_, hnext, Or.inl (.flushLink hchanges)⟩⟩
  | flushLink hchanges =>
    left
    obtain ⟨hsame, hnone | ⟨_, hnext⟩⟩ := hmoves.of_write rfl
    · exact ⟨hsame, Or.inl hnone⟩
    · exact ⟨hsame, Or.inr ⟨_, hnext, Or.inl (.findHolders hchanges)⟩⟩
  | findHolders hchanges =>
    left
    obtain ⟨hsame, hnone | hnext⟩ := hmoves.of_select rfl
    · exact ⟨hsame, Or.inl hnone⟩
    · exact ⟨hsame, Or.inr ⟨_, hnext, Or.inl (.bumpHolders _ hchanges)⟩⟩
  | bumpHolders holders hchanges =>
    left
    obtain ⟨hsame, hnone | ⟨_, hnext⟩⟩ := hmoves.of_write rfl
    · exact ⟨hsame, Or.inl hnone⟩
    · exact ⟨hsame, Or.inr ⟨_, hnext, Or.inl (.commitEdit holders hchanges)⟩⟩
  | commitEdit holders hchanges =>
    rcases hmoves.of_commit rfl with ⟨hsame, hnone⟩ | ⟨hafter, hnext⟩
    · exact Or.inl ⟨hsame, Or.inl hnone⟩
    · exact Or.inr ⟨holders, rfl, hafter, hnext⟩

end Underway

/-- The role is loaded for a permission with a bit, and the edit has not ended. -/
def Point.carriesMask : Point → Bool
  | loadPermissions e _ => e.permission.bitPosition.isSome
  | flushMask e _ => e.permission.bitPosition.isSome
  | flushLink e _ => e.permission.bitPosition.isSome
  | findHolders e _ => e.permission.bitPosition.isSome
  | bumpHolders e _ _ => e.permission.bitPosition.isSome
  | commitEdit e _ _ => e.permission.bitPosition.isSome
  | _ => false

theorem Edit.Underway.carriesMask {e : Edit} {m : ℕ} {p : Point} (h : e.Underway m p) :
    p.carriesMask = e.permission.bitPosition.isSome := by
  cases h <;> rfl

/-- The transaction has committed, or its service has raised. -/
inductive Point.Over : Point → Prop
  | done (users : Finset Uuid) : Over (.done users)
  | raised (error : Err) : Over (.raised error)

theorem Point.Over.code {p : Point} (h : p.Over) : p.code = .halt := by
  cases h <;> rfl

theorem Point.Over.carriesMask {p : Point} (h : p.Over) : p.carriesMask = false := by
  cases h <;> rfl

/-- A session that is over does not step. -/
theorem Point.Over.stays {p : Point} (h : p.Over) {t t' : Tables} {q : Option Point} :
    ¬ Point.outline.Moves t p t' q := by
  intro hmoves
  exact hmoves.not_halt h.code

/-! ### Edits in step -/

section Race

variable {ι : Type*} [DecidableEq ι] {edits : ι → Edit} {roleId : RoleId}
  {permissions : Table Permission.id} {s s' s₀ : Database ι} {i j : ι}

/-- No edit commits a mask while another one carries the mask it has loaded. -/
def Unraced (s : Database ι) (i : ι) (s' : Database ι) : Prop :=
  ∀ e mask holders, s.point i = some (.commitEdit e (some mask) holders) →
    (s'.point i).isSome = true → ∀ j, j ≠ i → (s.point j).any Point.carriesMask = false

/-- Edits of one role, each of a permission that is there. -/
structure EditsOf (edits : ι → Edit) (roleId : RoleId) (permissions : Table Permission.id) :
    Prop where
  role : ∀ i, (edits i).roleId = roleId
  row : ∀ i, (edits i).permission ∈ permissions.rows
  apart : ∀ p ∈ permissions.rows, ∀ q ∈ permissions.rows, ∀ b, p.bitPosition = some b →
    q.bitPosition = some b → p = q

omit [DecidableEq ι] in
theorem EditsOf.row_of (h : EditsOf edits roleId permissions) {t : Tables}
    (ht : t.permissions = permissions) (i : ι) : (edits i).permission ∈ t.permissions.rows := by
  rw [ht]
  exact h.row i

omit [DecidableEq ι] in
theorem EditsOf.bitsApart (h : EditsOf edits roleId permissions) {t : Tables}
    (ht : t.permissions = permissions) : t.BitsApart := by
  rw [Tables.BitsApart, ht]
  exact h.apart

/-- Before the load, with a mask that is cached still, or over. -/
inductive Edit.Stands (e : Edit) (mask : ℕ) : Point → Prop
  | loadRole : Stands e mask (.loadRole e)
  | underway {m : ℕ} {p : Point} : e.Underway m p →
      (e.permission.bitPosition ≠ none → m = mask) → Stands e mask p
  | ended {p : Point} : p.Over → Stands e mask p

/-- The cached mask agrees, and every edit goes on with it. -/
structure InStep (edits : ι → Edit) (roleId : RoleId) (permissions : Table Permission.id)
    (s : Database ι) : Prop where
  fits : Point.outline.Fits s
  permissions : s.committed.permissions = permissions
  agrees : ∃ mask, s.committed.cachedMask roleId = some mask ∧
    s.committed.MaskIs roleId mask ∧ ∀ i p, s.point i = some p → (edits i).Stands mask p

/-- A step of one edit, with what it does to the mask. -/
theorem InStep.moves (hedits : EditsOf edits roleId permissions)
    (h : InStep edits roleId permissions s) (hstep : Step Point.code s i s') :
    (s'.committed = s.committed ∧ ∀ mask, s.committed.cachedMask roleId = some mask →
      ∀ p, s'.point i = some p → (edits i).Stands mask p) ∨
      ∃ m holders, s.point i = some (.commitEdit (edits i) ((edits i).written m) holders) ∧
        ((edits i).permission.bitPosition ≠ none →
          s.committed.cachedMask roleId = some m ∧ (edits i).mask m ≠ m) ∧
        s'.committed = (edits i).after m holders s.committed ∧
        s'.point i = some (.done holders) := by
  obtain ⟨mask, hmask, hagrees, hstands⟩ := h.agrees
  obtain ⟨p, hp, hmoves⟩ := h.fits.moves hstep
  cases hstands i p hp with
  | loadRole =>
    left
    obtain ⟨hsame, hnext⟩ := hmoves.of_select rfl
    refine ⟨hsame, ?_⟩
    intro mask' hmask' p hp
    obtain rfl : mask = mask' := Option.some.inj (hmask.symm.trans hmask')
    obtain ⟨role, hrole, hcached⟩ := Option.map_eq_some_iff.mp hmask
    rcases hnext with hnone | hnext
    · rw [hnone] at hp
      cases hp
    · obtain rfl := Option.some.inj (hnext.symm.trans hp)
      have hread : Point.outline.pending (.loadRole (edits i)) s.committed = s.committed := rfl
      rw [hread, hedits.role i, hrole]
      exact .underway (.loadPermissions role ((Table.key_of_get hrole).trans (hedits.role i).symm)
        hcached) (fun _ => rfl)
  | @underway m _ hunderway hcarried =>
    have hpass : (edits i).check (s.committed.permissionsOf (edits i).roleId) = none →
        (edits i).Changes m := by
      intro hcheck hbit
      rw [hcarried hbit]
      exact Edit.mask_ne (by rw [hedits.role i]; exact hagrees) (hedits.row_of h.permissions i)
        (hedits.bitsApart h.permissions) hbit hcheck
    rcases hunderway.moves hmoves hpass with ⟨hsame, hnone | ⟨p', hp', hafter⟩⟩ |
      ⟨holders, rfl, hafter, hdone⟩
    · refine Or.inl ⟨hsame, ?_⟩
      intro _ _ p hp
      rw [hnone] at hp
      cases hp
    · refine Or.inl ⟨hsame, ?_⟩
      intro mask' hmask' p hp
      obtain rfl : mask = mask' := Option.some.inj (hmask.symm.trans hmask')
      obtain rfl : p' = p := Option.some.inj (hp'.symm.trans hp)
      rcases hafter with hafter | ⟨error, rfl⟩
      · exact .underway hafter hcarried
      · exact .ended (.raised error)
    · refine Or.inr ⟨m, holders, hp, ?_, hafter, hdone⟩
      intro hbit
      rw [hcarried hbit]
      rw [hcarried hbit] at hunderway
      refine ⟨hmask, ?_⟩
      cases hunderway with
      | commitEdit _ hchanges => exact hchanges hbit
  | ended hover => exact absurd hmoves hover.stays

omit [DecidableEq ι] in
/-- A commit gives the cached mask and the associations the same new mask, when
the edit goes on with the cached one. -/
theorem EditsOf.committed (hedits : EditsOf edits roleId permissions)
    (h : InStep edits roleId permissions s) {m mask : ℕ} (holders : Finset Uuid)
    (hmask : s.committed.cachedMask roleId = some mask) (hagrees : s.committed.MaskIs roleId mask)
    (hcached : (edits i).permission.bitPosition ≠ none → m = mask) :
    ((edits i).after m holders s.committed).cachedMask roleId = some ((edits i).mask mask) ∧
      ((edits i).after m holders s.committed).MaskIs roleId ((edits i).mask mask) := by
  have hrole := hedits.role i
  rw [← hrole] at hmask hagrees ⊢
  refine ⟨?_, hagrees.after (hedits.row_of h.permissions i) (hedits.bitsApart h.permissions)⟩
  rw [Edit.cachedMask_after hmask]
  by_cases hbit : (edits i).permission.bitPosition = none
  · rw [if_pos hbit, Edit.mask_of_none hbit]
  · rw [if_neg hbit, hcached hbit]

theorem InStep.step (hedits : EditsOf edits roleId permissions)
    (h : InStep edits roleId permissions s) (hstep : Step Point.code s i s')
    (hunraced : Unraced s i s') : InStep edits roleId permissions s' := by
  obtain ⟨mask, hmask, hagrees, hstands⟩ := h.agrees
  rcases h.moves hedits hstep with ⟨hsame, hself⟩ | ⟨m, holders, hp, hcarried, hafter, hdone⟩
  · refine ⟨h.fits.step hstep, by rw [hsame, h.permissions], mask, by rw [hsame, hmask],
      by rw [hsame]; exact hagrees, ?_⟩
    intro j p hp
    by_cases hj : j = i
    · subst hj
      exact hself mask hmask p hp
    · rw [hstep.point_of_ne hj] at hp
      exact hstands j p hp
  · have hcached : (edits i).permission.bitPosition ≠ none → m = mask := by
      intro hbit
      have hsame := (hcarried hbit).1
      rw [hmask] at hsame
      exact (Option.some.inj hsame).symm
    obtain ⟨hmask', hagrees'⟩ := hedits.committed h holders hmask hagrees hcached
    rw [← hafter] at hmask' hagrees'
    refine ⟨h.fits.step hstep, by rw [hafter, Edit.after_permissions, h.permissions], _, hmask',
      hagrees', ?_⟩
    intro j p hpoint
    by_cases hj : j = i
    · subst hj
      rw [hdone] at hpoint
      obtain rfl := Option.some.inj hpoint
      exact .ended (.done holders)
    rw [hstep.point_of_ne hj] at hpoint
    by_cases hbit : (edits i).permission.bitPosition = none
    · rw [Edit.mask_of_none hbit]
      exact hstands j p hpoint
    · -- a new mask is committed, so the other edit carries none
      have hwritten : (edits i).written m = some ((edits i).mask m) := if_neg hbit
      rw [hwritten] at hp
      have hnone := hunraced _ _ _ hp (by rw [hdone]; rfl) j hj
      rw [hpoint, Option.any_some] at hnone
      cases hstands j p hpoint with
      | loadRole => exact .loadRole
      | underway hunderway _ =>
        refine .underway hunderway ?_
        intro hsome
        rw [hunderway.carriesMask, Option.isSome_eq_false_iff, Option.isNone_iff_eq_none] at hnone
        exact absurd hnone hsome
      | ended hover => exact .ended hover

end Race

/-! ### Two edits, one of which is lost -/

section Lost

variable {edits : Bool → Edit} {roleId : RoleId} {permissions : Table Permission.id}
  {s s' s₀ : Database Bool} {i j : Bool} {m : ℕ}

/-- The second edit has nothing but the mask from before the first one, which has
committed. When it commits, too, the first one's bit is lost from the mask. -/
structure Overtaken (edits : Bool → Edit) (roleId : RoleId) (permissions : Table Permission.id)
    (m : ℕ) (i j : Bool) (s : Database Bool) : Prop where
  fits : Point.outline.Fits s
  permissions : s.committed.permissions = permissions
  first : ∃ users, s.point i = some (.done users)
  second : ∀ p, s.point j = some p →
    (∃ mask, s.committed.cachedMask roleId = some mask ∧ (edits j).Underway m p ∧
      s.committed.MaskIs roleId ((edits i).mask m)) ∨
    (∃ error, p = .raised error) ∨
    ∃ users, p = .done users ∧ s.committed.cachedMask roleId = some ((edits j).mask m) ∧
      s.committed.MaskIs roleId ((edits j).mask ((edits i).mask m))

theorem Overtaken.step (hedits : EditsOf edits roleId permissions) (hne : j ≠ i)
    (hapart : ∀ b, (edits j).permission.bitPosition = some b →
      (edits i).permission.bitPosition ≠ some b)
    (hbit : (edits j).permission.bitPosition ≠ none)
    (h : Overtaken edits roleId permissions m i j s) {k : Bool}
    (hstep : Step Point.code s k s') : Overtaken edits roleId permissions m i j s' := by
  obtain ⟨p, hp, hmoves⟩ := h.fits.moves hstep
  obtain ⟨users, hfirst⟩ := h.first
  have hk : k = j := by
    by_contra hkj
    have hki : k = i := by
      cases i <;> cases j <;> cases k <;> first | rfl | exact absurd rfl hne | exact absurd rfl hkj
    subst hki
    rw [hfirst] at hp
    obtain rfl := Option.some.inj hp
    exact (Point.Over.done users).stays hmoves
  subst hk
  have hfirst' : s'.point i = s.point i := hstep.point_of_ne hne.symm
  rcases h.second p hp with ⟨mask, hmask, hunderway, hagrees⟩ | ⟨error, rfl⟩ | ⟨users', rfl, _⟩
  · have hpass : (edits k).check (s.committed.permissionsOf (edits k).roleId) = none →
        (edits k).Changes m := by
      intro hcheck _ hsame
      have hchanged := Edit.mask_ne (by rw [hedits.role k]; exact hagrees)
        (hedits.row_of h.permissions k) (hedits.bitsApart h.permissions) hbit hcheck
      rw [Edit.mask_comm hapart, hsame] at hchanged
      exact hchanged rfl
    rcases hunderway.moves hmoves hpass with ⟨hsame, hnone | ⟨p', hp', hafter⟩⟩ |
      ⟨holders, _, hafter, hdone⟩
    · refine ⟨h.fits.step hstep, by rw [hsame, h.permissions], ⟨users, by rw [hfirst', hfirst]⟩, ?_⟩
      intro p' hp'
      rw [hnone] at hp'
      cases hp'
    · refine ⟨h.fits.step hstep, by rw [hsame, h.permissions], ⟨users, by rw [hfirst', hfirst]⟩, ?_⟩
      intro p'' hp''
      obtain rfl : p' = p'' := Option.some.inj (hp'.symm.trans hp'')
      rcases hafter with hafter | hraised
      · rw [hsame]
        exact Or.inl ⟨mask, hmask, hafter, hagrees⟩
      · exact Or.inr (Or.inl hraised)
    · refine ⟨h.fits.step hstep, by rw [hafter, Edit.after_permissions, h.permissions],
        ⟨users, by rw [hfirst', hfirst]⟩, ?_⟩
      intro p' hp'
      rw [hdone] at hp'
      obtain rfl := Option.some.inj hp'
      refine Or.inr (Or.inr ⟨holders, rfl, ?_, ?_⟩)
      · rw [hafter, ← hedits.role k]
        rw [← hedits.role k] at hmask
        rw [Edit.cachedMask_after hmask, if_neg hbit]
      · rw [hafter, ← hedits.role k]
        rw [← hedits.role k] at hagrees
        exact hagrees.after (hedits.row_of h.permissions k) (hedits.bitsApart h.permissions)
  · exact absurd hmoves (Point.Over.raised error).stays
  · exact absurd hmoves (Point.Over.done users').stays

/-- The first edit that commits a new mask while the other carries the old one. -/
theorem InStep.overtaken (hedits : EditsOf edits roleId permissions)
    (h : InStep edits roleId permissions s) (hstep : Step Point.code s i s')
    (hraced : ¬ Unraced s i s') : ∃ j m, j ≠ i ∧ (edits j).permission.bitPosition ≠ none ∧
      (edits i).mask m ≠ m ∧ Overtaken edits roleId permissions m i j s' := by
  unfold Unraced at hraced
  push Not at hraced
  obtain ⟨e, mask', holders', hp, hcommit, j, hj, hcarries⟩ := hraced
  rw [ne_eq, Bool.not_eq_false, Option.any_eq_true] at hcarries
  obtain ⟨p, hpoint, hcarries⟩ := hcarries
  obtain ⟨mask, hmask, hagrees, hstands⟩ := h.agrees
  obtain ⟨m, hwritten, hcached, hchanged, rfl⟩ : ∃ m, (edits i).written m = some mask' ∧
      m = mask ∧ (edits i).mask m ≠ m ∧ e = edits i := by
    cases hstands i _ hp with
    | @underway m _ hunderway hm =>
      generalize hwritten : some mask' = written at hunderway
      cases hunderway with
      | commitEdit _ hchanges =>
        have hbit : (edits i).permission.bitPosition ≠ none := by
          intro hnone
          rw [Edit.written, if_pos hnone] at hwritten
          cases hwritten
        exact ⟨m, rfl, hm hbit, hchanges hbit, rfl⟩
    | ended hover => cases hover
  subst hcached
  have hcommits : s'.committed = (edits i).after m holders' s.committed ∧
      s'.point i = some (.done holders') := by
    obtain ⟨p', hp', hmoves⟩ := h.fits.moves hstep
    obtain rfl := Option.some.inj (hp.symm.trans hp')
    rcases hmoves.of_commit rfl with ⟨_, hnone⟩ | ⟨hafter, hnext⟩
    · rw [hnone] at hcommit
      cases hcommit
    · refine ⟨?_, hnext⟩
      rw [hafter, Edit.after, hwritten]
      rfl
  obtain ⟨hafter, hdone⟩ := hcommits
  obtain ⟨hmask', hagrees'⟩ := hedits.committed h holders' hmask hagrees (fun _ => rfl)
  rw [← hafter] at hmask' hagrees'
  cases hstands j p hpoint with
  | loadRole => cases hcarries
  | ended hover =>
    rw [hover.carriesMask] at hcarries
    cases hcarries
  | underway hunderway hm =>
    rw [hunderway.carriesMask, Option.isSome_iff_ne_none] at hcarries
    rw [hm hcarries] at hunderway
    refine ⟨j, m, hj, hcarries, hchanged, h.fits.step hstep,
      by rw [hafter, Edit.after_permissions, h.permissions], ⟨_, hdone⟩, ?_⟩
    intro p' hp'
    rw [hstep.point_of_ne hj, hpoint] at hp'
    obtain rfl := Option.some.inj hp'
    exact Or.inl ⟨_, hmask', hunderway, hagrees'⟩

/-- The sessions of two edits before their first statements. -/
def editing (db : Db) (edits : Bool → Edit) : Database Bool :=
  ⟨db.toTables, fun i => some (.start (.loadRole (edits i)))⟩

theorem editing_inStep {db : Db} (hagrees : db.toTables.RoleAgrees roleId) :
    InStep edits roleId db.permissions (editing db edits) := by
  obtain ⟨mask, hmask, hagrees⟩ := hagrees
  refine ⟨?_, rfl, mask, hmask, hagrees, ?_⟩
  · intro i x hx
    obtain rfl := Option.some.inj hx
    exact ⟨rfl, rfl⟩
  · intro i p hp
    obtain rfl := Option.some.inj hp
    exact .loadRole

/-- Two edits of a role leave its mask in agreement exactly in the runs where
neither commits a new mask while the other carries the one it has loaded. -/
theorem role_agrees_iff {db : Db} (hrole : ∀ i, (edits i).roleId = roleId)
    (hrow : ∀ i, (edits i).permission ∈ db.permissions.rows)
    (hdistinct : (edits false).permission ≠ (edits true).permission)
    (hagrees : db.toTables.RoleAgrees roleId)
    (hrun : Steps Point.code (fun _ _ _ => True) (editing db edits) s)
    (hdone : ∀ i, ∃ users, s.point i = some (.done users)) :
    Steps Point.code Unraced (editing db edits) s ↔ s.committed.RoleAgrees roleId := by
  have hedits : EditsOf edits roleId db.permissions := ⟨hrole, hrow, db.bitsApart⟩
  have hapart : ∀ i j, j ≠ i → ∀ b, (edits j).permission.bitPosition = some b →
      (edits i).permission.bitPosition ≠ some b := by
    intro i j hne b hj hi
    have hsame := db.bitsApart _ (hrow j) _ (hrow i) b hj hi
    cases i <;> cases j
    · exact hne rfl
    · exact hdistinct hsame.symm
    · exact hdistinct hsame
    · exact hne rfl
  have hstart : InStep edits roleId db.permissions (editing db edits) := editing_inStep hagrees
  constructor
  · intro hunraced
    have hinStep : InStep edits roleId db.permissions s :=
      hunraced.invariant (fun _ _ _ hcond hstep h => h.step hedits hstep hcond) hstart
    obtain ⟨mask, hmask, hbits, _⟩ := hinStep.agrees
    exact ⟨mask, hmask, hbits⟩
  · rintro ⟨mask, hmask, hbits⟩
    have hcases : (Steps Point.code Unraced (editing db edits) s ∧
        InStep edits roleId db.permissions s) ∨
        ∃ i j m, j ≠ i ∧ (edits j).permission.bitPosition ≠ none ∧ (edits i).mask m ≠ m ∧
          Overtaken edits roleId db.permissions m i j s := by
      clear hdone hmask hbits
      induction hrun with
      | refl => exact Or.inl ⟨.refl, hstart⟩
      | @tail s s' _ hlast ih =>
        obtain ⟨k, _, hlast⟩ := hlast
        rcases ih with ⟨hunraced, hinStep⟩ | ⟨i, j, m, hne, hbit, hchanged, hlost⟩
        · by_cases hcond : Unraced s k s'
          · exact Or.inl ⟨hunraced.tail ⟨k, hcond, hlast⟩, hinStep.step hedits hlast hcond⟩
          · exact Or.inr ⟨k, hinStep.overtaken hedits hlast hcond⟩
        · exact Or.inr ⟨i, j, m, hne, hbit, hchanged,
            hlost.step hedits hne (hapart i j hne) hbit hlast⟩
    rcases hcases with ⟨hunraced, _⟩ | ⟨i, j, m, hne, hbit, hchanged, hlost⟩
    · exact hunraced
    · exfalso
      obtain ⟨users, hpoint⟩ := hdone j
      rcases hlost.second _ hpoint with
        ⟨_, _, hunderway, _⟩ | ⟨_, hraised⟩ | ⟨_, _, hcached, hattached⟩
      · cases hunderway
      · cases hraised
      · obtain rfl : mask = (edits j).mask m := Option.some.inj (hmask.symm.trans hcached)
        rw [← hrole j] at hbits hattached
        exact hchanged (Edit.mask_cancel (hapart i j hne) (hattached.unique hbits))

end Lost

/-! ### Two additions to one role -/

theorem Reachable.roleAgrees {db : Db} (h : Reachable db) {roleId : RoleId} {role : Role}
    (hrole : db.roles.get roleId = some role) : db.toTables.RoleAgrees roleId := by
  refine ⟨role.permissionMask, by rw [Tables.cachedMask, hrole, Option.map_some], ?_⟩
  obtain rfl := Table.key_of_get hrole
  exact h.masksAgree role (Table.mem_of_get hrole)

/-- Two requests add permissions to the role `reader`. -/
def twoAdditions (i : Bool) : Edit :=
  ⟨true, 1, if i then ⟨4, "role:update", some 3⟩ else ⟨1, "role:create", some 0⟩⟩

theorem twoAdditions_rows : ∀ i, (twoAdditions i).permission ∈ joined.permissions.rows := by
  decide +kernel

theorem joined_reader : joined.roles.get 1 = some ⟨1, "reader", none, 2⟩ ∧
    joined.toTables.RoleAgrees 1 := by
  have hrole : joined.roles.get 1 = some ⟨1, "reader", none, 2⟩ := by decide +kernel
  have hauthored : Reachable authored := .request _ _ _ seeded_reachable
  have hjoined : Reachable joined := .request _ _ _ hauthored
  exact ⟨hrole, hjoined.roleAgrees hrole⟩

def isDone : Point → Bool
  | .done _ => true
  | _ => false

theorem done_of_isDone {ι : Type*} {s : Database ι} {i : ι}
    (h : (s.point i).any isDone = true) : ∃ users, s.point i = some (.done users) := by
  obtain ⟨p, hp, hdone⟩ := (Option.any_eq_true _ _).mp h
  cases p with
  | done users => exact ⟨users, hp⟩
  | _ => cases hdone

/-- One after the other. -/
def additionsInTurn : List Bool := List.replicate 7 false ++ List.replicate 7 true

/-- Both load the role before either commits. -/
def additionsInterleaved : List Bool :=
  [false, false, true, true] ++ List.replicate 5 false ++ List.replicate 5 true

theorem role_agrees_iff_inTurn : ∃ s : Database Bool,
    Steps Point.code (fun _ _ _ => True) (editing joined twoAdditions) s ∧
      (∀ i, ∃ users, s.point i = some (.done users)) ∧ s.committed.cachedMask 1 = some 11 ∧
      (Steps Point.code Unraced (editing joined twoAdditions) s ↔ s.committed.RoleAgrees 1) := by
  have hrun : (schedule Point.code (fun _ _ => true) additionsInTurn
      (editing joined twoAdditions)).any (fun s => (∀ i, (s.point i).any isDone = true) ∧
        s.committed.cachedMask 1 = some 11) = true := by
    decide +kernel
  obtain ⟨s, hs, htest⟩ := steps_of_schedule_any hrun
  obtain ⟨hdone, hmask⟩ := of_decide_eq_true htest
  have hall : Steps Point.code (fun _ _ _ => True) (editing joined twoAdditions) s :=
    hs.mono (fun _ _ _ _ => trivial)
  exact ⟨s, hall, fun i => done_of_isDone (hdone i), hmask,
    role_agrees_iff (fun _ => rfl) twoAdditions_rows (by decide) joined_reader.2 hall
      (fun i => done_of_isDone (hdone i))⟩

/-- Both additions commit, and the mask has the bit of only one of them. -/
theorem additions_lose_bit : ∃ s : Database Bool,
    Steps Point.code (fun _ _ _ => True) (editing joined twoAdditions) s ∧
      (∀ i, ∃ users, s.point i = some (.done users)) ∧ joined.toTables.RoleAgrees 1 ∧
      s.committed.cachedMask 1 = some 10 ∧ (1, 1) ∈ s.committed.rolePermissions ∧
      ¬ s.committed.RoleAgrees 1 := by
  have hrun : (schedule Point.code (fun _ _ => true) additionsInterleaved
      (editing joined twoAdditions)).any (fun s => (∀ i, (s.point i).any isDone = true) ∧
        s.committed.cachedMask 1 = some 10 ∧ (1, 1) ∈ s.committed.rolePermissions ∧
        (⟨1, "role:create", some 0⟩ : Permission) ∈ s.committed.permissions.rows) = true := by
    decide +kernel
  obtain ⟨s, hs, htest⟩ := steps_of_schedule_any hrun
  obtain ⟨hdone, hmask, hlink, hrow⟩ := of_decide_eq_true htest
  refine ⟨s, hs.mono (fun _ _ _ _ => trivial), fun i => done_of_isDone (hdone i),
    joined_reader.2, hmask, hlink, ?_⟩
  rintro ⟨mask, hmask', hbits⟩
  obtain rfl : 10 = mask := Option.some.inj (hmask.symm.trans hmask')
  have hbit := (hbits 0).mpr ⟨_, hrow, hlink, rfl⟩
  cases hbit

end FastapiTemplate
