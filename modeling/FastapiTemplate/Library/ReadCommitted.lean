import Mathlib.Data.Finset.Basic
import Mathlib.Data.Fintype.Defs
import Mathlib.Logic.Function.Basic
import Mathlib.Logic.Relation

/-!
Concurrent transactions at the isolation level READ COMMITTED. Each session
runs a script, one statement at a time. A query sees the data that is committed
when it runs, with the session's own writes on top. A write locks the rows it
touches, and waits while another session holds one of them; the locks are kept
until the transaction ends, so replaying its writes at the commit gives what it
wrote. A transaction can be rolled back at every point before its commit.
-/
namespace FastapiTemplate.Library.ReadCommitted

/-- What a script does at one of its points. A write is made when its guard
holds; a violated constraint is a guard that fails. -/
inductive Command (σ κ P : Type*)
  | select (next : σ → P)
  | write (rows : Finset κ) (guard : σ → Bool) (effect : σ → σ) (next : P)
  | commit (next : P)
  | halt

/-- A transaction in progress: what it has written, not yet committed, and the
rows it has locked. -/
structure Session (σ κ P : Type*) where
  point : P
  pending : σ → σ
  held : Finset κ

def Session.start {σ κ P : Type*} (point : P) : Session σ κ P := ⟨point, id, ∅⟩

/-- The committed data and the sessions that have not been rolled back. -/
structure State (ι σ κ P : Type*) where
  committed : σ
  sessions : ι → Option (Session σ κ P)

variable {ι σ κ P : Type*} [DecidableEq ι] [DecidableEq κ]

def State.set (s : State ι σ κ P) (i : ι) (x : Option (Session σ κ P)) : State ι σ κ P :=
  { s with sessions := Function.update s.sessions i x }

def State.point (s : State ι σ κ P) (i : ι) : Option P := (s.sessions i).map Session.point

inductive Step (code : P → Command σ κ P) (s : State ι σ κ P) (i : ι) : State ι σ κ P → Prop
  | select {x : Session σ κ P} {next : σ → P} : s.sessions i = some x →
      code x.point = .select next →
      Step code s i (s.set i (some { x with point := next (x.pending s.committed) }))
  | write {x : Session σ κ P} {rows : Finset κ} {guard : σ → Bool} {effect : σ → σ} {next : P} :
      s.sessions i = some x → code x.point = .write rows guard effect next →
      (∀ j y, j ≠ i → s.sessions j = some y → Disjoint rows y.held) →
      guard (x.pending s.committed) = true →
      Step code s i (s.set i (some ⟨next, effect ∘ x.pending, x.held ∪ rows⟩))
  | commit {x : Session σ κ P} {next : P} : s.sessions i = some x →
      code x.point = .commit next →
      Step code s i
        { (s.set i (some (.start next))) with committed := x.pending s.committed }
  | rollback {x : Session σ κ P} : s.sessions i = some x → code x.point ≠ .halt →
      Step code s i (s.set i none)

/-- Steps of any sessions, each of which meets `cond`. -/
def Steps (code : P → Command σ κ P) (cond : State ι σ κ P → ι → State ι σ κ P → Prop) :
    State ι σ κ P → State ι σ κ P → Prop :=
  Relation.ReflTransGen (fun s s' => ∃ i, cond s i s' ∧ Step code s i s')

section Run

variable {code : P → Command σ κ P} {cond : State ι σ κ P → ι → State ι σ κ P → Prop}
  {s s' : State ι σ κ P} {i j : ι}

theorem Steps.invariant {I : State ι σ κ P → Prop}
    (hstep : ∀ s i s', cond s i s' → Step code s i s' → I s → I s') (h : Steps code cond s s')
    (hs : I s) : I s' := by
  induction h with
  | refl => exact hs
  | tail _ hlast ih =>
    obtain ⟨i, hcond, hlast⟩ := hlast
    exact hstep _ i _ hcond hlast ih

theorem Steps.mono {cond' : State ι σ κ P → ι → State ι σ κ P → Prop}
    (hcond : ∀ s i s', cond s i s' → cond' s i s') (h : Steps code cond s s') :
    Steps code cond' s s' :=
  Relation.ReflTransGen.mono (fun _ _ ⟨i, hi, hstep⟩ => ⟨i, hcond _ i _ hi, hstep⟩) _ _ h

omit [DecidableEq κ] in
@[simp] theorem State.set_self (s : State ι σ κ P) (i : ι) (x : Option (Session σ κ P)) :
    (s.set i x).sessions i = x :=
  Function.update_self _ _ _

omit [DecidableEq κ] in
theorem State.set_of_ne (s : State ι σ κ P) {i j : ι} (hne : j ≠ i)
    (x : Option (Session σ κ P)) : (s.set i x).sessions j = s.sessions j :=
  Function.update_of_ne hne _ _

/-- A step is one session's. -/
theorem Step.sessions_of_ne (h : Step code s i s') (hne : j ≠ i) :
    s'.sessions j = s.sessions j := by
  cases h with
  | select _ _ => exact s.set_of_ne hne _
  | write _ _ _ _ => exact s.set_of_ne hne _
  | commit _ _ => exact s.set_of_ne hne _
  | rollback _ _ => exact s.set_of_ne hne _

/-! ### Locks -/

/-- No two sessions hold a row. -/
def State.Exclusive (s : State ι σ κ P) : Prop :=
  ∀ i j x y, i ≠ j → s.sessions i = some x → s.sessions j = some y → Disjoint x.held y.held

/-- The session that steps holds, after it, only rows that no other holds. -/
theorem Step.held_disjoint (h : Step code s i s') (hs : s.Exclusive) {x y : Session σ κ P}
    (hne : j ≠ i) (hx : s'.sessions i = some x) (hy : s.sessions j = some y) :
    Disjoint x.held y.held := by
  cases h with
  | @select x₀ _ hx₀ _ =>
    rw [State.set_self] at hx
    obtain rfl := Option.some.inj hx
    exact hs i j x₀ y hne.symm hx₀ hy
  | @write x₀ rows _ _ _ hx₀ _ hfree _ =>
    rw [State.set_self] at hx
    obtain rfl := Option.some.inj hx
    exact Finset.disjoint_union_left.mpr ⟨hs i j x₀ y hne.symm hx₀ hy, hfree j y hne hy⟩
  | commit _ _ =>
    change (s.set i _).sessions i = some x at hx
    rw [State.set_self] at hx
    obtain rfl := Option.some.inj hx
    exact Finset.disjoint_empty_left _
  | rollback _ _ =>
    rw [State.set_self] at hx
    cases hx

theorem Step.exclusive (h : Step code s i s') (hs : s.Exclusive) : s'.Exclusive := by
  intro j k x y hne hx hy
  by_cases hj : j = i
  · subst hj
    rw [h.sessions_of_ne hne.symm] at hy
    exact h.held_disjoint hs hne.symm hx hy
  · rw [h.sessions_of_ne hj] at hx
    by_cases hk : k = i
    · subst hk
      exact (h.held_disjoint hs hj hy hx).symm
    · rw [h.sessions_of_ne hk] at hy
      exact hs j k x y hne hx hy

end Run

/-! ### Outlines -/

/-- What a script has written and locked by each of its points. -/
structure Outline (code : P → Command σ κ P) where
  pending : P → σ → σ
  held : P → Finset κ
  select : ∀ {p next}, code p = .select next →
    ∀ s, pending (next s) = pending p ∧ held (next s) = held p
  write : ∀ {p rows guard effect next}, code p = .write rows guard effect next →
    pending next = effect ∘ pending p ∧ held next = held p ∪ rows
  commit : ∀ {p next}, code p = .commit next → pending next = id ∧ held next = ∅

section Outline

variable {code : P → Command σ κ P} {s s' : State ι σ κ P} {i j : ι} {p : P}

/-- Every session has written and locked what the outline says. -/
def Outline.Fits (outline : Outline code) (s : State ι σ κ P) : Prop :=
  ∀ i x, s.sessions i = some x → x.pending = outline.pending x.point ∧
    x.held = outline.held x.point

theorem Outline.Fits.step {outline : Outline code} (hs : outline.Fits s)
    (h : Step code s i s') : outline.Fits s' := by
  intro j y hy
  by_cases hj : j = i
  · subst hj
    cases h with
    | @select x next hx hcode =>
      rw [State.set_self] at hy
      obtain rfl := Option.some.inj hy
      obtain ⟨hpending, hheld⟩ := hs j x hx
      obtain ⟨hsame, hkept⟩ := outline.select hcode (x.pending s.committed)
      exact ⟨hpending.trans hsame.symm, hheld.trans hkept.symm⟩
    | @write x rows guard effect next hx hcode _ _ =>
      rw [State.set_self] at hy
      obtain rfl := Option.some.inj hy
      obtain ⟨hpending, hheld⟩ := hs j x hx
      obtain ⟨hafter, hlocked⟩ := outline.write hcode
      exact ⟨by rw [hafter, hpending], by rw [hlocked, hheld]⟩
    | @commit x next hx hcode =>
      change (s.set j _).sessions j = some y at hy
      rw [State.set_self] at hy
      obtain rfl := Option.some.inj hy
      obtain ⟨hafter, hlocked⟩ := outline.commit hcode
      exact ⟨hafter.symm, hlocked.symm⟩
    | rollback _ _ =>
      rw [State.set_self] at hy
      cases hy
  · rw [h.sessions_of_ne hj] at hy
    exact hs j y hy

/-- What a step does to the committed data `c` and the point `p` of its session. -/
inductive Outline.Moves (outline : Outline code) (c : σ) (p : P) : σ → Option P → Prop
  | select {next : σ → P} : code p = .select next →
      Moves outline c p c (some (next (outline.pending p c)))
  | write {rows : Finset κ} {guard : σ → Bool} {effect : σ → σ} {next : P} :
      code p = .write rows guard effect next → guard (outline.pending p c) = true →
      Moves outline c p c (some next)
  | commit {next : P} : code p = .commit next →
      Moves outline c p (outline.pending p c) (some next)
  | rollback : code p ≠ .halt → Moves outline c p c none

section Moves

variable {outline : Outline code} {c c' : σ} {q : Option P}

/-- A query goes to its next point, if it is not rolled back. -/
theorem Outline.Moves.of_select (h : outline.Moves c p c' q) {next : σ → P}
    (hcode : code p = .select next) :
    c' = c ∧ (q = none ∨ q = some (next (outline.pending p c))) := by
  cases h with
  | select hcode' =>
    obtain rfl := Command.select.inj (hcode.symm.trans hcode')
    exact ⟨rfl, Or.inr rfl⟩
  | write hcode' _ => cases hcode.symm.trans hcode'
  | commit hcode' => cases hcode.symm.trans hcode'
  | rollback _ => exact ⟨rfl, Or.inl rfl⟩

theorem Outline.Moves.of_write (h : outline.Moves c p c' q) {rows : Finset κ}
    {guard : σ → Bool} {effect : σ → σ} {next : P} (hcode : code p = .write rows guard effect next) :
    c' = c ∧ (q = none ∨ guard (outline.pending p c) = true ∧ q = some next) := by
  cases h with
  | select hcode' => cases hcode.symm.trans hcode'
  | write hcode' hguard =>
    cases hcode.symm.trans hcode'
    exact ⟨rfl, Or.inr ⟨hguard, rfl⟩⟩
  | commit hcode' => cases hcode.symm.trans hcode'
  | rollback _ => exact ⟨rfl, Or.inl rfl⟩

theorem Outline.Moves.of_commit (h : outline.Moves c p c' q) {next : P}
    (hcode : code p = .commit next) :
    c' = c ∧ q = none ∨ c' = outline.pending p c ∧ q = some next := by
  cases h with
  | select hcode' => cases hcode.symm.trans hcode'
  | write hcode' _ => cases hcode.symm.trans hcode'
  | commit hcode' =>
    cases hcode.symm.trans hcode'
    exact Or.inr ⟨rfl, rfl⟩
  | rollback _ => exact Or.inl ⟨rfl, rfl⟩

theorem Outline.Moves.not_halt (h : outline.Moves c p c' q) : code p ≠ .halt := by
  intro hhalt
  cases h with
  | select hcode => cases hhalt.symm.trans hcode
  | write hcode _ => cases hhalt.symm.trans hcode
  | commit hcode => cases hhalt.symm.trans hcode
  | rollback hcode => exact hcode hhalt

end Moves

theorem Outline.Fits.moves {outline : Outline code} (hs : outline.Fits s)
    (h : Step code s i s') :
    ∃ p, s.point i = some p ∧ outline.Moves s.committed p s'.committed (s'.point i) := by
  cases h with
  | @select x next hx hcode =>
    refine ⟨x.point, by rw [State.point, hx, Option.map_some], ?_⟩
    rw [State.point, State.set_self, (hs i x hx).1]
    exact .select hcode
  | @write x rows guard effect next hx hcode _ hguard =>
    refine ⟨x.point, by rw [State.point, hx, Option.map_some], ?_⟩
    rw [State.point, State.set_self]
    rw [(hs i x hx).1] at hguard
    exact .write hcode hguard
  | @commit x next hx hcode =>
    refine ⟨x.point, by rw [State.point, hx, Option.map_some], ?_⟩
    have hpoint : State.point { (s.set i (some (.start next))) with
        committed := x.pending s.committed } i = some next := by
      change ((s.set i (some (.start next))).sessions i).map Session.point = some next
      rw [State.set_self]
      rfl
    rw [hpoint, (hs i x hx).1]
    exact .commit hcode
  | @rollback x hx hcode =>
    refine ⟨x.point, by rw [State.point, hx, Option.map_some], ?_⟩
    rw [State.point, State.set_self]
    exact .rollback hcode

theorem Step.point_of_ne (h : Step code s i s') (hne : j ≠ i) : s'.point j = s.point j := by
  rw [State.point, State.point, h.sessions_of_ne hne]

/-- A script writes only rows that it has locked, as `row` tells them apart. -/
def Outline.Locks {V : Type*} (outline : Outline code) (row : κ → σ → V) : Prop :=
  ∀ p k, k ∉ outline.held p → ∀ c, row k (outline.pending p c) = row k c

/-- A row that a session holds is not changed by the steps of others. -/
theorem Step.held_row {V : Type*} {outline : Outline code} {row : κ → σ → V}
    (h : Step code s i s') (hlocks : outline.Locks row) (hfits : outline.Fits s)
    (hs : s.Exclusive) (hne : j ≠ i) {y : Session σ κ P} (hy : s.sessions j = some y) {k : κ}
    (hk : k ∈ y.held) : row k s'.committed = row k s.committed := by
  cases h with
  | select _ _ => rfl
  | write _ _ _ _ => rfl
  | @commit x next hx _ =>
    obtain ⟨hpending, hheld⟩ := hfits i x hx
    have hfree : k ∉ outline.held x.point := by
      rw [← hheld]
      exact Finset.disjoint_right.mp (hs i j x y hne.symm hx hy) hk
    change row k (x.pending s.committed) = row k s.committed
    rw [hpending]
    exact hlocks x.point k hfree s.committed
  | rollback _ _ => rfl

end Outline

/-! ### Running a schedule -/

section Schedule

variable [Fintype ι] (code : P → Command σ κ P)

/-- The next statement of a session, when it does not have to wait. -/
def advance (s : State ι σ κ P) (i : ι) : Option (State ι σ κ P) :=
  match s.sessions i with
  | none => none
  | some x =>
    match code x.point with
    | .select next => some (s.set i (some { x with point := next (x.pending s.committed) }))
    | .write rows guard effect next =>
      if (∀ j, j ≠ i → (s.sessions j).all (fun y => Disjoint rows y.held) = true) ∧
          guard (x.pending s.committed) = true then
        some (s.set i (some ⟨next, effect ∘ x.pending, x.held ∪ rows⟩))
      else none
    | .commit next =>
      some { (s.set i (some (.start next))) with committed := x.pending s.committed }
    | .halt => none

/-- One statement after the other, in the order of the schedule, as long as
`cond` holds before each. -/
def schedule (cond : State ι σ κ P → ι → Bool) :
    List ι → State ι σ κ P → Option (State ι σ κ P)
  | [], s => some s
  | i :: is, s => if cond s i then (advance code s i).bind (schedule cond is) else none

variable {code}

theorem step_of_advance {s s' : State ι σ κ P} {i : ι} (h : advance code s i = some s') :
    Step code s i s' := by
  unfold advance at h
  split at h
  · cases h
  · rename_i x hx
    split at h
    · rename_i next hcode
      obtain rfl := Option.some.inj h
      exact .select hx hcode
    · rename_i rows guard effect next hcode
      split at h
      · rename_i hfree
        obtain rfl := Option.some.inj h
        refine .write hx hcode ?_ hfree.2
        intro j y hne hy
        have hdisjoint := hfree.1 j hne
        rw [hy] at hdisjoint
        exact of_decide_eq_true hdisjoint
      · cases h
    · rename_i next hcode
      obtain rfl := Option.some.inj h
      exact .commit hx hcode
    · cases h

theorem steps_of_schedule {cond : State ι σ κ P → ι → Bool} {is : List ι}
    {s s' : State ι σ κ P} (h : schedule code cond is s = some s') :
    Steps code (fun s i _ => cond s i = true) s s' := by
  induction is generalizing s with
  | nil =>
    obtain rfl := Option.some.inj h
    exact .refl
  | cons i is ih =>
    unfold schedule at h
    split at h
    · rename_i hcond
      obtain ⟨s₁, hadvance, hrest⟩ := Option.bind_eq_some_iff.mp h
      exact .head ⟨i, hcond, step_of_advance hadvance⟩ (ih hrest)
    · cases h

theorem steps_of_schedule_any {cond : State ι σ κ P → ι → Bool} {is : List ι}
    {s : State ι σ κ P} {test : State ι σ κ P → Bool}
    (h : (schedule code cond is s).any test = true) :
    ∃ s', Steps code (fun s i _ => cond s i = true) s s' ∧ test s' = true := by
  obtain ⟨s', hs', htest⟩ := (Option.any_eq_true _ _).mp h
  exact ⟨s', steps_of_schedule hs', htest⟩

end Schedule

end FastapiTemplate.Library.ReadCommitted
