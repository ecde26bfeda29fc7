import FastapiTemplate.Library.ReadCommitted

/-!
Runs that are as good as serial. A session that commits is validated when its
statements would go the same way on what is committed then, from its first one
on. Where every commit is validated, the committed data moves by whole
transactions, one after the other, however the statements interleave.
-/
namespace FastapiTemplate.Library.ReadCommitted

variable {ι σ κ P : Type*} [DecidableEq ι] [DecidableEq κ] {code : P → Command σ κ P}

/-! ### A session on its own -/

/-- A statement of a transaction, where the committed data stays. -/
inductive Outline.AloneStep (outline : Outline code) (c : σ) (p : P) : P → Prop
  | select {next : σ → P} : code p = .select next →
      AloneStep outline c p (next (outline.pending p c))
  | write {rows : Finset κ} {guard : σ → Bool} {effect : σ → σ} {next : P} :
      code p = .write rows guard effect next → guard (outline.pending p c) = true →
      AloneStep outline c p next

def Outline.Alone (outline : Outline code) (c : σ) : P → P → Prop :=
  Relation.ReflTransGen (outline.AloneStep c)

/-- What the statements of a transaction establish, one after the other. -/
theorem Outline.Alone.invariant {outline : Outline code} {c : σ} {p q : P} {I : P → Prop}
    (h : outline.Alone c p q) (hstep : ∀ p q, I p → outline.AloneStep c p q → I q) (hp : I p) :
    I q := by
  induction h with
  | refl => exact hp
  | tail _ hlast ih => exact hstep _ _ ih hlast

section AloneStep

variable {outline : Outline code} {c : σ} {p q : P}

theorem Outline.AloneStep.of_select (h : outline.AloneStep c p q) {next : σ → P}
    (hcode : code p = .select next) : q = next (outline.pending p c) := by
  cases h with
  | select hcode' =>
    obtain rfl := Command.select.inj (hcode.symm.trans hcode')
    rfl
  | write hcode' _ => cases hcode.symm.trans hcode'

theorem Outline.AloneStep.of_write (h : outline.AloneStep c p q) {rows : Finset κ}
    {guard : σ → Bool} {effect : σ → σ} {next : P}
    (hcode : code p = .write rows guard effect next) :
    guard (outline.pending p c) = true ∧ q = next := by
  cases h with
  | select hcode' => cases hcode.symm.trans hcode'
  | write hcode' hguard =>
    cases hcode.symm.trans hcode'
    exact ⟨hguard, rfl⟩

theorem Outline.AloneStep.not_commit (h : outline.AloneStep c p q) {next : P} :
    code p ≠ .commit next := by
  intro hcommit
  cases h with
  | select hcode => cases hcommit.symm.trans hcode
  | write hcode _ => cases hcommit.symm.trans hcode

theorem Outline.AloneStep.not_halt (h : outline.AloneStep c p q) : code p ≠ .halt := by
  intro hhalt
  cases h with
  | select hcode => cases hhalt.symm.trans hcode
  | write hcode _ => cases hhalt.symm.trans hcode

/-- A query leads where its answer says. -/
theorem Outline.aloneStep_of_select {next : σ → P} (hcode : code p = .select next)
    (hq : next (outline.pending p c) = q) : outline.AloneStep c p q := by
  rw [← hq]
  exact .select hcode

end AloneStep

/-- The whole transaction that begins at `p`. -/
def Outline.Transacts (outline : Outline code) (p : P) (c c' : σ) : Prop :=
  ∃ q next, outline.Alone c p q ∧ code q = .commit next ∧ c' = outline.pending q c

/-! ### Validated runs -/

/-- Steps of the named sessions, in the order of the list. -/
inductive InTurn (R : ι → σ → σ → Prop) : List ι → σ → σ → Prop
  | nil (c : σ) : InTurn R [] c c
  | snoc {is : List ι} {i : ι} {c c' c'' : σ} : InTurn R is c c' → R i c' c'' →
      InTurn R (is ++ [i]) c c''

omit [DecidableEq ι] in
theorem InTurn.mono {R R' : ι → σ → σ → Prop} {is : List ι} {c c' : σ} (h : InTurn R is c c')
    (hR : ∀ i c c', R i c c' → R' i c c') : InTurn R' is c c' := by
  induction h with
  | nil c => exact .nil c
  | snoc _ hlast ih => exact .snoc ih (hR _ _ _ hlast)

/-- The points of `done` are those that a commit leads to. -/
structure Ends (code : P → Command σ κ P) (done : P → Prop) : Prop where
  commit : ∀ {p next}, code p = .commit next → done next
  select : ∀ {p next}, code p = .select next → ∀ c, ¬ done (next c)
  write : ∀ {p rows guard effect next}, code p = .write rows guard effect next → ¬ done next
  halt : ∀ {p}, done p → code p = .halt

/-- If the statement commits, its session could start over on what is committed
and would come to the same point. -/
def Outline.Valid (outline : Outline code) (begins : ι → P) (s : State ι σ κ P) (i : ι)
    (s' : State ι σ κ P) : Prop :=
  ∀ p next, s.point i = some p → code p = .commit next → s'.point i = some next →
    outline.Alone s.committed (begins i) p

/-- A statement commits nothing, or a whole transaction. -/
theorem Outline.Valid.moved {outline : Outline code} {begins : ι → P} {s s' : State ι σ κ P}
    {i : ι} (hvalid : outline.Valid begins s i s') (hfits : outline.Fits s)
    (hstep : Step code s i s') :
    s'.committed = s.committed ∨ ∃ p next, s.point i = some p ∧ code p = .commit next ∧
      s'.committed = outline.pending p s.committed ∧
      outline.Transacts (begins i) s.committed s'.committed := by
  obtain ⟨p, hp, hmoves⟩ := hfits.moves hstep
  generalize hc : s'.committed = c', hq : s'.point i = q at hmoves
  cases hmoves with
  | select _ => exact Or.inl rfl
  | write _ _ => exact Or.inl rfl
  | @commit next hcode =>
    exact Or.inr ⟨p, next, hp, hcode, rfl, p, next, hvalid p next hp hcode hq, hcode, rfl⟩
  | rollback _ => exact Or.inl rfl

/-- The sessions of `order` have committed, in that order, from the data `c`. -/
structure Serial (outline : Outline code) (begins : ι → P) (done : P → Prop) (c : σ)
    (s : State ι σ κ P) (order : List ι) : Prop where
  fits : outline.Fits s
  nodup : order.Nodup
  mem_iff : ∀ i, i ∈ order ↔ ∃ p, s.point i = some p ∧ done p
  turns : InTurn (fun i => outline.Transacts (begins i)) order c s.committed

section Serial

variable {outline : Outline code} {begins : ι → P} {done : P → Prop} {c : σ}
  {s s' : State ι σ κ P} {order : List ι} {i : ι}

/-- Who has committed makes no more statements. -/
theorem Serial.notMem (h : Serial outline begins done c s order) (hends : Ends code done)
    (hstep : Step code s i s') : i ∉ order := by
  intro hmem
  obtain ⟨p, hp, hdone⟩ := (h.mem_iff i).mp hmem
  obtain ⟨p', hp', hmoves⟩ := h.fits.moves hstep
  obtain rfl := Option.some.inj (hp.symm.trans hp')
  exact hmoves.not_halt (hends.halt hdone)

/-- A statement that commits nothing. -/
theorem Serial.keeps (h : Serial outline begins done c s order) (hends : Ends code done)
    (hstep : Step code s i s') (hsame : s'.committed = s.committed)
    (hnot : ∀ p, s'.point i = some p → ¬ done p) : Serial outline begins done c s' order := by
  refine ⟨h.fits.step hstep, h.nodup, ?_, ?_⟩
  · intro j
    by_cases hj : j = i
    · subst hj
      refine iff_of_false (h.notMem hends hstep) ?_
      rintro ⟨p, hp, hdone⟩
      exact hnot p hp hdone
    · rw [hstep.point_of_ne hj]
      exact h.mem_iff j
  · rw [hsame]
    exact h.turns

/-- What is committed is the whole transaction, on what was committed before. -/
theorem Serial.commits (h : Serial outline begins done c s order) (hends : Ends code done)
    (hstep : Step code s i s') {next : P} (hnext : s'.point i = some next) (hdone : done next)
    (htransacts : outline.Transacts (begins i) s.committed s'.committed) :
    Serial outline begins done c s' (order ++ [i]) := by
  have hfree := h.notMem hends hstep
  refine ⟨h.fits.step hstep, ?_, ?_, .snoc h.turns htransacts⟩
  · have hnodup := h.nodup.concat hfree
    rw [List.concat_eq_append] at hnodup
    exact hnodup
  · intro j
    rw [List.mem_append, List.mem_singleton]
    by_cases hj : j = i
    · subst hj
      exact iff_of_true (Or.inr rfl) ⟨next, hnext, hdone⟩
    · rw [hstep.point_of_ne hj, or_iff_left hj]
      exact h.mem_iff j

theorem Serial.step (h : Serial outline begins done c s order) (hends : Ends code done)
    (hvalid : outline.Valid begins s i s') (hstep : Step code s i s') :
    ∃ order', Serial outline begins done c s' order' := by
  obtain ⟨p, hp, hmoves⟩ := h.fits.moves hstep
  generalize hc : s'.committed = c', hq : s'.point i = q at hmoves
  cases hmoves with
  | select hcode =>
    refine ⟨order, h.keeps hends hstep hc ?_⟩
    intro p' hp'
    obtain rfl := Option.some.inj (hq.symm.trans hp')
    exact hends.select hcode _
  | write hcode _ =>
    refine ⟨order, h.keeps hends hstep hc ?_⟩
    intro p' hp'
    obtain rfl := Option.some.inj (hq.symm.trans hp')
    exact hends.write hcode
  | @commit next hcode =>
    exact ⟨order ++ [i], h.commits hends hstep hq (hends.commit hcode)
      ⟨p, next, hvalid p next hp hcode hq, hcode, hc⟩⟩
  | rollback _ =>
    refine ⟨order, h.keeps hends hstep hc ?_⟩
    intro p' hp'
    rw [hq] at hp'
    cases hp'

/-- The committed data moves by the transactions of those that have committed. -/
theorem Serial.run (h : Serial outline begins done c s order) (hends : Ends code done)
    (hrun : Steps code (outline.Valid begins) s s') :
    ∃ order', Serial outline begins done c s' order' := by
  refine hrun.invariant (I := fun s => ∃ order, Serial outline begins done c s order) ?_
    ⟨order, h⟩
  rintro s i s' hvalid hstep ⟨order, h⟩
  exact h.step hends hvalid hstep

end Serial

end FastapiTemplate.Library.ReadCommitted
