import Mathlib.Data.Nat.Bitwise

/-!
Natural numbers as sets of bit positions. Union is `|||`, difference is
`andNot`, and inclusion is `Within`; every law is stated bit by bit, so that a
fact about masks is read off from the positions that are set.
-/
namespace FastapiTemplate.Library.BitMask

/-- The mask with the single position `b`. -/
def bit (b : ℕ) : ℕ := 1 <<< b

/-- The positions of `a` that are not positions of `b`. -/
def andNot (a b : ℕ) : ℕ := a ^^^ (a &&& b)

def orBits (bits : List ℕ) : ℕ := bits.foldl (fun mask b => mask ||| bit b) 0

/-- Every position of `a` is a position of `b`. -/
def Within (a b : ℕ) : Prop := ∀ i, a.testBit i → b.testBit i

@[simp] theorem testBit_bit (b i : ℕ) : (bit b).testBit i = decide (b = i) := by
  rw [bit, Nat.one_shiftLeft, Nat.testBit_two_pow]

@[simp] theorem testBit_andNot (a b i : ℕ) :
    (andNot a b).testBit i = (a.testBit i && !b.testBit i) := by
  rw [andNot, Nat.testBit_xor, Nat.testBit_and]
  cases a.testBit i <;> cases b.testBit i <;> rfl

theorem eq_zero_iff (a : ℕ) : a = 0 ↔ ∀ i, a.testBit i = false := by
  constructor
  · rintro rfl i
    exact Nat.zero_testBit i
  · intro h
    apply Nat.eq_of_testBit_eq
    intro i
    rw [h i, Nat.zero_testBit]

/-- The subset test `a & ~b == 0`. -/
theorem andNot_eq_zero_iff (a b : ℕ) : andNot a b = 0 ↔ Within a b := by
  rw [eq_zero_iff]
  apply forall_congr'
  intro i
  rw [testBit_andNot]
  cases a.testBit i <;> cases b.testBit i <;> simp

/-- The single-bit test `mask & (1 << b) != 0`. -/
theorem and_bit_ne_zero_iff (mask b : ℕ) : mask &&& bit b ≠ 0 ↔ mask.testBit b = true := by
  constructor
  · intro h
    by_contra hb
    apply h
    rw [eq_zero_iff]
    intro i
    rw [Nat.testBit_and, testBit_bit]
    by_cases hi : b = i
    · subst i
      simpa using hb
    · simp [hi]
  · intro hb hzero
    have h := (eq_zero_iff _).mp hzero b
    rw [Nat.testBit_and, testBit_bit, hb] at h
    simp at h

theorem Within.refl (a : ℕ) : Within a a := fun _ h => h

theorem Within.trans {a b c : ℕ} (hab : Within a b) (hbc : Within b c) : Within a c :=
  fun i h => hbc i (hab i h)

theorem within_or_iff (a b c : ℕ) : Within (a ||| b) c ↔ Within a c ∧ Within b c := by
  constructor
  · intro h
    exact ⟨fun i ha => h i (by simp [ha]), fun i hb => h i (by simp [hb])⟩
  · rintro ⟨ha, hb⟩ i hi
    rw [Nat.testBit_or, Bool.or_eq_true] at hi
    exact hi.elim (ha i) (hb i)

theorem within_and_iff (a b c : ℕ) : Within a (b &&& c) ↔ Within a b ∧ Within a c := by
  constructor
  · intro h
    refine ⟨fun i ha => ?_, fun i ha => ?_⟩ <;>
      have hi := h i ha <;> rw [Nat.testBit_and, Bool.and_eq_true] at hi
    · exact hi.1
    · exact hi.2
  · rintro ⟨hb, hc⟩ i ha
    rw [Nat.testBit_and, hb i ha, hc i ha, Bool.and_self]

theorem within_bit_iff (b c : ℕ) : Within (bit b) c ↔ c.testBit b = true := by
  constructor
  · intro h
    exact h b (by simp)
  · intro h i hi
    rw [testBit_bit, decide_eq_true_eq] at hi
    exact hi ▸ h

theorem within_andNot (a b : ℕ) : Within (andNot a b) a := by
  intro i h
  rw [testBit_andNot, Bool.and_eq_true] at h
  exact h.1

/-- A left fold of unions sets the positions of the start and of every term. -/
theorem testBit_foldl_or {α : Type*} (f : α → ℕ) (xs : List α) (start i : ℕ) :
    (xs.foldl (fun mask x => mask ||| f x) start).testBit i = true ↔
      start.testBit i = true ∨ ∃ x ∈ xs, (f x).testBit i = true := by
  induction xs generalizing start with
  | nil => simp
  | cons x xs ih =>
    rw [List.foldl_cons, ih, Nat.testBit_or, Bool.or_eq_true]
    simp only [List.mem_cons, exists_eq_or_imp]
    exact or_assoc

theorem testBit_orBits (bits : List ℕ) (i : ℕ) :
    (orBits bits).testBit i = true ↔ i ∈ bits := by
  rw [orBits, testBit_foldl_or]
  simp

end FastapiTemplate.Library.BitMask
