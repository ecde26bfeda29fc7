import Mathlib.Data.List.Induction
import Mathlib.Tactic.Ring

/-!
Fixed-width big-endian positional notation in an arbitrary base. `toDigits`
writes the lowest `width` digits of a number and `ofDigits` reads a digit
list back; they are inverse to each other on numbers that fit the width and
on digit lists of that width. Lowercase hexadecimal text is the instance
with base sixteen and one character for each digit.
-/
namespace FastapiTemplate.Library.Positional

def toDigits (base : ℕ) : ℕ → ℕ → List ℕ
  | 0, _ => []
  | width + 1, n => toDigits base width (n / base) ++ [n % base]

def ofDigits (base : ℕ) (digits : List ℕ) : ℕ :=
  digits.foldl (fun acc d => acc * base + d) 0

@[simp] theorem toDigits_length (base width n : ℕ) :
    (toDigits base width n).length = width := by
  induction width generalizing n with
  | zero => rfl
  | succ width ih => simp [toDigits, ih]

theorem toDigits_lt (base width n : ℕ) (hb : 0 < base) :
    ∀ d ∈ toDigits base width n, d < base := by
  induction width generalizing n with
  | zero => simp [toDigits]
  | succ width ih =>
    intro d hd
    rcases List.mem_append.mp hd with hd | hd
    · exact ih (n / base) d hd
    · rw [List.mem_singleton.mp hd]
      exact Nat.mod_lt n hb

theorem ofDigits_append_singleton (base : ℕ) (digits : List ℕ) (d : ℕ) :
    ofDigits base (digits ++ [d]) = ofDigits base digits * base + d := by
  simp [ofDigits]

/-- Reading back the digits of a number that fits the width. -/
theorem ofDigits_toDigits (base width n : ℕ) (hn : n < base ^ width) :
    ofDigits base (toDigits base width n) = n := by
  induction width generalizing n with
  | zero =>
    rw [pow_zero] at hn
    simp only [toDigits, ofDigits, List.foldl_nil]
    omega
  | succ width ih =>
    have hdiv : n / base < base ^ width := by
      apply Nat.div_lt_of_lt_mul
      rwa [← pow_succ']
    rw [toDigits, ofDigits_append_singleton, ih (n / base) hdiv]
    exact Nat.div_add_mod' n base

/-- Writing back a digit list of exactly the given width. -/
theorem toDigits_ofDigits (base : ℕ) (digits : List ℕ) (hd : ∀ d ∈ digits, d < base) :
    toDigits base digits.length (ofDigits base digits) = digits := by
  induction digits using List.reverseRecOn with
  | nil => rfl
  | append_singleton digits d ih =>
    have hlast : d < base := hd d (by simp)
    have hbase : 0 < base := by omega
    rw [List.length_append, List.length_singleton, toDigits, ofDigits_append_singleton]
    have hdiv : (ofDigits base digits * base + d) / base = ofDigits base digits := by
      rw [Nat.add_comm, Nat.add_mul_div_right _ _ hbase, Nat.div_eq_of_lt hlast, Nat.zero_add]
    have hmod : (ofDigits base digits * base + d) % base = d := by
      rw [Nat.add_comm, Nat.add_mul_mod_self_right, Nat.mod_eq_of_lt hlast]
    rw [hdiv, hmod, ih (fun x hx => hd x (by simp [hx]))]

theorem ofDigits_lt (base : ℕ) (digits : List ℕ) (hd : ∀ d ∈ digits, d < base) :
    ofDigits base digits < base ^ digits.length := by
  induction digits using List.reverseRecOn with
  | nil => simp [ofDigits]
  | append_singleton digits d ih =>
    have hlast : d < base := hd d (by simp)
    have hinit := ih (fun x hx => hd x (by simp [hx]))
    rw [List.length_append, List.length_singleton, ofDigits_append_singleton, pow_succ]
    have hstep : (ofDigits base digits + 1) * base ≤ base ^ digits.length * base :=
      Nat.mul_le_mul_right base hinit
    rw [Nat.add_mul, Nat.one_mul] at hstep
    omega

/-- The lowercase hexadecimal character of a digit below sixteen. -/
def hexChar (d : ℕ) : Char :=
  if d < 10 then Char.ofNat (48 + d) else Char.ofNat (87 + d)

def hexValue (c : Char) : Option ℕ :=
  if '0' ≤ c ∧ c ≤ '9' then some (c.toNat - 48)
  else if 'a' ≤ c ∧ c ≤ 'f' then some (c.toNat - 87)
  else if 'A' ≤ c ∧ c ≤ 'F' then some (c.toNat - 55)
  else none

theorem hexValue_hexChar (d : ℕ) (hd : d < 16) : hexValue (hexChar d) = some d := by
  have hall : ∀ e : Fin 16, hexValue (hexChar e.val) = some e.val := by decide
  exact hall ⟨d, hd⟩

/-- Decoding the characters of a list of hexadecimal digits returns the digits. -/
theorem mapM_hexValue_map_hexChar (digits : List ℕ) (hd : ∀ d ∈ digits, d < 16) :
    (digits.map hexChar).mapM hexValue = some digits := by
  induction digits with
  | nil => rfl
  | cons d digits ih =>
    have hhead := hexValue_hexChar d (hd d (by simp))
    have htail := ih (fun x hx => hd x (by simp [hx]))
    rw [List.map_cons, List.mapM_cons, hhead, htail]
    rfl

end FastapiTemplate.Library.Positional
