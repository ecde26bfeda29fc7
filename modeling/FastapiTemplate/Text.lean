import FastapiTemplate.Library.Regex
import Mathlib.Data.List.DropRight

/-!
Python strings as sequences of code points, lone surrogates included, with the
string operations and the character classes of `re` that the validation
helpers use. Which characters are letters, digits or spaces is a matter of the
Unicode database; the classes are fixed on the ASCII characters only.
-/
namespace FastapiTemplate

open Library.Regex

abbrev CodePoint := Fin 0x110000
abbrev Text := List CodePoint

instance : LawfulBEq CodePoint := inferInstance

def codePoint (c : Char) : CodePoint := ⟨c.toNat, by
  have hvalid := c.valid
  simp only [Char.toNat, UInt32.isValidChar, Nat.isValidChar] at *
  omega⟩

theorem codePoint_injective : Function.Injective codePoint := by
  intro c d h
  have hval : (codePoint c).val = (codePoint d).val := by rw [h]
  exact Char.toNat_inj.mp hval

def text (s : String) : Text := s.toList.map codePoint

/-- The letters outside ASCII that `re.IGNORECASE` identifies with `i` (the
dotted capital and the dotless small letter), `s` (the long s) and `k` (the
Kelvin sign). -/
def caseTwins : List CodePoint := [0x130, 0x131, 0x17F, 0x212A]

theorem not_contains_caseTwins {c : CodePoint} (hc : c.val < 128) :
    caseTwins.contains c = false := by
  have hlarge : ∀ d ∈ caseTwins, 128 ≤ d.val := by
    simp only [caseTwins, List.forall_mem_cons]
    refine ⟨?_, ?_, ?_, ?_, List.forall_mem_nil _⟩ <;> decide +kernel
  rw [Bool.eq_false_iff]
  intro h
  have := hlarge c (List.contains_iff_mem.mp h)
  omega

/-- `str.isalnum`, `str.isdecimal` and `str.isspace` of one character. -/
structure UnicodeData where
  isAlnum : CodePoint → Bool
  isDecimal : CodePoint → Bool
  isSpace : CodePoint → Bool
  isAlnum_ascii : ∀ c : Char, c.toNat < 128 → isAlnum (codePoint c) = c.isAlphanum
  isDecimal_ascii : ∀ c : Char, c.toNat < 128 → isDecimal (codePoint c) = c.isDigit
  isSpace_ascii : ∀ c : Char, c.toNat < 128 → isSpace (codePoint c) =
    decide (9 ≤ c.toNat ∧ c.toNat ≤ 13 ∨ 28 ≤ c.toNat ∧ c.toNat ≤ 32)
  isAlnum_of_isDecimal : ∀ c, isDecimal c = true → isAlnum c = true
  not_isAlnum_of_isSpace : ∀ c, isSpace c = true → isAlnum c = false
  isAlnum_caseTwins : ∀ c ∈ caseTwins, isAlnum c = true

/-- The character `\w` of `re`. -/
def UnicodeData.isWord (u : UnicodeData) (c : CodePoint) : Bool := u.isAlnum c || c == codePoint '_'

/-- The boundary `\b` of `re`. -/
def UnicodeData.atBoundary (u : UnicodeData) (before after : Text) : Bool :=
  before.head?.any u.isWord != after.head?.any u.isWord

/-- The classes with the ASCII characters and the twins alone. -/
def asciiData : UnicodeData where
  isAlnum c := (Char.ofNat c).isAlphanum || caseTwins.contains c
  isDecimal c := (Char.ofNat c).isDigit
  isSpace c := decide (9 ≤ c.val ∧ c.val ≤ 13 ∨ 28 ≤ c.val ∧ c.val ≤ 32)
  isAlnum_ascii c hc := by
    rw [not_contains_caseTwins hc]
    simp [codePoint]
  isDecimal_ascii c _ := by simp [codePoint]
  isSpace_ascii _ _ := rfl
  isAlnum_of_isDecimal c h := by simp [Char.isAlphanum, h]
  not_isAlnum_of_isSpace c h := by
    have hlow : ∀ n < 33, 9 ≤ n ∧ n ≤ 13 ∨ 28 ≤ n ∧ n ≤ 32 →
        (Char.ofNat n).isAlphanum = false := by decide
    simp only [decide_eq_true_eq] at h
    rw [hlow c.val (by omega) h, not_contains_caseTwins (by omega)]
    rfl
  isAlnum_caseTwins c h := by
    rw [List.contains_iff_mem.mpr h, Bool.or_true]

/-! ### Parts of patterns -/

namespace Re

/-- A fixed string, without flags. -/
def exactly (s : String) : Pattern CodePoint := .literal ((text s).map fun c => (· == c))

/-- The dot, without `re.DOTALL`. -/
def dot (c : CodePoint) : Bool := c != codePoint '\n'

/-- An ASCII character with `re.IGNORECASE`. -/
def ignoreCase (a : Char) (c : CodePoint) : Bool :=
  c == codePoint a.toLower || c == codePoint a.toUpper ||
    a.toLower == 'i' && (c == 0x130 || c == 0x131) || a.toLower == 's' && c == 0x17F ||
    a.toLower == 'k' && c == 0x212A

/-- A fixed string with `re.IGNORECASE`. -/
def caseless (s : String) : Pattern CodePoint := .literal (s.toList.map ignoreCase)

theorem matches_exactly (s : String) (before piece after : Text) :
    Matches (exactly s) before piece after ↔ piece = text s := by
  rw [exactly, matches_literal, List.forall₂_map_left_iff]
  simp only [beq_iff_eq]
  generalize text s = word
  constructor
  · intro h
    induction h with
    | nil => rfl
    | cons hc _ ih => rw [hc, ih]
  · rintro rfl
    exact List.forall₂_same.mpr fun _ _ => rfl

end Re

/-! ### Operations on strings -/

section Strings

variable {p : CodePoint → Bool} {s t : Text} {c : CodePoint}

/-- `s.strip(chars)`. -/
def strip (p : CodePoint → Bool) (s : Text) : Text := (s.dropWhile p).rdropWhile p

/-- `s[:k]`, where a negative bound counts from the end. -/
def sliceTo (k : ℤ) (s : Text) : Text :=
  if k < 0 then s.take (s.length + k).toNat else s.take k.toNat

/-- `s.rpartition(sep)` for one character. -/
def rpartition (sep : CodePoint) (s : Text) : Text × Text × Text :=
  if sep ∈ s then ((s.rdropWhile (· != sep)).dropLast, [sep], s.rtakeWhile (· != sep))
  else ([], [], s)

/-- `s or t`. -/
def orElse (s t : Text) : Text := if s = [] then t else s

/-- Neither the first character nor the last one is in the class. -/
def Trimmed (p : CodePoint → Bool) (s : Text) : Prop :=
  (∀ c ∈ s.head?, p c = false) ∧ ∀ c ∈ s.getLast?, p c = false

theorem strip_within (p : CodePoint → Bool) (s : Text) : strip p s <:+: s :=
  (List.rdropWhile_prefix p _).isInfix.trans (List.dropWhile_suffix p).isInfix

theorem strip_length_le (p : CodePoint → Bool) (s : Text) : (strip p s).length ≤ s.length :=
  (strip_within p s).length_le

theorem strip_of_trimmed (h : Trimmed p s) : strip p s = s := by
  have hfirst : s.dropWhile p = s := by
    rw [List.dropWhile_eq_self_iff]
    intro hpos
    have hget := h.1 s[0] (by simp [List.head?_eq_getElem?])
    simpa using hget
  rw [strip, hfirst, List.rdropWhile_eq_self_iff]
  intro hne
  have hget := h.2 (s.getLast hne) (List.getLast_mem_getLast? hne)
  simpa using hget

theorem strip_trimmed (p : CodePoint → Bool) (s : Text) : Trimmed p (strip p s) := by
  constructor
  · intro c hc
    obtain ⟨t, ht⟩ := List.rdropWhile_prefix p (s.dropWhile p)
    have hhead : (s.dropWhile p).head? = some c := by
      rw [← ht]
      exact by simp [show ((s.dropWhile p).rdropWhile p).head? = some c from hc]
    have hnot := List.head?_dropWhile_not p s
    rw [hhead] at hnot
    exact hnot
  · intro c hc
    have hne : strip p s ≠ [] := by
      intro hnil
      simp [hnil] at hc
    have hnot := List.rdropWhile_last_not p (s.dropWhile p) hne
    rw [List.getLast?_eq_some_getLast hne, Option.mem_some_iff] at hc
    rw [← hc]
    exact Bool.eq_false_iff.mpr hnot

/-- A string that starts outside the class keeps its start. -/
theorem strip_cons (h : p c = false) (s : Text) : ∃ t, strip p (c :: s) = c :: t := by
  have hdrop : (c :: s).dropWhile p = c :: s := by simp [h]
  rw [strip, hdrop]
  obtain ⟨t, ht⟩ := List.rdropWhile_prefix p (c :: s)
  cases hcut : (c :: s).rdropWhile p with
  | nil =>
    have hall := List.rdropWhile_eq_nil_iff.mp hcut c (by simp)
    simp [h] at hall
  | cons d cut =>
    rw [hcut, List.cons_append, List.cons.injEq] at ht
    exact ⟨cut, by rw [ht.1]⟩

/-- What `strip` removes. -/
theorem exists_strip_append (p : CodePoint → Bool) (s : Text) :
    ∃ before after, s = before ++ strip p s ++ after ∧ (∀ c ∈ before, p c = true) ∧
      ∀ c ∈ after, p c = true := by
  refine ⟨s.takeWhile p, (s.dropWhile p).rtakeWhile p, ?_, ?_, ?_⟩
  · rw [List.append_assoc, strip, List.rdropWhile_append_rtakeWhile, List.takeWhile_append_dropWhile]
  · intro c hc
    exact List.mem_takeWhile_imp hc
  · intro c hc
    exact List.mem_rtakeWhile_imp hc

/-- A piece whose ends are outside the class is not touched by `strip`. -/
theorem strip_keeps {before core after left piece right : Text} {a b : CodePoint} {f l : Text}
    (hbefore : ∀ c ∈ before, p c = true) (hafter : ∀ c ∈ after, p c = true)
    (hfirst : piece = a :: f) (ha : p a = false) (hlast : piece = l ++ [b]) (hb : p b = false)
    (h : before ++ core ++ after = left ++ piece ++ right) :
    ∃ left' right', left = before ++ left' ∧ right = right' ++ after ∧
      core = left' ++ piece ++ right' := by
  obtain ⟨left', hleft, hrest⟩ : ∃ left', left = before ++ left' ∧
      core ++ after = left' ++ piece ++ right := by
    rw [List.append_assoc, List.append_assoc] at h
    rcases List.append_eq_append_iff.mp h with ⟨x, hx, hrest⟩ | ⟨x, hx, hrest⟩
    · exact ⟨x, hx, by rw [hrest, List.append_assoc]⟩
    · cases x with
      | nil => exact ⟨[], by rw [hx, List.append_nil, List.append_nil], by simpa using hrest.symm⟩
      | cons c x =>
        rw [hfirst, List.cons_append, List.cons_append, List.cons.injEq] at hrest
        have := hbefore a (by rw [hx, hrest.1]; simp)
        rw [ha] at this
        simp at this
  rcases List.append_eq_append_iff.mp hrest with ⟨x, hx, hright⟩ | ⟨x, hx, hright⟩
  · rcases List.eq_nil_or_concat' x with rfl | ⟨x, c, rfl⟩
    · exact ⟨left', [], hleft, by simpa using hright.symm, by simpa using hx.symm⟩
    · rw [hlast, ← List.append_assoc, ← List.append_assoc] at hx
      have hlast' := (List.append_inj' hx rfl).2
      simp only [List.cons.injEq, and_true] at hlast'
      have := hafter b (by rw [hright, hlast']; simp)
      rw [hb] at this
      simp at this
  · exact ⟨left', x, hleft, hright, hx⟩

theorem rpartition_of_not_mem (h : c ∉ s) : rpartition c s = ([], [], s) := by
  simp [rpartition, h]

theorem rpartition_append (stem : Text) (h : c ∉ t) :
    rpartition c (stem ++ c :: t) = (stem, [c], t) := by
  have hrev : ∀ x ∈ t.reverse, (x != c) = true := by
    intro x hx
    simp only [bne_iff_ne, ne_eq]
    rintro rfl
    exact h (List.mem_reverse.mp hx)
  have hsplit : (stem ++ c :: t).reverse = t.reverse ++ c :: stem.reverse := by simp
  have hdrop : (stem ++ c :: t).rdropWhile (· != c) = stem ++ [c] := by
    rw [List.rdropWhile, hsplit, List.dropWhile_append_of_pos hrev]
    simp
  have htake : (stem ++ c :: t).rtakeWhile (· != c) = t := by
    rw [List.rtakeWhile, hsplit, List.takeWhile_append_of_pos hrev]
    simp
  simp [rpartition, hdrop, htake]

/-- Where the separator occurs, the string has a last occurrence of it. -/
theorem exists_last_of_mem (h : c ∈ s) : ∃ stem ext, s = stem ++ c :: ext ∧ c ∉ ext := by
  induction s with
  | nil => simp at h
  | cons d s ih =>
    by_cases hs : c ∈ s
    · obtain ⟨stem, ext, heq, hext⟩ := ih hs
      exact ⟨d :: stem, ext, by rw [heq, List.cons_append], hext⟩
    · have hd : c = d := by simpa [hs] using h
      exact ⟨[], s, by rw [hd, List.nil_append], hs⟩

end Strings

end FastapiTemplate
