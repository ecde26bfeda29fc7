import FastapiTemplate.Bootstrap
import FastapiTemplate.Text

/-!
`validate_strong_password` of `validation.py` against the language that its
error message states: 8 to 128 characters of which one is a lowercase letter,
one an uppercase letter, one a digit and one special. In the pattern the dot
matches no line break and the dollar matches in front of a final one too, so
the two differ on some passwords with a line break, and on no others.
-/
namespace FastapiTemplate.StrongPassword

open Library.Regex Re

/-- The dollar of `re` without flags. -/
def dollar : Pattern CodePoint := .check fun _ after => after == [] || after == text "\n"

/-- The caret of `re` without flags. -/
def caret : Pattern CodePoint := .check fun before _ => before == []

def isLower (c : CodePoint) : Bool := codePoint 'a' ≤ c && c ≤ codePoint 'z'

def isUpper (c : CodePoint) : Bool := codePoint 'A' ≤ c && c ≤ codePoint 'Z'

def isSpecial (c : CodePoint) : Bool :=
  c ∈ text "!@#$%^&*()_+-=[]\x7b\x7d;\x27:\"\x5c|,.<>/?"

/-- The lookahead `(?=.*[...])`. -/
def somewhere (p : CodePoint → Bool) : Pattern CodePoint :=
  .ahead (.seq (.many true 0 none dot) (.one p))

def STRONG_PASSWORD_RE (u : UnicodeData) : Pattern CodePoint :=
  .seq caret <| .seq (somewhere isLower) <| .seq (somewhere isUpper) <|
    .seq (somewhere u.isDecimal) <| .seq (somewhere isSpecial) <|
      .seq (.many true 8 (some 128) dot) dollar

def validateStrongPassword (u : UnicodeData) (value : Text) : Except Err Text :=
  if matchStart (STRONG_PASSWORD_RE u) value then .ok value else .error .valueError

/-- One character of each of the four classes. -/
def AllClasses (u : UnicodeData) (p : Text) : Prop :=
  p.any isLower = true ∧ p.any isUpper = true ∧ p.any u.isDecimal = true ∧ p.any isSpecial = true

/-- The language that the error message states. -/
def Strong (u : UnicodeData) (p : Text) : Prop :=
  8 ≤ p.length ∧ p.length ≤ 128 ∧ AllClasses u p

instance (u : UnicodeData) (p : Text) : Decidable (Strong u p) := by
  unfold Strong AllClasses
  infer_instance

variable {u : UnicodeData} {p line before : Text} {q : CodePoint → Bool}

/-! ### What the pattern accepts -/

/-- What is left of a text after its first line. -/
def LineEnd (after : Text) : Prop := after = [] ∨ ∃ rest, after = codePoint '\n' :: rest

/-- A lookahead finds a character on the first line. -/
theorem somewhere_iff (hq : q (codePoint '\n') = false) (hline : codePoint '\n' ∉ line)
    {after : Text} (hafter : LineEnd after) :
    (∃ seen rest, line ++ after = seen ++ rest ∧
      Matches (.seq (.many true 0 none dot) (.one q)) before seen rest) ↔ line.any q = true := by
  simp only [Matches, matches_one, List.any_eq_true]
  constructor
  · rintro ⟨seen, rest, htext, first, second, rfl, ⟨hfirst, -⟩, c, rfl, hc⟩
    have hbreak : codePoint '\n' ∉ first ++ [c] := by
      intro hmem
      rcases List.mem_append.mp hmem with hmem | hmem
      · simpa [dot] using hfirst _ hmem
      · rw [List.mem_singleton.mp hmem, hc] at hq
        simp at hq
    refine ⟨c, ?_, hc⟩
    rcases List.append_eq_append_iff.mp htext with ⟨t, hseen, hafter'⟩ | ⟨t, hseen, hrest⟩
    · -- the match would run over the end of the line
      cases t with
      | nil =>
        rw [List.append_nil] at hseen
        rw [← hseen]
        simp
      | cons d t =>
        rcases hafter with hnil | ⟨rest', hcons⟩
        · simp [hnil] at hafter'
        · rw [hcons, List.cons_append, List.cons.injEq] at hafter'
          rw [hseen, ← hafter'.1] at hbreak
          simp at hbreak
    · rw [hseen]
      simp
  · rintro ⟨c, hmem, hc⟩
    obtain ⟨left, right, rfl⟩ := List.append_of_mem hmem
    refine ⟨left ++ [c], right ++ after, by simp, left, [c], rfl, ⟨?_, by omega, by simp⟩, c, rfl, hc⟩
    intro d hd
    have hne : d ≠ codePoint '\n' := by
      rintro rfl
      exact hline (List.mem_append_left _ hd)
    simpa [dot] using hne

theorem not_isDecimal_break (u : UnicodeData) : u.isDecimal (codePoint '\n') = false := by
  rw [u.isDecimal_ascii '\n' (by decide)]
  rfl

/-- A text has one first line. -/
theorem first_line_unique {line' after after' : Text} (hline : codePoint '\n' ∉ line)
    (hline' : codePoint '\n' ∉ line') (hafter : LineEnd after) (hafter' : LineEnd after')
    (h : line ++ after = line' ++ after') : line = line' ∧ after = after' := by
  have hstart : ∀ {s t e : Text}, codePoint '\n' ∉ s ++ t → LineEnd (t ++ e) → t = [] := by
    intro s t e hbreak hend
    cases t with
    | nil => rfl
    | cons c t =>
      rcases hend with hnil | ⟨rest, hcons⟩
      · simp at hnil
      · rw [List.cons_append, List.cons.injEq] at hcons
        rw [hcons.1] at hbreak
        simp at hbreak
  rcases List.append_eq_append_iff.mp h with ⟨t, hl, ha⟩ | ⟨t, hl, ha⟩
  · rw [ha] at hafter
    rw [hl] at hline'
    have ht := hstart hline' hafter
    exact ⟨by rw [hl, ht, List.append_nil], by rw [ha, ht, List.nil_append]⟩
  · rw [ha] at hafter'
    rw [hl] at hline
    have ht := hstart hline hafter'
    exact ⟨by rw [hl, ht, List.append_nil], by rw [ha, ht, List.nil_append]⟩

theorem exists_first_line (p : Text) :
    ∃ line after, p = line ++ after ∧ codePoint '\n' ∉ line ∧ LineEnd after := by
  induction p with
  | nil => exact ⟨[], [], rfl, by simp, Or.inl rfl⟩
  | cons c p ih =>
    by_cases hc : codePoint '\n' = c
    · exact ⟨[], c :: p, rfl, by simp, Or.inr ⟨p, by rw [hc]⟩⟩
    · obtain ⟨line, after, rfl, hline, hafter⟩ := ih
      exact ⟨c :: line, after, rfl, by simp [hc, hline], hafter⟩

/-- The end of the pattern takes the whole first line. -/
theorem matches_body_iff {after piece rest : Text} (hline : codePoint '\n' ∉ line)
    (hafter : LineEnd after) (htext : line ++ after = piece ++ rest) :
    Matches (.seq (.many true 8 (some 128) dot) dollar) before piece rest ↔
      (piece = line ∧ rest = after) ∧ (after = [] ∨ after = text "\n") ∧
        8 ≤ line.length ∧ line.length ≤ 128 := by
  have hbreak : text "\n" = [codePoint '\n'] := rfl
  simp only [Matches, dollar]
  constructor
  · rintro ⟨first, second, rfl, ⟨hdot, hlo, hhi⟩, rfl, hend⟩
    have hfirst : codePoint '\n' ∉ first := by
      intro hmem
      simpa [dot] using hdot _ hmem
    have hrest : rest = [] ∨ rest = text "\n" := by simpa using hend
    have hrestEnd : LineEnd rest := by
      rcases hrest with h | h
      · exact Or.inl h
      · exact Or.inr ⟨[], by rw [h, hbreak]⟩
    rw [List.append_nil] at htext ⊢
    obtain ⟨rfl, rfl⟩ := first_line_unique hline hfirst hafter hrestEnd htext
    exact ⟨⟨rfl, rfl⟩, hrest, hlo, hhi 128 rfl⟩
  · rintro ⟨⟨rfl, rfl⟩, hend, hlo, hhi⟩
    refine ⟨piece, [], by simp, ⟨?_, hlo, ?_⟩, rfl, ?_⟩
    · intro c hc
      have hne : c ≠ codePoint '\n' := by
        rintro rfl
        exact hline hc
      simpa [dot] using hne
    · intro n hn
      rw [Option.mem_some_iff] at hn
      omega
    · simpa using hend

/-- The pattern accepts a line of 8 to 128 characters with all four classes,
and the same line followed by one line break. -/
theorem matchStart_iff_line (u : UnicodeData) (hline : codePoint '\n' ∉ line) {after : Text}
    (hafter : LineEnd after) :
    matchStart (STRONG_PASSWORD_RE u) (line ++ after) = true ↔
      (after = [] ∨ after = text "\n") ∧ 8 ≤ line.length ∧ line.length ≤ 128 ∧
        AllClasses u line := by
  have hstart : ∀ piece rest, line ++ after = piece ++ rest →
      (Matches (STRONG_PASSWORD_RE u) [] piece rest ↔ AllClasses u line ∧
        Matches (.seq (.many true 8 (some 128) dot) dollar) [] piece rest) := by
    intro piece rest htext
    have hlower := @somewhere_iff line [] isLower (by decide) hline after hafter
    have hupper := @somewhere_iff line [] isUpper (by decide) hline after hafter
    have hdecimal := @somewhere_iff line [] u.isDecimal (not_isDecimal_break u) hline after hafter
    have hspecial := @somewhere_iff line [] isSpecial (by decide) hline after hafter
    simp only [STRONG_PASSWORD_RE, caret, somewhere, matches_seq_check, matches_seq_ahead, ← htext,
      hlower, hupper, hdecimal, hspecial, AllClasses, beq_self_eq_true, true_and, and_assoc]
  rw [matchStart_iff]
  constructor
  · rintro ⟨piece, rest, htext, hmatch⟩
    rw [hstart piece rest htext, matches_body_iff hline hafter htext] at hmatch
    exact ⟨hmatch.2.2.1, hmatch.2.2.2.1, hmatch.2.2.2.2, hmatch.1⟩
  · rintro ⟨hend, hlo, hhi, hclasses⟩
    refine ⟨line, after, rfl, ?_⟩
    rw [hstart line after rfl, matches_body_iff hline hafter rfl]
    exact ⟨hclasses, ⟨rfl, rfl⟩, hend, hlo, hhi⟩

/-! ### The stated language -/

/-- No class contains the line break. -/
theorem allClasses_append_break (u : UnicodeData) (line : Text) :
    AllClasses u (line ++ text "\n") ↔ AllClasses u line := by
  have hclass : ∀ q : CodePoint → Bool, q (codePoint '\n') = false →
      (line ++ text "\n").any q = line.any q := by
    intro q hq
    rw [List.any_append, show text "\n" = [codePoint '\n'] from rfl]
    simp [hq]
  simp only [AllClasses, hclass isLower (by decide), hclass isUpper (by decide),
    hclass u.isDecimal (not_isDecimal_break u), hclass isSpecial (by decide)]

/-- The passwords with a line break on which the pattern goes wrong: a final
break counts towards the length in the stated language alone, and no other
break is accepted. -/
def LineBreakSlip (u : UnicodeData) (p : Text) : Prop :=
  AllClasses u p ∧
    ((∃ line, p = line ++ text "\n" ∧ codePoint '\n' ∉ line ∧ (p.length = 8 ∨ p.length = 129)) ∨
      (8 ≤ p.length ∧ p.length ≤ 128 ∧ ∃ line rest, p = line ++ codePoint '\n' :: rest ∧ rest ≠ []))

theorem not_lineBreakSlip (u : UnicodeData) (hline : codePoint '\n' ∉ line) :
    ¬ LineBreakSlip u line := by
  rintro ⟨-, ⟨line', heq, -, -⟩ | ⟨-, -, line', rest, heq, -⟩⟩
  · exact hline (by simp [heq, text])
  · exact hline (by simp [heq])

/-- With one break, at the end, the slip is in the length. -/
theorem lineBreakSlip_end_iff (u : UnicodeData) (hline : codePoint '\n' ∉ line) :
    LineBreakSlip u (line ++ text "\n") ↔
      AllClasses u line ∧ (line.length + 1 = 8 ∨ line.length + 1 = 129) := by
  have hother : ¬ ∃ line' rest, line ++ text "\n" = line' ++ codePoint '\n' :: rest ∧
      rest ≠ [] := by
    rintro ⟨line', rest, heq, hne⟩
    obtain ⟨r, c, rfl⟩ := (List.eq_nil_or_concat rest).resolve_left hne
    have hends : line ++ [codePoint '\n'] = (line' ++ codePoint '\n' :: r) ++ [c] := by
      simpa [text] using heq
    have hcut := (List.append_inj' hends rfl).1
    exact hline (by simp [hcut])
  constructor
  · rintro ⟨hclasses, ⟨-, -, -, hlen⟩ | ⟨-, -, hrest⟩⟩
    · exact ⟨(allClasses_append_break u line).mp hclasses, by simpa [text] using hlen⟩
    · exact absurd hrest hother
  · rintro ⟨hclasses, hlen⟩
    exact ⟨(allClasses_append_break u line).mpr hclasses,
      Or.inl ⟨line, rfl, hline, by simpa [text] using hlen⟩⟩

/-- With a break before the last character, every strong password is a slip. -/
theorem lineBreakSlip_inner_iff (u : UnicodeData) (hline : codePoint '\n' ∉ line) {c : CodePoint}
    {rest : Text} : LineBreakSlip u (line ++ codePoint '\n' :: c :: rest) ↔
      Strong u (line ++ codePoint '\n' :: c :: rest) := by
  constructor
  · rintro ⟨hclasses, ⟨line', heq, hline', -⟩ | ⟨hlo, hhi, -⟩⟩
    · have hend : LineEnd (text "\n") := Or.inr ⟨[], rfl⟩
      have hafter := (first_line_unique hline hline' (Or.inr ⟨_, rfl⟩) hend heq).2
      simp [text] at hafter
    · exact ⟨hlo, hhi, hclasses⟩
  · rintro ⟨hlo, hhi, hclasses⟩
    exact ⟨hclasses, Or.inr ⟨hlo, hhi, line, c :: rest, rfl, by simp⟩⟩

/-- The function accepts the stated language, except for the passwords with a
line break that `LineBreakSlip` describes. -/
theorem validateStrongPassword_iff (u : UnicodeData) (p : Text) :
    validateStrongPassword u p = (if Strong u p then .ok p else .error .valueError) ↔
      ¬ LineBreakSlip u p := by
  have hagree : validateStrongPassword u p = (if Strong u p then .ok p else .error .valueError) ↔
      (matchStart (STRONG_PASSWORD_RE u) p = true ↔ Strong u p) := by
    rw [validateStrongPassword]
    by_cases hm : matchStart (STRONG_PASSWORD_RE u) p = true
    · by_cases hs : Strong u p <;> simp [hm, hs]
    · by_cases hs : Strong u p <;> simp [hm, hs]
  rw [hagree]
  obtain ⟨line, after, rfl, hline, hafter⟩ := exists_first_line p
  rw [matchStart_iff_line u hline hafter]
  rcases hafter with rfl | ⟨rest, rfl⟩
  · -- no line break: the line is the password
    rw [List.append_nil]
    refine iff_of_true ?_ (not_lineBreakSlip u hline)
    simp [Strong]
  · cases rest with
    | nil =>
      -- one line break, at the end
      have hstrong : Strong u (line ++ text "\n") ↔
          8 ≤ line.length + 1 ∧ line.length + 1 ≤ 128 ∧ AllClasses u line := by
        rw [Strong, allClasses_append_break]
        simp [text]
      rw [show [codePoint '\n'] = text "\n" from rfl, lineBreakSlip_end_iff u hline, hstrong]
      by_cases hclasses : AllClasses u line
      · simp only [hclasses, or_true, true_and, and_true]
        omega
      · simp [hclasses]
    | cons c rest =>
      -- a line break before the last character
      have hmore : ¬ (codePoint '\n' :: c :: rest = [] ∨ codePoint '\n' :: c :: rest = text "\n") := by
        simp [text]
      simp only [hmore, false_and, false_iff, lineBreakSlip_inner_iff u hline]

/-- A password with a line break in it is refused. -/
theorem validateStrongPassword_refuses : ¬ ∀ (u : UnicodeData) (p : Text),
    validateStrongPassword u p = if Strong u p then .ok p else .error .valueError := by
  intro h
  have := h asciiData (text "Abcdef\n1!")
  revert this
  decide +kernel

/-! ### The check of the bootstrap model -/

theorem isLower_codePoint (c : Char) : isLower (codePoint c) = c.isLower := by
  change _ = (decide (c.val ≥ 'a'.val) && decide (c.val ≤ 'z'.val))
  simp only [isLower, codePoint, Fin.mk_le_mk, Char.toNat, ge_iff_le]
  rfl

theorem isUpper_codePoint (c : Char) : isUpper (codePoint c) = c.isUpper := by
  change _ = decide (c.val ≥ 'A'.val ∧ c.val ≤ 'Z'.val)
  simp only [isUpper, codePoint, Fin.mk_le_mk, Char.toNat, Bool.decide_and]
  rfl

theorem isSpecial_codePoint (c : Char) : isSpecial (codePoint c) =
    decide (c ∈ "!@#$%^&*()_+-=[]\x7b\x7d;\x27:\"\x5c|,.<>/?".toList) := by
  rw [isSpecial, text, decide_eq_decide]
  exact List.mem_map_of_injective codePoint_injective

theorem allClasses_map (u : UnicodeData) (line : List Char) :
    AllClasses u (line.map codePoint) ↔ line.any Char.isLower = true ∧ line.any Char.isUpper = true ∧
      line.any (fun c => u.isDecimal (codePoint c)) = true ∧
      line.any (fun c => c ∈ "!@#$%^&*()_+-=[]\x7b\x7d;\x27:\"\x5c|,.<>/?".toList) = true := by
  simp only [AllClasses, List.any_map, Function.comp_def, isLower_codePoint, isUpper_codePoint,
    isSpecial_codePoint]

/-- A line of 8 to 128 characters with the four classes, with or without a line break after it. -/
theorem matchStart_iff_exists (u : UnicodeData) (p : Text) :
    matchStart (STRONG_PASSWORD_RE u) p = true ↔ ∃ line, codePoint '\n' ∉ line ∧
      (p = line ∨ p = line ++ text "\n") ∧ 8 ≤ line.length ∧ line.length ≤ 128 ∧
        AllClasses u line := by
  constructor
  · intro h
    obtain ⟨line, after, rfl, hline, hafter⟩ := exists_first_line p
    rw [matchStart_iff_line u hline hafter] at h
    refine ⟨line, hline, ?_, h.2⟩
    rcases h.1 with rfl | rfl
    · exact Or.inl (List.append_nil line)
    · exact Or.inr rfl
  · rintro ⟨line, hline, rfl | rfl, h⟩
    · have hline' := matchStart_iff_line u hline (show LineEnd [] from Or.inl rfl)
      rw [List.append_nil] at hline'
      exact hline'.mpr ⟨Or.inl rfl, h⟩
    · exact (matchStart_iff_line u hline (Or.inr ⟨[], rfl⟩)).mpr ⟨Or.inr rfl, h⟩

/-- The check that the bootstrap model makes of a password is this pattern. -/
theorem matchStart_text_iff (u : UnicodeData) (value : String) :
    matchStart (STRONG_PASSWORD_RE u) (text value) =
      Bootstrap.validateStrongPassword (fun c => u.isDecimal (codePoint c)) value := by
  have hbreak : ∀ l : List Char, codePoint '\n' ∉ l.map codePoint ↔ '\n' ∉ l := by
    intro l
    rw [List.mem_map_of_injective codePoint_injective]
  have hinj : Function.Injective (List.map codePoint) := List.map_injective_iff.mpr codePoint_injective
  -- the line that the bootstrap model takes, as a first line of the text
  have hline : ∀ l, '\n' ∉ l → (text value = l.map codePoint ∨
      text value = l.map codePoint ++ text "\n") →
      (if value.toList.getLast? = some '\n' then value.toList.dropLast else value.toList) = l := by
    intro l hl hsplit
    rcases hsplit with h | h
    · have hchars : value.toList = l := hinj h
      rw [hchars, if_neg]
      intro hlast
      exact hl (List.mem_of_getLast? hlast)
    · have hchars : value.toList = l ++ ['\n'] := by
        apply hinj
        rw [List.map_append]
        exact h
      rw [hchars, if_pos (by simp), List.dropLast_concat]
  rw [Bool.eq_iff_iff, matchStart_iff_exists, Bootstrap.validateStrongPassword]
  simp only [Bool.and_eq_true, decide_eq_true_eq]
  constructor
  · rintro ⟨line, hfree, hsplit, hlo, hhi, hclasses⟩
    obtain ⟨l, rfl⟩ : ∃ l : List Char, line = l.map codePoint := by
      rcases hsplit with h | h
      · exact ⟨value.toList, h.symm⟩
      · obtain ⟨l, r, -, hl, -⟩ := List.map_eq_append_iff.mp h
        exact ⟨l, hl.symm⟩
    rw [hbreak] at hfree
    rw [hline l hfree hsplit]
    rw [List.length_map] at hlo hhi
    obtain ⟨hlower, hupper, hdecimal, hspecial⟩ := (allClasses_map u l).mp hclasses
    exact ⟨⟨⟨⟨⟨hfree, hlo, hhi⟩, hlower⟩, hupper⟩, hdecimal⟩, hspecial⟩
  · intro h
    obtain ⟨⟨⟨⟨⟨hfree, hlo, hhi⟩, hlower⟩, hupper⟩, hdecimal⟩, hspecial⟩ := h
    refine ⟨List.map codePoint (if value.toList.getLast? = some '\n' then value.toList.dropLast
      else value.toList), ?_, ?_, ?_, ?_, ?_⟩
    · rw [hbreak]
      exact hfree
    · by_cases hlast : value.toList.getLast? = some '\n'
      · right
        rw [if_pos hlast]
        obtain ⟨l, hl⟩ := List.getLast?_eq_some_iff.mp hlast
        rw [text, hl, List.dropLast_concat, List.map_append]
        rfl
      · left
        rw [if_neg hlast]
        rfl
    · rw [List.length_map]
      exact hlo
    · rw [List.length_map]
      exact hhi
    · exact (allClasses_map u _).mpr ⟨hlower, hupper, hdecimal, hspecial⟩

end FastapiTemplate.StrongPassword
