import FastapiTemplate.Text

/-!
`safe_filename` of `data_validation.py`: traversal sequences are removed, every
character that is no word character, dot or dash becomes an underscore, dots
and underscores at the ends go, and a name that is too long is cut in front of
a short extension. The cut is right while the extension leaves room for a
character of the stem; the default limit always does.
-/
namespace FastapiTemplate

open Library.Regex Re

namespace SafeFilename

def PATH_TRAVERSAL_RE : Pattern CodePoint :=
  .anyOf (exactly "../") [exactly "..\\", exactly "%2e%2e%2f", exactly "%2e%2e/"]

/-- The characters that `strip("._")` removes. -/
def isEdge (c : CodePoint) : Bool := c == codePoint '.' || c == codePoint '_'

/-- The class `[\w.\-]`. -/
def isNameChar (u : UnicodeData) (c : CodePoint) : Bool :=
  u.isWord c || c == codePoint '.' || c == codePoint '-'

/-- The name before its length is looked at. -/
def cleaned (u : UnicodeData) (value : Text) : Text :=
  let value := sub PATH_TRAVERSAL_RE [] value
  orElse (strip isEdge (sub (.one fun c => !isNameChar u c) (text "_") value)) (text "file")

def safeFilename (u : UnicodeData) (value : Text) (maxLen : ℤ) : Text :=
  let value := cleaned u value
  if value.length ≤ maxLen then value
  else
    let (stem, dot, ext) := rpartition (codePoint '.') value
    if dot ≠ [] ∧ 0 < ext.length ∧ ext.length ≤ 10 then
      let truncatedStem := orElse (strip isEdge (sliceTo (maxLen - ext.length - 1) stem)) (text "file")
      truncatedStem ++ text "." ++ ext
    else strip isEdge (sliceTo maxLen value)

/-- The default of `max_len`. -/
def defaultMaxLen : ℤ := 255

/-- The name ends in a dot and an extension that the cut preserves. -/
structure Extension (name stem ext : Text) : Prop where
  split : name = stem ++ codePoint '.' :: ext
  dotFree : codePoint '.' ∉ ext
  pos : 0 < ext.length
  short : ext.length ≤ 10

/-- What every result but an over-long one looks like. -/
structure SafeName (u : UnicodeData) (name : Text) : Prop where
  ne_nil : name ≠ []
  chars : ∀ c ∈ name, isNameChar u c = true
  trimmed : Trimmed isEdge name

variable {u : UnicodeData} {value name stem ext : Text} {maxLen k : ℤ} {c : CodePoint}

/-! ### Characters -/

theorem isNameChar_of_ascii (a : Char) (ha : a.toNat < 128) :
    isNameChar u (codePoint a) =
      (a.isAlphanum || codePoint a == codePoint '_' || codePoint a == codePoint '.' ||
        codePoint a == codePoint '-') := by
  rw [isNameChar, UnicodeData.isWord, u.isAlnum_ascii a ha]

theorem isEdge_isNameChar (h : isEdge c = true) : isNameChar u c = true := by
  simp only [isEdge, Bool.or_eq_true, beq_iff_eq] at h
  rcases h with rfl | rfl
  · rw [isNameChar_of_ascii '.' (by decide)]
    decide
  · rw [isNameChar_of_ascii '_' (by decide)]
    decide

theorem isNameChar_file : ∀ c ∈ text "file", isNameChar u c = true := by
  have hascii : ∀ a ∈ ['f', 'i', 'l', 'e'], isNameChar u (codePoint a) = true := by
    have hlow : ∀ a ∈ ['f', 'i', 'l', 'e'], a.toNat < 128 ∧ a.isAlphanum = true :=
      List.forall_iff_forall_mem.mp (by decide)
    intro a ha
    rw [isNameChar_of_ascii a (hlow a ha).1, (hlow a ha).2]
    rfl
  intro c hc
  obtain ⟨a, ha, rfl⟩ := List.mem_map.mp hc
  exact hascii a (by simpa using ha)

/-- No traversal sequence consists of name characters. -/
theorem not_search_traversal (h : ∀ c ∈ name, isNameChar u c = true) :
    search PATH_TRAVERSAL_RE name = false := by
  rw [Bool.eq_false_iff, ne_eq, search_iff]
  rintro ⟨left, piece, after, rfl, hmatch⟩
  have hpiece : ∀ a, codePoint a ∈ piece → a.toNat < 128 → isNameChar u (codePoint a) = true := by
    intro a ha _
    exact h _ (by simp [ha])
  simp only [PATH_TRAVERSAL_RE, matches_anyOf, List.mem_cons, List.not_mem_nil, or_false,
    exists_eq_or_imp, exists_eq_left, matches_exactly] at hmatch
  have hbad : ['/', '\\', '%'].any (fun a => codePoint a ∈ piece) = true := by
    rcases hmatch with rfl | rfl | rfl | rfl
    all_goals decide +kernel
  obtain ⟨a, ha, hmem⟩ := List.any_eq_true.mp hbad
  rw [decide_eq_true_iff] at hmem
  have hname := h (codePoint a) (by simp [hmem])
  simp only [List.mem_cons, List.not_mem_nil, or_false] at ha
  rcases ha with rfl | rfl | rfl
  all_goals
    rw [isNameChar_of_ascii _ (by decide)] at hname
    exact absurd hname (by decide)

/-! ### The cleaned name -/

theorem safeName_file : SafeName u (text "file") := by
  refine ⟨by decide, isNameChar_file, ?_, ?_⟩
  · rintro c ⟨⟩
    decide
  · rintro c ⟨⟩
    decide

theorem safeName_cleaned (u : UnicodeData) (value : Text) : SafeName u (cleaned u value) := by
  have hunderscore : isNameChar u (codePoint '_') = true := isEdge_isNameChar (by decide)
  rw [cleaned, orElse]
  split
  · exact safeName_file
  · rename_i hne
    refine ⟨hne, ?_, strip_trimmed _ _⟩
    intro c hc
    have hmem := (strip_within isEdge _).subset hc
    rw [show text "_" = [codePoint '_'] from rfl, sub_one, List.mem_map] at hmem
    obtain ⟨d, -, rfl⟩ := hmem
    by_cases hd : isNameChar u d = true
    · simp [hd]
    · simp [hd, hunderscore]

/-- Cleaning leaves a safe name as it is. -/
theorem cleaned_of_safeName (h : SafeName u name) : cleaned u name = name := by
  have hsub : sub PATH_TRAVERSAL_RE [] name = name :=
    sub_of_not_search [] (not_search_traversal h.chars)
  have hmap : name.map (fun c => if !isNameChar u c then codePoint '_' else c) = name := by
    refine (List.map_congr_left ?_).trans (List.map_id' name)
    intro c hc
    simp [h.chars c hc]
  rw [cleaned, hsub, show text "_" = [codePoint '_'] from rfl, sub_one, hmap,
    strip_of_trimmed h.trimmed, orElse, if_neg h.ne_nil]

theorem SafeName.exists_cons (h : SafeName u name) : ∃ c t, name = c :: t ∧ isEdge c = false := by
  cases name with
  | nil => exact absurd rfl h.ne_nil
  | cons c t => exact ⟨c, t, rfl, h.trimmed.1 c rfl⟩

/-- A cut that leaves a character of a name that starts well leaves a safe name. -/
theorem safeName_cut (hc : isEdge c = false) (hchars : ∀ d ∈ c :: stem, isNameChar u d = true)
    (hk : 1 ≤ k) :
    SafeName u (strip isEdge (sliceTo k (c :: stem))) ∧
      (strip isEdge (sliceTo k (c :: stem))).length ≤ k := by
  obtain ⟨n, rfl⟩ : ∃ n : ℕ, k = n + 1 := ⟨k.toNat - 1, by omega⟩
  have hslice : sliceTo (n + 1) (c :: stem) = c :: stem.take n := by
    rw [sliceTo, if_neg (by omega)]
    rfl
  obtain ⟨t, ht⟩ := strip_cons hc (stem.take n)
  have hlen := strip_length_le isEdge (c :: stem.take n)
  rw [hslice]
  refine ⟨⟨by simp [ht], ?_, strip_trimmed _ _⟩, ?_⟩
  · intro d hd
    have hmem := (strip_within isEdge _).subset hd
    apply hchars
    rcases List.mem_cons.mp hmem with rfl | hmem
    · simp
    · exact List.mem_cons_of_mem c (List.mem_of_mem_take hmem)
  · simp only [List.length_cons, List.length_take] at hlen
    omega

/-! ### The exits of `safe_filename` -/

theorem Extension.rpartition (h : Extension name stem ext) :
    rpartition (codePoint '.') name = (stem, [codePoint '.'], ext) := by
  rw [h.split, rpartition_append stem h.dotFree]

/-- A name has one extension. -/
theorem Extension.ext_unique {stem' ext' : Text} (h : Extension name stem ext)
    (h' : Extension name stem' ext') : ext = ext' := by
  have hsame := h.rpartition.symm.trans h'.rpartition
  simp only [Prod.mk.injEq, true_and] at hsame
  exact hsame.2

/-- The three ways in which the function returns. -/
theorem safeFilename_cases (u : UnicodeData) (value : Text) (maxLen : ℤ) :
    ((cleaned u value).length ≤ maxLen ∧ safeFilename u value maxLen = cleaned u value) ∨
    (maxLen < (cleaned u value).length ∧ ∃ stem ext, Extension (cleaned u value) stem ext ∧
      safeFilename u value maxLen =
        orElse (strip isEdge (sliceTo (maxLen - ext.length - 1) stem)) (text "file") ++
          codePoint '.' :: ext) ∨
    (maxLen < (cleaned u value).length ∧ (∀ stem ext, ¬ Extension (cleaned u value) stem ext) ∧
      safeFilename u value maxLen = strip isEdge (sliceTo maxLen (cleaned u value))) := by
  by_cases hfits : ((cleaned u value).length : ℤ) ≤ maxLen
  · exact Or.inl ⟨hfits, by simp [safeFilename, hfits]⟩
  · right
    by_cases hext : ∃ stem ext, Extension (cleaned u value) stem ext
    · left
      obtain ⟨stem, ext, h⟩ := hext
      refine ⟨by omega, stem, ext, h, ?_⟩
      simp only [safeFilename, if_neg hfits, h.rpartition]
      rw [if_pos ⟨by simp, h.pos, h.short⟩]
      simp [text]
    · right
      refine ⟨by omega, fun stem ext h => hext ⟨stem, ext, h⟩, ?_⟩
      have hnot : ¬ ((rpartition (codePoint '.') (cleaned u value)).2.1 ≠ [] ∧
          0 < (rpartition (codePoint '.') (cleaned u value)).2.2.length ∧
          (rpartition (codePoint '.') (cleaned u value)).2.2.length ≤ 10) := by
        rintro ⟨hdot, hpos, hshort⟩
        by_cases hmem : codePoint '.' ∈ cleaned u value
        · obtain ⟨stem, ext, heq, hfree⟩ := exists_last_of_mem hmem
          rw [heq, rpartition_append stem hfree] at hpos hshort
          exact hext ⟨stem, ext, heq, hfree, hpos, hshort⟩
        · rw [rpartition_of_not_mem hmem] at hdot
          exact hdot rfl
      simp only [safeFilename, if_neg hfits, if_neg hnot]

/-- The character before an extension starts a stem. -/
theorem SafeName.stem_ne_nil (h : SafeName u name) (hext : Extension name stem ext) :
    ∃ c t, stem = c :: t ∧ isEdge c = false := by
  obtain ⟨c, t, heq, hc⟩ := h.exists_cons
  have hsplit := hext.split
  cases stem with
  | nil =>
    rw [heq, List.nil_append, List.cons.injEq] at hsplit
    rw [hsplit.1] at hc
    exact absurd hc (by decide)
  | cons d stem =>
    rw [heq, List.cons_append, List.cons.injEq] at hsplit
    exact ⟨d, stem, rfl, by rw [← hsplit.1, hc]⟩

/-- A safe stem in front of the extension of a safe name. -/
theorem SafeName.append_ext (h : SafeName u name) (hext : Extension name stem ext) {s : Text}
    (hs : SafeName u s) : SafeName u (s ++ codePoint '.' :: ext) := by
  have hsplit := hext.split
  have hlast : (codePoint '.' :: ext).getLast? = name.getLast? := by
    rw [hsplit, List.getLast?_append_of_ne_nil]
    simp
  refine ⟨by simp [hs.ne_nil], ?_, ?_, ?_⟩
  · intro c hc
    rcases List.mem_append.mp hc with hc | hc
    · exact hs.chars c hc
    · apply h.chars
      rw [hsplit]
      exact List.mem_append_right stem hc
  · intro c hc
    obtain ⟨d, t, heq, hd⟩ := hs.exists_cons
    rw [heq, List.cons_append, List.head?_cons, Option.mem_some_iff] at hc
    rw [← hc, hd]
  · intro c hc
    rw [List.getLast?_append_of_ne_nil _ (by simp), hlast] at hc
    exact h.trimmed.2 c hc

theorem orElse_of_ne_nil {s t : Text} (h : s ≠ []) : orElse s t = s := if_neg h

/-- The cut keeps to its limit when the extension leaves room for a character. -/
theorem SafeName.cut (h : SafeName u name) (hext : Extension name stem ext)
    (hroom : ext.length + 1 < maxLen) :
    SafeName u (orElse (strip isEdge (sliceTo (maxLen - ext.length - 1) stem)) (text "file") ++
        codePoint '.' :: ext) ∧
      ((orElse (strip isEdge (sliceTo (maxLen - ext.length - 1) stem)) (text "file") ++
        codePoint '.' :: ext).length : ℤ) ≤ maxLen := by
  obtain ⟨c, t, hstem, hc⟩ := h.stem_ne_nil hext
  have hchars : ∀ d ∈ c :: t, isNameChar u d = true := by
    intro d hd
    apply h.chars
    rw [hext.split, hstem]
    exact List.mem_append_left _ hd
  obtain ⟨hsafe, hlen⟩ := safeName_cut hc hchars
    (show 1 ≤ maxLen - ext.length - 1 by omega)
  rw [hstem, orElse_of_ne_nil hsafe.ne_nil]
  refine ⟨h.append_ext hext hsafe, ?_⟩
  simp only [List.length_append, List.length_cons]
  omega

/-! ### The results -/

/-- Every exit is right when the extension leaves room for a character. -/
theorem safeFilename_safeName (u : UnicodeData) (value : Text) (hpos : 1 ≤ maxLen)
    (hroom : ∀ stem ext, Extension (cleaned u value) stem ext → ext.length + 1 < maxLen) :
    SafeName u (safeFilename u value maxLen) ∧ (safeFilename u value maxLen).length ≤ maxLen := by
  have hclean := safeName_cleaned u value
  rcases safeFilename_cases u value maxLen with
    ⟨hfits, heq⟩ | ⟨-, stem, ext, hext, heq⟩ | ⟨-, -, heq⟩
  · rw [heq]
    exact ⟨hclean, hfits⟩
  · rw [heq]
    exact hclean.cut hext (hroom stem ext hext)
  · rw [heq]
    obtain ⟨c, t, hname, hc⟩ := hclean.exists_cons
    have hchars := hclean.chars
    rw [hname] at hchars ⊢
    exact safeName_cut hc hchars hpos

/-- Without that room the result is longer than the limit. -/
theorem lt_length_safeFilename (hext : Extension (cleaned u value) stem ext)
    (hsmall : maxLen ≤ ext.length + 1) : maxLen < (safeFilename u value maxLen).length := by
  have hclean := safeName_cleaned u value
  have hlong : maxLen < (cleaned u value).length := by
    obtain ⟨c, t, hstem, -⟩ := hclean.stem_ne_nil hext
    rw [hext.split, hstem]
    simp only [List.length_append, List.length_cons]
    omega
  rcases safeFilename_cases u value maxLen with
    ⟨hfits, -⟩ | ⟨-, stem', ext', hext', heq⟩ | ⟨-, hnone, -⟩
  · omega
  · rw [heq, ← hext.ext_unique hext']
    have hfallback : ∀ s : Text, 0 < (orElse s (text "file")).length := by
      intro s
      rw [orElse]
      split
      · decide
      · rename_i hne
        exact List.length_pos_iff.mpr hne
    have hstem := hfallback (strip isEdge (sliceTo (maxLen - ext.length - 1) stem'))
    simp only [List.length_append, List.length_cons]
    omega
  · exact absurd hext (hnone stem ext)

/-- The result has characters and keeps to the limit exactly when an extension
leaves room for a character of the stem. -/
theorem safeFilename_within_iff (u : UnicodeData) (value : Text) (maxLen : ℤ) (hpos : 1 ≤ maxLen) :
    (safeFilename u value maxLen ≠ [] ∧ (safeFilename u value maxLen).length ≤ maxLen) ↔
      ∀ stem ext, Extension (cleaned u value) stem ext → ext.length + 1 < maxLen := by
  constructor
  · intro h stem ext hext
    by_contra hsmall
    have := lt_length_safeFilename hext (show maxLen ≤ ext.length + 1 by omega)
    omega
  · intro hroom
    obtain ⟨hsafe, hlen⟩ := safeFilename_safeName u value hpos hroom
    exact ⟨hsafe.ne_nil, hlen⟩

theorem safeFilename_within_iff_five :
    (safeFilename asciiData (text "abcdef.txt") 5 ≠ [] ∧
      (safeFilename asciiData (text "abcdef.txt") 5).length ≤ (5 : ℤ)) ∧
    ¬ ∃ stem ext, Extension (cleaned asciiData (text "abcdef.txt")) stem ext ∧
      (5 : ℤ) ≤ ext.length + 1 := by
  have hiff := safeFilename_within_iff asciiData (text "abcdef.txt") 5 (by decide)
  have hwithin : safeFilename asciiData (text "abcdef.txt") 5 ≠ [] ∧
      (safeFilename asciiData (text "abcdef.txt") 5).length ≤ (5 : ℤ) := by decide +kernel
  refine ⟨hwithin, ?_⟩
  rintro ⟨stem, ext, hext, hsmall⟩
  have := hiff.mp hwithin stem ext hext
  omega

/-- The name `abcdef.txt` cut to four characters becomes `file.txt`. -/
theorem safeFilename_exceeds : ¬ ∀ (u : UnicodeData) (value : Text) (maxLen : ℤ), 1 ≤ maxLen →
    safeFilename u value maxLen ≠ [] ∧ (safeFilename u value maxLen).length ≤ maxLen := by
  intro h
  have hlen := (h asciiData (text "abcdef.txt") 4 (by decide)).2
  revert hlen
  decide +kernel

/-- With the default limit the function returns a safe name, which it then
leaves alone, and preserves the extension. -/
theorem safeFilename_default (u : UnicodeData) (value : Text) :
    (safeFilename u value defaultMaxLen ≠ [] ∧
      (safeFilename u value defaultMaxLen).length ≤ defaultMaxLen ∧
      (∀ c ∈ safeFilename u value defaultMaxLen,
        u.isWord c = true ∨ c = codePoint '.' ∨ c = codePoint '-') ∧
      (∀ c ∈ (safeFilename u value defaultMaxLen).head?, c ≠ codePoint '.' ∧ c ≠ codePoint '_') ∧
      (∀ c ∈ (safeFilename u value defaultMaxLen).getLast?,
        c ≠ codePoint '.' ∧ c ≠ codePoint '_')) ∧
    safeFilename u (safeFilename u value defaultMaxLen) defaultMaxLen =
      safeFilename u value defaultMaxLen ∧
    ∀ stem ext, Extension (cleaned u value) stem ext → defaultMaxLen < (cleaned u value).length →
      (codePoint '.' :: ext) <:+ safeFilename u value defaultMaxLen := by
  have hroom : ∀ stem ext, Extension (cleaned u value) stem ext →
      (ext.length : ℤ) + 1 < defaultMaxLen := by
    intro stem ext hext
    have := hext.short
    rw [defaultMaxLen]
    omega
  obtain ⟨hsafe, hlen⟩ := safeFilename_safeName u value (by decide) hroom
  have hedge : ∀ c, isEdge c = false → c ≠ codePoint '.' ∧ c ≠ codePoint '_' := by
    intro c hc
    simpa [isEdge] using hc
  refine ⟨⟨hsafe.ne_nil, hlen, ?_, ?_, ?_⟩, ?_, ?_⟩
  · intro c hc
    simpa [isNameChar, or_assoc] using hsafe.chars c hc
  · intro c hc
    exact hedge c (hsafe.trimmed.1 c hc)
  · intro c hc
    exact hedge c (hsafe.trimmed.2 c hc)
  · rcases safeFilename_cases u (safeFilename u value defaultMaxLen) defaultMaxLen with
      ⟨-, heq⟩ | ⟨hlong, -⟩ | ⟨hlong, -⟩
    · rw [heq, cleaned_of_safeName hsafe]
    · rw [cleaned_of_safeName hsafe] at hlong
      omega
    · rw [cleaned_of_safeName hsafe] at hlong
      omega
  · intro stem ext hext hlong
    rcases safeFilename_cases u value defaultMaxLen with
      ⟨hfits, -⟩ | ⟨-, stem', ext', hext', heq⟩ | ⟨-, hnone, -⟩
    · omega
    · rw [heq, hext.ext_unique hext']
      exact List.suffix_append _ _
    · exact absurd hext (hnone stem ext)

end SafeFilename

end FastapiTemplate
