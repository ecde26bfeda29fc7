import FastapiTemplate.Text
import Mathlib.Data.List.Sublists

/-!
`sanitize_text` of `validation.py`: five signatures of script injection and
one of SQL injection are removed, each in one pass. A pass leaves no match
that stood in its text, so a pattern matches the result only when its pieces
stood apart, with other signatures between them. To tell them apart every
character of the input carries its place there.
-/
namespace FastapiTemplate.Sanitize

open Library.Regex Re

/-! ### The patterns -/

def quote (c : CodePoint) : Bool := c == codePoint '"' || c == codePoint '\''

def notClosing (c : CodePoint) : Bool := c != codePoint '>'

/-- The class `[0-9a-f]` with `re.IGNORECASE`. -/
def hexDigit (c : CodePoint) : Bool := "0123456789abcdef".toList.any (ignoreCase · c)

/-- The class `\s` any number of times. -/
def spaces (u : UnicodeData) : Pattern CodePoint := .many true 0 none u.isSpace

def XSS_PATTERNS (u : UnicodeData) : List (Pattern CodePoint) :=
  [.concat [caseless "<script", .many true 0 none notClosing, caseless ">",
      .many false 0 none (fun _ => true), caseless "</script>"],
    .concat [caseless "javascript", spaces u, caseless ":"],
    .concat [caseless "on", .many true 1 none u.isWord, spaces u, caseless "=", spaces u,
      .one quote, .many false 0 none dot, .one quote],
    .concat [caseless "<iframe", .many true 0 none notClosing, caseless ">"],
    .concat [caseless "&#", .many true 0 (some 1) (ignoreCase 'x'), .many true 1 none hexDigit,
      caseless ";"]]

/-- The alternatives of `_SQL_KEYWORDS_RE`. -/
def sqlKeywords (u : UnicodeData) : Pattern CodePoint :=
  .anyOf (caseless "SELECT") [caseless "INSERT", caseless "UPDATE", caseless "DELETE",
    caseless "DROP", caseless "ALTER", caseless "CREATE", caseless "TRUNCATE", caseless "EXEC",
    caseless "UNION",
    .concat [caseless "OR", .many true 1 none u.isSpace, .many true 1 none u.isDecimal, spaces u,
      caseless "=", spaces u, .many true 1 none u.isDecimal],
    .concat [caseless "'", spaces u, caseless "OR", spaces u, caseless "'"]]

def SQL_KEYWORDS_RE (u : UnicodeData) : Pattern CodePoint :=
  .seq (.check u.atBoundary) (.seq (sqlKeywords u) (.check u.atBoundary))

def sanitizeText (u : UnicodeData) (value : Text) : Text :=
  let value := (XSS_PATTERNS u).foldl (fun value pattern => sub pattern [] value) value
  let value := sub (SQL_KEYWORDS_RE u) [] value
  strip u.isSpace value

/-- Everything that `sanitize_text` looks for. -/
def signatures (u : UnicodeData) : List (Pattern CodePoint) := XSS_PATTERNS u ++ [SQL_KEYWORDS_RE u]

variable {u : UnicodeData} {s before piece after : Text} {P : Pattern CodePoint} {c : CodePoint}

theorem sanitizeText_eq (u : UnicodeData) (value : Text) :
    sanitizeText u value = strip u.isSpace (removeAll (signatures u) value) := by
  rw [sanitizeText, removeAll, signatures, List.foldl_append]
  rfl

/-! ### What a match looks like -/

theorem isSpace_eq_false_of_isAlnum (h : u.isAlnum c = true) : u.isSpace c = false := by
  rw [Bool.eq_false_iff]
  intro hspace
  rw [u.not_isAlnum_of_isSpace c hspace] at h
  simp at h

theorem isSpace_ascii_eq_false {a : Char} (hlo : 32 < a.toNat) (hhi : a.toNat < 128) :
    u.isSpace (codePoint a) = false := by
  rw [u.isSpace_ascii a hhi, decide_eq_false_iff_not]
  omega

/-- A visible ASCII character in both cases. -/
def VisibleChar (a : Char) : Prop :=
  32 < a.toLower.toNat ∧ a.toLower.toNat < 128 ∧ 32 < a.toUpper.toNat ∧ a.toUpper.toNat < 128

instance (a : Char) : Decidable (VisibleChar a) := by
  unfold VisibleChar
  infer_instance

/-- Neither case of a visible character, nor a twin of it, is a space. -/
theorem isSpace_of_ignoreCase {a : Char} (ha : VisibleChar a) (h : ignoreCase a c = true) :
    u.isSpace c = false := by
  have htwin : ∀ d ∈ caseTwins, u.isSpace d = false :=
    fun d hd => isSpace_eq_false_of_isAlnum (u.isAlnum_caseTwins d hd)
  simp only [ignoreCase, Bool.or_eq_true, Bool.and_eq_true, beq_iff_eq] at h
  rcases h with (((rfl | rfl) | ⟨-, rfl | rfl⟩) | ⟨-, rfl⟩) | ⟨-, rfl⟩
  · exact isSpace_ascii_eq_false ha.1 ha.2.1
  · exact isSpace_ascii_eq_false ha.2.2.1 ha.2.2.2
  · exact htwin _ (by simp [caseTwins])
  · exact htwin _ (by simp [caseTwins])
  · exact htwin _ (by simp [caseTwins])
  · exact htwin _ (by simp [caseTwins])

theorem isSpace_of_quote (h : quote c = true) : u.isSpace c = false := by
  simp only [quote, Bool.or_eq_true, beq_iff_eq] at h
  rcases h with rfl | rfl
  · exact isSpace_ascii_eq_false (by decide) (by decide)
  · exact isSpace_ascii_eq_false (by decide) (by decide)

/-- A match of the pattern starts and ends with a character that `strip` keeps. -/
structure Visible (u : UnicodeData) (P : Pattern CodePoint) : Prop where
  contextFree : ContextFree P
  first : StartsIn (fun c => u.isSpace c = false) P
  last : EndsIn (fun c => u.isSpace c = false) P

theorem visible_concat {first last : Pattern CodePoint} {middle : List (Pattern CodePoint)}
    (hfirst : Visible u first) (hmiddle : ∀ r ∈ middle, ContextFree r) (hlast : Visible u last) :
    Visible u (.concat (first :: (middle ++ [last]))) where
  contextFree := by
    apply contextFree_concat
    intro r hr
    rcases List.mem_cons.mp hr with rfl | hr
    · exact hfirst.contextFree
    · rcases List.mem_append.mp hr with hr | hr
      · exact hmiddle r hr
      · rw [List.mem_singleton.mp hr]
        exact hlast.contextFree
  first := startsIn_concat hfirst.first _
  last := endsIn_concat hlast.last (first :: middle)

theorem contextFree_caseless (w : String) : ContextFree (caseless w) := by
  apply contextFree_concat
  intro r hr
  obtain ⟨p, -, rfl⟩ := List.mem_map.mp hr
  trivial

theorem visible_many {greedy : Bool} {lo : ℕ} {hi : Option ℕ} {p : CodePoint → Bool} (hlo : 0 < lo)
    (hp : ∀ c, p c = true → u.isSpace c = false) : Visible u (.many greedy lo hi p) :=
  ⟨trivial, ⟨hlo, hp⟩, ⟨hlo, hp⟩⟩

theorem visible_caseless (w : String) (hne : w.toList ≠ [])
    (hw : w.toList.all (fun a => VisibleChar a) = true) : Visible u (caseless w) := by
  have hone : ∀ a ∈ w.toList, Visible u (.one (ignoreCase a)) := by
    intro a ha
    exact visible_many Nat.one_pos fun c hc => isSpace_of_ignoreCase
      (of_decide_eq_true (List.all_eq_true.mp hw a ha)) hc
  refine ⟨contextFree_caseless w, ?_, ?_⟩
  · cases hchars : w.toList with
    | nil => exact absurd hchars hne
    | cons a rest =>
      rw [caseless, hchars]
      exact startsIn_concat (hone a (by simp [hchars])).first _
  · obtain ⟨rest, a, hchars⟩ := (List.eq_nil_or_concat' w.toList).resolve_left hne
    rw [caseless, hchars, Pattern.literal, List.map_append, List.map_append]
    exact endsIn_concat (hone a (by simp [hchars])).last _

theorem visible_xss (hP : P ∈ XSS_PATTERNS u) : Visible u P := by
  simp only [XSS_PATTERNS, List.mem_cons, List.not_mem_nil, or_false] at hP
  rcases hP with rfl | rfl | rfl | rfl | rfl
  · refine @visible_concat _ _ _ [_, _, _] ?_ ?_ ?_
    · exact visible_caseless "<script" (by decide) (by decide)
    · simp [contextFree_caseless, ContextFree]
    · exact visible_caseless "</script>" (by decide) (by decide)
  · refine @visible_concat _ _ _ [_] ?_ ?_ ?_
    · exact visible_caseless "javascript" (by decide) (by decide)
    · simp [spaces, ContextFree]
    · exact visible_caseless ":" (by decide) (by decide)
  · refine @visible_concat _ _ _ [_, _, _, _, _, _] ?_ ?_ ?_
    · exact visible_caseless "on" (by decide) (by decide)
    · simp [contextFree_caseless, spaces, Pattern.one, ContextFree]
    · exact visible_many Nat.one_pos fun c hc => isSpace_of_quote hc
  · refine @visible_concat _ _ _ [_] ?_ ?_ ?_
    · exact visible_caseless "<iframe" (by decide) (by decide)
    · simp [ContextFree]
    · exact visible_caseless ">" (by decide) (by decide)
  · refine @visible_concat _ _ _ [_, _] ?_ ?_ ?_
    · exact visible_caseless "&#" (by decide) (by decide)
    · simp [ContextFree]
    · exact visible_caseless ";" (by decide) (by decide)

theorem visible_anyOf {r : Pattern CodePoint} {rs : List (Pattern CodePoint)}
    (h : ∀ P ∈ r :: rs, Visible u P) : Visible u (.anyOf r rs) := by
  induction rs generalizing r with
  | nil => exact h r (by simp)
  | cons s rs ih =>
    have hr := h r (by simp)
    have hrest := ih fun P hP => h P (List.mem_cons_of_mem r hP)
    exact ⟨⟨hr.contextFree, hrest.contextFree⟩, ⟨hr.first, hrest.first⟩, ⟨hr.last, hrest.last⟩⟩

theorem visible_sqlKeywords (u : UnicodeData) : Visible u (sqlKeywords u) := by
  have hdigits : Visible u (.many true 1 none u.isDecimal) :=
    visible_many Nat.one_pos fun c hc => isSpace_eq_false_of_isAlnum (u.isAlnum_of_isDecimal c hc)
  apply visible_anyOf
  intro P hP
  simp only [List.mem_cons, List.not_mem_nil, or_false] at hP
  rcases hP with rfl | rfl | rfl | rfl | rfl | rfl | rfl | rfl | rfl | rfl | rfl | rfl
  · exact visible_caseless "SELECT" (by decide) (by decide)
  · exact visible_caseless "INSERT" (by decide) (by decide)
  · exact visible_caseless "UPDATE" (by decide) (by decide)
  · exact visible_caseless "DELETE" (by decide) (by decide)
  · exact visible_caseless "DROP" (by decide) (by decide)
  · exact visible_caseless "ALTER" (by decide) (by decide)
  · exact visible_caseless "CREATE" (by decide) (by decide)
  · exact visible_caseless "TRUNCATE" (by decide) (by decide)
  · exact visible_caseless "EXEC" (by decide) (by decide)
  · exact visible_caseless "UNION" (by decide) (by decide)
  · refine @visible_concat _ _ _ [_, _, _, _, _] ?_ ?_ hdigits
    · exact visible_caseless "OR" (by decide) (by decide)
    · simp [contextFree_caseless, spaces, ContextFree]
  · refine @visible_concat _ _ _ [_, _, _] ?_ ?_ ?_
    · exact visible_caseless "'" (by decide) (by decide)
    · simp [contextFree_caseless, spaces, ContextFree]
    · exact visible_caseless "'" (by decide) (by decide)

/-- A keyword is matched between two boundaries. -/
theorem matches_sql_iff (u : UnicodeData) (before piece after : Text) :
    Matches (SQL_KEYWORDS_RE u) before piece after ↔ u.atBoundary before (piece ++ after) = true ∧
      Matches (sqlKeywords u) [] piece [] ∧ u.atBoundary (piece.reverse ++ before) after = true := by
  have hfree := (visible_sqlKeywords u).contextFree
  rw [SQL_KEYWORDS_RE, matches_seq_check]
  simp only [Matches]
  constructor
  · rintro ⟨hstart, first, second, rfl, hmatch, rfl, hend⟩
    rw [List.append_nil]
    exact ⟨by simpa using hstart, (hfree.matches_iff _ _ [] [] first).mp hmatch, hend⟩
  · rintro ⟨hstart, hmatch, hend⟩
    exact ⟨hstart, piece, [], by simp, (hfree.matches_iff [] [] _ _ piece).mp hmatch, rfl, hend⟩

/-- A match of a signature is a visible piece. -/
theorem exists_ends_of_matches (hP : P ∈ signatures u) (h : Matches P before piece after) :
    (∃ a f, piece = a :: f ∧ u.isSpace a = false) ∧ ∃ l b, piece = l ++ [b] ∧ u.isSpace b = false := by
  rcases List.mem_append.mp hP with hP | hP
  · exact ⟨(visible_xss hP).first.head h, (visible_xss hP).last.last h⟩
  · rw [List.mem_singleton.mp hP, matches_sql_iff] at h
    exact ⟨(visible_sqlKeywords u).first.head h.2.1, (visible_sqlKeywords u).last.last h.2.1⟩

/-! ### The final strip -/

theorem isWord_of_isSpace (h : u.isSpace c = true) : u.isWord c = false := by
  have hne : c ≠ codePoint '_' := by
    rintro rfl
    rw [isSpace_ascii_eq_false (by decide) (by decide)] at h
    simp at h
  simp [UnicodeData.isWord, u.not_isAlnum_of_isSpace c h, hne]

/-- To a boundary, spaces are like the end of the text. -/
theorem any_head?_append_spaces {spaces : Text} (hs : ∀ c ∈ spaces, u.isSpace c = true) (t : Text) :
    (t ++ spaces).head?.any u.isWord = t.head?.any u.isWord := by
  cases t with
  | cons c t => rfl
  | nil =>
    cases spaces with
    | nil => rfl
    | cons c spaces => exact isWord_of_isSpace (hs c (by simp))

theorem matches_append_spaces (hP : P ∈ signatures u) {w w' : Text}
    (hw : ∀ c ∈ w, u.isSpace c = true) (hw' : ∀ c ∈ w', u.isSpace c = true) :
    Matches P (before ++ w) piece (after ++ w') ↔ Matches P before piece after := by
  rcases List.mem_append.mp hP with hP | hP
  · exact (visible_xss hP).contextFree.matches_iff _ _ _ _ piece
  · rw [List.mem_singleton.mp hP, matches_sql_iff, matches_sql_iff]
    simp only [UnicodeData.atBoundary, ← List.append_assoc, any_head?_append_spaces hw,
      any_head?_append_spaces hw']

/-- Stripping neither makes a match nor removes one. -/
theorem search_strip (hP : P ∈ signatures u) (t : Text) :
    search P (strip u.isSpace t) = search P t := by
  obtain ⟨w, w', ht, hw, hw'⟩ := exists_strip_append u.isSpace t
  rw [Bool.eq_iff_iff, search_iff, search_iff]
  have hw_rev : ∀ c ∈ w.reverse, u.isSpace c = true := fun c hc => hw c (List.mem_reverse.mp hc)
  constructor
  · rintro ⟨left, piece, after, hcore, hmatch⟩
    refine ⟨w ++ left, piece, after ++ w', ?_, ?_⟩
    · rw [ht, hcore]
      simp only [List.append_assoc]
    · rw [List.reverse_append, matches_append_spaces hP hw_rev hw']
      exact hmatch
  · rintro ⟨left, piece, after, htext, hmatch⟩
    obtain ⟨⟨a, f, hfirst, ha⟩, l, b, hlast, hb⟩ := exists_ends_of_matches hP hmatch
    obtain ⟨left', after', rfl, rfl, hcore⟩ :=
      strip_keeps hw hw' hfirst ha hlast hb (ht.symm.trans htext)
    rw [List.reverse_append, matches_append_spaces hP hw_rev hw'] at hmatch
    exact ⟨left', piece, after', hcore, hmatch⟩

/-! ### Matches across a removed piece -/

/-- The characters that the removals leave, each with its place in the input. -/
def kept (u : UnicodeData) (value : Text) : List (CodePoint × ℕ) :=
  removeAll ((signatures u).map (Pattern.comap Prod.fst)) value.zipIdx

theorem kept_map_fst (u : UnicodeData) (value : Text) :
    (kept u value).map Prod.fst = removeAll (signatures u) value := by
  rw [kept, removeAll_comap, List.zipIdx_map_fst]

/-- The characters, with their places, that are left when signatures are left
out of the text, pattern by pattern: a match wherever one starts. -/
def Leaves (u : UnicodeData) (value : Text) (pre post : List (Pattern CodePoint))
    (text rest : List (CodePoint × ℕ)) : Prop :=
  pre ++ post = signatures u ∧ WithoutAll (pre.map (Pattern.comap Prod.fst)) value.zipIdx text ∧
    WithoutAll (post.map (Pattern.comap Prod.fst)) text rest

/-- The text can be read as a signature with others inside: when these are left
out, it stands there, at characters that were apart when its own turn had come. -/
def Splits (u : UnicodeData) (value : Text) : Prop :=
  ∃ pre P post text rest, Leaves u value pre (P :: post) text rest ∧
    ∃ left piece after, rest = left ++ piece ++ after ∧
      Matches (P.comap Prod.fst) left.reverse piece after ∧ ¬ piece <:+: text

theorem atBoundary_congr {before' after' : Text} (hbefore : before.head? = before'.head?)
    (hafter : after.head? = after'.head?) :
    u.atBoundary before after = u.atBoundary before' after' := by
  rw [UnicodeData.atBoundary, UnicodeData.atBoundary, hbefore, hafter]

/-- A keyword that the last pass leaves unbroken was one in front of that pass. -/
theorem matches_sql_of_sub {left right left' right' piece : List (CodePoint × ℕ)}
    (hnodup : (left ++ piece ++ right).Nodup)
    (hsub : sub ((SQL_KEYWORDS_RE u).comap Prod.fst) [] (left ++ piece ++ right) =
      left' ++ piece ++ right')
    (hmatch : Matches ((SQL_KEYWORDS_RE u).comap Prod.fst) left'.reverse piece right') :
    Matches ((SQL_KEYWORDS_RE u).comap Prod.fst) left.reverse piece right := by
  rw [matches_comap, matches_sql_iff] at hmatch ⊢
  obtain ⟨hstart, hword, hend⟩ := hmatch
  have hne : piece ≠ [] := by
    rintro rfl
    obtain ⟨a, f, hnil, -⟩ := (visible_sqlKeywords u).first.head hword
    simp at hnil
  refine ⟨?_, hword, ?_⟩
  · -- the neighbour before the keyword is the same, or a keyword ended there
    obtain ⟨c, f, rfl⟩ := List.exists_cons_of_ne_nil hne
    simp only [List.append_assoc, List.cons_append] at hnodup hsub
    rcases sub_left_neighbour hnodup hsub with heq | ⟨start, seen, -, hleft, hother⟩
    · rw [← hstart]
      apply atBoundary_congr
      · rw [List.head?_map, List.head?_map, List.head?_reverse, List.head?_reverse, heq]
      · rfl
    · rw [matches_comap, matches_sql_iff] at hother
      have hends := hother.2.2
      rw [← List.map_reverse, ← List.map_append, ← hleft] at hends
      rw [← hends]
      exact atBoundary_congr rfl rfl
  · -- the neighbour after the keyword is the same, or a keyword started there
    obtain ⟨f, c, rfl⟩ := (List.eq_nil_or_concat' piece).resolve_left hne
    have htext : ∀ l r : List (CodePoint × ℕ), l ++ (f ++ [c]) ++ r = (l ++ f) ++ c :: r := by simp
    rw [htext] at hnodup
    rw [htext, htext] at hsub
    rcases sub_right_neighbour hnodup hsub with heq | ⟨d, word, rest, hright, hother⟩
    · rw [← hend]
      apply atBoundary_congr
      · simp
      · rw [List.head?_map, List.head?_map, heq]
    · rw [matches_comap, matches_sql_iff] at hother
      rw [← hother.1]
      apply atBoundary_congr
      · simp
      · simp [hright]

/-- The pass of a signature; the pass of the keywords is the last one. -/
theorem exists_pass (hP : P ∈ signatures u) : ∃ pre post, signatures u = pre ++ P :: post ∧
    (ContextFree P ∨ P = SQL_KEYWORDS_RE u ∧ post = []) := by
  rcases List.mem_append.mp hP with hP | hP
  · obtain ⟨pre, post, hsplit⟩ := List.append_of_mem hP
    refine ⟨pre, post ++ [SQL_KEYWORDS_RE u], ?_, Or.inl (visible_xss hP).contextFree⟩
    rw [signatures, hsplit, List.append_assoc, List.cons_append]
  · rw [List.mem_singleton.mp hP]
    exact ⟨XSS_PATTERNS u, [], rfl, Or.inr ⟨rfl, rfl⟩⟩

/-- The pass of a signature leaves none of those that stand in its text. -/
theorem not_infix_of_matches (hP : P ∈ signatures u) {value : Text}
    {left piece after : List (CodePoint × ℕ)} (hkept : kept u value = left ++ piece ++ after)
    (hmatch : Matches (P.comap Prod.fst) left.reverse piece after) :
    ∃ pre post text, Leaves u value pre (P :: post) text (kept u value) ∧ ¬ piece <:+: text := by
  obtain ⟨pre, post, hsig, hform⟩ := exists_pass hP
  -- the text in front of the pass of `P`
  obtain ⟨text, htext⟩ : ∃ t, t = removeAll (pre.map (Pattern.comap Prod.fst)) value.zipIdx := ⟨_, rfl⟩
  have hpass : kept u value = removeAll (post.map (Pattern.comap Prod.fst))
      (sub (P.comap Prod.fst) [] text) := by
    rw [kept, hsig, List.map_append, List.map_cons, removeAll_append, htext]
  refine ⟨pre, post, text, ⟨hsig.symm, ?_, ?_⟩, ?_⟩
  · rw [htext]
    exact withoutAll_removeAll _ _
  · rw [hpass]
    exact withoutAll_removeAll (P.comap Prod.fst :: post.map (Pattern.comap Prod.fst)) text
  rintro ⟨left', right', hsplit⟩
  have hnodup : text.Nodup := (htext ▸ removeAll_sublist _ _ : text.Sublist _).nodup
    (nodup_zipIdx value)
  rw [← hsplit] at hnodup
  have hmatch' : Matches (P.comap Prod.fst) left'.reverse piece right' := by
    rcases hform with hfree | ⟨rfl, rfl⟩
    · exact ((hfree.comap Prod.fst).matches_iff _ _ _ _ piece).mp hmatch
    · have hsub : sub ((SQL_KEYWORDS_RE u).comap Prod.fst) [] (left' ++ piece ++ right') =
          left ++ piece ++ after := by
        rw [hsplit, ← hkept, hpass]
        rfl
      exact matches_sql_of_sub hnodup hsub hmatch
  have hne : piece ≠ [] := by
    rintro rfl
    rw [matches_comap] at hmatch
    obtain ⟨a, f, hnil, -⟩ := (exists_ends_of_matches hP hmatch).1
    simp at hnil
  obtain ⟨c, f, rfl⟩ := List.exists_cons_of_ne_nil hne
  have hgone := @not_mem_subFrom_of_matches _ (P.comap Prod.fst) 0 [] left' f right' c hnodup
    (by simpa using hmatch')
  rw [hsplit] at hgone
  refine hgone ((hpass ▸ removeAll_sublist _ _ : (kept u value).Sublist _).subset ?_)
  rw [hkept]
  simp

/-! ### The result -/

/-- A signature that is found in the result stood apart in the text. -/
theorem splits_of_search (hP : P ∈ signatures u) {value : Text}
    (hfound : search P (sanitizeText u value) = true) : Splits u value := by
  rw [sanitizeText_eq, search_strip hP, ← kept_map_fst, ← search_comap, search_iff] at hfound
  obtain ⟨left, piece, after, hkept, hmatch⟩ := hfound
  obtain ⟨pre, post, text, hleaves, hapart⟩ := not_infix_of_matches hP hkept hmatch
  exact ⟨pre, P, post, text, _, hleaves, left, piece, after, hkept, hmatch, hapart⟩

theorem sanitizeText_of_not_search {value : Text}
    (hfree : ∀ P ∈ signatures u, search P value = false) :
    sanitizeText u value = strip u.isSpace value := by
  rw [sanitizeText_eq, removeAll_of_not_search hfree]

/-- Nothing shorter than `&#1;` in it is a signature. -/
theorem not_splits_reference : ¬ Splits asciiData (text "&#1;") := by
  rintro ⟨pre, P, post, t, rest, ⟨hsig, hpre, hpost⟩, left, piece, after, hrest, hmatch, hapart⟩
  have hshort : ∀ rest ∈ (text "&#1;").zipIdx.sublists, rest ≠ (text "&#1;").zipIdx →
      ∀ P ∈ signatures asciiData, search (P.comap Prod.fst) rest = false := by decide +kernel
  have hP : P ∈ signatures asciiData := by simp [← hsig]
  have hfound : search (P.comap Prod.fst) rest = true :=
    (search_iff _ _).mpr ⟨left, piece, after, hrest, hmatch⟩
  have hwhole : rest = (text "&#1;").zipIdx := by
    by_contra hne
    have hnone := hshort rest
      (List.mem_sublists.mpr (hpost.sublist.trans hpre.sublist)) hne P hP
    rw [hfound] at hnone
    cases hnone
  have hsame : t = rest := List.Sublist.antisymm (hwhole ▸ hpre.sublist) hpost.sublist
  exact hapart ⟨left, after, by rw [hsame, hrest]⟩

end FastapiTemplate.Sanitize
