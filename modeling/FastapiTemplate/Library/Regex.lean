import Mathlib.Data.List.Basic
import Mathlib.Data.List.Nodup

/-!
Regular expressions as a backtracking matcher runs them, over any alphabet.
`Matches` says which pieces of a text a pattern matches, between the text
before the piece (nearest character first) and the text after it; `ends` lists
the lengths of the matches at a place in the order in which they are tried;
`sub` replaces the leftmost matches that do not overlap. What a removal leaves
has its characters in the order and the neighbourhood of the input, so a text
whose characters are pairwise different shows where the removed pieces were.
-/
namespace FastapiTemplate.Library.Regex

variable {α β : Type*}

/-- `many` repeats one class of characters, at most `hi` times when there is a
bound; `check` looks at the text before and after a place. -/
inductive Pattern (α : Type*)
  | empty
  | check (holds : List α → List α → Bool)
  | ahead (r : Pattern α)
  | many (greedy : Bool) (lo : ℕ) (hi : Option ℕ) (p : α → Bool)
  | seq (r s : Pattern α)
  | alt (r s : Pattern α)

namespace Pattern

/-- One character of a class. -/
def one (p : α → Bool) : Pattern α := .many true 1 (some 1) p

/-- Several patterns one after another. -/
def concat : List (Pattern α) → Pattern α
  | [] => .empty
  | [r] => r
  | r :: s :: rs => .seq r (concat (s :: rs))

/-- A word, each of whose places has a class of characters. -/
def literal (ps : List (α → Bool)) : Pattern α := concat (ps.map one)

/-- The first of several patterns. -/
def anyOf (r : Pattern α) : List (Pattern α) → Pattern α
  | [] => r
  | s :: rs => .alt r (anyOf s rs)

end Pattern

/-- The pattern matches the piece between the two texts. -/
def Matches : Pattern α → List α → List α → List α → Prop
  | .empty, _, piece, _ => piece = []
  | .check holds, before, piece, after => piece = [] ∧ holds before after = true
  | .ahead r, before, piece, after =>
    piece = [] ∧ ∃ seen rest, after = seen ++ rest ∧ Matches r before seen rest
  | .many _ lo hi p, _, piece, _ =>
    (∀ c ∈ piece, p c = true) ∧ lo ≤ piece.length ∧ ∀ n ∈ hi, piece.length ≤ n
  | .seq r s, before, piece, after =>
    ∃ first second, piece = first ++ second ∧
      Matches r before first (second ++ after) ∧ Matches s (first.reverse ++ before) second after
  | .alt r s, before, piece, after => Matches r before piece after ∨ Matches s before piece after

/-- The lengths of the matches at a place, the preferred ones first. -/
def ends : Pattern α → List α → List α → List ℕ
  | .empty, _, _ => [0]
  | .check holds, before, after => if holds before after then [0] else []
  | .ahead r, before, after => if (ends r before after).isEmpty then [] else [0]
  | .many greedy lo hi p, _, after =>
    let run := (after.takeWhile p).length
    let counts := List.range' lo (hi.elim run (min run) + 1 - lo)
    if greedy then counts.reverse else counts
  | .seq r s, before, after =>
    (ends r before after).flatMap fun n =>
      (ends s ((after.take n).reverse ++ before) (after.drop n)).map (n + ·)
  | .alt r s, before, after => ends r before after ++ ends s before after

/-- A run of a class at the head of a text. -/
theorem le_length_takeWhile_iff (p : α → Bool) (text : List α) (n : ℕ) :
    n ≤ (text.takeWhile p).length ↔ n ≤ text.length ∧ ∀ c ∈ text.take n, p c = true := by
  induction text generalizing n with
  | nil => simp
  | cons c text ih =>
    cases n with
    | zero => simp
    | succ n =>
      by_cases hc : p c = true
      · simp [hc, ih]
      · simp [hc]

/-- The one empty piece at the head of a text. -/
theorem take_eq_nil_iff_of_le (text : List α) (n : ℕ) :
    (n ≤ text.length ∧ text.take n = []) ↔ n = 0 := by
  rw [List.take_eq_nil_iff]
  constructor
  · rintro ⟨hn, h | h⟩
    · exact h
    · simpa [h] using hn
  · intro h
    exact ⟨by omega, Or.inl h⟩

theorem mem_ends_iff (r : Pattern α) (before after : List α) (n : ℕ) :
    n ∈ ends r before after ↔
      n ≤ after.length ∧ Matches r before (after.take n) (after.drop n) := by
  induction r generalizing before after n with
  | empty =>
    simp only [ends, Matches, List.mem_singleton, take_eq_nil_iff_of_le]
  | check holds =>
    simp only [ends, Matches, ← and_assoc, take_eq_nil_iff_of_le]
    by_cases hn : n = 0
    · by_cases hh : holds before after = true <;> simp [hn, hh]
    · by_cases hh : holds before after = true <;> simp [hn, hh]
  | ahead r ih =>
    have hseen : (∃ seen rest, after = seen ++ rest ∧ Matches r before seen rest) ↔
        ends r before after ≠ [] := by
      constructor
      · rintro ⟨seen, rest, rfl, h⟩
        have hmem : seen.length ∈ ends r before (seen ++ rest) := by
          rw [ih]
          simpa using h
        exact List.ne_nil_of_mem hmem
      · intro hne
        obtain ⟨k, hk⟩ := List.exists_mem_of_ne_nil _ hne
        rw [ih] at hk
        exact ⟨_, _, (List.take_append_drop k after).symm, hk.2⟩
    simp only [ends, Matches, ← and_assoc, take_eq_nil_iff_of_le]
    by_cases hn : n = 0
    · subst n
      simp only [List.drop_zero, hseen, true_and]
      cases ends r before after <;> simp
    · cases ends r before after <;> simp [hn]
  | many greedy lo hi p =>
    have hmem : n ∈ ends (.many greedy lo hi p) before after ↔
        lo ≤ n ∧ n ≤ hi.elim (after.takeWhile p).length (min (after.takeWhile p).length) := by
      cases greedy <;> simp only [ends, Bool.false_eq_true, ite_false, ite_true,
        List.mem_reverse, List.mem_range'_1] <;> omega
    have hrun := le_length_takeWhile_iff p after n
    rw [hmem]
    simp only [Matches]
    constructor
    · rintro ⟨hlo, hhi⟩
      have hle : n ≤ (after.takeWhile p).length := by
        cases hi with
        | none => exact hhi
        | some k => exact Nat.le_trans hhi (Nat.min_le_left _ _)
      have hlen : (after.take n).length = n := by
        rw [List.length_take]
        have := (hrun.mp hle).1
        omega
      refine ⟨(hrun.mp hle).1, (hrun.mp hle).2, by omega, ?_⟩
      intro k hk
      subst hk
      rw [hlen]
      exact Nat.le_trans hhi (Nat.min_le_right _ _)
    · rintro ⟨hn, hall, hlo, hhi⟩
      have hlen : (after.take n).length = n := by
        rw [List.length_take]
        omega
      rw [hlen] at hlo hhi
      refine ⟨hlo, ?_⟩
      cases hi with
      | none => exact hrun.mpr ⟨hn, hall⟩
      | some k => exact Nat.le_min.mpr ⟨hrun.mpr ⟨hn, hall⟩, hhi k rfl⟩
  | seq r s ihr ihs =>
    simp only [ends, Matches, List.mem_flatMap, List.mem_map]
    constructor
    · rintro ⟨k, hk, l, hl, rfl⟩
      rw [ihr] at hk
      rw [ihs, List.length_drop] at hl
      refine ⟨by omega, after.take k, (after.drop k).take l, List.take_add, ?_, ?_⟩
      · rw [← List.drop_drop, List.take_append_drop]
        exact hk.2
      · rw [← List.drop_drop]
        exact hl.2
    · rintro ⟨hn, first, second, heq, hr, hs⟩
      have htext : after = first ++ (second ++ after.drop n) := by
        rw [← List.append_assoc, ← heq, List.take_append_drop]
      have hlen : first.length + second.length = n := by
        have := congrArg List.length heq
        rw [List.length_append, List.length_take] at this
        omega
      refine ⟨first.length, ?_, second.length, ?_, hlen⟩
      · rw [ihr, htext]
        simpa using hr
      · rw [ihs, htext]
        simpa using hs
  | alt r s ihr ihs =>
    simp only [ends, Matches, List.mem_append, ihr, ihs]
    tauto

/-- A piece is matched between two texts exactly when its length is listed. -/
theorem matches_iff (r : Pattern α) (before piece after : List α) :
    Matches r before piece after ↔ piece.length ∈ ends r before (piece ++ after) := by
  rw [mem_ends_iff]
  simp

theorem matches_one (p : α → Bool) (before piece after : List α) :
    Matches (.one p) before piece after ↔ ∃ c, piece = [c] ∧ p c = true := by
  simp only [Pattern.one, Matches, Option.mem_some_iff, forall_eq']
  constructor
  · rintro ⟨hall, hlo, hhi⟩
    obtain ⟨c, rfl⟩ := List.length_eq_one_iff.mp (Nat.le_antisymm hhi hlo)
    exact ⟨c, rfl, hall c (by simp)⟩
  · rintro ⟨c, rfl, hc⟩
    simpa using hc

theorem matches_concat_cons (r : Pattern α) (rs : List (Pattern α)) (before piece after : List α) :
    Matches (.concat (r :: rs)) before piece after ↔
      Matches (.seq r (.concat rs)) before piece after := by
  cases rs with
  | cons s rs => rfl
  | nil =>
    simp only [Pattern.concat, Matches]
    constructor
    · intro h
      exact ⟨piece, [], by simp, by simpa using h, rfl⟩
    · rintro ⟨first, second, rfl, h, rfl⟩
      simpa using h

/-- A word is matched place by place. -/
theorem matches_literal (ps : List (α → Bool)) (before piece after : List α) :
    Matches (.literal ps) before piece after ↔ List.Forall₂ (fun p c => p c = true) ps piece := by
  induction ps generalizing before piece with
  | nil => simp [Pattern.literal, Pattern.concat, Matches, List.forall₂_nil_left_iff]
  | cons p ps ih =>
    rw [Pattern.literal, List.map_cons, matches_concat_cons]
    simp only [Matches, matches_one, ← Pattern.literal.eq_1, ih, List.forall₂_cons_left_iff]
    constructor
    · rintro ⟨first, second, rfl, ⟨c, rfl, hc⟩, hrest⟩
      exact ⟨c, second, hc, hrest, rfl⟩
    · rintro ⟨c, second, hc, hrest, rfl⟩
      exact ⟨[c], second, rfl, ⟨c, rfl, hc⟩, hrest⟩

theorem matches_anyOf (r : Pattern α) (rs : List (Pattern α)) (before piece after : List α) :
    Matches (.anyOf r rs) before piece after ↔ ∃ s ∈ r :: rs, Matches s before piece after := by
  induction rs generalizing r with
  | nil => simp [Pattern.anyOf]
  | cons s rs ih => simp only [Pattern.anyOf, Matches, ih, List.exists_mem_cons_iff]

theorem matches_seq_check (holds : List α → List α → Bool) (s : Pattern α)
    (before piece after : List α) :
    Matches (.seq (.check holds) s) before piece after ↔
      holds before (piece ++ after) = true ∧ Matches s before piece after := by
  simp only [Matches]
  constructor
  · rintro ⟨first, second, rfl, ⟨rfl, hholds⟩, hs⟩
    exact ⟨hholds, hs⟩
  · rintro ⟨hholds, hs⟩
    exact ⟨[], piece, rfl, ⟨rfl, hholds⟩, hs⟩

theorem matches_seq_ahead (r s : Pattern α) (before piece after : List α) :
    Matches (.seq (.ahead r) s) before piece after ↔
      (∃ seen rest, piece ++ after = seen ++ rest ∧ Matches r before seen rest) ∧
        Matches s before piece after := by
  simp only [Matches]
  constructor
  · rintro ⟨first, second, rfl, ⟨rfl, hahead⟩, hs⟩
    exact ⟨hahead, hs⟩
  · rintro ⟨hahead, hs⟩
    exact ⟨[], piece, rfl, ⟨rfl, hahead⟩, hs⟩

/-! ### Searching -/

/-- `re.search`: the pattern matches somewhere in the text. -/
def searchFrom (r : Pattern α) : List α → List α → Bool
  | before, [] => !(ends r before []).isEmpty
  | before, c :: text => !(ends r before (c :: text)).isEmpty || searchFrom r (c :: before) text

def search (r : Pattern α) (text : List α) : Bool := searchFrom r [] text

/-- `re.match`: the pattern matches at the start of the text. -/
def matchStart (r : Pattern α) (text : List α) : Bool := !(ends r [] text).isEmpty

theorem ends_ne_nil_iff (r : Pattern α) (before text : List α) :
    ends r before text ≠ [] ↔ ∃ piece after, text = piece ++ after ∧ Matches r before piece after := by
  constructor
  · intro hne
    obtain ⟨n, hn⟩ := List.exists_mem_of_ne_nil _ hne
    rw [mem_ends_iff] at hn
    exact ⟨_, _, (List.take_append_drop n text).symm, hn.2⟩
  · rintro ⟨piece, after, rfl, h⟩
    exact List.ne_nil_of_mem ((matches_iff r before piece after).mp h)

theorem matchStart_iff (r : Pattern α) (text : List α) :
    matchStart r text = true ↔
      ∃ piece after, text = piece ++ after ∧ Matches r [] piece after := by
  rw [← ends_ne_nil_iff]
  simp [matchStart]

theorem searchFrom_iff (r : Pattern α) (before text : List α) :
    searchFrom r before text = true ↔ ∃ left piece after,
      text = left ++ piece ++ after ∧ Matches r (left.reverse ++ before) piece after := by
  induction text generalizing before with
  | nil =>
    have hends := ends_ne_nil_iff r before []
    simp only [searchFrom, Bool.not_eq_true', List.isEmpty_eq_false_iff, hends]
    constructor
    · rintro ⟨piece, after, htext, h⟩
      exact ⟨[], piece, after, by simpa using htext, by simpa using h⟩
    · rintro ⟨left, piece, after, htext, h⟩
      obtain ⟨rfl, hnil⟩ : left = [] ∧ piece ++ after = [] := by simpa using htext.symm
      exact ⟨piece, after, hnil.symm, by simpa using h⟩
  | cons c text ih =>
    have hends := ends_ne_nil_iff r before (c :: text)
    simp only [searchFrom, Bool.or_eq_true, Bool.not_eq_true', List.isEmpty_eq_false_iff, hends, ih]
    constructor
    · rintro (⟨piece, after, htext, h⟩ | ⟨left, piece, after, htext, h⟩)
      · exact ⟨[], piece, after, by simpa using htext, by simpa using h⟩
      · exact ⟨c :: left, piece, after, by simp [htext], by simpa using h⟩
    · rintro ⟨left, piece, after, htext, h⟩
      cases left with
      | nil => exact Or.inl ⟨piece, after, by simpa using htext, by simpa using h⟩
      | cons d left =>
        simp only [List.cons_append, List.cons.injEq] at htext
        obtain ⟨rfl, htext⟩ := htext
        exact Or.inr ⟨left, piece, after, htext, by simpa using h⟩

theorem search_iff (r : Pattern α) (text : List α) :
    search r text = true ↔ ∃ left piece after,
      text = left ++ piece ++ after ∧ Matches r left.reverse piece after := by
  simp [search, searchFrom_iff]

/-! ### Replacing -/

/-- `re.sub` for patterns that match no empty piece: each leftmost match is
replaced and the scan goes on after it. `skip` characters are left of the match
that the scan is in. -/
def subFrom (r : Pattern α) (repl : List α) : ℕ → List α → List α → List α
  | _, _, [] => []
  | skip + 1, before, c :: text => subFrom r repl skip (c :: before) text
  | 0, before, c :: text =>
    match (ends r before (c :: text)).find? (0 < ·) with
    | some n => repl ++ subFrom r repl (n - 1) (c :: before) text
    | none => c :: subFrom r repl 0 (c :: before) text

def sub (r : Pattern α) (repl text : List α) : List α := subFrom r repl 0 [] text

/-- The match that is replaced at a place. -/
theorem find_ends_eq_some {r : Pattern α} {before text : List α} {n : ℕ}
    (h : (ends r before text).find? (0 < ·) = some n) :
    0 < n ∧ n ≤ text.length ∧ Matches r before (text.take n) (text.drop n) := by
  have hpos : 0 < n := by simpa using List.find?_some h
  exact ⟨hpos, (mem_ends_iff r before text n).mp (List.mem_of_find?_eq_some h)⟩

/-- Nothing is replaced at a place where only empty pieces match. -/
theorem find_ends_eq_none_iff {r : Pattern α} {before text : List α} :
    (ends r before text).find? (0 < ·) = none ↔
      ∀ c piece after, text = c :: piece ++ after → ¬ Matches r before (c :: piece) after := by
  rw [List.find?_eq_none]
  constructor
  · intro h c piece after htext hmatch
    rw [matches_iff, ← htext] at hmatch
    simpa using h _ hmatch
  · intro h n hn
    rw [mem_ends_iff] at hn
    intro hpos
    have hpos : 0 < n := by simpa using hpos
    cases htake : text.take n with
    | nil =>
      have := (take_eq_nil_iff_of_le text n).mp ⟨hn.1, htake⟩
      omega
    | cons c piece =>
      apply h c piece (text.drop n)
      · rw [← htake, List.take_append_drop]
      · rw [← htake]
        exact hn.2

theorem subFrom_of_not_search {r : Pattern α} {before text : List α} (repl : List α)
    (h : searchFrom r before text = false) : subFrom r repl 0 before text = text := by
  induction text generalizing before with
  | nil => rfl
  | cons c text ih =>
    simp only [searchFrom, Bool.or_eq_false_iff, Bool.not_eq_false', List.isEmpty_iff] at h
    simp only [subFrom, h.1, List.find?_nil, ih h.2]

/-- A text without a match is left as it is. -/
theorem sub_of_not_search {r : Pattern α} {text : List α} (repl : List α)
    (h : search r text = false) : sub r repl text = text :=
  subFrom_of_not_search repl h

/-- Replacing each character of a class. -/
theorem subFrom_one (p : α → Bool) (x : α) (before text : List α) :
    subFrom (.one p) [x] 0 before text = text.map (fun c => if p c then x else c) := by
  induction text generalizing before with
  | nil => rfl
  | cons c text ih =>
    by_cases hc : p c = true
    · have hends : ends (.one p) before (c :: text) = [1] := by
        simp [ends, Pattern.one, hc]
      simp [subFrom, hends, hc, ih]
    · have hends : ends (.one p) before (c :: text) = [] := by
        simp [ends, Pattern.one, hc]
      simp [subFrom, hends, hc, ih]

theorem sub_one (p : α → Bool) (x : α) (text : List α) :
    sub (.one p) [x] text = text.map (fun c => if p c then x else c) :=
  subFrom_one p x [] text

/-! ### What a removal leaves -/

theorem subFrom_nil_sublist (r : Pattern α) (skip : ℕ) (before text : List α) :
    (subFrom r [] skip before text).Sublist text := by
  induction text generalizing skip before with
  | nil => simp [subFrom]
  | cons c text ih =>
    cases skip with
    | succ skip => exact (ih skip (c :: before)).cons c
    | zero =>
      simp only [subFrom]
      split
      · exact (ih _ (c :: before)).cons c
      · exact (ih 0 (c :: before)).cons_cons c

theorem sub_nil_sublist (r : Pattern α) (text : List α) : (sub r [] text).Sublist text :=
  subFrom_nil_sublist r 0 [] text

/-- The first character of every match goes. -/
theorem not_mem_subFrom_of_matches {r : Pattern α} {skip : ℕ} {before left piece after : List α}
    {c : α} (hnodup : (left ++ c :: piece ++ after).Nodup)
    (hmatch : Matches r (left.reverse ++ before) (c :: piece) after) :
    c ∉ subFrom r [] skip before (left ++ c :: piece ++ after) := by
  induction left generalizing skip before with
  | nil =>
    have hrest : ∀ k, c ∉ subFrom r [] k (c :: before) (piece ++ after) := by
      intro k hc
      have hmem := (subFrom_nil_sublist r k (c :: before) (piece ++ after)).subset hc
      simp only [List.nil_append, List.cons_append, List.nodup_cons] at hnodup
      exact hnodup.1 hmem
    cases skip with
    | succ skip => exact hrest skip
    | zero =>
      simp only [List.nil_append, List.cons_append, subFrom]
      split
      · exact hrest _
      · rename_i hnone
        exact absurd hmatch (find_ends_eq_none_iff.mp hnone c piece after rfl)
  | cons d left ih =>
    simp only [List.cons_append, List.nodup_cons] at hnodup
    have hne : c ≠ d := by
      rintro rfl
      exact hnodup.1 (by simp)
    have hmatch' : Matches r (left.reverse ++ (d :: before)) (c :: piece) after := by
      simpa using hmatch
    have hrest : ∀ k, c ∉ subFrom r [] k (d :: before) (left ++ c :: piece ++ after) :=
      fun k => ih hnodup.2 hmatch'
    cases skip with
    | succ skip => exact hrest skip
    | zero =>
      simp only [List.cons_append, subFrom]
      split
      · exact hrest _
      · simp only [List.mem_cons, not_or]
        exact ⟨hne, hrest 0⟩

/-- The scan is in a match, or just past it, that goes on for `skip` characters. -/
def InMatch (r : Pattern α) (skip : ℕ) (before text : List α) : Prop :=
  ∃ start seen, before = seen.reverse ++ start ∧ seen ≠ [] ∧ skip ≤ text.length ∧
    Matches r start (seen ++ text.take skip) (text.drop skip)

theorem InMatch.next {r : Pattern α} {skip : ℕ} {before text : List α} {c : α}
    (h : InMatch r (skip + 1) before (c :: text)) : InMatch r skip (c :: before) text := by
  obtain ⟨start, seen, hbefore, -, hlen, hmatch⟩ := h
  refine ⟨start, seen ++ [c], by simp [hbefore], by simp, ?_, by simpa using hmatch⟩
  simp only [List.length_cons] at hlen
  omega

theorem InMatch.first {r : Pattern α} {before text : List α} {c : α} {n : ℕ}
    (h : (ends r before (c :: text)).find? (0 < ·) = some n) :
    InMatch r (n - 1) (c :: before) text := by
  obtain ⟨hpos, hlen, hmatch⟩ := find_ends_eq_some h
  obtain ⟨k, rfl⟩ : ∃ k, n = k + 1 := ⟨n - 1, by omega⟩
  refine ⟨before, [c], by simp, by simp, ?_, by simpa using hmatch⟩
  simp only [List.length_cons] at hlen
  omega

/-- One step of the scan keeps a character or passes one of a match. -/
theorem subFrom_step {r : Pattern α} {skip : ℕ} {before text : List α} {c : α}
    (h : skip = 0 ∨ InMatch r skip before (c :: text)) :
    subFrom r [] skip before (c :: text) = c :: subFrom r [] 0 (c :: before) text ∨
      ∃ k, InMatch r k (c :: before) text ∧
        subFrom r [] skip before (c :: text) = subFrom r [] k (c :: before) text := by
  cases skip with
  | succ skip =>
    rcases h with h | h
    · omega
    · exact Or.inr ⟨skip, h.next, rfl⟩
  | zero =>
    cases hfind : (ends r before (c :: text)).find? (0 < ·) with
    | none => exact Or.inl (by simp only [subFrom, hfind])
    | some n => exact Or.inr ⟨n - 1, InMatch.first hfind, by simp only [subFrom, hfind,
        List.nil_append]⟩

/-- When a character goes and the next one stays, a match ends between them. -/
theorem exists_matches_before {r : Pattern α} {skip : ℕ} {before left after : List α} {c d : α}
    (hnodup : (left ++ c :: d :: after).Nodup)
    (hin : skip = 0 ∨ InMatch r skip before (left ++ c :: d :: after))
    (hc : c ∉ subFrom r [] skip before (left ++ c :: d :: after))
    (hd : d ∈ subFrom r [] skip before (left ++ c :: d :: after)) :
    ∃ start seen, seen ≠ [] ∧ c :: left.reverse ++ before = seen.reverse ++ start ∧
      Matches r start seen (d :: after) := by
  induction left generalizing skip before with
  | nil =>
    simp only [List.nil_append] at hc hd hin hnodup ⊢
    rcases subFrom_step hin with heq | ⟨k, hk, heq⟩
    · exact absurd (by simp [heq]) hc
    · rw [heq] at hd
      cases k with
      | zero =>
        obtain ⟨start, seen, hbefore, hne, -, hmatch⟩ := hk
        exact ⟨start, seen, hne, by simpa using hbefore, by simpa using hmatch⟩
      | succ k =>
        -- the match goes on, so `d` goes with it
        have hmem := (subFrom_nil_sublist r k (d :: c :: before) after).subset hd
        simp only [List.nodup_cons] at hnodup
        exact absurd hmem hnodup.2.1
  | cons e left ih =>
    have hne : d ≠ e := by
      rintro rfl
      simp at hnodup
    rw [List.cons_append] at hin hc hd
    simp only [List.cons_append, List.nodup_cons] at hnodup
    rcases subFrom_step hin with heq | ⟨k, hk, heq⟩
    · simp only [heq, List.mem_cons, not_or] at hc hd
      have := ih hnodup.2 (Or.inl rfl) hc.2 (hd.resolve_left hne)
      simpa using this
    · rw [heq] at hc hd
      have := ih hnodup.2 (Or.inr hk) hc hd
      simpa using this

/-- When a character stays and the next one goes, a match starts between them. -/
theorem exists_matches_after {r : Pattern α} {skip : ℕ} {before left after : List α} {c d : α}
    (hnodup : (left ++ c :: d :: after).Nodup)
    (hin : skip = 0 ∨ InMatch r skip before (left ++ c :: d :: after))
    (hc : c ∈ subFrom r [] skip before (left ++ c :: d :: after))
    (hd : d ∉ subFrom r [] skip before (left ++ c :: d :: after)) :
    ∃ piece rest, after = piece ++ rest ∧
      Matches r (c :: left.reverse ++ before) (d :: piece) rest := by
  induction left generalizing skip before with
  | nil =>
    simp only [List.nil_append] at hc hd hin hnodup ⊢
    rcases subFrom_step hin with heq | ⟨k, -, heq⟩
    · rw [heq] at hd
      cases hfind : (ends r (c :: before) (d :: after)).find? (0 < ·) with
      | none => exact absurd (by simp [subFrom, hfind]) hd
      | some n =>
        obtain ⟨hpos, -, hmatch⟩ := find_ends_eq_some hfind
        obtain ⟨k, rfl⟩ : ∃ k, n = k + 1 := ⟨n - 1, by omega⟩
        exact ⟨after.take k, after.drop k, (List.take_append_drop k after).symm,
          by simpa using hmatch⟩
    · rw [heq] at hc
      have hmem := (subFrom_nil_sublist r k (c :: before) (d :: after)).subset hc
      simp only [List.nodup_cons] at hnodup
      exact absurd hmem hnodup.1
  | cons e left ih =>
    have hne : c ≠ e := by
      rintro rfl
      simp at hnodup
    rw [List.cons_append] at hin hc hd
    simp only [List.cons_append, List.nodup_cons] at hnodup
    rcases subFrom_step hin with heq | ⟨k, hk, heq⟩
    · simp only [heq, List.mem_cons, not_or] at hc hd
      have := ih hnodup.2 (Or.inl rfl) (hc.resolve_left hne) hd.2
      simpa using this
    · rw [heq] at hc hd
      have := ih hnodup.2 (Or.inr hk) hc hd
      simpa using this

/-! ### The ends of a match -/

/-- Every match starts with a character of the class. -/
def StartsIn (q : α → Prop) : Pattern α → Prop
  | .empty => False
  | .check _ => False
  | .ahead _ => False
  | .many _ lo _ p => 0 < lo ∧ ∀ c, p c = true → q c
  | .seq r _ => StartsIn q r
  | .alt r s => StartsIn q r ∧ StartsIn q s

/-- Every match ends with a character of the class. -/
def EndsIn (q : α → Prop) : Pattern α → Prop
  | .empty => False
  | .check _ => False
  | .ahead _ => False
  | .many _ lo _ p => 0 < lo ∧ ∀ c, p c = true → q c
  | .seq _ s => EndsIn q s
  | .alt r s => EndsIn q r ∧ EndsIn q s

theorem StartsIn.head {q : α → Prop} {r : Pattern α} (hr : StartsIn q r)
    {before piece after : List α} (h : Matches r before piece after) :
    ∃ c t, piece = c :: t ∧ q c := by
  induction r generalizing before piece after with
  | empty => exact hr.elim
  | check holds => exact hr.elim
  | ahead r => exact hr.elim
  | many greedy lo hi p =>
    cases piece with
    | nil =>
      have hlo : lo ≤ 0 := h.2.1
      exact absurd hr.1 (by omega)
    | cons c t => exact ⟨c, t, rfl, hr.2 c (h.1 c (by simp))⟩
  | seq r s ihr ihs =>
    obtain ⟨first, second, rfl, hfirst, -⟩ := h
    obtain ⟨c, t, rfl, hc⟩ := ihr hr hfirst
    exact ⟨c, t ++ second, rfl, hc⟩
  | alt r s ihr ihs =>
    rcases h with h | h
    · exact ihr hr.1 h
    · exact ihs hr.2 h

theorem EndsIn.last {q : α → Prop} {r : Pattern α} (hr : EndsIn q r)
    {before piece after : List α} (h : Matches r before piece after) :
    ∃ t c, piece = t ++ [c] ∧ q c := by
  induction r generalizing before piece after with
  | empty => exact hr.elim
  | check holds => exact hr.elim
  | ahead r => exact hr.elim
  | many greedy lo hi p =>
    rcases List.eq_nil_or_concat' piece with rfl | ⟨t, c, rfl⟩
    · have hlo : lo ≤ 0 := h.2.1
      exact absurd hr.1 (by omega)
    · exact ⟨t, c, rfl, hr.2 c (h.1 c (by simp))⟩
  | seq r s ihr ihs =>
    obtain ⟨first, second, rfl, -, hsecond⟩ := h
    obtain ⟨t, c, rfl, hc⟩ := ihs hr hsecond
    exact ⟨first ++ t, c, by simp, hc⟩
  | alt r s ihr ihs =>
    rcases h with h | h
    · exact ihr hr.1 h
    · exact ihs hr.2 h

/-! ### Patterns that look at no neighbour -/

/-- The pattern has no `check` and no `ahead`. -/
def ContextFree : Pattern α → Prop
  | .empty => True
  | .check _ => False
  | .ahead _ => False
  | .many _ _ _ _ => True
  | .seq r s => ContextFree r ∧ ContextFree s
  | .alt r s => ContextFree r ∧ ContextFree s

theorem ContextFree.matches_iff {r : Pattern α} (hr : ContextFree r)
    (before after before' after' piece : List α) :
    Matches r before piece after ↔ Matches r before' piece after' := by
  induction r generalizing before after before' after' piece with
  | empty => rfl
  | check holds => exact hr.elim
  | ahead r => exact hr.elim
  | many greedy lo hi p => rfl
  | seq r s ihr ihs =>
    simp only [Matches]
    constructor
    · rintro ⟨first, second, heq, hfirst, hsecond⟩
      exact ⟨first, second, heq, (ihr hr.1 _ _ _ _ _).mp hfirst, (ihs hr.2 _ _ _ _ _).mp hsecond⟩
    · rintro ⟨first, second, heq, hfirst, hsecond⟩
      exact ⟨first, second, heq, (ihr hr.1 _ _ _ _ _).mpr hfirst, (ihs hr.2 _ _ _ _ _).mpr hsecond⟩
  | alt r s ihr ihs =>
    simp only [Matches, ihr hr.1 before after before' after', ihs hr.2 before after before' after']

theorem contextFree_concat {rs : List (Pattern α)} (h : ∀ r ∈ rs, ContextFree r) :
    ContextFree (.concat rs) := by
  induction rs with
  | nil => trivial
  | cons r rs ih =>
    have hrest := ih fun s hs => h s (by simp [hs])
    cases rs with
    | nil => exact h r (by simp)
    | cons s rs => exact ⟨h r (by simp), hrest⟩

theorem startsIn_concat {q : α → Prop} {r : Pattern α} (h : StartsIn q r) (rs : List (Pattern α)) :
    StartsIn q (.concat (r :: rs)) := by
  cases rs with
  | nil => exact h
  | cons s rs => exact h

theorem endsIn_concat {q : α → Prop} {r : Pattern α} (h : EndsIn q r) (rs : List (Pattern α)) :
    EndsIn q (.concat (rs ++ [r])) := by
  induction rs with
  | nil => exact h
  | cons s rs ih =>
    cases rs with
    | nil => exact h
    | cons s' rs => exact ih

/-! ### Another alphabet -/

/-- The pattern read through a map of the characters. -/
def Pattern.comap (f : β → α) : Pattern α → Pattern β
  | .empty => .empty
  | .check holds => .check (fun before after => holds (before.map f) (after.map f))
  | .ahead r => .ahead (r.comap f)
  | .many greedy lo hi p => .many greedy lo hi (p ∘ f)
  | .seq r s => .seq (r.comap f) (s.comap f)
  | .alt r s => .alt (r.comap f) (s.comap f)

theorem ends_comap (f : β → α) (r : Pattern α) (before after : List β) :
    ends (r.comap f) before after = ends r (before.map f) (after.map f) := by
  induction r generalizing before after with
  | empty => rfl
  | check holds => rfl
  | ahead r ih => simp only [Pattern.comap, ends, ih]
  | many greedy lo hi p => simp [Pattern.comap, ends, List.takeWhile_map]
  | seq r s ihr ihs =>
    simp only [Pattern.comap, ends, ihr, ihs, List.map_append, List.map_reverse, List.map_take,
      List.map_drop]
  | alt r s ihr ihs => simp only [Pattern.comap, ends, ihr, ihs]

theorem matches_comap (f : β → α) (r : Pattern α) (before piece after : List β) :
    Matches (r.comap f) before piece after ↔
      Matches r (before.map f) (piece.map f) (after.map f) := by
  simp only [matches_iff, ends_comap, List.map_append, List.length_map]

theorem subFrom_comap (f : β → α) (r : Pattern α) (repl : List β) (skip : ℕ)
    (before text : List β) :
    (subFrom (r.comap f) repl skip before text).map f =
      subFrom r (repl.map f) skip (before.map f) (text.map f) := by
  induction text generalizing skip before with
  | nil => rfl
  | cons c text ih =>
    cases skip with
    | succ skip => exact ih skip (c :: before)
    | zero =>
      simp only [subFrom, List.map_cons, ends_comap]
      split
      · simp [ih]
      · simp [ih]

theorem sub_comap (f : β → α) (r : Pattern α) (repl text : List β) :
    (sub (r.comap f) repl text).map f = sub r (repl.map f) (text.map f) :=
  subFrom_comap f r repl 0 [] text

theorem search_comap (f : β → α) (r : Pattern α) (text : List β) :
    search (r.comap f) text = search r (text.map f) := by
  have hfrom : ∀ before, searchFrom (r.comap f) before text =
      searchFrom r (before.map f) (text.map f) := by
    induction text with
    | nil =>
      intro before
      simp [searchFrom, ends_comap]
    | cons c text ih =>
      intro before
      simp [searchFrom, ends_comap, ih]
  exact hfrom []

theorem ContextFree.comap {r : Pattern α} (hr : ContextFree r) (f : β → α) :
    ContextFree (r.comap f) := by
  induction r with
  | empty => exact hr
  | check holds => exact hr
  | ahead r => exact hr
  | many greedy lo hi p => exact hr
  | seq r s ihr ihs => exact ⟨ihr hr.1, ihs hr.2⟩
  | alt r s ihr ihs => exact ⟨ihr hr.1, ihs hr.2⟩

/-! ### Removing several patterns -/

/-- The patterns are removed one after another, each in one pass. -/
def removeAll (rs : List (Pattern α)) (text : List α) : List α :=
  rs.foldl (fun text r => sub r [] text) text

theorem removeAll_sublist (rs : List (Pattern α)) (text : List α) :
    (removeAll rs text).Sublist text := by
  induction rs generalizing text with
  | nil => exact List.Sublist.refl text
  | cons r rs ih => exact (ih (sub r [] text)).trans (sub_nil_sublist r text)

theorem removeAll_append (rs : List (Pattern α)) (r : Pattern α) (rs' : List (Pattern α))
    (text : List α) :
    removeAll (rs ++ r :: rs') text = removeAll rs' (sub r [] (removeAll rs text)) := by
  simp only [removeAll, List.foldl_append, List.foldl_cons]

theorem removeAll_comap (f : β → α) (rs : List (Pattern α)) (text : List β) :
    (removeAll (rs.map (Pattern.comap f)) text).map f = removeAll rs (text.map f) := by
  induction rs generalizing text with
  | nil => rfl
  | cons r rs ih =>
    rw [List.map_cons, removeAll, List.foldl_cons, ← removeAll, ih, sub_comap]
    rfl

theorem removeAll_of_not_search {rs : List (Pattern α)} {text : List α}
    (h : ∀ r ∈ rs, search r text = false) : removeAll rs text = text := by
  induction rs with
  | nil => rfl
  | cons r rs ih =>
    rw [removeAll, List.foldl_cons, sub_of_not_search [] (h r (by simp))]
    exact ih fun s hs => h s (by simp [hs])

/-! ### Leaving out matches -/

/-- The text without a match wherever one starts, read from the left; which of the
matches that start there is left open. -/
inductive Without (r : Pattern α) : List α → List α → List α → Prop
  | nil (before : List α) : Without r before [] []
  | keep {before text rest : List α} (c : α) :
      (∀ piece after, text = piece ++ after → ¬ Matches r before (c :: piece) after) →
      Without r (c :: before) text rest → Without r before (c :: text) (c :: rest)
  | leave {before text rest : List α} (piece : List α) : Matches r before piece text →
      Without r (piece.reverse ++ before) text rest → Without r before (piece ++ text) rest

/-- Matches of the patterns are left out in their order. -/
def WithoutAll : List (Pattern α) → List α → List α → Prop
  | [], text, rest => rest = text
  | r :: rs, text, rest => ∃ next, Without r [] text next ∧ WithoutAll rs next rest

theorem Without.sublist {r : Pattern α} {before text rest : List α}
    (h : Without r before text rest) : rest.Sublist text := by
  induction h with
  | nil before => exact List.Sublist.refl []
  | keep c _ _ ih => exact ih.cons_cons c
  | leave piece _ _ ih => exact ih.trans (List.sublist_append_right _ _)

theorem WithoutAll.sublist {rs : List (Pattern α)} {text rest : List α}
    (h : WithoutAll rs text rest) : rest.Sublist text := by
  induction rs generalizing text with
  | nil =>
    obtain rfl : rest = text := h
    exact List.Sublist.refl rest
  | cons r rs ih =>
    obtain ⟨next, hfirst, hrest⟩ := h
    exact (ih hrest).trans hfirst.sublist

theorem subFrom_skip (r : Pattern α) (repl : List α) {skip : ℕ} {before text : List α}
    (h : skip ≤ text.length) : subFrom r repl skip before text =
      subFrom r repl 0 ((text.take skip).reverse ++ before) (text.drop skip) := by
  induction skip generalizing before text with
  | zero => simp
  | succ skip ih =>
    cases text with
    | nil => simp at h
    | cons c text =>
      have hle : skip ≤ text.length := by simpa using h
      rw [subFrom, ih hle]
      simp

/-- A removal leaves out the matches that the scan takes. -/
theorem without_subFrom (r : Pattern α) (before text : List α) :
    Without r before text (subFrom r [] 0 before text) := by
  induction hlength : text.length using Nat.strongRecOn generalizing before text with
  | _ length ih =>
    cases text with
    | nil => exact .nil before
    | cons c text =>
      simp only [subFrom]
      split
      · rename_i n hfind
        obtain ⟨hpos, hlen, hmatch⟩ := find_ends_eq_some hfind
        obtain ⟨k, rfl⟩ : ∃ k, n = k + 1 := ⟨n - 1, by omega⟩
        have hk : k ≤ text.length := by simpa using hlen
        rw [List.nil_append, Nat.add_sub_cancel, subFrom_skip r [] hk]
        have hshorter : (text.drop k).length < length := by
          rw [← hlength, List.length_drop, List.length_cons]
          omega
        have hrest := ih (text.drop k).length hshorter
          (((c :: text).take (k + 1)).reverse ++ before) (text.drop k) rfl
        have hwhole : c :: text = (c :: text).take (k + 1) ++ text.drop k := by simp
        rw [hwhole]
        refine .leave _ ?_ ?_
        · simpa using hmatch
        · simpa using hrest
      · rename_i hnone
        refine .keep c ?_ (ih text.length (by simp [← hlength]) (c :: before) text rfl)
        rintro piece after rfl
        exact find_ends_eq_none_iff.mp hnone c piece after rfl

theorem withoutAll_removeAll (rs : List (Pattern α)) (text : List α) :
    WithoutAll rs text (removeAll rs text) := by
  induction rs generalizing text with
  | nil => rfl
  | cons r rs ih => exact ⟨sub r [] text, without_subFrom r [] text, ih _⟩

/-- A sublist of a list without repetition keeps the elements that it has. -/
theorem eq_filter_of_sublist [DecidableEq α] {l l' : List α} (hsub : l'.Sublist l)
    (hnodup : l.Nodup) : l' = l.filter (· ∈ l') := by
  induction hsub with
  | slnil => rfl
  | cons c hsub ih =>
    rw [List.nodup_cons] at hnodup
    have hc := fun h => hnodup.1 (hsub.subset h)
    rw [List.filter_cons_of_neg (by simpa using hc)]
    exact ih hnodup.2
  | cons_cons c hsub ih =>
    rw [List.nodup_cons] at hnodup
    rw [List.filter_cons_of_pos (by simp), List.cons.injEq]
    refine ⟨rfl, (ih hnodup.2).trans (List.filter_congr ?_)⟩
    intro d hd
    have hne : d ≠ c := by
      rintro rfl
      exact hnodup.1 hd
    simp [hne]

/-- What a sublist has before and after one of its elements. -/
theorem filter_around [DecidableEq α] {l l' left right left' right' : List α} {c : α}
    (hsub : l'.Sublist l) (hnodup : l.Nodup) (hl : l = left ++ c :: right)
    (hl' : l' = left' ++ c :: right') :
    left' = left.filter (· ∈ l') ∧ right' = right.filter (· ∈ l') := by
  have hfilter := eq_filter_of_sublist hsub hnodup
  have hnodup' := hsub.nodup hnodup
  obtain ⟨p, hp⟩ : ∃ p : α → Bool, p = fun x => decide (x ∈ l') := ⟨_, rfl⟩
  have hc : p c = true := by simp [hp, hl']
  rw [← hp] at hfilter ⊢
  rw [hl, List.filter_append, List.filter_cons_of_pos hc, hl'] at hfilter
  have hfree : c ∉ left.filter p ∧ c ∉ right.filter p := by
    rw [hl', hfilter] at hnodup'
    simp only [List.nodup_middle, List.nodup_cons, List.mem_append, not_or] at hnodup'
    exact hnodup'.1
  have hcut := (List.append_cons_inj_of_notMem hfree.1 hfree.2).mp hfilter.symm
  exact ⟨hcut.1.symm, hcut.2.2.symm⟩

/-- The neighbour before a character that stays either stays, or a match ends
at that character. -/
theorem sub_left_neighbour [DecidableEq α] {r : Pattern α} {left right left' right' : List α} {c : α}
    (hnodup : (left ++ c :: right).Nodup)
    (hsub : sub r [] (left ++ c :: right) = left' ++ c :: right') :
    left'.getLast? = left.getLast? ∨ ∃ start seen, seen ≠ [] ∧
      left.reverse = seen.reverse ++ start ∧ Matches r start seen (c :: right) := by
  have hleft := (filter_around (sub_nil_sublist r _) hnodup rfl hsub).1
  rcases List.eq_nil_or_concat' left with rfl | ⟨l, d, rfl⟩
  · left
    rw [hleft]
    rfl
  · by_cases hd : d ∈ sub r [] (l ++ [d] ++ c :: right)
    · left
      rw [hleft, List.filter_append, List.filter_cons_of_pos (by simpa using hd)]
      simp
    · right
      have htext : l ++ [d] ++ c :: right = l ++ d :: c :: right := by simp
      rw [htext] at hnodup hd hsub
      obtain ⟨start, seen, hne, hseen, hmatch⟩ := exists_matches_before hnodup (Or.inl rfl) hd
        (show c ∈ sub r [] (l ++ d :: c :: right) by simp [hsub])
      exact ⟨start, seen, hne, by simpa using hseen, hmatch⟩

/-- The neighbour after a character that stays either stays, or a match starts
at that neighbour. -/
theorem sub_right_neighbour [DecidableEq α] {r : Pattern α} {left right left' right' : List α}
    {c : α} (hnodup : (left ++ c :: right).Nodup)
    (hsub : sub r [] (left ++ c :: right) = left' ++ c :: right') :
    right'.head? = right.head? ∨ ∃ d piece after, right = d :: piece ++ after ∧
      Matches r (c :: left.reverse) (d :: piece) after := by
  have hright := (filter_around (sub_nil_sublist r _) hnodup rfl hsub).2
  cases right with
  | nil =>
    left
    rw [hright]
    rfl
  | cons d right =>
    by_cases hd : d ∈ sub r [] (left ++ c :: d :: right)
    · left
      rw [hright, List.filter_cons_of_pos (by simpa using hd)]
      rfl
    · right
      obtain ⟨piece, rest, rfl, hmatch⟩ := exists_matches_after hnodup (Or.inl rfl)
        (show c ∈ sub r [] (left ++ c :: d :: right) by simp [hsub]) hd
      exact ⟨d, piece, rest, rfl, by simpa using hmatch⟩

theorem nodup_zipIdx (text : List α) : text.zipIdx.Nodup := by
  apply List.Nodup.of_map Prod.snd
  rw [List.zipIdx_map_snd]
  exact List.nodup_range'

end FastapiTemplate.Library.Regex
