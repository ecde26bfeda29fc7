import Mathlib.Data.List.Sort
import Mathlib.Data.List.Nodup

/-!
Paging through a table with OFFSET and LIMIT, a query for each page. A statement
has the rows that it selects and perhaps an order; an answer lists the rows in
that order where there is one, and in any order where there is none, which may
change from query to query. The pages are exact when the order leaves no choice.
Without an order they are exact only when the first page holds all rows.
-/
namespace FastapiTemplate.Library.Paging

variable {α : Type*}

/-- The rows of the WHERE clause, and ORDER BY if the statement has it. -/
structure Select (α : Type*) where
  rows : List α
  orderBy : Option (α → α → Prop)

namespace Select

variable (q : Select α)

/-- The rows as the database may return them. -/
def Answers (answer : List α) : Prop :=
  answer.Perm q.rows ∧ ∀ le ∈ q.orderBy, answer.Pairwise le

def Page (skip limit : ℕ) (page : List α) : Prop :=
  ∃ answer, q.Answers answer ∧ page = (answer.drop skip).take limit

/-- The pages of one length, as many as it takes, list every row once. -/
def Exact (limit : ℕ) : Prop :=
  ∀ pages : ℕ → List α, (∀ k, q.Page (k * limit) limit (pages k)) →
    ∀ n, q.rows.length ≤ n * limit → ((List.range n).flatMap pages).Perm q.rows

end Select

variable {q : Select α} {limit : ℕ}

/-- There is always an answer: in a total order, the sorted rows. -/
theorem exists_answers (h : ∀ le ∈ q.orderBy,
    (∀ a b, le a b ∨ le b a) ∧ ∀ a b c, le a b → le b c → le a c) :
    ∃ answer, q.Answers answer := by
  classical
  cases horder : q.orderBy with
  | none =>
    refine ⟨q.rows, List.Perm.refl _, ?_⟩
    rw [horder]
    intro le hle
    cases hle
  | some le =>
    obtain ⟨htotal, htrans⟩ := h le horder
    have hsorted := List.pairwise_mergeSort
      (fun a b c hab hbc => decide_eq_true
        (htrans a b c (of_decide_eq_true hab) (of_decide_eq_true hbc)))
      (fun a b => by simpa using htotal a b) q.rows
    refine ⟨q.rows.mergeSort (fun a b => decide (le a b)), List.mergeSort_perm _ _, ?_⟩
    rw [horder]
    intro le' hle'
    cases hle'
    exact hsorted.imp (fun h => of_decide_eq_true h)

/-- The pages of one answer make up its beginning. -/
theorem flatMap_pages (answer : List α) (limit n : ℕ) :
    (List.range n).flatMap (fun k => (answer.drop (k * limit)).take limit) =
      answer.take (n * limit) := by
  induction n with
  | zero => simp
  | succ n ih =>
    rw [List.range_succ, List.flatMap_append, ih, List.flatMap_singleton, Nat.succ_mul,
      List.take_add]

theorem perm_of_same {pages : ℕ → List α} {answer : List α} (hanswer : answer.Perm q.rows)
    (hpages : ∀ k, pages k = (answer.drop (k * limit)).take limit) {n : ℕ}
    (hn : q.rows.length ≤ n * limit) : ((List.range n).flatMap pages).Perm q.rows := by
  have hall : pages = fun k => (answer.drop (k * limit)).take limit := funext hpages
  have hlength := hanswer.length_eq
  rw [hall, flatMap_pages, List.take_of_length_le (by omega)]
  exact hanswer

/-- An order that tells the rows apart leaves one answer, and its pages are exact. -/
theorem exact_of_orderBy {le : α → α → Prop} (horder : q.orderBy = some le)
    (hanti : ∀ a ∈ q.rows, ∀ b ∈ q.rows, le a b → le b a → a = b) (limit : ℕ) :
    q.Exact limit := by
  intro pages hpages n hn
  obtain ⟨answer, ⟨hperm, hsorted⟩, _⟩ := hpages 0
  refine perm_of_same hperm ?_ hn
  intro k
  obtain ⟨answer', ⟨hperm', hsorted'⟩, hpage⟩ := hpages k
  have hsame : answer' = answer := by
    apply List.Perm.eq_of_pairwise _ (hsorted' le horder) (hsorted le horder)
      (hperm'.trans hperm.symm)
    intro a b ha hb
    exact hanti a (hperm'.mem_iff.mp ha) b (hperm.mem_iff.mp hb)
  rw [hpage, hsame]

/-- All rows on the first page are exact in any order. -/
theorem exact_of_length_le (hrows : q.rows.length ≤ limit) : q.Exact limit := by
  intro pages hpages n hn
  obtain ⟨first, ⟨hperm, _⟩, _⟩ := hpages 0
  cases n with
  | zero =>
    rw [Nat.zero_mul, Nat.le_zero, List.length_eq_zero_iff] at hn
    rw [hn]
    rfl
  | succ n =>
    have hlater : ∀ k, pages (k + 1) = [] := by
      intro k
      obtain ⟨answer, ⟨hperm', _⟩, hpage⟩ := hpages (k + 1)
      have hlength := hperm'.length_eq
      have hskip : limit ≤ (k + 1) * limit := Nat.le_mul_of_pos_left limit (Nat.succ_pos k)
      rw [hpage, List.drop_eq_nil_of_le (by omega), List.take_nil]
    obtain ⟨answer, ⟨hperm', _⟩, hpage⟩ := hpages 0
    have hlength := hperm'.length_eq
    rw [Nat.zero_mul, List.drop_zero, List.take_of_length_le (by omega)] at hpage
    rw [List.range_succ_eq_map, List.flatMap_cons, List.flatMap_map]
    have hnil : (List.range n).flatMap (fun k => pages (k + 1)) = [] := by
      rw [List.flatMap_eq_nil_iff]
      exact fun k _ => hlater k
    rw [hnil, List.append_nil, hpage]
    exact hperm'

theorem mem_take_cons {a : α} {rest : List α} (hlimit : 1 ≤ limit) :
    a ∈ (a :: rest).take limit := by
  obtain ⟨count, rfl⟩ : ∃ count, limit = count + 1 := ⟨limit - 1, by omega⟩
  rw [List.take_succ_cons]
  exact List.mem_cons_self

/-- The first row may come behind the first page. -/
theorem exists_perm_late {a : α} {rest : List α} (hlimit : 1 ≤ limit)
    (hrest : limit ≤ rest.length) :
    ∃ late : List α, late.Perm (a :: rest) ∧ a ∈ (late.drop limit).take limit := by
  refine ⟨rest.take limit ++ a :: rest.drop limit, ?_, ?_⟩
  · refine List.perm_middle.trans ?_
    rw [List.take_append_drop]
  · have hlength : (rest.take limit).length = limit := by
      rw [List.length_take]
      omega
    rw [List.drop_left' hlength]
    exact mem_take_cons hlimit

/-- Without an order the second page may have a row of the first one again. -/
theorem not_exact_of_lt (horder : q.orderBy = none) (hnodup : q.rows.Nodup) (hlimit : 1 ≤ limit)
    (hrows : limit < q.rows.length) : ¬ q.Exact limit := by
  intro h
  have hfree : ∀ answer, answer.Perm q.rows → q.Answers answer := by
    intro answer hperm
    refine ⟨hperm, ?_⟩
    rw [horder]
    intro le hle
    cases hle
  obtain ⟨a, rest, hsplit⟩ := List.exists_cons_of_length_pos (by omega : 0 < q.rows.length)
  have hrest : limit ≤ rest.length := by
    rw [hsplit, List.length_cons] at hrows
    omega
  obtain ⟨late, hlate, hagain⟩ := exists_perm_late (a := a) hlimit hrest
  rw [← hsplit] at hlate
  let answers : ℕ → List α := fun k => if k = 1 then late else q.rows
  have hanswers : ∀ k, (answers k).Perm q.rows := by
    intro k
    by_cases hk : k = 1
    · simp only [answers, if_pos hk]
      exact hlate
    · simp only [answers, if_neg hk]
      exact List.Perm.refl _
  let pages : ℕ → List α := fun k => ((answers k).drop (k * limit)).take limit
  have hperm := h pages (fun k => ⟨answers k, hfree _ (hanswers k), rfl⟩) q.rows.length
    (Nat.le_mul_of_pos_right _ hlimit)
  have hfirst : a ∈ pages 0 := by
    have hpage : pages 0 = (a :: rest).take limit := by
      simp only [pages, answers, Nat.zero_mul, List.drop_zero, hsplit]
      rfl
    rw [hpage]
    exact mem_take_cons hlimit
  have hsecond : a ∈ pages 1 := by
    simp only [pages, answers, if_pos, Nat.one_mul]
    exact hagain
  have hdisjoint := (List.nodup_flatMap.mp (hperm.nodup_iff.mpr hnodup)).2
  have hapart := List.pairwise_iff_getElem.mp hdisjoint 0 1
    (by rw [List.length_range]; omega) (by rw [List.length_range]; omega) Nat.zero_lt_one
  rw [List.getElem_range, List.getElem_range] at hapart
  exact hapart hfirst hsecond

theorem exact_iff_of_unordered (horder : q.orderBy = none) (hnodup : q.rows.Nodup)
    (hlimit : 1 ≤ limit) : q.Exact limit ↔ q.rows.length ≤ limit := by
  constructor
  · intro h
    by_contra hrows
    exact not_exact_of_lt horder hnodup hlimit (by omega) h
  · exact exact_of_length_le

end FastapiTemplate.Library.Paging
