import FastapiTemplate.Library.JsonTree
import FastapiTemplate.Text

/-!
`sanitize_dict` of `core.security.data_validation` trims the long strings of a
dict. It goes into the dicts and the lists that are values of a dict, and into
the dicts that are items of such a list, but not into a list that is itself an
item of a list: that one stays as it is.
-/
namespace FastapiTemplate.DataValidation

open Library.JsonTree

/-! ### The function -/

section Sanitize

variable {Number : Type} (maxStrLen : ℕ)

mutual

/-- The loop over the entries. The keys of a dict are different, so each
assignment adds an entry to the result. -/
def sanitizeDict : List (Text × Json Number Text) → List (Text × Json Number Text)
  | [] => []
  | (k, v) :: rest => (k, sanitizeValue v) :: sanitizeDict rest

/-- The branches on the value of an entry. -/
def sanitizeValue : Json Number Text → Json Number Text
  | .str s => .str (s.take maxStrLen)
  | .dict entries => .dict (sanitizeDict entries)
  | .list items => .list (sanitizeItems items)
  | v => v

def sanitizeItems : List (Json Number Text) → List (Json Number Text)
  | [] => []
  | item :: rest => sanitizeItem item :: sanitizeItems rest

/-- The branches on an item of a list: none is for lists. -/
def sanitizeItem : Json Number Text → Json Number Text
  | .dict entries => .dict (sanitizeDict entries)
  | .str s => .str (s.take maxStrLen)
  | item => item

end

end Sanitize

/-! ### What it trims -/

/-- Every list that is an item of a list has strings within the bound only. -/
def ShortInLists {Number : Type} (maxStrLen : ℕ) (v : Json Number Text) : Prop :=
  ∀ items inner, Occurs (.list items) v → .list inner ∈ items →
    ∀ s, Occurs (.str s) (.list inner) → s.length ≤ maxStrLen

variable {Number : Type} {maxStrLen : ℕ} {v item : Json Number Text} {s : Text}
  {items inner : List (Json Number Text)} {entries : List (Text × Json Number Text)}

theorem sanitizeItems_eq_map (items : List (Json Number Text)) :
    sanitizeItems maxStrLen items = items.map (sanitizeItem maxStrLen) := by
  induction items with
  | nil => rfl
  | cons item rest ih => rw [sanitizeItems, ih, List.map_cons]

theorem sanitizeDict_eq_map (entries : List (Text × Json Number Text)) :
    sanitizeDict maxStrLen entries =
      entries.map (fun e => (e.1, sanitizeValue maxStrLen e.2)) := by
  induction entries with
  | nil => rfl
  | cons e rest ih => rw [sanitizeDict, ih, List.map_cons]

/-- The two branchings differ on lists only. -/
theorem sanitizeItem_cases (maxStrLen : ℕ) (item : Json Number Text) :
    (∃ inner, item = .list inner ∧ sanitizeItem maxStrLen item = item) ∨
      sanitizeItem maxStrLen item = sanitizeValue maxStrLen item := by
  cases item with
  | list inner => exact Or.inl ⟨inner, rfl, rfl⟩
  | null => exact Or.inr rfl
  | bool b => exact Or.inr rfl
  | number n => exact Or.inr rfl
  | str s => exact Or.inr rfl
  | dict entries => exact Or.inr rfl

theorem ShortInLists.of_item (h : ShortInLists maxStrLen (.list items)) (hitem : item ∈ items) :
    ShortInLists maxStrLen item :=
  fun items' inner hoccurs => h items' inner (.item hitem hoccurs)

theorem ShortInLists.of_entry (h : ShortInLists maxStrLen (.dict entries))
    {e : Text × Json Number Text} (hentry : e ∈ entries) : ShortInLists maxStrLen e.2 :=
  fun items' inner hoccurs => h items' inner (.entry hentry hoccurs)

/-- A string within the bound is its own prefix. -/
theorem take_eq_self (h : s.length ≤ maxStrLen) : s.take maxStrLen = s :=
  List.take_of_length_le h

/-- Where the lists in lists are short, every string is replaced by its prefix. -/
theorem sanitizeValue_eq (h : ShortInLists maxStrLen v) :
    sanitizeValue maxStrLen v = mapStrings (List.take maxStrLen) v := by
  induction v with
  | null => rfl
  | bool b => rfl
  | number n => rfl
  | str s => rfl
  | list items ih =>
    have hitems : ∀ item ∈ items,
        sanitizeItem maxStrLen item = mapStrings (List.take maxStrLen) item := by
      intro item hitem
      rcases sanitizeItem_cases maxStrLen item with ⟨inner, rfl, hsame⟩ | hvalue
      · rw [hsame, mapStrings_eq_self]
        intro s hs
        exact take_eq_self (h items inner .here hitem s hs)
      · rw [hvalue]
        exact ih item hitem (h.of_item hitem)
    rw [sanitizeValue, sanitizeItems_eq_map, mapStrings_list, List.map_congr_left hitems]
  | dict entries ih =>
    have hentries : ∀ e ∈ entries, (e.1, sanitizeValue maxStrLen e.2) =
        (e.1, mapStrings (List.take maxStrLen) e.2) :=
      fun e he => Prod.ext rfl (ih e he (h.of_entry he))
    rw [sanitizeValue, sanitizeDict_eq_map, mapStrings_dict, List.map_congr_left hentries]

/-- The strings of a list in a list are there in the result, as they were. -/
theorem occurs_of_list_in_list (hlist : Occurs (.list items) v) (hinner : .list inner ∈ items)
    (hs : Occurs (.str s) (.list inner)) : Occurs (.str s) (sanitizeValue maxStrLen v) := by
  induction v with
  | null => cases hlist
  | bool b => cases hlist
  | number n => cases hlist
  | str s' => cases hlist
  | list all ih =>
    rw [sanitizeValue, sanitizeItems_eq_map]
    cases hlist with
    | here =>
      have hsame : sanitizeItem maxStrLen (.list inner : Json Number Text) = .list inner := rfl
      exact .item (List.mem_map.mpr ⟨_, hinner, hsame⟩) hs
    | @item _ item hitem hoccurs =>
      refine .item (List.mem_map_of_mem hitem) ?_
      rcases sanitizeItem_cases maxStrLen item with ⟨_, _, hsame⟩ | hvalue
      · rw [hsame]
        exact (Occurs.item hinner hs).trans hoccurs
      · rw [hvalue]
        exact ih item hitem hoccurs
  | dict entries ih =>
    rw [sanitizeValue, sanitizeDict_eq_map]
    cases hlist with
    | @entry _ e hentry hoccurs =>
      exact .entry (List.mem_map_of_mem hentry) (ih e hentry hoccurs)

/-- The result has short strings only and is the dict with each string replaced
by its prefix, exactly when the lists in lists need no trimming. -/
theorem sanitizeDict_exact_iff (maxStrLen : ℕ) (data : List (Text × Json Number Text)) :
    ((∀ s, Occurs (.str s) (.dict (sanitizeDict maxStrLen data)) → s.length ≤ maxStrLen) ∧
      .dict (sanitizeDict maxStrLen data) = mapStrings (List.take maxStrLen) (.dict data)) ↔
      ShortInLists maxStrLen (.dict data) := by
  have hdict : sanitizeValue maxStrLen (.dict data) = .dict (sanitizeDict maxStrLen data) := rfl
  rw [← hdict]
  constructor
  · intro h items inner hlist hinner s hs
    exact h.1 s (occurs_of_list_in_list hlist hinner hs)
  · intro h
    have hshape := sanitizeValue_eq h
    refine ⟨?_, hshape⟩
    intro s hs
    rw [hshape] at hs
    obtain ⟨s', _, rfl⟩ := exists_of_occurs_mapStrings hs
    exact List.length_take_le maxStrLen s'

/-- `{"a": [["xy"]]}` -/
def nested : List (Text × Json ℤ Text) := [(text "a", .list [.list [.str (text "xy")]])]

/-- With a bound of one the string keeps its two characters. -/
theorem sanitizeDict_nested :
    ¬ ((∀ s, Occurs (.str s) (.dict (sanitizeDict 1 nested)) → s.length ≤ 1) ∧
      .dict (sanitizeDict 1 nested) = mapStrings (List.take 1) (.dict nested)) := by
  intro ⟨hbound, _⟩
  have hxy := hbound (text "xy")
    (.entry List.mem_cons_self (.item List.mem_cons_self (.item List.mem_cons_self .here)))
  exact absurd hxy (by decide)

end FastapiTemplate.DataValidation
