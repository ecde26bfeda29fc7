import Mathlib.Data.List.Basic

/-!
JSON values as trees, over any type of numbers and of texts: an induction
principle for the nested lists, what occurs in a value, and the values in which
every string is replaced.
-/
namespace FastapiTemplate.Library.JsonTree

inductive Json (Number Text : Type)
  | null
  | bool (b : Bool)
  | number (n : Number)
  | str (s : Text)
  | list (items : List (Json Number Text))
  | dict (entries : List (Text × Json Number Text))

variable {Number Text : Type}

/-- Induction with a hypothesis for each item and for each value of an entry. -/
@[elab_as_elim, induction_eliminator]
theorem Json.induct {motive : Json Number Text → Prop}
    (null : motive .null)
    (bool : ∀ b, motive (.bool b))
    (number : ∀ n, motive (.number n))
    (str : ∀ s, motive (.str s))
    (list : ∀ items, (∀ item ∈ items, motive item) → motive (.list items))
    (dict : ∀ entries, (∀ e ∈ entries, motive e.2) → motive (.dict entries))
    (v : Json Number Text) : motive v :=
  @Json.rec Number Text motive (fun items => ∀ item ∈ items, motive item)
    (fun entries => ∀ e ∈ entries, motive e.2) (fun e => motive e.2)
    null bool number str list dict
    (fun _ h => absurd h List.not_mem_nil)
    (fun _ _ hhead htail => List.forall_mem_cons.mpr ⟨hhead, htail⟩)
    (fun _ h => absurd h List.not_mem_nil)
    (fun _ _ hhead htail => List.forall_mem_cons.mpr ⟨hhead, htail⟩)
    (fun _ _ h => h) v

/-- A value occurs in itself and in the containers around it. -/
inductive Occurs (v : Json Number Text) : Json Number Text → Prop
  | here : Occurs v v
  | item {items : List (Json Number Text)} {item : Json Number Text} (hitem : item ∈ items)
      (h : Occurs v item) : Occurs v (.list items)
  | entry {entries : List (Text × Json Number Text)} {e : Text × Json Number Text}
      (hentry : e ∈ entries) (h : Occurs v e.2) : Occurs v (.dict entries)

theorem Occurs.trans {u v w : Json Number Text} (h : Occurs u v) (h' : Occurs v w) :
    Occurs u w := by
  induction h' with
  | here => exact h
  | item hitem _ ih => exact .item hitem ih
  | entry hentry _ ih => exact .entry hentry ih

mutual

/-- The value with every string replaced. -/
def mapStrings (f : Text → Text) : Json Number Text → Json Number Text
  | .str s => .str (f s)
  | .list items => .list (mapItems f items)
  | .dict entries => .dict (mapEntries f entries)
  | v => v

def mapItems (f : Text → Text) : List (Json Number Text) → List (Json Number Text)
  | [] => []
  | item :: rest => mapStrings f item :: mapItems f rest

def mapEntries (f : Text → Text) :
    List (Text × Json Number Text) → List (Text × Json Number Text)
  | [] => []
  | (k, v) :: rest => (k, mapStrings f v) :: mapEntries f rest

end

variable {f : Text → Text}

theorem mapItems_eq_map (items : List (Json Number Text)) :
    mapItems f items = items.map (mapStrings f) := by
  induction items with
  | nil => rfl
  | cons item rest ih => rw [mapItems, ih, List.map_cons]

theorem mapEntries_eq_map (entries : List (Text × Json Number Text)) :
    mapEntries f entries = entries.map (fun e => (e.1, mapStrings f e.2)) := by
  induction entries with
  | nil => rfl
  | cons e rest ih => rw [mapEntries, ih, List.map_cons]

theorem mapStrings_list (items : List (Json Number Text)) :
    mapStrings f (.list items) = .list (items.map (mapStrings f)) := by
  rw [mapStrings, mapItems_eq_map]

theorem mapStrings_dict (entries : List (Text × Json Number Text)) :
    mapStrings f (.dict entries) = .dict (entries.map (fun e => (e.1, mapStrings f e.2))) := by
  rw [mapStrings, mapEntries_eq_map]

/-- Nothing changes where no string does. -/
theorem mapStrings_eq_self {v : Json Number Text} (h : ∀ s, Occurs (.str s) v → f s = s) :
    mapStrings f v = v := by
  induction v with
  | null => rfl
  | bool b => rfl
  | number n => rfl
  | str s => rw [mapStrings, h s .here]
  | list items ih =>
    have hitems : ∀ item ∈ items, mapStrings f item = item :=
      fun item hitem => ih item hitem (fun s hs => h s (.item hitem hs))
    rw [mapStrings_list, List.map_congr_left hitems, List.map_id']
  | dict entries ih =>
    have hentries : ∀ e ∈ entries, (e.1, mapStrings f e.2) = e :=
      fun e he => Prod.ext rfl (ih e he (fun s hs => h s (.entry he hs)))
    rw [mapStrings_dict, List.map_congr_left hentries, List.map_id']

/-- The strings of the replaced value are the replaced strings. -/
theorem exists_of_occurs_mapStrings {v : Json Number Text} {s : Text}
    (h : Occurs (.str s) (mapStrings f v)) : ∃ s', Occurs (.str s') v ∧ s = f s' := by
  induction v with
  | null => cases h
  | bool b => cases h
  | number n => cases h
  | str s' =>
    cases h
    exact ⟨s', .here, rfl⟩
  | list items ih =>
    rw [mapStrings_list] at h
    cases h with
    | item hitem h =>
      obtain ⟨item, hmem, rfl⟩ := List.mem_map.mp hitem
      obtain ⟨s', hs', heq⟩ := ih item hmem h
      exact ⟨s', .item hmem hs', heq⟩
  | dict entries ih =>
    rw [mapStrings_dict] at h
    cases h with
    | entry hentry h =>
      obtain ⟨e, hmem, rfl⟩ := List.mem_map.mp hentry
      obtain ⟨s', hs', heq⟩ := ih e hmem h
      exact ⟨s', .entry hmem hs', heq⟩

end FastapiTemplate.Library.JsonTree
