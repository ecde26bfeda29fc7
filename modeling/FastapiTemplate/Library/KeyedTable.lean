import Mathlib.Data.Finset.Insert
import Mathlib.Data.List.Nodup
import Mathlib.Data.Option.Basic
import Mathlib.Order.Lattice

/-!
Finite tables of rows with a primary key. The rows are kept in insertion
order and no two of them share a key, which is a field of the table: a table
that breaks its primary key cannot be built. Reads go through `get`, and one
lemma for each write says what `get` returns afterwards.
-/
namespace FastapiTemplate.Library.KeyedTable

/-- Rows of type ρ whose keys are pairwise distinct. -/
structure Table {ρ κ : Type*} (key : ρ → κ) where
  rows : List ρ
  nodup : (rows.map key).Nodup

variable {ρ κ : Type*} {key : ρ → κ} [DecidableEq κ]
namespace Table

def empty : Table key := ⟨[], by simp⟩

def get (t : Table key) (k : κ) : Option ρ := t.rows.find? (fun r => key r = k)

/-- Insert a row, or nothing when its key is taken. -/
def insert? (t : Table key) (r : ρ) : Option (Table key) :=
  if h : key r ∈ t.rows.map key then none
  else some ⟨t.rows ++ [r], by
    rw [List.map_append, List.nodup_append]
    refine ⟨t.nodup, by simp, ?_⟩
    rintro a ha b hb rfl
    rw [List.map_singleton, List.mem_singleton] at hb
    exact h (hb ▸ ha)⟩

/-- Rewrite the selected rows by a function that keeps their keys. -/
def update (t : Table key) (p : ρ → Bool) (f : ρ → ρ) (hf : ∀ r, key (f r) = key r) :
    Table key :=
  ⟨t.rows.map (fun r => if p r then f r else r), by
    have hkeys : (t.rows.map (fun r => if p r then f r else r)).map key = t.rows.map key := by
      rw [List.map_map]
      apply List.map_congr_left
      intro r _
      by_cases hp : p r <;> simp [hp, hf]
    rw [hkeys]
    exact t.nodup⟩

def delete (t : Table key) (p : ρ → Bool) : Table key :=
  ⟨t.rows.filter (fun r => !p r), (List.filter_sublist.map key).nodup t.nodup⟩

/-- The table after an insertion that went through. -/
def insertD (t : Table key) (r : ρ) : Table key := (t.insert? r).getD t

theorem insertD_eq {t t' : Table key} {r : ρ} (h : t.insert? r = some t') : t.insertD r = t' := by
  rw [insertD, h, Option.getD_some]

theorem get_eq_some_iff (t : Table key) (k : κ) (r : ρ) :
    t.get k = some r ↔ r ∈ t.rows ∧ key r = k := by
  constructor
  · intro h
    exact ⟨List.mem_of_find?_eq_some h, by simpa using List.find?_some h⟩
  · rintro ⟨hr, rfl⟩
    have hsome : (t.rows.find? (fun x => key x = key r)).isSome := by
      rw [List.find?_isSome]
      exact ⟨r, hr, by simp⟩
    obtain ⟨s, hs⟩ := Option.isSome_iff_exists.mp hsome
    have hkey : key s = key r := by simpa using List.find?_some hs
    have hmem : s ∈ t.rows := List.mem_of_find?_eq_some hs
    rw [get, hs, List.inj_on_of_nodup_map t.nodup hmem hr hkey]

theorem key_of_get {t : Table key} {k : κ} {r : ρ} (h : t.get k = some r) : key r = k :=
  ((t.get_eq_some_iff k r).mp h).2

theorem mem_of_get {t : Table key} {k : κ} {r : ρ} (h : t.get k = some r) : r ∈ t.rows :=
  ((t.get_eq_some_iff k r).mp h).1

theorem get_of_key {t : Table key} {k : κ} {r : ρ} (h : r ∈ t.rows) (hk : key r = k) :
    t.get k = some r :=
  (t.get_eq_some_iff k r).mpr ⟨h, hk⟩

theorem get_of_mem {t : Table key} {r : ρ} (h : r ∈ t.rows) : t.get (key r) = some r :=
  get_of_key h rfl

/-- A row is the one that is found under its key. -/
theorem eq_of_get {t : Table key} {k : κ} {r r' : ρ} (h : r ∈ t.rows) (hk : key r = k)
    (hget : t.get k = some r') : r = r' :=
  Option.some.inj ((get_of_key h hk).symm.trans hget)

/-- A link to a row, among the old links and a new one. -/
theorem mem_insert_link {t : Table key} {α : Type*} [DecidableEq α] {links : Finset (α × κ)}
    {a b : α} {k : κ} {r : ρ} (hr : r ∈ t.rows) (h : (a, key r) ∈ insert (b, k) links) :
    (a, key r) ∈ links ∨ t.get k = some r := by
  rcases Finset.mem_insert.mp h with hnew | hold
  · exact Or.inr (get_of_key hr (Prod.mk.inj hnew).2)
  · exact Or.inl hold

theorem get_eq_none_iff (t : Table key) (k : κ) : t.get k = none ↔ k ∉ t.rows.map key := by
  rw [get, List.find?_eq_none]
  constructor
  · rintro h hk
    obtain ⟨r, hr, rfl⟩ := List.mem_map.mp hk
    exact h r hr (by simp)
  · intro h r hr hk
    exact h (List.mem_map.mpr ⟨r, hr, by simpa using hk⟩)

/-- A successful insertion found the key free and adds exactly that row. -/
theorem insert?_eq_some {t t' : Table key} {r : ρ} (h : t.insert? r = some t') :
    t.get (key r) = none ∧ t'.rows = t.rows ++ [r] := by
  unfold insert? at h
  split at h
  · cases h
  · rename_i hfree
    refine ⟨(t.get_eq_none_iff _).mpr hfree, ?_⟩
    cases h
    rfl

theorem get_insert? {t t' : Table key} {r : ρ} (h : t.insert? r = some t') (k : κ) :
    t'.get k = if key r = k then some r else t.get k := by
  obtain ⟨hfree, hrows⟩ := insert?_eq_some h
  have happend : t'.get k = (t.get k).or (if key r = k then some r else none) := by
    rw [get, hrows, List.find?_append]
    by_cases hk : key r = k <;> simp [get, hk]
  rw [happend]
  by_cases hk : key r = k
  · rw [if_pos hk, if_pos hk, ← hk, hfree]
    rfl
  · rw [if_neg hk, if_neg hk, Option.or_none]

/-- An insertion keeps the rows that are there. -/
theorem get_insert?_of_get {t t' : Table key} {r x : ρ} (h : t.insert? r = some t') {k : κ}
    (hx : t.get k = some x) : t'.get k = some x := by
  rw [get_insert? h k, if_neg, hx]
  rintro rfl
  rw [(insert?_eq_some h).1] at hx
  cases hx

theorem isSome_insert? {t t' : Table key} {r : ρ} (h : t.insert? r = some t') {k : κ}
    (hk : (t.get k).isSome) : (t'.get k).isSome := by
  obtain ⟨x, hx⟩ := Option.isSome_iff_exists.mp hk
  rw [get_insert?_of_get h hx]
  rfl

theorem get_insert?_self {t t' : Table key} {r : ρ} (h : t.insert? r = some t') :
    t'.get (key r) = some r := by
  rw [get_insert? h, if_pos rfl]

/-- A row goes in when its key is free. -/
theorem insert?_of_get_none {t : Table key} {r : ρ} (h : t.get (key r) = none) :
    ∃ t', t.insert? r = some t' := by
  unfold insert?
  rw [dif_neg ((t.get_eq_none_iff _).mp h)]
  exact ⟨_, rfl⟩

theorem insert?_of_get_isSome {t : Table key} {r : ρ} (h : (t.get (key r)).isSome) :
    t.insert? r = none := by
  rcases hins : t.insert? r with _ | t'
  · rfl
  · rw [(insert?_eq_some hins).1] at h
    cases h

theorem get_insertD_of_get {t : Table key} {r x : ρ} {k : κ} (hx : t.get k = some x) :
    (t.insertD r).get k = some x := by
  rcases h : t.insert? r with _ | t'
  · rw [insertD, h, Option.getD_none, hx]
  · rw [insertD_eq h, get_insert?_of_get h hx]

@[simp] theorem get_update (t : Table key) (p : ρ → Bool) (f : ρ → ρ)
    (hf : ∀ r, key (f r) = key r) (k : κ) :
    (t.update p f hf).get k = (t.get k).map (fun r => if p r then f r else r) := by
  unfold get update
  rw [List.find?_map]
  congr 2
  funext r
  by_cases hp : p r <;> simp [hp, hf]

omit [DecidableEq κ] in
theorem update_eq_self {t : Table key} {p : ρ → Bool} {f : ρ → ρ} {hf : ∀ r, key (f r) = key r}
    (h : ∀ r ∈ t.rows, p r = true → f r = r) : t.update p f hf = t := by
  have hrows : t.rows.map (fun r => if p r then f r else r) = t.rows := by
    rw [List.map_congr_left (g := id), List.map_id]
    intro r hr
    by_cases hp : p r = true
    · rw [if_pos hp, h r hr hp, id]
    · rw [if_neg hp, id]
  cases t
  simp [update, hrows]

omit [DecidableEq κ] in
/-- The rows of an update are old rows or their images. -/
theorem mem_update {t : Table key} {p : ρ → Bool} {f : ρ → ρ} {hf : ∀ r, key (f r) = key r}
    {x : ρ} (h : x ∈ (t.update p f hf).rows) :
    ∃ r ∈ t.rows, key r = key x ∧ (x = r ∨ (p r = true ∧ x = f r)) := by
  obtain ⟨r, hr, rfl⟩ := List.mem_map.mp h
  refine ⟨r, hr, ?_⟩
  by_cases hp : p r = true
  · rw [if_pos hp]
    exact ⟨(hf r).symm, Or.inr ⟨hp, rfl⟩⟩
  · rw [if_neg hp]
    exact ⟨rfl, Or.inl rfl⟩

omit [DecidableEq κ] in
theorem mem_delete {t : Table key} {p : ρ → Bool} {x : ρ} (h : x ∈ (t.delete p).rows) :
    x ∈ t.rows :=
  (List.mem_filter.mp h).1

@[simp] theorem get_delete (t : Table key) (p : ρ → Bool) (k : κ) :
    (t.delete p).get k = (t.get k).filter (fun r => !p r) := by
  apply Option.ext
  intro r
  rw [get_eq_some_iff, Option.filter_eq_some_iff, get_eq_some_iff]
  simp only [delete, List.mem_filter]
  tauto

omit [DecidableEq κ] in
theorem delete_false (t : Table key) : t.delete (fun _ => false) = t := by
  cases t
  simp [delete]

omit [DecidableEq κ] in
theorem delete_congr {t : Table key} {p q : ρ → Bool} (h : ∀ r ∈ t.rows, p r = q r) :
    t.delete p = t.delete q := by
  unfold delete
  congr 1
  exact List.filter_congr (fun r hr => by rw [h r hr])

omit [DecidableEq κ] in
theorem delete_delete (t : Table key) (p q : ρ → Bool) :
    (t.delete p).delete q = t.delete (fun r => p r || q r) := by
  unfold delete
  congr 1
  rw [List.filter_filter]
  exact List.filter_congr (fun r _ => by simp [Bool.and_comm])

/-- A row of a table after an insertion is old or the new one. -/
theorem mem_insert? {t t' : Table key} {r x : ρ} (h : t.insert? r = some t') :
    x ∈ t'.rows ↔ x ∈ t.rows ∨ x = r := by
  rw [(insert?_eq_some h).2]
  simp

theorem mem_insertD {t : Table key} {r x : ρ} (hx : x ∈ (t.insertD r).rows) :
    x ∈ t.rows ∨ x = r := by
  rcases h : t.insert? r with _ | t'
  · rw [insertD, h, Option.getD_none] at hx
    exact Or.inl hx
  · rw [insertD_eq h] at hx
    exact (mem_insert? h).mp hx

/-! ### Tables of another type of rows -/

section MapRows

variable {ρ' : Type*} {key' : ρ' → κ}

omit [DecidableEq κ] in
theorem map_key_map (t : Table key) {f : ρ → ρ'} (hf : ∀ r, key' (f r) = key r) :
    (t.rows.map f).map key' = t.rows.map key := by
  rw [List.map_map]
  exact List.map_congr_left (fun r _ => hf r)

/-- Every row, converted by a function that keeps its key. -/
def mapRows (t : Table key) (f : ρ → ρ') (hf : ∀ r, key' (f r) = key r) : Table key' :=
  ⟨t.rows.map f, by rw [t.map_key_map hf]; exact t.nodup⟩

@[simp] theorem get_mapRows (t : Table key) (f : ρ → ρ') (hf : ∀ r, key' (f r) = key r) (k : κ) :
    (t.mapRows f hf).get k = (t.get k).map f := by
  unfold get mapRows
  rw [List.find?_map]
  congr 2
  funext r
  simp [hf]

omit [DecidableEq κ] in
/-- Converting back what was converted. -/
theorem mapRows_mapRows (t : Table key) {f : ρ → ρ'} {g : ρ' → ρ} (hf : ∀ r, key' (f r) = key r)
    (hg : ∀ r, key (g r) = key' r) (hinv : ∀ r, g (f r) = r) :
    (t.mapRows f hf).mapRows g hg = t := by
  have hrows : (t.rows.map f).map g = t.rows := by
    rw [List.map_map]
    exact (List.map_congr_left (fun r _ => hinv r)).trans (List.map_id _)
  unfold mapRows
  congr 1

end MapRows

/-! ### Rows in the order of their keys -/

section Ascending

variable [LinearOrder κ] {t t' : Table key}

/-- The rows come in the order of their keys, which are all below the bound. -/
structure AscendingBelow (t : Table key) (bound : κ) : Prop where
  sorted : t.rows.Pairwise (fun a b => key a < key b)
  below : ∀ r ∈ t.rows, key r < bound

omit [DecidableEq κ] in
theorem AscendingBelow.update {bound : κ} (h : t.AscendingBelow bound) (p : ρ → Bool) (f : ρ → ρ)
    (hf : ∀ r, key (f r) = key r) : (t.update p f hf).AscendingBelow bound := by
  have hkey : ∀ r, key (if p r then f r else r) = key r := by
    intro r
    by_cases hp : p r <;> simp [hp, hf]
  refine ⟨?_, ?_⟩
  · rw [Table.update, List.pairwise_map]
    refine h.sorted.imp ?_
    intro a b hab
    rw [hkey, hkey]
    exact hab
  · intro x hx
    obtain ⟨r, hr, rfl⟩ := List.mem_map.mp hx
    rw [hkey]
    exact h.below r hr

omit [DecidableEq κ] in
theorem AscendingBelow.delete {bound : κ} (h : t.AscendingBelow bound) (p : ρ → Bool) :
    (t.delete p).AscendingBelow bound :=
  ⟨h.sorted.filter _, fun _ hx => h.below _ (mem_delete hx)⟩

/-- An insertion at the bound. -/
theorem AscendingBelow.insertD {bound bound' : κ} {r : ρ} (h : t.AscendingBelow bound)
    (hr : key r = bound) (hlt : bound < bound') : (t.insertD r).AscendingBelow bound' := by
  rcases hinsert : t.insert? r with _ | t'
  · rw [Table.insertD, hinsert]
    exact ⟨h.sorted, fun x hx => lt_trans (h.below x hx) hlt⟩
  · rw [insertD_eq hinsert]
    refine ⟨?_, ?_⟩
    · rw [(insert?_eq_some hinsert).2, List.pairwise_append]
      refine ⟨h.sorted, List.pairwise_singleton _ _, ?_⟩
      intro a ha b hb
      rw [List.mem_singleton.mp hb, hr]
      exact h.below a ha
    · intro x hx
      rcases (mem_insert? hinsert).mp hx with hold | rfl
      · exact lt_trans (h.below x hold) hlt
      · rw [hr]
        exact hlt

omit [DecidableEq κ] in
/-- Ascending tables that have the same rows of a kind list them alike. -/
theorem AscendingBelow.filter_eq {bound bound' : κ} (h : t.AscendingBelow bound)
    (h' : t'.AscendingBelow bound') {p : ρ → Bool}
    (hmem : ∀ r, p r = true → (r ∈ t'.rows ↔ r ∈ t.rows)) : t'.rows.filter p = t.rows.filter p := by
  have hnodup : ∀ s : Table key, (s.rows.filter p).Nodup :=
    fun s => (List.Nodup.of_map key s.nodup).filter _
  have hperm : (t'.rows.filter p).Perm (t.rows.filter p) := by
    rw [List.perm_ext_iff_of_nodup (hnodup t') (hnodup t)]
    intro r
    rw [List.mem_filter, List.mem_filter]
    exact and_congr_left (fun hp => hmem r hp)
  refine hperm.eq_of_pairwise ?_ (h'.sorted.filter _) (h.sorted.filter _)
  intro a b _ _ hab hba
  exact absurd hba (lt_asymm hab)

end Ascending

end Table
end FastapiTemplate.Library.KeyedTable
