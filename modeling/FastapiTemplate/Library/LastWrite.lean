import Mathlib.Data.List.Induction
import Mathlib.Data.List.Pairwise
import Mathlib.Order.Basic

/-!
State that is overwritten. Where each event either writes a view of the state
or leaves it alone, the view after a run is the last value written, or the view
at the start when nothing was; so what two replicas that apply the same events
in different orders show in the end depends on their last writes only.
-/
namespace FastapiTemplate.Library.LastWrite

variable {σ ε α : Type*}

/-- The last value that the events write. -/
def lastWrite (writes : ε → Option α) (es : List ε) : Option α := (es.filterMap writes).getLast?

variable {writes : ε → Option α} {es fs : List ε} {a : α}

@[simp] theorem lastWrite_nil : lastWrite writes [] = none := rfl

theorem lastWrite_append :
    lastWrite writes (es ++ fs) = (lastWrite writes fs).or (lastWrite writes es) := by
  simp [lastWrite]

@[simp] theorem lastWrite_singleton (e : ε) : lastWrite writes [e] = writes e := by
  rcases he : writes e with _ | a <;> simp [lastWrite, he]

theorem lastWrite_eq_none_iff : lastWrite writes es = none ↔ ∀ e ∈ es, writes e = none := by
  simp [lastWrite]

/-- The last write is one of the writes. -/
theorem exists_of_lastWrite (h : lastWrite writes es = some a) : ∃ e ∈ es, writes e = some a :=
  List.mem_filterMap.mp (List.mem_of_getLast? h)

/-- Events that all write the same value. -/
theorem lastWrite_eq_some (hsome : ∃ e ∈ es, writes e = some a)
    (honly : ∀ e ∈ es, ∀ b, writes e = some b → b = a) : lastWrite writes es = some a := by
  rcases h : lastWrite writes es with _ | b
  · obtain ⟨e, he, hwrite⟩ := hsome
    rw [lastWrite_eq_none_iff.mp h e he] at hwrite
    cases hwrite
  · obtain ⟨e, he, hwrite⟩ := exists_of_lastWrite h
    rw [honly e he b hwrite]

theorem lastWrite_isSome_of_mem {e : ε} (he : e ∈ es) (hwrite : writes e = some a) :
    (lastWrite writes es).isSome := by
  by_contra hnone
  rw [Option.not_isSome_iff_eq_none, lastWrite_eq_none_iff] at hnone
  rw [hnone e he] at hwrite
  cases hwrite

/-- Where the writes rise, the last is the highest. -/
theorem le_lastWrite [Preorder α] {e : ε} {b : α} (hrising : (es.filterMap writes).Pairwise (· ≤ ·))
    (he : e ∈ es) (hwrite : writes e = some a) (hlast : lastWrite writes es = some b) : a ≤ b := by
  have hmem : a ∈ es.filterMap writes := List.mem_filterMap.mpr ⟨e, he, hwrite⟩
  have hge := hrising.rel_getLast hmem
  rw [lastWrite, List.getLast?_eq_some_getLast (List.ne_nil_of_mem hmem)] at hlast
  rw [← Option.some.inj hlast]
  exact hge

/-- A view that each event overwrites or keeps shows its last write. -/
theorem view_foldl {step : σ → ε → σ} {view : σ → Option α}
    (h : ∀ s e, view (step s e) = (writes e).or (view s)) (s : σ) (es : List ε) :
    view (es.foldl step s) = (lastWrite writes es).or (view s) := by
  induction es using List.reverseRecOn with
  | nil => rfl
  | append_singleton es e ih =>
    rw [List.foldl_append, List.foldl_cons, List.foldl_nil, h, ih, lastWrite_append,
      lastWrite_singleton, Option.or_assoc]

end FastapiTemplate.Library.LastWrite
