import FastapiTemplate.Registry
import Mathlib.Logic.Relation

/-!
`expand_implied` computes a closure. Each round of the frontier loop adds what
the last names imply directly and keeps every other name settled; a round that
adds nothing is the last one, and every other round uses up an implied name,
so the rounds suffice for any map of implications.
-/
namespace FastapiTemplate

namespace Implications

variable {implies : Implications} {names result frontier : List String} {name : String}

/-- `name` lists `implied` in the map. -/
def Direct (implies : Implications) (name implied : String) : Prop :=
  implied ∈ (implies.lookup name).getD []

/-- The closure of the names under the map. -/
def Implied (implies : Implications) (names : List String) (name : String) : Prop :=
  ∃ start ∈ names, Relation.ReflTransGen implies.Direct start name

theorem Implied.of_mem (h : name ∈ names) : implies.Implied names name := ⟨name, h, .refl⟩

theorem Implied.step {implied : String} (h : implies.Implied names name)
    (hdirect : implies.Direct name implied) : implies.Implied names implied := by
  obtain ⟨start, hstart, hpath⟩ := h
  exact ⟨start, hstart, hpath.tail hdirect⟩

theorem Implied.mono {names' : List String} (h : implies.Implied names name)
    (hsub : ∀ n ∈ names, n ∈ names') : implies.Implied names' name := by
  obtain ⟨start, hstart, hpath⟩ := h
  exact ⟨start, hsub start hstart, hpath⟩

/-- A closed set of names that contains the given ones contains the closure. -/
theorem Implied.mem_of_closed {P : String → Prop} (h : implies.Implied names name)
    (hnames : ∀ n ∈ names, P n) (hclosed : ∀ n m, P n → implies.Direct n m → P m) : P name := by
  obtain ⟨start, hstart, hpath⟩ := h
  induction hpath with
  | refl => exact hnames start hstart
  | tail _ hdirect ih => exact hclosed _ _ ih hdirect

theorem implied_append {names' : List String} :
    implies.Implied (names ++ names') name ↔
      implies.Implied names name ∨ implies.Implied names' name := by
  simp only [Implied, List.mem_append, or_and_right, exists_or]

/-- Names that are implied already add nothing. -/
theorem implied_append_of_implied {names' : List String}
    (h : ∀ n ∈ names', implies.Implied names n) :
    implies.Implied (names ++ names') name ↔ implies.Implied names name := by
  rw [implied_append]
  constructor
  · rintro (hn | hn)
    · exact hn
    · exact hn.mem_of_closed h fun _ _ hn hdirect => hn.step hdirect
  · exact Or.inl

/-! ### One round -/

/-- What a round has added to the result, which is also the next frontier. -/
structure Added (result : List String) (found : List String) (acc : List String × List String)
    (new : List String) : Prop where
  fst : acc.1 = result ++ new
  snd : acc.2 = new
  nodup : new.Nodup
  fresh : ∀ n ∈ new, n ∉ result
  sound : ∀ n ∈ new, n ∈ found
  complete : ∀ n ∈ found, n ∈ acc.1

theorem Added.nil (result : List String) : Added result [] (result, []) [] :=
  ⟨by simp, rfl, by simp, by simp, by simp, by simp⟩

/-- One implied name is added unless the result has it. -/
theorem Added.add {found new : List String} {acc : List String × List String}
    (h : Added result found acc new) (implied : String) :
    ∃ new', Added result (found ++ [implied])
      (if implied ∈ acc.1 then acc else (acc.1 ++ [implied], acc.2 ++ [implied])) new' := by
  by_cases hmem : implied ∈ acc.1
  · rw [if_pos hmem]
    refine ⟨new, h.fst, h.snd, h.nodup, h.fresh, ?_, ?_⟩
    · intro n hn
      exact List.mem_append_left _ (h.sound n hn)
    · intro n hn
      rcases List.mem_append.mp hn with hn | hn
      · exact h.complete n hn
      · rw [List.mem_singleton.mp hn]
        exact hmem
  · rw [if_neg hmem]
    have hnot : implied ∉ result ∧ implied ∉ new := by
      rw [h.fst, List.mem_append, not_or] at hmem
      exact hmem
    refine ⟨new ++ [implied], by simp [h.fst], by simp [h.snd], ?_, ?_, ?_, ?_⟩
    · rw [List.nodup_append]
      refine ⟨h.nodup, by simp, ?_⟩
      intro n hn m hm
      rw [List.mem_singleton.mp hm]
      rintro rfl
      exact hnot.2 hn
    · intro n hn
      rcases List.mem_append.mp hn with hn | hn
      · exact h.fresh n hn
      · rw [List.mem_singleton.mp hn]
        exact hnot.1
    · intro n hn
      rcases List.mem_append.mp hn with hn | hn
      · exact List.mem_append_left _ (h.sound n hn)
      · exact List.mem_append_right _ hn
    · intro n hn
      rcases List.mem_append.mp hn with hn | hn
      · exact List.mem_append_left _ (h.complete n hn)
      · exact List.mem_append_right _ hn

theorem Added.addAll {found new : List String} {acc : List String × List String}
    (h : Added result found acc new) (implied : List String) :
    ∃ new', Added result (found ++ implied) (implied.foldl (fun acc implied =>
      if implied ∈ acc.1 then acc else (acc.1 ++ [implied], acc.2 ++ [implied])) acc) new' := by
  induction implied generalizing found new acc with
  | nil => exact ⟨new, by simpa using h⟩
  | cons i implied ih =>
    obtain ⟨new', h'⟩ := h.add i
    obtain ⟨new'', h''⟩ := ih h'
    exact ⟨new'', by simpa using h''⟩

/-- A round adds exactly what the frontier implies directly. -/
theorem exists_added (implies : Implications) (result frontier : List String) :
    ∃ new, Added result (frontier.flatMap fun n => (implies.lookup n).getD [])
      (frontier.foldl implies.expandName (result, [])) new := by
  have hall : ∀ (found new : List String) (acc : List String × List String),
      Added result found acc new → ∃ new', Added result
        (found ++ frontier.flatMap fun n => (implies.lookup n).getD [])
        (frontier.foldl implies.expandName acc) new' := by
    induction frontier with
    | nil =>
      intro found new acc h
      exact ⟨new, by simpa using h⟩
    | cons n frontier ih =>
      intro found new acc h
      obtain ⟨new', h'⟩ := h.addAll ((implies.lookup n).getD [])
      obtain ⟨new'', h''⟩ := ih _ _ _ h'
      exact ⟨new'', by simpa [expandName] using h''⟩
  simpa using hall [] [] (result, []) (.nil result)

/-! ### The loop -/

/-- Every name in the result is implied, and settled unless it is in the frontier. -/
structure Settled (implies : Implications) (names result frontier : List String) : Prop where
  base : ∀ n ∈ names, n ∈ result
  sound : ∀ n ∈ result, implies.Implied names n
  settled : ∀ n ∈ result, n ∉ frontier → ∀ m, implies.Direct n m → m ∈ result
  frontier : ∀ n ∈ frontier, n ∈ result

theorem mem_of_direct {implied : String} (h : implies.Direct name implied) :
    implied ∈ implies.flatMap Prod.snd := by
  rw [Direct] at h
  rcases hl : implies.lookup name with _ | l
  · simp [hl] at h
  · obtain ⟨l₁, l₂, heq, -⟩ := List.lookup_eq_some_iff.mp hl
    rw [hl, Option.getD_some] at h
    rw [heq]
    exact List.mem_flatMap.mpr ⟨(name, l), by simp, h⟩

theorem expandLoop_nil (implies : Implications) (fuel : ℕ) (result : List String) :
    implies.expandLoop fuel result [] = result := by
  cases fuel <;> rfl

/-- A round keeps the result settled up to the names that it adds. -/
theorem Settled.round (h : implies.Settled names result frontier) {new : List String}
    {acc : List String × List String}
    (hadd : Added result (frontier.flatMap fun n => (implies.lookup n).getD []) acc new) :
    implies.Settled names (result ++ new) new := by
  refine ⟨?_, ?_, ?_, ?_⟩
  · intro n hn
    exact List.mem_append_left _ (h.base n hn)
  · intro n hn
    rcases List.mem_append.mp hn with hn | hn
    · exact h.sound n hn
    · obtain ⟨f, hf, hdirect⟩ := List.mem_flatMap.mp (hadd.sound n hn)
      exact (h.sound f (h.frontier f hf)).step hdirect
  · intro n hn hnew m hdirect
    have hold := (List.mem_append.mp hn).resolve_right hnew
    by_cases hf : n ∈ frontier
    · rw [← hadd.fst]
      exact hadd.complete m (List.mem_flatMap.mpr ⟨n, hf, hdirect⟩)
    · exact List.mem_append_left _ (h.settled n hold hf m hdirect)
  · intro n hn
    exact List.mem_append_right _ hn

/-- A round of the loop. The frontier is a set, which yields its names in any
order. -/
inductive Round (implies : Implications) :
    List String × List String → List String × List String → Prop
  | of_order {result frontier order : List String} : frontier ≠ [] → order.Perm frontier →
      Round implies (result, frontier) (order.foldl implies.expandName (result, []))

/-- The rounds from one state of the loop to another. -/
def Rounds (implies : Implications) :
    List String × List String → List String × List String → Prop :=
  Relation.ReflTransGen implies.Round

theorem Settled.perm {order : List String} (h : implies.Settled names result frontier)
    (hperm : order.Perm frontier) : implies.Settled names result order where
  base := h.base
  sound := h.sound
  settled n hn hnot := h.settled n hn (fun hmem => hnot (hperm.mem_iff.mpr hmem))
  frontier n hn := h.frontier n (hperm.mem_iff.mp hn)

theorem Settled.rounds {s s' : List String × List String} (h : implies.Settled names s.1 s.2)
    (hrounds : implies.Rounds s s') : implies.Settled names s'.1 s'.2 := by
  induction hrounds with
  | refl => exact h
  | tail _ hround ih =>
    cases hround with
    | @of_order result frontier order _ hperm =>
      obtain ⟨new, hadd⟩ := exists_added implies result order
      rw [hadd.fst, hadd.snd]
      exact (ih.perm hperm).round hadd

/-- The implied names that the result does not have yet. -/
def missing (implies : Implications) (result : List String) : Finset String :=
  (implies.flatMap Prod.snd).toFinset \ result.toFinset

/-- A round that adds names leaves fewer of them missing. -/
theorem missing_lt {order new : List String} {acc : List String × List String}
    (hadd : Added result (order.flatMap fun n => (implies.lookup n).getD []) acc new)
    (hne : new ≠ []) : (implies.missing (result ++ new)).card < (implies.missing result).card := by
  obtain ⟨n, hn⟩ := List.exists_mem_of_ne_nil new hne
  have hfound : n ∈ implies.flatMap Prod.snd := by
    obtain ⟨g, _, hdirect⟩ := List.mem_flatMap.mp (hadd.sound n hn)
    exact mem_of_direct hdirect
  have hfresh := hadd.fresh n hn
  apply Finset.card_lt_card
  rw [Finset.ssubset_iff_of_subset]
  · refine ⟨n, ?_, ?_⟩
    · simp only [missing, Finset.mem_sdiff, List.mem_toFinset]
      exact ⟨hfound, hfresh⟩
    · simp [missing, hn]
  · intro m hm
    simp only [missing, Finset.mem_sdiff, List.mem_toFinset, List.mem_append, not_or] at hm ⊢
    exact ⟨hm.1, hm.2.1⟩

/-- No run of rounds goes on for ever, for any order of the names in each. -/
theorem wellFounded_round (implies : Implications) :
    WellFounded (fun s' s => implies.Round s s') := by
  let size (s : List String × List String) : ℕ :=
    2 * (implies.missing s.1).card + if s.2 = [] then 0 else 1
  refine Subrelation.wf ?_ (measure size).wf
  intro s' s hround
  cases hround with
  | @of_order result frontier order hne _ =>
    obtain ⟨new, hadd⟩ := exists_added implies result order
    change size _ < size (result, frontier)
    dsimp only [size]
    rw [hadd.fst, hadd.snd, if_neg hne]
    by_cases hnew : new = []
    · rw [hnew, List.append_nil, if_pos rfl]
      omega
    · have hless := missing_lt hadd hnew
      rw [if_neg hnew]
      omega

/-- The loop ends when it has a round for each name that is still missing. -/
theorem expandLoop_rounds {fuel : ℕ} (hfuel : (implies.missing result).card < fuel) :
    implies.Rounds (result, frontier) (implies.expandLoop fuel result frontier, []) := by
  induction fuel generalizing result frontier with
  | zero => omega
  | succ fuel ih =>
    cases frontier with
    | nil => exact .refl
    | cons f frontier =>
      obtain ⟨new, hadd⟩ := exists_added implies result (f :: frontier)
      have hround : implies.Round (result, f :: frontier) (result ++ new, new) := by
        have hrow := @Round.of_order implies result (f :: frontier) _
          (List.cons_ne_nil f frontier) (List.Perm.refl _)
        rw [← Prod.eta (List.foldl _ _ _), hadd.fst, hadd.snd] at hrow
        exact hrow
      have hloop : implies.expandLoop (fuel + 1) result (f :: frontier) =
          implies.expandLoop fuel (result ++ new) new := by
        rw [← hadd.fst, ← hadd.snd]
        rfl
      rw [hloop]
      refine .head hround ?_
      by_cases hnew : new = []
      · rw [hnew, expandLoop_nil]
      · apply ih
        have hless := missing_lt hadd hnew
        omega

theorem settled_start (implies : Implications) (names : List String) :
    implies.Settled names names.dedup names.dedup where
  base _ hn := List.mem_dedup.mpr hn
  sound _ hn := .of_mem (List.mem_dedup.mp hn)
  settled _ hn hnot := absurd hn hnot
  frontier _ hn := hn

theorem expandImplied_rounds (implies : Implications) (names : List String) :
    implies.Rounds (names.dedup, names.dedup) (implies.expandImplied names, []) := by
  apply expandLoop_rounds
  have hsub : (implies.missing names.dedup).card ≤ (implies.flatMap Prod.snd).toFinset.card :=
    Finset.card_le_card Finset.sdiff_subset
  have hlen := List.toFinset_card_le (implies.flatMap Prod.snd)
  omega

/-- What the loop returns is the closure. -/
theorem mem_iff_of_rounds (h : implies.Rounds (names.dedup, names.dedup) (result, [])) :
    name ∈ result ↔ implies.Implied names name := by
  have hend : implies.Settled names result [] := (settled_start implies names).rounds h
  constructor
  · exact hend.sound name
  · intro himplied
    exact himplied.mem_of_closed hend.base
      (fun n m hn hdirect => hend.settled n hn (by simp) m hdirect)

theorem mem_expandImplied_iff (implies : Implications) (names : List String) (name : String) :
    name ∈ implies.expandImplied names ↔ implies.Implied names name :=
  mem_iff_of_rounds (implies.expandImplied_rounds names)

/-- Every run of the loop ends, and returns the least set that contains the names
and is closed under the map. -/
theorem expandImplied_least (implies : Implications) :
    WellFounded (fun s' s => implies.Round s s') ∧
    (∀ names : List String,
      implies.Rounds (names.dedup, names.dedup) (implies.expandImplied names, [])) ∧
    (∀ names result : List String, implies.Rounds (names.dedup, names.dedup) (result, []) →
      (∀ n ∈ names, n ∈ result) ∧ (∀ n ∈ result, ∀ m, implies.Direct n m → m ∈ result) ∧
      ∀ closed : Set String, (∀ n ∈ names, n ∈ closed) →
        (∀ n ∈ closed, ∀ m, implies.Direct n m → m ∈ closed) → ∀ n ∈ result, n ∈ closed) ∧
    (∀ names names' : List String, (∀ n ∈ names, n ∈ names') →
      ∀ n ∈ implies.expandImplied names, n ∈ implies.expandImplied names') ∧
    (∀ names n, n ∈ implies.expandImplied (implies.expandImplied names) ↔
      n ∈ implies.expandImplied names) ∧
    (∀ left right union : List String, (∀ n, n ∈ union ↔ n ∈ left ∨ n ∈ right) →
      ∀ n, n ∈ implies.expandImplied union ↔
        n ∈ implies.expandImplied left ∨ n ∈ implies.expandImplied right) := by
  refine ⟨wellFounded_round implies, expandImplied_rounds implies, ?_, ?_, ?_, ?_⟩
  · intro names result hrounds
    refine ⟨fun n hn => (mem_iff_of_rounds hrounds).mpr (.of_mem hn), ?_, ?_⟩
    · intro n hn m hdirect
      exact (mem_iff_of_rounds hrounds).mpr (((mem_iff_of_rounds hrounds).mp hn).step hdirect)
    · intro closed hnames hclosed n hn
      exact ((mem_iff_of_rounds hrounds).mp hn).mem_of_closed hnames
        (fun n m hn hdirect => hclosed n hn m hdirect)
  · intro names names' hsub n hn
    rw [mem_expandImplied_iff] at hn ⊢
    exact hn.mono hsub
  · intro names n
    rw [mem_expandImplied_iff]
    constructor
    · intro himplied
      refine himplied.mem_of_closed (fun n hn => hn) ?_
      intro n m hn hdirect
      rw [mem_expandImplied_iff] at hn ⊢
      exact hn.step hdirect
    · exact .of_mem
  · intro left right union hunion n
    rw [mem_expandImplied_iff, mem_expandImplied_iff, mem_expandImplied_iff, ← implied_append]
    constructor
    · intro himplied
      exact himplied.mono (fun n hn => List.mem_append.mpr ((hunion n).mp hn))
    · intro himplied
      exact himplied.mono (fun n hn => (hunion n).mpr (List.mem_append.mp hn))

end Implications

theorem mem_expandImplied {names : List String} {name : String} :
    name ∈ expandImplied names ↔ permissionImplies.Implied names name :=
  Implications.mem_expandImplied_iff permissionImplies names name

/-- Implied names are in the catalogue. -/
theorem lookup_isSome_of_implied {names : List String} {name : String}
    (h : permissionImplies.Implied names name)
    (hnames : ∀ n ∈ names, (permissionRegistry.lookup n).isSome) :
    (permissionRegistry.lookup name).isSome := by
  have hmap : ∀ m ∈ permissionImplies.flatMap Prod.snd, (permissionRegistry.lookup m).isSome := by
    decide
  exact h.mem_of_closed hnames fun n m _ hdirect => hmap m (Implications.mem_of_direct hdirect)

/-- Known names have a mask. -/
theorem exists_maskFor {names : List String}
    (h : ∀ n ∈ names, (permissionRegistry.lookup n).isSome) :
    ∃ mask, maskFor names = .ok mask := by
  apply Registry.exists_maskFor
  intro n hn
  rw [← Registry.exists_lookup_iff, ← Option.isSome_iff_exists]
  exact h n hn

end FastapiTemplate
