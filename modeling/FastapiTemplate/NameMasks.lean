import FastapiTemplate.Registry

/-!
Masks as sets of names. A registry with distinct names and distinct bits makes
`mask_for` and `names_for_mask` inverse to each other, so union and inclusion
of name sets can be computed on masks. A name that is not in the registry has
no mask.
-/
namespace FastapiTemplate

open Library.BitMask

namespace Registry

variable {registry : Registry} {names : List String} {name : String} {mask : ℕ}

theorem mem_namesForMask : name ∈ registry.namesForMask mask ↔
    ∃ b, (name, b) ∈ registry ∧ mask.testBit b = true := by
  unfold namesForMask
  simp only [List.mem_map, List.mem_filter, decide_eq_true_eq, and_bit_ne_zero_iff,
    Prod.exists, exists_and_right, exists_eq_right]

theorem Distinct.namesForMask_nodup (h : registry.Distinct) : (registry.namesForMask mask).Nodup :=
  (List.filter_sublist.map Prod.fst).nodup h.names

/-- The names of a computed mask are the names that it was computed from. -/
theorem Distinct.mem_namesForMask_maskFor (h : registry.Distinct)
    (hmask : registry.maskFor names = .ok mask) :
    name ∈ registry.namesForMask mask ↔ name ∈ names := by
  rw [mem_namesForMask]
  constructor
  · rintro ⟨b, hentry, hbit⟩
    obtain ⟨name', hmem, hlookup⟩ := (testBit_maskFor hmask b).mp hbit
    rw [h.lookup_injective (h.lookup_iff.mpr hentry) hlookup]
    exact hmem
  · intro hmem
    obtain ⟨b, hlookup⟩ := known_of_maskFor hmask name hmem
    exact ⟨b, h.lookup_iff.mp hlookup, (testBit_maskFor hmask b).mpr ⟨name, hmem, hlookup⟩⟩

/-- The mask of the names of a mask keeps the bits of the registry. -/
theorem Distinct.maskFor_namesForMask (h : registry.Distinct) {full : ℕ}
    (hfull : registry.maskFor (registry.map Prod.fst) = .ok full) (mask : ℕ) :
    registry.maskFor (registry.namesForMask mask) = .ok (mask &&& full) := by
  have hknown : ∀ n ∈ registry.namesForMask mask, n ∈ registry.map Prod.fst := by
    intro n hn
    obtain ⟨b, hentry, _⟩ := mem_namesForMask.mp hn
    exact List.mem_map_of_mem hentry
  obtain ⟨back, hback⟩ := exists_maskFor hknown
  rw [hback]
  congr 1
  apply Nat.eq_of_testBit_eq
  intro i
  rw [Bool.eq_iff_iff, Nat.testBit_and, Bool.and_eq_true, testBit_maskFor hback,
    testBit_maskFor hfull]
  constructor
  · rintro ⟨name, hname, hlookup⟩
    obtain ⟨b, hentry, hbit⟩ := mem_namesForMask.mp hname
    have hsame : b = i := Option.some.inj ((h.lookup_iff.mpr hentry).symm.trans hlookup)
    subst hsame
    exact ⟨hbit, name, List.mem_map_of_mem hentry, hlookup⟩
  · rintro ⟨hbit, name, _, hlookup⟩
    exact ⟨name, mem_namesForMask.mpr ⟨i, h.lookup_iff.mp hlookup, hbit⟩, hlookup⟩

/-- Any list of the names of both sets has the union of the masks. -/
theorem maskFor_union {left right union : List String} {a s : ℕ}
    (hleft : registry.maskFor left = .ok a) (hright : registry.maskFor right = .ok s)
    (hunion : ∀ n, n ∈ union ↔ n ∈ left ∨ n ∈ right) :
    registry.maskFor union = .ok (a ||| s) := by
  have hknown : ∀ n ∈ union, n ∈ registry.map Prod.fst := by
    intro n hn
    rw [← exists_lookup_iff]
    rcases (hunion n).mp hn with hn | hn
    · exact known_of_maskFor hleft n hn
    · exact known_of_maskFor hright n hn
  obtain ⟨mask, hmask⟩ := exists_maskFor hknown
  rw [hmask]
  congr 1
  apply Nat.eq_of_testBit_eq
  intro i
  rw [Bool.eq_iff_iff, Nat.testBit_or, Bool.or_eq_true, testBit_maskFor hmask,
    testBit_maskFor hleft, testBit_maskFor hright]
  simp only [hunion, or_and_right, exists_or]

/-- The subset check of `create_role` on masks. -/
theorem Distinct.andNot_maskFor_iff (h : registry.Distinct) {allowed requested : List String}
    {a s : ℕ} (hallowed : registry.maskFor allowed = .ok a)
    (hrequested : registry.maskFor requested = .ok s) :
    andNot s a = 0 ↔ ∀ n ∈ requested, n ∈ allowed := by
  rw [andNot_eq_zero_iff]
  constructor
  · intro hwithin n hn
    obtain ⟨b, hlookup⟩ := known_of_maskFor hrequested n hn
    obtain ⟨n', hn', hlookup'⟩ := (testBit_maskFor hallowed b).mp
      (hwithin b ((testBit_maskFor hrequested b).mpr ⟨n, hn, hlookup⟩))
    rw [h.lookup_injective hlookup hlookup']
    exact hn'
  · intro hsub i hi
    obtain ⟨n, hn, hlookup⟩ := (testBit_maskFor hrequested i).mp hi
    exact (testBit_maskFor hallowed i).mpr ⟨n, hsub n hn, hlookup⟩

theorem Distinct.maskFor_lt (h : registry.Distinct) (hmask : registry.maskFor names = .ok mask) :
    mask < 2 ^ 256 := by
  refine Nat.lt_pow_two_of_testBit _ ?_
  intro i hi
  by_contra hbit
  rw [Bool.not_eq_false, testBit_maskFor hmask] at hbit
  obtain ⟨name, _, hlookup⟩ := hbit
  have hlt := h.width _ (h.lookup_iff.mp hlookup)
  dsimp only at hlt
  omega

/-- Sets of names and their masks are the same, and a name without a bit is not
passed over. -/
theorem masks_represent_names (h : registry.Distinct) :
    (∀ names, (∀ n ∈ names, n ∈ registry.map Prod.fst) →
      ∃ mask, registry.maskFor names = .ok mask ∧ mask < 2 ^ 256 ∧
        (registry.namesForMask mask).Nodup ∧
        ∀ n, n ∈ registry.namesForMask mask ↔ n ∈ names) ∧
    (∃ full, registry.maskFor (registry.map Prod.fst) = .ok full ∧ ∀ mask, mask < 2 ^ 256 →
      registry.maskFor (registry.namesForMask mask) = .ok (mask &&& full)) ∧
    (∀ allowed requested, (∀ n ∈ allowed, n ∈ registry.map Prod.fst) →
      (∀ n ∈ requested, n ∈ registry.map Prod.fst) →
      ∃ a s, registry.maskFor allowed = .ok a ∧ registry.maskFor requested = .ok s ∧
        (∀ union, (∀ n, n ∈ union ↔ n ∈ allowed ∨ n ∈ requested) →
          registry.maskFor union = .ok (a ||| s)) ∧
        (andNot s a = 0 ↔ ∀ n ∈ requested, n ∈ allowed)) ∧
    (∀ names, (∃ e, registry.maskFor names = .error e) ↔
      ∃ n ∈ names, n ∉ registry.map Prod.fst) ∧
    (∀ names e, registry.maskFor names = .error e →
      ∃ n ∈ names, n ∉ registry.map Prod.fst ∧ e = .unknownPermission n) := by
  refine ⟨?_, ?_, ?_, ?_, fun names e => maskFor_error⟩
  · intro names hnames
    obtain ⟨mask, hmask⟩ := exists_maskFor hnames
    exact ⟨mask, hmask, h.maskFor_lt hmask, h.namesForMask_nodup,
      fun n => h.mem_namesForMask_maskFor hmask⟩
  · obtain ⟨full, hfull⟩ := exists_maskFor (fun n (hn : n ∈ registry.map Prod.fst) => hn)
    exact ⟨full, hfull, fun mask _ => h.maskFor_namesForMask hfull mask⟩
  · intro allowed requested hallowed hrequested
    obtain ⟨a, ha⟩ := exists_maskFor hallowed
    obtain ⟨s, hs⟩ := exists_maskFor hrequested
    exact ⟨a, s, ha, hs, fun union hunion => maskFor_union ha hs hunion,
      h.andNot_maskFor_iff ha hs⟩
  · intro names
    constructor
    · rintro ⟨e, he⟩
      obtain ⟨n, hn, hunknown, _⟩ := maskFor_error he
      exact ⟨n, hn, hunknown⟩
    · rintro ⟨n, hn, hunknown⟩
      cases hmask : registry.maskFor names with
      | error e => exact ⟨e, rfl⟩
      | ok mask => exact absurd (exists_lookup_iff.mp (known_of_maskFor hmask n hn)) hunknown

end Registry

theorem permissionRegistry_represents :
    ∃ full, maskFor (permissionRegistry.map Prod.fst) = .ok full ∧
      ∀ mask, mask < 2 ^ 256 → maskFor (namesForMask mask) = .ok (mask &&& full) :=
  (Registry.masks_represent_names permissionRegistry_distinct).2.1

end FastapiTemplate
