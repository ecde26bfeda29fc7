import FastapiTemplate.Errors
import FastapiTemplate.Library.BitMask

/-!
The permission catalogue: every permission name with its bit position, the
translation between name lists and masks, and the implied permissions that
are added when a role is authored. The functions take the catalogue or the
implication map as an argument; the program calls them at `permissionRegistry`
and `permissionImplies`.
-/
namespace FastapiTemplate

open Library.BitMask

abbrev Registry := List (String × ℕ)
abbrev Implications := List (String × List String)

def permissionRegistry : Registry :=
  [("role:create", 0),
   ("role:read", 1),
   ("role:read.id", 2),
   ("role:update", 3),
   ("role:delete", 4),
   ("role:add-permission", 5),
   ("role:delete-permission", 6),
   ("permission:read", 7),
   ("permission:read.id", 8),
   ("user:read", 9),
   ("user:read.id", 10),
   ("user:update", 11),
   ("user:deactivate", 12),
   ("tenant:create", 13),
   ("tenant:read", 14),
   ("tenant:read.id", 15),
   ("tenant:update", 16),
   ("tenant:deactivate", 17),
   ("user:create", 18)]

def permissionImplies : Implications :=
  [("role:update", ["role:read", "role:read.id"]),
   ("role:delete", ["role:read", "role:read.id"]),
   ("role:add-permission", ["role:read.id"]),
   ("role:delete-permission", ["role:read.id"]),
   ("user:update", ["user:read", "user:read.id"]),
   ("user:deactivate", ["user:read.id"]),
   ("permission:read.id", ["permission:read"]),
   ("tenant:update", ["tenant:read.id"]),
   ("tenant:deactivate", ["tenant:read.id"])]

def superuserOnlyPermissions : List String :=
  ["tenant:create", "tenant:read", "tenant:read.id", "tenant:update", "tenant:deactivate"]

namespace Registry

def orName (registry : Registry) (mask : ℕ) (name : String) : Except Err ℕ :=
  match registry.lookup name with
  | none => .error (.unknownPermission name)
  | some b => .ok (mask ||| bit b)

/-- OR of the bits of the names, left to right; an unknown name raises. -/
def maskFor (registry : Registry) (names : List String) : Except Err ℕ :=
  names.foldlM registry.orName 0

def namesForMask (registry : Registry) (mask : ℕ) : List String :=
  (registry.filter (fun entry => mask &&& bit entry.2 ≠ 0)).map Prod.fst

theorem maskFor_from {registry : Registry} {names : List String} {start mask : ℕ}
    (h : names.foldlM registry.orName start = .ok mask) :
    (∀ name ∈ names, ∃ b, registry.lookup name = some b) ∧
      ∀ i, mask.testBit i = true ↔
        start.testBit i = true ∨ ∃ name ∈ names, registry.lookup name = some i := by
  induction names generalizing start with
  | nil =>
    cases h
    simp
  | cons name names ih =>
    rw [List.foldlM_cons] at h
    rcases hl : registry.lookup name with _ | b
    · rw [orName, hl] at h
      cases h
    · rw [orName, hl] at h
      obtain ⟨hknown, hbits⟩ := ih h
      refine ⟨?_, ?_⟩
      · intro n hn
        rcases List.mem_cons.mp hn with rfl | hn
        · exact ⟨b, hl⟩
        · exact hknown n hn
      · intro i
        rw [hbits i, Nat.testBit_or, Bool.or_eq_true, testBit_bit, decide_eq_true_eq]
        simp only [List.mem_cons, exists_eq_or_imp, hl, Option.some.injEq]
        tauto

/-- A computed mask has exactly the bits of the requested names. -/
theorem testBit_maskFor {registry : Registry} {names : List String} {mask : ℕ}
    (h : registry.maskFor names = .ok mask) (i : ℕ) :
    mask.testBit i = true ↔ ∃ name ∈ names, registry.lookup name = some i := by
  rw [(maskFor_from h).2 i, Nat.zero_testBit]
  simp

theorem known_of_maskFor {registry : Registry} {names : List String} {mask : ℕ}
    (h : registry.maskFor names = .ok mask) :
    ∀ name ∈ names, ∃ b, registry.lookup name = some b :=
  (maskFor_from h).1

/-- No two entries have a name or a bit in common, and every bit fits a mask. -/
structure Distinct (registry : Registry) : Prop where
  names : (registry.map Prod.fst).Nodup
  bits : (registry.map Prod.snd).Nodup
  width : ∀ entry ∈ registry, entry.2 < 256

variable {registry : Registry} {names : List String} {name : String} {b : ℕ}

theorem Distinct.lookup_iff (h : registry.Distinct) :
    registry.lookup name = some b ↔ (name, b) ∈ registry := by
  constructor
  · intro hlookup
    obtain ⟨before, after, hsplit, _⟩ := List.lookup_eq_some_iff.mp hlookup
    rw [hsplit]
    simp
  · intro hmem
    cases hlookup : registry.lookup name with
    | none =>
      have hne := List.lookup_eq_none_iff.mp hlookup (name, b) hmem
      simp at hne
    | some c =>
      obtain ⟨before, after, hsplit, _⟩ := List.lookup_eq_some_iff.mp hlookup
      have hmem' : (name, c) ∈ registry := by
        rw [hsplit]
        simp
      have hsame := List.inj_on_of_nodup_map h.names hmem hmem' rfl
      rw [(Prod.mk.inj hsame).2]

theorem exists_lookup_iff : (∃ b, registry.lookup name = some b) ↔
    name ∈ registry.map Prod.fst := by
  constructor
  · rintro ⟨b, hlookup⟩
    obtain ⟨before, after, hsplit, _⟩ := List.lookup_eq_some_iff.mp hlookup
    rw [hsplit]
    simp
  · intro hmem
    obtain ⟨entry, hentry, rfl⟩ := List.mem_map.mp hmem
    rw [← Option.isSome_iff_exists, Option.isSome_iff_ne_none]
    intro hnone
    have hne := List.lookup_eq_none_iff.mp hnone entry hentry
    simp at hne

theorem Distinct.lookup_injective (h : registry.Distinct) {name' : String}
    (hname : registry.lookup name = some b) (hname' : registry.lookup name' = some b) :
    name = name' := by
  have hsame := List.inj_on_of_nodup_map h.bits (h.lookup_iff.mp hname) (h.lookup_iff.mp hname') rfl
  exact (Prod.mk.inj hsame).1

/-- The fold stops at the first unknown name. -/
theorem maskFor_error {start : ℕ} {e : Err} (h : names.foldlM registry.orName start = .error e) :
    ∃ name ∈ names, name ∉ registry.map Prod.fst ∧ e = .unknownPermission name := by
  induction names generalizing start with
  | nil => cases h
  | cons name names ih =>
    rw [List.foldlM_cons] at h
    rcases hlookup : registry.lookup name with _ | b
    · rw [orName, hlookup] at h
      refine ⟨name, by simp, ?_, (Except.error.inj h).symm⟩
      rw [← exists_lookup_iff, hlookup]
      simp
    · rw [orName, hlookup] at h
      obtain ⟨unknown, hmem, hunknown⟩ := ih h
      exact ⟨unknown, List.mem_cons_of_mem _ hmem, hunknown⟩

theorem exists_maskFor (h : ∀ n ∈ names, n ∈ registry.map Prod.fst) :
    ∃ mask, registry.maskFor names = .ok mask := by
  cases hmask : registry.maskFor names with
  | ok mask => exact ⟨mask, rfl⟩
  | error e =>
    obtain ⟨name, hmem, hunknown, _⟩ := maskFor_error hmask
    exact absurd (h name hmem) hunknown

end Registry

namespace Implications

/-- The inner loop: add what one name implies and is not in the result yet. -/
def expandName (implies : Implications) (acc : List String × List String) (name : String) :
    List String × List String :=
  ((implies.lookup name).getD []).foldl (fun acc implied =>
    if implied ∈ acc.1 then acc else (acc.1 ++ [implied], acc.2 ++ [implied])) acc

/-- The `while frontier` loop. Every round but the last adds a new implied
name to the result, so the number of implied names bounds the rounds. -/
def expandLoop (implies : Implications) : ℕ → List String → List String → List String
  | 0, result, _ => result
  | _ + 1, result, [] => result
  | fuel + 1, result, frontier =>
    let next := frontier.foldl implies.expandName (result, [])
    implies.expandLoop fuel next.1 next.2

def expandImplied (implies : Implications) (names : List String) : List String :=
  let result := names.dedup
  implies.expandLoop ((implies.flatMap Prod.snd).length + 2) result result

end Implications

def maskFor (names : List String) : Except Err ℕ := permissionRegistry.maskFor names

def namesForMask (mask : ℕ) : List String := permissionRegistry.namesForMask mask

def expandImplied (names : List String) : List String := permissionImplies.expandImplied names

/-- `mask_for(PERMISSION_REGISTRY.keys())`; every name is in the catalogue. -/
def fullMask : ℕ := orBits (permissionRegistry.map Prod.snd)

def tenantRoleMask : ℕ :=
  orBits ((permissionRegistry.filter (fun e => e.1 ∉ superuserOnlyPermissions)).map Prod.snd)

example : maskFor (permissionRegistry.map Prod.fst) = .ok fullMask := by decide
example : maskFor ((permissionRegistry.map Prod.fst).filter (· ∉ superuserOnlyPermissions)) =
    .ok tenantRoleMask := by decide

theorem permissionRegistry_names_nodup : (permissionRegistry.map Prod.fst).Nodup := by decide

theorem permissionRegistry_bits_nodup : (permissionRegistry.map Prod.snd).Nodup := by decide

theorem permissionRegistry_bits_lt : ∀ entry ∈ permissionRegistry, entry.2 < 256 := by decide

theorem permissionRegistry_distinct : permissionRegistry.Distinct :=
  ⟨permissionRegistry_names_nodup, permissionRegistry_bits_nodup, permissionRegistry_bits_lt⟩

theorem lookup_eq_some_iff {name : String} {b : ℕ} :
    permissionRegistry.lookup name = some b ↔ (name, b) ∈ permissionRegistry :=
  permissionRegistry_distinct.lookup_iff

/-- Distinct names have distinct bits. -/
theorem lookup_injective {name name' : String} {b : ℕ}
    (h : permissionRegistry.lookup name = some b)
    (h' : permissionRegistry.lookup name' = some b) : name = name' :=
  permissionRegistry_distinct.lookup_injective h h'

theorem lookup_lt {name : String} {b : ℕ} (h : permissionRegistry.lookup name = some b) :
    b < 256 := permissionRegistry_bits_lt (name, b) (lookup_eq_some_iff.mp h)

theorem testBit_tenantRoleMask (i : ℕ) :
    tenantRoleMask.testBit i = true ↔
      ∃ name, permissionRegistry.lookup name = some i ∧ name ∉ superuserOnlyPermissions := by
  rw [tenantRoleMask, testBit_orBits, List.mem_map]
  constructor
  · rintro ⟨⟨name, b⟩, hmem, rfl⟩
    rw [List.mem_filter] at hmem
    exact ⟨name, lookup_eq_some_iff.mpr hmem.1, by simpa using hmem.2⟩
  · rintro ⟨name, hlookup, hname⟩
    exact ⟨(name, i), List.mem_filter.mpr ⟨lookup_eq_some_iff.mp hlookup, by simpa using hname⟩, rfl⟩

end FastapiTemplate
