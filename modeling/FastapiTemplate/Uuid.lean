import FastapiTemplate.Library.Positional
import Mathlib.Data.BitVec

/-!
The 128-bit identifiers of users and tenants and their text form: 32 lowercase
hexadecimal digits in groups of 8, 4, 4, 4 and 12. Parsing drops an optional
URN prefix, braces and hyphens. The authz events and the Redis mirror carry
the text form, the in-process cache the parsed one.
-/
namespace FastapiTemplate

open Library.Positional

abbrev Uuid := BitVec 128

namespace Uuid

def hexDigits (u : Uuid) : List Char := (toDigits 16 32 u.toNat).map hexChar

/-- `str(uuid)`. -/
def str (u : Uuid) : String :=
  let hex := u.hexDigits
  String.ofList (hex.take 8 ++ '-' :: ((hex.drop 8).take 4 ++ '-' :: ((hex.drop 12).take 4 ++
    '-' :: ((hex.drop 16).take 4 ++ '-' :: hex.drop 20))))

def dropPrefix (pre chars : List Char) : List Char :=
  if pre.isPrefixOf chars then chars.drop pre.length else chars

/-- `uuid.UUID(text)`, none where it raises. -/
def ofString (text : String) : Option Uuid :=
  let chars := dropPrefix "uuid:".toList (dropPrefix "urn:".toList text.toList)
  let hex := chars.filter (fun c => c ≠ '-' ∧ c ≠ '\x7b' ∧ c ≠ '\x7d')
  if hex.length = 32 then (hex.mapM hexValue).map (fun ds => BitVec.ofNat 128 (ofDigits 16 ds))
  else none

theorem mem_hexDigits {u : Uuid} {c : Char} (hc : c ∈ u.hexDigits) :
    ∃ d < 16, c = hexChar d := by
  obtain ⟨d, hd, rfl⟩ := List.mem_map.mp hc
  exact ⟨d, toDigits_lt 16 32 u.toNat (by omega) d hd, rfl⟩

/-- No hexadecimal digit is a separator or starts a URN prefix. -/
theorem plain_of_mem_hexDigits {u : Uuid} {c : Char} (hc : c ∈ u.hexDigits) :
    c ≠ '-' ∧ c ≠ '\x7b' ∧ c ≠ '\x7d' ∧ c ≠ 'u' := by
  obtain ⟨d, hd, rfl⟩ := mem_hexDigits hc
  have hall : ∀ e : Fin 16, hexChar e.val ≠ '-' ∧ hexChar e.val ≠ '\x7b' ∧
      hexChar e.val ≠ '\x7d' ∧ hexChar e.val ≠ 'u' := by decide
  exact hall ⟨d, hd⟩

theorem hexDigits_length (u : Uuid) : u.hexDigits.length = 32 := by
  simp [hexDigits]

theorem dropPrefix_of_head_ne (p : Char) (pre chars : List Char) (h : chars.head? ≠ some p) :
    dropPrefix (p :: pre) chars = chars := by
  cases chars with
  | nil => rfl
  | cons c chars =>
    have hne : p ≠ c := by
      rintro rfl
      exact h rfl
    simp [dropPrefix, List.isPrefixOf, hne]

theorem str_toList (u : Uuid) :
    u.str.toList = u.hexDigits.take 8 ++ '-' :: ((u.hexDigits.drop 8).take 4 ++
      '-' :: ((u.hexDigits.drop 12).take 4 ++ '-' :: ((u.hexDigits.drop 16).take 4 ++
        '-' :: u.hexDigits.drop 20))) := String.toList_ofList

theorem head_str_ne (u : Uuid) : u.str.toList.head? ≠ some 'u' := by
  intro h
  rw [str_toList, List.head?_append, List.head?_take] at h
  have hmem : 'u' ∈ u.hexDigits := by
    cases hd : u.hexDigits with
    | nil =>
      have hlen := u.hexDigits_length
      rw [hd] at hlen
      cases hlen
    | cons c rest =>
      rw [hd] at h
      simp only [List.head?_cons] at h
      simp_all
  exact (plain_of_mem_hexDigits hmem).2.2.2 rfl

/-- Removing the separators of the text form gives the digits back. -/
theorem filter_str (u : Uuid) :
    u.str.toList.filter (fun c => c ≠ '-' ∧ c ≠ '\x7b' ∧ c ≠ '\x7d') = u.hexDigits := by
  have hkeep : ∀ part : List Char, (∀ c ∈ part, c ∈ u.hexDigits) →
      part.filter (fun c => c ≠ '-' ∧ c ≠ '\x7b' ∧ c ≠ '\x7d') = part := by
    intro part hpart
    apply List.filter_eq_self.mpr
    intro c hc
    obtain ⟨h1, h2, h3, _⟩ := plain_of_mem_hexDigits (hpart c hc)
    simp [h1, h2, h3]
  have htake : ∀ a b : ℕ, ∀ c ∈ (u.hexDigits.drop a).take b, c ∈ u.hexDigits :=
    fun a b c hc => List.mem_of_mem_drop (List.mem_of_mem_take hc)
  have hsep : ∀ rest : List Char,
      ('-' :: rest).filter (fun c => c ≠ '-' ∧ c ≠ '\x7b' ∧ c ≠ '\x7d') =
        rest.filter (fun c => c ≠ '-' ∧ c ≠ '\x7b' ∧ c ≠ '\x7d') := fun rest => rfl
  rw [str_toList]
  simp only [List.filter_append, hsep]
  rw [hkeep _ (fun c hc => List.mem_of_mem_take hc), hkeep _ (htake 8 4), hkeep _ (htake 12 4),
    hkeep _ (htake 16 4), hkeep _ (fun c hc => List.mem_of_mem_drop hc)]
  have h16 : (u.hexDigits.drop 16).take 4 ++ u.hexDigits.drop 20 = u.hexDigits.drop 16 := by
    rw [show u.hexDigits.drop 20 = (u.hexDigits.drop 16).drop 4 by rw [List.drop_drop]]
    exact List.take_append_drop _ _
  have h12 : (u.hexDigits.drop 12).take 4 ++ u.hexDigits.drop 16 = u.hexDigits.drop 12 := by
    rw [show u.hexDigits.drop 16 = (u.hexDigits.drop 12).drop 4 by rw [List.drop_drop]]
    exact List.take_append_drop _ _
  have h8 : (u.hexDigits.drop 8).take 4 ++ u.hexDigits.drop 12 = u.hexDigits.drop 8 := by
    rw [show u.hexDigits.drop 12 = (u.hexDigits.drop 8).drop 4 by rw [List.drop_drop]]
    exact List.take_append_drop _ _
  rw [h16, h12, h8, List.take_append_drop]

/-- Parsing the text form of an identifier returns the identifier. -/
@[simp] theorem ofString_str (u : Uuid) : ofString u.str = some u := by
  have hprefixes : dropPrefix "uuid:".toList (dropPrefix "urn:".toList u.str.toList) =
      u.str.toList := by
    rw [show "urn:".toList = 'u' :: "rn:".toList by decide,
      show "uuid:".toList = 'u' :: "uid:".toList by decide,
      dropPrefix_of_head_ne _ _ _ u.head_str_ne, dropPrefix_of_head_ne _ _ _ u.head_str_ne]
  have hfit : u.toNat < 16 ^ 32 := lt_of_lt_of_eq u.isLt (by norm_num)
  unfold ofString
  simp only [hprefixes, filter_str, hexDigits_length, if_true]
  rw [hexDigits, mapM_hexValue_map_hexChar _ (toDigits_lt 16 32 u.toNat (by omega)),
    Option.map_some, ofDigits_toDigits 16 32 u.toNat hfit, BitVec.ofNat_toNat, BitVec.setWidth_eq]

theorem str_injective : Function.Injective str := by
  intro u v h
  have huv : ofString u.str = ofString v.str := congrArg ofString h
  simpa using huv

end Uuid
end FastapiTemplate
