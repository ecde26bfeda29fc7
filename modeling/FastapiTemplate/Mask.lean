import FastapiTemplate.Errors

/-!
The codec of the 256-bit permission mask: 32 big-endian bytes in the database
and their hexadecimal text in the access token. A number outside the width
raises `OverflowError` instead of being truncated.
-/
namespace FastapiTemplate

open Library.Positional

abbrev Byte := Fin 256

/-- `MASK_BYTES`. -/
def maskBytes : ℕ := 32

/-- `(mask or 0).to_bytes(MASK_BYTES, "big")`. -/
def maskToBytes (mask : Option ℤ) : Except Err (List Byte) :=
  let value := mask.getD 0
  if 0 ≤ value ∧ value < 256 ^ maskBytes then
    .ok ((toDigits 256 maskBytes value.toNat).map (Fin.ofNat 256))
  else .error .overflowError

/-- `int.from_bytes(data, "big")`, zero for missing or empty data. -/
def bytesToMask (data : Option (List Byte)) : ℕ :=
  match data with
  | none => 0
  | some bytes => ofDigits 256 (bytes.map Fin.val)

def byteHex (b : Byte) : List Char := [hexChar (b.val / 16), hexChar (b.val % 16)]

/-- `bytes.hex()`. -/
def bytesHex (data : List Byte) : String := String.ofList (data.flatMap byteHex)

/-- ASCII whitespace: blank, tab, line feed, vertical tab, form feed and carriage return. -/
def asciiSpace (c : Char) : Bool := c.toNat = 32 || (9 ≤ c.toNat && c.toNat ≤ 13)

/-- `bytes.fromhex`: two digits make a byte, whitespace between bytes is skipped. -/
def fromHexChars : List Char → Option (List Byte)
  | [] => some []
  | [c] => if asciiSpace c then some [] else none
  | c :: d :: rest =>
    if asciiSpace c then fromHexChars (d :: rest)
    else do
      let high ← hexValue c
      let low ← hexValue d
      let bytes ← fromHexChars rest
      return Fin.ofNat 256 (high * 16 + low) :: bytes

def maskToHex (mask : Option ℤ) : Except Err String := (maskToBytes mask).map bytesHex

def hexToMask (value : Option String) : Except Err ℕ :=
  match value with
  | none => .ok 0
  | some text =>
    if text = "" then .ok 0
    else match fromHexChars text.toList with
      | none => .error .valueError
      | some bytes => .ok (ofDigits 256 (bytes.map Fin.val))

theorem maskToHex_eq_error {mask : Option ℤ} {e : Err} (h : maskToHex mask = .error e) :
    e = .overflowError := by
  unfold maskToHex maskToBytes at h
  by_cases hfits : 0 ≤ mask.getD 0 ∧ mask.getD 0 < 256 ^ maskBytes
  · simp only [if_pos hfits] at h
    cases h
  · simp only [if_neg hfits] at h
    cases h
    rfl

theorem maskToBytes_of_lt (mask : ℕ) (hmask : mask < 2 ^ 256) :
    maskToBytes (some mask) = .ok ((toDigits 256 32 mask).map (Fin.ofNat 256)) := by
  have hfits : 0 ≤ (some (mask : ℤ)).getD 0 ∧ (some (mask : ℤ)).getD 0 < 256 ^ maskBytes := by
    have hpow : (256 : ℤ) ^ maskBytes = ((2 ^ 256 : ℕ) : ℤ) := by norm_num [maskBytes]
    rw [Option.getD_some, hpow]
    exact ⟨Int.natCast_nonneg mask, by exact_mod_cast hmask⟩
  unfold maskToBytes
  rw [if_pos hfits]
  rfl

theorem map_val_ofNat (digits : List ℕ) (hd : ∀ d ∈ digits, d < 256) :
    (digits.map (Fin.ofNat 256)).map Fin.val = digits := by
  induction digits with
  | nil => rfl
  | cons d digits ih =>
    have hhead : d % 256 = d := Nat.mod_eq_of_lt (hd d (by simp))
    rw [List.map_cons, List.map_cons, ih (fun x hx => hd x (by simp [hx]))]
    simp only [Fin.ofNat, hhead]

/-- Reading the 32 stored bytes of a mask returns the mask. -/
theorem bytesToMask_maskToBytes (mask : ℕ) (hmask : mask < 2 ^ 256) (bytes : List Byte)
    (hbytes : maskToBytes (some mask) = .ok bytes) : bytesToMask (some bytes) = mask := by
  rw [maskToBytes_of_lt mask hmask] at hbytes
  obtain rfl := Except.ok.inj hbytes
  have hfit : mask < 256 ^ 32 := lt_of_lt_of_eq hmask (by norm_num)
  rw [bytesToMask, map_val_ofNat _ (toDigits_lt 256 32 mask (by omega)),
    ofDigits_toDigits 256 32 mask hfit]

theorem byteHex_cases (b : Byte) :
    ∃ c d, byteHex b = [c, d] ∧ asciiSpace c = false ∧
      hexValue c = some (b.val / 16) ∧ hexValue d = some (b.val % 16) := by
  have hhigh : b.val / 16 < 16 := by omega
  have hlow : b.val % 16 < 16 := by omega
  refine ⟨hexChar (b.val / 16), hexChar (b.val % 16), rfl, ?_,
    hexValue_hexChar _ hhigh, hexValue_hexChar _ hlow⟩
  have hall : ∀ e : Fin 16, asciiSpace (hexChar e.val) = false := by decide
  exact hall ⟨b.val / 16, hhigh⟩

theorem fromHexChars_flatMap_byteHex (data : List Byte) :
    fromHexChars (data.flatMap byteHex) = some data := by
  induction data with
  | nil => rfl
  | cons b data ih =>
    obtain ⟨c, d, hpair, hspace, hhigh, hlow⟩ := byteHex_cases b
    have hbyte : Fin.ofNat 256 (b.val / 16 * 16 + b.val % 16) = b := by
      apply Fin.ext
      have hb := b.isLt
      simp only [Fin.ofNat]
      omega
    rw [List.flatMap_cons, hpair, List.cons_append, List.cons_append, List.nil_append,
      fromHexChars, hspace, hhigh, hlow, ih]
    exact congrArg (fun x => some (x :: data)) hbyte

theorem length_flatMap_byteHex (data : List Byte) :
    (data.flatMap byteHex).length = 2 * data.length := by
  induction data with
  | nil => rfl
  | cons b data ih =>
    rw [List.flatMap_cons, List.length_append, ih, List.length_cons, byteHex]
    simp only [List.length_cons, List.length_nil]
    omega

/-- The token's mask claim decodes to the encoded mask. -/
theorem hexToMask_maskToHex (mask : ℕ) (hmask : mask < 2 ^ 256) (text : String)
    (htext : maskToHex (some mask) = .ok text) : hexToMask (some text) = .ok mask := by
  rw [maskToHex, maskToBytes_of_lt mask hmask] at htext
  obtain rfl := Except.ok.inj htext
  have hfit : mask < 256 ^ 32 := lt_of_lt_of_eq hmask (by norm_num)
  have hchars : (bytesHex ((toDigits 256 32 mask).map (Fin.ofNat 256))).toList =
      ((toDigits 256 32 mask).map (Fin.ofNat 256)).flatMap byteHex := String.toList_ofList
  have hne : bytesHex ((toDigits 256 32 mask).map (Fin.ofNat 256)) ≠ "" := by
    intro hempty
    have hlen := congrArg List.length (hchars.symm.trans (congrArg String.toList hempty))
    rw [length_flatMap_byteHex, List.length_map, toDigits_length] at hlen
    cases hlen
  simp only [hexToMask, if_neg hne, hchars, fromHexChars_flatMap_byteHex]
  rw [map_val_ofNat _ (toDigits_lt 256 32 mask (by omega)), ofDigits_toDigits 256 32 mask hfit]

/-- A number outside the width has no bytes. -/
theorem maskToBytes_of_not_fits {mask : ℤ} (h : ¬ (0 ≤ mask ∧ mask < 2 ^ 256)) :
    maskToBytes (some mask) = .error .overflowError := by
  have hpow : (256 : ℤ) ^ maskBytes = 2 ^ 256 := by norm_num [maskBytes]
  have hout : ¬ (0 ≤ (some mask).getD 0 ∧ (some mask).getD 0 < 256 ^ maskBytes) := by
    rw [Option.getD_some, hpow]
    exact h
  unfold maskToBytes
  rw [if_neg hout]

/-- Only a mask that fits has a text. -/
theorem maskToHex_lt {mask : ℕ} {text : String} (h : maskToHex (some mask) = .ok text) :
    mask < 2 ^ 256 := by
  by_contra hle
  have hout : ¬ ((0 : ℤ) ≤ mask ∧ (mask : ℤ) < 2 ^ 256) := by
    rintro ⟨_, hlt⟩
    apply hle
    exact_mod_cast hlt
  rw [maskToHex, maskToBytes_of_not_fits hout] at h
  cases h

/-- Every string of 32 bytes is the encoding of its mask. -/
theorem maskToBytes_bytesToMask {bytes : List Byte} (hlength : bytes.length = 32) :
    maskToBytes (some (bytesToMask (some bytes))) = .ok bytes := by
  have hdigits : ∀ d ∈ bytes.map Fin.val, d < 256 := by
    intro d hd
    obtain ⟨b, _, rfl⟩ := List.mem_map.mp hd
    exact b.isLt
  have hlt := ofDigits_lt 256 (bytes.map Fin.val) hdigits
  have hback := toDigits_ofDigits 256 (bytes.map Fin.val) hdigits
  rw [List.length_map, hlength] at hlt hback
  have hmask : bytesToMask (some bytes) < 2 ^ 256 := lt_of_lt_of_eq hlt (by norm_num)
  have hsame : (bytes.map Fin.val).map (Fin.ofNat 256) = bytes := by
    rw [List.map_map]
    refine (List.map_congr_left ?_).trans (List.map_id bytes)
    intro b _
    apply Fin.ext
    exact Nat.mod_eq_of_lt b.isLt
  rw [maskToBytes_of_lt _ hmask, bytesToMask, hback, hsame]

/-- `[0-9a-f]`. -/
def isLowerHexDigit (c : Char) : Prop := ('0' ≤ c ∧ c ≤ '9') ∨ ('a' ≤ c ∧ c ≤ 'f')

/-- A lowercase digit is the text of its value. -/
theorem exists_hexChar {c : Char} (h : isLowerHexDigit c) : ∃ d, d < 16 ∧ hexChar d = c := by
  rcases h with ⟨hlow, hhigh⟩ | ⟨hlow, hhigh⟩
  · have hlow' : 48 ≤ c.toNat := hlow
    have hhigh' : c.toNat ≤ 57 := hhigh
    refine ⟨c.toNat - 48, by omega, ?_⟩
    rw [hexChar, if_pos (by omega), Nat.add_sub_cancel' hlow', Char.ofNat_toNat]
  · have hlow' : 97 ≤ c.toNat := hlow
    have hhigh' : c.toNat ≤ 102 := hhigh
    refine ⟨c.toNat - 87, by omega, ?_⟩
    rw [hexChar, if_neg (by omega), Nat.add_sub_cancel' (by omega), Char.ofNat_toNat]

/-- Two digits are the text of one byte. -/
theorem exists_byteHex {c d : Char} (hc : isLowerHexDigit c) (hd : isLowerHexDigit d) :
    ∃ b : Byte, byteHex b = [c, d] := by
  obtain ⟨high, hhigh, rfl⟩ := exists_hexChar hc
  obtain ⟨low, hlow, rfl⟩ := exists_hexChar hd
  refine ⟨⟨high * 16 + low, by omega⟩, ?_⟩
  rw [byteHex, (by omega : (high * 16 + low) / 16 = high), (by omega : (high * 16 + low) % 16 = low)]

/-- An even number of digits is the text of some bytes. -/
theorem exists_bytes_of_digits (n : ℕ) : ∀ digits : List Char, digits.length = 2 * n →
    (∀ c ∈ digits, isLowerHexDigit c) →
    ∃ bytes : List Byte, bytes.length = n ∧ bytes.flatMap byteHex = digits := by
  induction n with
  | zero =>
    intro digits hlength _
    exact ⟨[], rfl, (List.length_eq_zero_iff.mp hlength).symm⟩
  | succ n ih =>
    intro digits hlength hdigits
    match digits with
    | [] => simp at hlength
    | [_] =>
      simp only [List.length_cons, List.length_nil] at hlength
      omega
    | c :: d :: rest =>
      simp only [List.length_cons] at hlength
      obtain ⟨b, hb⟩ := exists_byteHex (hdigits c (by simp)) (hdigits d (by simp))
      obtain ⟨bytes, hlen, hbytes⟩ := ih rest (by omega) (fun x hx => hdigits x (by simp [hx]))
      exact ⟨b :: bytes, by rw [List.length_cons, hlen], by rw [List.flatMap_cons, hb, hbytes]; rfl⟩

/-- Every text of 64 lowercase digits is the encoding of its mask. -/
theorem maskToHex_hexToMask {text : String} (hlength : text.toList.length = 64)
    (hdigits : ∀ c ∈ text.toList, isLowerHexDigit c) :
    ∃ mask : ℕ, hexToMask (some text) = .ok mask ∧ maskToHex (some mask) = .ok text := by
  obtain ⟨bytes, hlen, hbytes⟩ := exists_bytes_of_digits 32 text.toList hlength hdigits
  have hne : text ≠ "" := by
    rintro rfl
    cases hlength
  refine ⟨bytesToMask (some bytes), ?_, ?_⟩
  · simp only [hexToMask, if_neg hne, ← hbytes, fromHexChars_flatMap_byteHex]
    rfl
  · rw [maskToHex, maskToBytes_bytesToMask hlen]
    change Except.ok (String.ofList (bytes.flatMap byteHex)) = _
    rw [hbytes, String.ofList_toList]

/-- The codec is exact up to its width, and refuses what is wider. -/
theorem mask_codec_exact :
    (∀ mask : ℤ, 0 ≤ mask → mask < 2 ^ 256 →
      (∃ bytes, maskToBytes (some mask) = .ok bytes ∧ bytes.length = 32 ∧
        (bytesToMask (some bytes) : ℤ) = mask) ∧
      ∃ text value, maskToHex (some mask) = .ok text ∧ hexToMask (some text) = .ok value ∧
        (value : ℤ) = mask) ∧
    (∀ mask : ℤ, ¬ (0 ≤ mask ∧ mask < 2 ^ 256) →
      maskToBytes (some mask) = .error .overflowError ∧
        maskToHex (some mask) = .error .overflowError) ∧
    (∀ bytes : List Byte, bytes.length = 32 →
      maskToBytes (some (bytesToMask (some bytes))) = .ok bytes) ∧
    (∀ text : String, text.toList.length = 64 → (∀ c ∈ text.toList, isLowerHexDigit c) →
      ∃ mask : ℕ, hexToMask (some text) = .ok mask ∧ maskToHex (some mask) = .ok text) := by
  refine ⟨?_, ?_, fun bytes => maskToBytes_bytesToMask, fun text => maskToHex_hexToMask⟩
  · intro mask hnonneg hlt
    obtain ⟨m, rfl⟩ := Int.eq_ofNat_of_zero_le hnonneg
    have hm : m < 2 ^ 256 := by exact_mod_cast hlt
    have hbytes := maskToBytes_of_lt m hm
    have htext : maskToHex (some m) =
        .ok (bytesHex ((toDigits 256 32 m).map (Fin.ofNat 256))) := by
      rw [maskToHex, hbytes]
      rfl
    refine ⟨⟨_, hbytes, by rw [List.length_map, toDigits_length], ?_⟩, _, m, htext,
      hexToMask_maskToHex m hm _ htext, rfl⟩
    rw [bytesToMask_maskToBytes m hm _ hbytes]
  · intro mask hout
    have hbytes := maskToBytes_of_not_fits hout
    refine ⟨hbytes, ?_⟩
    rw [maskToHex, hbytes]
    rfl

end FastapiTemplate
