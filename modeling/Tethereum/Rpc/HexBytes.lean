import Tethereum.Rpc.Text

/-!
# Bytes in requests and responses

A byte vector travels as `0x` and two digits for each byte. Reading takes digits
of either case and writing uses lower case; between the two nothing else is lost.
-/

namespace Tethereum

open HexText

namespace RpcBytes

/-- `Bytes::serialize`. -/
def serialize (b : List UInt8) : String :=
  let serialized := "0x"
  serialized ++ hexEncode b

/-- `BytesVisitor::visit_str`, with the texts that the codec has for its errors. -/
def visitStr (display : FromHexError → String) (value : String) :
    Outcome (Except String (List UInt8)) :=
  let len := (asBytes value).length
  if len ≥ 2 && startsWith value "0x" && len &&& 1 == 0 then
    (sliceFrom value 2).map fun digits =>
      (hexDecode (asBytes digits)).mapError fun e => "Invalid hex: " ++ display e
  else
    some (.error "Invalid bytes format. Expected a 0x-prefixed hex string with even length")

/-- `BytesVisitor::visit_string`. -/
def visitString (display : FromHexError → String) (value : String) :
    Outcome (Except String (List UInt8)) :=
  visitStr display value

/-- The text is `0x` and an even number of hexadecimal digits. -/
def IsHexBytes (x : String) : Prop :=
  ∃ digits, x.toList = '0' :: 'x' :: digits ∧ digits.length % 2 = 0 ∧
    ∀ c ∈ digits, IsHexDigit c

variable {display : FromHexError → String} {x : String} {b : List UInt8}

/-- A text is read, or refused, but the slice never panics. -/
theorem visitStr_ne_none : visitStr display x ≠ none := by
  unfold visitStr
  dsimp only
  split
  · rename_i h
    simp only [Bool.and_eq_true] at h
    obtain ⟨text, htext⟩ := startsWith_0x_iff.mp h.1.2
    rw [sliceFrom_0x htext]
    exact Option.some_ne_none _
  · exact Option.some_ne_none _

/-- A text of digits is decoded into the bytes that are written in them in lower case. -/
theorem hexDecode_utf8_eq_ok_iff {digits : List Char} : hexDecode (utf8 digits) = .ok b ↔
    (∀ c ∈ digits, IsHexDigit c) ∧
      encode (b.map UInt8.toNat) = (digits.map Char.toNat).map lower := by
  rw [hexDecode_eq_ok_iff, forall_mem_utf8_iff fun _ => IsDigit.lt_128]
  refine and_congr_right fun hdigits => ?_
  rw [map_toNat_utf8 fun c hc => (hdigits c hc).lt_128]

/-- A text is read exactly when it is `0x` and digits, and as the bytes that are written in
these digits in lower case. -/
theorem visitStr_eq_ok_iff : visitStr display x = some (.ok b) ↔
    ∃ digits, x.toList = '0' :: 'x' :: digits ∧ (∀ c ∈ digits, IsHexDigit c) ∧
      encode (b.map UInt8.toNat) = (digits.map Char.toNat).map lower := by
  unfold visitStr
  dsimp only
  by_cases hpre : startsWith x "0x" = true
  · obtain ⟨digits, htext⟩ := startsWith_0x_iff.mp hpre
    have hbytes : asBytes x = 0x30 :: 0x78 :: utf8 digits := by
      rw [asBytes, htext]
      rfl
    have hlen : (asBytes x).length = (utf8 digits).length + 2 := by
      rw [hbytes, List.length_cons, List.length_cons]
    have hslice : asBytes (String.ofList digits) = utf8 digits := by
      rw [asBytes, String.toList_ofList]
    simp only [htext, List.cons.injEq, true_and, exists_eq_left', hlen, hpre,
      ← hexDecode_utf8_eq_ok_iff, sliceFrom_0x htext, Option.map_some, hslice]
    have hparity : ((decide ((utf8 digits).length + 2 ≥ 2) && true &&
        ((utf8 digits).length + 2) &&& 1 == 0) = true) ↔ (utf8 digits).length % 2 = 0 := by
      rw [Nat.and_one_is_mod]
      simp
    by_cases heven : (utf8 digits).length % 2 = 0
    · rw [if_pos (hparity.mpr heven)]
      cases hexDecode (utf8 digits) with
      | error e => simp [Except.mapError]
      | ok bytes => simp [Except.mapError]
    · rw [if_neg (mt hparity.mp heven)]
      exact iff_of_false (by simp) fun hok => heven (even_of_hexDecode hok)
  · rw [if_neg (by simp [hpre])]
    refine iff_of_false (by simp) ?_
    rintro ⟨digits, htext, _⟩
    exact hpre (startsWith_0x_iff.mpr ⟨digits, htext⟩)

/-- The bytes are written as `0x` and their digits. -/
theorem toList_serialize (b : List UInt8) : (serialize b).toList =
    '0' :: 'x' :: (encode (b.map UInt8.toNat)).map Char.ofNat := by
  simp only [serialize, hexEncode, String.toList_append, String.toList_ofList]
  rfl

/-- What is read from a text is written as that text in lower case. -/
theorem serialize_of_visitStr (h : visitStr display x = some (.ok b)) :
    serialize b = String.ofList (x.toList.map Char.toLower) := by
  obtain ⟨digits, htext, _, hcodes⟩ := visitStr_eq_ok_iff.mp h
  have hlower : ∀ c : Char, Char.ofNat (lower c.toNat) = c.toLower := by
    intro c
    rw [← toNat_toLower, Char.ofNat_toNat]
  rw [← String.toList_inj, toList_serialize, String.toList_ofList, htext, hcodes, List.map_map,
    List.map_map]
  simp only [List.map_cons, Function.comp_def, hlower]
  rfl

/-- What is written is read back. -/
theorem visitStr_serialize (b : List UInt8) : visitStr display (serialize b) = some (.ok b) := by
  have hbytes : ∀ byte ∈ b.map UInt8.toNat, byte < 256 := by
    simp only [List.mem_map, forall_exists_index, and_imp]
    rintro _ byte _ rfl
    exact byte.toNat_lt
  have hdigit := isDigit_of_mem_encode hbytes
  have hcode : ∀ code ∈ encode (b.map UInt8.toNat), (Char.ofNat code).toNat = code := by
    intro code hmem
    exact toNat_ofNat_of_lt (hdigit code hmem).lt_128
  refine visitStr_eq_ok_iff.mpr ⟨_, toList_serialize b, ?_, ?_⟩
  · intro c hmem
    obtain ⟨code, hcodes, rfl⟩ := List.mem_map.mp hmem
    change IsDigit (Char.ofNat code).toNat
    rw [hcode code hcodes]
    exact hdigit code hcodes
  · have hmap : ((encode (b.map UInt8.toNat)).map Char.ofNat).map Char.toNat =
        encode (b.map UInt8.toNat) := by
      rw [List.map_map]
      exact (List.map_congr_left hcode).trans (List.map_id _)
    rw [hmap, map_lower_encode hbytes]

/-- The codec is exact. What is written is read back; reading never slices out of range or off
a character boundary, it succeeds exactly on `0x` with an even number of hexadecimal digits,
and what is read is written with these digits in lower case. -/
theorem visitStr_exact (display : FromHexError → String) :
    (∀ b, visitStr display (serialize b) = some (.ok b)) ∧
    ∀ x, (∃ result, visitStr display x = some result) ∧
      ((∃ b, visitStr display x = some (.ok b)) ↔ IsHexBytes x) ∧
      ∀ b, visitStr display x = some (.ok b) →
        serialize b = String.ofList (x.toList.map Char.toLower) := by
  refine ⟨visitStr_serialize, fun x => ⟨Option.ne_none_iff_exists'.mp visitStr_ne_none, ?_,
    fun b => serialize_of_visitStr⟩⟩
  simp only [visitStr_eq_ok_iff]
  constructor
  · rintro ⟨b, digits, htext, hdigits, hcodes⟩
    have hlength := congrArg List.length hcodes
    rw [length_encode, List.length_map, List.length_map, List.length_map] at hlength
    exact ⟨digits, htext, by omega, hdigits⟩
  · rintro ⟨digits, htext, heven, hdigits⟩
    have hcodes : ∀ code ∈ digits.map Char.toNat, IsDigit code := by
      intro code hmem
      obtain ⟨c, hc, rfl⟩ := List.mem_map.mp hmem
      exact hdigits c hc
    obtain ⟨b, hb⟩ := exists_encode hcodes (by rwa [List.length_map])
    exact ⟨b, digits, htext, hdigits, hb⟩

end RpcBytes

end Tethereum
