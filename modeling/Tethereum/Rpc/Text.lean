import Tethereum.Core.HexText
import Tethereum.Transaction.Signing

/-!
# Reading text

What the standard library and the hex codec do with strings, which are texts in
UTF-8: slicing by bytes, reading an integer, and decoding bytes. Each reader is
an error or a value, and its specification says for which texts it is which.
-/

namespace Tethereum

open HexText

/-! ## Strings -/

/-- `as_bytes`. -/
def asBytes (value : String) : List UInt8 := utf8 value.toList

/-- `starts_with`. -/
def startsWith (value pat : String) : Bool := pat.toList.isPrefixOf value.toList

/-- What is left of a text after a number of bytes, if that is a character boundary of it. -/
def dropBytes : Nat → List Char → Option (List Char)
  | 0, text => some text
  | _ + 1, [] => none
  | n + 1, c :: text => if c.utf8Size ≤ n + 1 then dropBytes (n + 1 - c.utf8Size) text else none
termination_by structural _ text => text

/-- `&value[n..]`, which panics out of range and off a character boundary. -/
def sliceFrom (value : String) (n : Nat) : Outcome String :=
  (dropBytes n value.toList).map String.ofList

/-- The texts that start with `0x`. -/
theorem startsWith_0x_iff {value : String} :
    startsWith value "0x" = true ↔ ∃ text, value.toList = '0' :: 'x' :: text := by
  rw [startsWith, List.isPrefixOf_iff_prefix]
  constructor
  · rintro ⟨text, h⟩
    exact ⟨text, h.symm⟩
  · rintro ⟨text, h⟩
    exact ⟨text, h.symm⟩

/-- After `0x` there is a character boundary. -/
theorem sliceFrom_0x {value : String} {text : List Char} (h : value.toList = '0' :: 'x' :: text) :
    sliceFrom value 2 = some (String.ofList text) := by
  have hzero : '0'.utf8Size = 1 := rfl
  have hx : 'x'.utf8Size = 1 := rfl
  simp [sliceFrom, h, dropBytes, hzero, hx]

/-- The character is a hexadecimal digit, of either case. -/
def IsHexDigit (c : Char) : Prop :=
  ('0' ≤ c ∧ c ≤ '9') ∨ ('A' ≤ c ∧ c ≤ 'F') ∨ ('a' ≤ c ∧ c ≤ 'f')

instance : DecidablePred IsHexDigit := fun _ => inferInstanceAs (Decidable (_ ∨ _ ∨ _))

/-- In lower case, the code of a character is in lower case. -/
theorem toNat_toLower (c : Char) : c.toLower.toNat = lower c.toNat := by
  have hupper : (c.val ≥ 'A'.val ∧ c.val ≤ 'Z'.val) ↔ 65 ≤ c.toNat ∧ c.toNat ≤ 90 := Iff.rfl
  unfold Char.toLower lower
  by_cases h : 65 ≤ c.toNat ∧ c.toNat ≤ 90
  · rw [dif_pos (hupper.mpr h), if_pos h]
    change (c.val + 32).toNat = c.val.toNat + 32
    have hle : c.val.toNat ≤ 90 := h.2
    rw [UInt32.toNat_add]
    change (c.val.toNat + 32) % 2 ^ 32 = c.val.toNat + 32
    omega
  · rw [dif_neg (mt hupper.mp h), if_neg h]

/-! ## Integers -/

/-- `IntErrorKind`, as far as an unsigned integer has them. -/
inductive IntErrorKind
  /-- There is no text. -/
  | empty
  /-- A character is no digit. -/
  | invalidDigit
  /-- The number is too large. -/
  | posOverflow
  deriving DecidableEq, Repr

/-- The text of a `ParseIntError`. -/
def IntErrorKind.display : IntErrorKind → String
  | .empty => "cannot parse integer from empty string"
  | .invalidDigit => "invalid digit found in string"
  | .posOverflow => "number too large to fit in target type"

/-- `to_digit(16)`. -/
def toDigit (c : UInt8) : Option U64 :=
  if IsDigit c.toNat then some (BitVec.ofNat 64 (digitValue c.toNat)) else none

/-- `checked_mul`. -/
def checkedMul (a b : U64) : Option U64 :=
  if a.toNat * b.toNat < 2 ^ 64 then some (a * b) else none

/-- `checked_add`. -/
def checkedAdd (a b : U64) : Option U64 :=
  if a.toNat + b.toNat < 2 ^ 64 then some (a + b) else none

/-- The digits of `u64::from_str_radix(_, 16)`, one after another. -/
def fromStrRadixDigits (result : U64) : List UInt8 → Except IntErrorKind U64
  | [] => .ok result
  | c :: digits =>
    let mul := checkedMul result 16
    match toDigit c with
    | none => .error .invalidDigit
    | some x =>
      match mul.bind (checkedAdd · x) with
      | none => .error .posOverflow
      | some result => fromStrRadixDigits result digits

/-- `u64::from_str_radix(src, 16)`. A plus sign may stand before the digits. -/
def fromStrRadix (src : String) : Except IntErrorKind U64 :=
  match asBytes src with
  | [] => .error .empty
  | [c] => if c = 0x2b ∨ c = 0x2d then .error .invalidDigit else fromStrRadixDigits 0 [c]
  | c :: rest => if c = 0x2b then fromStrRadixDigits 0 rest else fromStrRadixDigits 0 (c :: rest)

section

variable {result n : U64} {c : UInt8} {digits : List UInt8}

/-- A digit is appended to a number if the result fits. -/
theorem checkedMul_bind_checkedAdd (result x : U64) :
    (checkedMul result 16).bind (checkedAdd · x) =
      if 16 * result.toNat + x.toNat < 2 ^ 64
      then some (BitVec.ofNat 64 (16 * result.toNat + x.toNat)) else none := by
  have hprod : (result * 16).toNat = 16 * result.toNat % 2 ^ 64 := by
    rw [BitVec.toNat_mul, Nat.mul_comm]
    rfl
  have hbase : result.toNat * (16 : U64).toNat = 16 * result.toNat := Nat.mul_comm _ 16
  rw [checkedMul, hbase]
  by_cases hmul : 16 * result.toNat < 2 ^ 64
  · rw [if_pos hmul, Option.bind_some, checkedAdd, hprod, Nat.mod_eq_of_lt hmul]
    have hsum : result * 16 + x = BitVec.ofNat 64 (16 * result.toNat + x.toNat) := by
      apply BitVec.eq_of_toNat_eq
      rw [BitVec.toNat_add, hprod, Nat.mod_eq_of_lt hmul, BitVec.toNat_ofNat]
    rw [hsum]
  · rw [if_neg hmul, if_neg (by omega)]
    rfl

/-- A further digit is refused, or it overflows, or it is appended to the number. -/
theorem fromStrRadixDigits_cons : fromStrRadixDigits result (c :: digits) =
    if IsDigit c.toNat then
      if 16 * result.toNat + digitValue c.toNat < 2 ^ 64
      then fromStrRadixDigits (BitVec.ofNat 64 (16 * result.toNat + digitValue c.toNat)) digits
      else .error .posOverflow
    else .error .invalidDigit := by
  rw [fromStrRadixDigits, toDigit]
  by_cases hd : IsDigit c.toNat
  · have hv := hd.digitValue_lt
    have hx : (BitVec.ofNat 64 (digitValue c.toNat)).toNat = digitValue c.toNat := by
      rw [BitVec.toNat_ofNat]
      omega
    rw [if_pos hd, if_pos hd]
    by_cases hfit : 16 * result.toNat + digitValue c.toNat < 2 ^ 64
    · simp only [checkedMul_bind_checkedAdd, hx, if_pos hfit]
    · simp only [checkedMul_bind_checkedAdd, hx, if_neg hfit]
  · rw [if_neg hd, if_neg hd]

/-- Digits are read exactly when they are hexadecimal, and as their value if it fits. -/
theorem fromStrRadixDigits_eq_ok_iff : fromStrRadixDigits result digits = .ok n ↔
    (∀ b ∈ digits, IsDigit b.toNat) ∧ value result.toNat (digits.map UInt8.toNat) = n.toNat := by
  induction digits generalizing result with
  | nil =>
    simp only [fromStrRadixDigits, Except.ok.injEq, List.not_mem_nil, false_imp_iff,
      implies_true, true_and, List.map_nil, value, List.foldl_nil]
    exact BitVec.toNat_inj.symm
  | cons c digits ih =>
    rw [fromStrRadixDigits_cons, List.forall_mem_cons, List.map_cons, value_cons]
    by_cases hd : IsDigit c.toNat
    · rw [if_pos hd]
      by_cases hfit : 16 * result.toNat + digitValue c.toNat < 2 ^ 64
      · have hnext : (BitVec.ofNat 64 (16 * result.toNat + digitValue c.toNat)).toNat =
            16 * result.toNat + digitValue c.toNat := by
          rw [BitVec.toNat_ofNat, Nat.mod_eq_of_lt hfit]
        rw [if_pos hfit, ih, hnext]
        simp only [hd, true_and]
      · -- the value only grows from here on
        have hle := le_value (16 * result.toNat + digitValue c.toNat) (digits.map UInt8.toNat)
        have hn := n.isLt
        rw [if_neg hfit]
        refine iff_of_false (by simp) ?_
        rintro ⟨_, hvalue⟩
        omega
    · rw [if_neg hd]
      simp [hd]

/-- A text of digits is read as its value. -/
theorem fromStrRadixDigits_utf8 {text : List Char} : fromStrRadixDigits result (utf8 text) = .ok n ↔
    (∀ c ∈ text, IsDigit c.toNat) ∧ value result.toNat (text.map Char.toNat) = n.toNat := by
  rw [fromStrRadixDigits_eq_ok_iff, forall_mem_utf8_iff fun _ => IsDigit.lt_128]
  refine and_congr_right fun hdigits => ?_
  rw [map_toNat_utf8 fun c hc => (hdigits c hc).lt_128]

end

/-- The text is a number in hexadecimal digits. -/
def IsNumeral (text : List Char) (n : U64) : Prop :=
  text ≠ [] ∧ (∀ c ∈ text, IsHexDigit c) ∧ value 0 (text.map Char.toNat) = n.toNat

/-- A sign is no digit. -/
theorem not_isNumeral_sign (text : List Char) (n : U64) : ¬ IsNumeral ('+' :: text) n := by
  rintro ⟨_, hdigits, _⟩
  exact absurd (hdigits '+' List.mem_cons_self) (by decide)

/-- The digits are read that follow a plus sign, or all bytes if it is alone or missing. -/
theorem fromStrRadix_of_asBytes {src : String} {b : UInt8} {rest : List UInt8}
    (h : asBytes src = b :: rest) : fromStrRadix src =
      if b = 0x2b ∧ rest ≠ [] then fromStrRadixDigits 0 rest
      else fromStrRadixDigits 0 (b :: rest) := by
  unfold fromStrRadix
  rw [h]
  cases rest with
  | nil =>
    rw [if_neg fun hsign => hsign.2 rfl]
    by_cases hsign : b = 0x2b ∨ b = 0x2d
    · rcases hsign with rfl | rfl
      · rfl
      · rfl
    · exact if_neg hsign
  | cons b' rest =>
    by_cases hplus : b = 0x2b
    · rw [if_pos ⟨hplus, List.cons_ne_nil b' rest⟩]
      exact if_pos hplus
    · rw [if_neg fun hsign => hplus hsign.1]
      exact if_neg hplus

/-- Only a plus sign starts with its byte. -/
theorem exists_utf8_cons (c : Char) (text : List Char) :
    ∃ b rest, utf8 (c :: text) = b :: rest ∧ (c ≠ '+' → b ≠ 0x2b) := by
  by_cases hc : c.toNat < 128
  · refine ⟨UInt8.ofNat c.toNat, utf8 text, by rw [utf8_cons, utf8EncodeChar_of_lt hc]; rfl, ?_⟩
    intro hne hb
    have hcode := congrArg UInt8.toNat hb
    rw [UInt8.toNat_ofNat', Nat.mod_eq_of_lt (by omega)] at hcode
    exact hne (Char.toNat_inj.mp hcode)
  · obtain ⟨b, rest, hb, hle⟩ := utf8EncodeChar_of_le (Nat.le_of_not_lt hc)
    refine ⟨b, rest ++ utf8 text, by rw [utf8_cons, hb]; rfl, ?_⟩
    rintro _ rfl
    exact absurd hle (by decide)

/-- The characters are read that follow a plus sign, or all of them if it is alone or missing. -/
theorem fromStrRadix_cons {src : String} {c : Char} {text : List Char}
    (h : src.toList = c :: text) : fromStrRadix src =
      if c = '+' ∧ text ≠ [] then fromStrRadixDigits 0 (utf8 text)
      else fromStrRadixDigits 0 (utf8 (c :: text)) := by
  have hbytes : asBytes src = utf8 (c :: text) := congrArg utf8 h
  by_cases hplus : c = '+'
  · subst hplus
    have hempty : utf8 text ≠ [] ↔ text ≠ [] := by
      cases text with
      | nil => exact iff_of_false (fun hne => hne rfl) fun hne => hne rfl
      | cons c text =>
        obtain ⟨b, rest, hb, _⟩ := exists_utf8_cons c text
        rw [hb]
        exact iff_of_true (List.cons_ne_nil b rest) (List.cons_ne_nil c text)
    have hplus : utf8 ('+' :: text) = 0x2b :: utf8 text := rfl
    rw [hplus] at hbytes ⊢
    rw [fromStrRadix_of_asBytes hbytes]
    simp only [hempty, true_and]
  · obtain ⟨b, rest, hb, hne⟩ := exists_utf8_cons c text
    rw [hb] at hbytes ⊢
    rw [fromStrRadix_of_asBytes hbytes, if_neg fun hsign => hne hplus hsign.1,
      if_neg fun hsign => hplus hsign.1]

/-- An integer is read exactly from its digits, with or without a plus sign. -/
theorem fromStrRadix_eq_ok_iff {src : String} {n : U64} :
    fromStrRadix src = .ok n ↔
      IsNumeral src.toList n ∨ ∃ digits, src.toList = '+' :: digits ∧ IsNumeral digits n := by
  cases htext : src.toList with
  | nil =>
    have hempty : fromStrRadix src = .error .empty := by
      unfold fromStrRadix asBytes
      rw [htext]
      rfl
    simp [hempty, IsNumeral]
  | cons c text =>
    rw [fromStrRadix_cons htext]
    by_cases hplus : c = '+' ∧ text ≠ []
    · obtain ⟨rfl, hne⟩ := hplus
      rw [if_pos ⟨rfl, hne⟩, fromStrRadixDigits_utf8]
      constructor
      · rintro ⟨hdigits, hvalue⟩
        exact Or.inr ⟨text, rfl, hne, hdigits, hvalue⟩
      · rintro (hnum | ⟨digits, heq, _, hdigits, hvalue⟩)
        · exact absurd hnum (not_isNumeral_sign text n)
        · cases heq
          exact ⟨hdigits, hvalue⟩
    · rw [if_neg hplus, fromStrRadixDigits_utf8]
      constructor
      · rintro ⟨hdigits, hvalue⟩
        exact Or.inl ⟨List.cons_ne_nil c text, hdigits, hvalue⟩
      · rintro (⟨_, hdigits, hvalue⟩ | ⟨digits, heq, hne, _⟩)
        · exact ⟨hdigits, hvalue⟩
        · cases heq
          exact absurd ⟨rfl, hne⟩ hplus

/-! ## Bytes -/

/-- `FromHexError`, as far as decoding into a vector has it. -/
inductive FromHexError
  /-- A character is no digit. -/
  | invalidHexCharacter (c : UInt8) (index : Nat)
  /-- A digit is left over. -/
  | oddLength
  deriving DecidableEq, Repr

/-- `val`: the value of the digit at an index. -/
def hexVal (c : UInt8) (index : Nat) : Except FromHexError UInt8 :=
  if IsDigit c.toNat then .ok (UInt8.ofNat (digitValue c.toNat))
  else .error (.invalidHexCharacter c index)

/-- The pairs of digits, from the pair at an index on. -/
def hexDecodePairs (i : Nat) : List UInt8 → Except FromHexError (List UInt8)
  | c₀ :: c₁ :: rest => do
    let high ← hexVal c₀ (2 * i)
    let low ← hexVal c₁ (2 * i + 1)
    let bytes ← hexDecodePairs (i + 1) rest
    return (high <<< 4 ||| low) :: bytes
  | _ => .ok []

/-- `hex::decode`. -/
def hexDecode (data : List UInt8) : Except FromHexError (List UInt8) :=
  if data.length % 2 ≠ 0 then .error .oddLength else hexDecodePairs 0 data

/-- `hex::encode`. -/
def hexEncode (data : List UInt8) : String :=
  String.ofList ((encode (data.map UInt8.toNat)).map Char.ofNat)

/-- The byte of two digits. -/
theorem toNat_shiftLeft_or {high low : Nat} (hh : high < 16) (hl : low < 16) :
    (UInt8.ofNat high <<< 4 ||| UInt8.ofNat low).toNat = 16 * high + low := by
  have hor : high <<< 4 + low = high <<< 4 ||| low := Nat.shiftLeft_add_eq_or_of_lt hl high
  have hshift : (UInt8.ofNat high <<< 4).toNat = high <<< 4 := by
    rw [UInt8.toNat_shiftLeft, UInt8.toNat_ofNat', Nat.shiftLeft_eq, Nat.shiftLeft_eq]
    change high % 256 * 16 % 256 = high * 16
    omega
  rw [UInt8.toNat_or, hshift, UInt8.toNat_ofNat', Nat.mod_eq_of_lt (by omega), ← hor,
    Nat.shiftLeft_eq]
  omega

/-- A pair is decoded if both digits and all further pairs are. -/
theorem hexDecodePairs_eq_ok_cons {i : Nat} {c₀ c₁ : UInt8} {rest bytes : List UInt8} :
    hexDecodePairs i (c₀ :: c₁ :: rest) = .ok bytes ↔ IsDigit c₀.toNat ∧ IsDigit c₁.toNat ∧
      ∃ later, hexDecodePairs (i + 1) rest = .ok later ∧
        bytes = UInt8.ofNat (16 * digitValue c₀.toNat + digitValue c₁.toNat) :: later := by
  rw [hexDecodePairs, hexVal, hexVal]
  by_cases h₀ : IsDigit c₀.toNat
  · by_cases h₁ : IsDigit c₁.toNat
    · have hbyte : UInt8.ofNat (digitValue c₀.toNat) <<< 4 ||| UInt8.ofNat (digitValue c₁.toNat) =
          UInt8.ofNat (16 * digitValue c₀.toNat + digitValue c₁.toNat) := by
        rw [← toNat_shiftLeft_or h₀.digitValue_lt h₁.digitValue_lt, UInt8.ofNat_toNat]
      rw [if_pos h₀, if_pos h₁]
      cases hexDecodePairs (i + 1) rest with
      | error e => simp [bind, Except.bind]
      | ok later => simp [h₀, h₁, hbyte, bind, Except.bind, pure, Except.pure, eq_comm]
    · simp [h₀, h₁, bind, Except.bind]
  · simp [h₀, bind, Except.bind]

/-- Pairs of digits are decoded exactly when they are hexadecimal, and into the bytes that are
written in these digits. -/
theorem hexDecodePairs_eq_ok_iff {i : Nat} {data bytes : List UInt8}
    (heven : data.length % 2 = 0) :
    hexDecodePairs i data = .ok bytes ↔ (∀ b ∈ data, IsDigit b.toNat) ∧
      encode (bytes.map UInt8.toNat) = (data.map UInt8.toNat).map lower := by
  induction data using List.twoStepInduction generalizing i bytes with
  | nil =>
    cases bytes with
    | nil => simp [hexDecodePairs]
    | cons byte bytes => simp [hexDecodePairs]
  | singleton c => simp at heven
  | cons_cons c₀ c₁ rest ih _ =>
    have hrest : rest.length % 2 = 0 := by
      simp only [List.length_cons] at heven
      omega
    rw [hexDecodePairs_eq_ok_cons, List.forall_mem_cons, List.forall_mem_cons, and_assoc, and_assoc]
    refine and_congr_right fun h₀ => and_congr_right fun h₁ => ?_
    have hv₀ := h₀.digitValue_lt
    have hv₁ := h₁.digitValue_lt
    constructor
    · rintro ⟨later, hlater, rfl⟩
      obtain ⟨hdigits, hcodes⟩ := (ih hrest).mp hlater
      have hbyte : (UInt8.ofNat (16 * digitValue c₀.toNat + digitValue c₁.toNat)).toNat =
          16 * digitValue c₀.toNat + digitValue c₁.toNat := by
        rw [UInt8.toNat_ofNat']
        omega
      refine ⟨hdigits, ?_⟩
      rw [List.map_cons, hbyte, encode_cons, hcodes, List.map_cons, List.map_cons, List.map_cons,
        List.map_cons, ← h₀.digit_digitValue, ← h₁.digit_digitValue]
      congr 2
      · omega
      · congr 1
        omega
    · rintro ⟨hdigits, hcodes⟩
      cases bytes with
      | nil => simp at hcodes
      | cons byte later =>
        rw [List.map_cons, encode_cons, List.map_cons, List.map_cons, List.map_cons,
          List.map_cons, ← h₀.digit_digitValue, ← h₁.digit_digitValue, List.cons.injEq,
          List.cons.injEq] at hcodes
        obtain ⟨hhigh, hlow, hlater⟩ := hcodes
        have hlt := byte.toNat_lt
        have hdiv := congrArg digitValue hhigh
        have hmod := congrArg digitValue hlow
        rw [digitValue_digit (by omega), digitValue_digit hv₀] at hdiv
        rw [digitValue_digit (by omega), digitValue_digit hv₁] at hmod
        refine ⟨later, (ih hrest).mpr ⟨hdigits, hlater⟩, ?_⟩
        rw [← hdiv, ← hmod, Nat.div_add_mod, UInt8.ofNat_toNat]

/-- Only an even number of bytes is decoded. -/
theorem even_of_hexDecode {data bytes : List UInt8} (h : hexDecode data = .ok bytes) :
    data.length % 2 = 0 := by
  by_contra hodd
  rw [hexDecode, if_pos hodd] at h
  cases h

/-- A text is decoded exactly when it consists of digits, an even number of them, and into the
bytes that are written in these digits in lower case. -/
theorem hexDecode_eq_ok_iff {data bytes : List UInt8} :
    hexDecode data = .ok bytes ↔ (∀ b ∈ data, IsDigit b.toNat) ∧
      encode (bytes.map UInt8.toNat) = (data.map UInt8.toNat).map lower := by
  rw [hexDecode]
  by_cases heven : data.length % 2 = 0
  · rw [if_neg (not_not_intro heven), hexDecodePairs_eq_ok_iff heven]
  · rw [if_pos heven]
    refine iff_of_false (by simp) ?_
    rintro ⟨_, hcodes⟩
    have hlength := congrArg List.length hcodes
    rw [length_encode, List.length_map, List.length_map, List.length_map] at hlength
    omega

end Tethereum
