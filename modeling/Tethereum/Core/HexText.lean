import Mathlib.Data.List.Induction
import Mathlib.Data.Nat.Digits.Lemmas

/-!
# Hexadecimal text

Digits are told by their character codes. A number is read from its digits most
significant first; a byte is written as two lower-case digits. In UTF-8 a text
whose bytes are all digits consists of digits, since every other character has a
byte that is no ASCII code.
-/

namespace HexText

/-- The codes of the hexadecimal digits, of either case. -/
def IsDigit (code : Nat) : Prop :=
  (48 ≤ code ∧ code ≤ 57) ∨ (65 ≤ code ∧ code ≤ 70) ∨ (97 ≤ code ∧ code ≤ 102)

instance : DecidablePred IsDigit := fun _ => inferInstanceAs (Decidable (_ ∨ _ ∨ _))

/-- The value of a digit. -/
def digitValue (code : Nat) : Nat :=
  if code ≤ 57 then code - 48 else if code ≤ 70 then code - 55 else code - 87

/-- The lower-case digit of a value. -/
def digit (n : Nat) : Nat := if n < 10 then n + 48 else n + 87

/-- The lower-case code of a letter. -/
def lower (code : Nat) : Nat := if 65 ≤ code ∧ code ≤ 90 then code + 32 else code

/-- The number that further digits make of a number. -/
def value (n : Nat) (codes : List Nat) : Nat :=
  codes.foldl (fun n code => 16 * n + digitValue code) n

/-- The digits of a number, of which zero has one. -/
def numeral (n : Nat) : List Nat :=
  if n = 0 then [digit 0] else (Nat.digits 16 n).reverse.map digit

/-- The digits of bytes, two for each. -/
def encode (bytes : List Nat) : List Nat :=
  bytes.flatMap fun byte => [digit (byte / 16), digit (byte % 16)]

/-! ## Digits -/

variable {code n : Nat} {codes : List Nat}

/-- A digit is an ASCII code. -/
theorem IsDigit.lt_128 (h : IsDigit code) : code < 128 := by
  unfold IsDigit at h
  omega

/-- A digit is less than the base. -/
theorem IsDigit.digitValue_lt (h : IsDigit code) : digitValue code < 16 := by
  unfold IsDigit at h
  unfold digitValue
  split
  · omega
  split
  · omega
  · omega

/-- The digit of a value of a digit is that digit in lower case. -/
theorem IsDigit.digit_digitValue (h : IsDigit code) : digit (digitValue code) = lower code := by
  unfold IsDigit at h
  unfold digit digitValue lower
  split_ifs <;> omega

/-- What is written for a value is a digit. -/
theorem isDigit_digit (h : n < 16) : IsDigit (digit n) := by
  unfold IsDigit digit
  split
  · omega
  · omega

/-- What is written for a value has that value. -/
theorem digitValue_digit (h : n < 16) : digitValue (digit n) = n := by
  unfold digitValue digit
  split_ifs <;> omega

/-! ## Numbers -/

@[simp] theorem value_cons : value n (code :: codes) = value (16 * n + digitValue code) codes := rfl

/-- Further digits make no number smaller. -/
theorem le_value (n : Nat) (codes : List Nat) : n ≤ value n codes := by
  induction codes generalizing n with
  | nil => exact Nat.le_refl n
  | cons code codes ih =>
    have hstep := ih (16 * n + digitValue code)
    rw [value_cons]
    omega

/-- More digits are read after the others. -/
theorem value_append {codes' : List Nat} :
    value n (codes ++ codes') = value (value n codes) codes' :=
  List.foldl_append

/-- Digits that are written least significant last make the number of the digits. -/
theorem value_map_digit_reverse {digits : List Nat} (h : ∀ d ∈ digits, d < 16) :
    value 0 (digits.reverse.map digit) = Nat.ofDigits 16 digits := by
  induction digits with
  | nil => rfl
  | cons d digits ih =>
    obtain ⟨hd, hdigits⟩ := List.forall_mem_cons.mp h
    rw [List.reverse_cons, List.map_append, value_append, ih hdigits, List.map_singleton,
      value_cons, digitValue_digit hd, Nat.ofDigits_cons]
    exact Nat.add_comm _ _

/-- A number is read from its digits. -/
theorem value_numeral (n : Nat) : value 0 (numeral n) = n := by
  unfold numeral
  split
  · rename_i h
    rw [h]
    rfl
  · rw [value_map_digit_reverse fun d hd => Nat.digits_lt_base (by omega) hd, Nat.ofDigits_digits]

/-- A number is written in digits. -/
theorem isDigit_of_mem_numeral {n : Nat} : ∀ code ∈ numeral n, IsDigit code := by
  unfold numeral
  split
  · simp [isDigit_digit]
  · intro code hcode
    obtain ⟨d, hd, rfl⟩ := List.mem_map.mp hcode
    exact isDigit_digit (Nat.digits_lt_base (by omega) (List.mem_reverse.mp hd))

/-! ## Bytes -/

variable {bytes : List Nat}

@[simp] theorem encode_nil : encode [] = [] := rfl

@[simp] theorem encode_cons {byte : Nat} :
    encode (byte :: bytes) = digit (byte / 16) :: digit (byte % 16) :: encode bytes := rfl

/-- Two digits are written for each byte. -/
theorem length_encode : (encode bytes).length = 2 * bytes.length := by
  induction bytes with
  | nil => rfl
  | cons byte bytes ih =>
    rw [encode_cons, List.length_cons, List.length_cons, ih, List.length_cons]
    omega

/-- Bytes are written in digits. -/
theorem isDigit_of_mem_encode (h : ∀ byte ∈ bytes, byte < 256) :
    ∀ code ∈ encode bytes, IsDigit code := by
  induction bytes with
  | nil => simp
  | cons byte bytes ih =>
    obtain ⟨hbyte, hbytes⟩ := List.forall_mem_cons.mp h
    rw [encode_cons]
    exact List.forall_mem_cons.mpr ⟨isDigit_digit (by omega),
      List.forall_mem_cons.mpr ⟨isDigit_digit (by omega), ih hbytes⟩⟩

/-- A lower-case digit stays as it is. -/
theorem lower_digit (h : n < 16) : lower (digit n) = digit n := by
  rw [← (isDigit_digit h).digit_digitValue, digitValue_digit h]

/-- The digits of bytes are in lower case. -/
theorem map_lower_encode (h : ∀ byte ∈ bytes, byte < 256) :
    (encode bytes).map lower = encode bytes := by
  induction bytes with
  | nil => rfl
  | cons byte bytes ih =>
    obtain ⟨hbyte, hbytes⟩ := List.forall_mem_cons.mp h
    rw [encode_cons, List.map_cons, List.map_cons, ih hbytes, lower_digit (by omega),
      lower_digit (by omega)]

/-- An even number of digits writes some bytes. -/
theorem exists_encode (hdigits : ∀ code ∈ codes, IsDigit code) (heven : codes.length % 2 = 0) :
    ∃ bytes : List UInt8, encode (bytes.map UInt8.toNat) = codes.map lower := by
  induction codes using List.twoStepInduction with
  | nil => exact ⟨[], rfl⟩
  | singleton code => simp at heven
  | cons_cons high low codes ih _ =>
    simp only [List.forall_mem_cons] at hdigits
    obtain ⟨hhigh, hlow, hcodes⟩ := hdigits
    have hv₀ := hhigh.digitValue_lt
    have hv₁ := hlow.digitValue_lt
    have heven' : codes.length % 2 = 0 := by
      simp only [List.length_cons] at heven
      omega
    obtain ⟨bytes, hbytes⟩ := ih hcodes heven'
    refine ⟨UInt8.ofNat (16 * digitValue high + digitValue low) :: bytes, ?_⟩
    have hbyte : (UInt8.ofNat (16 * digitValue high + digitValue low)).toNat =
        16 * digitValue high + digitValue low := by
      rw [UInt8.toNat_ofNat']
      omega
    have hdiv : (16 * digitValue high + digitValue low) / 16 = digitValue high := by omega
    have hmod : (16 * digitValue high + digitValue low) % 16 = digitValue low := by omega
    rw [List.map_cons, hbyte, encode_cons, hdiv, hmod, hbytes, hhigh.digit_digitValue,
      hlow.digit_digitValue]
    rfl

/-! ## Text in UTF-8 -/

/-- The bytes of a text in UTF-8. -/
def utf8 (text : List Char) : List UInt8 := text.flatMap String.utf8EncodeChar

variable {c : Char} {text : List Char}

@[simp] theorem utf8_nil : utf8 [] = [] := rfl

@[simp] theorem utf8_cons : utf8 (c :: text) = String.utf8EncodeChar c ++ utf8 text := rfl

/-- An ASCII character is its own byte. -/
theorem utf8EncodeChar_of_lt (h : c.toNat < 128) :
    String.utf8EncodeChar c = [UInt8.ofNat c.toNat] :=
  if_pos (Nat.le_of_lt_succ h)

/-- Every other character starts with a byte that is no ASCII code. -/
theorem utf8EncodeChar_of_le (h : 128 ≤ c.toNat) :
    ∃ b rest, String.utf8EncodeChar c = b :: rest ∧ 128 ≤ b.toNat := by
  have hone : ¬ c.val.toNat ≤ 127 := Nat.not_le.mpr h
  unfold String.utf8EncodeChar
  simp only [hone, if_false]
  split
  · refine ⟨_, _, rfl, ?_⟩
    rw [UInt8.toNat_ofNat']
    omega
  split
  · refine ⟨_, _, rfl, ?_⟩
    rw [UInt8.toNat_ofNat']
    omega
  · refine ⟨_, _, rfl, ?_⟩
    rw [UInt8.toNat_ofNat']
    omega

/-- A property of ASCII codes holds of all bytes if it holds of all characters. -/
theorem forall_mem_utf8_iff {P : Nat → Prop} (hP : ∀ code, P code → code < 128) :
    (∀ b ∈ utf8 text, P b.toNat) ↔ ∀ c ∈ text, P c.toNat := by
  induction text with
  | nil => simp
  | cons c text ih =>
    have hchar : (∀ b ∈ String.utf8EncodeChar c, P b.toNat) ↔ P c.toNat := by
      by_cases h : c.toNat < 128
      · have hbyte : (UInt8.ofNat c.toNat).toNat = c.toNat := by
          rw [UInt8.toNat_ofNat']
          omega
        simp only [utf8EncodeChar_of_lt h, List.mem_singleton, forall_eq, hbyte]
      · obtain ⟨b, rest, hb, hle⟩ := utf8EncodeChar_of_le (Nat.le_of_not_lt h)
        rw [hb]
        exact iff_of_false (fun hall => absurd (hP _ (hall b List.mem_cons_self))
          (Nat.not_lt.mpr hle)) fun hc => h (hP _ hc)
    simp only [utf8_cons, List.mem_append, or_imp, forall_and, hchar, ih, List.forall_mem_cons]

/-- An ASCII code is the code of a character. -/
theorem toNat_ofNat_of_lt (h : code < 128) : (Char.ofNat code).toNat = code := by
  have hvalid : code.isValidChar := Or.inl (by omega)
  rw [Char.ofNat, dif_pos hvalid]
  rfl

/-- The bytes of an ASCII text are the codes of its characters. -/
theorem map_toNat_utf8 (h : ∀ c ∈ text, c.toNat < 128) :
    (utf8 text).map UInt8.toNat = text.map Char.toNat := by
  induction text with
  | nil => rfl
  | cons c text ih =>
    obtain ⟨hc, htext⟩ := List.forall_mem_cons.mp h
    have hbyte : (UInt8.ofNat c.toNat).toNat = c.toNat := by
      rw [UInt8.toNat_ofNat']
      omega
    rw [utf8_cons, utf8EncodeChar_of_lt hc, List.map_append, ih htext, List.map_cons,
      List.map_cons, hbyte]
    rfl

end HexText
