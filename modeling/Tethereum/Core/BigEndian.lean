import Mathlib.Data.Nat.Digits.Lemmas

/-!
# Big-endian numerals

A natural number is written as its base-256 digits, most significant first.
`toBytes` is the minimal numeral, without a leading zero; `toBytesFixed` pads
it to a prescribed width. `ofBytes` reads either back, and a numeral without a
leading zero is recovered from its value.
-/

namespace BigEndian

/-- The value of a big-endian numeral. -/
def ofBytes (bs : List UInt8) : Nat :=
  bs.foldl (fun n b => n * 256 + b.toNat) 0

/-- The minimal big-endian numeral of `n`; zero is the empty numeral. -/
def toBytes (n : Nat) : List UInt8 :=
  (Nat.digits 256 n).reverse.map UInt8.ofNat

/-- The numeral of `n` padded on the left to `width` bytes. -/
def toBytesFixed (width n : Nat) : List UInt8 :=
  List.replicate (width - (toBytes n).length) 0 ++ toBytes n

@[simp] theorem ofBytes_nil : ofBytes [] = 0 := rfl

@[simp] theorem toBytes_zero : toBytes 0 = [] := by simp [toBytes]

/-- Reading is Mathlib's digit evaluation of the reversed numeral. -/
theorem ofBytes_eq_ofDigits (bs : List UInt8) :
    ofBytes bs = Nat.ofDigits 256 (bs.reverse.map UInt8.toNat) := by
  rw [ofBytes, List.foldl_eq_foldr_reverse, Nat.ofDigits_eq_foldr, List.foldr_map]
  congr 1
  funext b n
  simp only [Nat.cast_id]
  omega

/-- Every digit byte is below the base. -/
theorem toNat_lt_base (bs : List UInt8) : ∀ d ∈ bs.map UInt8.toNat, d < 256 := by
  intro d hd
  obtain ⟨b, _, rfl⟩ := List.mem_map.mp hd
  exact b.toNat_lt

/-- The bytes of a numeral carry exactly its digits. -/
theorem map_toNat_toBytes (n : Nat) :
    (toBytes n).map UInt8.toNat = (Nat.digits 256 n).reverse := by
  rw [toBytes, List.map_map]
  conv_rhs => rw [← List.map_id (Nat.digits 256 n).reverse]
  apply List.map_congr_left
  intro d hd
  have hlt : d < 256 := Nat.digits_lt_base Nat.one_lt_ofNat (List.mem_reverse.mp hd)
  simp only [Function.comp_apply, UInt8.toNat_ofNat', id_eq]
  exact Nat.mod_eq_of_lt hlt

/-- A number is the value of its minimal numeral. -/
@[simp] theorem ofBytes_toBytes (n : Nat) : ofBytes (toBytes n) = n := by
  rw [ofBytes_eq_ofDigits, List.map_reverse, map_toNat_toBytes, List.reverse_reverse,
    Nat.ofDigits_digits]

/-- Distinct numbers have distinct minimal numerals. -/
theorem toBytes_injective : Function.Injective toBytes :=
  Function.LeftInverse.injective ofBytes_toBytes

/-- A numeral without a leading zero is the minimal numeral of its value. -/
theorem toBytes_ofBytes {bs : List UInt8} (h : bs.head? ≠ some 0) :
    toBytes (ofBytes bs) = bs := by
  have hd : Nat.digits 256 (ofBytes bs) = bs.reverse.map UInt8.toNat := by
    rw [ofBytes_eq_ofDigits]
    apply Nat.digits_ofDigits 256 Nat.one_lt_ofNat _ (toNat_lt_base bs.reverse)
    intro hne hz
    rw [List.getLast_map, List.getLast_reverse] at hz
    apply h
    rw [List.head?_eq_some_head (by simpa using hne)]
    exact congrArg some (UInt8.toNat_inj.mp (by simpa using hz))
  rw [toBytes, hd, ← List.map_reverse, List.reverse_reverse, List.map_map]
  conv_rhs => rw [← List.map_id bs]
  apply List.map_congr_left
  intro b _
  simp

/-- The minimal numeral never starts with a zero byte. -/
theorem head?_toBytes_ne_zero (n : Nat) : (toBytes n).head? ≠ some 0 := by
  rcases Nat.eq_zero_or_pos n with rfl | hn
  · simp
  · intro h
    have hz := Nat.getLast_digit_ne_zero 256 (Nat.pos_iff_ne_zero.mp hn)
    have hm := congrArg List.head? (map_toNat_toBytes n)
    rw [List.head?_map, h, List.head?_reverse, List.getLast?_eq_getLast_of_ne_nil
      (Nat.digits_ne_nil_iff_ne_zero.mpr (Nat.pos_iff_ne_zero.mp hn))] at hm
    exact hz (Option.some.inj hm).symm

/-- The minimal numeral of `n` has at most `width` bytes exactly below `256 ^ width`. -/
theorem length_toBytes_le_iff {n width : Nat} :
    (toBytes n).length ≤ width ↔ n < 256 ^ width := by
  rw [toBytes, List.length_map, List.length_reverse]
  exact Nat.digits_length_le_iff Nat.one_lt_ofNat n

/-- Only zero has the empty numeral. -/
theorem toBytes_eq_nil_iff {n : Nat} : toBytes n = [] ↔ n = 0 := by
  rw [← toBytes_zero, toBytes_injective.eq_iff]

/-- A numeral is bounded by its width. -/
theorem ofBytes_lt (bs : List UInt8) : ofBytes bs < 256 ^ bs.length := by
  have h := Nat.ofDigits_lt_base_pow_length (b := 256) Nat.one_lt_ofNat (toNat_lt_base bs.reverse)
  simpa only [ofBytes_eq_ofDigits, List.length_map, List.length_reverse] using h

/-- Leading zero bytes do not change the value. -/
theorem ofBytes_replicate_zero_append (k : Nat) (bs : List UInt8) :
    ofBytes (List.replicate k 0 ++ bs) = ofBytes bs := by
  induction k with
  | zero => rfl
  | succ k ih => simpa [ofBytes, List.replicate_succ] using ih

/-- The padded numeral has its prescribed width whenever the number fits. -/
theorem length_toBytesFixed {width n : Nat} (h : n < 256 ^ width) :
    (toBytesFixed width n).length = width := by
  have hl := length_toBytes_le_iff.mpr h
  simp only [toBytesFixed, List.length_append, List.length_replicate]
  omega

/-- Padding keeps the value. -/
@[simp] theorem ofBytes_toBytesFixed (width n : Nat) : ofBytes (toBytesFixed width n) = n := by
  rw [toBytesFixed, ofBytes_replicate_zero_append, ofBytes_toBytes]

/-- Numerals of one width are determined by their values. -/
theorem ofBytes_injective_of_length {as bs : List UInt8} (hl : as.length = bs.length)
    (h : ofBytes as = ofBytes bs) : as = bs := by
  rw [ofBytes_eq_ofDigits, ofBytes_eq_ofDigits] at h
  have hd := Nat.ofDigits_inj_of_len_eq Nat.one_lt_ofNat (by simpa using hl)
    (toNat_lt_base as.reverse) (toNat_lt_base bs.reverse) h
  exact List.reverse_injective (List.map_injective_iff.mpr (fun _ _ => UInt8.toNat_inj.mp) hd)

/-- A numeral of the prescribed width is recovered from its value. -/
theorem toBytesFixed_ofBytes (bs : List UInt8) :
    toBytesFixed bs.length (ofBytes bs) = bs :=
  ofBytes_injective_of_length (length_toBytesFixed (ofBytes_lt bs)) (by simp)

end BigEndian
