import Tethereum.Core.Rlp.View

/-!
# Headers, values and canonicity

A header that the reader accepts is the one the writer produces for the lengths
it announces, so byte strings and list headers have a single accepted form. A
written byte string is read back from any buffer that starts with it.
-/

namespace Rlp

/-- The two header families of the format. -/
def IsBase (base : Nat) : Prop := base = 0x80 ∨ base = 0xc0

/-- A size field of at most eight bytes holds every length below `2 ^ 64`. -/
theorem length_toBytes_le_eight {len : Nat} (h : len < 2 ^ 64) :
    (BigEndian.toBytes len).length ≤ 8 :=
  BigEndian.length_toBytes_le_iff.mpr (by omega)

/-- A non-zero length has a non-empty size field. -/
theorem length_toBytes_pos {len : Nat} (h : 0 < len) : 0 < (BigEndian.toBytes len).length := by
  apply List.length_pos_of_ne_nil
  rw [ne_eq, BigEndian.toBytes_eq_nil_iff]
  omega

/-- The header length is determined by the payload length. -/
theorem length_sizePrefix (base len : Nat) :
    (sizePrefix base len).length = if len ≤ 55 then 1 else 1 + (BigEndian.toBytes len).length := by
  unfold sizePrefix
  split
  · rfl
  · rw [List.length_cons, Nat.add_comm]

/-- A header is short. -/
theorem length_sizePrefix_le (base : Nat) {len : Nat} (h : len < 2 ^ 64) :
    (sizePrefix base len).length ≤ 9 := by
  have := length_toBytes_le_eight h
  rw [length_sizePrefix]
  split <;> omega

/-- Headers of one family announce different lengths by different bytes. -/
theorem decodeUsize_toBytes {len : Nat} (h : len < 2 ^ 64) :
    decodeUsize (BigEndian.toBytes len) = .ok len := by
  simp only [decodeUsize, length_toBytes_le_eight h, ite_true, BigEndian.head?_toBytes_ne_zero,
    ite_false, BigEndian.ofBytes_toBytes]

/-- An accepted size field is the minimal numeral of the length it holds. -/
theorem decodeUsize_eq_ok {bs : List UInt8} {len : Nat} (h : decodeUsize bs = .ok len) :
    BigEndian.toBytes len = bs ∧ bs.length ≤ 8 := by
  unfold decodeUsize at h
  split at h
  · rename_i hl
    split at h
    · contradiction
    · rename_i hz
      cases h
      exact ⟨BigEndian.toBytes_ofBytes hz, hl⟩
  · contradiction

/-- The long form of a header is read back. -/
theorem calculatePayloadInfo_cons (l : UInt8) {len : Nat} (hl : 55 < len) (h : len < 2 ^ 64)
    (payload : List UInt8) :
    calculatePayloadInfo (l :: BigEndian.toBytes len ++ payload) (BigEndian.toBytes len).length =
      .ok ⟨1 + (BigEndian.toBytes len).length, len⟩ := by
  have hpos := length_toBytes_pos (show 0 < len by omega)
  have hz := BigEndian.head?_toBytes_ne_zero len
  obtain ⟨d, ds, hd⟩ := List.exists_cons_of_length_pos hpos
  have hd0 : d ≠ 0 := by
    intro he
    exact hz (by rw [hd, he]; rfl)
  have hu := decodeUsize_toBytes h
  have htake : (((l :: BigEndian.toBytes len ++ payload).drop 1).take
      (BigEndian.toBytes len).length) = BigEndian.toBytes len := by simp
  have hget : (l :: BigEndian.toBytes len ++ payload)[1]? = some d := by simp [hd]
  have hlen : ¬ (l :: BigEndian.toBytes len ++ payload).length <
      1 + (BigEndian.toBytes len).length := by simp; omega
  unfold calculatePayloadInfo
  rw [hget]
  split
  · rename_i he
    exact absurd (Option.some.inj he) hd0
  · contradiction
  · simp only [hlen, ite_false, htake, hu, Nat.not_le.mpr hl]

/-- A literal byte is an item of its own, without a header. -/
theorem ofHeader_literal {l : UInt8} (h : l.toNat < 0x80) (tail : List UInt8) :
    PayloadInfo.ofHeader (l :: tail) = .ok ⟨0, 1⟩ := by
  simp only [PayloadInfo.ofHeader, UInt8.le_iff_toNat_le, UInt8.reduceToNat]
  rw [if_pos (by omega)]

/-- A short header announces its payload length in its first byte. -/
theorem ofHeader_short {base : Nat} (hb : IsBase base) {l : UInt8} (h1 : base ≤ l.toNat)
    (h2 : l.toNat ≤ base + 55) (tail : List UInt8) :
    PayloadInfo.ofHeader (l :: tail) = .ok ⟨1, l.toNat - base⟩ := by
  simp only [PayloadInfo.ofHeader, UInt8.le_iff_toNat_le, UInt8.reduceToNat]
  rcases hb with rfl | rfl
  · rw [if_neg (by omega), if_pos (by omega)]
  · rw [if_neg (by omega), if_neg (by omega), if_neg (by omega), if_pos (by omega)]

/-- A long header announces the size of its payload length in its first byte. -/
theorem ofHeader_long {base n : Nat} (hb : IsBase base) {l : UInt8}
    (hl : l.toNat = base + 55 + n) (h0 : 0 < n) (h8 : n ≤ 8) (tail : List UInt8) :
    PayloadInfo.ofHeader (l :: tail) = calculatePayloadInfo (l :: tail) n := by
  simp only [PayloadInfo.ofHeader, UInt8.le_iff_toNat_le, UInt8.reduceToNat]
  rcases hb with rfl | rfl
  · rw [if_neg (by omega), if_neg (by omega), if_pos (by omega),
      show l.toNat - 0xb7 = n by omega]
  · rw [if_neg (by omega), if_neg (by omega), if_neg (by omega), if_neg (by omega),
      show l.toNat - 0xf7 = n by omega]

/-- A first byte built from a family and a small number keeps its value. -/
theorem toNat_ofNat_base {base k : Nat} (hb : IsBase base) (hk : k ≤ 63) :
    (UInt8.ofNat (base + k)).toNat = base + k := by
  rw [UInt8.toNat_ofNat']
  rcases hb with rfl | rfl <;> omega

/-- The first byte of a header shows its family. -/
theorem sizePrefix_eq_cons {base len : Nat} (hb : IsBase base) (h : len < 2 ^ 64) :
    ∃ l tail, sizePrefix base len = l :: tail ∧ base ≤ l.toNat ∧ l.toNat ≤ base + 63 := by
  have h8 := length_toBytes_le_eight h
  unfold sizePrefix
  split
  · have ht := toNat_ofNat_base hb (show len ≤ 63 by omega)
    exact ⟨_, _, rfl, by omega, by omega⟩
  · have ht := toNat_ofNat_base hb (show 55 + (BigEndian.toBytes len).length ≤ 63 by omega)
    rw [← Nat.add_assoc] at ht
    exact ⟨_, _, rfl, by omega, by omega⟩

/-- Exactly the headers of the list family make a view a list. -/
theorem isList_sizePrefix {base len : Nat} (hb : IsBase base) (h : len < 2 ^ 64)
    (payload : List UInt8) (cache : Option OffsetCache) :
    View.isList { bytes := sizePrefix base len ++ payload, offsetCache := cache } =
      decide (base = 0xc0) := by
  obtain ⟨l, tail, hl, h1, h2⟩ := sizePrefix_eq_cons hb h
  simp only [View.isList, hl, List.cons_append, List.head?_cons, Option.any_some,
    UInt8.le_iff_toNat_le, UInt8.reduceToNat, decide_eq_decide]
  rcases hb with rfl | rfl <;> omega

/-- The reader recovers the lengths from the written header, whatever follows it. -/
theorem ofHeader_sizePrefix {base len : Nat} (hb : IsBase base) (h : len < 2 ^ 64)
    (payload : List UInt8) :
    PayloadInfo.ofHeader (sizePrefix base len ++ payload) =
      .ok ⟨(sizePrefix base len).length, len⟩ := by
  rw [length_sizePrefix]
  by_cases hl : len ≤ 55
  · have ht := toNat_ofNat_base hb (show len ≤ 63 by omega)
    simp only [sizePrefix, hl, ite_true, List.cons_append]
    rw [ofHeader_short hb (by omega) (by omega), ht, Nat.add_sub_cancel_left]
  · have h0 := length_toBytes_pos (show 0 < len by omega)
    have h8 := length_toBytes_le_eight h
    have ht := toNat_ofNat_base hb (show 55 + (BigEndian.toBytes len).length ≤ 63 by omega)
    rw [← Nat.add_assoc] at ht
    simp only [sizePrefix, hl, ite_false, List.cons_append]
    rw [ofHeader_long hb ht h0 h8, ← List.cons_append, calculatePayloadInfo_cons _ (by omega) h]

/-- The header of a fitting item is read back. -/
theorem payloadInfo_sizePrefix {base len : Nat} (hb : IsBase base) (h : len < 2 ^ 64)
    {payload : List UInt8} (hp : len ≤ payload.length) :
    payloadInfo (sizePrefix base len ++ payload) = .ok ⟨(sizePrefix base len).length, len⟩ := by
  have hfit : PayloadInfo.total ⟨(sizePrefix base len).length, len⟩ ≤
      (sizePrefix base len ++ payload).length := by
    simp only [PayloadInfo.total, List.length_append]
    omega
  simp only [payloadInfo, ofHeader_sizePrefix hb h, hfit, ite_true]

/-- An accepted long header is the written one. -/
theorem calculatePayloadInfo_eq_ok {l : UInt8} {tail : List UInt8} {base n : Nat}
    {info : PayloadInfo} (hl : l.toNat = base + 55 + n)
    (h : calculatePayloadInfo (l :: tail) n = .ok info) :
    info.valueLen < 2 ^ 64 ∧ info.headerLen = (sizePrefix base info.valueLen).length ∧
      ∃ payload, l :: tail = sizePrefix base info.valueLen ++ payload := by
  unfold calculatePayloadInfo at h
  split at h
  · contradiction
  · contradiction
  · split at h
    · contradiction
    · rename_i hlen
      split at h
      · contradiction
      · rename_i len hu
        split at h
        · contradiction
        · rename_i h55
          cases h
          simp only [List.drop_succ_cons, List.drop_zero] at hu
          simp only [List.length_cons] at hlen
          obtain ⟨hb, h8⟩ := decodeUsize_eq_ok hu
          have htake : (tail.take n).length = n := by rw [List.length_take]; omega
          have hpre : sizePrefix base len = l :: tail.take n := by
            simp only [sizePrefix, h55, ite_false, hb, htake, List.cons.injEq, and_true, ← hl]
            exact UInt8.ofNat_toNat
          refine ⟨?_, ?_, tail.drop n, ?_⟩
          · have h8' := BigEndian.length_toBytes_le_iff.mp (hb ▸ h8)
            omega
          · rw [hpre, List.length_cons, htake, Nat.add_comm]
          · rw [hpre, List.cons_append, List.take_append_drop]

/-- An accepted header is a single literal byte or the written header of its lengths. -/
theorem ofHeader_eq_ok {bs : List UInt8} {info : PayloadInfo}
    (h : PayloadInfo.ofHeader bs = .ok info) :
    (info = ⟨0, 1⟩ ∧ ∃ l tail, bs = l :: tail ∧ l < 0x80) ∨
      ∃ base, IsBase base ∧ info.valueLen < 2 ^ 64 ∧
        info.headerLen = (sizePrefix base info.valueLen).length ∧
        ∃ payload, bs = sizePrefix base info.valueLen ++ payload := by
  have short {l : UInt8} {tail : List UInt8} {base : Nat} (h1 : base ≤ l.toNat)
      (h2 : l.toNat - base ≤ 55) : l.toNat - base < 2 ^ 64 ∧
        1 = (sizePrefix base (l.toNat - base)).length ∧
        ∃ payload, l :: tail = sizePrefix base (l.toNat - base) ++ payload := by
    refine ⟨by omega, by simp [sizePrefix, h2], tail, ?_⟩
    simp only [sizePrefix, h2, ite_true, List.cons_append, List.nil_append, List.cons.injEq,
      and_true]
    rw [Nat.add_sub_of_le h1]
    exact UInt8.ofNat_toNat.symm
  cases bs with
  | nil => simp [PayloadInfo.ofHeader] at h
  | cons l tail =>
    have h256 := l.toNat_lt
    simp only [PayloadInfo.ofHeader, UInt8.le_iff_toNat_le, UInt8.reduceToNat] at h
    split at h
    · cases h
      exact Or.inl ⟨rfl, l, tail, rfl, by
        simp only [UInt8.lt_iff_toNat_lt, UInt8.reduceToNat]; omega⟩
    · right
      split at h
      · cases h
        exact ⟨0x80, Or.inl rfl, short (by omega) (by omega)⟩
      · split at h
        · exact ⟨0x80, Or.inl rfl, calculatePayloadInfo_eq_ok (by omega) h⟩
        · split at h
          · cases h
            exact ⟨0xc0, Or.inr rfl, short (by omega) (by omega)⟩
          · exact ⟨0xc0, Or.inr rfl, calculatePayloadInfo_eq_ok (by omega) h⟩

/-- Acceptance is an accepted header and a buffer that holds the whole item. -/
theorem payloadInfo_eq_ok_iff {bs : List UInt8} {info : PayloadInfo} :
    payloadInfo bs = .ok info ↔ PayloadInfo.ofHeader bs = .ok info ∧ info.total ≤ bs.length := by
  unfold payloadInfo
  cases PayloadInfo.ofHeader bs with
  | error e => simp
  | ok i =>
    simp only [Except.ok.injEq]
    constructor
    · intro h
      split at h
      · rename_i hi
        cases h
        exact ⟨rfl, hi⟩
      · contradiction
    · rintro ⟨rfl, hi⟩
      simp only [hi, ite_true]

/-- An accepted item takes at least one byte. -/
theorem total_pos {bs : List UInt8} {info : PayloadInfo}
    (h : PayloadInfo.ofHeader bs = .ok info) : 0 < info.total := by
  rcases ofHeader_eq_ok h with ⟨rfl, _⟩ | ⟨base, _, _, hl, _⟩
  · decide
  · rw [PayloadInfo.total, hl, length_sizePrefix]
    split <;> omega

/-- The header of an item does not depend on the bytes after it. -/
theorem payloadInfo_append {bs : List UInt8} {info : PayloadInfo}
    (h : payloadInfo bs = .ok info) (rest : List UInt8) :
    payloadInfo (bs ++ rest) = .ok info := by
  obtain ⟨hh, hl⟩ := payloadInfo_eq_ok_iff.mp h
  apply payloadInfo_eq_ok_iff.mpr
  refine ⟨?_, by rw [List.length_append]; omega⟩
  rcases ofHeader_eq_ok hh with ⟨rfl, l, tail, rfl, hlt⟩ | ⟨base, hb, hv, hlen, payload, rfl⟩
  · have : l ≤ 0x7f := by
      simp only [UInt8.lt_iff_toNat_lt, UInt8.le_iff_toNat_le, UInt8.reduceToNat] at hlt ⊢
      omega
    simp only [List.cons_append, PayloadInfo.ofHeader, this, ite_true]
  · rw [List.append_assoc, ofHeader_sizePrefix hb hv, ← hlen]

/-- The part of a buffer that its first item occupies is accepted on its own. -/
theorem payloadInfo_take {bs : List UInt8} {info : PayloadInfo}
    (h : payloadInfo bs = .ok info) {n : Nat} (hn : info.total ≤ n) :
    payloadInfo (bs.take n) = .ok info := by
  obtain ⟨hh, hl⟩ := payloadInfo_eq_ok_iff.mp h
  apply payloadInfo_eq_ok_iff.mpr
  refine ⟨?_, by rw [List.length_take]; omega⟩
  rcases ofHeader_eq_ok hh with ⟨rfl, l, tail, rfl, hlt⟩ | ⟨base, hb, hv, hlen, payload, rfl⟩
  · obtain ⟨k, rfl⟩ : ∃ k, n = k + 1 := ⟨n - 1, by simp only [PayloadInfo.total] at hn; omega⟩
    have : l ≤ 0x7f := by
      simp only [UInt8.lt_iff_toNat_lt, UInt8.le_iff_toNat_le, UInt8.reduceToNat] at hlt ⊢
      omega
    simp only [List.take_succ_cons, PayloadInfo.ofHeader, this, ite_true]
  · have hle : (sizePrefix base info.valueLen).length ≤ n := by
      simp only [PayloadInfo.total] at hn
      omega
    rw [List.take_append, List.take_of_length_le hle, ofHeader_sizePrefix hb hv, ← hlen]

end Rlp
