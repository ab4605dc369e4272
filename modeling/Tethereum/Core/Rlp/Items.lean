import Tethereum.Core.Rlp.Framing

/-!
# Items

An item is a byte string that its own header describes exactly. A written byte
string is an item and is read back; an item that decodes to a byte string is
the written form of it. Concatenated items can be told apart, so a list of
items is determined by its encoding.
-/

namespace Rlp

/-- The bytes are exactly one item, of the lengths its header announces. -/
def IsItem (bs : List UInt8) : Prop :=
  ∃ info, payloadInfo bs = .ok info ∧ info.total = bs.length

/-- An item takes at least one byte. -/
theorem IsItem.length_pos {bs : List UInt8} (h : IsItem bs) : 0 < bs.length := by
  obtain ⟨info, hi, hl⟩ := h
  have := total_pos (payloadInfo_eq_ok_iff.mp hi).1
  omega

/-- What the first header of a buffer describes is an item. -/
theorem isItem_take {bs : List UInt8} {info : PayloadInfo} (h : payloadInfo bs = .ok info) :
    IsItem (bs.take info.total) := by
  have hl := (payloadInfo_eq_ok_iff.mp h).2
  exact ⟨info, payloadInfo_take h le_rfl, by rw [List.length_take]; omega⟩

/-- A buffer that starts with an item starts with its header. -/
theorem IsItem.payloadInfo_append {item : List UInt8} (h : IsItem item) (rest : List UInt8) :
    ∃ info, payloadInfo (item ++ rest) = .ok info ∧ info.total = item.length := by
  obtain ⟨info, hi, hl⟩ := h
  exact ⟨info, Rlp.payloadInfo_append hi rest, hl⟩

/-- Two items at the start of one buffer are the same item. -/
theorem IsItem.append_cancel {a b x y : List UInt8} (ha : IsItem a) (hb : IsItem b)
    (h : a ++ x = b ++ y) : a = b ∧ x = y := by
  obtain ⟨i, hi, hil⟩ := ha.payloadInfo_append x
  obtain ⟨j, hj, hjl⟩ := hb.payloadInfo_append y
  rw [h, hj] at hi
  cases hi
  exact List.append_inj h (by omega)

/-- Concatenated items can be told apart. -/
theorem flatten_items_injective {xs ys : List (List UInt8)} (hx : ∀ x ∈ xs, IsItem x)
    (hy : ∀ y ∈ ys, IsItem y) (h : xs.flatten = ys.flatten) : xs = ys := by
  induction xs generalizing ys with
  | nil =>
    cases ys with
    | nil => rfl
    | cons y ys =>
      have hpos := (hy y (List.mem_cons_self ..)).length_pos
      have := congrArg List.length h
      simp only [List.flatten_nil, List.length_nil, List.flatten_cons, List.length_append] at this
      omega
  | cons x xs ih =>
    cases ys with
    | nil =>
      have hpos := (hx x (List.mem_cons_self ..)).length_pos
      have := congrArg List.length h
      simp only [List.flatten_nil, List.length_nil, List.flatten_cons, List.length_append] at this
      omega
    | cons y ys =>
      rw [List.flatten_cons, List.flatten_cons] at h
      obtain ⟨he, ht⟩ := (hx x (List.mem_cons_self ..)).append_cancel
        (hy y (List.mem_cons_self ..)) h
      rw [he, ih (fun a ha => hx a (List.mem_cons_of_mem _ ha))
        (fun a ha => hy a (List.mem_cons_of_mem _ ha)) ht]

/-! ## Byte strings -/

/-- The one byte string of length one that is written without a header. -/
def IsLiteral (value : List UInt8) : Prop := value.length = 1 ∧ value.headD 0 < 0x80

instance (value : List UInt8) : Decidable (IsLiteral value) :=
  inferInstanceAs (Decidable (_ ∧ _))

/-- A literal byte is written as it is. -/
theorem encodeValue_literal {value : List UInt8} (h : IsLiteral value) :
    encodeValue value = value := by
  obtain ⟨hl, hb⟩ := h
  obtain ⟨b, rfl⟩ := List.length_eq_one_iff.mp hl
  simp only [List.headD_cons] at hb
  simp only [encodeValue, hb, ite_true]

/-- Every other byte string is written behind its header. -/
theorem encodeValue_of_not_literal {value : List UInt8} (h : ¬ IsLiteral value) :
    encodeValue value = sizePrefix 0x80 value.length ++ value := by
  match value with
  | [] => rfl
  | [b] =>
    have hb : ¬ b < 0x80 := by simpa [IsLiteral] using h
    simp only [encodeValue, hb, ite_false, List.length_singleton]
  | _ :: _ :: _ => rfl

/-- A literal byte is read as it is. -/
theorem decodeValue_literal {l : UInt8} (h : l < 0x80) (tail : List UInt8) :
    decodeValue (l :: tail) = .ok [l] := by
  have hl : l ≤ 0x7f := by
    simp only [UInt8.lt_iff_toNat_lt, UInt8.le_iff_toNat_le, UInt8.reduceToNat] at h ⊢
    omega
  simp only [decodeValue, hl, ite_true]

/-- Behind a byte string header the payload is read, unless it had to be a literal byte. -/
theorem decodeValue_sizePrefix {len : Nat} (h : len < 2 ^ 64) {payload : List UInt8}
    (hp : len ≤ payload.length) :
    decodeValue (sizePrefix 0x80 len ++ payload) =
      if IsLiteral (payload.take len) then .error .rlpInvalidIndirection
      else .ok (payload.take len) := by
  by_cases hl : len ≤ 55
  · have ht := toNat_ofNat_base (Or.inl rfl) (show len ≤ 63 by omega)
    have hone : UInt8.ofNat (128 + len) = 0x81 ↔ (payload.take len).length = 1 := by
      rw [← UInt8.toNat_inj, ht, List.length_take]
      simp only [UInt8.reduceToNat]
      omega
    simp only [sizePrefix, hl, ite_true, List.cons_append, List.nil_append, decodeValue,
      UInt8.le_iff_toNat_le, UInt8.reduceToNat, ht, Nat.add_sub_cancel_left, List.length_cons,
      hone, IsLiteral]
    rw [if_neg (by omega), if_pos (by omega), if_neg (by omega)]
    rfl
  · have h0 := length_toBytes_pos (show 0 < len by omega)
    have h8 := length_toBytes_le_eight h
    have ht := toNat_ofNat_base (Or.inl rfl)
      (show 55 + (BigEndian.toBytes len).length ≤ 63 by omega)
    have hsub : 128 + (55 + (BigEndian.toBytes len).length) - 183 =
        (BigEndian.toBytes len).length := by omega
    have hlit : ¬ IsLiteral (payload.take len) := by
      intro hlit
      have := hlit.1
      rw [List.length_take] at this
      omega
    simp only [sizePrefix, hl, ite_false, List.cons_append, decodeValue, Nat.add_assoc,
      UInt8.le_iff_toNat_le, UInt8.reduceToNat, ht, hsub, List.length_cons, List.length_append,
      List.take_left', List.drop_left', decodeUsize_toBytes h, hlit]
    rw [if_neg (by omega), if_neg (by omega), if_pos (by omega), if_neg (by omega),
      if_neg (by omega)]

/-- A list is not a byte string. -/
theorem decodeValue_listHeader {len : Nat} (h : len < 2 ^ 64) (payload : List UInt8) :
    decodeValue (sizePrefix 0xc0 len ++ payload) = .error .rlpExpectedToBeData := by
  obtain ⟨l, tail, hl, h1, h2⟩ := sizePrefix_eq_cons (Or.inr rfl) h
  simp only [hl, List.cons_append, decodeValue, UInt8.le_iff_toNat_le, UInt8.reduceToNat]
  rw [if_neg (by omega), if_neg (by omega), if_neg (by omega)]

/-- A written byte string is read back from the start of any buffer. -/
theorem decodeValue_encodeValue {value : List UInt8} (h : value.length < 2 ^ 64)
    (rest : List UInt8) : decodeValue (encodeValue value ++ rest) = .ok value := by
  by_cases hl : IsLiteral value
  · obtain ⟨hl1, hb⟩ := hl
    obtain ⟨b, rfl⟩ := List.length_eq_one_iff.mp hl1
    rw [encodeValue_literal ⟨hl1, hb⟩, List.singleton_append]
    exact decodeValue_literal hb rest
  · rw [encodeValue_of_not_literal hl, List.append_assoc, decodeValue_sizePrefix h (by simp),
      List.take_left', if_neg hl]
    rfl

/-- A written byte string is an item. -/
theorem isItem_encodeValue {value : List UInt8} (h : value.length < 2 ^ 64) :
    IsItem (encodeValue value) := by
  by_cases hl : IsLiteral value
  · rw [encodeValue_literal hl]
    obtain ⟨hl1, hb⟩ := hl
    obtain ⟨b, rfl⟩ := List.length_eq_one_iff.mp hl1
    simp only [List.headD_cons, UInt8.lt_iff_toNat_lt, UInt8.reduceToNat] at hb
    exact ⟨⟨0, 1⟩, payloadInfo_eq_ok_iff.mpr ⟨ofHeader_literal hb [], by simp [PayloadInfo.total]⟩,
      rfl⟩
  · rw [encodeValue_of_not_literal hl]
    exact ⟨_, payloadInfo_sizePrefix (Or.inl rfl) h le_rfl, by simp [PayloadInfo.total]⟩

/-- The byte string that a buffer starts with is read from its written form. -/
theorem encodeValue_decodeValue {bs value : List UInt8} {info : PayloadInfo}
    (hi : payloadInfo bs = .ok info) (hv : decodeValue bs = .ok value) :
    encodeValue value = bs.take info.total ∧ value.length < 2 ^ 64 := by
  obtain ⟨hh, hl⟩ := payloadInfo_eq_ok_iff.mp hi
  rcases ofHeader_eq_ok hh with ⟨rfl, l, tail, rfl, hlt⟩ | ⟨base, hb, h64, hlen, payload, rfl⟩
  · rw [decodeValue_literal hlt] at hv
    cases hv
    refine ⟨?_, by simp⟩
    rw [encodeValue_literal ⟨rfl, by simpa using hlt⟩]
    rfl
  · have hp : info.valueLen ≤ payload.length := by
      simp only [PayloadInfo.total, List.length_append] at hl
      omega
    rcases hb with rfl | rfl
    · rw [decodeValue_sizePrefix h64 hp] at hv
      split at hv
      · contradiction
      · rename_i hlit
        cases hv
        have htake : (payload.take info.valueLen).length = info.valueLen := by
          rw [List.length_take]
          omega
        refine ⟨?_, by omega⟩
        rw [encodeValue_of_not_literal hlit, htake, PayloadInfo.total, hlen,
          List.take_length_add_append]
    · rw [decodeValue_listHeader h64] at hv
      contradiction

/-- An item that decodes to a byte string is the written form of that byte string. -/
theorem IsItem.eq_encodeValue {item value : List UInt8} (h : IsItem item)
    (hv : decodeValue item = .ok value) : item = encodeValue value ∧ value.length < 2 ^ 64 := by
  obtain ⟨info, hi, hl⟩ := h
  obtain ⟨he, h64⟩ := encodeValue_decodeValue hi hv
  rw [he, hl, List.take_length]
  exact ⟨rfl, h64⟩

/-! ## Lists -/

/-- The header of a written list is read back. -/
theorem payloadInfo_encodeList {items : List (List UInt8)} (h : items.flatten.length < 2 ^ 64)
    (rest : List UInt8) :
    payloadInfo (encodeList items ++ rest) =
      .ok ⟨(listHeader items.flatten.length).length, items.flatten.length⟩ := by
  rw [encodeList, List.append_assoc]
  exact payloadInfo_sizePrefix (Or.inr rfl) h (by simp)

/-- Distinct lists of items are written differently. -/
theorem encodeList_injective {xs ys : List (List UInt8)} (hx : ∀ x ∈ xs, IsItem x)
    (hy : ∀ y ∈ ys, IsItem y) (hxl : xs.flatten.length < 2 ^ 64)
    (hyl : ys.flatten.length < 2 ^ 64) (h : encodeList xs = encodeList ys) : xs = ys := by
  have hxi := payloadInfo_encodeList hxl []
  rw [h, payloadInfo_encodeList hyl] at hxi
  have hlen : ys.flatten.length = xs.flatten.length :=
    congrArg PayloadInfo.valueLen (Except.ok.inj hxi)
  rw [encodeList, encodeList, ← hlen] at h
  exact flatten_items_injective hx hy (List.append_cancel_left h)

end Rlp
