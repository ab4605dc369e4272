import Tethereum.Core.Rlp.Cursor

/-!
# Lawful item codecs

A type has a lawful codec when each of its values is read back from its item,
and no other item decodes to it. Items of lawful types are then determined by
their values, and a list of such items by its fields.
-/

namespace Rlp

/-- Writing and reading are inverse on the items of the type. -/
class LawfulCodec (α : Type) [Encodable α] [Decodable α] : Prop where
  /-- The byte string of a value has a size field of at most eight bytes. -/
  length_toValue_lt (a : α) : (Encodable.toValue a).length < 2 ^ 64
  /-- A written value is read back. -/
  decode_encode (a : α) : Decodable.decode { bytes := encode a } = .ok a
  /-- An item that decodes to a value is the written value. -/
  encode_decode {item : List UInt8} {a : α} (h : IsItem item)
    (hd : Decodable.decode { bytes := item } = .ok a) : encode a = item

section

variable {α : Type} [Encodable α] [Decodable α] [LawfulCodec α]

/-- A written value is an item. -/
theorem isItem_encode (a : α) : IsItem (encode a) :=
  isItem_encodeValue (LawfulCodec.length_toValue_lt a)

/-- Distinct values are written differently. -/
theorem encode_injective : Function.Injective (encode : α → List UInt8) := by
  intro a b h
  have ha := LawfulCodec.decode_encode a
  rw [h, LawfulCodec.decode_encode b] at ha
  exact (Except.ok.inj ha).symm

@[simp] theorem encode_inj {a b : α} : encode a = encode b ↔ a = b := encode_injective.eq_iff

end

/-- An item is longer than its byte string by at most nine bytes. -/
theorem length_encodeValue_le {value : List UInt8} (h : value.length < 2 ^ 64) :
    (encodeValue value).length ≤ value.length + 9 := by
  have hp := length_sizePrefix_le 0x80 h
  by_cases hl : IsLiteral value
  · rw [encodeValue_literal hl]
    omega
  · rw [encodeValue_of_not_literal hl, List.length_append]
    omega

/-- A buffer that is exactly a written list decomposes into the list's items. -/
theorem layout_encodeList {items : List (List UInt8)} (hi : ∀ item ∈ items, IsItem item)
    (h : items.flatten.length < 2 ^ 64) :
    Layout (encodeList items) ⟨(listHeader items.flatten.length).length, items.flatten.length⟩
      items [] where
  isList := isList_sizePrefix (Or.inr rfl) h _ none
  header := by simpa only [List.append_nil] using payloadInfo_encodeList h []
  body := by
    rw [encodeList, List.drop_left' rfl, List.append_nil]
  isItem := hi
  first := by
    intro item hitem
    obtain ⟨tail, rfl⟩ : ∃ tail, items = item :: tail := by
      cases items with
      | nil => contradiction
      | cons x xs => exact ⟨xs, by cases hitem; rfl⟩
    simp only [List.flatten_cons, List.length_append]
    omega

/-- A layout that uses up both the announced payload and the buffer is a written list. -/
theorem Layout.eq_encodeList {raw : List UInt8} {info : PayloadInfo} {items : List (List UInt8)}
    {rest : List UInt8} (h : Layout raw info items rest) (hend : info.total = raw.length)
    (hrest : rest = []) : raw = encodeList items := by
  obtain ⟨hh, _⟩ := payloadInfo_eq_ok_iff.mp h.header
  have hbody := h.body
  rw [hrest, List.append_nil] at hbody
  have hlen : items.flatten.length = info.valueLen := by
    have := congrArg List.length hbody
    simp only [List.length_drop] at this
    simp only [PayloadInfo.total] at hend
    omega
  rcases ofHeader_eq_ok hh with ⟨rfl, l, tail, rfl, hlt⟩ | ⟨base, hb, hv, hl, payload, hraw⟩
  · have hlist := h.isList
    simp only [View.isList, List.head?_cons, Option.any_some, decide_eq_true_eq,
      UInt8.le_iff_toNat_le, UInt8.lt_iff_toNat_lt, UInt8.reduceToNat] at hlist hlt
    omega
  · have hpay : payload = items.flatten := by
      rw [← hbody, hraw, hl, List.drop_left' rfl]
    rcases hb with rfl | rfl
    · have hlist := h.isList
      rw [hraw, isList_sizePrefix (Or.inl rfl) hv] at hlist
      contradiction
    · rw [hraw, hpay, encodeList, listHeader, hlen]

end Rlp
