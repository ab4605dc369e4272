import Tethereum.Transaction.Types

/-!
# The transaction format

A signed transaction is a list of nine items, and the message that is signed is
a list of six, or of nine when it is bound to a chain. The decoder counts the
items of the buffer it is given and hashes the whole buffer.
-/

namespace Tethereum

open Rlp hiding Encodable

/-- Creation is the empty string, a call is the receiver's address. -/
instance : Rlp.Encodable Action where
  toValue
    | .create => []
    | .call address => address.bytes

instance : Decodable Action where
  decode rlp :=
    if rlp.isEmpty then
      if rlp.isData then .ok .create else .error .rlpExpectedToBeData
    else (rlp.asVal (α := H160)).map .call

namespace Transaction

/-- Append object without a signature into RLP stream. -/
def rlpAppendUnsignedTransaction (t : Transaction) (s : RlpStream) (chainId : Option U64) :
    RlpStream :=
  let s := s.beginList (if chainId.isNone then 6 else 9)
  let s := s.append t.nonce
  let s := s.append t.gasPrice
  let s := s.append t.gas
  let s := s.append t.action
  let s := s.append t.value
  let s := s.append t.data
  match chainId with
  | some n => ((s.append n).append (0 : UInt8)).append (0 : UInt8)
  | none => s

/-- The bytes whose hash is signed. -/
def preimage (t : Transaction) (chainId : Option U64) : List UInt8 :=
  (t.rlpAppendUnsignedTransaction {} chainId).buffer

/-- The message hash of the transaction. -/
def hash (c : Crypto) (t : Transaction) (chainId : Option U64) : H256 :=
  c.keccak (t.preimage chainId)

end Transaction

namespace UnverifiedTransaction

/-- Append object with a signature into RLP stream. -/
def rlpAppendSealedTransaction (t : UnverifiedTransaction) (s : RlpStream) : RlpStream :=
  let s := s.beginList 9
  let s := s.append t.unsigned.nonce
  let s := s.append t.unsigned.gasPrice
  let s := s.append t.unsigned.gas
  let s := s.append t.unsigned.action
  let s := s.append t.unsigned.value
  let s := s.append t.unsigned.data
  let s := s.append t.v
  let s := s.append t.r
  s.append t.s

/-- `rlp_bytes`: the encoding of the transaction. -/
def rlpBytes (t : UnverifiedTransaction) : List UInt8 :=
  (t.rlpAppendSealedTransaction {}).buffer

/-- Used to compute hash of created transactions. -/
def computeHash (c : Crypto) (t : UnverifiedTransaction) : UnverifiedTransaction :=
  { t with hash := c.keccak t.rlpBytes }

/-- The fields of a counted view, read one after another. -/
def decodeFields (hash : H256) : StateT View (Except DecoderError) UnverifiedTransaction := do
  let nonce ← View.valAt 0
  let gasPrice ← View.valAt 1
  let gas ← View.valAt 2
  let action ← View.valAt 3
  let value ← View.valAt 4
  let data ← View.valAt 5
  let v ← View.valAt 6
  let r ← View.valAt 7
  let s ← View.valAt 8
  return {
    unsigned := {
      nonce := nonce, gasPrice := gasPrice, gas := gas, action := action,
      value := value, data := data }
    v := v, r := r, s := s, hash := hash }

/-- Decode a view: nine items, the hash being that of the whole view. -/
def decode (c : Crypto) (d : View) : Except DecoderError UnverifiedTransaction := do
  let (count, d) ← View.itemCount d
  if count ≠ 9 then throw .rlpIncorrectListLen
  (decodeFields (c.keccak d.asRaw)).run' d

end UnverifiedTransaction

/-! ## Items -/

/-- The only item that starts like the empty string is the empty string. -/
theorem isItem_eq_encodeValue_nil {item : List UInt8} (h : IsItem item)
    (hh : item.head? = some 0x80) : item = encodeValue [] := by
  obtain ⟨info, hi, hl⟩ := h
  cases item with
  | nil => contradiction
  | cons l tail =>
    cases hh
    have hinfo := (payloadInfo_eq_ok_iff.mp hi).1
    rw [ofHeader_short (Or.inl rfl) (by simp) (by simp)] at hinfo
    cases hinfo
    simp only [PayloadInfo.total, List.length_cons] at hl
    have htail : tail = [] := List.length_eq_zero_iff.mp (by simpa using hl.symm)
    rw [htail]
    rfl

/-- An item that reads as empty data is the empty string. -/
theorem eq_encode_create {item : List UInt8} (h : IsItem item)
    (hempty : View.isEmpty { bytes := item } = true)
    (hdata : View.isData { bytes := item } = true) : encode Action.create = item := by
  have hhead : item.head? = some 0x80 := by
    simp only [View.isEmpty, Bool.or_eq_true, beq_iff_eq] at hempty
    rcases hempty with hc0 | h80
    · simp only [View.isData, hc0, Option.any_some, decide_eq_true_eq] at hdata
      contradiction
    · exact h80
  rw [isItem_eq_encodeValue_nil h hhead]
  rfl

/-- The item of an address does not read as empty. -/
theorem isEmpty_encode_address (address : H160) :
    View.isEmpty { bytes := encode address } = false := by
  have hlen := address.length_bytes
  have hlit : ¬ IsLiteral address.bytes := by
    intro hlit
    have hone := hlit.1
    omega
  have hcons : encode address = UInt8.ofNat (0x80 + 20) :: address.bytes := by
    rw [encode, Rlp.Encodable.toValue]
    change encodeValue address.bytes = _
    rw [encodeValue_of_not_literal hlit, hlen]
    rfl
  rw [hcons]
  rfl

instance : LawfulCodec Action where
  length_toValue_lt a := by
    cases a with
    | create => exact Nat.two_pow_pos 64
    | call address => exact lt_of_eq_of_lt address.length_bytes factLength160.out
  decode_encode a := by
    cases a with
    | create => rfl
    | call address =>
      have henc : encode (Action.call address) = encode address := rfl
      change (if View.isEmpty { bytes := encode (Action.call address) } then _ else _) = _
      rw [henc, isEmpty_encode_address]
      simp only [Bool.false_eq_true, ite_false, View.asVal, LawfulCodec.decode_encode]
      rfl
  encode_decode {item a} h hd := by
    change (if View.isEmpty { bytes := item } then _ else _) = _ at hd
    split at hd
    · rename_i hempty
      split at hd
      · rename_i hdata
        cases hd
        exact eq_encode_create h hempty hdata
      · contradiction
    · cases hv : View.asVal (α := H160) { bytes := item } with
      | error e =>
        rw [hv] at hd
        contradiction
      | ok address =>
        rw [hv] at hd
        cases hd
        exact LawfulCodec.encode_decode (α := H160) h hv

/-! ## Written transactions -/

/-- The items in front of the signature or of the chain id. -/
def Transaction.fieldItems (t : Transaction) : List (List UInt8) :=
  [encode t.nonce, encode t.gasPrice, encode t.gas, encode t.action, encode t.value,
    encode t.data]

/-- The items of the signed message. -/
def Transaction.unsignedItems (t : Transaction) (chainId : Option U64) : List (List UInt8) :=
  t.fieldItems ++
    match chainId with
    | some n => [encode n, encode (0 : UInt8), encode (0 : UInt8)]
    | none => []

/-- The nine items of a signed transaction. -/
def UnverifiedTransaction.sealedItems (t : UnverifiedTransaction) : List (List UInt8) :=
  t.unsigned.fieldItems ++ [encode t.v, encode t.r, encode t.s]

/-- The message stream announces as many items as it writes. -/
theorem Transaction.rlpAppendUnsignedTransaction_eq (t : Transaction) (chainId : Option U64) :
    t.rlpAppendUnsignedTransaction {} chainId = ⟨encodeList (t.unsignedItems chainId), []⟩ := by
  have hne : t.unsignedItems chainId ≠ [] := List.cons_ne_nil _ _
  rw [← RlpStream.foldl_appendItem_beginList hne]
  cases chainId with
  | none =>
    simp only [rlpAppendUnsignedTransaction, unsignedItems, fieldItems, RlpStream.append,
      Option.isNone_none, ite_true, List.append_nil, List.foldl_cons, List.foldl_nil,
      List.length_cons, List.length_nil, Nat.reduceAdd]
  | some n =>
    simp only [rlpAppendUnsignedTransaction, unsignedItems, fieldItems, RlpStream.append,
      Option.isNone_some, Bool.false_eq_true, ite_false, List.cons_append, List.nil_append,
      List.foldl_cons, List.foldl_nil, List.length_cons, List.length_nil, Nat.reduceAdd]

/-- The signed message is the list of its items. -/
theorem Transaction.preimage_eq (t : Transaction) (chainId : Option U64) :
    t.preimage chainId = encodeList (t.unsignedItems chainId) := by
  rw [preimage, rlpAppendUnsignedTransaction_eq]

/-- The transaction stream announces as many items as it writes. -/
theorem UnverifiedTransaction.rlpAppendSealedTransaction_eq (t : UnverifiedTransaction) :
    t.rlpAppendSealedTransaction {} = ⟨encodeList t.sealedItems, []⟩ := by
  have hne : t.sealedItems ≠ [] := List.cons_ne_nil _ _
  rw [← RlpStream.foldl_appendItem_beginList hne]
  simp only [rlpAppendSealedTransaction, sealedItems, Transaction.fieldItems, RlpStream.append,
    List.cons_append, List.nil_append, List.foldl_cons, List.foldl_nil, List.length_cons,
    List.length_nil, Nat.reduceAdd]

/-- The encoding of a transaction is the list of its items. -/
theorem UnverifiedTransaction.rlpBytes_eq (t : UnverifiedTransaction) :
    t.rlpBytes = encodeList t.sealedItems := by
  rw [rlpBytes, rlpAppendSealedTransaction_eq]

/-- Every field is written as an item. -/
theorem Transaction.isItem_fieldItems (t : Transaction) :
    ∀ item ∈ t.fieldItems, IsItem item := by
  simp only [fieldItems, List.forall_mem_cons, isItem_encode, List.not_mem_nil, false_implies,
    implies_true, and_self]

/-- The items of the signed message are items. -/
theorem Transaction.isItem_unsignedItems (t : Transaction) (chainId : Option U64) :
    ∀ item ∈ t.unsignedItems chainId, IsItem item := by
  have hzero : IsItem (encode (0 : UInt8)) := isItem_encodeValue (by decide)
  intro item hitem
  rcases List.mem_append.mp hitem with h | h
  · exact t.isItem_fieldItems item h
  · cases chainId with
    | none => contradiction
    | some n =>
      have hchain : ∀ item ∈ [encode n, encode (0 : UInt8), encode (0 : UInt8)], IsItem item := by
        simp only [List.forall_mem_cons, isItem_encode, hzero, List.not_mem_nil, false_implies,
          implies_true, and_self]
      exact hchain item h

/-- The items of a signed transaction are items. -/
theorem UnverifiedTransaction.isItem_sealedItems (t : UnverifiedTransaction) :
    ∀ item ∈ t.sealedItems, IsItem item := by
  intro item hitem
  rcases List.mem_append.mp hitem with h | h
  · exact t.unsigned.isItem_fieldItems item h
  · have hsig : ∀ item ∈ [encode t.v, encode t.r, encode t.s], IsItem item := by
      simp only [List.forall_mem_cons, isItem_encode, List.not_mem_nil, false_implies,
        implies_true, and_self]
    exact hsig item h

/-- The fields take little more than the transaction data. -/
theorem Transaction.length_fieldItems_le (t : Transaction) :
    t.fieldItems.flatten.length ≤ 2 ^ 63 + 1000 := by
  have h1 := length_encode_u256_le t.nonce
  have h2 := length_encode_u256_le t.gasPrice
  have h3 := length_encode_u256_le t.gas
  have h5 := length_encode_u256_le t.value
  have h4 : (encode t.action).length ≤ 29 := by
    refine le_trans (length_encodeValue_le (LawfulCodec.length_toValue_lt t.action)) ?_
    cases t.action with
    | create => decide
    | call address => exact Nat.add_le_add_right (le_of_eq address.length_bytes) 9
  have h6 := length_encode_bytes_le t.data
  simp only [fieldItems, List.flatten_cons, List.flatten_nil, List.length_append, List.length_nil]
  omega

/-- The payload of the signed message has a length the format can announce. -/
theorem Transaction.length_unsignedItems_lt (t : Transaction) (chainId : Option U64) :
    (t.unsignedItems chainId).flatten.length < 2 ^ 64 := by
  have hf := t.length_fieldItems_le
  cases chainId with
  | none =>
    simp only [unsignedItems, List.append_nil]
    omega
  | some n =>
    have hn := length_encode_u64_le n
    have hz : (encode (0 : UInt8)).length = 1 := rfl
    simp only [unsignedItems, List.flatten_append, List.flatten_cons, List.flatten_nil,
      List.length_append, List.length_nil, hz]
    omega

/-- The payload of a signed transaction has a length the format can announce. -/
theorem UnverifiedTransaction.length_sealedItems_lt (t : UnverifiedTransaction) :
    t.sealedItems.flatten.length < 2 ^ 64 := by
  have hf := t.unsigned.length_fieldItems_le
  have hv := length_encode_u64_le t.v
  have hr := length_encode_u256_le t.r
  have hs := length_encode_u256_le t.s
  simp only [sealedItems, List.flatten_append, List.flatten_cons, List.flatten_nil,
    List.length_append, List.length_nil]
  omega

/-- The encoding of a transaction consists of its items, with nothing behind them. -/
theorem UnverifiedTransaction.layout_rlpBytes (t : UnverifiedTransaction) :
    ∃ info, Layout t.rlpBytes info t.sealedItems [] := by
  rw [rlpBytes_eq]
  exact ⟨_, layout_encodeList t.isItem_sealedItems t.length_sealedItems_lt⟩

/-- The fields are determined by their items. -/
theorem Transaction.fieldItems_injective : Function.Injective Transaction.fieldItems := by
  rintro ⟨nonce, gasPrice, gas, action, value, data⟩ ⟨nonce', gasPrice', gas', action', value',
    data'⟩ h
  simp only [fieldItems, List.cons.injEq, encode_inj, and_true] at h
  obtain ⟨rfl, rfl, rfl, rfl, rfl, rfl⟩ := h
  rfl

/-! ## Read transactions -/

/-- A sequence succeeds through its first step. -/
theorem bind_eq_ok {ε α β : Type} {x : Except ε α} {f : α → Except ε β} {b : β}
    (h : x >>= f = .ok b) : ∃ a, x = .ok a ∧ f a = .ok b := by
  cases x with
  | error e => contradiction
  | ok a => exact ⟨a, rfl, h⟩

/-- A view whose items are known is decoded item by item. -/
theorem UnverifiedTransaction.decodeFields_memo {raw : List UInt8} {info : PayloadInfo}
    {i0 i1 i2 i3 i4 i5 i6 i7 i8 rest : List UInt8}
    (h : Layout raw info [i0, i1, i2, i3, i4, i5, i6, i7, i8] rest) (hash : H256) :
    (decodeFields hash).run' (memo raw info [i0, i1, i2, i3, i4, i5, i6, i7, i8] 9) = do
      let nonce ← Decodable.decode { bytes := i0 }
      let gasPrice ← Decodable.decode { bytes := i1 }
      let gas ← Decodable.decode { bytes := i2 }
      let action ← Decodable.decode { bytes := i3 }
      let value ← Decodable.decode { bytes := i4 }
      let data ← Decodable.decode { bytes := i5 }
      let v ← Decodable.decode { bytes := i6 }
      let r ← Decodable.decode { bytes := i7 }
      let s ← Decodable.decode { bytes := i8 }
      return ⟨⟨nonce, gasPrice, gas, action, value, data⟩, v, r, s, hash⟩ := by
  have map_bind {ε α β γ : Type} (x : Except ε α) (f : α → Except ε β) (g : β → γ) :
      (x.bind f).map g = x.bind fun a => (f a).map g := by
    cases x <;> rfl
  simp only [decodeFields, StateT.run', bind, StateT.bind, Functor.map, pure, Except.pure]
  simp only [h.valAt_zero_bind (Nat.zero_lt_succ 8) (Nat.zero_lt_succ 8),
    h.valAt_succ_bind 0 (by simp), h.valAt_succ_bind 1 (by simp), h.valAt_succ_bind 2 (by simp),
    h.valAt_succ_bind 3 (by simp), h.valAt_succ_bind 4 (by simp), h.valAt_succ_bind 5 (by simp),
    h.valAt_succ_bind 6 (by simp), h.valAt_succ_bind 7 (by simp), map_bind]
  rfl

/-- Fields that are decoded from known items have these items. -/
theorem UnverifiedTransaction.sealedItems_of_decodeFields {raw : List UInt8} {info : PayloadInfo}
    {items : List (List UInt8)} {rest : List UInt8} (h : Layout raw info items rest)
    (hlen : items.length = 9) {hash : H256} {t : UnverifiedTransaction}
    (hd : (decodeFields hash).run' (memo raw info items 9) = .ok t) :
    t.sealedItems = items ∧ t.hash = hash := by
  obtain ⟨i0, i1, i2, i3, i4, i5, i6, i7, i8, rfl⟩ :
      ∃ i0 i1 i2 i3 i4 i5 i6 i7 i8, items = [i0, i1, i2, i3, i4, i5, i6, i7, i8] := by
    match items, hlen with
    | [i0, i1, i2, i3, i4, i5, i6, i7, i8], _ => exact ⟨_, _, _, _, _, _, _, _, _, rfl⟩
  rw [decodeFields_memo h] at hd
  obtain ⟨nonce, h0, hd⟩ := bind_eq_ok hd
  obtain ⟨gasPrice, h1, hd⟩ := bind_eq_ok hd
  obtain ⟨gas, h2, hd⟩ := bind_eq_ok hd
  obtain ⟨action, h3, hd⟩ := bind_eq_ok hd
  obtain ⟨value, h4, hd⟩ := bind_eq_ok hd
  obtain ⟨data, h5, hd⟩ := bind_eq_ok hd
  obtain ⟨v, h6, hd⟩ := bind_eq_ok hd
  obtain ⟨r, h7, hd⟩ := bind_eq_ok hd
  obtain ⟨s, h8, hd⟩ := bind_eq_ok hd
  cases hd
  have hi := h.isItem
  simp only [List.forall_mem_cons] at hi
  obtain ⟨e0, e1, e2, e3, e4, e5, e6, e7, e8, _⟩ := hi
  refine ⟨?_, rfl⟩
  simp only [sealedItems, Transaction.fieldItems, List.cons_append, List.nil_append,
    LawfulCodec.encode_decode e0 h0, LawfulCodec.encode_decode e1 h1,
    LawfulCodec.encode_decode e2 h2, LawfulCodec.encode_decode e3 h3,
    LawfulCodec.encode_decode e4 h4, LawfulCodec.encode_decode e5 h5,
    LawfulCodec.encode_decode e6 h6, LawfulCodec.encode_decode e7 h7,
    LawfulCodec.encode_decode e8 h8]

/-- The decoder accepts exactly the buffers that start with the items of the transaction
and hold nothing more that parses; the hash it records is that of the whole buffer. -/
theorem UnverifiedTransaction.decode_eq_ok_iff (c : Crypto) {raw : List UInt8}
    {t : UnverifiedTransaction} :
    decode c { bytes := raw } = .ok t ↔
      t.hash = c.keccak raw ∧ ∃ info rest, Layout raw info t.sealedItems rest ∧ Stops rest := by
  constructor
  · intro h
    unfold decode at h
    cases hc : View.itemCount { bytes := raw } with
    | error e => simp [hc, bind, Except.bind] at h
    | ok counted =>
      obtain ⟨n, d⟩ := counted
      by_cases hn : n = 9
      · subst hn
        obtain ⟨info, items, rest, hl, hs, hlen, rfl⟩ := itemCount_exists hc (Nat.succ_pos 8)
        simp only [hc, bind, Except.bind, ne_eq, not_true_eq_false, ite_false] at h
        change (decodeFields (c.keccak raw)).run' (memo raw info items 9) = .ok t at h
        obtain ⟨rfl, hhash⟩ := sealedItems_of_decodeFields hl hlen h
        exact ⟨hhash, info, rest, hl, hs⟩
      · simp [hc, bind, Except.bind, hn] at h
  · rintro ⟨hhash, info, rest, hl, hs⟩
    have hcount := hl.itemCount_eq hs (Nat.zero_lt_succ 8)
    have hrun := decodeFields_memo hl (c.keccak raw)
    simp only [LawfulCodec.decode_encode] at hrun
    have ht : t = ⟨t.unsigned, t.v, t.r, t.s, c.keccak raw⟩ := by rw [← hhash]
    rw [ht]
    simp only [decode, hcount]
    exact hrun

end Tethereum
