import Tethereum.Transaction.Codec

/-!
# Reading back what was written, and writing back what was read

Decoding undoes encoding for every transaction that carries its own hash, and
the signed message determines the transaction and the chain. The decoder does
not look behind the ninth item, so a buffer that it accepts need not be the
encoding of the transaction it yields: that holds exactly for the buffers which
end, as does the payload they announce, with the ninth item.
-/

namespace Tethereum

open Rlp hiding Encodable

/-- Decoding the encoding of a transaction that carries its own hash returns it whole. -/
theorem UnverifiedTransaction.decode_rlpBytes (c : Crypto) (t : UnverifiedTransaction)
    (h : t.hash = c.keccak t.rlpBytes) : decode c { bytes := t.rlpBytes } = .ok t := by
  obtain ⟨info, hlay⟩ := t.layout_rlpBytes
  exact (decode_eq_ok_iff c).mpr ⟨h, info, [], hlay, stops_nil⟩

/-- A contract creation with one byte of data goes through the encoding and back. -/
theorem UnverifiedTransaction.decode_rlpBytes_creation :
    let t := computeHash .sample ⟨{ nonce := 1, data := ⟨[0x80], by decide⟩ }, 27, 128, 1, .zero⟩
    decode .sample { bytes := t.rlpBytes } = .ok t :=
  decode_rlpBytes .sample _ rfl

/-! ## The signed message -/

/-- The signed message determines the transaction and the chain it is bound to. -/
theorem Transaction.eq_of_preimage_eq {t₁ t₂ : Transaction} {c₁ c₂ : Option U64}
    (h : t₁.preimage c₁ = t₂.preimage c₂) : t₁ = t₂ ∧ c₁ = c₂ := by
  rw [preimage_eq, preimage_eq] at h
  have hitems := encodeList_injective (t₁.isItem_unsignedItems c₁) (t₂.isItem_unsignedItems c₂)
    (t₁.length_unsignedItems_lt c₁) (t₂.length_unsignedItems_lt c₂) h
  obtain ⟨hf, hc⟩ := List.append_inj hitems rfl
  refine ⟨fieldItems_injective hf, ?_⟩
  cases c₁ with
  | none =>
    cases c₂ with
    | none => rfl
    | some n => contradiction
  | some m =>
    cases c₂ with
    | none => contradiction
    | some n =>
      simp only [List.cons.injEq, encode_inj, and_true] at hc
      rw [hc]

/-- The signed message is unambiguous, and so is its hash on any transactions and chains
on whose messages the hash function does not collide. -/
theorem Transaction.preimage_unambiguous :
    (∀ (t₁ t₂ : Transaction) (c₁ c₂ : Option U64),
      t₁.preimage c₁ = t₂.preimage c₂ → t₁ = t₂ ∧ c₁ = c₂) ∧
    ∀ (c : Crypto) (messages : Set (Transaction × Option U64)),
      Set.InjOn c.keccak ((fun m => m.1.preimage m.2) '' messages) →
      Set.InjOn (fun m : Transaction × Option U64 => m.1.hash c m.2) messages := by
  refine ⟨fun t₁ t₂ c₁ c₂ => eq_of_preimage_eq, fun c messages hk m₁ h₁ m₂ h₂ he => ?_⟩
  have hp := hk (Set.mem_image_of_mem _ h₁) (Set.mem_image_of_mem _ h₂) he
  obtain ⟨ht, hc⟩ := eq_of_preimage_eq hp
  exact Prod.ext ht hc

/-- The two signed forms of one transaction, for chain 1 and for no chain, have two hashes. -/
theorem Transaction.preimage_unambiguous_forms :
    Set.InjOn (fun m : Transaction × Option U64 => m.1.hash .sample m.2)
      {({}, none), ({}, some 1)} := by
  apply preimage_unambiguous.2
  rw [Set.image_pair, Set.injOn_pair]
  intro he
  exact absurd he (by decide)

/-! ## Accepted buffers -/

/-- The buffer is one list: its announced payload ends with the buffer, and nine items
use it up. -/
def EndsWithNinthItem (raw : List UInt8) : Prop :=
  ∃ info consumed, payloadInfo raw = .ok info ∧ info.total = raw.length ∧
    consumeItems (raw.drop info.headerLen) 9 = .ok ([], consumed)

/-- The two transactions agree in all nine fields of the format. -/
def UnverifiedTransaction.SameFields (t t' : UnverifiedTransaction) : Prop :=
  t.unsigned = t'.unsigned ∧ t.v = t'.v ∧ t.r = t'.r ∧ t.s = t'.s

/-- On a decomposed buffer, ending with the ninth item leaves no remainder. -/
theorem endsWithNinthItem_iff {raw : List UInt8} {info : PayloadInfo}
    {items : List (List UInt8)} {rest : List UInt8} (h : Layout raw info items rest)
    (hn : items.length = 9) : EndsWithNinthItem raw ↔ info.total = raw.length ∧ rest = [] := by
  have hskip := consumeItems_flatten h.isItem rest
  rw [hn, ← h.body] at hskip
  constructor
  · rintro ⟨info', consumed, hinfo, hend, hc⟩
    have he : info = info' := Except.ok.inj (h.header.symm.trans hinfo)
    subst he
    rw [hskip] at hc
    exact ⟨hend, congrArg Prod.fst (Except.ok.inj hc)⟩
  · rintro ⟨hend, rfl⟩
    exact ⟨info, _, h.header, hend, hskip⟩

/-- An accepted buffer is the encoding of the transaction it yields exactly when it ends
with the ninth item. -/
theorem UnverifiedTransaction.rlpBytes_eq_iff (c : Crypto) {raw : List UInt8}
    {t : UnverifiedTransaction} (h : decode c { bytes := raw } = .ok t) :
    t.rlpBytes = raw ↔ EndsWithNinthItem raw := by
  obtain ⟨_, info, rest, hl, hs⟩ := (decode_eq_ok_iff c).mp h
  rw [endsWithNinthItem_iff hl rfl, rlpBytes_eq]
  constructor
  · intro he
    have hlay := layout_encodeList t.isItem_sealedItems t.length_sealedItems_lt
    rw [he] at hlay
    have hinfo := Except.ok.inj (hl.header.symm.trans hlay.header)
    refine ⟨?_, (hl.unique hlay hs stops_nil).2⟩
    rw [hinfo, ← he, encodeList, List.length_append]
    rfl
  · rintro ⟨hend, hrest⟩
    exact (hl.eq_encodeList hend hrest).symm

/-- What the decoder accepts is canonical exactly when the buffer ends with the ninth item:
then re-encoding gives the buffer back, the recorded hash is that of the encoding, and no
other such buffer carries the same fields. -/
theorem UnverifiedTransaction.decode_canonical_iff (c : Crypto) {raw : List UInt8}
    {t : UnverifiedTransaction} (h : decode c { bytes := raw } = .ok t) :
    (t.rlpBytes = raw ↔ EndsWithNinthItem raw) ∧
    (EndsWithNinthItem raw → t.hash = c.keccak t.rlpBytes ∧
      ∀ raw' t', decode c { bytes := raw' } = .ok t' → EndsWithNinthItem raw' →
        t.SameFields t' → raw = raw' ∧ t.hash = t'.hash) := by
  have hiff := rlpBytes_eq_iff c h
  have hhash := ((decode_eq_ok_iff c).mp h).1
  refine ⟨hiff, fun hend => ⟨by rw [hhash, hiff.mpr hend], fun raw' t' h' hend' hsame => ?_⟩⟩
  obtain ⟨hu, hv, hr, hs⟩ := hsame
  have hbytes : t.rlpBytes = t'.rlpBytes := by
    rw [rlpBytes_eq, rlpBytes_eq, sealedItems, sealedItems, hu, hv, hr, hs]
  have hraw : raw = raw' := by
    rw [← hiff.mpr hend, hbytes, (rlpBytes_eq_iff c h').mpr hend']
  exact ⟨hraw, by rw [hhash, ((decode_eq_ok_iff c).mp h').1, hraw]⟩

/-- The smallest signed creation is accepted and canonical. -/
theorem UnverifiedTransaction.decode_canonical_iff_smallest :
    let raw := [0xc9, 0x80, 0x80, 0x80, 0x80, 0x80, 0x80, 0x1b, 0x01, 0x01]
    let t := computeHash .sample ⟨{}, 27, 1, 1, .zero⟩
    (t.rlpBytes = raw ↔ EndsWithNinthItem raw) ∧
    (EndsWithNinthItem raw → t.hash = Crypto.sample.keccak t.rlpBytes ∧
      ∀ raw' t', decode .sample { bytes := raw' } = .ok t' → EndsWithNinthItem raw' →
        t.SameFields t' → raw = raw' ∧ t.hash = t'.hash) :=
  decode_canonical_iff .sample (by decide)

/-- With one more byte that starts no item, the smallest signed creation is accepted once
more: with the same nine fields, under another hash, which is not that of its encoding. -/
theorem UnverifiedTransaction.decode_trailing_byte :
    let raw := [0xc9, 0x80, 0x80, 0x80, 0x80, 0x80, 0x80, 0x1b, 0x01, 0x01]
    ∃ t t', decode .sample { bytes := raw } = .ok t ∧
      decode .sample { bytes := raw ++ [0x81] } = .ok t' ∧
      t'.rlpBytes ≠ raw ++ [0x81] ∧ t'.hash ≠ Crypto.sample.keccak t'.rlpBytes ∧
      t.SameFields t' ∧ t.hash ≠ t'.hash := by
  refine ⟨_, _, rfl, rfl, ?_, ?_, ⟨rfl, rfl, rfl, rfl⟩, ?_⟩
  · decide
  · decide
  · decide

end Tethereum
