import Tethereum.Transaction.Codec
import Tethereum.Transaction.ReplayProtection

/-!
# Signing and recovering

A signed transaction carries the signature's `r` and `s` as integers and the
recovery byte packed with the chain id. The receiving side rebuilds signature
and message from these fields alone.
-/

namespace Tethereum

open Rlp hiding Encodable

/-- What a call comes to: a value, or `none` for a panic. -/
abbrev Outcome (α : Type) := Option α

/-- Signs the transaction with signature. -/
def Transaction.withSignature (c : Crypto) (t : Transaction) (sig : Signature)
    (chainId : Option U64) : UnverifiedTransaction :=
  UnverifiedTransaction.computeHash c {
    unsigned := t
    r := U256.fromBytes sig.r.bytes
    s := U256.fromBytes sig.s.bytes
    v := addChainReplayProtection (BitVec.ofNat 64 sig.v.toNat) chainId
    hash := .zero }

/-- Recovers the public key of the sender. -/
def UnverifiedTransaction.recoverPublic (c : Crypto) (t : UnverifiedTransaction) :
    Except CryptoError Public :=
  c.recover t.signature (t.unsigned.hash c t.chainId)

namespace SignedTransaction

/-- Try to verify transaction and recover sender. -/
def new (c : Crypto) (transaction : UnverifiedTransaction) :
    Except CryptoError SignedTransaction := do
  if transaction.isUnsigned then throw .invalidSignature
  let pub ← transaction.recoverPublic c
  let sender := c.publicToAddress pub
  return { transaction := transaction, sender := sender, «public» := some pub }

/-- The hash of the signed part. -/
def hash (t : SignedTransaction) : H256 := t.transaction.hash

/-- `rlp_bytes`: a signed transaction is written without its sender. -/
def rlpBytes (t : SignedTransaction) : List UInt8 := t.transaction.rlpBytes

/-- The address a creation announces: the hash of the sender and the signed nonce. -/
def contractAddress (c : Crypto) (t : SignedTransaction) : Option H160 :=
  match t.transaction.unsigned.action with
  | .call _ => none
  | .create =>
    let nonce := t.transaction.unsigned.nonce
    let stream := RlpStream.beginList {} 2
    let stream := stream.append t.sender
    let stream := stream.append nonce
    some (H160.fromH256 (c.keccak stream.buffer))

end SignedTransaction

/-- Signs the transaction as coming from the owner of the secret. Both calls are
expected to succeed. -/
def Transaction.sign (c : Crypto) (t : Transaction) (secret : Secret) (chainId : Option U64) :
    Outcome SignedTransaction := do
  let sig ← (c.sign secret (t.hash c chainId)).toOption
  (SignedTransaction.new c (t.withSignature c sig chainId)).toOption

/-! ## Acceptance -/

/-- A transaction is accepted exactly when it is signed and its key is recovered. -/
theorem SignedTransaction.new_eq_ok_iff (c : Crypto) {t : UnverifiedTransaction}
    {signed : SignedTransaction} :
    new c t = .ok signed ↔ t.isUnsigned = false ∧
      ∃ pub, t.recoverPublic c = .ok pub ∧ signed = ⟨t, c.publicToAddress pub, some pub⟩ := by
  unfold new
  cases hu : t.isUnsigned with
  | true => simp [throw, throwThe, MonadExceptOf.throw, bind, Except.bind]
  | false =>
    cases hp : t.recoverPublic c with
    | error e => simp [bind, Except.bind]
    | ok pub => simp [bind, Except.bind, pure, Except.pure, eq_comm]

/-- An accepted transaction is kept as it is. -/
theorem SignedTransaction.transaction_of_new {c : Crypto} {t : UnverifiedTransaction}
    {signed : SignedTransaction} (h : new c t = .ok signed) : signed.transaction = t := by
  obtain ⟨_, pub, _, rfl⟩ := (new_eq_ok_iff c).mp h
  rfl

/-! ## Signed transactions -/

section

variable (c : Crypto) (t : Transaction) {sig : Signature} {chainId : Option U64}

/-- A signed transaction is read back as it was written. -/
theorem Transaction.decode_withSignature (sig : Signature) (chainId : Option U64) :
    UnverifiedTransaction.decode c { bytes := (t.withSignature c sig chainId).rlpBytes } =
      .ok (t.withSignature c sig chainId) := by
  obtain ⟨info, hlay⟩ := (t.withSignature c sig chainId).layout_rlpBytes
  exact (UnverifiedTransaction.decode_eq_ok_iff c).mpr ⟨rfl, info, [], hlay, stops_nil⟩

/-- A signature with a nonzero part marks the transaction as signed. -/
theorem Transaction.isUnsigned_withSignature (chainId : Option U64)
    (hz : ¬(sig.r = .zero ∧ sig.s = .zero)) :
    (t.withSignature c sig chainId).isUnsigned = false := by
  have hinj {h : H256} (he : U256.fromBytes h.bytes = 0) : h = .zero := by
    rw [← H256.fromUint_fromBytes h, he]
    rfl
  rw [Bool.eq_false_iff]
  intro hu
  simp only [UnverifiedTransaction.isUnsigned, Bool.and_eq_true, beq_iff_eq] at hu
  exact hz ⟨hinj hu.1, hinj hu.2⟩

/-- The receiving side rebuilds the signature. -/
theorem Transaction.signature_withSignature (hv : sig.v = 0 ∨ sig.v = 1)
    (hfit : packedV sig.v chainId < 2 ^ 64) :
    (t.withSignature c sig chainId).signature = sig := by
  have hstd : (t.withSignature c sig chainId).standardV = sig.v :=
    checkReplayProtection_addChainReplayProtection hv hfit
  rw [UnverifiedTransaction.signature, hstd]
  simp only [withSignature, UnverifiedTransaction.computeHash, Signature.fromRsv,
    H256.fromUint_fromBytes]

/-- What is signed with a recoverable signature is accepted. -/
theorem SignedTransaction.new_withSignature {pub : Public} (hv : sig.v = 0 ∨ sig.v = 1)
    (hfit : packedV sig.v chainId < 2 ^ 64) (hz : ¬(sig.r = .zero ∧ sig.s = .zero))
    (hrec : c.recover sig (t.hash c chainId) = .ok pub) :
    new c (t.withSignature c sig chainId) =
      .ok ⟨t.withSignature c sig chainId, c.publicToAddress pub, some pub⟩ := by
  have hu := t.isUnsigned_withSignature c chainId hz
  refine (new_eq_ok_iff c).mpr ⟨hu, pub, ?_, rfl⟩
  have hid := (UnverifiedTransaction.chainId_of_addChainReplayProtection hu hv rfl).mpr hfit
  rw [UnverifiedTransaction.recoverPublic, t.signature_withSignature c hv hfit, hid]
  exact hrec

end

/-- A transaction that is signed, written, read and accepted is the one that was signed: it
names the signer's address and key, its hash and its chain. -/
theorem Transaction.sign_send_recover (c : Crypto) (t : Transaction) (secret : Secret)
    (pub : Public) (chainId : Option U64)
    (hchain : ∀ n ∈ chainId, 36 + 2 * n.toNat < 2 ^ 64)
    (hsign : ∀ message, ∃ sig, c.sign secret message = .ok sig ∧ (sig.v = 0 ∨ sig.v = 1) ∧
      ¬(sig.r = .zero ∧ sig.s = .zero) ∧ c.recover sig message = .ok pub) :
    ∃ sent received decoded, t.sign c secret chainId = some sent ∧
      UnverifiedTransaction.decode c { bytes := sent.rlpBytes } = .ok decoded ∧
      SignedTransaction.new c decoded = .ok received ∧
      received.sender = c.publicToAddress pub ∧ received.public = some pub ∧
      received.hash = sent.hash ∧ received.transaction.chainId = chainId ∧
      received.transaction.unsigned = t := by
  obtain ⟨sig, hsig, hv, hz, hrec⟩ := hsign (t.hash c chainId)
  have hfit := packedV_lt hv hchain
  have hnew := SignedTransaction.new_withSignature c t hv hfit hz hrec
  have hid := (UnverifiedTransaction.chainId_of_addChainReplayProtection
    (t.isUnsigned_withSignature c chainId hz) hv rfl).mpr hfit
  have hdec := t.decode_withSignature c sig chainId
  refine ⟨⟨t.withSignature c sig chainId, c.publicToAddress pub, some pub⟩, _, _, ?_, hdec, hnew,
    rfl, rfl, rfl, hid, rfl⟩
  simp only [sign, hsig, hnew, Except.toOption, Option.bind_eq_bind, Option.bind_some]

/-- A creation on chain 127 signed with the sample scheme. -/
theorem Transaction.sign_send_recover_creation :
    let secret : Secret := .fromLowU64Be 7
    let pub : Public := ⟨secret.bytes ++ (H256.fromLowU64Be 1).bytes, rfl⟩
    let t : Transaction := { nonce := 3, data := ⟨[0x60, 0x00], by decide⟩ }
    ∃ sent received decoded, t.sign .sample secret (some 127) = some sent ∧
      UnverifiedTransaction.decode .sample { bytes := sent.rlpBytes } = .ok decoded ∧
      SignedTransaction.new .sample decoded = .ok received ∧
      received.sender = Crypto.sample.publicToAddress pub ∧ received.public = some pub ∧
      received.hash = sent.hash ∧ received.transaction.chainId = some 127 ∧
      received.transaction.unsigned = t :=
  sign_send_recover .sample _ (.fromLowU64Be 7) _ (some 127)
    (by
      rintro n ⟨⟩
      decide)
    (fun message => ⟨_, rfl, Or.inl rfl, by decide, rfl⟩)

/-! ## Packing and unpacking `v` -/

/-- The chain id and the recovery bit survive signing exactly when the packed value fits in
64 bits; the chain id alone is lost in every other case. Where the values fit, different bits
or chain ids have different `v`. -/
theorem Transaction.withSignature_packs_iff (c : Crypto) (t : Transaction) {sig : Signature}
    (chainId : Option U64) (hv : sig.v = 0 ∨ sig.v = 1)
    (hz : ¬(sig.r = .zero ∧ sig.s = .zero)) :
    let signed := t.withSignature c sig chainId
    (signed.v.toNat = packedV sig.v chainId ∧ signed.chainId = chainId ∧
        signed.standardV = sig.v ↔ packedV sig.v chainId < 2 ^ 64) ∧
      (signed.chainId = chainId ↔ packedV sig.v chainId < 2 ^ 64) ∧
      (packedV sig.v chainId < 2 ^ 64 → ∀ (t' : Transaction) (sig' : Signature)
        (chainId' : Option U64), sig'.v = 0 ∨ sig'.v = 1 → packedV sig'.v chainId' < 2 ^ 64 →
          (sig'.v, chainId') ≠ (sig.v, chainId) →
            (t'.withSignature c sig' chainId').v ≠ signed.v) := by
  intro signed
  have hid : signed.chainId = chainId ↔ packedV sig.v chainId < 2 ^ 64 :=
    UnverifiedTransaction.chainId_of_addChainReplayProtection
      (t.isUnsigned_withSignature c chainId hz) hv rfl
  have hpack : signed.v.toNat = packedV sig.v chainId % 2 ^ 64 := toNat_addChainReplayProtection
  refine ⟨⟨fun h => hid.mp h.2.1, fun hfit => ⟨?_, hid.mpr hfit, ?_⟩⟩, hid, ?_⟩
  · rw [hpack, Nat.mod_eq_of_lt hfit]
  · exact checkReplayProtection_addChainReplayProtection hv hfit
  · intro hfit t' sig' chainId' hv' hfit' hne heq
    have hpack' : (t'.withSignature c sig' chainId').v.toNat = packedV sig'.v chainId' % 2 ^ 64 :=
      toNat_addChainReplayProtection
    rw [heq, hpack, Nat.mod_eq_of_lt hfit, Nat.mod_eq_of_lt hfit'] at hpack'
    obtain ⟨hbit, hchain⟩ := packedV_inj hv hv' hpack'
    exact hne (by rw [hbit, hchain])

/-- Chain 127 survives signing. -/
theorem Transaction.withSignature_packs_iff_127 :
    let signed := ({} : Transaction).withSignature .sample ⟨.fromLowU64Be 1, .fromLowU64Be 1, 1⟩
      (some 127)
    signed.v.toNat = 290 ∧ signed.chainId = some 127 ∧ signed.standardV = 1 :=
  (withSignature_packs_iff .sample {} (some 127) (Or.inr rfl) (by decide)).1.mpr (by decide)

/-- A transaction signed for chain `2 ^ 63` is one for chain 0, with the same `v`. -/
theorem Transaction.withSignature_wraps :
    let sig : Signature := ⟨.fromLowU64Be 1, .fromLowU64Be 1, 0⟩
    let signed := ({} : Transaction).withSignature .sample sig (some (BitVec.ofNat 64 (2 ^ 63)))
    signed.v = 35 ∧ signed.chainId = some 0 ∧
      signed.v = (({} : Transaction).withSignature .sample sig (some 0)).v := by
  decide +kernel

/-- A transaction taken apart and signed again with its own signature and chain id is the same
transaction, and packing its `v` does not overflow. -/
theorem UnverifiedTransaction.withSignature_asUnsigned (c : Crypto) {t : UnverifiedTransaction}
    (hz : ¬(t.r = 0 ∧ t.s = 0)) (hv : t.standardV = 0 ∨ t.standardV = 1)
    (hhash : t.hash = c.keccak t.rlpBytes) :
    t.asUnsigned.withSignature c t.signature t.chainId = t ∧
      packedV t.standardV t.chainId = t.v.toNat := by
  have hpack := t.packedV_standardV (isUnsigned_eq_false_iff.mpr hz) hv
  have hvv : addChainReplayProtection (BitVec.ofNat 64 t.standardV.toNat) t.chainId = t.v := by
    apply BitVec.eq_of_toNat_eq
    rw [toNat_addChainReplayProtection, hpack, Nat.mod_eq_of_lt t.v.isLt]
  refine ⟨?_, hpack⟩
  obtain ⟨unsigned, v, r, s, hash⟩ := t
  simp only [Transaction.withSignature, computeHash, signature, Signature.fromRsv, asUnsigned,
    U256.fromBytes_fromUint] at hvv hhash ⊢
  rw [hvv, hhash]
  rfl

/-- The greatest `v` of all packs again. -/
theorem UnverifiedTransaction.withSignature_asUnsigned_greatest :
    let t := computeHash .sample ⟨{ nonce := 3 }, BitVec.allOnes 64, 1, 2, .zero⟩
    t.asUnsigned.withSignature .sample t.signature t.chainId = t ∧
      packedV t.standardV t.chainId = 2 ^ 64 - 1 :=
  withSignature_asUnsigned .sample (by decide) (Or.inl rfl) rfl

end Tethereum
