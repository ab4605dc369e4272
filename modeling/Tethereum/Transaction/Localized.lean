import Tethereum.Transaction.Signing

/-!
# Senders of verified and of unverifiable transactions

A transaction of the blockchain tells its sender by recovering it once and keeping
it. The transactions that tests make without a key carry signatures that nothing is
recovered from: they can be written and read, but not verified.
-/

namespace Tethereum

open Rlp hiding Encodable

/-- Fake address for unsigned transactions. -/
def unsignedSender : H160 := ⟨List.replicate 20 0xff, rfl⟩

/-- Try to verify transaction and recover sender. -/
def UnverifiedTransaction.verifyUnordered (c : Crypto) (t : UnverifiedTransaction) :
    Except CryptoError SignedTransaction :=
  SignedTransaction.new c t

/-- Checks if the signature is empty. -/
def SignedTransaction.isUnsigned (t : SignedTransaction) : Bool := t.transaction.isUnsigned

/-- Deconstructs this transaction back into its signed part, its sender and its key. -/
def SignedTransaction.deconstruct (t : SignedTransaction) :
    UnverifiedTransaction × H160 × Option Public :=
  (t.transaction, t.sender, t.public)

/-- Signed transaction that is a part of canon blockchain. -/
structure LocalizedTransaction where
  /-- Signed part. -/
  signed : UnverifiedTransaction
  /-- Block number. -/
  blockNumber : U64
  /-- Block hash. -/
  blockHash : H256
  /-- Transaction index within block. -/
  transactionIndex : Nat
  /-- Cached sender. -/
  cachedSender : Option H160
  deriving DecidableEq

/-- Returns transaction sender, and keeps it; panics if nothing is recovered. -/
def LocalizedTransaction.sender (c : Crypto) (t : LocalizedTransaction) :
    Outcome (H160 × LocalizedTransaction) :=
  match t.cachedSender with
  | some sender => some (sender, t)
  | none =>
    if t.signed.isUnsigned then some (unsignedSender, t)
    else do
      let pub ← (t.signed.recoverPublic c).toOption
      let sender := c.publicToAddress pub
      return (sender, { t with cachedSender := some sender })

/-! ## Signatures without a key -/

namespace Transaction

/-- Useful for test incorrectly signed transactions. -/
def invalidSign (c : Crypto) (t : Transaction) : UnverifiedTransaction :=
  UnverifiedTransaction.computeHash c
    { unsigned := t
      r := 1
      s := 1
      v := 0
      hash := .zero }

/-- Specify the sender. -/
def fakeSign (c : Crypto) (t : Transaction) («from» : H160) : SignedTransaction where
  transaction := UnverifiedTransaction.computeHash c
    { unsigned := t
      r := 1
      s := 1
      v := 0
      hash := .zero }
  sender := «from»
  «public» := none

/-- Empty signature, with the chain in the place of `v`. -/
def nullSign (c : Crypto) (t : Transaction) (chainId : U64) : SignedTransaction where
  transaction := UnverifiedTransaction.computeHash c
    { unsigned := t
      r := 0
      s := 0
      v := chainId
      hash := .zero }
  sender := unsignedSender
  «public» := none

end Transaction

/-- A transaction that was signed without a key. -/
inductive Counterfeit (c : Crypto) : UnverifiedTransaction → Prop
  /-- Signed incorrectly. -/
  | invalid (t : Transaction) : Counterfeit c (t.invalidSign c)
  /-- Signed in the name of a sender. -/
  | fake (t : Transaction) («from» : H160) : Counterfeit c (t.fakeSign c «from»).transaction
  /-- Signed with the empty signature. -/
  | null (t : Transaction) (chainId : U64) : Counterfeit c (t.nullSign c chainId).transaction

/-- Nothing is recovered from a recovery byte that stands for an invalid one. -/
def Crypto.RejectsInvalidV (c : Crypto) : Prop :=
  ∀ (sig : Signature) (message : H256), sig.v = 4 → ∃ e, c.recover sig message = .error e

section

variable {c : Crypto} {t : UnverifiedTransaction} {signed : SignedTransaction}

/-- A verified transaction is verified with the same result once more. -/
theorem SignedTransaction.verifyUnordered_deconstruct (h : new c t = .ok signed) :
    signed.deconstruct.1.verifyUnordered c = .ok signed := by
  rw [deconstruct, transaction_of_new h]
  exact h

/-- The sender of a verified transaction is recovered, or it is in the cache. -/
theorem LocalizedTransaction.sender_of_new {localized : LocalizedTransaction}
    (h : SignedTransaction.new c localized.signed = .ok signed)
    (hcache : ∀ sender ∈ localized.cachedSender, sender = signed.sender) :
    localized.sender c =
      some (signed.sender, { localized with cachedSender := some signed.sender }) := by
  unfold LocalizedTransaction.sender
  cases hc : localized.cachedSender with
  | some sender =>
    obtain rfl := hcache sender hc
    change some (signed.sender, localized) = _
    rw [← hc]
  | none =>
    obtain ⟨hu, pub, hpub, rfl⟩ := (SignedTransaction.new_eq_ok_iff c).mp h
    simp only [hu, hpub, Except.toOption, Bool.false_eq_true, if_false, Option.bind_eq_bind,
      Option.bind_some, Option.pure_def]

/-- A transaction that is verified is signed, and its `v` stands for a recovery bit. -/
theorem SignedTransaction.standardV_of_new (hlaw : c.RejectsInvalidV)
    (h : new c t = .ok signed) : t.isUnsigned = false ∧ t.standardV ≠ 4 := by
  obtain ⟨hu, pub, hpub, _⟩ := (new_eq_ok_iff c).mp h
  refine ⟨hu, fun hv => ?_⟩
  obtain ⟨e, he⟩ := hlaw t.signature (t.unsigned.hash c t.chainId) hv
  rw [UnverifiedTransaction.recoverPublic, he] at hpub
  contradiction

/-- A counterfeit carries the hash of its encoding. -/
theorem Counterfeit.hash_eq (h : Counterfeit c t) : t.hash = c.keccak t.rlpBytes := by
  cases h with
  | invalid t => rfl
  | fake t sender => rfl
  | null t chainId => rfl

/-- A counterfeit can be written and read. -/
theorem Counterfeit.decode_eq (h : Counterfeit c t) :
    UnverifiedTransaction.decode c { bytes := t.rlpBytes } = .ok t := by
  obtain ⟨info, hlay⟩ := t.layout_rlpBytes
  exact (UnverifiedTransaction.decode_eq_ok_iff c).mpr ⟨h.hash_eq, info, [], hlay, stops_nil⟩

/-- A counterfeit is not verified. -/
theorem Counterfeit.new_ne_ok (h : Counterfeit c t) (hlaw : c.RejectsInvalidV) :
    SignedTransaction.new c t ≠ .ok signed := by
  intro hnew
  obtain ⟨hu, hv⟩ := SignedTransaction.standardV_of_new hlaw hnew
  cases h with
  | invalid t => exact hv rfl
  | fake t sender => exact hv rfl
  | null t chainId =>
    change true = false at hu
    contradiction

end

end Tethereum
