import Tethereum.Types.Crypto
import Tethereum.Types.Evm

/-!
# Transactions

The unsigned transaction, the same with its signature fields, and the same with
a recovered sender, together with the packing of the chain id into `v`.
-/

namespace Tethereum

open Rlp hiding Encodable

/-- Transaction action type. -/
inductive Action
  /-- Create creates new contract. -/
  | create
  /-- Calls contract at given address. -/
  | call (address : H160)
  deriving DecidableEq

/-- A message call or contract creation. -/
structure Transaction where
  /-- Nonce. -/
  nonce : U256 := 0
  /-- Gas price. -/
  gasPrice : U256 := 0
  /-- Gas paid up front for transaction execution. -/
  gas : U256 := 0
  /-- Action, can be either call or contract create. -/
  action : Action := .create
  /-- Transfered value. -/
  value : U256 := 0
  /-- Transaction data. -/
  data : Bytes := .empty
  deriving DecidableEq

/-- A transaction with its signature fields, not yet verified. -/
structure UnverifiedTransaction where
  /-- Plain transaction. -/
  unsigned : Transaction
  /-- The V field of the signature, with the chain id packed in. -/
  v : U64
  /-- The R field of the signature. -/
  r : U256
  /-- The S field of the signature. -/
  s : U256
  /-- Hash of the transaction. -/
  hash : H256
  deriving DecidableEq

/-- A transaction with successfully recovered `sender`. -/
structure SignedTransaction where
  /-- The signed part. -/
  transaction : UnverifiedTransaction
  /-- Recovered address. -/
  sender : H160
  /-- Recovered public key. -/
  «public» : Option Public
  deriving DecidableEq

/-- What is kept of an executed transaction. -/
structure TransactionInfo where
  /-- The transaction. -/
  transaction : Option SignedTransaction := none
  /-- State root after the execution. -/
  postState : H256 := .zero
  /-- Gas used. -/
  gas : U256 := 0
  /-- Bloom of the logs. -/
  bloom : Bloom := .zero
  /-- Output of the execution. -/
  result : Option (List UInt8) := none
  /-- Emitted logs. -/
  logs : List Log := []
  /-- Hash of the block of the transaction. -/
  blockHash : H256 := .zero
  /-- Hash of the parent of this block. -/
  parentHash : H256 := .zero
  /-- Position in the block. -/
  index : Nat := 0

/-! ## Replay protection -/

/-- Adds chain id into v, in wrapping `u64` arithmetic. -/
def addChainReplayProtection (v : U64) (chainId : Option U64) : U64 :=
  v + match chainId with
    | some n => 35 + n * 2
    | none => 27

/-- Returns refined v: 0 for 27, 1 for 28, the recovery bit from 35 on, or 4 if invalid. -/
def checkReplayProtection (v : U64) : UInt8 :=
  if v = 27 then 0
  else if v = 28 then 1
  else if v ≥ 35 then UInt8.ofNat ((v - 1) % 2).toNat
  else 4

/-! ## Unverified transactions -/

namespace UnverifiedTransaction

/-- Checks if the signature is empty. -/
def isUnsigned (t : UnverifiedTransaction) : Bool := t.r == 0 && t.s == 0

/-- Returns transaction receiver, if any. -/
def receiver (t : UnverifiedTransaction) : Option H160 :=
  match t.unsigned.action with
  | .create => none
  | .call receiver => some receiver

/-- The receiver is the address that is called; a creation has none. -/
theorem receiver_eq_some_iff {t : UnverifiedTransaction} {a : H160} :
    t.receiver = some a ↔ t.unsigned.action = .call a := by
  rw [receiver]
  cases t.unsigned.action with
  | create => exact iff_of_false (by rintro ⟨⟩) (by rintro ⟨⟩)
  | call address => rw [Option.some_inj, Action.call.injEq]

/-- Reference to unsigned part of this transaction. -/
def asUnsigned (t : UnverifiedTransaction) : Transaction := t.unsigned

/-- Returns standardized `v` value (0, 1 or 4 (invalid)). -/
def standardV (t : UnverifiedTransaction) : UInt8 := checkReplayProtection t.v

/-- The chain ID, or `none` if this is a global transaction. -/
def chainId (t : UnverifiedTransaction) : Option U64 :=
  if t.isUnsigned then some t.v
  else if t.v ≥ 35 then some ((t.v - 35) / 2)
  else none

/-- Construct a signature object from the sig. -/
def signature (t : UnverifiedTransaction) : Signature :=
  Signature.fromRsv (H256.fromUint t.r) (H256.fromUint t.s) t.standardV

/-- Checks whether the signature has a low 's' value. -/
def checkLowS (c : Crypto) (t : UnverifiedTransaction) : Except String Unit :=
  if !c.isLowS t.signature.s then
    .error "UnverifiedTransaction.check_low_s: invalid signature"
  else .ok ()

/-- Verify basic signature params. Does not attempt sender recovery. -/
def verifyBasic (c : Crypto) (t : UnverifiedTransaction) (checkLowS : Bool)
    (chainId : Option U64) : Except String Unit := do
  if t.isUnsigned then throw "verify_basic: unsigned"
  if checkLowS then t.checkLowS c
  match t.chainId, chainId with
  | none, _ => pure ()
  | some n, some m => if n = m then pure () else throw "verify_basic: invalid chain id"
  | _, none => throw "verify_basic: invalid chain id"

end UnverifiedTransaction

end Tethereum
