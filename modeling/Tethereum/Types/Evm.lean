import Tethereum.Types.Primitives

/-!
# The virtual machine's interface

The executor comes from another crate. It is a pure function of what the
`Backend` trait answers and of the call parameters; it hands back an exit
reason, an output, the gas used, and the changes to apply.
-/

namespace Tethereum

/-- `ExitSucceed`. -/
inductive ExitSucceed
  /-- The code ran to its end. -/
  | stopped
  /-- The code returned. -/
  | returned
  /-- The contract destroyed itself. -/
  | suicided
  deriving DecidableEq, Repr

/-- `ExitReason`; the details of a failure are never looked at. -/
inductive ExitReason
  /-- The run succeeded. -/
  | succeed (reason : ExitSucceed)
  /-- The run failed. -/
  | error
  /-- The code asked to revert. -/
  | revert
  /-- The machine itself failed. -/
  | fatal
  deriving DecidableEq, Repr

/-- The reason matches `ExitReason::Succeed(_)`. -/
def ExitReason.isSucceed : ExitReason → Bool
  | .succeed _ => true
  | _ => false

/-- `Capture` of a finished call, or a trap that the executor does not handle. -/
inductive Capture
  /-- The call has finished. -/
  | exit (reason : ExitReason) (output : List UInt8)
  /-- The call waits for another one. -/
  | trap
  deriving DecidableEq

/-- `Basic`: balance and nonce of an account. -/
structure Basic where
  /-- Account balance. -/
  balance : U256
  /-- Account nonce. -/
  nonce : U256
  deriving DecidableEq

/-- `Log`. -/
structure Log where
  /-- Emitting contract. -/
  address : H160
  /-- Indexed topics. -/
  topics : List H256
  /-- Payload. -/
  data : List UInt8
  deriving DecidableEq

/-- The fields of `Apply::Modify`. -/
structure Modify where
  /-- Changed account. -/
  address : H160
  /-- New balance and nonce. -/
  basic : Basic
  /-- New code, if it changed. -/
  code : Option (List UInt8)
  /-- Storage writes in order. -/
  storage : List (H256 × H256)
  /-- Whether the old storage is dropped first. -/
  resetStorage : Bool
  deriving DecidableEq

/-- `Apply`: one change to the accounts. -/
inductive Apply
  /-- The account is created or changed. -/
  | modify (change : Modify)
  /-- The account is removed. -/
  | delete (address : H160)
  deriving DecidableEq

/-- `Context` of a call frame. -/
structure Context where
  /-- Executing account. -/
  address : H160
  /-- Calling account. -/
  caller : H160
  /-- Value the frame reports. -/
  apparentValue : U256
  deriving DecidableEq

/-- What the methods of the `Backend` trait answer. -/
structure Backend where
  /-- Gas price of the transaction. -/
  gasPrice : U256
  /-- Origin of the transaction. -/
  origin : H160
  /-- Hash of the block with a number. -/
  blockHash : U256 → H256
  /-- Number of the executed block. -/
  blockNumber : U256
  /-- Author of the executed block. -/
  blockCoinbase : H160
  /-- Timestamp of the executed block. -/
  blockTimestamp : U256
  /-- Difficulty of the executed block. -/
  blockDifficulty : U256
  /-- Gas limit of the executed block. -/
  blockGasLimit : U256
  /-- Chain id. -/
  chainId : U256
  /-- Whether there is an account. -/
  «exists» : H160 → Bool
  /-- Balance and nonce of an account. -/
  basic : H160 → Basic
  /-- Code of an account. -/
  code : H160 → List UInt8
  /-- Value of a storage slot. -/
  storage : H160 → H256 → H256
  /-- Value of a storage slot before the transaction, if there is one. -/
  originalStorage : H160 → H256 → Option H256

/-- What a top-level transaction run leaves behind: `used_gas` and the
`deconstruct`ed state next to the result. -/
structure Execution (α : Type) where
  /-- Exit reason. -/
  reason : ExitReason
  /-- Output of the run. -/
  output : α
  /-- `used_gas`. -/
  usedGas : U64
  /-- Changes to the accounts. -/
  applies : List Apply
  /-- Emitted logs. -/
  logs : List Log

/-- The executor, each of whose entry points starts from a fresh state with a gas
limit of its own. -/
structure Evm where
  /-- `transact_call(caller, address, value, data, gas_limit)`. -/
  transactCall : Backend → (metadataGas : U64) → (caller address : H160) → (value : U256) →
    (data : List UInt8) → (gasLimit : U64) → Execution (List UInt8)
  /-- `transact_create(caller, value, init_code, gas_limit)`. -/
  transactCreate : Backend → (metadataGas : U64) → (caller : H160) → (value : U256) →
    (initCode : List UInt8) → (gasLimit : U64) → Execution Unit
  /-- `call(code_address, None, input, target_gas, is_static, context)` and `used_gas`. -/
  call : Backend → (metadataGas : U64) → (codeAddress : H160) → (input : List UInt8) →
    (targetGas : Option U64) → (isStatic : Bool) → Context → Capture × U64

/-- The changes of a plain transfer in the sample machine: the caller's nonce goes up by one. -/
def Evm.sampleApplies (backend : Backend) (caller : H160) : List Apply :=
  let basic := backend.basic caller
  [.modify ⟨caller, ⟨basic.balance, basic.nonce + 1⟩, none, [], false⟩]

/-- A small machine to run the model with: every transaction succeeds and only counts
itself in the caller's nonce, except that the last nonce cannot be spent. -/
def Evm.sample : Evm where
  transactCall backend _ caller _ _ _ _ :=
    if (backend.basic caller).nonce = BitVec.allOnes 256 then ⟨.error, [], 0, [], []⟩
    else ⟨.succeed .stopped, [], 21000, Evm.sampleApplies backend caller, []⟩
  transactCreate backend _ caller _ _ _ :=
    if (backend.basic caller).nonce = BitVec.allOnes 256 then ⟨.error, (), 0, [], []⟩
    else ⟨.succeed .stopped, (), 53000, Evm.sampleApplies backend caller, []⟩
  call _ _ _ _ _ _ _ := (.exit (.succeed .returned) [], 21000)

end Tethereum
