import Tethereum.Ethcore
import Tethereum.Rpc.Types

/-!
# The virtual machine's backend

A backend borrows one account map and answers the machine from it. `execute`
runs a transaction and applies its changes to that map when the run succeeds;
`call` runs a message and applies nothing.
-/

namespace Tethereum

/-- The accounts of one block. -/
abbrev Accounts := Std.ExtTreeMap H160 MemAccount

/-- What the machine is connected to while it runs. -/
structure EthDBBackend where
  /-- The borrowed account map. -/
  accounts : Accounts
  /-- Gas price of the transaction. -/
  gasPrice : U256
  /-- Origin of the transaction. -/
  sender : H160
  /-- The block that is executed on. -/
  block : Block
  /-- What is kept of the transaction. -/
  info : TransactionInfo

/-! ## Applying changes -/

/-- Drop the slots that hold zero. -/
def purgeZeros (storage : Std.ExtTreeMap H256 H256) : Std.ExtTreeMap H256 H256 :=
  let zeros := (storage.toList.filter (·.2 = .zero)).map (·.1)
  zeros.foldl (fun storage zero => storage.erase zero) storage

/-- Write one slot; zero removes it. -/
def writeSlot (storage : Std.ExtTreeMap H256 H256) (write : H256 × H256) :
    Std.ExtTreeMap H256 H256 :=
  if write.2 = .zero then storage.erase write.1 else storage.insert write.1 write.2

/-- The account that `Apply::Modify` makes of an account. -/
def Modify.update (change : Modify) (account : MemAccount) : MemAccount :=
  let account := { account with balance := change.basic.balance, nonce := change.basic.nonce }
  let account := match change.code with
    | some code => { account with code := code }
    | none => account
  let account := if change.resetStorage then { account with storage := ∅ } else account
  let account := { account with storage := purgeZeros account.storage }
  { account with storage := change.storage.foldl writeSlot account.storage }

/-- Neither balance, nor nonce, nor code. -/
def MemAccount.isEmpty (account : MemAccount) : Bool :=
  account.balance == 0 && account.nonce == 0 && account.code.length == 0

/-- Apply one change to an account map. -/
def Accounts.applyOne (deleteEmpty : Bool) (accounts : Accounts) : Apply → Accounts
  | .modify change =>
    let account := change.update (accounts[change.address]?.getD {})
    let accounts := accounts.insert change.address account
    if account.isEmpty && deleteEmpty then accounts.erase change.address else accounts
  | .delete address => accounts.erase address

namespace EthDBBackend

/-- Apply the changes of a run to the borrowed map and keep its logs. -/
def apply (self : EthDBBackend) (values : List Apply) (logs : List Log) (deleteEmpty : Bool) :
    EthDBBackend :=
  { self with
    accounts := values.foldl (Accounts.applyOne deleteEmpty) self.accounts
    info := { self.info with logs := self.info.logs ++ logs } }

/-! ## Answering the machine -/

/-- `basic`: balance and nonce, zero for an absent account. -/
def basic (self : EthDBBackend) (address : H160) : Basic :=
  match self.accounts[address]? with
  | some a => ⟨a.balance, a.nonce⟩
  | none => ⟨0, 0⟩

/-- `original_storage`: a slot, if it is present. -/
def originalStorage (self : EthDBBackend) (address : H160) (index : H256) : Option H256 :=
  self.accounts[address]?.bind fun x => x.storage[index]?

/-- The answers of the `Backend` trait. -/
def view (self : EthDBBackend) : Backend where
  gasPrice := self.gasPrice
  origin := self.sender
  blockHash _ := .zero
  blockNumber := self.block.header.number.setWidth 256
  blockCoinbase := self.block.header.author
  blockTimestamp := self.block.header.timestamp.setWidth 256
  blockDifficulty := self.block.header.difficulty
  blockGasLimit := self.block.header.gasLimit
  chainId := Tethereum.chainId.setWidth 256
  «exists» address := self.accounts.contains address
  basic := self.basic
  code address := match self.accounts[address]? with
    | some a => a.code
    | none => []
  storage address index := (self.originalStorage address index).getD .zero
  originalStorage := self.originalStorage

/-! ## Running the machine -/

/-- `u64::MAX`. -/
def maxGas : U64 := BitVec.allOnes 64

/-- Run a message without value as a static call. A trap counts as a return without output. -/
def call (evm : Evm) (self : EthDBBackend) (caller contractAddress : H160)
    (input : List UInt8) : (ExitReason × List UInt8 × U64) × EthDBBackend :=
  let (cap, usedGas) := evm.call self.view maxGas contractAddress input (some maxGas) true
    { address := contractAddress, caller := caller, apparentValue := 0 }
  match cap with
  | .exit reason v => ((reason, v, usedGas), self)
  | .trap => ((.succeed .returned, [], usedGas), self)

/-- The machine's run of a transaction. -/
def run (evm : Evm) (self : EthDBBackend) (sender : H160) (value : U256) («to» : Option H160)
    (data : List UInt8) : Execution (Option (List UInt8)) :=
  match «to» with
  | some h =>
    let done := evm.transactCall self.view maxGas sender h value data maxGas
    ⟨done.reason, some done.output, done.usedGas, done.applies, done.logs⟩
  | none =>
    let done := evm.transactCreate self.view maxGas sender value data maxGas
    ⟨done.reason, none, done.usedGas, done.applies, done.logs⟩

/-- Run a transaction and apply its changes if it succeeds. -/
def execute (evm : Evm) (self : EthDBBackend) (sender : H160) (value : U256) («to» : Option H160)
    (data : List UInt8) : (ExitReason × Option (List UInt8) × U64) × EthDBBackend :=
  let done := self.run evm sender value «to» data
  let self := if done.reason.isSucceed then self.apply done.applies done.logs false else self
  ((done.reason, done.output, done.usedGas), self)

/-- A call leaves the backend as it is. -/
@[simp] theorem call_snd (evm : Evm) (self : EthDBBackend) (caller contractAddress : H160)
    (input : List UInt8) : (self.call evm caller contractAddress input).2 = self := by
  unfold call
  split
  rename_i cap usedGas _
  cases cap <;> rfl

end EthDBBackend

end Tethereum
