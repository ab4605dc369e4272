import Tethereum.Types.Primitives

/-!
# Requests and responses

The types that the request handlers exchange with their clients.
-/

namespace Tethereum

/-- `CHAIN_ID`. -/
def chainId : U64 := 127

/-- An internal error with the message a handler gives it. -/
structure RpcError where
  /-- Error message. -/
  message : String
  deriving DecidableEq, Repr

/-- A block tag. -/
inductive BlockNumber
  /-- Block hash; whether only canonical blocks count is never asked. -/
  | hash (hash : H256) (requireCanonical : Bool)
  /-- Number. -/
  | num (n : U64)
  /-- Latest block. -/
  | latest
  /-- Earliest block (genesis). -/
  | earliest
  /-- Pending block (being mined). -/
  | pending
  deriving DecidableEq

/-- Call request; its gas price, gas and nonce are never looked at. -/
structure CallRequest where
  /-- From. -/
  «from» : Option H160 := none
  /-- To. -/
  «to» : Option H160 := none
  /-- Value. -/
  value : Option U256 := none
  /-- Data. -/
  data : Option (List UInt8) := none
  deriving DecidableEq

/-- Log. -/
structure RpcLog where
  /-- Emitting contract. -/
  address : H160
  /-- Topics. -/
  topics : List H256
  /-- Data. -/
  data : List UInt8
  /-- Block hash. -/
  blockHash : Option H256
  /-- Block number. -/
  blockNumber : Option U256
  /-- Transaction hash. -/
  transactionHash : Option H256
  /-- Transaction index. -/
  transactionIndex : Option U256
  /-- Log index in block. -/
  logIndex : Option U256
  /-- Log index in transaction. -/
  transactionLogIndex : Option U256
  /-- Log type. -/
  logType : String
  /-- Whether the log is removed. -/
  removed : Bool
  deriving DecidableEq

/-- Receipt. -/
structure RpcReceipt where
  /-- Transaction hash. -/
  transactionHash : Option H256 := none
  /-- Transaction index. -/
  transactionIndex : Option U256 := none
  /-- Block hash. -/
  blockHash : Option H256 := none
  /-- Sender. -/
  «from» : Option H160 := none
  /-- Recipient. -/
  «to» : Option H160 := none
  /-- Block number. -/
  blockNumber : Option U256 := none
  /-- Cumulative gas used. -/
  cumulativeGasUsed : U256 := 0
  /-- Gas used. -/
  gasUsed : Option U256 := none
  /-- Contract address. -/
  contractAddress : Option H160 := none
  /-- Logs. -/
  logs : List RpcLog := []
  /-- State root. -/
  stateRoot : Option H256 := none
  /-- Logs bloom. -/
  logsBloom : Bloom := .zero
  /-- Status code. -/
  statusCode : Option U64 := none
  deriving DecidableEq

/-- Represents condition on minimum block number or block timestamp. -/
inductive TransactionCondition
  /-- Valid at this minimum block number. -/
  | number (n : U64)
  /-- Valid at given unix time. -/
  | timestamp (t : U64)
  deriving DecidableEq

/-- Transaction. -/
structure RpcTransaction where
  /-- Hash. -/
  hash : H256
  /-- Nonce. -/
  nonce : U256
  /-- Block hash. -/
  blockHash : Option H256
  /-- Block number. -/
  blockNumber : Option U256
  /-- Transaction index. -/
  transactionIndex : Option U256
  /-- Sender. -/
  «from» : H160
  /-- Recipient. -/
  «to» : Option H160
  /-- Transfered value. -/
  value : U256
  /-- Gas price. -/
  gasPrice : U256
  /-- Gas. -/
  gas : U256
  /-- Data. -/
  input : List UInt8
  /-- Creates contract. -/
  creates : Option H160
  /-- Raw transaction data. -/
  raw : List UInt8
  /-- Public key of the signer. -/
  publicKey : Option H512
  /-- The network id of the transaction, if any. -/
  chainId : Option U64
  /-- The standardised V field of the signature (0 or 1). -/
  standardV : U256
  /-- The standardised V field of the signature. -/
  v : U256
  /-- The R field of the signature. -/
  r : U256
  /-- The S field of the signature. -/
  s : U256
  /-- Transaction activates at specified block. -/
  condition : Option TransactionCondition
  deriving DecidableEq

/-- Block transactions. -/
inductive BlockTransactions
  /-- Only hashes. -/
  | hashes (hashes : List H256)
  /-- Full transactions. -/
  | full (transactions : List RpcTransaction)
  deriving DecidableEq

/-- Block representation. -/
structure RpcBlock where
  /-- Hash of the block. -/
  hash : Option H256
  /-- Hash of the parent. -/
  parentHash : H256
  /-- Hash of the uncles. -/
  unclesHash : H256
  /-- Authors address. -/
  author : H160
  /-- Alias of `author`. -/
  miner : H160
  /-- State root hash. -/
  stateRoot : H256
  /-- Transactions root hash. -/
  transactionsRoot : H256
  /-- Transactions receipts root hash. -/
  receiptsRoot : H256
  /-- Block number. -/
  number : Option U256
  /-- Gas used. -/
  gasUsed : U256
  /-- Gas limit. -/
  gasLimit : U256
  /-- Extra data. -/
  extraData : List UInt8
  /-- Logs bloom. -/
  logsBloom : Option Bloom
  /-- Timestamp. -/
  timestamp : U256
  /-- Difficulty. -/
  difficulty : U256
  /-- Total difficulty. -/
  totalDifficulty : Option U256
  /-- Seal fields. -/
  sealFields : List (List UInt8)
  /-- Uncles' hashes. -/
  uncles : List H256
  /-- Transactions. -/
  transactions : BlockTransactions
  /-- Size in bytes. -/
  size : Option U256
  deriving DecidableEq

/-- Value representation with additional info. -/
structure Rich (α : Type) where
  /-- Standard value. -/
  inner : α
  /-- Engine-specific fields with additional description. -/
  extraInfo : List (String × String)
  deriving DecidableEq

/-- Block representation with additional info. -/
abbrev RichBlock := Rich RpcBlock

end Tethereum
