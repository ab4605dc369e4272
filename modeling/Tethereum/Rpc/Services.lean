import Tethereum.Core.Turns
import Tethereum.Rpc.Blocks
import Tethereum.Rpc.Threads

/-!
# The three services

A node answers the methods of three services. Most of them answer a constant,
three read the store under one guard, and the others are those that resolve a tag
or submit a transaction. A request of any of them is a thread, too.
-/

namespace Tethereum

open HashMapEthDB Interleaving

/-! ## Methods without a guard -/

namespace Web3Client

/-- `web3_clientVersion`. -/
def clientVersion : Handler String := pure "tethereum v0.1; rust"

/-- `web3_sha3`. -/
def sha3 (c : Crypto) (data : List UInt8) : Handler H256 := pure (c.keccak data)

end Web3Client

namespace NetClient

/-- `net_version`. -/
def version : Handler String := pure (toString chainId.toNat)

/-- `net_peerCount`. -/
def peerCount : Handler U64 := pure 0

/-- `net_listening`. -/
def isListening : Handler Bool := pure false

end NetClient

namespace EthClient

/-- `eth_protocolVersion`. -/
def protocolVersion : Handler String := pure "tethereum"

/-- `eth_coinbase`. -/
def author : Handler H160 := pure .zero

/-- `eth_mining`. -/
def isMining : Handler Bool := pure true

/-- `eth_chainId`. -/
def chainId : Handler (Option U64) := pure (some Tethereum.chainId)

/-- `eth_gasPrice`. -/
def gasPrice : Handler U256 := pure 0

/-- `eth_accounts`. -/
def accounts : Handler (List H160) := pure []

/-- `eth_hashrate`. -/
def hashrate : Handler U256 := pure 0

/-- `eth_syncing`. -/
def syncing : Handler Bool := pure false

end EthClient

/-! ## Requests -/

/-- The requests to the three services. -/
inductive ServiceRequest
  /-- A submission, or a request that reads the state behind a tag. -/
  | node (req : NodeRequest)
  /-- `eth_blockNumber`. -/
  | blockNumber
  /-- `eth_getBlockByNumber`. -/
  | blockByNumber (tag : BlockNumber) (full : Bool)
  /-- `eth_getTransactionReceipt`. -/
  | transactionReceipt (h : H256)
  /-- `web3_sha3`. -/
  | sha3 (data : List UInt8)
  /-- `web3_clientVersion`. -/
  | clientVersion
  /-- `net_version`. -/
  | version
  /-- `net_peerCount`. -/
  | peerCount
  /-- `net_listening`. -/
  | isListening
  /-- `eth_protocolVersion`. -/
  | protocolVersion
  /-- `eth_coinbase`. -/
  | author
  /-- `eth_mining`. -/
  | isMining
  /-- `eth_chainId`. -/
  | chainId
  /-- `eth_gasPrice`. -/
  | gasPrice
  /-- `eth_accounts`. -/
  | accounts
  /-- `eth_hashrate`. -/
  | hashrate
  /-- `eth_syncing`. -/
  | syncing

/-- What they respond with. -/
inductive ServiceResponse
  /-- The response to a submission, or what was read behind a tag. -/
  | node (response : NodeResponse)
  /-- The newest block. -/
  | block (block : Option RichBlock)
  /-- A receipt, if there is one. -/
  | receipt (receipt : Option RpcReceipt)
  /-- A number. -/
  | quantity (n : U256)
  /-- The hash of bytes. -/
  | digest (h : H256)
  /-- A text. -/
  | text (s : String)
  /-- Yes or no. -/
  | flag (b : Bool)
  /-- An address. -/
  | address (a : H160)
  /-- Addresses. -/
  | addresses (as : List H160)
  /-- A chain. -/
  | chain (id : Option U64)
  /-- A count. -/
  | count (n : U64)
  deriving DecidableEq

/-- The handler of a request. -/
def ServiceRequest.serve (c : Crypto) (evm : Evm) : ServiceRequest → Handler ServiceResponse
  | .node req => do return .node (← req.serve c evm)
  | .blockNumber => do return .quantity (← EthClient.blockNumber)
  | .blockByNumber tag full => do return .block (← EthClient.blockByNumber c tag full)
  | .transactionReceipt h => do return .receipt (← EthClient.transactionReceipt c h)
  | .sha3 data => do return .digest (← Web3Client.sha3 c data)
  | .clientVersion => do return .text (← Web3Client.clientVersion)
  | .version => do return .text (← NetClient.version)
  | .peerCount => do return .count (← NetClient.peerCount)
  | .isListening => do return .flag (← NetClient.isListening)
  | .protocolVersion => do return .text (← EthClient.protocolVersion)
  | .author => do return .address (← EthClient.author)
  | .isMining => do return .flag (← EthClient.isMining)
  | .chainId => do return .chain (← EthClient.chainId)
  | .gasPrice => do return .quantity (← EthClient.gasPrice)
  | .accounts => do return .addresses (← EthClient.accounts)
  | .hashrate => do return .quantity (← EthClient.hashrate)
  | .syncing => do return .flag (← EthClient.syncing)

/-- The thread of a request. -/
def ServiceRequest.thread (c : Crypto) (evm : Evm) : ServiceRequest → RequestThread ServiceResponse
  | .node req => (req.thread c evm).map (·.map (·.map .node))
  | .blockNumber => .lock EthClient.blockNumber fun n => .respond (.quantity n)
  | .blockByNumber tag full =>
    .lock (EthClient.blockByNumber c tag full) fun block => .respond (.block block)
  | .transactionReceipt h =>
    .lock (EthClient.transactionReceipt c h) fun receipt => .respond (.receipt receipt)
  | .sha3 data => .respond (.digest (c.keccak data))
  | .clientVersion => .respond (.text "tethereum v0.1; rust")
  | .version => .respond (.text (toString Tethereum.chainId.toNat))
  | .peerCount => .respond (.count 0)
  | .isListening => .respond (.flag false)
  | .protocolVersion => .respond (.text "tethereum")
  | .author => .respond (.address .zero)
  | .isMining => .respond (.flag true)
  | .chainId => .respond (.chain (some Tethereum.chainId))
  | .gasPrice => .respond (.quantity 0)
  | .accounts => .respond (.addresses [])
  | .hashrate => .respond (.quantity 0)
  | .syncing => .respond (.flag false)

/-- A thread that nobody interrupts does what the handler does. -/
theorem ServiceRequest.handler_thread (c : Crypto) (evm : Evm) (req : ServiceRequest) :
    (req.thread c evm).handler = req.serve c evm := by
  cases req with
  | node req =>
    funext runtime
    have halone := congrFun (req.handler_thread c evm) runtime
    rw [RequestThread.handler] at halone
    rw [thread, RequestThread.handler, Thread.alone_map, halone, serve, Handler.bind_pure_apply]
  | blockNumber => exact RequestThread.handler_lock _ _
  | blockByNumber tag full => exact RequestThread.handler_lock _ _
  | transactionReceipt h => exact RequestThread.handler_lock _ _
  | _ => rfl

end Tethereum
