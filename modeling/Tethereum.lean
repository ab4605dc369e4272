import Tethereum.Core.KeyedLog
import Tethereum.Core.Guarded
import Tethereum.Core.Interleaving
import Tethereum.Core.HexText
import Tethereum.Core.Rlp.View
import Tethereum.Core.Rlp.Framing
import Tethereum.Core.Rlp.Items
import Tethereum.Core.Rlp.Cursor
import Tethereum.Core.Rlp.Codec
import Tethereum.Transaction.Types
import Tethereum.Transaction.Codec
import Tethereum.Transaction.Canonical
import Tethereum.Transaction.ReplayProtection
import Tethereum.Transaction.Signing
import Tethereum.Ethcore
import Tethereum.Db.Backend
import Tethereum.Db.World
import Tethereum.Db.Store
import Tethereum.Db.Chain
import Tethereum.Db.ReadOnly
import Tethereum.Db.Receipts
import Tethereum.Db.Creation
import Tethereum.Db.Commitment
import Tethereum.Db.Replay
import Tethereum.Db.Gas
import Tethereum.Db.History
import Tethereum.Db.Overlay
import Tethereum.Rpc.Text
import Tethereum.Rpc.HexBytes
import Tethereum.Rpc.TagVisitor
import Tethereum.Rpc.Client
import Tethereum.Rpc.Tags
import Tethereum.Rpc.Blocks
import Tethereum.Rpc.Queries
import Tethereum.Rpc.Estimates
import Tethereum.Rpc.Submission
import Tethereum.Rpc.Runs
import Tethereum.Rpc.Nonces
import Tethereum.Rpc.Threads
import Tethereum.Rpc.Reads
import Tethereum.Rpc.Atomicity
import Tethereum.Rpc.Counts
import Tethereum.Core.Turns
import Tethereum.Core.Locks
import Tethereum.Rpc.Services
import Tethereum.Core.Contracts
import Tethereum.Core.Members
import Tethereum.Core.Serial
import Tethereum.Core.Simulation
import Tethereum.Db.Ledger
import Tethereum.Db.Pruning
import Tethereum.Db.Rebuild
import Tethereum.Rpc.Availability
import Tethereum.Rpc.Contracts
import Tethereum.Rpc.Delivery
import Tethereum.Rpc.Funds
import Tethereum.Rpc.Guards
import Tethereum.Rpc.Json
import Tethereum.Rpc.Ledgers
import Tethereum.Rpc.Provenance
import Tethereum.Rpc.Restore
import Tethereum.Rpc.Serial
import Tethereum.Rpc.Wire
