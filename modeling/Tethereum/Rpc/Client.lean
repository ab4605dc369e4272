import Tethereum.Db.Store

/-!
# Request handlers

A handler takes the lock on the store once or twice, works on the store under
it, and responds. A panic under the write guard poisons the lock; what the store
holds is then as it was, since the operations panic before they change it.
-/

namespace Tethereum

/-- The store behind its lock. -/
structure Runtime where
  /-- The store. -/
  ethDb : HashMapEthDB
  /-- A panic happened under the write guard. -/
  poisoned : Bool := false

/-- A request handler: a response or a panic, and the runtime it leaves. -/
def Handler (α : Type) := Runtime → Outcome (Except RpcError α) × Runtime

namespace Handler

variable {α β : Type}

/-- Respond. -/
protected def pure (a : α) : Handler α := fun runtime => (some (.ok a), runtime)

/-- Go on unless there was an error or a panic. -/
protected def bind (x : Handler α) (f : α → Handler β) : Handler β := fun runtime =>
  match x runtime with
  | (some (.ok a), runtime) => f a runtime
  | (some (.error e), runtime) => (some (.error e), runtime)
  | (none, runtime) => (none, runtime)

instance : Monad Handler where
  pure := Handler.pure
  bind := Handler.bind

/-- Respond with a result. -/
def ofExcept (result : Except RpcError α) : Handler α := fun runtime => (some result, runtime)

end Handler

/-- `rpc_err!`. -/
def rpcErr {α : Type} (msg : String) : Except RpcError α := .error ⟨msg⟩

/-- `rpc_try!`: whatever the error was, respond with this message. -/
def rpcTry {ε α : Type} (result : Except ε α) (msg : String) : Except RpcError α :=
  result.mapError fun _ => ⟨msg⟩

/-- `ok_or("")`. -/
def okOr {α : Type} (o : Option α) : Except String α := o.elim (.error "") .ok

/-- `get_db!`: what is done under the read guard. -/
def getDb {α : Type} (critical : HashMapEthDB → Outcome (Except RpcError α)) : Handler α :=
  fun runtime =>
    if runtime.poisoned then
      (some (rpcErr "failed to require runtime.eth_db read lock"), runtime)
    else (critical runtime.ethDb, runtime)

/-- `get_mut_db!`: what is done under the write guard. -/
def getMutDb {α : Type} (critical : HashMapEthDB → Outcome (α × HashMapEthDB)) : Handler α :=
  fun runtime =>
    if runtime.poisoned then
      (some (rpcErr "failed to require runtime.eth_db read lock"), runtime)
    else
      match critical runtime.ethDb with
      | none => (none, { runtime with poisoned := true })
      | some (a, db) => (some (.ok a), { runtime with ethDb := db })

namespace EthClient

/-- The block number of a tag. -/
def parseNumber (num : Option BlockNumber) (db : HashMapEthDB) : Outcome (Except String U64) :=
  match num.getD .latest with
  | .earliest => some (.ok 0)
  | .hash hash _ => some ((db.hashIndex[hash]?).elim (.error "err") .ok)
  | .num n => some (.ok n)
  | .pending => db.bestNumber.map .ok
  | .latest => db.bestNumber.map .ok

/-- `eth_blockNumber`. -/
def blockNumber : Handler U256 :=
  getDb fun db => db.bestNumber.map fun n => .ok (n.setWidth 256)

/-- `eth_sendRawTransaction`. -/
def sendRawTransaction (c : Crypto) (evm : Evm) (now : U64) (raw : List UInt8) :
    Handler H256 := do
  let tx ← Handler.ofExcept (rpcTry (UnverifiedTransaction.decode c { bytes := raw })
    "rpc error: parse raw transaction failed from rlp")
  let signed ← Handler.ofExcept (rpcTry (SignedTransaction.new c tx) "verify transaction failed")
  let h := signed.hash
  let result ← getMutDb fun db => db.submitTx c evm now signed
  Handler.ofExcept
    (rpcTry (result.map fun _ => h) "rpc error: invalid transaction received")

/-- `eth_call`. -/
def call (evm : Evm) (req : CallRequest) (num : Option BlockNumber) : Handler (List UInt8) := do
  let «to» ← Handler.ofExcept (rpcTry (okOr req.to) "missing contract address")
  let «from» := req.from.getD .zero
  let n ← getDb fun db => (parseNumber num db).map (rpcTry · "parse number failed")
  let (reason, ret, _) ← getMutDb fun db => db.call evm n «from» «to» (req.data.getD [])
  if reason.isSucceed then return ret else Handler.ofExcept (rpcErr "call failed")

/-- `eth_getBalance`. -/
def balance (address : H160) (num : Option BlockNumber) : Handler U256 := do
  let number ← getDb fun db => (parseNumber num db).map (rpcTry · "parse block number failed")
  let states ← getDb fun db =>
    some (rpcTry (okOr db.accounts[number.toNat]?) "invalid block number")
  return (states[address]?.map (·.balance)).getD 0

/-- `eth_estimateGas`. -/
def estimateGas (evm : Evm) (req : CallRequest) (num : Option BlockNumber) :
    Handler U256 := do
  let «from» := req.from.getD .zero
  let n ← getDb fun db => (parseNumber num db).map (rpcTry · "parse number failed")
  let (_, _, gas) ← getMutDb fun db =>
    db.estimateGas evm n «from» (req.value.getD 0) req.to (req.data.getD [])
  return gas.setWidth 256

/-- `eth_getTransactionCount`. -/
def transactionCount (k : H160) (num : Option BlockNumber) : Handler U256 := do
  let n ← getDb fun db => (parseNumber num db).map (rpcTry · "parse number failed")
  getDb fun db =>
    some (.ok (((db.accounts[n.toNat]?.bind (·[k]?)).map (·.nonce)).getD 0))

/-- `eth_getTransactionReceipt`. -/
def transactionReceipt (c : Crypto) (h : H256) : Handler (Option RpcReceipt) :=
  getDb fun db => (db.receipt c h).map .ok

end EthClient

/-! ## Running handlers -/

section

variable {α β : Type} {x : Handler α} {f : α → Handler β} {runtime runtime' : Runtime}

/-- A response is passed on. -/
theorem Handler.bind_of_ok {a : α} (h : x runtime = (some (.ok a), runtime')) :
    (x >>= f) runtime = f a runtime' := by
  change Handler.bind x f runtime = _
  rw [Handler.bind, h]

/-- An error ends the handler. -/
theorem Handler.bind_of_error {e : RpcError} (h : x runtime = (some (.error e), runtime')) :
    (x >>= f) runtime = (some (.error e), runtime') := by
  change Handler.bind x f runtime = _
  rw [Handler.bind, h]

/-- A panic ends the handler. -/
theorem Handler.bind_of_panic (h : x runtime = (none, runtime')) :
    (x >>= f) runtime = (none, runtime') := by
  change Handler.bind x f runtime = _
  rw [Handler.bind, h]

/-- A result that is there is passed on. -/
@[simp] theorem Handler.rpcTry_ok_bind {ε : Type} (a : α) (msg : String) :
    (ofExcept (rpcTry (.ok a : Except ε α) msg) >>= f) runtime = f a runtime := rfl

/-- A result that failed ends the handler with the message. -/
@[simp] theorem Handler.rpcTry_error_bind {ε : Type} (e : ε) (msg : String) :
    (ofExcept (rpcTry (.error e : Except ε α) msg) >>= f) runtime =
      (some (.error ⟨msg⟩), runtime) := rfl

variable {db : HashMapEthDB}

/-- No guard is given out by a poisoned lock. -/
@[simp] theorem getMutDb_poisoned (critical : HashMapEthDB → Outcome (α × HashMapEthDB)) :
    getMutDb critical ⟨db, true⟩ =
      (some (rpcErr "failed to require runtime.eth_db read lock"), ⟨db, true⟩) := rfl

/-- The read guard of an open lock. -/
@[simp] theorem getDb_open (critical : HashMapEthDB → Outcome (Except RpcError α)) :
    getDb critical ⟨db, false⟩ = (critical db, ⟨db, false⟩) := rfl

/-- The write guard of an open lock, when the work under it finishes. -/
theorem getMutDb_of_some {critical : HashMapEthDB → Outcome (α × HashMapEthDB)} {a : α}
    {db' : HashMapEthDB} (h : critical db = some (a, db')) :
    getMutDb critical ⟨db, false⟩ = (some (.ok a), ⟨db', false⟩) := by
  simp only [getMutDb, Bool.false_eq_true, ite_false, h]

/-- The write guard of an open lock, when the work under it panics. -/
theorem getMutDb_of_none {critical : HashMapEthDB → Outcome (α × HashMapEthDB)}
    (h : critical db = none) : getMutDb critical ⟨db, false⟩ = (none, ⟨db, true⟩) := by
  simp only [getMutDb, Bool.false_eq_true, ite_false, h]

end

end Tethereum
