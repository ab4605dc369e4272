import Tethereum.Core.Simulation
import Tethereum.Db.Ledger
import Tethereum.Rpc.Availability

/-!
# Services over a ledger

What the services are for, said over a ledger: a request consults the ledger, or
changes it, in at most two turns. Under every schedule the node and the ledger give the
same responses, errors and panics included. So nothing that a client is told depends
on anything but blocks and worlds.
-/

namespace Tethereum

open HashMapEthDB EthClient Interleaving

/-! ## Requests to a ledger -/

/-- A ledger that may be closed by a panic. -/
structure LedgerNode where
  /-- The ledger. -/
  ledger : Ledger
  /-- A panic has closed it. -/
  closed : Bool := false

/-- A request to a ledger on its way. -/
abbrev LedgerThread (α : Type) := Thread LedgerNode (Outcome (Except RpcError α))

namespace LedgerThread

variable {α β : Type}

/-- Go on with a result, unless it is an error. -/
def attempt (result : Except RpcError α) (next : α → LedgerThread β) : LedgerThread β :=
  match result with
  | .ok a => next a
  | .error e => .done (some (.error e))

/-- Look something up in the ledger and go on. -/
def consult (look : Ledger → Except RpcError α) (next : α → LedgerThread β) : LedgerThread β :=
  .locked id fun node =>
    if node.closed then .done (some (.error lockError)) else attempt (look node.ledger) next

/-- Work on the ledger and go on; a panic closes it. -/
def change (work : Ledger → Outcome (α × Ledger)) (next : α → LedgerThread β) :
    LedgerThread β :=
  .locked
    (fun node =>
      if node.closed then node
      else (work node.ledger).elim { node with closed := true } fun done =>
        { node with ledger := done.2 })
    fun node =>
      if node.closed then .done (some (.error lockError))
      else (work node.ledger).elim (.done none) fun done => next done.1

/-- Respond with what is looked up. -/
def answer (look : Ledger → Except RpcError α) : LedgerThread α :=
  consult look fun a => .done (some (.ok a))

/-- `eth_sendRawTransaction`. -/
def sendRawTransaction (c : Crypto) (evm : Evm) (now : U64) (raw : List UInt8) :
    LedgerThread NodeResponse :=
  attempt (rpcTry (UnverifiedTransaction.decode c { bytes := raw })
    "rpc error: parse raw transaction failed from rlp") fun t =>
  attempt (rpcTry (SignedTransaction.new c t) "verify transaction failed") fun tx =>
  change (fun ledger => some (match ledger.submit c evm now tx with
    | some ledger' => (.ok (.hash tx.hash), ledger')
    | none => (.error ⟨"rpc error: invalid transaction received"⟩, ledger))) fun result =>
  .done (some result)

/-- `eth_call`. -/
def call (c : Crypto) (evm : Evm) (req : CallRequest) (tag : Option BlockNumber) :
    LedgerThread NodeResponse :=
  attempt (rpcTry (okOr req.to) "missing contract address") fun «to» =>
  consult (fun ledger => rpcTry (ledger.resolve c tag) "parse number failed") fun n =>
  change (fun ledger =>
    (ledger.call evm n (req.from.getD .zero) «to» (req.data.getD [])).map (·, ledger))
    fun (reason, ret, _) =>
  .done (some (if reason.isSucceed then .ok (.state (.output ret)) else rpcErr "call failed"))

/-- `eth_estimateGas`. -/
def estimateGas (c : Crypto) (evm : Evm) (req : CallRequest) (tag : Option BlockNumber) :
    LedgerThread NodeResponse :=
  consult (fun ledger => rpcTry (ledger.resolve c tag) "parse number failed") fun n =>
  change (fun ledger => ledger.estimateGas evm n (req.from.getD .zero) (req.value.getD 0) req.to
    (req.data.getD [])) fun (_, _, gas) =>
  .done (some (.ok (.state (.quantity (gas.setWidth 256)))))

/-- `eth_getBalance`. -/
def balance (c : Crypto) (address : H160) (tag : Option BlockNumber) :
    LedgerThread NodeResponse :=
  consult (fun ledger => rpcTry (ledger.resolve c tag) "parse block number failed") fun n =>
  answer fun ledger => ledger.pages[n.toNat]?.elim (rpcErr "invalid block number") fun page =>
    .ok (.state (.quantity ((page.world address).getD {}).balance))

/-- `eth_getTransactionCount`. -/
def transactionCount (c : Crypto) (k : H160) (tag : Option BlockNumber) :
    LedgerThread NodeResponse :=
  consult (fun ledger => rpcTry (ledger.resolve c tag) "parse number failed") fun n =>
  answer fun ledger => .ok (.state (.quantity
    (ledger.pages[n.toNat]?.elim 0 fun page => page.world.nonce k)))

end LedgerThread

/-- A request to the services as one to a ledger. -/
def ServiceRequest.ledgerThread (c : Crypto) (evm : Evm) :
    ServiceRequest → LedgerThread ServiceResponse
  | .node (.sendRawTransaction now raw) =>
    (LedgerThread.sendRawTransaction c evm now raw).map nodeResponse
  | .node (.state (.call req tag)) => (LedgerThread.call c evm req tag).map nodeResponse
  | .node (.state (.estimateGas req tag)) =>
    (LedgerThread.estimateGas c evm req tag).map nodeResponse
  | .node (.state (.balance address tag)) =>
    (LedgerThread.balance c address tag).map nodeResponse
  | .node (.state (.transactionCount k tag)) =>
    (LedgerThread.transactionCount c k tag).map nodeResponse
  | .blockNumber => .answer fun ledger =>
    .ok (.quantity ((BitVec.ofNat 64 (ledger.pages.length - 1)).setWidth 256))
  | .blockByNumber _ _ => .answer fun ledger =>
    .ok (.block (some ⟨RpcBlock.ofBlock c ledger.newest.block, []⟩))
  | .transactionReceipt hash => .answer fun ledger => .ok (.receipt (ledger.receipt c hash))
  | .sha3 data => .done (some (.ok (.digest (c.keccak data))))
  | .clientVersion => .done (some (.ok (.text "tethereum v0.1; rust")))
  | .version => .done (some (.ok (.text "127")))
  | .peerCount => .done (some (.ok (.count 0)))
  | .isListening => .done (some (.ok (.flag false)))
  | .protocolVersion => .done (some (.ok (.text "tethereum")))
  | .author => .done (some (.ok (.address .zero)))
  | .isMining => .done (some (.ok (.flag true)))
  | .chainId => .done (some (.ok (.chain (some 127))))
  | .gasPrice => .done (some (.ok (.quantity 0)))
  | .accounts => .done (some (.ok (.addresses [])))
  | .hashrate => .done (some (.ok (.quantity 0)))
  | .syncing => .done (some (.ok (.flag false)))

/-- All requests to a ledger at their beginning. -/
def startLedger {ι : Type} (c : Crypto) (evm : Evm) (requests : ι → ServiceRequest)
    (node : LedgerNode) : Pool ι LedgerNode (Outcome (Except RpcError ServiceResponse)) where
  shared := node
  threads i := (requests i).ledgerThread c evm

/-! ## Related requests -/

/-- The store represents the ledger, and the lock is poisoned when the ledger is closed. -/
structure Runtime.Represents (c : Crypto) (runtime : Runtime) (node : LedgerNode) : Prop where
  /-- The store represents the ledger. -/
  store : HashMapEthDB.Represents c runtime.ethDb node.ledger
  /-- The lock is poisoned when the ledger is closed. -/
  poisoned : runtime.poisoned = node.closed

section

variable {c : Crypto} {evm : Evm} {α β : Type}

/-- A tag stands for the same number. -/
theorem HashMapEthDB.Represents.parseNumber_eq {db : HashMapEthDB} {ledger : Ledger}
    (h : db.Represents c ledger) (tag : Option BlockNumber) :
    parseNumber tag db = some (ledger.resolve c tag) := by
  rw [parseNumber, Ledger.resolve]
  cases tag.getD .latest with
  | hash hash requireCanonical => simp only [h.hashIndex]
  | num n => rfl
  | latest =>
    simp only [h.bestNumber_eq]
    rfl
  | earliest => rfl
  | pending =>
    simp only [h.bestNumber_eq]
    rfl

/-- A result without a guard is the same. -/
theorem RequestThread.simulates_attempt {result : Except RpcError α}
    {next : α → RequestThread β} {next' : α → LedgerThread β}
    (h : ∀ a, (next a).Simulates (Runtime.Represents c) (next' a)) :
    (attempt result next).Simulates (Runtime.Represents c) (LedgerThread.attempt result next') := by
  cases result with
  | error e => rfl
  | ok a => exact h a

/-- A read of the store looks the same up in the ledger. -/
theorem RequestThread.simulates_getDb {critical : HashMapEthDB → Outcome (Except RpcError α)}
    {look : Ledger → Except RpcError α} {next : α → RequestThread β}
    {next' : α → LedgerThread β}
    (hlook : ∀ db ledger, HashMapEthDB.Represents c db ledger → critical db = some (look ledger))
    (hnext : ∀ a, (next a).Simulates (Runtime.Represents c) (next' a)) :
    (lock (getDb critical) next).Simulates (Runtime.Represents c)
      (LedgerThread.consult look next') := by
  rintro ⟨db, poisoned⟩ ⟨ledger, closed⟩ hrel
  obtain ⟨hstore, rfl⟩ := hrel
  cases poisoned with
  | true => exact ⟨⟨hstore, rfl⟩, rfl⟩
  | false =>
    have hread := hlook db ledger hstore
    simp only [getDb_open, hread, Bool.false_eq_true, if_false]
    refine ⟨⟨hstore, rfl⟩, ?_⟩
    cases look ledger with
    | error e => rfl
    | ok a => exact hnext a

/-- Reads that respond are the same when they find the same. -/
theorem RequestThread.simulates_response {critical : HashMapEthDB → Outcome (Except RpcError α)}
    {respond' : α → β} {look : Ledger → Except RpcError β}
    (h : ∀ db ledger, HashMapEthDB.Represents c db ledger →
      (critical db).map (·.map respond') = some (look ledger)) :
    (lock (getDb critical) fun a => respond (respond' a)).Simulates (Runtime.Represents c)
      (LedgerThread.answer look) := by
  rintro ⟨db, poisoned⟩ ⟨ledger, closed⟩ hrel
  obtain ⟨hstore, rfl⟩ := hrel
  cases poisoned with
  | true => exact ⟨⟨hstore, rfl⟩, rfl⟩
  | false =>
    obtain ⟨result, hresult, hmap⟩ := Option.map_eq_some_iff.mp (h db ledger hstore)
    simp only [getDb_open, hresult, Bool.false_eq_true, if_false, ← hmap]
    refine ⟨⟨hstore, rfl⟩, ?_⟩
    cases result with
    | error e => rfl
    | ok a => rfl

/-- Work on the store is the same work on the ledger. -/
theorem RequestThread.simulates_getMutDb {α' : Type}
    {critical : HashMapEthDB → Outcome (α × HashMapEthDB)}
    {work : Ledger → Outcome (α' × Ledger)} {next : α → RequestThread β}
    {next' : α' → LedgerThread β}
    (h : ∀ db ledger, HashMapEthDB.Represents c db ledger →
      (work ledger = none ∧ critical db = none) ∨
      ∃ a a' ledger' db', work ledger = some (a', ledger') ∧ critical db = some (a, db') ∧
        HashMapEthDB.Represents c db' ledger' ∧
        (next a).Simulates (Runtime.Represents c) (next' a')) :
    (lock (getMutDb critical) next).Simulates (Runtime.Represents c)
      (LedgerThread.change work next') := by
  rintro ⟨db, poisoned⟩ ⟨ledger, closed⟩ hrel
  obtain ⟨hstore, rfl⟩ := hrel
  cases poisoned with
  | true => exact ⟨⟨hstore, rfl⟩, rfl⟩
  | false =>
    rcases h db ledger hstore with ⟨hwork, hcritical⟩ |
      ⟨a, a', ledger', db', hwork, hcritical, hstore', hnext⟩
    · simp only [getMutDb_of_none hcritical, hwork, Bool.false_eq_true, if_false,
        Option.elim_none]
      exact ⟨⟨hstore, rfl⟩, rfl⟩
    · simp only [getMutDb_of_some hcritical, hwork, Bool.false_eq_true, if_false,
        Option.elim_some]
      exact ⟨⟨hstore', rfl⟩, hnext⟩

/-- A submission is put into both, or refused by both. -/
theorem RequestThread.simulates_sendRawTransaction (now : U64) (raw : List UInt8) :
    (sendRawTransaction c evm now raw).Simulates (Runtime.Represents c)
      (LedgerThread.sendRawTransaction c evm now raw) := by
  apply simulates_attempt
  intro t
  apply simulates_attempt
  intro tx
  apply simulates_getMutDb
  intro db ledger hstore
  rcases hstore.submitTx_cases evm now tx with ⟨hnone, hrefused⟩ |
    ⟨ledger', db', hsome, hdone, hstore'⟩
  · exact Or.inr ⟨_, _, ledger, db, by rw [hnone], hrefused, hstore, rfl⟩
  · exact Or.inr ⟨_, _, ledger', db', by rw [hsome], hdone, hstore', rfl⟩

/-- A tag is resolved in both. -/
theorem RequestThread.simulates_parseNumber {tag : Option BlockNumber} {msg : String}
    {next : U64 → RequestThread β} {next' : U64 → LedgerThread β}
    (hnext : ∀ n, (next n).Simulates (Runtime.Represents c) (next' n)) :
    (lock (getDb fun db => (parseNumber tag db).map (rpcTry · msg)) next).Simulates
      (Runtime.Represents c)
      (LedgerThread.consult (fun ledger => rpcTry (ledger.resolve c tag) msg) next') := by
  apply simulates_getDb _ hnext
  intro db ledger hstore
  rw [hstore.parseNumber_eq]
  rfl

/-- A call runs in both. -/
theorem RequestThread.simulates_call (req : CallRequest) (tag : Option BlockNumber) :
    (call evm req tag).Simulates (Runtime.Represents c) (LedgerThread.call c evm req tag) := by
  apply simulates_attempt
  intro to'
  apply simulates_parseNumber
  intro n
  apply simulates_getMutDb
  intro db ledger hstore
  rw [hstore.call_eq]
  cases ledger.call evm n (req.from.getD .zero) to' (req.data.getD []) with
  | none => exact Or.inl ⟨rfl, rfl⟩
  | some result =>
    refine Or.inr ⟨_, _, ledger, db, rfl, rfl, hstore, ?_⟩
    obtain ⟨reason, ret, gas⟩ := result
    cases hr : reason.isSucceed with
    | true =>
      simp only [hr, if_true]
      rfl
    | false =>
      simp only [hr, Bool.false_eq_true, if_false]
      rfl

/-- An estimate runs in both. -/
theorem RequestThread.simulates_estimateGas (req : CallRequest) (tag : Option BlockNumber) :
    (estimateGas evm req tag).Simulates (Runtime.Represents c)
      (LedgerThread.estimateGas c evm req tag) := by
  apply simulates_parseNumber
  intro n
  apply simulates_getMutDb
  intro db ledger hstore
  rcases hstore.estimateGas_cases evm n (req.from.getD .zero) (req.value.getD 0) req.to
    (req.data.getD []) with hnone | ⟨result, ledger', db', hsome, hdone, hstore'⟩
  · exact Or.inl hnone
  · exact Or.inr ⟨result, result, ledger', db', hsome, hdone, hstore', rfl⟩

/-- A balance is read off both. -/
theorem RequestThread.simulates_balance (address : H160) (tag : Option BlockNumber) :
    (balance address tag).Simulates (Runtime.Represents c)
      (LedgerThread.balance c address tag) := by
  apply simulates_parseNumber
  intro n
  apply simulates_response
  intro db ledger hstore
  cases hp : ledger.pages[n.toNat]? with
  | none =>
    rw [hstore.accounts_eq_none hp]
    rfl
  | some page =>
    obtain ⟨accounts, ha, hworld, _⟩ := hstore.exists_accounts hp
    have haddress := congrFun hworld address
    rw [ha, Option.elim_some, ← haddress, Accounts.world]
    cases h : accounts[address]? with
    | none => simp [okOr, rpcTry, Except.mapError, Except.map, h]
    | some account => simp [okOr, rpcTry, Except.mapError, Except.map, h, MemAccount.world]

/-- A count is read off both. -/
theorem RequestThread.simulates_transactionCount (k : H160) (tag : Option BlockNumber) :
    (transactionCount k tag).Simulates (Runtime.Represents c)
      (LedgerThread.transactionCount c k tag) := by
  apply simulates_parseNumber
  intro n
  apply simulates_response
  intro db ledger hstore
  cases hp : ledger.pages[n.toNat]? with
  | none =>
    rw [hstore.accounts_eq_none hp]
    rfl
  | some page =>
    obtain ⟨accounts, ha, hworld, _⟩ := hstore.exists_accounts hp
    have haddress := congrFun hworld k
    rw [ha, Option.elim_some, World.nonce, ← haddress, Accounts.world]
    cases h : accounts[k]? with
    | none => simp [Except.map, h]
    | some account => simp [Except.map, h, MemAccount.world]

/-- Every request is one to the ledger. -/
theorem ServiceRequest.simulates_thread (c : Crypto) (evm : Evm) (req : ServiceRequest) :
    (req.thread c evm).Simulates (Runtime.Represents c) (req.ledgerThread c evm) := by
  cases req with
  | node req =>
    cases req with
    | sendRawTransaction now raw =>
      exact (RequestThread.simulates_sendRawTransaction now raw).map _
    | state req =>
      cases req with
      | call req tag => exact (RequestThread.simulates_call req tag).map _
      | estimateGas req tag => exact (RequestThread.simulates_estimateGas req tag).map _
      | balance address tag => exact (RequestThread.simulates_balance address tag).map _
      | transactionCount k tag => exact (RequestThread.simulates_transactionCount k tag).map _
  | blockNumber =>
    apply RequestThread.simulates_response
    intro db ledger hstore
    rw [hstore.bestNumber_eq]
    rfl
  | blockByNumber tag full =>
    apply RequestThread.simulates_response
    intro db ledger hstore
    rw [hstore.bestBlock_eq]
    rfl
  | transactionReceipt hash =>
    apply RequestThread.simulates_response
    intro db ledger hstore
    rw [hstore.receipt_eq]
    rfl
  | version =>
    exact congrArg (fun text => some (Except.ok (ServiceResponse.text text)))
      (by decide : toString Tethereum.chainId.toNat = "127")
  | _ => rfl

/-! ## Runs over a ledger -/

variable {ι : Type} {db : HashMapEthDB} {ledger : Ledger}

/-- Requests to a store are ones to the ledger that it represents. -/
theorem simulates_startServices (h : HashMapEthDB.Represents c db ledger) (evm : Evm)
    (requests : ι → ServiceRequest) :
    (startServices c evm requests ⟨db, false⟩).Simulates (Runtime.Represents c)
      (startLedger c evm requests ⟨ledger, false⟩) where
  shared := ⟨h, rfl⟩
  threads i := (requests i).simulates_thread c evm

/-- Behind every reachable store there is a ledger, and in every interleaving of any requests
clients are told by the node what they would be told by the ledger, panics included. The store
goes on to represent the ledger. -/
theorem exists_ledger_told [DecidableEq ι] (h : Reachable c evm db)
    (requests : ι → ServiceRequest) :
    ∃ ledger, HashMapEthDB.Represents c db ledger ∧ ∀ schedule : List ι,
      let p := (startServices c evm requests ⟨db, false⟩).run schedule
      let q := (startLedger c evm requests ⟨ledger, false⟩).run schedule
      Runtime.Represents c p.shared q.shared ∧
        ∀ i response, p.threads i = .done response ↔ q.threads i = .done response := by
  obtain ⟨ledger, hledger⟩ := h.exists_represents
  refine ⟨ledger, hledger, fun schedule => ?_⟩
  have hrun := (simulates_startServices hledger evm requests).run schedule
  exact ⟨hrun.shared, hrun.done_iff⟩

/-- A genesis store tells of a creation what a ledger does. -/
theorem exists_ledger_told_creation :
    let requests : Bool → ServiceRequest
      | true => .node (.sendRawTransaction 5
          [0xc9, 0x80, 0x80, 0x80, 0x80, 0x80, 0x80, 0x1b, 0x01, 0x01])
      | false => .blockByNumber .latest true
    ∃ ledger, HashMapEthDB.Represents .sample (HashMapEthDB.new .sample 0) ledger ∧
      ∀ schedule : List Bool,
        let p := (startServices .sample .sample requests
          ⟨HashMapEthDB.new .sample 0, false⟩).run schedule
        let q := (startLedger .sample .sample requests ⟨ledger, false⟩).run schedule
        Runtime.Represents .sample p.shared q.shared ∧
          ∀ i response, p.threads i = .done response ↔ q.threads i = .done response :=
  exists_ledger_told (reachable_new .sample .sample 0) _

end

end Tethereum
