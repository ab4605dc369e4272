import Tethereum.Db.Receipts
import Tethereum.Rpc.Tags

/-!
# Blocks for clients

A block is shown by its header; its transactions are never copied. The lookup by
number ignores the number and shows the newest block.
-/

namespace Tethereum

open HashMapEthDB EthClient

/-- `From<&Header>`. -/
def RpcBlock.ofHeader (c : Crypto) (h : Header) : RpcBlock where
  hash := some (h.hash c)
  parentHash := h.parentHash
  unclesHash := h.unclesHash
  author := h.author
  miner := h.author
  stateRoot := h.stateRoot
  transactionsRoot := h.transactionsRoot
  receiptsRoot := h.receiptsRoot
  number := some (h.number.setWidth 256)
  gasUsed := h.gasUsed
  extraData := h.extraData.toList
  logsBloom := some h.logBloom
  timestamp := h.timestamp.setWidth 256
  difficulty := h.difficulty
  totalDifficulty := none
  sealFields := []
  uncles := []
  transactions := .full []
  size := some (BitVec.ofNat 256 h.rlp.length)
  gasLimit := h.gasLimit

/-- `From<&Block>`. -/
def RpcBlock.ofBlock (c : Crypto) (o : Block) : RpcBlock := ofHeader c o.header

/-- `eth_getBlockByNumber`; neither argument is looked at. -/
def EthClient.blockByNumber (c : Crypto) (_ : BlockNumber) (_ : Bool) :
    Handler (Option RichBlock) :=
  getDb fun db => do
    let best ← db.bestBlock
    let r := RpcBlock.ofBlock c best
    return .ok (some { inner := r, extraInfo := [] })

/-- The hashes of the transactions that a block for clients lists. -/
def BlockTransactions.hashList : BlockTransactions → List H256
  | .hashes hs => hs
  | .full ts => ts.map (·.hash)

/-- The block for clients shows the block: its number, its hash, that of its parent, its roots,
and its transactions in order. -/
structure Shows (c : Crypto) (block : Block) (r : RpcBlock) : Prop where
  /-- The number. -/
  number : r.number = some (block.header.number.setWidth 256)
  /-- The hash. -/
  hash : r.hash = some (block.header.hash c)
  /-- The parent's hash. -/
  parentHash : r.parentHash = block.header.parentHash
  /-- The state root. -/
  stateRoot : r.stateRoot = block.header.stateRoot
  /-- The transactions root. -/
  transactionsRoot : r.transactionsRoot = block.header.transactionsRoot
  /-- The receipts root. -/
  receiptsRoot : r.receiptsRoot = block.header.receiptsRoot
  /-- The transactions. -/
  transactions : r.transactions.hashList = block.transactions.map (·.hash)

/-- The response shows the block that the tag is resolved to, and no block for a number beyond
the best one. -/
def LookupAgrees (db : HashMapEthDB) (c : Crypto) (tag : BlockNumber)
    (response : Outcome (Except RpcError (Option RichBlock))) : Prop :=
  ∀ n, parseNumber (some tag) db = some (.ok n) →
    (∀ block, db.blocks[n.toNat]? = some block →
      ∃ rich, response = some (.ok (some rich)) ∧ Shows c block rich.inner) ∧
    (db.blocks.length ≤ n.toNat → response = some (.ok none))

section

variable {c : Crypto} {evm : Evm} {db : HashMapEthDB} {last : Block}

/-- The lookup shows the newest block, whatever it is asked for. -/
theorem blockByNumber_eq (hb : db.blocks.getLast? = some last) (tag : BlockNumber)
    (full : Bool) :
    blockByNumber c tag full ⟨db, false⟩ =
      (some (.ok (some ⟨RpcBlock.ofBlock c last, []⟩)), ⟨db, false⟩) := by
  have hne : db.blocks.isEmpty = false :=
    List.isEmpty_eq_false_iff.mpr (List.ne_nil_of_mem (List.mem_of_getLast? hb))
  rw [List.getLast?_eq_getElem?] at hb
  unfold blockByNumber
  rw [getDb_open, bestBlock, hne, if_neg Bool.false_ne_true, hb]
  rfl

/-- A converted block lists no transactions. -/
theorem RpcBlock.hashList_ofBlock (c : Crypto) (block : Block) :
    (ofBlock c block).transactions.hashList = [] := rfl

/-- A block is shown by its conversion exactly when it has no transactions. -/
theorem shows_ofBlock_iff {block : Block} :
    Shows c block (RpcBlock.ofBlock c block) ↔ block.transactions = [] := by
  constructor
  · intro h
    have htxs := h.transactions
    rw [RpcBlock.hashList_ofBlock] at htxs
    exact List.map_eq_nil_iff.mp htxs.symm
  · intro hnil
    refine ⟨rfl, rfl, rfl, rfl, rfl, rfl, ?_⟩
    rw [RpcBlock.hashList_ofBlock, hnil, List.map_nil]

namespace HashMapEthDB

/-- The newest block of a well-formed store has no transactions only if it is the genesis
block. -/
theorem WellFormed.transactions_last_iff (h : db.WellFormed c)
    (hb : db.blocks.getLast? = some last) :
    last.transactions = [] ↔ db.blocks.length = 1 := by
  have hpos := h.length_pos
  rw [List.getLast?_eq_getElem?] at hb
  rcases h.block_cases hb with ⟨hzero, now, rfl⟩ | ⟨hlt, best, now, tx, rfl⟩
  · exact iff_of_true rfl (by omega)
  · exact iff_of_false (List.cons_ne_nil _ _) (by omega)

/-- For a tag that is resolved to a block, the newest block is the right answer exactly when
there is no other block. -/
theorem lookupAgrees_of_resolved (hw : db.WellFormed c) (hb : db.blocks.getLast? = some last)
    {tag : BlockNumber} {n : U64} (hp : parseNumber (some tag) db = some (.ok n))
    (hn : n.toNat < db.blocks.length) :
    LookupAgrees db c tag (some (.ok (some ⟨RpcBlock.ofBlock c last, []⟩))) ↔
      db.blocks.length = 1 := by
  have hlast := hb
  rw [List.getLast?_eq_getElem?] at hlast
  constructor
  · intro hagrees
    obtain ⟨block, hblock⟩ : ∃ block, db.blocks[n.toNat]? = some block :=
      ⟨_, List.getElem?_eq_getElem hn⟩
    obtain ⟨rich, hresponse, hshows⟩ := (hagrees n hp).1 block hblock
    cases hresponse
    -- the numbers agree only if the resolved block is the newest one
    have hnumber := congrArg (fun number => (number.getD 0).toNat) hshows.number
    simp only [RpcBlock.ofBlock, RpcBlock.ofHeader, Option.getD_some] at hnumber
    rw [BitVec.toNat_setWidth_of_le (by omega), BitVec.toNat_setWidth_of_le (by omega),
      hw.toNat_number hlast, hw.toNat_number hblock] at hnumber
    rw [← hnumber, hlast] at hblock
    cases hblock
    exact (hw.transactions_last_iff hb).mp (shows_ofBlock_iff.mp hshows)
  · intro hone n' hp'
    rw [hp] at hp'
    cases hp'
    refine ⟨fun block hblock => ⟨_, rfl, ?_⟩, fun hle => absurd hn (Nat.not_lt.mpr hle)⟩
    have hzero : n.toNat = db.blocks.length - 1 := by omega
    rw [hzero, hlast] at hblock
    cases hblock
    exact shows_ofBlock_iff.mpr ((hw.transactions_last_iff hb).mpr hone)

/-- On a reachable store the lookup agrees with the tag exactly when the tag is not resolved,
or it is resolved to the genesis block and there is no other block. The block of a receipt is
never shown with the receipt's transaction. -/
theorem Reachable.lookupAgrees_iff (h : Reachable c evm db) :
    (∀ tag full, LookupAgrees db c tag (blockByNumber c tag full ⟨db, false⟩).1 ↔
      parseNumber (some tag) db = some (.error "err") ∨
        (db.blocks.length = 1 ∧ ¬ Beyond db (some tag))) ∧
    (∀ hash r n full, db.receipt c hash = some (some r) → r.blockNumber = some n →
      ∃ rich, (blockByNumber c (.num (n.setWidth 64)) full ⟨db, false⟩).1 =
        some (.ok (some rich)) ∧ hash ∉ rich.inner.transactions.hashList) := by
  have hw := h.wellFormed
  obtain ⟨last, hb⟩ := hw.exists_last
  refine ⟨fun tag full => ?_, fun hash r n full _ _ => ?_⟩
  · rw [blockByNumber_eq hb]
    rcases hw.parseNumber_cases (some tag) with ⟨n, hp, hn, _, hbeyond⟩ | ⟨n, hp, hn, _, hbeyond⟩ |
      ⟨hp, _, _⟩
    · rw [lookupAgrees_of_resolved hw hb hp hn, hp]
      simp [hbeyond]
    · refine iff_of_false (fun hagrees => ?_) (by simp [hp, hbeyond])
      have hnone := (hagrees n hp).2 hn
      cases hnone
    · refine iff_of_true (fun n hn => ?_) (Or.inl hp)
      rw [hp] at hn
      cases hn
  · exact ⟨_, congrArg Prod.fst (blockByNumber_eq hb _ _), by simp [RpcBlock.hashList_ofBlock]⟩

/-- The store of the sample machine with one creation, which has a receipt. -/
theorem lookupAgrees_iff_submitted :
    ∃ (db : HashMapEthDB) (tx : SignedTransaction) (r : RpcReceipt), db.blocks.length = 2 ∧
      db.receipt .sample tx.hash = some (some r) ∧ r.blockNumber = some 1 ∧
      (∀ tag full, LookupAgrees db .sample tag (blockByNumber .sample tag full ⟨db, false⟩).1 ↔
        parseNumber (some tag) db = some (.error "err") ∨
          (db.blocks.length = 1 ∧ ¬ Beyond db (some tag))) ∧
      ∀ full, ∃ rich, (blockByNumber .sample (.num 1) full ⟨db, false⟩).1 =
        some (.ok (some rich)) ∧ tx.hash ∉ rich.inner.transactions.hashList := by
  let tx : SignedTransaction := ⟨⟨{}, 27, 1, 1, .zero⟩, .zero, none⟩
  let db := (new .sample 0).extend .sample .sample 5 tx (Block.genesis .sample 0) ∅
  have h : Reachable .sample .sample db := ⟨0, .tail .refl (.submitTx 5 tx (.ok ())
    ((submitTx_eq rfl rfl).trans (if_pos rfl)) (Nat.le_of_ble_eq_true rfl))⟩
  have hr : db.receipt .sample tx.hash = some (some _) :=
    receipt_extend_eq (WellFormed.new _ _) rfl
  exact ⟨db, tx, _, rfl, hr, rfl, h.lookupAgrees_iff.1,
    fun full => h.lookupAgrees_iff.2 tx.hash _ 1 full hr rfl⟩

/-- With one block on top of genesis, every lookup shows this block and no transaction. So block
0 is shown as block 1, and the block of the receipt lacks the receipt's transaction. -/
theorem blockByNumber_newest :
    ∃ db block tx r, Reachable .sample .sample db ∧ db.bestNumber = some 1 ∧
      db.blocks[1]? = some block ∧ block.transactions = [tx] ∧
      db.receipt .sample tx.hash = some (some r) ∧ r.blockNumber = some 1 ∧
      (∀ tag full, ∃ rich, (blockByNumber .sample tag full ⟨db, false⟩).1 =
        some (.ok (some rich)) ∧ rich.inner.number = some 1 ∧
        rich.inner.transactions.hashList = []) ∧
      ¬ LookupAgrees db .sample (.num 0) (blockByNumber .sample (.num 0) true ⟨db, false⟩).1 := by
  let tx : SignedTransaction := ⟨⟨{}, 27, 1, 1, .zero⟩, .zero, none⟩
  let genesis := Block.genesis .sample 0
  let block := genesis.next .sample 5 [tx]
  let db := (new .sample 0).extend .sample .sample 5 tx genesis ∅
  have h : Reachable .sample .sample db := ⟨0, .tail .refl (.submitTx 5 tx (.ok ())
    ((submitTx_eq rfl rfl).trans (if_pos rfl)) (Nat.le_of_ble_eq_true rfl))⟩
  have hb : db.blocks.getLast? = some block := rfl
  refine ⟨db, block, tx, _, h, rfl, rfl, rfl, receipt_extend_eq (WellFormed.new _ _) rfl, rfl,
    fun tag full => ⟨_, congrArg Prod.fst (blockByNumber_eq hb tag full), rfl, rfl⟩, ?_⟩
  rw [blockByNumber_eq hb]
  intro hagrees
  obtain ⟨rich, hresponse, hshows⟩ := (hagrees 0 rfl).1 genesis rfl
  cases hresponse
  exact absurd hshows.number (by decide)

end HashMapEthDB

end

end Tethereum
