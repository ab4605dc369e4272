import Tethereum.Db.ReadOnly

/-!
# The ledger behind a store

What a store is for, without its maps: a ledger of pages, each of them a block and the
world behind it. Hashes are looked up in the blocks, the newest first, and the machine
is shown a world. A store represents a ledger when its index, its records and its
account maps hold nothing but what the ledger tells.
-/

namespace Tethereum

open KeyedLog

/-! ## Ledgers -/

/-- A block and the world behind it. -/
structure Page where
  /-- The block. -/
  block : Block
  /-- The world. -/
  world : World

/-- Pages, oldest first. -/
structure Ledger where
  /-- The pages. -/
  pages : List Page
  /-- There is one. -/
  nonempty : pages ≠ []

namespace Ledger

/-- The newest page. -/
def newest (ledger : Ledger) : Page := ledger.pages.getLast ledger.nonempty

/-- The ledger with another page on top. -/
def push (ledger : Ledger) (page : Page) : Ledger where
  pages := ledger.pages ++ [page]
  nonempty := List.append_ne_nil_of_right_ne_nil _ (List.cons_ne_nil _ _)

/-- The ledger with another page in the place of an old one. -/
def set (ledger : Ledger) (i : Nat) (page : Page) : Ledger where
  pages := ledger.pages.set i page
  nonempty := by
    rw [ne_eq, List.set_eq_nil_iff]
    exact ledger.nonempty

/-- The blocks, oldest first. -/
def blocks (ledger : Ledger) : List Block := ledger.pages.map (·.block)

/-- The number of the newest block with the hash. -/
def position (c : Crypto) (ledger : Ledger) (hash : H256) : Option U64 :=
  (KeyedLog.newest (fun block : Block => block.header.hash c) hash ledger.blocks).head?.map
    (·.header.number)

/-- The transactions, each with its block, oldest first. -/
def inclusions (blocks : List Block) : List (Block × SignedTransaction) :=
  blocks.flatMap fun block => block.transactions.map (block, ·)

/-- The newest transaction with the hash, and its block. -/
def inclusion (ledger : Ledger) (hash : H256) : Option (Block × SignedTransaction) :=
  (KeyedLog.newest (fun entry : Block × SignedTransaction => entry.2.hash) hash
    (inclusions ledger.blocks)).head?

/-- The number that a tag stands for. -/
def resolve (c : Crypto) (ledger : Ledger) (tag : Option BlockNumber) : Except String U64 :=
  match tag.getD .latest with
  | .earliest => .ok 0
  | .hash hash _ => (ledger.position c hash).elim (.error "err") .ok
  | .num n => .ok n
  | .pending => .ok (BitVec.ofNat 64 (ledger.pages.length - 1))
  | .latest => .ok (BitVec.ofNat 64 (ledger.pages.length - 1))

/-- The receipt of the newest transaction with the hash. -/
def receipt (c : Crypto) (ledger : Ledger) (hash : H256) : Option RpcReceipt := do
  let (block, tx) ← ledger.inclusion hash
  let number ← ledger.position c (block.header.hash c)
  return {
    transactionHash := some hash
    transactionIndex := some 0
    blockHash := some (block.header.hash c)
    «from» := some tx.sender
    «to» := tx.transaction.receiver
    blockNumber := some (number.setWidth 256)
    contractAddress := tx.contractAddress c
    stateRoot := ledger.blocks[number.toNat]?.map (·.header.stateRoot)
    statusCode := some 1 }

/-- Put a transaction on a new page, if the machine's run of it succeeds. -/
def submit (c : Crypto) (evm : Evm) (now : U64) (ledger : Ledger) (tx : SignedTransaction) :
    Option Ledger :=
  let block := ledger.newest.block.next c now [tx]
  let done := evm.transact
    (ledger.newest.world.view tx.transaction.unsigned.gasPrice tx.sender block) tx.sender
    tx.transaction.unsigned.value tx.transaction.receiver tx.transaction.unsigned.data.toList
  if done.reason.isSucceed
  then some (ledger.push ⟨block, ledger.newest.world.overlay done.applies⟩)
  else none

/-- A message to the world behind a page, under the newest block. -/
def call (evm : Evm) (ledger : Ledger) (n : U64) (caller contractAddress : H160)
    (input : List UInt8) : Outcome (ExitReason × List UInt8 × U64) := do
  let page ← ledger.pages[n.toNat]?
  return evm.message (page.world.view 0 caller ledger.newest.block) caller contractAddress input

/-- A transaction in the world behind a page, under the newest block, which changes that
world. -/
def estimateGas (evm : Evm) (ledger : Ledger) (n : U64) (caller : H160) (value : U256)
    («to» : Option H160) (input : List UInt8) :
    Outcome ((ExitReason × List UInt8 × U64) × Ledger) := do
  let page ← ledger.pages[n.toNat]?
  let done := evm.transact (page.world.view 0 caller ledger.newest.block) caller value «to» input
  let world := if done.reason.isSucceed then page.world.overlay done.applies else page.world
  return ((done.reason, done.output.getD [], done.usedGas),
    ledger.set n.toNat ⟨page.block, world⟩)

end Ledger

/-! ## Stores that represent a ledger -/

/-- What a record tells clients of a transaction. -/
def TransactionInfo.told (info : TransactionInfo) : Option SignedTransaction × H256 × Nat :=
  (info.transaction, info.blockHash, info.index)

namespace HashMapEthDB

/-- The maps of the store hold what the ledger tells. -/
structure Represents (c : Crypto) (db : HashMapEthDB) (ledger : Ledger) : Prop where
  /-- The blocks are those of the pages. -/
  blocks : db.blocks = ledger.blocks
  /-- The account maps are those of the worlds. -/
  worlds : db.accounts.map Accounts.world = ledger.pages.map (·.world)
  /-- They store no zero. -/
  sparse : ∀ accounts ∈ db.accounts, accounts.Sparse
  /-- The index holds the newest block of every hash. -/
  hashIndex : ∀ hash : H256, db.hashIndex[hash]? = ledger.position c hash
  /-- The records are those of the newest transaction of every hash. -/
  infos : ∀ hash : H256, db.infos[hash]?.map TransactionInfo.told =
    (ledger.inclusion hash).map fun (block, tx) => (some tx, block.header.hash c, 0)

namespace Represents

variable {c : Crypto} {evm : Evm} {now : U64} {db db' : HashMapEthDB} {ledger ledger' : Ledger}
  {tx : SignedTransaction}

/-- There are as many pages as blocks. -/
theorem length_pages (h : Represents c db ledger) : ledger.pages.length = db.blocks.length := by
  rw [h.blocks, Ledger.blocks, List.length_map]

/-- There is a block. -/
theorem blocks_ne_nil (h : Represents c db ledger) : db.blocks ≠ [] := by
  rw [h.blocks, Ledger.blocks, ne_eq, List.map_eq_nil_iff]
  exact ledger.nonempty

/-- The newest block. -/
theorem getLast?_blocks (h : Represents c db ledger) :
    db.blocks.getLast? = some ledger.newest.block := by
  rw [h.blocks, Ledger.blocks, List.getLast?_map, List.getLast?_eq_some_getLast ledger.nonempty]
  rfl

/-- The accounts of a page. -/
theorem exists_accounts (h : Represents c db ledger) {i : Nat} {page : Page}
    (hp : ledger.pages[i]? = some page) :
    ∃ accounts, db.accounts[i]? = some accounts ∧ accounts.world = page.world ∧
      accounts.Sparse := by
  have hworld := congrArg (·[i]?) h.worlds
  simp only [List.getElem?_map, hp, Option.map_some] at hworld
  obtain ⟨accounts, ha, hw⟩ := Option.map_eq_some_iff.mp hworld
  exact ⟨accounts, ha, hw, h.sparse accounts (List.mem_of_getElem? ha)⟩

/-- Where there is no page there are no accounts. -/
theorem accounts_eq_none (h : Represents c db ledger) {i : Nat}
    (hp : ledger.pages[i]? = none) : db.accounts[i]? = none := by
  have hworld := congrArg (·[i]?) h.worlds
  simp only [List.getElem?_map, hp, Option.map_none] at hworld
  exact Option.map_eq_none_iff.mp hworld

/-- The newest accounts. -/
theorem exists_latest (h : Represents c db ledger) :
    ∃ latest, db.accounts.getLast? = some latest ∧ latest.world = ledger.newest.world ∧
      latest.Sparse := by
  have hworld := congrArg List.getLast? h.worlds
  rw [List.getLast?_map, List.getLast?_map, List.getLast?_eq_some_getLast ledger.nonempty]
    at hworld
  obtain ⟨latest, ha, hw⟩ := Option.map_eq_some_iff.mp hworld
  exact ⟨latest, ha, hw, h.sparse latest (List.mem_of_getLast? ha)⟩

/-- The best number. -/
theorem bestNumber_eq (h : Represents c db ledger) :
    db.bestNumber = some (BitVec.ofNat 64 (ledger.pages.length - 1)) := by
  rw [bestNumber_of_ne_nil h.blocks_ne_nil, h.length_pages]

/-- The best block. -/
theorem bestBlock_eq (h : Represents c db ledger) : db.bestBlock = some ledger.newest.block := by
  rw [bestBlock, List.isEmpty_eq_false_iff.mpr h.blocks_ne_nil, if_neg Bool.false_ne_true,
    ← List.getLast?_eq_getElem?, h.getLast?_blocks]

/-- The block of an inclusion is one of the blocks. -/
theorem mem_of_inclusion {hash : H256} {block : Block}
    (hi : ledger.inclusion hash = some (block, tx)) : block ∈ ledger.blocks := by
  have hmem := (mem_newest.mp (List.mem_of_head? hi)).1
  obtain ⟨block', hblock, hentry⟩ := List.mem_flatMap.mp hmem
  obtain ⟨_, _, he⟩ := List.mem_map.mp hentry
  cases he
  exact hblock

/-- The hash of a block has a position. -/
theorem position_of_mem {block : Block} (hb : block ∈ ledger.blocks) :
    ∃ n, ledger.position c (block.header.hash c) = some n := by
  have hne : newest (fun block : Block => block.header.hash c) (block.header.hash c)
      ledger.blocks ≠ [] := fun hnil => newest_eq_nil_iff.mp hnil block hb rfl
  exact ⟨_, by rw [Ledger.position, List.head?_eq_some_head hne, Option.map_some]⟩

/-- A receipt is the one of the ledger. -/
theorem receipt_eq (h : Represents c db ledger) (hash : H256) :
    db.receipt c hash = some (ledger.receipt c hash) := by
  have hinfo := h.infos hash
  cases hi : ledger.inclusion hash with
  | none =>
    rw [hi, Option.map_none, Option.map_eq_none_iff] at hinfo
    rw [receipt, hinfo, Ledger.receipt, hi]
    rfl
  | some entry =>
    obtain ⟨block, tx⟩ := entry
    rw [hi] at hinfo
    obtain ⟨info, hget, htold⟩ := Option.map_eq_some_iff.mp hinfo
    simp only [TransactionInfo.told, Prod.mk.injEq] at htold
    obtain ⟨ht, hhash, hindex⟩ := htold
    obtain ⟨n, hn⟩ := position_of_mem (c := c) (mem_of_inclusion hi)
    have hposition : db.hashIndex[info.blockHash]? = some n := by
      rw [hhash, h.hashIndex, hn]
    rw [HashMapEthDB.receipt_eq hget ht hposition, Ledger.receipt, hi, hhash, hindex, h.blocks]
    simp only [Option.bind_eq_bind, Option.bind_some, hn, Option.pure_def]
    rfl

/-- A call is one in the world of the page. -/
theorem call_eq (h : Represents c db ledger) (n : U64) (caller contractAddress : H160)
    (input : List UInt8) :
    db.call evm n caller contractAddress input =
      (ledger.call evm n caller contractAddress input).map (·, db) := by
  cases hp : ledger.pages[n.toNat]? with
  | none =>
    rw [HashMapEthDB.call, h.accounts_eq_none hp, Ledger.call, hp]
    rfl
  | some page =>
    obtain ⟨accounts, ha, hworld, hsparse⟩ := h.exists_accounts hp
    have hview : (requestBackend caller accounts ledger.newest.block).view = _ :=
      EthDBBackend.view_eq hsparse
    rw [HashMapEthDB.call_eq ha h.getLast?_blocks, Ledger.call, hp, EthDBBackend.call_fst, hview]
    simp only [requestBackend, hworld]
    rfl

/-- Other accounts in the place of those of a page are another world behind it. -/
theorem set (h : Represents c db ledger) {i : Nat} {page : Page} {accounts : Accounts}
    (hp : ledger.pages[i]? = some page) (hs : accounts.Sparse) :
    Represents c { db with accounts := db.accounts.set i accounts }
      (ledger.set i ⟨page.block, accounts.world⟩) := by
  have hsame : (ledger.pages.map (·.block)).set i page.block = ledger.pages.map (·.block) :=
    (set_eq_self_iff (by rw [List.getElem?_map, hp, Option.map_some])).mpr rfl
  have hblocks : (ledger.set i ⟨page.block, accounts.world⟩).blocks = ledger.blocks := by
    rw [Ledger.blocks, Ledger.set, List.map_set, hsame]
    rfl
  refine ⟨h.blocks.trans hblocks.symm, ?_, fun accounts' hmem => ?_, fun hash => ?_, fun hash => ?_⟩
  · rw [List.map_set, h.worlds, Ledger.set, List.map_set]
  · rcases List.mem_or_eq_of_mem_set hmem with hmem | rfl
    · exact h.sparse accounts' hmem
    · exact hs
  · rw [Ledger.position, hblocks]
    exact h.hashIndex hash
  · rw [Ledger.inclusion, hblocks]
    exact h.infos hash

/-- An estimate is one in the world of the page, and changes this world alone. -/
theorem estimateGas_cases (h : Represents c db ledger) (evm : Evm) (n : U64) (caller : H160)
    (value : U256) («to» : Option H160) (input : List UInt8) :
    (ledger.estimateGas evm n caller value «to» input = none ∧
      db.estimateGas evm n caller value «to» input = none) ∨
    ∃ result ledger' db',
      ledger.estimateGas evm n caller value «to» input = some (result, ledger') ∧
        db.estimateGas evm n caller value «to» input = some (result, db') ∧
          Represents c db' ledger' := by
  cases hp : ledger.pages[n.toNat]? with
  | none =>
    refine Or.inl ⟨?_, ?_⟩
    · rw [Ledger.estimateGas, hp]
      rfl
    · rw [HashMapEthDB.estimateGas, h.accounts_eq_none hp]
      rfl
  | some page =>
    obtain ⟨accounts, ha, hworld, hsparse⟩ := h.exists_accounts hp
    let done := evm.transact (page.world.view 0 caller ledger.newest.block) caller value «to» input
    have hrun : (requestBackend caller accounts ledger.newest.block).run evm caller value «to»
        input = done := by
      rw [EthDBBackend.run_eq, EthDBBackend.view_eq hsparse]
      simp only [requestBackend, hworld]
      rfl
    let accounts' := if done.reason.isSucceed
      then done.applies.foldl (Accounts.applyOne false) accounts else accounts
    have hafter : accounts'.Sparse ∧ accounts'.world =
        if done.reason.isSucceed then page.world.overlay done.applies else page.world := by
      simp only [accounts']
      split
      · rw [Accounts.world_foldl_applyOne, hworld]
        exact ⟨hsparse.foldl_applyOne false _, rfl⟩
      · exact ⟨hsparse, hworld⟩
    refine Or.inr ⟨(done.reason, done.output.getD [], done.usedGas),
      ledger.set n.toNat ⟨page.block, accounts'.world⟩,
      { db with accounts := db.accounts.set n.toNat accounts' }, ?_, ?_, h.set hp hafter.1⟩
    · rw [Ledger.estimateGas, hp, hafter.2]
      rfl
    · rw [HashMapEthDB.estimateGas_eq ha h.getLast?_blocks, hrun]

/-- A block with one transaction on top is another page. -/
theorem extend (h : Represents c db ledger) {latest : Accounts} (hs : latest.Sparse) :
    Represents c (db.extend c evm now tx ledger.newest.block latest)
      (ledger.push ⟨ledger.newest.block.next c now [tx],
        ((submitRun c evm now tx ledger.newest.block latest).applies.foldl
          (Accounts.applyOne false) latest).world⟩) := by
  have hblocks : ∀ page : Page, (ledger.push page).blocks = ledger.blocks ++ [page.block] := by
    intro page
    rw [Ledger.blocks, Ledger.push, List.map_append]
    rfl
  refine ⟨?_, ?_, fun accounts hmem => ?_, fun hash => ?_, fun hash => ?_⟩
  · rw [hblocks, ← h.blocks]
    rfl
  · rw [Ledger.push, List.map_append, ← h.worlds, HashMapEthDB.extend, List.map_append]
    rfl
  · rcases List.mem_append.mp hmem with hmem | hmem
    · exact h.sparse accounts hmem
    · obtain rfl := List.mem_singleton.mp hmem
      exact hs.foldl_applyOne false _
  · rw [getElem?_hashIndex_extend, Ledger.position, hblocks, newest_concat, h.hashIndex]
    split
    · rfl
    · rfl
  · have hentry : Ledger.inclusions (ledger.blocks ++ [ledger.newest.block.next c now [tx]]) =
        Ledger.inclusions ledger.blocks ++ [(ledger.newest.block.next c now [tx], tx)] := by
      rw [Ledger.inclusions, List.flatMap_append]
      rfl
    rw [getElem?_infos_extend, Ledger.inclusion, hblocks, hentry, newest_concat]
    split
    · rfl
    · exact h.infos hash

/-- A submission is put on a new page, or refused in both. -/
theorem submitTx_cases (h : Represents c db ledger) (evm : Evm) (now : U64)
    (tx : SignedTransaction) :
    (ledger.submit c evm now tx = none ∧
      db.submitTx c evm now tx = some (.error "invalid transaction received", db)) ∨
    ∃ ledger' db', ledger.submit c evm now tx = some ledger' ∧
      db.submitTx c evm now tx = some (.ok (), db') ∧ Represents c db' ledger' := by
  obtain ⟨latest, ha, hworld, hsparse⟩ := h.exists_latest
  have hrun : submitRun c evm now tx ledger.newest.block latest = evm.transact
      (ledger.newest.world.view tx.transaction.unsigned.gasPrice tx.sender
        (ledger.newest.block.next c now [tx])) tx.sender tx.transaction.unsigned.value
      tx.transaction.receiver tx.transaction.unsigned.data.toList := by
    rw [submitRun_eq hsparse, hworld]
  rw [HashMapEthDB.submitTx_eq h.getLast?_blocks ha, Ledger.submit, ← hrun]
  by_cases hr : (submitRun c evm now tx ledger.newest.block latest).reason.isSucceed
  · refine Or.inr ⟨_, _, if_pos hr, if_pos hr, ?_⟩
    rw [← hworld, ← Accounts.world_foldl_applyOne]
    exact h.extend hsparse
  · exact Or.inl ⟨if_neg hr, if_neg hr⟩

/-- A new store represents the ledger with the genesis block alone. -/
theorem new (c : Crypto) (now : U64) :
    Represents c (new c now) ⟨[⟨Block.genesis c now, fun _ => none⟩], List.cons_ne_nil _ _⟩ where
  blocks := rfl
  worlds := by
    simp only [HashMapEthDB.new, createGenesis, List.nil_append, List.map_cons, List.map_nil,
      List.cons.injEq, and_true]
    funext address
    simp [Accounts.world]
  sparse accounts hmem := by
    obtain rfl := List.mem_singleton.mp hmem
    exact Accounts.sparse_empty
  hashIndex hash := by
    have hblocks : Ledger.blocks ⟨[⟨Block.genesis c now, fun _ => none⟩], List.cons_ne_nil _ _⟩ =
        [] ++ [Block.genesis c now] := rfl
    rw [Ledger.position, hblocks, newest_concat]
    refine (getElem?_insert_ite (m := ∅)).trans ?_
    split
    · rfl
    · simp
  infos hash := by
    simp [HashMapEthDB.new, createGenesis, Ledger.inclusion, Ledger.inclusions, Ledger.blocks,
      Block.genesis]

end Represents

/-- Every reachable store represents a ledger. -/
theorem Reachable.exists_represents {c : Crypto} {evm : Evm} {db : HashMapEthDB}
    (h : Reachable c evm db) : ∃ ledger, Represents c db ledger := by
  obtain ⟨now, hrun⟩ := h
  induction hrun with
  | refl => exact ⟨_, Represents.new c now⟩
  | tail _ hstep ih =>
    obtain ⟨ledger, h⟩ := ih
    cases hstep with
    | submitTx now tx result hs hlen =>
      rcases h.submitTx_cases evm now tx with ⟨_, hrefused⟩ | ⟨ledger', db', _, hdone, h'⟩
      · rw [hrefused] at hs
        cases hs
        exact ⟨ledger, h⟩
      · rw [hdone] at hs
        cases hs
        exact ⟨ledger', h'⟩
    | estimateGas n caller value to' input result hs =>
      rcases h.estimateGas_cases evm n caller value to' input with ⟨_, hnone⟩ |
        ⟨_, ledger', db', _, hdone, h'⟩
      · rw [hnone] at hs
        cases hs
      · rw [hdone] at hs
        cases hs
        exact ⟨ledger', h'⟩
    | call n caller contractAddress input result hs =>
      rw [h.call_eq] at hs
      obtain ⟨_, _, he⟩ := Option.map_eq_some_iff.mp hs
      cases he
      exact ⟨ledger, h⟩

end HashMapEthDB

end Tethereum
