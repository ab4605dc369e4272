import Tethereum.Db.Replay
import Mathlib.Data.List.Infix

/-!
# Calls on old blocks

Submissions put blocks and account maps on top and leave the older ones alone. A
call on an old block runs on the accounts of that block, which no submission
changes; but the block it shows to the machine is always the newest one.
-/

namespace Tethereum

namespace HashMapEthDB

/-- Blocks and account maps were only put on top. -/
structure Extends (db db' : HashMapEthDB) : Prop where
  /-- The old blocks are still there. -/
  blocks : db.blocks <+: db'.blocks
  /-- The old account maps are still there. -/
  accounts : db.accounts <+: db'.accounts

/-- Blocks, account maps and index fit together, on a store of any size. -/
structure Positioned (c : Crypto) (db : HashMapEthDB) : Prop where
  /-- There is a block. -/
  nonempty : db.blocks ≠ []
  /-- There is one account map for each block. -/
  aligned : db.blocks.length = db.accounts.length
  /-- A block carries its position as its number. -/
  numbered : ∀ (i : Nat) (block : Block), db.blocks[i]? = some block →
    block.header.number = BitVec.ofNat 64 i
  /-- What is indexed is a position. -/
  indexed : ∀ (hash : H256) (n : U64), db.hashIndex[hash]? = some n →
    n.toNat < db.blocks.length
  /-- What is indexed for a hash is the number of a block with the hash. -/
  recorded : ∀ (hash : H256) (n : U64), db.hashIndex[hash]? = some n →
    ∃ block ∈ db.blocks, block.header.hash c = hash ∧ block.header.number = n
  /-- Every block hash is indexed. -/
  named : ∀ block ∈ db.blocks, db.hashIndex[block.header.hash c]? ≠ none

/-- Submit transactions one after another, each at its clock reading. -/
def submitTxs (c : Crypto) (evm : Evm) :
    List (U64 × SignedTransaction) → HashMapEthDB → Outcome HashMapEthDB
  | [], db => some db
  | (now, tx) :: later, db => do
    let (_, db) ← db.submitTx c evm now tx
    submitTxs c evm later db

/-- No transaction of the list would be executed on the store as it is. -/
def RefusesAll (c : Crypto) (evm : Evm) (db : HashMapEthDB)
    (later : List (U64 × SignedTransaction)) : Prop :=
  ∀ last ∈ db.blocks.getLast?, ∀ latest ∈ db.accounts.getLast?, ∀ req ∈ later,
    (submitRun c evm req.1 req.2 last latest).reason.isSucceed = false

section

variable {c : Crypto} {evm : Evm} {now : U64} {db db' db'' : HashMapEthDB}
  {tx : SignedTransaction} {later : List (U64 × SignedTransaction)}

theorem Extends.refl (db : HashMapEthDB) : Extends db db where
  blocks := List.prefix_refl _
  accounts := List.prefix_refl _

theorem Extends.trans (h : Extends db db') (h' : Extends db' db'') : Extends db db'' where
  blocks := h.blocks.trans h'.blocks
  accounts := h.accounts.trans h'.accounts

/-- Old accounts are found where they were. -/
theorem Extends.getElem?_accounts (h : Extends db db') {i : Nat} (hi : i < db.accounts.length) :
    db'.accounts[i]? = db.accounts[i]? := by
  obtain ⟨newer, haccounts⟩ := h.accounts
  rw [← haccounts, List.getElem?_append_left hi]

/-- An execution puts one account map on top, with one block. -/
theorem Extends.of_executes (h : Executes c evm now tx db db') : Extends db db' := by
  obtain ⟨last, latest, _, _, _, rfl⟩ := h
  exact ⟨List.prefix_append _ _, List.prefix_append _ _⟩

/-- An execution adds one block. -/
theorem length_blocks_of_executes (h : Executes c evm now tx db db') :
    db'.blocks.length = db.blocks.length + 1 := by
  obtain ⟨last, latest, _, _, _, rfl⟩ := h
  rw [extend, List.length_append, List.length_singleton]

/-- A store that was extended is not empty if it was not before. -/
theorem Extends.ne_nil (h : Extends db db') (hb : db.blocks ≠ []) (ha : db.accounts ≠ []) :
    db'.blocks ≠ [] ∧ db'.accounts ≠ [] :=
  ⟨fun hnil => hb (List.prefix_nil.mp (hnil ▸ h.blocks)),
    fun hnil => ha (List.prefix_nil.mp (hnil ▸ h.accounts))⟩

/-- In a well-formed store everything fits together. -/
theorem WellFormed.positioned (h : db.WellFormed c) : Positioned c db where
  nonempty := h.blocks_ne_nil
  aligned := h.aligned
  numbered _ _ hb := h.number_eq hb
  indexed _ _ hn := by
    obtain ⟨block, hb, _⟩ := h.block_of_hashIndex hn
    exact (List.getElem?_eq_some_iff.mp hb).1
  recorded _ _ hn := by
    obtain ⟨block, hb, hhash⟩ := h.block_of_hashIndex hn
    exact ⟨block, List.mem_of_getElem? hb, hhash, BitVec.eq_of_toNat_eq (h.toNat_number hb)⟩
  named _ hb := h.hashIndex_ne_none hb rfl

namespace Positioned

/-- There is an account map. -/
theorem accounts_ne_nil (h : Positioned c db) : db.accounts ≠ [] := by
  have hpos := List.length_pos_iff.mpr h.nonempty
  exact List.length_pos_iff.mp (lt_of_lt_of_eq hpos h.aligned)

/-- The number of the newest block is its position. -/
theorem number_last (h : Positioned c db) {last : Block}
    (hb : db.blocks.getLast? = some last) :
    last.header.number = BitVec.ofNat 64 (db.blocks.length - 1) := by
  rw [List.getLast?_eq_getElem?] at hb
  exact h.numbered _ last hb

/-- An execution keeps everything in its place. -/
theorem executes (h : Positioned c db) (hexec : Executes c evm now tx db db') :
    Positioned c db' := by
  obtain ⟨last, latest, hb, ha, _, rfl⟩ := hexec
  have hpos := List.length_pos_iff.mpr h.nonempty
  have hnumber : (last.next c now [tx]).header.number = BitVec.ofNat 64 db.blocks.length := by
    rw [Block.number_next, h.number_last hb]
    apply BitVec.eq_of_toNat_eq
    simp only [BitVec.ofNat_eq_ofNat, BitVec.toNat_add, BitVec.toNat_ofNat]
    omega
  refine {
    nonempty := List.append_ne_nil_of_right_ne_nil _ (List.cons_ne_nil _ _)
    aligned := ?_
    numbered := ?_
    indexed := ?_
    recorded := ?_
    named := ?_ }
  · simp only [extend, List.length_append, h.aligned, List.length_singleton]
  · intro i block hi
    rw [extend] at hi
    rcases getElem?_concat_cases hi with ⟨_, hi⟩ | ⟨rfl, rfl⟩
    · exact h.numbered i block hi
    · exact hnumber
  · intro hash n hn
    rw [getElem?_hashIndex_extend] at hn
    rw [extend, List.length_append, List.length_singleton]
    by_cases hh : (last.next c now [tx]).header.hash c = hash
    · rw [if_pos hh] at hn
      cases hn
      have hmod := Nat.mod_le db.blocks.length (2 ^ 64)
      rw [hnumber, BitVec.toNat_ofNat]
      omega
    · rw [if_neg hh] at hn
      exact Nat.lt_succ_of_lt (h.indexed hash n hn)
  · intro hash n hn
    rw [getElem?_hashIndex_extend] at hn
    by_cases hh : (last.next c now [tx]).header.hash c = hash
    · rw [if_pos hh] at hn
      exact ⟨_, List.mem_append_right _ List.mem_cons_self, hh, Option.some.inj hn⟩
    · rw [if_neg hh] at hn
      obtain ⟨block, hmem, hhash⟩ := h.recorded hash n hn
      exact ⟨block, List.mem_append_left _ hmem, hhash⟩
  · intro block hmem
    rw [getElem?_hashIndex_extend]
    by_cases hh : (last.next c now [tx]).header.hash c = block.header.hash c
    · rw [if_pos hh]
      exact Option.some_ne_none _
    · rw [if_neg hh]
      rcases List.mem_append.mp hmem with hmem | hmem
      · exact h.named block hmem
      · exact absurd (congrArg (·.header.hash c) (List.mem_singleton.mp hmem).symm) hh

/-- Other accounts in the place of old ones leave everything in its place. -/
theorem set (h : Positioned c db) (i : Nat) (accounts : Accounts) :
    Positioned c { db with accounts := db.accounts.set i accounts } where
  nonempty := h.nonempty
  aligned := by rw [List.length_set, h.aligned]
  numbered := h.numbered
  indexed := h.indexed
  recorded := h.recorded
  named := h.named

end Positioned

/-- Submissions put blocks and account maps on top. -/
theorem Extends.of_submitTxs (hb : db.blocks ≠ []) (ha : db.accounts ≠ [])
    (hs : submitTxs c evm later db = some db') : Extends db db' := by
  induction later generalizing db with
  | nil =>
    cases hs
    exact .refl _
  | cons req later ih =>
    obtain ⟨⟨result, db₁⟩, hone, hrest⟩ := Option.bind_eq_some_iff.mp hs
    rcases submitTx_cases hb ha hone with ⟨_, hexec⟩ | ⟨_, rfl⟩
    · have hext := Extends.of_executes hexec
      obtain ⟨hb₁, ha₁⟩ := hext.ne_nil hb ha
      exact hext.trans (ih hb₁ ha₁ hrest)
    · exact ih hb ha hrest

/-- Submissions keep the store well formed. -/
theorem WellFormed.submitTxs (h : db.WellFormed c) (hs : submitTxs c evm later db = some db')
    (hlen : db'.blocks.length ≤ isizeMax) : db'.WellFormed c := by
  induction later generalizing db with
  | nil =>
    cases hs
    exact h
  | cons req later ih =>
    obtain ⟨⟨result, db₁⟩, hone, hrest⟩ := Option.bind_eq_some_iff.mp hs
    rcases h.submitTx_cases hone with ⟨_, hexec⟩ | ⟨_, rfl⟩
    · obtain ⟨hb₁, ha₁⟩ := (Extends.of_executes hexec).ne_nil h.blocks_ne_nil h.accounts_ne_nil
      have hle := (Extends.of_submitTxs hb₁ ha₁ hrest).blocks.length_le
      exact ih (h.executes hexec (hle.trans hlen)) hrest
    · exact ih h hrest

/-- Submissions either all are refused and change nothing, or they add a block. -/
theorem submitTxs_cases {last : Block} {latest : Accounts}
    (hb : db.blocks.getLast? = some last) (ha : db.accounts.getLast? = some latest)
    (hs : submitTxs c evm later db = some db') :
    (db' = db ∧ RefusesAll c evm db later) ∨
      (db.blocks.length < db'.blocks.length ∧ ¬ RefusesAll c evm db later) := by
  simp only [RefusesAll, hb, ha, Option.mem_some_iff, forall_eq']
  induction later with
  | nil =>
    cases hs
    exact Or.inl ⟨rfl, by simp⟩
  | cons req later ih =>
    obtain ⟨⟨result, db₁⟩, hone, hrest⟩ := Option.bind_eq_some_iff.mp hs
    rw [List.forall_mem_cons]
    rw [submitTx_eq hb ha] at hone
    split at hone
    · rename_i hr
      cases hone
      have hexec : Executes c evm req.1 req.2 db _ := ⟨last, latest, hb, ha, hr, rfl⟩
      obtain ⟨hb₁, ha₁⟩ := (Extends.of_executes hexec).ne_nil
        (List.ne_nil_of_mem (List.mem_of_getLast? hb))
        (List.ne_nil_of_mem (List.mem_of_getLast? ha))
      have hle := (Extends.of_submitTxs hb₁ ha₁ hrest).blocks.length_le
      have hlen := length_blocks_of_executes hexec
      refine Or.inr ⟨by omega, ?_⟩
      rw [hr]
      simp
    · rename_i hr
      cases hone
      simpa only [Bool.eq_false_iff.mpr hr, true_and] using ih hrest

/-- The submission of one transaction that is executed. -/
theorem submitTxs_singleton {last : Block} {latest : Accounts}
    (hb : db.blocks.getLast? = some last) (ha : db.accounts.getLast? = some latest)
    (hr : (submitRun c evm now tx last latest).reason.isSucceed) :
    submitTxs c evm [(now, tx)] db = some (db.extend c evm now tx last latest) := by
  simp only [submitTxs, submitTx_eq hb ha, if_pos hr, Option.bind_eq_bind, Option.bind_some]

/-- Submissions do not ask the machine for calls. -/
theorem submitTxs_withCall (answer : CallAnswer) (later : List (U64 × SignedTransaction))
    (db : HashMapEthDB) :
    submitTxs c (evm.withCall answer) later db = submitTxs c evm later db := by
  induction later generalizing db with
  | nil => rfl
  | cons req later ih =>
    have hone : db.submitTx c (evm.withCall answer) req.1 req.2 =
        db.submitTx c evm req.1 req.2 := rfl
    simp only [submitTxs, hone, ih]

/-! ## Calls -/

/-- An answer that tells the number of the block it is asked about. -/
def answerBlockNumber : CallAnswer := fun backend _ _ _ _ _ _ =>
  (.trap, backend.blockNumber.setWidth 64)

/-- A call on any block tells the number of the newest one. -/
theorem call_answerBlockNumber {n : U64} {accounts : Accounts} {last : Block}
    (ha : db.accounts[n.toNat]? = some accounts) (hb : db.blocks.getLast? = some last)
    (caller contractAddress : H160) (input : List UInt8) :
    db.call (evm.withCall answerBlockNumber) n caller contractAddress input =
      some ((.succeed .returned, [], last.header.number), db) := by
  have hwidth : (last.header.number.setWidth 256).setWidth 64 = last.header.number := by
    apply BitVec.eq_of_toNat_eq
    have hlt := last.header.number.isLt
    simp only [BitVec.toNat_setWidth]
    omega
  rw [call_eq ha hb]
  simp only [EthDBBackend.call, EthDBBackend.view, requestBackend, Evm.withCall,
    answerBlockNumber, hwidth]

/-- After submissions to a reachable store the accounts behind an old block are the same. A
call on them answers as before on every machine exactly when nothing was executed. -/
theorem Reachable.call_stable_iff (h : Reachable c evm db) {n best : U64}
    (hbest : db.bestNumber = some best) (hn : n ≤ best)
    (hs : submitTxs c evm later db = some db') (hlen : db'.blocks.length ≤ isizeMax)
    (caller contractAddress : H160) (input : List UInt8) :
    (∀ answer, Reachable c (evm.withCall answer) db ∧
      submitTxs c (evm.withCall answer) later db = some db') ∧
    db'.accounts[n.toNat]? = db.accounts[n.toNat]? ∧
    ((∀ answer, ∃ result,
      db.call (evm.withCall answer) n caller contractAddress input = some (result, db) ∧
      db'.call (evm.withCall answer) n caller contractAddress input =
        some (result, db')) ↔
      RefusesAll c evm db later) := by
  have hw := h.wellFormed
  have hw' := hw.submitTxs hs hlen
  have hlt := hw.lt_of_le_best hbest hn
  have hext := Extends.of_submitTxs hw.blocks_ne_nil hw.accounts_ne_nil hs
  have hsame := hext.getElem?_accounts (lt_of_lt_of_eq hlt hw.aligned)
  obtain ⟨accounts, hget⟩ := hw.exists_accounts hlt
  obtain ⟨last, hb⟩ := hw.exists_last
  obtain ⟨latest, ha⟩ := hw.exists_latest
  refine ⟨fun answer => ⟨h.withCall answer, (submitTxs_withCall answer later db).trans hs⟩,
    hsame, ?_⟩
  rcases submitTxs_cases hb ha hs with ⟨rfl, hrefuse⟩ | ⟨hgrown, hnot⟩
  · exact iff_of_true (fun answer => ⟨_, call_eq hget hb _ _ _, call_eq hget hb _ _ _⟩) hrefuse
  · refine iff_of_false (fun hall => ?_) hnot
    -- the two newest blocks have different numbers, and the machine may tell them
    obtain ⟨last', hb'⟩ := hw'.exists_last
    obtain ⟨result, hbefore, hafter⟩ := hall answerBlockNumber
    rw [call_answerBlockNumber hget hb] at hbefore
    rw [call_answerBlockNumber (hsame.trans hget) hb'] at hafter
    cases hbefore
    have hnumber : last'.header.number = last.header.number := by
      simpa only [Option.some.injEq, Prod.mk.injEq, true_and, and_true] using hafter
    rw [List.getLast?_eq_getElem?] at hb hb'
    have heq := congrArg BitVec.toNat hnumber
    rw [hw.toNat_number hb, hw'.toNat_number hb'] at heq
    have hpos := hw.length_pos
    omega

/-- A submission to the genesis store of the sample machine. -/
theorem call_stable_iff_genesis :
    let later : List (U64 × SignedTransaction) := [(5, ⟨⟨{}, 27, 1, 1, .zero⟩, .zero, none⟩)]
    ∃ db', submitTxs .sample .sample later (new .sample 0) = some db' ∧
      (∀ answer, Reachable .sample (Evm.sample.withCall answer) (new .sample 0) ∧
        submitTxs .sample (Evm.sample.withCall answer) later (new .sample 0) = some db') ∧
      db'.accounts[0]? = (new .sample 0).accounts[0]? ∧
      ((∀ answer, ∃ result,
        (new .sample 0).call (Evm.sample.withCall answer) 0 .zero .zero [] =
          some (result, new .sample 0) ∧
        db'.call (Evm.sample.withCall answer) 0 .zero .zero [] = some (result, db')) ↔
        RefusesAll .sample .sample (new .sample 0) later) :=
  ⟨_, rfl, (reachable_new .sample .sample 0).call_stable_iff (n := 0) rfl (Nat.le_refl 0) rfl
    (Nat.le_of_ble_eq_true rfl) .zero .zero []⟩

/-- A program that returns the block number answers a call on block 0 with 0 before a
submission and with 1 after it. -/
theorem call_drifts :
    let evm := Evm.sample.withCall answerBlockNumber
    ∃ db later db', Reachable .sample evm db ∧ db.bestNumber = some 0 ∧
      submitTxs .sample evm later db = some db' ∧
      db.call evm 0 .zero .zero [] = some ((.succeed .returned, [], 0), db) ∧
      db'.call evm 0 .zero .zero [] = some ((.succeed .returned, [], 1), db') := by
  intro evm
  let tx : SignedTransaction := ⟨⟨{}, 27, 1, 1, .zero⟩, .zero, none⟩
  let genesis := Block.genesis .sample 0
  let db' := (new .sample 0).extend .sample evm 5 tx genesis ∅
  have hbefore : (new .sample 0).blocks.getLast? = some genesis := rfl
  have hafter : db'.blocks.getLast? = some (genesis.next .sample 5 [tx]) := rfl
  exact ⟨new .sample 0, [(5, tx)], db', reachable_new _ _ 0, rfl,
    submitTxs_singleton rfl rfl rfl, call_answerBlockNumber rfl hbefore _ _ _,
    call_answerBlockNumber rfl hafter _ _ _⟩

end

end HashMapEthDB

end Tethereum
