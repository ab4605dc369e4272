import Tethereum.Db.History

/-!
# Rebuilding a store from its blocks

A block keeps the time and the transaction it was made of. Submitted to a new store
once more, they make the same blocks, index and records, and the same account maps,
except where estimates have changed old ones.
-/

namespace Tethereum

namespace HashMapEthDB

/-- The transactions of the blocks, each with the time of its block. -/
def submissions (blocks : List Block) : List (U64 × SignedTransaction) :=
  blocks.flatMap fun block => block.transactions.map (block.header.timestamp, ·)

/-- A new store at the time of the first block, to which the transactions of all blocks are
submitted once more. -/
def rebuild (c : Crypto) (evm : Evm) (blocks : List Block) : Outcome HashMapEthDB := do
  let genesis ← blocks.head?
  submitTxs c evm (submissions blocks) (new c genesis.header.timestamp)

/-- The operation changes no account maps but touched ones under the newest. -/
def Spares (touched : Set Nat) (db db' : HashMapEthDB) : Prop :=
  ∀ i < db.accounts.length, db'.accounts[i]? = db.accounts[i]? ∨
    i ∈ touched ∧ i + 1 < db.accounts.length

/-- The stores are the same but for touched account maps under the newest. -/
structure SameBut (touched : Set Nat) (db db' : HashMapEthDB) : Prop where
  /-- The blocks are the same. -/
  blocks : db.blocks = db'.blocks
  /-- The index is the same. -/
  hashIndex : db.hashIndex = db'.hashIndex
  /-- The records are the same. -/
  infos : db.infos = db'.infos
  /-- There are as many account maps. -/
  length : db.accounts.length = db'.accounts.length
  /-- The account maps are the same, but for touched ones under the newest. -/
  accounts : ∀ i, i ∉ touched ∨ i + 1 = db.accounts.length → db.accounts[i]? = db'.accounts[i]?

section

variable {c : Crypto} {evm : Evm} {touched : Set Nat} {db db' db'' : HashMapEthDB} {now : U64}
  {tx : SignedTransaction}

theorem SameBut.refl (touched : Set Nat) (db : HashMapEthDB) : SameBut touched db db where
  blocks := rfl
  hashIndex := rfl
  infos := rfl
  length := rfl
  accounts _ _ := rfl

/-- Where nothing is touched, the stores are the same. -/
theorem SameBut.eq (h : SameBut ∅ db db') : db = db' := by
  obtain ⟨blocks, accounts, hashIndex, infos⟩ := db
  obtain ⟨hblocks, hhashIndex, hinfos, _, haccounts⟩ := h
  have hsame : accounts = db'.accounts := by
    apply List.ext_getElem?
    intro i
    exact haccounts i (Or.inl (Set.notMem_empty i))
  subst hblocks hhashIndex hinfos hsame
  rfl

/-- The newest account maps are the same. -/
theorem SameBut.getLast?_accounts (h : SameBut touched db db') (ha : db.accounts ≠ []) :
    db.accounts.getLast? = db'.accounts.getLast? := by
  have hpos := List.length_pos_iff.mpr ha
  rw [List.getLast?_eq_getElem?, List.getLast?_eq_getElem?, ← h.length]
  exact h.accounts _ (Or.inr (Nat.sub_add_cancel hpos))

/-- An execution on one of the stores is one on the other. -/
theorem SameBut.executes (h : SameBut touched db db') (hexec : Executes c evm now tx db db'') :
    ∃ db₁, Executes c evm now tx db' db₁ ∧ SameBut touched db'' db₁ := by
  obtain ⟨last, latest, hb, ha, hr, rfl⟩ := hexec
  have hlast : db'.blocks.getLast? = some last := by rw [← h.blocks, hb]
  have hlatest : db'.accounts.getLast? = some latest := by
    rw [← h.getLast?_accounts (List.ne_nil_of_mem (List.mem_of_getLast? ha)), ha]
  refine ⟨_, ⟨last, latest, hlast, hlatest, hr, rfl⟩, ?_⟩
  constructor
  · simp only [extend, h.blocks]
  · simp only [extend, h.hashIndex]
  · simp only [extend, h.infos]
  · simp only [extend, List.length_append, h.length]
  · intro i hi
    simp only [extend, List.length_append, List.length_singleton] at hi ⊢
    by_cases hlt : i < db.accounts.length
    · rw [List.getElem?_append_left hlt, List.getElem?_append_left (lt_of_lt_of_eq hlt h.length)]
      exact h.accounts i (hi.imp_right fun he => absurd he (by omega))
    · have hle := Nat.not_lt.mp hlt
      rw [List.getElem?_append_right hle, List.getElem?_append_right (h.length ▸ hle), h.length]

/-- Other account maps at touched positions leave the rest the same. -/
theorem SameBut.spares {accounts : List Accounts} (h : SameBut touched db db')
    (hlen : accounts.length = db.accounts.length)
    (hspares : Spares touched db { db with accounts }) :
    SameBut touched { db with accounts } db' where
  blocks := h.blocks
  hashIndex := h.hashIndex
  infos := h.infos
  length := hlen.trans h.length
  accounts i hi := by
    rw [hlen] at hi
    rw [← h.accounts i hi]
    by_cases hlt : i < db.accounts.length
    · rcases hspares i hlt with hsame | ⟨htouched, hold⟩
      · exact hsame
      · rcases hi with hnot | hnewest
        · exact absurd htouched hnot
        · omega
    · have hle := Nat.not_lt.mp hlt
      rw [List.getElem?_eq_none hle, List.getElem?_eq_none (hlen ▸ hle)]

/-- Submissions in a row. -/
theorem submitTxs_append (earlier later : List (U64 × SignedTransaction)) (db : HashMapEthDB) :
    submitTxs c evm (earlier ++ later) db =
      (submitTxs c evm earlier db).bind (submitTxs c evm later) := by
  induction earlier generalizing db with
  | nil => rfl
  | cons req earlier ih =>
    simp only [List.cons_append, submitTxs, ih, Option.bind_eq_bind, Option.bind_assoc]

/-- The genesis block makes a new store. -/
theorem rebuild_new (c : Crypto) (evm : Evm) (now : U64) :
    rebuild c evm (new c now).blocks = some (new c now) := rfl

/-- A block with one transaction on top is one more submission. -/
theorem rebuild_concat {blocks : List Block} {block : Block} (hb : blocks ≠ [])
    (ht : block.transactions = [tx]) :
    rebuild c evm (blocks ++ [block]) =
      (rebuild c evm blocks).bind (submitTxs c evm [(block.header.timestamp, tx)]) := by
  obtain ⟨genesis, rest, rfl⟩ := List.exists_cons_of_ne_nil hb
  have hsub : submissions (genesis :: rest ++ [block]) =
      submissions (genesis :: rest) ++ [(block.header.timestamp, tx)] := by
    rw [submissions, submissions, List.flatMap_append, List.flatMap_singleton, ht,
      List.map_singleton]
  simp only [rebuild, hsub, submitTxs_append]
  rfl

/-- What is rebuilt from the blocks of a store is rebuilt from those after an execution. -/
theorem SameBut.rebuild_executes (h : SameBut touched db db')
    (hre : rebuild c evm db.blocks = some db') (hexec : Executes c evm now tx db db'') :
    ∃ db₁, rebuild c evm db''.blocks = some db₁ ∧ SameBut touched db'' db₁ := by
  obtain ⟨db₁, ⟨last, latest, hlast, hlatest, hr, rfl⟩, hsame⟩ := h.executes hexec
  refine ⟨_, ?_, hsame⟩
  have hb : db'.blocks ≠ [] := List.ne_nil_of_mem (List.mem_of_getLast? hlast)
  rw [h.blocks] at hre
  rw [hsame.blocks]
  change rebuild c evm (db'.blocks ++ [last.next c now [tx]]) = _
  rw [rebuild_concat hb Block.transactions_next, hre, Option.bind_some]
  exact submitTxs_singleton hlast hlatest hr

/-- In a run whose estimates change nothing but touched account maps under the newest, the
blocks make the store once more, but for these maps. So where nothing is touched, they make the
whole store. -/
theorem exists_rebuild {touched : Set Nat}
    (hrun : Relation.ReflTransGen (fun db db' => DbStep c evm db db' ∧ Spares touched db db')
      (new c now) db) :
    ∃ db', rebuild c evm db.blocks = some db' ∧ SameBut touched db db' ∧
      (touched = ∅ → db' = db) := by
  have hrebuild : db.WellFormed c ∧
      ∃ db', rebuild c evm db.blocks = some db' ∧ SameBut touched db db' := by
    induction hrun with
    | refl => exact ⟨.new c now, _, rebuild_new c evm now, .refl touched _⟩
    | tail _ hstep ih =>
      obtain ⟨hw, db', hre, hsame⟩ := ih
      obtain ⟨hstep, hspares⟩ := hstep
      refine ⟨hw.dbStep hstep, ?_⟩
      rcases hw.dbStep_cases hstep with rfl | ⟨now, tx, hexec, _⟩ | ⟨i, accounts, _, _, rfl⟩
      · exact ⟨db', hre, hsame⟩
      · exact hsame.rebuild_executes hre hexec
      · exact ⟨db', hre, hsame.spares List.length_set hspares⟩
  obtain ⟨_, db', hre, hsame⟩ := hrebuild
  refine ⟨db', hre, hsame, ?_⟩
  rintro rfl
  exact hsame.eq.symm

/-- A creation and an estimate for the genesis block under it. -/
theorem exists_rebuild_creation :
    let tx : SignedTransaction := ⟨⟨{}, 27, 1, 1, .zero⟩, .zero, none⟩
    let last := Block.genesis .sample 0
    let db := (new .sample 0).extend .sample .sample 5 tx last ∅
    ∃ db₁ db', db.estimateGas .sample 0 .zero 0 (some .zero) [] = some db₁ ∧
      rebuild .sample .sample db₁.2.blocks = some db' ∧ SameBut {0} db₁.2 db' ∧
        (({0} : Set Nat) = ∅ → db' = db₁.2) := by
  intro tx last db
  obtain ⟨⟨result, db₁⟩, hestimate⟩ : ∃ done,
      db.estimateGas .sample 0 .zero 0 (some .zero) [] = some done := ⟨_, rfl⟩
  have hsubmit : DbStep .sample .sample (new .sample 0) db := .submitTx 5 tx (.ok ())
    ((submitTx_eq rfl rfl).trans (if_pos rfl)) (Nat.le_of_ble_eq_true rfl)
  have hgrown : Spares {0} (new .sample 0) db := fun i hi =>
    Or.inl (List.getElem?_append_left hi)
  have hchanged : Spares {0} db db₁ := by
    obtain ⟨_, rfl⟩ : ∃ accounts, db₁ = { db with accounts := db.accounts.set 0 accounts } := by
      cases hestimate
      exact ⟨_, rfl⟩
    intro i _
    by_cases hi : i = 0
    · exact Or.inr ⟨hi, hi ▸ Nat.lt_of_sub_eq_succ rfl⟩
    · exact Or.inl (List.getElem?_set_ne (Ne.symm hi))
  have hrun : Relation.ReflTransGen
      (fun db db' => DbStep .sample .sample db db' ∧ Spares {0} db db') (new .sample 0) db₁ :=
    .tail (.tail .refl ⟨hsubmit, hgrown⟩)
      ⟨.estimateGas 0 .zero 0 (some .zero) [] result hestimate, hchanged⟩
  obtain ⟨db', hrebuild⟩ := exists_rebuild hrun
  exact ⟨_, db', hestimate, hrebuild⟩

end

end HashMapEthDB

end Tethereum
