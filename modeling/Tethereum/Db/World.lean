import Tethereum.Core.KeyedLog
import Tethereum.Db.Backend
import Std.Data.ExtTreeMap.Lemmas

/-!
# The world behind an account map

Abstractly a world assigns to each address at most one account, whose storage
is a total function. Laying changes over a world is last-write-wins, address by
address and field by field; applying the changes to an account map one after
another comes to the same. An account map without stored zeros is determined by
its world, and the machine is shown nothing else of it.
-/

namespace Tethereum

open KeyedLog

/-- An account as the machine sees it. -/
@[ext] structure WorldAccount where
  /-- Account nonce. -/
  nonce : U256 := 0
  /-- Account balance. -/
  balance : U256 := 0
  /-- Account code. -/
  code : List UInt8 := []
  /-- Account storage; a slot that was never written reads zero. -/
  storage : H256 → H256 := fun _ => .zero

/-- The accounts at their addresses. -/
abbrev World := H160 → Option WorldAccount

/-- The account a change concerns. -/
def Apply.address : Apply → H160
  | .modify change => change.address
  | .delete address => address

/-- What a modification leaves in a slot: the last value written to it, zero if
the storage is dropped, or nothing of its own. -/
def Modify.slot (change : Modify) (index : H256) : Option H256 :=
  ((newest Prod.fst index change.storage).head?.map Prod.snd).or
    (if change.resetStorage then some .zero else none)

/-- From the changes of one account, newest first: its modifications since the last
deletion, and whether there was a deletion. -/
def sinceDelete : List Apply → List Modify × Bool
  | [] => ([], false)
  | .delete _ :: _ => ([], true)
  | .modify change :: older => (change :: (sinceDelete older).1, (sinceDelete older).2)

/-- An account with modifications laid over it, newest first. -/
def WorldAccount.overlay (base : Option WorldAccount) (changes : List Modify) :
    Option WorldAccount :=
  match changes with
  | [] => base
  | last :: _ =>
    let old := base.getD {}
    some {
      nonce := last.basic.nonce
      balance := last.basic.balance
      code := (changes.findSome? (·.code)).getD old.code
      storage := fun index => (changes.findSome? (·.slot index)).getD (old.storage index) }

/-- The world with changes laid over it. -/
def World.overlay (world : World) (applies : List Apply) : World := fun address =>
  let since := sinceDelete (newest Apply.address address applies)
  WorldAccount.overlay (if since.2 then none else world address) since.1

/-- The account behind an account in memory. -/
def MemAccount.world (account : MemAccount) : WorldAccount where
  nonce := account.nonce
  balance := account.balance
  code := account.code
  storage index := account.storage[index]?.getD .zero

/-- The world behind an account map. -/
def Accounts.world (accounts : Accounts) : World := fun address =>
  accounts[address]?.map MemAccount.world

/-- The account nonce at an address, zero for an absent account. -/
def World.nonce (world : World) (address : H160) : U256 := ((world address).getD {}).nonce

/-- The code at an address, empty for an absent account. -/
def World.code (world : World) (address : H160) : List UInt8 := ((world address).getD {}).code

/-- No zero is stored. -/
def SparseStorage (storage : Std.ExtTreeMap H256 H256) : Prop :=
  ∀ index : H256, storage[index]? ≠ some FixedHash.zero

/-- No account stores a zero. -/
def Accounts.Sparse (accounts : Accounts) : Prop :=
  ∀ (address : H160) (account : MemAccount), accounts[address]? = some account →
    SparseStorage account.storage

/-! ## Maps -/

section

variable {κ β : Type} [Ord κ] [Std.TransOrd κ] [Std.LawfulEqOrd κ] [DecidableEq κ]
  {m : Std.ExtTreeMap κ β} {k a : κ} {v : β}

/-- Reading a map after an insertion. -/
theorem getElem?_insert_ite : (m.insert k v)[a]? = if k = a then some v else m[a]? := by
  simp only [Std.ExtTreeMap.getElem?_insert, Std.LawfulEqOrd.compare_eq_iff_eq]

/-- Reading a map after a removal. -/
theorem getElem?_erase_ite : (m.erase k)[a]? = if k = a then none else m[a]? := by
  simp only [Std.ExtTreeMap.getElem?_erase, Std.LawfulEqOrd.compare_eq_iff_eq]

end

/-! ## Storage -/

section

variable {storage : Std.ExtTreeMap H256 H256} {index : H256}

/-- Purging removes exactly the stored zeros. -/
theorem getElem?_purgeZeros :
    (purgeZeros storage)[index]? =
      if storage[index]? = some .zero then none else storage[index]? := by
  have hstep : ∀ (s : Std.ExtTreeMap H256 H256) (zero k : H256),
      (s.erase zero)[k]? = if id zero = k then none else s[k]? :=
    fun s zero k => getElem?_erase_ite
  have hread := read_foldl (fun (s : Std.ExtTreeMap H256 H256) k => s[k]?) (fun _ _ => none) hstep
    storage
    ((storage.toList.filter (·.2 = .zero)).map (·.1)) index
  have hmem : index ∈ (storage.toList.filter (·.2 = .zero)).map (·.1) ↔
      storage[index]? = some .zero := by
    simp only [List.mem_map, List.mem_filter, decide_eq_true_eq, Prod.exists,
      Std.ExtTreeMap.mem_toList_iff_getElem?_eq_some]
    constructor
    · rintro ⟨k, v, ⟨hget, rfl⟩, rfl⟩
      exact hget
    · intro hget
      exact ⟨index, .zero, ⟨hget, rfl⟩, rfl⟩
  simp only [purgeZeros, hread]
  cases hn : newest id index ((storage.toList.filter (·.2 = .zero)).map (·.1)) with
  | nil =>
    have hnz : storage[index]? ≠ some .zero := fun hz =>
      newest_eq_nil_iff.mp hn index (hmem.mpr hz) rfl
    rw [if_neg hnz]
    rfl
  | cons zero zeros =>
    have hzero := mem_newest.mp (hn ▸ List.mem_cons_self)
    obtain ⟨hin, rfl⟩ := hzero
    rw [if_pos (hmem.mp hin)]
    rfl

/-- A purged storage holds no zero. -/
theorem sparse_purgeZeros : SparseStorage (purgeZeros storage) := by
  intro index
  rw [getElem?_purgeZeros]
  split
  · simp
  · rename_i hnz
    exact hnz

/-- A purged slot reads zero, as it did before. -/
theorem getD_purgeZeros :
    (purgeZeros storage)[index]?.getD .zero = storage[index]?.getD .zero := by
  rw [getElem?_purgeZeros]
  split
  · rename_i hz
    rw [hz]
    rfl
  · rfl

/-- A written slot reads the value written, and the others as before. -/
theorem getD_writeSlot (write : H256 × H256) :
    (writeSlot storage write)[index]?.getD .zero =
      if write.1 = index then write.2 else storage[index]?.getD .zero := by
  unfold writeSlot
  by_cases hz : write.2 = .zero
  · rw [if_pos hz, getElem?_erase_ite, hz]
    split <;> rfl
  · rw [if_neg hz, getElem?_insert_ite]
    split <;> rfl

/-- After several writes a slot reads the last value written to it. -/
theorem getD_foldl_writeSlot (writes : List (H256 × H256)) :
    (writes.foldl writeSlot storage)[index]?.getD .zero =
      ((newest Prod.fst index writes).head?.map Prod.snd).getD (storage[index]?.getD .zero) := by
  have hread := read_foldl (fun (s : Std.ExtTreeMap H256 H256) k => s[k]?.getD .zero)
    (fun write _ => write.2) (fun s e k => getD_writeSlot e) storage writes index
  rw [hread]
  cases newest Prod.fst index writes <;> rfl

/-- Writing never stores a zero. -/
theorem sparse_foldl_writeSlot (writes : List (H256 × H256)) (hs : SparseStorage storage) :
    SparseStorage (writes.foldl writeSlot storage) := by
  induction writes generalizing storage with
  | nil => exact hs
  | cons write writes ih =>
    apply ih
    intro k
    unfold writeSlot
    split
    · rw [getElem?_erase_ite]
      split
      · simp
      · exact hs k
    · rename_i hz
      rw [getElem?_insert_ite]
      split
      · simpa using hz
      · exact hs k

end

/-! ## Modified accounts -/

namespace Modify

variable (change : Modify) (account : MemAccount)

@[simp] theorem nonce_update : (change.update account).nonce = change.basic.nonce := by
  unfold update
  split <;> split <;> rfl

@[simp] theorem balance_update : (change.update account).balance = change.basic.balance := by
  unfold update
  split <;> split <;> rfl

@[simp] theorem code_update :
    (change.update account).code = change.code.getD account.code := by
  unfold update
  split <;> split <;> simp_all

/-- The storage is dropped or kept, purged, and then written. -/
theorem storage_update :
    (change.update account).storage = change.storage.foldl writeSlot
      (purgeZeros (if change.resetStorage then ∅ else account.storage)) := by
  unfold update
  split <;> split <;> simp_all

/-- A slot of a modified account reads what the modification leaves in it. -/
theorem storage_world_update (index : H256) :
    (change.update account).world.storage index =
      (change.slot index).getD (account.world.storage index) := by
  have hbase : (if change.resetStorage then (∅ : Std.ExtTreeMap H256 H256)
      else account.storage)[index]?.getD .zero =
      (if change.resetStorage then some FixedHash.zero else none).getD
        (account.world.storage index) := by
    split
    · simp
    · rfl
  simp only [MemAccount.world, storage_update, getD_foldl_writeSlot, getD_purgeZeros] at hbase ⊢
  rw [hbase, slot]
  cases (newest Prod.fst index change.storage).head? <;> rfl

/-- A modified account stores no zero. -/
theorem sparse_update : SparseStorage (change.update account).storage := by
  rw [storage_update]
  exact sparse_foldl_writeSlot _ sparse_purgeZeros

/-- Modifications in a row, newest first, lie over the account they start from. -/
theorem world_foldr_update (last : Modify) (older : List Modify) (base : Option MemAccount) :
    some ((last :: older).foldr update (base.getD {})).world =
      WorldAccount.overlay (base.map MemAccount.world) (last :: older) := by
  have hbase : (base.getD {}).world = (base.map MemAccount.world).getD {} := by
    cases base with
    | none => simp [MemAccount.world]
    | some account => rfl
  have hcode := observe_foldr MemAccount.code (fun change account =>
    code_update change account) (last :: older) (base.getD {})
  have hstorage := fun index => observe_foldr
    (fun account : MemAccount => account.world.storage index)
    (fun change account => storage_world_update change account index)
    (last :: older) (base.getD {})
  rw [WorldAccount.overlay, ← hbase]
  congr 1
  ext1
  · exact nonce_update last _
  · exact balance_update last _
  · exact hcode
  · funext index
    exact hstorage index

end Modify

/-! ## Applied changes -/

/-- What a change makes of the account it concerns. -/
def Apply.edit : Apply → Option MemAccount → Option MemAccount
  | .modify change, account => some (change.update (account.getD {}))
  | .delete _, _ => none

/-- Changes in a row come to the modifications since the last deletion. -/
theorem Apply.foldr_edit (edits : List Apply) (account : Option MemAccount) :
    edits.foldr edit account =
      match (sinceDelete edits).1 with
      | [] => if (sinceDelete edits).2 then none else account
      | last :: older => some ((last :: older).foldr Modify.update
          ((if (sinceDelete edits).2 then none else account).getD {})) := by
  induction edits with
  | nil => rfl
  | cons apply edits ih =>
    cases apply with
    | delete address => rfl
    | modify change =>
      rw [List.foldr_cons, ih, sinceDelete]
      cases (sinceDelete edits).1 <;> rfl

namespace Accounts

variable {accounts : Accounts}

/-- A change only edits the account it concerns. -/
theorem getElem?_applyOne (accounts : Accounts) (apply : Apply) (address : H160) :
    (accounts.applyOne false apply)[address]? =
      if apply.address = address then apply.edit accounts[address]? else accounts[address]? := by
  cases apply with
  | modify change =>
    simp only [applyOne, Bool.and_false, Bool.false_eq_true, ite_false, getElem?_insert_ite,
      Apply.address, Apply.edit]
    by_cases h : change.address = address
    · subst h
      rfl
    · exact (if_neg h).trans (if_neg h).symm
  | delete address' => exact getElem?_erase_ite

/-- Applying changes one after another lays them over the world. -/
theorem world_foldl_applyOne (applies : List Apply) :
    (applies.foldl (applyOne false) accounts).world = accounts.world.overlay applies := by
  funext address
  have hread := read_foldl (fun (accounts : Accounts) (a : H160) => accounts[a]?) Apply.edit
    (fun accounts => accounts.getElem?_applyOne) accounts applies address
  simp only [world, World.overlay, hread, Apply.foldr_edit]
  cases hs : (sinceDelete (newest Apply.address address applies)).1 with
  | nil =>
    simp only [WorldAccount.overlay]
    split <;> rfl
  | cons last older =>
    rw [Option.map_some, Modify.world_foldr_update]
    split <;> rfl

/-- A removal stores nothing. -/
theorem Sparse.erase (hs : accounts.Sparse) (address : H160) :
    Sparse (Std.ExtTreeMap.erase accounts address) := by
  intro a account h
  rw [getElem?_erase_ite] at h
  split at h
  · contradiction
  · exact hs a account h

/-- A change stores no zero. -/
theorem Sparse.applyOne (hs : accounts.Sparse) (deleteEmpty : Bool) (apply : Apply) :
    (accounts.applyOne deleteEmpty apply).Sparse := by
  cases apply with
  | modify change =>
    have hinsert : Sparse (Std.ExtTreeMap.insert accounts change.address
        (change.update (accounts[change.address]?.getD {}))) := by
      intro a account h
      rw [getElem?_insert_ite] at h
      split at h
      · cases h
        exact change.sparse_update _
      · exact hs a account h
    simp only [Accounts.applyOne]
    split
    · exact hinsert.erase change.address
    · exact hinsert
  | delete address => exact hs.erase address

/-- A run's changes store no zero. -/
theorem Sparse.foldl_applyOne (hs : accounts.Sparse) (deleteEmpty : Bool)
    (applies : List Apply) : (applies.foldl (Accounts.applyOne deleteEmpty) accounts).Sparse := by
  induction applies generalizing accounts with
  | nil => exact hs
  | cons apply applies ih => exact ih (hs.applyOne deleteEmpty apply)

/-- No account, no zero. -/
theorem sparse_empty : Sparse ∅ := by
  intro address account h
  simp at h

/-- A sparse storage is determined by what its slots read. -/
theorem storage_eq_of_getD {storage storage' : Std.ExtTreeMap H256 H256}
    (hs : SparseStorage storage) (hs' : SparseStorage storage')
    (h : ∀ index : H256, storage[index]?.getD FixedHash.zero =
      storage'[index]?.getD FixedHash.zero) : storage = storage' := by
  apply Std.ExtTreeMap.ext_getElem?
  intro index
  have hi := h index
  have hz := hs index
  have hz' := hs' index
  cases hget : storage[index]? with
  | none =>
    cases hget' : storage'[index]? with
    | none => rfl
    | some value' =>
      rw [hget, hget'] at hi
      exact absurd (hget'.trans (congrArg some hi.symm)) hz'
  | some value =>
    cases hget' : storage'[index]? with
    | none =>
      rw [hget, hget'] at hi
      exact absurd (hget.trans (congrArg some hi)) hz
    | some value' =>
      rw [hget, hget'] at hi
      exact congrArg some hi

/-- An account map without stored zeros is determined by its world. -/
theorem eq_of_world_eq {accounts' : Accounts} (hs : accounts.Sparse) (hs' : accounts'.Sparse)
    (h : accounts.world = accounts'.world) : accounts = accounts' := by
  apply Std.ExtTreeMap.ext_getElem?
  intro address
  have ha := congrFun h address
  simp only [world] at ha
  cases hget : accounts[address]? with
  | none =>
    rw [hget] at ha
    exact (Option.map_eq_none_iff.mp ha.symm).symm
  | some account =>
    rw [hget] at ha
    obtain ⟨account', hget', hw⟩ := Option.map_eq_some_iff.mp ha.symm
    have hstorage := storage_eq_of_getD (hs address account hget) (hs' address account' hget')
      fun index => (congrFun (congrArg WorldAccount.storage hw) index).symm
    rw [hget']
    obtain ⟨nonce, balance, storage, code⟩ := account
    obtain ⟨nonce', balance', storage', code'⟩ := account'
    simp only [MemAccount.world, WorldAccount.mk.injEq] at hw hstorage
    obtain ⟨rfl, rfl, rfl, _⟩ := hw
    rw [hstorage]

end Accounts

/-! ## What the machine is shown -/

/-- What the machine is shown of a world. -/
def World.view (world : World) (gasPrice : U256) (origin : H160) (block : Block) : Backend where
  gasPrice := gasPrice
  origin := origin
  blockHash _ := .zero
  blockNumber := block.header.number.setWidth 256
  blockCoinbase := block.header.author
  blockTimestamp := block.header.timestamp.setWidth 256
  blockDifficulty := block.header.difficulty
  blockGasLimit := block.header.gasLimit
  chainId := Tethereum.chainId.setWidth 256
  «exists» address := (world address).isSome
  basic address :=
    let account := (world address).getD {}
    ⟨account.balance, account.nonce⟩
  code := world.code
  storage address index := ((world address).getD {}).storage index
  originalStorage address index := (world address).bind fun account =>
    if account.storage index = .zero then none else some (account.storage index)

/-- The machine's run of a transaction. -/
def Evm.transact (evm : Evm) (backend : Backend) (sender : H160) (value : U256)
    («to» : Option H160) (data : List UInt8) : Execution (Option (List UInt8)) :=
  match «to» with
  | some h =>
    let done := evm.transactCall backend EthDBBackend.maxGas sender h value data
      EthDBBackend.maxGas
    ⟨done.reason, some done.output, done.usedGas, done.applies, done.logs⟩
  | none =>
    let done := evm.transactCreate backend EthDBBackend.maxGas sender value data
      EthDBBackend.maxGas
    ⟨done.reason, none, done.usedGas, done.applies, done.logs⟩

/-- The machine's run of a message. -/
def Evm.message (evm : Evm) (backend : Backend) (caller contractAddress : H160)
    (input : List UInt8) : ExitReason × List UInt8 × U64 :=
  match evm.call backend EthDBBackend.maxGas contractAddress input (some EthDBBackend.maxGas)
    true ⟨contractAddress, caller, 0⟩ with
  | (.exit reason v, usedGas) => (reason, v, usedGas)
  | (.trap, usedGas) => (.succeed .returned, [], usedGas)

namespace EthDBBackend

variable {self : EthDBBackend}

/-- From accounts without stored zeros the machine is shown their world. -/
theorem view_eq (h : self.accounts.Sparse) :
    self.view = self.accounts.world.view self.gasPrice self.sender self.block := by
  rw [view, World.view]
  congr 1
  · funext address
    rw [Accounts.world, Option.isSome_map, Std.ExtTreeMap.contains_eq_isSome_getElem?]
  · funext address
    simp only [basic, Accounts.world]
    cases self.accounts[address]? with
    | none => rfl
    | some account => rfl
  · funext address
    simp only [World.code, Accounts.world]
    cases self.accounts[address]? with
    | none => rfl
    | some account => rfl
  · funext address index
    simp only [originalStorage, Accounts.world]
    cases self.accounts[address]? with
    | none => rfl
    | some account => rfl
  · funext address index
    simp only [originalStorage, Accounts.world]
    cases ha : self.accounts[address]? with
    | none => rfl
    | some account =>
      have hz := h address account ha index
      simp only [Option.bind_some, Option.map_some, MemAccount.world]
      cases hget : account.storage[index]? with
      | none => rfl
      | some value =>
        rw [hget] at hz
        rw [Option.getD_some, if_neg fun he => hz (congrArg some he)]

/-- A run asks for nothing but what the machine is shown. -/
theorem run_eq (evm : Evm) (sender : H160) (value : U256) («to» : Option H160)
    (data : List UInt8) :
    self.run evm sender value «to» data = evm.transact self.view sender value «to» data := by
  cases «to» with
  | none => rfl
  | some h => rfl

/-- So does a message. -/
theorem call_fst (evm : Evm) (caller contractAddress : H160) (input : List UInt8) :
    (self.call evm caller contractAddress input).1 =
      evm.message self.view caller contractAddress input := by
  rw [call, Evm.message]
  rcases evm.call self.view maxGas contractAddress input (some maxGas) true
    ⟨contractAddress, caller, 0⟩ with ⟨cap, usedGas⟩
  cases cap with
  | exit reason v => rfl
  | trap => rfl

end EthDBBackend

/-- The machine reads the account nonce of the world. -/
theorem EthDBBackend.nonce_basic (self : EthDBBackend) (a : H160) :
    (self.basic a).nonce = self.accounts.world.nonce a := by
  unfold EthDBBackend.basic World.nonce Accounts.world
  cases self.accounts[a]? <;> rfl

/-- The machine is told the number of the block. -/
theorem EthDBBackend.toNat_blockNumber_view (self : EthDBBackend) :
    self.view.blockNumber.toNat = self.block.header.number.toNat :=
  BitVec.toNat_setWidth_of_le (by omega)

end Tethereum
