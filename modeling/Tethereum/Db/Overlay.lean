import Tethereum.Db.Chain
import Mathlib.Data.List.DropRight

/-!
# Applied changes, last write wins

What a backend answers after a list of changes is said of the list itself: of
the modifications that follow the last deletion of an account, and of those from
the last storage reset on. No account of a reachable store keeps a zero, so that
its storage map is determined by its answers.
-/

namespace Tethereum

open KeyedLog

/-- The modification of an account that a change is, if it is one. -/
def Apply.modification (address : H160) : Apply → Option Modify
  | .modify change => if change.address = address then some change else none
  | .delete _ => none

/-- The modifications of an account after its last deletion, oldest first. -/
def modifications (address : H160) (values : List Apply) : List Modify :=
  (values.rtakeWhile (· ≠ .delete address)).filterMap (·.modification address)

/-- The modifications from the last storage reset on; all of them if none resets. -/
def sinceReset (changes : List Modify) : List Modify :=
  (changes.rdropWhile (!·.resetStorage)).getLast?.toList ++ changes.rtakeWhile (!·.resetStorage)

/-- The last value that modifications write to a slot. -/
def lastWrite (index : H256) (changes : List Modify) : Option H256 :=
  ((changes.flatMap (·.storage)).filter (·.1 = index)).getLast?.map (·.2)

/-- The account that changes start from: the old one, or an absent one if it is deleted. -/
def EthDBBackend.baseAccount (self : EthDBBackend) (values : List Apply) (address : H160) :
    Option MemAccount :=
  if .delete address ∈ values then none else self.accounts[address]?

/-! ## Modifications since a deletion -/

section

variable {address : H160} {values : List Apply}

/-- A further modification comes last among those of its account. -/
theorem modifications_concat_modify (change : Modify) :
    modifications address (values ++ [.modify change]) =
      modifications address values ++ if change.address = address then [change] else [] := by
  rw [modifications, List.rtakeWhile_concat_pos _ _ _ (by simp), List.filterMap_append,
    modifications, List.append_cancel_left_eq]
  by_cases h : change.address = address <;> simp [Apply.modification, h]

/-- A deletion forgets the modifications of its account. -/
theorem modifications_concat_delete (deleted : H160) :
    modifications address (values ++ [.delete deleted]) =
      if deleted = address then [] else modifications address values := by
  by_cases h : deleted = address
  · subst h
    rw [modifications, List.rtakeWhile_concat_neg _ _ _ (by simp), if_pos rfl,
      List.filterMap_nil]
  · rw [modifications, List.rtakeWhile_concat_pos _ _ _ (by simpa using h), if_neg h,
      List.filterMap_append]
    exact List.append_nil _

/-- Walked from its newest change, a list shows the modifications since the last deletion
of an account, and whether there is one. -/
theorem sinceDelete_newest : sinceDelete (newest Apply.address address values) =
    ((modifications address values).reverse, decide (.delete address ∈ values)) := by
  induction values using List.reverseRecOn with
  | nil => rfl
  | append_singleton values value ih =>
    rw [newest_concat]
    cases value with
    | modify change =>
      rw [modifications_concat_modify]
      by_cases h : change.address = address
      · simp [Apply.address, h, sinceDelete, ih]
      · simp [Apply.address, h, ih]
    | delete deleted =>
      rw [modifications_concat_delete]
      by_cases h : deleted = address
      · simp [Apply.address, h, sinceDelete]
      · simp [Apply.address, h, Ne.symm h, ih]

end

/-! ## Slots since a reset -/

section

variable {index : H256} {changes later : List Modify} {change : Modify}

/-- Later writes win. -/
theorem lastWrite_append :
    lastWrite index (changes ++ later) = (lastWrite index later).or (lastWrite index changes) := by
  simp only [lastWrite, List.flatMap_append, List.filter_append, List.getLast?_append]
  cases ((later.flatMap (·.storage)).filter (·.1 = index)).getLast? <;> rfl

/-- A modification that resets the storage starts over. -/
theorem sinceReset_concat_reset (h : change.resetStorage = true) :
    sinceReset (changes ++ [change]) = [change] := by
  rw [sinceReset, List.rdropWhile_concat_neg _ _ _ (by simp [h]),
    List.rtakeWhile_concat_neg _ _ _ (by simp [h]), List.getLast?_concat]
  rfl

/-- A modification that keeps the storage goes on. -/
theorem sinceReset_concat_keep (h : change.resetStorage = false) :
    sinceReset (changes ++ [change]) = sinceReset changes ++ [change] := by
  rw [sinceReset, List.rdropWhile_concat_pos _ _ _ (by simp [h]),
    List.rtakeWhile_concat_pos _ _ _ (by simp [h]), ← List.append_assoc]
  rfl

/-- A modification leaves in a slot its last write to it, or the zero of its reset. -/
theorem Modify.slot_eq : change.slot index =
    (lastWrite index [change]).or (if change.resetStorage then some .zero else none) := by
  simp only [slot, newest, List.head?_reverse, lastWrite, List.flatMap_singleton]

/-- The newest modification that leaves something in a slot leaves the last write since the
last reset, or the zero of that reset. -/
theorem findSome?_slot : changes.reverse.findSome? (·.slot index) =
    (lastWrite index (sinceReset changes)).or
      (if changes.any (·.resetStorage) then some .zero else none) := by
  induction changes using List.reverseRecOn with
  | nil => rfl
  | append_singleton changes change ih =>
    rw [List.reverse_concat, List.findSome?_cons, ih, Modify.slot_eq, List.any_append]
    cases h : change.resetStorage with
    | true =>
      rw [sinceReset_concat_reset h]
      cases lastWrite index [change] <;> simp [h]
    | false =>
      rw [sinceReset_concat_keep h, lastWrite_append]
      cases lastWrite index [change] <;> simp [h]

end

/-! ## The answers after a list of changes -/

section

variable {base : Option MemAccount} {changes : List Modify}

/-- The account that modifications start from, absent or not. -/
theorem getD_map_world : (base.map MemAccount.world).getD {} = (base.getD {}).world := by
  cases base with
  | none => simp [MemAccount.world]
  | some account => rfl

/-- With modifications there is an account. -/
theorem isSome_overlay :
    (WorldAccount.overlay (base.map MemAccount.world) changes.reverse).isSome = true ↔
      changes ≠ [] ∨ base.isSome = true := by
  rcases List.eq_nil_or_concat' changes with rfl | ⟨older, last, rfl⟩
  · simp [WorldAccount.overlay]
  · simp [WorldAccount.overlay]

/-- The last modification decides balance and nonce. -/
theorem basic_overlay :
    let account := (WorldAccount.overlay (base.map MemAccount.world) changes.reverse).getD {}
    Basic.mk account.balance account.nonce =
      (changes.getLast?.map (·.basic)).getD ⟨(base.getD {}).balance, (base.getD {}).nonce⟩ := by
  rcases List.eq_nil_or_concat' changes with rfl | ⟨older, last, rfl⟩
  · simp only [List.reverse_nil, WorldAccount.overlay, getD_map_world]
    rfl
  · simp [WorldAccount.overlay]

/-- The last code that modifications set is the code. -/
theorem code_overlay :
    ((WorldAccount.overlay (base.map MemAccount.world) changes.reverse).getD {}).code =
      (changes.filterMap (·.code)).getLast?.getD (base.getD {}).code := by
  have hcode : changes.reverse.findSome? (·.code) = (changes.filterMap (·.code)).getLast? := by
    rw [← List.head?_filterMap, List.filterMap_reverse, List.head?_reverse]
  rw [← hcode]
  cases changes.reverse with
  | nil => exact congrArg WorldAccount.code getD_map_world
  | cons last older => simp only [WorldAccount.overlay, getD_map_world, Option.getD_some,
      MemAccount.world]

/-- A slot holds the last value written since the last reset. -/
theorem storage_overlay (index : H256) :
    ((WorldAccount.overlay (base.map MemAccount.world) changes.reverse).getD {}).storage index =
      (lastWrite index (sinceReset changes)).getD (if changes.any (·.resetStorage) then .zero
        else (base.getD {}).storage[index]?.getD .zero) := by
  have hslot : ((WorldAccount.overlay (base.map MemAccount.world) changes.reverse).getD
      {}).storage index = (changes.reverse.findSome? (·.slot index)).getD
        ((base.getD {}).storage[index]?.getD .zero) := by
    cases changes.reverse with
    | nil => exact congrArg (fun account => account.storage index) getD_map_world
    | cons last older => simp only [WorldAccount.overlay, getD_map_world, Option.getD_some,
        MemAccount.world]
  rw [hslot, findSome?_slot]
  cases lastWrite index (sinceReset changes) with
  | some value => rfl
  | none =>
    rw [Option.none_or, Option.getD_none]
    split <;> rfl

end

namespace EthDBBackend

section

variable (self : EthDBBackend) (address : H160)

/-- An account exists if the world has it. -/
theorem exists_view : self.view.exists address = (self.accounts.world address).isSome := by
  rw [Accounts.world, Option.isSome_map]
  exact Std.ExtTreeMap.contains_eq_isSome_getElem?

/-- Balance and nonce are those of the world. -/
theorem basic_view : self.view.basic address =
    ⟨((self.accounts.world address).getD {}).balance,
      ((self.accounts.world address).getD {}).nonce⟩ := by
  simp only [view, basic, Accounts.world]
  cases self.accounts[address]? <;> rfl

/-- The code is that of the world. -/
theorem code_view : self.view.code address =
    ((self.accounts.world address).getD {}).code := by
  simp only [view, Accounts.world]
  cases self.accounts[address]? <;> rfl

/-- A slot reads as in the world. -/
theorem storage_view (index : H256) : self.view.storage address index =
    ((self.accounts.world address).getD {}).storage index := by
  simp only [view, originalStorage, Accounts.world]
  cases self.accounts[address]? <;> rfl

end

section

variable (self : EthDBBackend) (values : List Apply) (logs : List Log)

/-- Applied changes lie over the account they start from. -/
theorem world_apply (address : H160) :
    (self.apply values logs false).accounts.world address =
      WorldAccount.overlay ((self.baseAccount values address).map MemAccount.world)
        (modifications address values).reverse := by
  rw [apply, Accounts.world_foldl_applyOne, World.overlay, sinceDelete_newest, baseAccount]
  by_cases h : Apply.delete address ∈ values
  · simp only [h, decide_true, if_true, Option.map_none]
  · simp only [h, decide_false, Bool.false_eq_true, if_false, Accounts.world]

/-- A change leaves the other accounts alone. -/
theorem getElem?_accounts_apply {address : H160} (h : ∀ value ∈ values, value.address ≠ address) :
    (self.apply values logs false).accounts[address]? = self.accounts[address]? := by
  have hread := read_foldl (fun (accounts : Accounts) (a : H160) => accounts[a]?) Apply.edit
    (fun accounts => accounts.getElem?_applyOne) self.accounts values address
  rwa [newest_eq_nil_iff.mpr h] at hread

/-- Applied changes are a last-write-wins overlay. With the modifications of an account
after its last deletion, and the account these start from: the account exists if there is
one of the two; balance and nonce are those of the last modification, the code is the last
one set, and a slot reads the last value written since the last reset, zero after a reset
without a write, and what it read before otherwise. Accounts that no change names stay, and
the logs come after the old ones. -/
theorem apply_lastWriteWins (address : H160) (index : H256) :
    let after := self.apply values logs false
    let changes := modifications address values
    let base := self.baseAccount values address
    (after.view.exists address = true ↔ changes ≠ [] ∨ base.isSome = true) ∧
    after.view.basic address =
      (changes.getLast?.map (·.basic)).getD ⟨(base.getD {}).balance, (base.getD {}).nonce⟩ ∧
    after.view.code address = ((changes.filterMap (·.code)).getLast?).getD (base.getD {}).code ∧
    after.view.storage address index = (lastWrite index (sinceReset changes)).getD
      (if changes.any (·.resetStorage) then .zero else (base.getD {}).storage[index]?.getD .zero) ∧
    (∀ other, (∀ value ∈ values, value.address ≠ other) →
      after.accounts[other]? = self.accounts[other]?) ∧
    after.info.logs = self.info.logs ++ logs := by
  intro after changes base
  have hworld : after.accounts.world address =
      WorldAccount.overlay (base.map MemAccount.world) changes.reverse :=
    self.world_apply values logs address
  rw [exists_view, basic_view, code_view, storage_view, hworld]
  exact ⟨isSome_overlay, basic_overlay, code_overlay, storage_overlay index,
    fun other => self.getElem?_accounts_apply values logs, rfl⟩

end

end EthDBBackend

/-! ## Canonical storage -/

namespace HashMapEthDB

/-- Operations lead from a new store to this one, each with a machine of its own. -/
def ReachableByAny (c : Crypto) (db : HashMapEthDB) : Prop :=
  ∃ now, Relation.ReflTransGen (fun db db' => ∃ evm, DbStep c evm db db') (new c now) db

variable {c : Crypto} {db : HashMapEthDB}

/-- Whatever the machines apply, the store stays well formed. -/
theorem ReachableByAny.wellFormed (h : ReachableByAny c db) : db.WellFormed c := by
  obtain ⟨now, hrun⟩ := h
  induction hrun with
  | refl => exact WellFormed.new c now
  | tail _ hstep ih =>
    obtain ⟨evm, hstep⟩ := hstep
    exact ih.dbStep hstep

end HashMapEthDB

namespace EthDBBackend

variable {self other : EthDBBackend} {address : H160}

/-- Over accounts without stored zeros, a slot is present exactly when it does not read zero. -/
theorem isSome_originalStorage_iff (hs : self.accounts.Sparse) (index : H256) :
    (self.originalStorage address index).isSome = true ↔
      self.view.storage address index ≠ .zero := by
  simp only [view]
  cases hget : self.originalStorage address index with
  | none => simp
  | some value =>
    obtain ⟨account, ha, hv⟩ := Option.bind_eq_some_iff.mp hget
    have hz : value ≠ .zero := by
      rintro rfl
      exact hs address account ha index hv
    simp only [Option.isSome_some, Option.getD_some, ne_eq, hz, not_false_eq_true]

/-- A present account answers a storage read from its storage map. -/
theorem storage_view_of_account {account : MemAccount}
    (h : self.accounts[address]? = some account) (index : H256) :
    self.view.storage address index = account.storage[index]?.getD .zero := by
  simp only [view, originalStorage, h, Option.bind_some]

end EthDBBackend

/-- Whatever operations and machines led to a store, no account of it stores a zero; a slot is
present exactly when it does not read zero, and accounts that answer all storage reads alike
have the same storage map. -/
theorem HashMapEthDB.storage_canonical {c : Crypto} {db : HashMapEthDB}
    (h : ReachableByAny c db) :
    (∀ accounts ∈ db.accounts, ∀ (address : H160) (account : MemAccount),
      accounts[address]? = some account →
        ∀ index : H256, account.storage[index]? ≠ some FixedHash.zero) ∧
    (∀ self : EthDBBackend, self.accounts ∈ db.accounts → ∀ address index,
      (self.originalStorage address index).isSome = true ↔
        self.view.storage address index ≠ .zero) ∧
    (∀ self other : EthDBBackend, self.accounts ∈ db.accounts → other.accounts ∈ db.accounts →
      ∀ (address address' : H160) (account account' : MemAccount),
        self.accounts[address]? = some account → other.accounts[address']? = some account' →
        (∀ index, self.view.storage address index = other.view.storage address' index) →
          account.storage = account'.storage) := by
  have hs := h.wellFormed.sparse
  refine ⟨hs, fun self hself address => EthDBBackend.isSome_originalStorage_iff (hs _ hself), ?_⟩
  intro self other hself hother address address' account account' ha ha' hread
  refine Accounts.storage_eq_of_getD (hs _ hself address account ha)
    (hs _ hother address' account' ha') fun index => ?_
  rw [← EthDBBackend.storage_view_of_account ha, hread index,
    EthDBBackend.storage_view_of_account ha']

/-- An estimate with a machine that writes zero to one slot and one to another leaves the
second slot alone in the store. -/
theorem HashMapEthDB.storage_canonical_written :
    let machine : Evm := { Evm.sample with transactCall := fun _ _ caller _ _ _ _ =>
      ⟨.succeed .stopped, [], 21000, [.modify ⟨caller, ⟨0, 1⟩, none,
        [(.zero, .zero), (.fromLowU64Be 1, .fromLowU64Be 1)], false⟩], []⟩ }
    ∃ result db, (new .sample 0).estimateGas machine 0 .zero 0 (some .zero) [] =
        some (result, db) ∧
      db.accounts.map (fun accounts => accounts[(FixedHash.zero : H160)]?.map (·.storage.toList)) =
        [some [(H256.fromLowU64Be 1, H256.fromLowU64Be 1)]] ∧
      (∀ accounts ∈ db.accounts, ∀ (address : H160) (account : MemAccount),
        accounts[address]? = some account →
          ∀ index : H256, account.storage[index]? ≠ some FixedHash.zero) :=
  ⟨_, _, rfl, by decide +kernel, (storage_canonical ⟨0, .single ⟨_,
    .estimateGas 0 .zero 0 (some .zero) [] _ rfl⟩⟩).1⟩

end Tethereum
