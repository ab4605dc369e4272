import Tethereum.Db.Chain

/-!
# Requests that should not write

A call never changes the store. An estimate runs on the borrowed accounts of its
block and applies what a successful run changes to them, so it leaves the store
alone exactly when the run fails or its changes write back what was there.
-/

namespace Tethereum

namespace HashMapEthDB

/-- The machine's run of an estimate either does not succeed, or each account reads the same
with the changes of the run laid over it. -/
def WritesNothing (evm : Evm) (db : HashMapEthDB) (blockNumber : U64) (caller : H160)
    (value : U256) («to» : Option H160) (input : List UInt8) : Prop :=
  ∀ accounts ∈ db.accounts[blockNumber.toNat]?, ∀ last ∈ db.blocks.getLast?,
    let done := (requestBackend caller accounts last).run evm caller value «to» input
    done.reason.isSucceed = false ∨ accounts.world.overlay done.applies = accounts.world

/-- A new store is reachable. -/
theorem reachable_new (c : Crypto) (evm : Evm) (now : U64) : Reachable c evm (new c now) :=
  ⟨now, .refl⟩

/-- A number up to the best one is the position of a block. -/
theorem WellFormed.lt_of_le_best {c : Crypto} {db : HashMapEthDB} (h : db.WellFormed c)
    {n best : U64} (hbest : db.bestNumber = some best) (hn : n ≤ best) :
    n.toNat < db.blocks.length := by
  have hpos := h.length_pos
  rw [h.bestNumber_eq] at hbest
  cases hbest
  have hle := BitVec.le_def.mp hn
  have hmod := Nat.mod_le (db.blocks.length - 1) (2 ^ 64)
  rw [BitVec.toNat_ofNat] at hle
  omega

/-- Replacing an element leaves a list as it is only by the same element. -/
theorem set_eq_self_iff {α : Type} {l : List α} {i : Nat} {a b : α} (h : l[i]? = some a) :
    l.set i b = l ↔ b = a := by
  obtain ⟨hlt, hget⟩ := List.getElem?_eq_some_iff.mp h
  constructor
  · intro he
    have hi := congrArg (fun l => l[i]?) he
    rw [List.getElem?_set_self hlt, h] at hi
    exact Option.some.inj hi
  · rintro rfl
    rw [← hget, List.set_getElem_self]

/-- The changes of a run leave an account map alone exactly when they write back what it
holds. -/
theorem foldl_applyOne_eq_iff {accounts : Accounts} (hs : accounts.Sparse)
    (applies : List Apply) :
    applies.foldl (Accounts.applyOne false) accounts = accounts ↔
      accounts.world.overlay applies = accounts.world := by
  rw [← Accounts.world_foldl_applyOne]
  constructor
  · exact congrArg Accounts.world
  · exact Accounts.eq_of_world_eq (hs.foldl_applyOne false applies) hs

/-- An estimate leaves a well-formed store alone exactly when its run writes nothing. -/
theorem WellFormed.estimateGas_iff {c : Crypto} {evm : Evm} {db : HashMapEthDB}
    (h : db.WellFormed c) {n : U64} {accounts : Accounts}
    (ha : db.accounts[n.toNat]? = some accounts) (caller : H160) (value : U256)
    («to» : Option H160) (input : List UInt8) :
    (∃ result, db.estimateGas evm n caller value «to» input = some (result, db)) ↔
      db.WritesNothing evm n caller value «to» input := by
  obtain ⟨last, hb⟩ := h.exists_last
  have hs := h.sparse accounts (List.mem_of_getElem? ha)
  have hdb (accounts' : Accounts) :
      ({ db with accounts := db.accounts.set n.toNat accounts' } : HashMapEthDB) = db ↔
        accounts' = accounts := by
    rw [← set_eq_self_iff ha]
    constructor
    · exact congrArg HashMapEthDB.accounts
    · intro he
      rw [he]
  simp only [WritesNothing, ha, hb, Option.mem_some_iff, forall_eq', estimateGas_eq ha hb,
    Option.some.injEq, Prod.mk.injEq, hdb, exists_eq_left']
  split
  · rename_i hr
    simp only [hr, Bool.true_eq_false, false_or, foldl_applyOne_eq_iff hs]
  · rename_i hr
    simp only [hr, true_or]

/-- Up to the best number, a call leaves every reachable store as it is; an estimate does so,
and then answers a repetition alike, exactly when its run writes nothing. -/
theorem readOnly_iff {c : Crypto} {evm : Evm} {db : HashMapEthDB} (h : Reachable c evm db)
    {n best : U64} (hbest : db.bestNumber = some best) (hn : n ≤ best)
    (caller : H160) (value : U256) («to» : Option H160) (contractAddress : H160)
    (input : List UInt8) :
    (∃ result, db.call evm n caller contractAddress input = some (result, db)) ∧
    ((∃ result db', db.estimateGas evm n caller value «to» input = some (result, db') ∧
        db' = db ∧ db'.estimateGas evm n caller value «to» input = some (result, db')) ↔
      db.WritesNothing evm n caller value «to» input) := by
  obtain ⟨last, hb⟩ := h.wellFormed.exists_last
  obtain ⟨accounts, ha⟩ := h.wellFormed.exists_accounts (h.wellFormed.lt_of_le_best hbest hn)
  refine ⟨⟨_, call_eq ha hb caller contractAddress input⟩, ?_⟩
  rw [← h.wellFormed.estimateGas_iff ha]
  constructor
  · rintro ⟨result, db', he, rfl, _⟩
    exact ⟨result, he⟩
  · rintro ⟨result, he⟩
    exact ⟨result, db, he, rfl, he⟩

/-- On the genesis store of the sample machine. -/
theorem readOnly_iff_genesis :
    let db := new .sample 0
    (∃ result, db.call .sample 0 .zero .zero [] = some (result, db)) ∧
    ((∃ result db', db.estimateGas .sample 0 .zero 0 (some .zero) [] = some (result, db') ∧
        db' = db ∧ db'.estimateGas .sample 0 .zero 0 (some .zero) [] = some (result, db')) ↔
      db.WritesNothing .sample 0 .zero 0 (some .zero) []) :=
  readOnly_iff (reachable_new .sample .sample 0) rfl (Nat.le_refl 0) _ _ _ _ _

/-- An estimate on the genesis store leaves an account behind in it, which was not there. -/
theorem estimateGas_writes :
    ∃ db result db', Reachable .sample .sample db ∧ db.bestNumber = some 0 ∧
      db.estimateGas .sample 0 .zero 0 (some .zero) [] = some (result, db') ∧
      db.accounts.map (·.contains .zero) = [false] ∧
      db'.accounts.map (·.contains .zero) = [true] ∧ db' ≠ db := by
  have hbefore : (new Crypto.sample 0).accounts.map (·.contains .zero) = [false] := by decide
  refine ⟨new .sample 0, _, _, reachable_new _ _ 0, rfl, rfl, hbefore, rfl, fun he => ?_⟩
  rw [← he] at hbefore
  exact absurd hbefore (by decide)

end HashMapEthDB

end Tethereum
