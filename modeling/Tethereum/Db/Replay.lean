import Tethereum.Db.ReadOnly

/-!
# Replaying a store on another machine

What the machine is asked carries the number of the block it is asked for. A
store was therefore made by every machine that runs transactions alike up to its
own height, whatever the machine does above it, and whatever it answers to calls.
-/

namespace Tethereum

/-- How a machine answers a call. -/
abbrev CallAnswer :=
  Backend → U64 → H160 → List UInt8 → Option U64 → Bool → Context → Capture × U64

/-- The machine with other answers to calls. -/
def Evm.withCall (evm : Evm) (answer : CallAnswer) : Evm := { evm with call := answer }

/-- The machines run transactions alike for blocks with a smaller number. -/
def Evm.AgreeBelow (n : Nat) (evm evm' : Evm) : Prop :=
  ∀ (self : EthDBBackend) (sender : H160) (value : U256) («to» : Option H160)
    (data : List UInt8), self.block.header.number.toNat < n →
    self.run evm' sender value «to» data = self.run evm sender value «to» data

namespace HashMapEthDB

section

variable {c : Crypto} {evm evm' : Evm} {db db' : HashMapEthDB}

/-- No operation removes a block. -/
theorem DbStep.length_le (hs : DbStep c evm db db') (hw : db.WellFormed c) :
    db.blocks.length ≤ db'.blocks.length := by
  rcases hw.dbStep_cases hs with rfl | ⟨now, tx, hexec, _⟩ | ⟨i, accounts, _, _, rfl⟩
  · exact Nat.le_refl _
  · obtain ⟨last, latest, _, _, _, rfl⟩ := hexec
    rw [extend, List.length_append]
    exact Nat.le_add_right _ _
  · exact Nat.le_refl _

/-- A machine that agrees below the height of the new store does the step as well, if there
was one to do. -/
theorem DbStep.replay (hs : DbStep c evm db db') (hw : db.WellFormed c)
    (hagree : Evm.AgreeBelow db'.blocks.length evm evm') :
    db' = db ∨ DbStep c evm' db db' := by
  cases hs with
  | submitTx now tx result hs hlen =>
    rcases hw.submitTx_cases hs with ⟨_, last, latest, hb, ha, hr, rfl⟩ | ⟨_, rfl⟩
    · have hnum := hw.toNat_number_next hb now [tx]
      have hlt : db.blocks.length < (db.extend c evm now tx last latest).blocks.length := by
        rw [extend, List.length_append, List.length_singleton]
        exact Nat.lt_succ_self _
      have hrun : submitRun c evm' now tx last latest = submitRun c evm now tx last latest :=
        hagree _ _ _ _ _ (lt_of_eq_of_lt hnum hlt)
      have hextend : db.extend c evm' now tx last latest =
          db.extend c evm now tx last latest := by
        simp only [extend, hrun]
      refine Or.inr (.submitTx now tx (.ok ()) ?_ hlen)
      rw [submitTx_eq hb ha, hrun, hextend, if_pos hr]
    · exact Or.inl rfl
  | estimateGas n caller value to' input result hs =>
    obtain ⟨last, hb⟩ := hw.exists_last
    cases ha : db.accounts[n.toNat]? with
    | none =>
      rw [HashMapEthDB.estimateGas, ha] at hs
      contradiction
    | some accounts =>
      have hpos := hw.length_pos
      have hnum : last.header.number.toNat < db.blocks.length := by
        rw [List.getLast?_eq_getElem?] at hb
        rw [hw.toNat_number hb]
        omega
      have hle := DbStep.length_le (.estimateGas n caller value to' input result hs) hw
      have hrun : (requestBackend caller accounts last).run evm' caller value to' input =
          (requestBackend caller accounts last).run evm caller value to' input :=
        hagree _ _ _ _ _ (lt_of_lt_of_le hnum hle)
      refine Or.inr (.estimateGas n caller value to' input result ?_)
      rw [estimateGas_eq ha hb, hrun, ← estimateGas_eq ha hb]
      exact hs
  | call n caller contractAddress input result hs => exact Or.inl (hw.eq_of_call hs)

/-- A store that one machine reaches is reached by every machine that agrees with it below
the height of the store. -/
theorem Reachable.replay (h : Reachable c evm db)
    (hagree : Evm.AgreeBelow db.blocks.length evm evm') : Reachable c evm' db := by
  obtain ⟨now, hrun⟩ := h
  refine ⟨now, ?_⟩
  induction hrun with
  | refl => exact .refl
  | tail hprev hstep ih =>
    have hw := Reachable.wellFormed ⟨now, hprev⟩
    have hbelow := ih fun self sender value to' data hlt =>
      hagree self sender value to' data (lt_of_lt_of_le hlt (hstep.length_le hw))
    rcases hstep.replay hw hagree with rfl | hstep'
    · exact hbelow
    · exact .tail hbelow hstep'

/-- What the machine answers to calls does not matter to the store. -/
theorem Reachable.withCall (h : Reachable c evm db) (answer : CallAnswer) :
    Reachable c (evm.withCall answer) db :=
  h.replay fun _ _ _ _ _ _ => rfl

end

end HashMapEthDB

end Tethereum
