import Tethereum.Rpc.Contracts
import Tethereum.Rpc.Nonces
import Mathlib.Algebra.BigOperators.Group.Finset.Basic

/-!
# Funds

The store makes no money: an account map comes from the empty one of the genesis block
by runs of the machine, and the machine only moves what is there. So next to any other
requests, all accounts of a block together hold no more than there was to begin with,
and nobody sends more than that: on a new node, nothing at all.
-/

namespace Tethereum

open HashMapEthDB EthClient Interleaving

/-- The balance at an address, zero for an absent account. -/
def World.balance (world : World) (address : H160) : U256 := ((world address).getD {}).balance

/-- All accounts together hold at most the funds. -/
def World.Holds (world : World) (funds : Nat) : Prop :=
  ∀ addresses : Finset H160, ∑ address ∈ addresses, (world.balance address).toNat ≤ funds

/-- What a successful run does to money: all accounts together have no more than before, and the
sender had the value that it sends. -/
structure MoneyLaw (evm : Evm) : Prop where
  /-- Nothing is minted. -/
  conserved : ∀ (self : EthDBBackend) (sender : H160) (value : U256) («to» : Option H160)
    (data : List UInt8) (funds : Nat), self.accounts.world.Holds funds →
    (self.run evm sender value «to» data).reason.isSucceed →
    (self.accounts.world.overlay (self.run evm sender value «to» data).applies).Holds funds
  /-- The sender had the value. -/
  funded : ∀ (self : EthDBBackend) (sender : H160) (value : U256) («to» : Option H160)
    (data : List UInt8), (self.run evm sender value «to» data).reason.isSucceed →
    value.toNat ≤ (self.accounts.world.balance sender).toNat

namespace HashMapEthDB

/-- Behind every block all accounts together hold at most the funds, and no transaction sends
more. -/
structure Funded (funds : Nat) (db : HashMapEthDB) : Prop where
  /-- The accounts hold at most the funds. -/
  accounts : ∀ accounts ∈ db.accounts, accounts.world.Holds funds
  /-- No transaction sends more. -/
  transactions : ∀ tx ∈ included db, tx.transaction.unsigned.value.toNat ≤ funds

end HashMapEthDB

section

variable {c : Crypto} {evm : Evm} {now : U64} {funds : Nat} {world : World} {db db' : HashMapEthDB}
  {tx : SignedTransaction}

/-- No account holds more than all of them. -/
theorem World.Holds.balance_le (h : world.Holds funds) (address : H160) :
    (world.balance address).toNat ≤ funds := by
  have hone := h {address}
  rwa [Finset.sum_singleton] at hone

/-- Where all balances are the same, the funds are. -/
theorem World.Holds.congr {world' : World} (h : world.Holds funds)
    (hsame : ∀ address, world'.balance address = world.balance address) : world'.Holds funds := by
  intro addresses
  simp only [hsame]
  exact h addresses

/-- The balance of an account in memory. -/
theorem Accounts.balance_world (accounts : Accounts) (address : H160) :
    accounts.world.balance address = (accounts[address]?.map (·.balance)).getD 0 := by
  rw [World.balance, Accounts.world]
  cases accounts[address]? with
  | none => rfl
  | some account => rfl

namespace HashMapEthDB

/-- A new store has no funds. -/
theorem Funded.new (c : Crypto) (now : U64) : Funded 0 (new c now) where
  accounts accounts hmem addresses := by
    obtain rfl := List.mem_singleton.mp hmem
    simp [Accounts.balance_world]
  transactions tx hmem := by
    change tx ∈ ([] : List SignedTransaction) at hmem
    contradiction

/-- An execution keeps the funds. -/
theorem Funded.executes (h : Funded funds db) (law : MoneyLaw evm)
    (hexec : Executes c evm now tx db db') :
    Funded funds db' ∧ tx.transaction.unsigned.value.toNat ≤ funds := by
  have hincluded := included_of_executes hexec
  obtain ⟨last, latest, hb, ha, hr, rfl⟩ := hexec
  have hlatest := h.accounts latest (List.mem_of_getLast? ha)
  have hvalue : tx.transaction.unsigned.value.toNat ≤ funds :=
    (law.funded _ _ _ _ _ hr).trans (hlatest.balance_le tx.sender)
  refine ⟨⟨fun accounts hmem => ?_, fun tx' hmem => ?_⟩, hvalue⟩
  · rcases List.mem_append.mp hmem with hmem | hmem
    · exact h.accounts accounts hmem
    · obtain rfl := List.mem_singleton.mp hmem
      rw [Accounts.world_foldl_applyOne]
      exact law.conserved _ _ _ _ _ funds hlatest hr
  · rw [hincluded] at hmem
    rcases List.mem_append.mp hmem with hmem | hmem
    · exact h.transactions tx' hmem
    · obtain rfl := List.mem_singleton.mp hmem
      exact hvalue

/-- Account maps that hold no more than the funds may take the place of others. -/
theorem Funded.set (h : Funded funds db) (i : Nat) {accounts : Accounts}
    (ha : accounts.world.Holds funds) :
    Funded funds { db with accounts := db.accounts.set i accounts } where
  accounts accounts' hmem := by
    rcases List.mem_or_eq_of_mem_set hmem with hmem | rfl
    · exact h.accounts accounts' hmem
    · exact ha
  transactions := h.transactions

/-- An estimate keeps the funds. -/
theorem Funded.estimateGas {n : U64} {caller : H160} {value : U256} {«to» : Option H160}
    {input : List UInt8} {result : ExitReason × List UInt8 × U64} (h : Funded funds db)
    (law : MoneyLaw evm)
    (hs : db.estimateGas evm n caller value «to» input = some (result, db')) :
    Funded funds db' := by
  obtain ⟨accounts, hmem, last, rfl⟩ := changed_of_estimateGas hs
  have hholds := h.accounts accounts hmem
  apply h.set
  split
  · rename_i hr
    rw [Accounts.world_foldl_applyOne]
    exact law.conserved _ _ _ _ _ funds hholds hr
  · exact hholds

end HashMapEthDB

/-! ## Requests -/

/-- The response tells of no more than the funds: a balance is not greater, and a submission that
got a hash does not send more. -/
def ServiceRequest.Affordable (c : Crypto) (funds : Nat) : ServiceRequest → ServiceResponse → Prop
  | .node (.state (.balance _ _)), response =>
    ∃ balance : U256, response = .node (.state (.quantity balance)) ∧ balance.toNat ≤ funds
  | .node (.sendRawTransaction _ raw), response => ∃ tx, Accepted c raw tx ∧
    response = .node (.hash tx.hash) ∧ tx.transaction.unsigned.value.toNat ≤ funds
  | _, _ => True

/-- The operations on the store keep the funds. -/
theorem MoneyLaw.keptByOperations (law : MoneyLaw evm) (c : Crypto) (funds : Nat) :
    KeptByOperations c evm (Funded funds) where
  executes h hexec := (h.executes law hexec).1
  estimateGas h hs := h.estimateGas law hs

/-- From a store with the funds, a request responds with no more. -/
theorem ServiceRequest.ensures_affordable (law : MoneyLaw evm) (c : Crypto) (funds : Nat)
    (req : ServiceRequest) :
    (req.thread c evm).Ensures (Funded funds) (req.Affordable c funds) := by
  have hkept := law.keptByOperations c funds
  have hany := req.ensures hkept
  cases req with
  | node req =>
    cases req with
    | sendRawTransaction now raw =>
      apply RequestThread.ensures_map
      apply RequestThread.ensures_sendRawTransaction hkept
      intro tx db db' hacc hdb hexec
      exact ⟨tx, hacc, rfl, (hdb.executes law hexec).2⟩
    | state req =>
      cases req with
      | balance address tag =>
        apply RequestThread.ensures_map
        apply RequestThread.ensures_balance
        intro db accounts hdb hmem
        refine ⟨_, rfl, ?_⟩
        rw [← Accounts.balance_world]
        exact (hdb.accounts accounts hmem).balance_le address
      | _ => exact Thread.Ensures.mono hany fun _ _ _ _ => trivial
  | _ => exact Thread.Ensures.mono hany fun _ _ _ _ => trivial

/-- On a machine that mints nothing and asks for the value that is sent, no interleaving of any
requests makes money. Behind every block all accounts together hold at most the funds that the
store began with, no transaction of the chain sends more, and no response tells of more. -/
theorem funds_never_grow {ι : Type} [DecidableEq ι] (law : MoneyLaw evm) (c : Crypto)
    (hdb : Funded funds db) (requests : ι → ServiceRequest) (schedule : List ι) :
    let p := (startServices c evm requests ⟨db, false⟩).run schedule
    Funded funds p.shared.ethDb ∧ ∀ i response, p.threads i = .done (some (.ok response)) →
      (requests i).Affordable c funds response := by
  have hstart : Pool.Ensures (fun runtime : Runtime => Funded funds runtime.ethDb)
      (fun i result => ∀ response, result = some (.ok response) →
        (requests i).Affordable c funds response)
      (startServices c evm requests ⟨db, false⟩) :=
    ⟨hdb, fun i => (requests i).ensures_affordable law c funds⟩
  have hrun := hstart.run schedule
  exact ⟨hrun.shared, fun i response hdone => hrun.result hdone response rfl⟩

/-! ## A machine that asks for the value -/

/-- The sample machine, except that a sender needs the value that it sends. -/
def Evm.funded : Evm where
  transactCall backend metadataGas caller address value data gasLimit :=
    if value.toNat ≤ (backend.basic caller).balance.toNat
    then Evm.sample.transactCall backend metadataGas caller address value data gasLimit
    else ⟨.error, [], gasLimit, [], []⟩
  transactCreate backend metadataGas caller value initCode gasLimit :=
    if value.toNat ≤ (backend.basic caller).balance.toNat
    then Evm.sample.transactCreate backend metadataGas caller value initCode gasLimit
    else ⟨.error, (), gasLimit, [], []⟩
  call := Evm.sample.call

/-- The machine is shown the balance of the world. -/
theorem EthDBBackend.balance_basic (self : EthDBBackend) (address : H160) :
    (self.view.basic address).balance = self.accounts.world.balance address := by
  rw [Accounts.balance_world]
  simp only [view, basic]
  cases self.accounts[address]? with
  | none => rfl
  | some account => rfl

/-- A run that succeeds had the value, and it only counts the sender's nonce. -/
theorem EthDBBackend.run_funded {self : EthDBBackend} {sender : H160} {value : U256}
    {«to» : Option H160} {data : List UInt8}
    (hr : (self.run .funded sender value «to» data).reason.isSucceed) :
    value.toNat ≤ (self.view.basic sender).balance.toNat ∧
      (self.run .funded sender value «to» data).applies = Evm.sampleApplies self.view sender := by
  by_cases hvalue : value.toNat ≤ (self.view.basic sender).balance.toNat
  · have hsame : self.run .funded sender value «to» data =
        self.run .sample sender value «to» data := by
      cases «to» with
      | none => simp only [run, Evm.funded, if_pos hvalue]
      | some h => simp only [run, Evm.funded, if_pos hvalue]
    rw [hsame] at hr ⊢
    exact ⟨hvalue, (run_sample hr).2⟩
  · cases «to» with
    | none =>
      simp only [run, Evm.funded, if_neg hvalue] at hr
      contradiction
    | some h =>
      simp only [run, Evm.funded, if_neg hvalue] at hr
      contradiction

/-- To count the sender's nonce moves no money. -/
theorem World.balance_sampleApplies (self : EthDBBackend) (sender address : H160) :
    (self.accounts.world.overlay (Evm.sampleApplies self.view sender)).balance address =
      self.accounts.world.balance address := by
  by_cases hs : sender = address
  · subst hs
    rw [← self.balance_basic sender]
    simp [World.balance, World.overlay, Evm.sampleApplies, KeyedLog.newest, Apply.address,
      sinceDelete, WorldAccount.overlay]
  · simp [World.balance, World.overlay, Evm.sampleApplies, KeyedLog.newest, Apply.address,
      sinceDelete, WorldAccount.overlay, hs]

/-- The machine obeys the law. -/
theorem MoneyLaw.of_funded : MoneyLaw .funded where
  conserved self sender value to' data funds h hr := by
    rw [(EthDBBackend.run_funded hr).2]
    exact h.congr (World.balance_sampleApplies self sender)
  funded self sender value to' data hr := by
    rw [← self.balance_basic]
    exact (EthDBBackend.run_funded hr).1

/-- A balance that is asked for twice around a creation. -/
theorem funds_never_grow_creation :
    let requests : Fin 3 → ServiceRequest
      | 0 => .node (.state (.balance .zero none))
      | 1 => .node (.sendRawTransaction 5
          [0xc9, 0x80, 0x80, 0x80, 0x80, 0x80, 0x80, 0x1b, 0x01, 0x01])
      | 2 => .node (.state (.balance .zero none))
    let p := (startServices .sample .funded requests ⟨HashMapEthDB.new .sample 0, false⟩).run
      [0, 1, 0, 2, 2]
    p.shared.ethDb.blocks.length = 2 ∧ Funded 0 p.shared.ethDb ∧
      ∀ i response, p.threads i = .done (some (.ok response)) →
        (requests i).Affordable .sample 0 response :=
  ⟨by decide +kernel, funds_never_grow MoneyLaw.of_funded .sample
    (Funded.new .sample 0) _ _⟩

end

end Tethereum
