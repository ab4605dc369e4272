import Tethereum.Db.Receipts

/-!
# Created contracts

The machine installs a new contract at an address made of the sender and its
account nonce; the receipt announces the one made of the sender and the signed
nonce. Nothing compares the two nonces.
-/

namespace Tethereum

open Rlp hiding Encodable

/-- What the address of a created contract is hashed from: a sender and a nonce. -/
def createPreimage (sender : H160) (nonce : U256) : List UInt8 :=
  encodeList [encode sender, encode nonce]

/-- The address of a contract in the legacy scheme: the low 20 bytes of the hash. -/
def createAddress (c : Crypto) (sender : H160) (nonce : U256) : H160 :=
  H160.fromH256 (c.keccak (createPreimage sender nonce))

/-- What a successful creation does in the legacy scheme. `created` is the address at which
the machine installs the contract, by what it is given. -/
structure LegacyCreate (c : Crypto) (evm : Evm)
    (created : Backend → H160 → U256 → List UInt8 → H160) : Prop where
  /-- The address is made of the sender and its account nonce before the execution. -/
  address : ∀ (self : EthDBBackend) (sender : H160) (value : U256) (data : List UInt8),
    (self.run evm sender value none data).reason.isSucceed →
    created self.view sender value data =
      createAddress c sender (self.accounts.world.nonce sender)
  /-- There is an account at the address, unless the new contract destroyed itself. -/
  installed : ∀ (self : EthDBBackend) (sender : H160) (value : U256) (data : List UInt8),
    (self.run evm sender value none data).reason.isSucceed →
    (self.run evm sender value none data).reason ≠ .succeed .suicided →
    self.accounts.world.overlay (self.run evm sender value none data).applies
      (created self.view sender value data) ≠ none

section

variable {c : Crypto} {sender : H160} {nonce nonce' : U256}

/-- Nonces are read off the preimage. -/
theorem createPreimage_injective (h : createPreimage sender nonce = createPreimage sender nonce') :
    nonce = nonce' := by
  have hitem : ∀ nonce : U256, ∀ item ∈ [encode sender, encode nonce], IsItem item := by
    intro nonce
    simp only [List.forall_mem_cons, isItem_encode, List.not_mem_nil, false_implies,
      implies_true, and_self]
  have hlength : ∀ nonce : U256, [encode sender, encode nonce].flatten.length < 2 ^ 64 := by
    intro nonce
    have hsender := length_encode_fixedHash_le sender
    have hnonce := length_encode_u256_le nonce
    simp only [List.flatten_cons, List.flatten_nil, List.length_append, List.length_nil]
    omega
  have hitems := encodeList_injective (hitem nonce) (hitem nonce') (hlength nonce)
    (hlength nonce') h
  simpa only [List.cons.injEq, encode_inj, true_and, and_true] using hitems

/-- A creation announces the address made of its signed nonce. -/
theorem SignedTransaction.contractAddress_eq {tx : SignedTransaction}
    (h : tx.transaction.unsigned.action = .create) :
    tx.contractAddress c = some (createAddress c tx.sender tx.transaction.unsigned.nonce) := by
  have hlist := RlpStream.foldl_appendItem_beginList (List.cons_ne_nil (encode tx.sender)
    [encode tx.transaction.unsigned.nonce])
  have hbuffer : _ = encodeList _ := congrArg RlpStream.buffer hlist
  unfold contractAddress createAddress createPreimage
  rw [h, ← hbuffer]
  rfl

/-- Nothing else is announced: a call announces no address. -/
theorem SignedTransaction.contractAddress_eq_some_iff {tx : SignedTransaction} {a : H160} :
    tx.contractAddress c = some a ↔ tx.transaction.unsigned.action = .create ∧
      a = createAddress c tx.sender tx.transaction.unsigned.nonce := by
  cases haction : tx.transaction.unsigned.action with
  | create =>
    rw [contractAddress_eq haction, Option.some_inj, eq_comm]
    exact (and_iff_right rfl).symm
  | call address =>
    rw [contractAddress, haction]
    exact iff_of_false (by rintro ⟨⟩) (by rintro ⟨⟨⟩, _⟩)

/-- Addresses with different preimages differ, unless these collide. -/
theorem createAddress_inj
    (hk : Set.InjOn (fun bytes => H160.fromH256 (c.keccak bytes))
      {createPreimage sender nonce, createPreimage sender nonce'}) :
    createAddress c sender nonce = createAddress c sender nonce' ↔ nonce = nonce' := by
  constructor
  · intro he
    exact createPreimage_injective (hk (Set.mem_insert _ _)
      (Set.mem_insert_of_mem _ (Set.mem_singleton _)) he)
  · exact congrArg (createAddress c sender)

end

namespace HashMapEthDB

/-- The address at which the machine installs the contract of a submitted creation. -/
def submitCreated (created : Backend → H160 → U256 → List UInt8 → H160) (c : Crypto) (now : U64)
    (tx : SignedTransaction) (last : Block) (latest : Accounts) : H160 :=
  created (submitBackend c tx (last.next c now [tx]) last latest).view tx.sender
    tx.transaction.unsigned.value tx.transaction.unsigned.data.toList

section

variable {c : Crypto} {evm : Evm} {now : U64} {db db' : HashMapEthDB} {tx : SignedTransaction}
  {created : Backend → H160 → U256 → List UInt8 → H160}

/-- The receipt of an accepted creation names the contract that was created when the
transaction was signed with the account nonce it was executed at; and only then, unless the
two addresses collide. -/
theorem Reachable.contractAddress_iff (h : Reachable c evm db) (law : LegacyCreate c evm created)
    (hcreate : tx.transaction.unsigned.action = .create)
    (hs : db.submitTx c evm now tx = some (.ok (), db')) :
    ∃ last latest latest' r, db.blocks.getLast? = some last ∧
      db.accounts.getLast? = some latest ∧ db'.accounts.getLast? = some latest' ∧
      db'.receipt c tx.hash = some (some r) ∧
      ((submitRun c evm now tx last latest).reason ≠ .succeed .suicided →
        latest'.world (submitCreated created c now tx last latest) ≠ none) ∧
      (tx.transaction.unsigned.nonce = latest.world.nonce tx.sender →
        r.contractAddress = some (submitCreated created c now tx last latest)) ∧
      (Set.InjOn (fun bytes => H160.fromH256 (c.keccak bytes))
          {createPreimage tx.sender tx.transaction.unsigned.nonce,
            createPreimage tx.sender (latest.world.nonce tx.sender)} →
        r.contractAddress = some (submitCreated created c now tx last latest) →
        tx.transaction.unsigned.nonce = latest.world.nonce tx.sender) := by
  have hw := h.wellFormed
  rcases hw.submitTx_cases hs with ⟨_, last, latest, hb, ha, hr, rfl⟩ | ⟨he, _⟩
  · have hnone : tx.transaction.receiver = none := by
      rw [UnverifiedTransaction.receiver, hcreate]
    have haddress : submitCreated created c now tx last latest =
        createAddress c tx.sender (latest.world.nonce tx.sender) := by
      rw [submitRun, hnone] at hr
      exact law.address _ _ _ _ hr
    have hannounced := SignedTransaction.contractAddress_eq (c := c) hcreate
    refine ⟨last, latest, _, _, hb, ha, List.getLast?_concat, receipt_extend_eq hw hb, ?_, ?_, ?_⟩
    · intro hreason
      rw [Accounts.world_foldl_applyOne]
      rw [submitRun, hnone] at hr hreason ⊢
      exact law.installed _ _ _ _ hr hreason
    · intro hn
      rw [haddress, ← hn]
      exact hannounced
    · intro hk he
      rw [haddress] at he
      exact (createAddress_inj hk).mp (Option.some.inj (hannounced.symm.trans he))
  · cases he

end

end HashMapEthDB

/-! ## A machine that creates -/

/-- Where the creating machine installs a contract. -/
def Evm.creatingAt (c : Crypto) (backend : Backend) (caller : H160) (_value : U256)
    (_initCode : List UInt8) : H160 :=
  createAddress c caller (backend.basic caller).nonce

/-- The sample machine, except that a creation installs its code. -/
def Evm.creating (c : Crypto) : Evm where
  transactCall := Evm.sample.transactCall
  transactCreate backend _ caller value initCode _ :=
    ⟨.succeed .stopped, (), 53000, Evm.sampleApplies backend caller ++
      [.modify ⟨Evm.creatingAt c backend caller value initCode, ⟨0, 1⟩, some initCode, [], false⟩],
      []⟩
  call := Evm.sample.call

/-- The newest change of an account leaves it there. -/
theorem World.overlay_concat_modify (world : World) (applies : List Apply) (change : Modify) :
    world.overlay (applies ++ [.modify change]) change.address ≠ none := by
  simp [World.overlay, KeyedLog.newest, Apply.address, sinceDelete, WorldAccount.overlay]

/-- The creating machine obeys the law. -/
theorem LegacyCreate.creating (c : Crypto) : LegacyCreate c (.creating c) (Evm.creatingAt c) where
  address self sender _ _ _ := congrArg (createAddress c sender) (self.nonce_basic sender)
  installed _ _ _ _ _ _ := World.overlay_concat_modify _ _ _

namespace HashMapEthDB

/-- A creation that is signed with the account nonce. -/
theorem contractAddress_iff_first :
    let tx : SignedTransaction := ⟨⟨{}, 27, 1, 1, .zero⟩, .zero, none⟩
    ∃ db' : HashMapEthDB, ∃ last latest latest' r,
      (new .sample 0).blocks.getLast? = some last ∧
      (new .sample 0).accounts.getLast? = some latest ∧ db'.accounts.getLast? = some latest' ∧
      db'.receipt .sample tx.hash = some (some r) ∧
      latest'.world (submitCreated (Evm.creatingAt .sample) .sample 5 tx last latest) ≠ none ∧
      r.contractAddress =
        some (submitCreated (Evm.creatingAt .sample) .sample 5 tx last latest) := by
  intro tx
  have hs : (new .sample 0).submitTx .sample (.creating .sample) 5 tx = some (.ok (), _) := rfl
  obtain ⟨last, latest, latest', r, hb, ha, ha', hr, hinstalled, hsame, _⟩ :=
    (reachable_new .sample (.creating .sample) 0).contractAddress_iff
      (LegacyCreate.creating .sample) rfl hs
  cases hb
  cases ha
  exact ⟨_, _, _, latest', r, rfl, rfl, ha', hr, hinstalled (by decide), hsame rfl⟩

/-- A creation that is signed with nonce 5 by a sender without transactions: the receipt
names an address at which there is no account. -/
theorem contractAddress_elsewhere :
    ∃ db db' tx last latest latest' r a, LegacyCreate .sample (.creating .sample)
        (Evm.creatingAt .sample) ∧ Reachable .sample (.creating .sample) db ∧
      tx.transaction.unsigned.action = .create ∧
      db.submitTx .sample (.creating .sample) 5 tx = some (.ok (), db') ∧
      db.blocks.getLast? = some last ∧ db.accounts.getLast? = some latest ∧
      db'.accounts.getLast? = some latest' ∧ db'.receipt .sample tx.hash = some (some r) ∧
      r.contractAddress = some a ∧ latest'.contains a = false ∧
      latest'.contains
        (submitCreated (Evm.creatingAt .sample) .sample 5 tx last latest) = true :=
  ⟨new .sample 0, _, ⟨⟨{ nonce := 5 }, 27, 1, 1, .zero⟩, .zero, none⟩, _, _, _, _, _,
    LegacyCreate.creating .sample, reachable_new _ _ 0, rfl,
    (submitTx_eq rfl rfl).trans (if_pos rfl), rfl, rfl, rfl,
    receipt_extend_eq (WellFormed.new _ _) rfl, rfl, by decide +kernel, by decide +kernel⟩

end HashMapEthDB

end Tethereum
