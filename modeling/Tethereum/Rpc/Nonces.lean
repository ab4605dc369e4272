import Tethereum.Rpc.Runs
import Mathlib.Data.List.Basic

/-!
# Nonces over runs

The machine counts the transactions of each sender in the account nonce. The
signed nonce is never compared with it: the transactions of a sender execute at
the account nonces 0, 1, 2, …, whatever nonces they were signed with.
-/

namespace Tethereum

open HashMapEthDB EthClient

/-- No owned address has code. -/
def World.Codeless (owned : Set H160) (world : World) : Prop :=
  ∀ a ∈ owned, world.code a = []

/-- What a successful run does to addresses that are owned by keys: it raises the sender's
account nonce by one, it leaves the other nonces alone, and it creates no code there. -/
structure NonceLaw (evm : Evm) (owned : Set H160) : Prop where
  /-- The sender's nonce goes up by exactly one. -/
  sender : ∀ (self : EthDBBackend) (sender : H160) (value : U256) («to» : Option H160)
    (data : List UInt8), self.accounts.world.Codeless owned → sender ∈ owned →
    (self.run evm sender value «to» data).reason.isSucceed →
    ((self.accounts.world.overlay (self.run evm sender value «to» data).applies).nonce
      sender).toNat = (self.accounts.world.nonce sender).toNat + 1
  /-- The nonces of the other owned addresses stay. -/
  others : ∀ (self : EthDBBackend) (sender : H160) (value : U256) («to» : Option H160)
    (data : List UInt8), self.accounts.world.Codeless owned → sender ∈ owned →
    (self.run evm sender value «to» data).reason.isSucceed → ∀ a ∈ owned, a ≠ sender →
    (self.accounts.world.overlay (self.run evm sender value «to» data).applies).nonce a =
      self.accounts.world.nonce a
  /-- Owned addresses stay without code. -/
  codeless : ∀ (self : EthDBBackend) (sender : H160) (value : U256) («to» : Option H160)
    (data : List UInt8), self.accounts.world.Codeless owned → sender ∈ owned →
    (self.run evm sender value «to» data).reason.isSucceed →
    (self.accounts.world.overlay (self.run evm sender value «to» data).applies).Codeless owned

/-- The signed nonces of a sender's included transactions, in block order. -/
def signedNonces (db : HashMapEthDB) (a : H160) : List Nat :=
  ((included db).filter (·.sender = a)).map (·.transaction.unsigned.nonce.toNat)

/-- For each included transaction of a sender, in block order, the nonce it was signed with
and the account nonce it was executed at, which is the one in the accounts behind the
preceding block. -/
def inclusions (db : HashMapEthDB) (a : H160) : List (Nat × Nat) :=
  (db.blocks.tail.zip db.accounts).flatMap fun (block, parent) =>
    (block.transactions.filter (·.sender = a)).map fun tx =>
      (tx.transaction.unsigned.nonce.toNat, (parent.world.nonce a).toNat)

/-- The account nonces count the executed transactions. -/
structure NonceHistory (owned : Set H160) (db : HashMapEthDB) : Prop where
  /-- There is one account map for each block. -/
  aligned : db.blocks.length = db.accounts.length
  /-- The genesis block has no transactions. -/
  genesis : ∃ g, db.blocks.head? = some g ∧ g.transactions = []
  /-- The latest owned accounts have no code. -/
  codeless : ∀ latest, db.accounts.getLast? = some latest → latest.world.Codeless owned
  /-- The latest account nonce of an owned address is the number of its transactions. -/
  counted : ∀ latest, db.accounts.getLast? = some latest → ∀ a ∈ owned,
    (latest.world.nonce a).toNat = (inclusions db a).length
  /-- The transactions of an owned address were executed at consecutive nonces. -/
  ordered : ∀ a ∈ owned,
    (inclusions db a).map Prod.snd = List.range (inclusions db a).length

section

variable {c : Crypto} {evm : Evm} {owned : Set H160} {db db' : HashMapEthDB} {now : U64}
  {tx : SignedTransaction}

/-- An execution includes its transaction, at the sender's latest account nonce. -/
theorem inclusions_extend {last : Block} {latest : Accounts} (hb : db.blocks ≠ [])
    (haligned : db.blocks.length = db.accounts.length)
    (ha : db.accounts.getLast? = some latest) (a : H160) :
    inclusions (db.extend c evm now tx last latest) a = inclusions db a ++
      if tx.sender = a
      then [(tx.transaction.unsigned.nonce.toNat, (latest.world.nonce a).toNat)] else [] := by
  obtain ⟨older, haccounts⟩ := List.getLast?_eq_some_iff.mp ha
  have hlen : db.blocks.tail.length = older.length := by
    rw [List.length_tail, haligned, haccounts, List.length_append, List.length_singleton,
      Nat.add_sub_cancel]
  -- the new block is paired with the accounts that were the latest before it
  have hzip : ∀ (block : Block) (accounts : Accounts),
      (db.blocks ++ [block]).tail.zip (db.accounts ++ [accounts]) =
        db.blocks.tail.zip db.accounts ++ [(block, latest)] := by
    intro block accounts
    have hold : db.blocks.tail.zip db.accounts = db.blocks.tail.zip older := by
      have hsplit : (db.blocks.tail ++ []).zip (older ++ [latest]) =
          db.blocks.tail.zip older ++ [].zip [latest] := List.zip_append hlen
      rwa [← haccounts, List.zip_nil_left, List.append_nil, List.append_nil] at hsplit
    rw [List.tail_append_of_ne_nil hb, haccounts, List.append_assoc, List.zip_append hlen,
      ← haccounts, hold]
    rfl
  simp only [inclusions, extend, hzip, List.flatMap_append, List.flatMap_cons, List.flatMap_nil,
    Block.transactions_next, List.append_nil]
  by_cases hs : tx.sender = a
  · simp [hs]
  · simp [hs]

/-- The signed nonces are the first components of the inclusions. -/
theorem NonceHistory.map_fst_inclusions (h : NonceHistory owned db) (a : H160) :
    (inclusions db a).map Prod.fst = signedNonces db a := by
  obtain ⟨g, hg, htxs⟩ := h.genesis
  obtain ⟨rest, hblocks⟩ := List.head?_eq_some_iff.mp hg
  have hlen : rest.length ≤ db.accounts.length := by
    rw [← h.aligned, hblocks, List.length_cons]
    exact Nat.le_succ _
  have hfst : ((rest.zip db.accounts).map Prod.fst) = rest := List.map_fst_zip hlen
  simp only [inclusions, signedNonces, included, hblocks, List.tail_cons, List.flatMap_cons,
    htxs, List.nil_append, List.map_flatMap, List.map_map, Function.comp_def]
  conv => rhs; rw [← hfst]
  rw [List.flatMap_map, List.filter_flatMap, List.map_flatMap]

/-- A new store has no history. -/
theorem NonceHistory.new (c : Crypto) (now : U64) (owned : Set H160) :
    NonceHistory owned (HashMapEthDB.new c now) where
  aligned := rfl
  genesis := ⟨_, rfl, rfl⟩
  codeless latest h a _ := by
    cases h
    simp [World.code, Accounts.world]
  counted latest h a _ := by
    cases h
    simp [World.nonce, Accounts.world, inclusions, HashMapEthDB.new, createGenesis]
  ordered a _ := rfl

/-- An execution for an owned sender keeps the history. -/
theorem NonceHistory.extend (h : NonceHistory owned db) (law : NonceLaw evm owned)
    (hsender : tx.sender ∈ owned) (hexec : Executes c evm now tx db db') :
    NonceHistory owned db' := by
  obtain ⟨last, latest, hb, ha, hr, rfl⟩ := hexec
  obtain ⟨g, hg, htxs⟩ := h.genesis
  have hne : db.blocks ≠ [] := by
    rintro hnil
    rw [hnil] at hg
    contradiction
  have hcode := h.codeless latest ha
  have hinc : ∀ a, inclusions (db.extend c evm now tx last latest) a = _ :=
    inclusions_extend hne h.aligned ha
  have hlatest : ∀ l, (db.extend c evm now tx last latest).accounts.getLast? = some l →
      l.world = latest.world.overlay (submitRun c evm now tx last latest).applies := by
    intro l hl
    rw [HashMapEthDB.extend, List.getLast?_concat] at hl
    cases hl
    exact Accounts.world_foldl_applyOne _
  refine {
    aligned := ?_
    genesis := ⟨g, ?_, htxs⟩
    codeless := ?_
    counted := ?_
    ordered := ?_ }
  · simp only [HashMapEthDB.extend, List.length_append, h.aligned, List.length_singleton]
  · rw [HashMapEthDB.extend, List.head?_append, hg, Option.some_or]
  · intro l hl
    rw [hlatest l hl]
    exact law.codeless _ _ _ _ _ hcode hsender hr
  · intro l hl a hmem
    have hcount := h.counted latest ha a hmem
    rw [hlatest l hl, hinc a, List.length_append]
    by_cases hs : tx.sender = a
    · subst hs
      have hup := law.sender _ _ _ _ _ hcode hsender hr
      rw [if_pos rfl, List.length_singleton, ← hcount]
      exact hup
    · have hstay := law.others _ _ _ _ _ hcode hsender hr a hmem (Ne.symm hs)
      rw [if_neg hs, List.length_nil, Nat.add_zero, ← hcount]
      exact congrArg BitVec.toNat hstay
  · intro a hmem
    have hcount := h.counted latest ha a hmem
    have hord := h.ordered a hmem
    rw [hinc a, List.map_append, List.length_append, hord]
    by_cases hs : tx.sender = a
    · rw [if_pos hs, List.length_singleton, List.range_succ, ← hcount]
      rfl
    · rw [if_neg hs, List.length_nil, Nat.add_zero, List.map_nil, List.append_nil]

/-- After every run, the transactions of each sender were executed at the account nonces 0, 1,
2, …; their signed nonces are these exactly when each was signed with the nonce it was
executed at. -/
theorem submitAll_nonces (law : NonceLaw evm owned) (now : U64) (requests : List RawRequest)
    (hsenders : ∀ req ∈ requests, ∀ tx, Accepted c req.2 tx → tx.sender ∈ owned) (a : H160) :
    let db := (submitAll c evm requests ⟨HashMapEthDB.new c now, false⟩).ethDb
    let k := (signedNonces db a).length
    (inclusions db a).map Prod.fst = signedNonces db a ∧
    (inclusions db a).map Prod.snd = List.range k ∧
    (signedNonces db a = List.range k ↔ ∀ p ∈ inclusions db a, p.1 = p.2) := by
  intro db k
  have hhistory : NonceHistory owned db := by
    apply submitAll_invariant (P := NonceHistory owned) (List.cons_ne_nil _ _)
      (List.cons_ne_nil _ _) (NonceHistory.new c now owned)
    intro req hreq tx db db' h hacc hexec
    exact h.extend law (hsenders req hreq tx hacc) hexec
  have hfst := hhistory.map_fst_inclusions a
  have hlen : k = (inclusions db a).length := by
    rw [← List.length_map (f := Prod.fst), hfst]
  have hsnd : (inclusions db a).map Prod.snd = List.range k := by
    rw [hlen]
    by_cases ha : a ∈ owned
    · exact hhistory.ordered a ha
    · -- nobody who is not owned has sent anything
      have hnil : signedNonces db a = [] := by
        rw [signedNonces, List.map_eq_nil_iff, List.filter_eq_nil_iff]
        intro tx hmem hs
        obtain ⟨req, hreq, hacc⟩ := accepted_of_included now requests tx hmem
        exact ha (of_decide_eq_true hs ▸ hsenders req hreq tx hacc)
      have hzero : (inclusions db a).length = 0 := by
        rw [← hlen]
        exact congrArg List.length hnil
      rw [hzero, List.length_eq_zero_iff.mp hzero]
      rfl
  refine ⟨hfst, hsnd, ?_⟩
  rw [← hsnd, ← hfst, List.map_inj_left]

end

/-! ## The sample machine -/

/-- A successful run of the sample machine had a nonce left to spend, and spends it. -/
theorem EthDBBackend.run_sample {self : EthDBBackend} {sender : H160} {value : U256}
    {«to» : Option H160} {data : List UInt8}
    (hr : (self.run .sample sender value «to» data).reason.isSucceed) :
    self.accounts.world.nonce sender ≠ BitVec.allOnes 256 ∧
      (self.run .sample sender value «to» data).applies =
        Evm.sampleApplies self.view sender := by
  rw [← nonce_basic]
  by_cases hn : (self.view.basic sender).nonce = BitVec.allOnes 256
  · cases «to» with
    | none =>
      simp only [EthDBBackend.run, Evm.sample, if_pos hn] at hr
      contradiction
    | some h =>
      simp only [EthDBBackend.run, Evm.sample, if_pos hn] at hr
      contradiction
  · refine ⟨hn, ?_⟩
    cases «to» with
    | none => simp only [EthDBBackend.run, Evm.sample, if_neg hn]
    | some h => simp only [EthDBBackend.run, Evm.sample, if_neg hn]

/-- A plain transfer only counts the sender's nonce. -/
theorem World.overlay_sampleApplies (self : EthDBBackend) (sender a : H160) :
    let world := self.accounts.world.overlay (Evm.sampleApplies self.view sender)
    world.nonce a = (if sender = a then self.accounts.world.nonce sender + 1
      else self.accounts.world.nonce a) ∧
    world.code a = self.accounts.world.code a := by
  have hview : (self.view.basic sender).nonce = self.accounts.world.nonce sender :=
    self.nonce_basic sender
  by_cases hs : sender = a
  · subst hs
    simp [World.nonce, World.code, World.overlay, Evm.sampleApplies, KeyedLog.newest,
      Apply.address, sinceDelete, WorldAccount.overlay, hview]
  · simp [World.nonce, World.code, World.overlay, Evm.sampleApplies, KeyedLog.newest,
      Apply.address, sinceDelete, WorldAccount.overlay, hs]

/-- The sample machine obeys the law, whatever is owned. -/
theorem NonceLaw.sample (owned : Set H160) : NonceLaw .sample owned where
  sender self sender value to' data _ _ hr := by
    obtain ⟨hn, happlies⟩ := EthDBBackend.run_sample hr
    have hlt := (self.accounts.world.nonce sender).isLt
    have hmax : (self.accounts.world.nonce sender).toNat ≠ 2 ^ 256 - 1 := fun he =>
      hn (BitVec.eq_of_toNat_eq (he.trans (BitVec.toNat_allOnes).symm))
    rw [happlies, (World.overlay_sampleApplies self sender sender).1, if_pos rfl,
      BitVec.toNat_add]
    exact Nat.mod_eq_of_lt (by simp only [BitVec.ofNat_eq_ofNat, BitVec.toNat_ofNat]; omega)
  others self sender value to' data _ _ hr a _ hne := by
    obtain ⟨_, happlies⟩ := EthDBBackend.run_sample hr
    rw [happlies, (World.overlay_sampleApplies self sender a).1, if_neg (Ne.symm hne)]
  codeless self sender value to' data hcode _ hr a hmem := by
    obtain ⟨_, happlies⟩ := EthDBBackend.run_sample hr
    rw [happlies, (World.overlay_sampleApplies self sender a).2]
    exact hcode a hmem

/-- A creation sent twice to the sample machine. -/
theorem submitAll_nonces_twice :
    let raw := [0xc9, 0x80, 0x80, 0x80, 0x80, 0x80, 0x80, 0x1b, 0x01, 0x01]
    let sender : H160 := ⟨List.replicate 19 0 ++ [1], rfl⟩
    let db := (submitAll .sample .sample [(1, raw), (2, raw)]
      ⟨HashMapEthDB.new .sample 0, false⟩).ethDb
    let k := (signedNonces db sender).length
    (inclusions db sender).map Prod.fst = signedNonces db sender ∧
    (inclusions db sender).map Prod.snd = List.range k ∧
    (signedNonces db sender = List.range k ↔ ∀ p ∈ inclusions db sender, p.1 = p.2) :=
  submitAll_nonces (NonceLaw.sample Set.univ) 0 _ (fun _ _ _ _ => Set.mem_univ _) _

/-- Resending a transaction includes and executes it again, although the machine obeys the
law: both are signed with nonce 0, and they are executed at the nonces 0 and 1. -/
theorem submitAll_duplicate :
    let raw := [0xc9, 0x80, 0x80, 0x80, 0x80, 0x80, 0x80, 0x1b, 0x01, 0x01]
    let db := (submitAll .sample .sample [(1, raw), (2, raw)]
      ⟨HashMapEthDB.new .sample 0, false⟩).ethDb
    let sender : H160 := ⟨List.replicate 19 0 ++ [1], rfl⟩
    NonceLaw .sample Set.univ ∧ signedNonces db sender = [0, 0] ∧
      inclusions db sender = [(0, 0), (0, 1)] ∧ ¬ (included db).Nodup :=
  ⟨NonceLaw.sample Set.univ, by decide +kernel, by decide +kernel, by decide +kernel⟩

end Tethereum
