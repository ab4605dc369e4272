import Tethereum.Db.History
import Tethereum.Rpc.Client

/-!
# Block tags

A tag is resolved to a block number, which is then used as a position among the
account maps. On a well-formed store only a number beyond the best block is
resolved without naming a block, and there the handlers part ways.
-/

namespace Tethereum

open HashMapEthDB EthClient

/-- The tag names a stored block. -/
def NamesBlock (c : Crypto) (db : HashMapEthDB) (tag : Option BlockNumber) : Prop :=
  match tag.getD .latest with
  | .hash hash _ => ∃ block ∈ db.blocks, block.header.hash c = hash
  | .num n => n.toNat < db.blocks.length
  | .earliest | .latest | .pending => db.blocks ≠ []

/-- The tag names the stored block at the position. -/
def NamesAt (c : Crypto) (db : HashMapEthDB) (tag : Option BlockNumber) (i : Nat) : Prop :=
  ∃ block, db.blocks[i]? = some block ∧
    match tag.getD .latest with
    | .hash hash _ => block.header.hash c = hash
    | .num n => i = n.toNat
    | .earliest => i = 0
    | .latest | .pending => i + 1 = db.blocks.length

/-- The tag is a number greater than the best one. -/
def Beyond (db : HashMapEthDB) (tag : Option BlockNumber) : Prop :=
  ∃ n, tag = some (.num n) ∧ ∀ best ∈ db.bestNumber, best < n

/-- The tag is not a number, or it is the number of a stored block. -/
def Stored (db : HashMapEthDB) (tag : Option BlockNumber) : Prop :=
  ∀ n, tag = some (.num n) → n.toNat < db.blocks.length

namespace HashMapEthDB

variable {c : Crypto} {evm : Evm} {db : HashMapEthDB}

/-! ## Stores of any size -/

/-- Only a number can fail to be stored. -/
theorem stored_of_forall_ne {tag : Option BlockNumber} (h : ∀ n, tag ≠ some (.num n)) :
    Stored db tag :=
  fun n hn => absurd hn (h n)

/-- A position stays a position when it is cut to 64 bits. -/
theorem Positioned.toNat_best_lt (h : Positioned c db) :
    (BitVec.ofNat 64 (db.blocks.length - 1)).toNat < db.blocks.length := by
  have hpos := List.length_pos_iff.mpr h.nonempty
  have hmod := Nat.mod_le (db.blocks.length - 1) (2 ^ 64)
  rw [BitVec.toNat_ofNat]
  omega

/-- The tag of the newest block is resolved to its position. -/
theorem parseNumber_newest {num : Option BlockNumber} (h : Positioned c db)
    (hnum : num.getD .latest = .latest ∨ num.getD .latest = .pending) :
    parseNumber num db = some (.ok (BitVec.ofNat 64 (db.blocks.length - 1))) := by
  have hbest := bestNumber_of_ne_nil h.nonempty
  rcases hnum with hnum | hnum
  · rw [parseNumber, hnum, hbest, Option.map_some]
  · rw [parseNumber, hnum, hbest, Option.map_some]

/-- The tag of the newest block is resolved to the position of the newest accounts. -/
theorem resolve_newest {tag : Option BlockNumber} (h : Positioned c db)
    (hlen : db.blocks.length ≤ isizeMax)
    (htag : tag.getD .latest = .latest ∨ tag.getD .latest = .pending) {latest : Accounts}
    (ha : db.accounts.getLast? = some latest) :
    ∃ n, parseNumber tag db = some (.ok n) ∧ db.accounts[n.toNat]? = some latest := by
  simp only [isizeMax] at hlen
  have hposition : (BitVec.ofNat 64 (db.blocks.length - 1)).toNat = db.blocks.length - 1 := by
    rw [BitVec.toNat_ofNat]
    omega
  refine ⟨_, parseNumber_newest h htag, ?_⟩
  rw [hposition, h.aligned, ← List.getLast?_eq_getElem?, ha]

/-- A tag is resolved to the position of a block, to the number of no block, or not at all,
when it is the hash of no block. -/
theorem Positioned.parseNumber_cases (h : Positioned c db) (tag : Option BlockNumber) :
    (∃ n, parseNumber tag db = some (.ok n) ∧ n.toNat < db.blocks.length ∧
      NamesBlock c db tag ∧ Stored db tag) ∨
    (∃ n, parseNumber tag db = some (.ok n) ∧ db.blocks.length ≤ n.toNat ∧
      ¬ NamesBlock c db tag ∧ ¬ Stored db tag) ∨
    (parseNumber tag db = some (.error "err") ∧ ¬ NamesBlock c db tag ∧ Stored db tag) := by
  have hne := h.nonempty
  have hbest : db.bestNumber.map (Except.ok (ε := String)) =
      some (.ok (BitVec.ofNat 64 (db.blocks.length - 1))) := by
    rw [bestNumber_of_ne_nil hne, Option.map_some]
  have hlt := h.toNat_best_lt
  cases tag with
  | none => exact Or.inl ⟨_, hbest, hlt, hne, stored_of_forall_ne (by simp)⟩
  | some tag =>
    cases tag with
    | hash hash requireCanonical =>
      have hstored : Stored db (some (.hash hash requireCanonical)) :=
        stored_of_forall_ne (by simp)
      cases hn : db.hashIndex[hash]? with
      | some n =>
        have hparse : parseNumber (some (.hash hash requireCanonical)) db = some (.ok n) := by
          simp only [parseNumber, Option.getD_some, hn, Option.elim]
        obtain ⟨block, hmem, hhash, _⟩ := h.recorded hash n hn
        exact Or.inl ⟨n, hparse, h.indexed hash n hn, ⟨block, hmem, hhash⟩, hstored⟩
      | none =>
        have hparse : parseNumber (some (.hash hash requireCanonical)) db =
            some (.error "err") := by
          simp only [parseNumber, Option.getD_some, hn, Option.elim]
        refine Or.inr (Or.inr ⟨hparse, ?_, hstored⟩)
        rintro ⟨block, hb, rfl⟩
        exact h.named block hb hn
    | num n =>
      have hstored : Stored db (some (.num n)) ↔ n.toNat < db.blocks.length := by
        simp only [Stored, Option.some.injEq, BlockNumber.num.injEq, forall_eq']
      by_cases hn : n.toNat < db.blocks.length
      · exact Or.inl ⟨n, rfl, hn, hn, hstored.mpr hn⟩
      · exact Or.inr (Or.inl ⟨n, rfl, Nat.not_lt.mp hn, hn, fun hs => hn (hstored.mp hs)⟩)
    | latest => exact Or.inl ⟨_, hbest, hlt, hne, stored_of_forall_ne (by simp)⟩
    | earliest =>
      exact Or.inl ⟨0, rfl, List.length_pos_iff.mpr hne, hne, stored_of_forall_ne (by simp)⟩
    | pending => exact Or.inl ⟨_, hbest, hlt, hne, stored_of_forall_ne (by simp)⟩

/-- A number or a hash names a block if it is that of a stored one; every other tag does. -/
theorem Positioned.namesBlock_iff (h : Positioned c db) {tag : Option BlockNumber} :
    NamesBlock c db tag ↔ Stored db tag ∧
      ∀ hash requireCanonical, tag = some (.hash hash requireCanonical) →
        ∃ block ∈ db.blocks, block.header.hash c = hash := by
  have hne := h.nonempty
  cases tag with
  | none => simp [NamesBlock, Stored, hne]
  | some tag => cases tag <;> simp [NamesBlock, Stored, hne]

/-- A tag that names a block is resolved to its position, cut to 64 bits. -/
theorem Positioned.namesAt_of_parseNumber (h : Positioned c db) {tag : Option BlockNumber}
    (hname : NamesBlock c db tag) {n : U64} (hn : parseNumber tag db = some (.ok n)) :
    ∃ i, NamesAt c db tag i ∧ n = BitVec.ofNat 64 i := by
  have hpos := List.length_pos_iff.mpr h.nonempty
  have hnewest : tag.getD .latest = .latest ∨ tag.getD .latest = .pending →
      n = BitVec.ofNat 64 (db.blocks.length - 1) := by
    intro htag
    rw [parseNumber_newest h htag] at hn
    exact (Except.ok.inj (Option.some.inj hn)).symm
  have hlast : db.blocks[db.blocks.length - 1]? = some _ := List.getElem?_eq_getElem (by omega)
  have hsucc : db.blocks.length - 1 + 1 = db.blocks.length := by omega
  cases tag with
  | none => exact ⟨_, ⟨_, hlast, hsucc⟩, hnewest (Or.inl rfl)⟩
  | some tag =>
    cases tag with
    | hash hash requireCanonical =>
      cases hindex : db.hashIndex[hash]? with
      | none =>
        obtain ⟨block, hmem, rfl⟩ := hname
        exact absurd hindex (h.named block hmem)
      | some m =>
        simp only [parseNumber, Option.getD_some, hindex, Option.elim, Option.some.injEq,
          Except.ok.injEq] at hn
        obtain ⟨block, hmem, hhash, hnumber⟩ := h.recorded hash m hindex
        obtain ⟨i, hi⟩ := List.mem_iff_getElem?.mp hmem
        exact ⟨i, ⟨block, hi, hhash⟩, by rw [← hn, ← hnumber, h.numbered i block hi]⟩
    | num m =>
      cases hn
      exact ⟨n.toNat, ⟨_, List.getElem?_eq_getElem hname, rfl⟩, by simp⟩
    | latest => exact ⟨_, ⟨_, hlast, hsucc⟩, hnewest (Or.inl rfl)⟩
    | earliest =>
      cases hn
      exact ⟨0, ⟨_, List.getElem?_eq_getElem hpos, rfl⟩, rfl⟩
    | pending => exact ⟨_, ⟨_, hlast, hsucc⟩, hnewest (Or.inr rfl)⟩

/-! ## Well-formed stores -/

/-- A number is beyond the best one when no block has it. -/
theorem WellFormed.beyond_iff (h : db.WellFormed c) {n : U64} :
    Beyond db (some (.num n)) ↔ db.blocks.length ≤ n.toNat := by
  have hpos := h.length_pos
  have hbound := h.bounded
  simp only [isizeMax] at hbound
  simp only [Beyond, h.bestNumber_eq, Option.mem_some_iff, forall_eq', Option.some.injEq,
    BlockNumber.num.injEq, exists_eq_left', BitVec.lt_def, BitVec.toNat_ofNat]
  omega

/-- On a well-formed store, only numbers beyond the best one are not stored. -/
theorem WellFormed.beyond_iff_not_stored (h : db.WellFormed c) {tag : Option BlockNumber} :
    Beyond db tag ↔ ¬ Stored db tag := by
  constructor
  · rintro ⟨n, rfl, hbest⟩ hs
    exact Nat.not_lt.mpr (h.beyond_iff.mp ⟨n, rfl, hbest⟩) (hs n rfl)
  · intro hs
    simp only [Stored, not_forall, Nat.not_lt] at hs
    obtain ⟨n, rfl, hle⟩ := hs
    exact h.beyond_iff.mpr hle

/-- A tag is resolved to the position of a block, to a number beyond the best one, or not
at all, when it is the hash of no block. -/
theorem WellFormed.parseNumber_cases (h : db.WellFormed c) (tag : Option BlockNumber) :
    (∃ n, parseNumber tag db = some (.ok n) ∧ n.toNat < db.blocks.length ∧
      NamesBlock c db tag ∧ ¬ Beyond db tag) ∨
    (∃ n, parseNumber tag db = some (.ok n) ∧ db.blocks.length ≤ n.toNat ∧
      ¬ NamesBlock c db tag ∧ Beyond db tag) ∨
    (parseNumber tag db = some (.error "err") ∧ ¬ NamesBlock c db tag ∧ ¬ Beyond db tag) := by
  simp only [h.beyond_iff_not_stored, not_not]
  exact h.positioned.parseNumber_cases tag

/-! ## The chain store -/

/-- What a client may rely on: blocks, accounts, index and tags fit together. -/
structure ChainStore (c : Crypto) (db : HashMapEthDB) : Prop where
  /-- There is a block. -/
  nonempty : db.blocks ≠ []
  /-- There is one account map for each block. -/
  aligned : db.blocks.length = db.accounts.length
  /-- A block carries its position as its number. -/
  numbered : ∀ (i : Nat) (block : Block), db.blocks[i]? = some block →
    block.header.number.toNat = i
  /-- A header remembers the hash of its own encoding. -/
  memoized : ∀ block ∈ db.blocks,
    block.header.memoizedHash = some (c.keccak block.header.rlp)
  /-- A block names its predecessor's hash. -/
  linked : ∀ (i : Nat) (block next : Block), db.blocks[i]? = some block →
    db.blocks[i + 1]? = some next → next.header.parentHash = block.header.hash c
  /-- Every block hash is indexed by the position. -/
  indexed : ∀ (i : Nat) (block : Block), db.blocks[i]? = some block →
    db.hashIndex[block.header.hash c]? = some (BitVec.ofNat 64 i)
  /-- Nothing else is indexed. -/
  exact : ∀ (hash : H256) (n : U64), db.hashIndex[hash]? = some n →
    ∃ block, db.blocks[n.toNat]? = some block ∧ block.header.hash c = hash
  /-- The tag of a block hash is resolved to the position. -/
  resolved : ∀ (i : Nat) (block : Block) requireCanonical, db.blocks[i]? = some block →
    parseNumber (some (.hash (block.header.hash c) requireCanonical)) db =
      some (.ok (BitVec.ofNat 64 i))
  /-- The tag of any other hash is an error. -/
  refused : ∀ hash requireCanonical,
    (∀ block ∈ db.blocks, block.header.hash c ≠ hash) →
    parseNumber (some (.hash hash requireCanonical)) db = some (.error "err")

/-- Every reachable store whose headers do not collide is a chain store. -/
theorem Reachable.chainStore (h : Reachable c evm db)
    (hk : Set.InjOn c.keccak db.headerEncodings) : ChainStore c db := by
  have hw := h.wellFormed
  have hindexed : ∀ (i : Nat) (block : Block), db.blocks[i]? = some block →
      db.hashIndex[block.header.hash c]? = some (BitVec.ofNat 64 i) := by
    intro i block hb
    rw [hw.getElem?_hashIndex_eq_some_iff hk, ← hw.number_eq hb, hw.toNat_number hb]
    exact ⟨block, hb, rfl⟩
  refine {
    nonempty := hw.blocks_ne_nil
    aligned := hw.aligned
    numbered := fun i block hb => hw.toNat_number hb
    memoized := fun block hb => hw.memoizedHash_eq hb
    linked := ?_
    indexed := hindexed
    exact := fun hash n hn => hw.block_of_hashIndex hn
    resolved := ?_
    refused := ?_ }
  · intro i block next hb hnext
    obtain ⟨now, tx, rfl⟩ := hw.grown i block next hb hnext
    exact Block.parentHash_next
  · intro i block requireCanonical hb
    simp only [parseNumber, Option.getD_some, hindexed i block hb, Option.elim]
  · intro hash requireCanonical hnot
    have hnone : db.hashIndex[hash]? = none := by
      rw [Option.eq_none_iff_forall_ne_some]
      intro n hn
      obtain ⟨block, hb, hhash⟩ := hw.block_of_hashIndex hn
      exact hnot block (List.mem_of_getElem? hb) hhash
    simp only [parseNumber, Option.getD_some, hnone, Option.elim]

/-- The store of the sample scheme with one submitted creation is a chain store. -/
theorem chainStore_submitted :
    ∃ db, Reachable .sample .sample db ∧ db.blocks.length = 2 ∧ ChainStore .sample db := by
  have hreach : Reachable .sample .sample _ := ⟨0, .tail .refl
    (.submitTx 5 ⟨⟨{}, 27, 1, 1, .zero⟩, .zero, none⟩ _ rfl (Nat.le_of_ble_eq_true rfl))⟩
  exact ⟨_, hreach, rfl, hreach.chainStore (injOn_headerEncodings (by decide +kernel))⟩

end HashMapEthDB

end Tethereum
