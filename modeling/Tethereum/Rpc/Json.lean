import Tethereum.Core.Members
import Tethereum.Rpc.HexBytes
import Tethereum.Rpc.Types
import Mathlib.Data.String.Basic

/-!
# Values in JSON

Responses travel as JSON values. A record is written as the object of its fields
under their names, without the fields that are skipped; extra members take the place
of fields with their names. Hashes and integers are written as texts, which tell
them apart.
-/

namespace Tethereum

open Members

/-- `serde_json::Value`. -/
inductive Json
  /-- Nothing. -/
  | null
  /-- Yes or no. -/
  | bool (b : Bool)
  /-- A number. -/
  | number (n : Nat)
  /-- A text. -/
  | string (s : String)
  /-- An array. -/
  | array (items : List Json)
  /-- An object, with its members in the order of their keys. -/
  | object (members : List (String × Json))

/-- The texts of hashes and integers. -/
structure Texts where
  /-- The text of a hash. -/
  fixedHash {n : Nat} (h : FixedHash n) : String
  /-- The text of an integer. -/
  uint {w : Nat} (x : BitVec w) : String

/-- Different hashes and integers have different texts. -/
structure Texts.Faithful (texts : Texts) : Prop where
  /-- Hashes of one size. -/
  fixedHash : ∀ {n : Nat} {a b : FixedHash n}, texts.fixedHash a = texts.fixedHash b → a = b
  /-- Integers of one width. -/
  uint : ∀ {w : Nat} {x y : BitVec w}, texts.uint x = texts.uint y → x = y

/-- The texts that clients get: a hash with all its digits, an integer without leading zeros. -/
def Texts.plain : Texts where
  fixedHash h := RpcBytes.serialize h.bytes
  uint x := String.ofList ('0' :: 'x' :: (HexText.numeral x.toNat).map Char.ofNat)

/-- They tell hashes and integers apart. -/
theorem Texts.plain_faithful : Texts.plain.Faithful where
  fixedHash {n a b} heq := by
    have hread := congrArg (RpcBytes.visitStr fun _ => "") heq
    simp only [plain, RpcBytes.visitStr_serialize] at hread
    exact FixedHash.ext (Except.ok.inj (Option.some.inj hread))
  uint {w x y} heq := by
    have hcodes : ∀ n, ((HexText.numeral n).map Char.ofNat).map Char.toNat = HexText.numeral n := by
      intro n
      rw [List.map_map]
      refine (List.map_congr_left fun code hcode => ?_).trans (List.map_id _)
      exact HexText.toNat_ofNat_of_lt (HexText.isDigit_of_mem_numeral code hcode).lt_128
    have hchars := List.cons.inj (List.cons.inj (String.ofList_injective heq)).2
    have hnumeral := congrArg (List.map Char.toNat) hchars.2
    rw [hcodes, hcodes] at hnumeral
    have hvalue := congrArg (HexText.value 0) hnumeral
    rw [HexText.value_numeral, HexText.value_numeral] at hvalue
    exact BitVec.eq_of_toNat_eq hvalue

/-- `Serialize`. -/
class Serialize (α : Type) where
  /-- `to_value`. -/
  toValue (texts : Texts) : α → Json

/-- Different values are written differently. -/
class Serialize.Lawful (α : Type) [Serialize α] : Prop where
  /-- Values that are written alike are equal. -/
  toValue_inj : ∀ {texts : Texts} {a b : α}, texts.Faithful →
    (Serialize.toValue texts a = Serialize.toValue texts b ↔ a = b)

/-- No value is written like one that is missing. -/
class Serialize.NonNull (α : Type) [Serialize α] : Prop where
  /-- A value is not written as null. -/
  toValue_ne_null : ∀ (texts : Texts) (a : α), Serialize.toValue texts a ≠ .null

open Serialize

/-! ## Values -/

instance {n : Nat} : Serialize (FixedHash n) := ⟨fun texts h => .string (texts.fixedHash h)⟩

instance {w : Nat} : Serialize (BitVec w) := ⟨fun texts x => .string (texts.uint x)⟩

instance : Serialize String := ⟨fun _ s => .string s⟩

instance : Serialize Bool := ⟨fun _ b => .bool b⟩

instance {α : Type} [Serialize α] : Serialize (Option α) where
  toValue texts
    | none => .null
    | some a => toValue texts a

instance {α : Type} [Serialize α] : Serialize (List α) :=
  ⟨fun texts items => .array (items.map (toValue texts))⟩

/-- `Bytes::serialize`. -/
instance : Serialize (List UInt8) := ⟨fun _ b => .string (RpcBytes.serialize b)⟩

/-! ## Records -/

/-- An object of fields. -/
def Json.record (fields : List (String × Option Json)) : Json := .object (Members.record fields)

/-- A unit of `u64` in JSON is a number, and a condition has one member. -/
instance : Serialize TransactionCondition where
  toValue _
    | .number n => .record [("block", some (.number n.toNat))]
    | .timestamp t => .record [("time", some (.number t.toNat))]

/-- The fields of a log. -/
def RpcLog.fields (texts : Texts) (log : RpcLog) : List (String × Option Json) :=
  [("address", some (toValue texts log.address)),
   ("topics", some (toValue texts log.topics)),
   ("data", some (toValue texts log.data)),
   ("blockHash", some (toValue texts log.blockHash)),
   ("blockNumber", some (toValue texts log.blockNumber)),
   ("transactionHash", some (toValue texts log.transactionHash)),
   ("transactionIndex", some (toValue texts log.transactionIndex)),
   ("logIndex", some (toValue texts log.logIndex)),
   ("transactionLogIndex", some (toValue texts log.transactionLogIndex)),
   ("type", some (toValue texts log.logType)),
   ("removed", some (toValue texts log.removed))]

instance : Serialize RpcLog := ⟨fun texts log => .record (log.fields texts)⟩

/-- The fields of a receipt; without a root or a status it has none. -/
def RpcReceipt.fields (texts : Texts) (r : RpcReceipt) : List (String × Option Json) :=
  [("transactionHash", some (toValue texts r.transactionHash)),
   ("transactionIndex", some (toValue texts r.transactionIndex)),
   ("blockHash", some (toValue texts r.blockHash)),
   ("from", some (toValue texts r.from)),
   ("to", some (toValue texts r.to)),
   ("blockNumber", some (toValue texts r.blockNumber)),
   ("cumulativeGasUsed", some (toValue texts r.cumulativeGasUsed)),
   ("gasUsed", some (toValue texts r.gasUsed)),
   ("contractAddress", some (toValue texts r.contractAddress)),
   ("logs", some (toValue texts r.logs)),
   ("root", r.stateRoot.map (toValue texts)),
   ("logsBloom", some (toValue texts r.logsBloom)),
   ("status", r.statusCode.map (toValue texts))]

instance : Serialize RpcReceipt := ⟨fun texts r => .record (r.fields texts)⟩

/-- The fields of a transaction. -/
def RpcTransaction.fields (texts : Texts) (t : RpcTransaction) : List (String × Option Json) :=
  [("hash", some (toValue texts t.hash)),
   ("nonce", some (toValue texts t.nonce)),
   ("blockHash", some (toValue texts t.blockHash)),
   ("blockNumber", some (toValue texts t.blockNumber)),
   ("transactionIndex", some (toValue texts t.transactionIndex)),
   ("from", some (toValue texts t.from)),
   ("to", some (toValue texts t.to)),
   ("value", some (toValue texts t.value)),
   ("gasPrice", some (toValue texts t.gasPrice)),
   ("gas", some (toValue texts t.gas)),
   ("input", some (toValue texts t.input)),
   ("creates", some (toValue texts t.creates)),
   ("raw", some (toValue texts t.raw)),
   ("publicKey", some (toValue texts t.publicKey)),
   ("chainId", some (toValue texts t.chainId)),
   ("standardV", some (toValue texts t.standardV)),
   ("v", some (toValue texts t.v)),
   ("r", some (toValue texts t.r)),
   ("s", some (toValue texts t.s)),
   ("condition", some (toValue texts t.condition))]

instance : Serialize RpcTransaction := ⟨fun texts t => .record (t.fields texts)⟩

/-- `BlockTransactions::serialize`. -/
instance : Serialize BlockTransactions where
  toValue texts
    | .hashes hashes => toValue texts hashes
    | .full ts => toValue texts ts

/-- The fields of a block. -/
def RpcBlock.fields (texts : Texts) (b : RpcBlock) : List (String × Option Json) :=
  [("hash", some (toValue texts b.hash)),
   ("parentHash", some (toValue texts b.parentHash)),
   ("sha3Uncles", some (toValue texts b.unclesHash)),
   ("author", some (toValue texts b.author)),
   ("miner", some (toValue texts b.miner)),
   ("stateRoot", some (toValue texts b.stateRoot)),
   ("transactionsRoot", some (toValue texts b.transactionsRoot)),
   ("receiptsRoot", some (toValue texts b.receiptsRoot)),
   ("number", some (toValue texts b.number)),
   ("gasUsed", some (toValue texts b.gasUsed)),
   ("gasLimit", some (toValue texts b.gasLimit)),
   ("extraData", some (toValue texts b.extraData)),
   ("logsBloom", some (toValue texts b.logsBloom)),
   ("timestamp", some (toValue texts b.timestamp)),
   ("difficulty", some (toValue texts b.difficulty)),
   ("totalDifficulty", some (toValue texts b.totalDifficulty)),
   ("sealFields", some (toValue texts b.sealFields)),
   ("uncles", some (toValue texts b.uncles)),
   ("transactions", some (toValue texts b.transactions)),
   ("size", some (toValue texts b.size))]

instance : Serialize RpcBlock := ⟨fun texts b => .record (b.fields texts)⟩

/-- `to_value` of the extra members. -/
def Json.extras (extraInfo : List (String × String)) : Json :=
  .object (Members.extend [] (extraInfo.map fun entry => (entry.1, .string entry.2)))

/-- `Rich::serialize`. -/
def Rich.serialize {α : Type} [Serialize α] (texts : Texts) (rich : Rich α) :
    Except String Json :=
  match toValue texts rich.inner, Json.extras rich.extraInfo with
  -- join two objects
  | .object value, .object extras => .ok (.object (Members.extend value extras))
  | _, _ => .error "Unserializable structures: expected objects"

/-! ## Written alike -/

instance {n : Nat} : Lawful (FixedHash n) :=
  ⟨fun h => ⟨fun heq => h.fixedHash (Json.string.inj heq), congrArg _⟩⟩

instance {w : Nat} : Lawful (BitVec w) :=
  ⟨fun h => ⟨fun heq => h.uint (Json.string.inj heq), congrArg _⟩⟩

instance : Lawful String := ⟨fun _ => ⟨Json.string.inj, congrArg _⟩⟩

instance : Lawful Bool := ⟨fun _ => ⟨Json.bool.inj, congrArg _⟩⟩

instance : Lawful (List UInt8) where
  toValue_inj {texts a b} _ := by
    refine ⟨fun heq => ?_, congrArg _⟩
    have hread := congrArg (RpcBytes.visitStr fun _ => "") (Json.string.inj heq)
    rw [RpcBytes.visitStr_serialize, RpcBytes.visitStr_serialize] at hread
    exact Except.ok.inj (Option.some.inj hread)

instance {n : Nat} : NonNull (FixedHash n) := ⟨fun _ _ => Json.noConfusion⟩

instance {w : Nat} : NonNull (BitVec w) := ⟨fun _ _ => Json.noConfusion⟩

instance {α : Type} [Serialize α] [Lawful α] [NonNull α] : Lawful (Option α) where
  toValue_inj {texts a b} h := by
    refine ⟨fun heq => ?_, congrArg _⟩
    cases a with
    | none =>
      cases b with
      | none => rfl
      | some b => exact absurd heq.symm (NonNull.toValue_ne_null texts b)
    | some a =>
      cases b with
      | none => exact absurd heq (NonNull.toValue_ne_null texts a)
      | some b => exact congrArg some ((Lawful.toValue_inj h).mp heq)

instance {α : Type} [Serialize α] [Lawful α] : Lawful (List α) where
  toValue_inj {texts a b} h := by
    refine ⟨fun heq => ?_, congrArg _⟩
    have hinj : Function.Injective (toValue texts : α → Json) :=
      fun _ _ => (Lawful.toValue_inj h).mp
    exact List.map_injective_iff.mpr hinj (Json.array.inj heq)

/-- Records of the same different names are written alike only if their fields are. -/
theorem Json.record_inj {names : List String} {fields fields' : List (String × Option Json)}
    (h : names.Nodup) (hfields : fields.map Prod.fst = names)
    (hfields' : fields'.map Prod.fst = names) :
    Json.record fields = Json.record fields' ↔ fields = fields' := by
  subst hfields
  exact ⟨fun heq => (Members.record_inj hfields'.symm h).mp (Json.object.inj heq), congrArg _⟩

/-- The names of the fields of a log. -/
def RpcLog.names : List String :=
  ["address", "topics", "data", "blockHash", "blockNumber", "transactionHash", "transactionIndex",
    "logIndex", "transactionLogIndex", "type", "removed"]

instance : Lawful RpcLog where
  toValue_inj {texts a b} h := by
    refine ⟨fun heq => ?_, congrArg _⟩
    have hnames : RpcLog.names.Nodup := by decide
    have hfields := (Json.record_inj hnames rfl rfl).mp heq
    simp only [RpcLog.fields, List.cons.injEq, Prod.mk.injEq, Option.some.injEq, true_and, and_true,
      Lawful.toValue_inj h] at hfields
    cases a
    cases b
    simpa only [RpcLog.mk.injEq] using hfields

/-- The names of the fields of a receipt. -/
def RpcReceipt.names : List String :=
  ["transactionHash", "transactionIndex", "blockHash", "from", "to", "blockNumber",
    "cumulativeGasUsed", "gasUsed", "contractAddress", "logs", "root", "logsBloom", "status"]

/-- Fields that are skipped when there is nothing are written alike only if they are equal. -/
theorem map_toValue_inj {α : Type} [Serialize α] [Lawful α] {texts : Texts} (h : texts.Faithful)
    {a b : Option α} : a.map (toValue texts) = b.map (toValue texts) ↔ a = b :=
  (Option.map_injective fun _ _ => (Lawful.toValue_inj h).mp).eq_iff

instance : Lawful RpcReceipt where
  toValue_inj {texts a b} h := by
    refine ⟨fun heq => ?_, congrArg _⟩
    have hnames : RpcReceipt.names.Nodup := by decide
    have hfields := (Json.record_inj hnames rfl rfl).mp heq
    simp only [RpcReceipt.fields, List.cons.injEq, Prod.mk.injEq, Option.some.injEq, true_and,
      and_true, Lawful.toValue_inj h, map_toValue_inj h] at hfields
    cases a
    cases b
    simpa only [RpcReceipt.mk.injEq] using hfields

instance : NonNull RpcReceipt := ⟨fun _ _ => Json.noConfusion⟩

instance : Lawful TransactionCondition where
  toValue_inj {texts a b} h := by
    refine ⟨fun heq => ?_, congrArg _⟩
    have hmembers : ∀ {k k' : String} {n m : Nat},
        Json.record [(k, some (.number n))] = Json.record [(k', some (.number m))] →
          k = k' ∧ n = m := by
      intro k k' n m hrecord
      have hmember := List.cons.inj (Json.object.inj hrecord)
      obtain ⟨hk, hn⟩ := Prod.mk.inj hmember.1
      exact ⟨hk, Json.number.inj hn⟩
    cases a with
    | number n =>
      cases b with
      | number m => exact congrArg _ (BitVec.eq_of_toNat_eq (hmembers heq).2)
      | timestamp m => exact absurd (hmembers heq).1 (by decide)
    | timestamp n =>
      cases b with
      | number m => exact absurd (hmembers heq).1 (by decide)
      | timestamp m => exact congrArg _ (BitVec.eq_of_toNat_eq (hmembers heq).2)

instance : NonNull TransactionCondition where
  toValue_ne_null _ condition := by
    cases condition with
    | number n => exact Json.noConfusion
    | timestamp t => exact Json.noConfusion

/-- The names of the fields of a transaction. -/
def RpcTransaction.names : List String :=
  ["hash", "nonce", "blockHash", "blockNumber", "transactionIndex", "from", "to", "value",
    "gasPrice", "gas", "input", "creates", "raw", "publicKey", "chainId", "standardV", "v", "r",
    "s", "condition"]

instance : Lawful RpcTransaction where
  toValue_inj {texts a b} h := by
    refine ⟨fun heq => ?_, congrArg _⟩
    have hnames : RpcTransaction.names.Nodup := by decide
    have hfields := (Json.record_inj hnames rfl rfl).mp heq
    simp only [RpcTransaction.fields, List.cons.injEq, Prod.mk.injEq, Option.some.injEq, true_and,
      and_true, Lawful.toValue_inj h] at hfields
    cases a
    cases b
    simpa only [RpcTransaction.mk.injEq] using hfields

/-- What is read from the list of transactions: when it is empty, it is not told what would be in
it. -/
def BlockTransactions.written : BlockTransactions → BlockTransactions
  | .hashes [] => .full []
  | ts => ts

/-- A list of hashes is written like one of full transactions only if both are empty. -/
theorem BlockTransactions.toValue_hashes_eq_full {texts : Texts} {hs : List H256}
    {ts : List RpcTransaction} :
    toValue texts (hashes hs) = toValue texts (full ts) ↔ hs = [] ∧ ts = [] := by
  constructor
  · intro heq
    have hitems := Json.array.inj heq
    cases hs with
    | nil =>
      rw [List.map_nil, eq_comm, List.map_eq_nil_iff] at hitems
      exact ⟨rfl, hitems⟩
    | cons hash hs =>
      cases ts with
      | nil => cases hitems
      | cons t ts => exact Json.noConfusion (List.cons.inj hitems).1
  · rintro ⟨rfl, rfl⟩
    rfl

/-- Lists of transactions are written alike exactly when they are read as the same list. -/
theorem BlockTransactions.toValue_inj {texts : Texts} (h : texts.Faithful)
    {a b : BlockTransactions} : toValue texts a = toValue texts b ↔ a.written = b.written := by
  have hhashes : ∀ {hs hs'}, toValue texts (hashes hs) = toValue texts (hashes hs') ↔ hs = hs' :=
    fun {hs hs'} => Lawful.toValue_inj (α := List H256) h
  have hfull : ∀ {ts ts'}, toValue texts (full ts) = toValue texts (full ts') ↔ ts = ts' :=
    fun {ts ts'} => Lawful.toValue_inj (α := List RpcTransaction) h
  cases a with
  | hashes hs =>
    cases b with
    | hashes hs' =>
      rw [hhashes]
      cases hs with
      | nil =>
        cases hs' with
        | nil => exact iff_of_true rfl rfl
        | cons hash' hs' => simp [written]
      | cons hash hs =>
        cases hs' with
        | nil => simp [written]
        | cons hash' hs' => simp [written]
    | full ts =>
      rw [toValue_hashes_eq_full]
      cases hs with
      | nil => simp [written, eq_comm]
      | cons hash hs => simp [written]
  | full ts =>
    cases b with
    | hashes hs =>
      rw [eq_comm, toValue_hashes_eq_full]
      cases hs with
      | nil => simp [written]
      | cons hash hs => simp [written]
    | full ts' =>
      rw [hfull]
      simp [written]

/-- The names of the fields of a block. -/
def RpcBlock.names : List String :=
  ["hash", "parentHash", "sha3Uncles", "author", "miner", "stateRoot", "transactionsRoot",
    "receiptsRoot", "number", "gasUsed", "gasLimit", "extraData", "logsBloom", "timestamp",
    "difficulty", "totalDifficulty", "sealFields", "uncles", "transactions", "size"]

/-- What is read of a block. -/
def RpcBlock.written (b : RpcBlock) : RpcBlock :=
  { b with transactions := b.transactions.written }

/-- Blocks are written alike exactly when they are read as the same block. -/
theorem RpcBlock.toValue_inj {texts : Texts} (h : texts.Faithful) {a b : RpcBlock} :
    toValue texts a = toValue texts b ↔ a.written = b.written := by
  have hnames : names.Nodup := by decide
  have hrecord : toValue texts a = toValue texts b ↔ a.fields texts = b.fields texts :=
    Json.record_inj hnames rfl rfl
  rw [hrecord]
  cases a
  cases b
  simp only [fields, written, List.cons.injEq, Prod.mk.injEq, Option.some.injEq, true_and, and_true,
    Lawful.toValue_inj h, BlockTransactions.toValue_inj h, RpcBlock.mk.injEq]

/-! ## Extra members -/

/-- The member of an object at a key. -/
def Json.get (key : String) : Json → Option Json
  | .object members => members.lookup key
  | _ => none

/-- A field of a record is its member unless it is skipped. -/
theorem Json.get_record {fields : List (String × Option Json)} {key : String}
    (h : (fields.map Prod.fst).Nodup) : (Json.record fields).get key = (fields.lookup key).join :=
  Members.lookup_record h

/-- An object is written, in which the extra members take the place of fields with their
names. -/
theorem Rich.exists_serialize {α : Type} [Serialize α] {texts : Texts} {rich : Rich α}
    {fields : List (String × Option Json)} (hkeys : (fields.map Prod.fst).Nodup)
    (h : toValue texts rich.inner = Json.record fields) :
    ∃ members, rich.serialize texts = .ok (.object members) ∧ Members.Sorted members ∧
      ∀ key, members.lookup key =
        ((rich.extraInfo.reverse.lookup key).map Json.string).or (fields.lookup key).join := by
  unfold Rich.serialize
  rw [h]
  refine ⟨_, rfl, (Members.sorted_record fields).extend, fun key => ?_⟩
  have hextras : Members.Sorted
      (Members.extend [] (rich.extraInfo.map fun entry => (entry.1, Json.string entry.2))) :=
    Members.Sorted.extend List.Pairwise.nil
  rw [Members.lookup_extend, Members.lookup_record hkeys, Members.lookup_reverse hextras.nodup,
    Members.lookup_extend, List.lookup_nil, Option.or_none, ← List.map_reverse, Members.lookup_map]

/-- With extra members under names of their own, objects are written alike only if their fields and
their extra members are. -/
theorem Rich.serialize_inj {α : Type} [Serialize α] {texts : Texts} {a b : Rich α}
    {names : List String} {fields fields' : List (String × Option Json)} (hnames : names.Nodup)
    (hfields : fields.map Prod.fst = names) (hfields' : fields'.map Prod.fst = names)
    (ha : toValue texts a.inner = Json.record fields)
    (hb : toValue texts b.inner = Json.record fields')
    (hsorted : Members.Sorted a.extraInfo) (hsorted' : Members.Sorted b.extraInfo)
    (hown : ∀ name ∈ names, name ∉ a.extraInfo.map Prod.fst)
    (hown' : ∀ name ∈ names, name ∉ b.extraInfo.map Prod.fst) :
    a.serialize texts = b.serialize texts ↔ fields = fields' ∧ a.extraInfo = b.extraInfo := by
  have hnodup : (fields.map Prod.fst).Nodup := hfields ▸ hnames
  have hnodup' : (fields'.map Prod.fst).Nodup := hfields' ▸ hnames
  obtain ⟨members, hwritten, _, hlookup⟩ := exists_serialize hnodup ha
  obtain ⟨members', hwritten', _, hlookup'⟩ := exists_serialize hnodup' hb
  constructor
  · intro heq
    rw [hwritten, hwritten'] at heq
    obtain rfl := Json.object.inj (Except.ok.inj heq)
    have hboth : ∀ key, ((a.extraInfo.lookup key).map Json.string).or (fields.lookup key).join =
        ((b.extraInfo.lookup key).map Json.string).or (fields'.lookup key).join := by
      intro key
      rw [← Members.lookup_reverse hsorted.nodup, ← Members.lookup_reverse hsorted'.nodup,
        ← hlookup, ← hlookup']
    -- at the name of a field there is no extra member, and at every other name no field
    have hsplit : ∀ key, (fields.lookup key).join = (fields'.lookup key).join ∧
        a.extraInfo.lookup key = b.extraInfo.lookup key := by
      intro key
      have hkey := hboth key
      by_cases hname : key ∈ names
      · rw [Members.lookup_eq_none_of_not_mem (hown key hname),
          Members.lookup_eq_none_of_not_mem (hown' key hname)] at hkey ⊢
        exact ⟨hkey, rfl⟩
      · have hnone : fields.lookup key = none :=
          Members.lookup_eq_none_of_not_mem (by rwa [hfields])
        have hnone' : fields'.lookup key = none :=
          Members.lookup_eq_none_of_not_mem (by rwa [hfields'])
        rw [hnone, hnone', Option.join_none, Option.or_none, Option.or_none] at hkey
        rw [hnone, hnone']
        exact ⟨rfl, Option.map_injective (fun _ _ => Json.string.inj) hkey⟩
    have hrecord : Members.record fields = Members.record fields' := by
      refine (Members.sorted_record fields).ext (Members.sorted_record fields') fun key => ?_
      rw [Members.lookup_record hnodup, Members.lookup_record hnodup', (hsplit key).1]
    exact ⟨(Members.record_inj (hfields.trans hfields'.symm) hnodup).mp hrecord,
      hsorted.ext hsorted' fun key => (hsplit key).2⟩
  · rintro ⟨rfl, hextra⟩
    unfold serialize
    rw [ha, hb, hextra]

/-- Without extra members an object is written as it is. -/
theorem Rich.serialize_plain {α : Type} [Serialize α] {texts : Texts} {a : α}
    {members : List (String × Json)} (h : toValue texts a = .object members) :
    Rich.serialize texts ⟨a, []⟩ = .ok (toValue texts a) := by
  unfold Rich.serialize
  rw [h]
  rfl

end Tethereum
