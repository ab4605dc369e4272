import Tethereum.Rpc.Contracts
import Tethereum.Rpc.Json
import Tethereum.Rpc.Sessions

/-!
# Responses on the wire

Every response is written, and nothing of it is lost: a client that knows what it has
asked for can tell from the JSON value what the handler responded with. Whatever
clients are shown, in blocks or in receipts, they are never shown two blocks of one
height.
-/

namespace Tethereum

open HashMapEthDB EthClient Interleaving Serialize

/-- The value that a response is written as. -/
def ServiceResponse.serialize (texts : Texts) : ServiceResponse → Except String Json
  | .node (.hash h) => .ok (toValue texts h)
  | .node (.state (.output bytes)) => .ok (toValue texts bytes)
  | .node (.state (.quantity n)) => .ok (toValue texts n)
  | .block none => .ok .null
  | .block (some rich) => rich.serialize texts
  | .receipt r => .ok (toValue texts r)
  | .quantity n => .ok (toValue texts n)
  | .digest h => .ok (toValue texts h)
  | .text s => .ok (toValue texts s)
  | .flag b => .ok (toValue texts b)
  | .address a => .ok (toValue texts a)
  | .addresses as => .ok (toValue texts as)
  | .chain id => .ok (toValue texts id)
  | .count n => .ok (toValue texts n)

/-! ## Told apart -/

section

variable {c : Crypto} {texts : Texts} {req : ServiceRequest} {a b : ServiceResponse}

/-- A block is written as it is. -/
theorem ServiceResponse.serialize_block (block : RpcBlock) :
    (ServiceResponse.block (some ⟨block, []⟩)).serialize texts = .ok (toValue texts block) := by
  have hobject : toValue texts block = .object (Members.record (block.fields texts)) := rfl
  exact Rich.serialize_plain hobject

/-- Responses that are written as their contents are told apart. -/
theorem ServiceResponse.serialize_inj {α : Type} [Serialize α] [Lawful α] (htexts : texts.Faithful)
    {f : α → ServiceResponse} (hf : ∀ x, (f x).serialize texts = .ok (toValue texts x)) (x y : α) :
    (∃ v, (f x).serialize texts = .ok v) ∧
      ((f x).serialize texts = (f y).serialize texts → f x = f y) := by
  refine ⟨⟨_, hf x⟩, fun heq => ?_⟩
  rw [hf, hf] at heq
  exact congrArg f ((Lawful.toValue_inj htexts).mp (Except.ok.inj heq))

/-- The responses that a request can get are written, and different ones differently. -/
theorem ServiceRequest.Expects.serialize (htexts : texts.Faithful) (ha : req.Expects c a)
    (hb : req.Expects c b) : (∃ v, a.serialize texts = .ok v) ∧
      (a.serialize texts = b.serialize texts → a = b) := by
  cases req with
  | node req =>
    obtain ⟨x, rfl, hx⟩ := ha
    obtain ⟨y, rfl, hy⟩ := hb
    cases req with
    | sendRawTransaction now raw =>
      obtain ⟨h, rfl⟩ := hx
      obtain ⟨h', rfl⟩ := hy
      exact ServiceResponse.serialize_inj (f := fun h => .node (.hash h)) htexts (fun _ => rfl) h h'
    | state req =>
      cases req with
      | call creq tag =>
        obtain ⟨bytes, rfl⟩ := hx
        obtain ⟨bytes', rfl⟩ := hy
        exact ServiceResponse.serialize_inj (f := fun bytes => .node (.state (.output bytes)))
          htexts (fun _ => rfl) bytes bytes'
      | _ =>
        obtain ⟨n, rfl⟩ := hx
        obtain ⟨n', rfl⟩ := hy
        exact ServiceResponse.serialize_inj (f := fun n => .node (.state (.quantity n))) htexts
          (fun _ => rfl) n n'
  | blockNumber =>
    obtain ⟨n, rfl⟩ := ha
    obtain ⟨n', rfl⟩ := hb
    exact ServiceResponse.serialize_inj (f := .quantity) htexts (fun _ => rfl) n n'
  | blockByNumber tag full =>
    obtain ⟨block, rfl⟩ := ha
    obtain ⟨block', rfl⟩ := hb
    rw [ServiceResponse.serialize_block, ServiceResponse.serialize_block]
    refine ⟨⟨_, rfl⟩, fun heq => ?_⟩
    have hwritten := (RpcBlock.toValue_inj htexts).mp (Except.ok.inj heq)
    -- a converted block lists full transactions
    change RpcBlock.ofBlock c block = RpcBlock.ofBlock c block' at hwritten
    rw [hwritten]
  | transactionReceipt hash =>
    obtain ⟨r, rfl⟩ := ha
    obtain ⟨r', rfl⟩ := hb
    exact ServiceResponse.serialize_inj (f := .receipt) htexts (fun _ => rfl) r r'
  | _ =>
    cases ha .sample
    cases hb .sample
    exact ⟨⟨_, rfl⟩, fun _ => rfl⟩

/-- A rich block is always written, and nothing of the block or of its extra members is lost as long
as these have names that no field of a block has. -/
theorem RichBlock.serialize_eq_iff (htexts : texts.Faithful) {a b : RichBlock}
    (hsorted : Members.Sorted a.extraInfo) (hsorted' : Members.Sorted b.extraInfo)
    (hown : ∀ name ∈ RpcBlock.names, name ∉ a.extraInfo.map Prod.fst)
    (hown' : ∀ name ∈ RpcBlock.names, name ∉ b.extraInfo.map Prod.fst) :
    (∃ v, a.serialize texts = .ok v) ∧ (a.serialize texts = b.serialize texts ↔
      a.inner.written = b.inner.written ∧ a.extraInfo = b.extraInfo) := by
  have hnames : RpcBlock.names.Nodup := by decide
  constructor
  · have hkeys : ((a.inner.fields texts).map Prod.fst).Nodup := hnames
    have hobject : toValue texts a.inner = Json.record (a.inner.fields texts) := rfl
    obtain ⟨members, hwritten, _⟩ := Rich.exists_serialize hkeys hobject
    exact ⟨_, hwritten⟩
  · rw [Rich.serialize_inj hnames rfl rfl rfl rfl hsorted hsorted' hown hown',
      ← RpcBlock.toValue_inj htexts]
    exact and_congr_left fun _ => (Json.record_inj hnames rfl rfl).symm

/-- A block with a mark is told from the one without. -/
theorem RichBlock.serialize_eq_iff_marked :
    let block := RpcBlock.ofBlock .sample {}
    let marked : RichBlock := ⟨block, [("mark", "1")]⟩
    (∃ v, marked.serialize .plain = .ok v) ∧
      (marked.serialize .plain = Rich.serialize .plain ⟨block, []⟩ ↔
        block.written = block.written ∧ [("mark", "1")] = ([] : List (String × String))) := by
  intro block marked
  have hown : ∀ name ∈ RpcBlock.names, name ∉ marked.extraInfo.map Prod.fst := by decide
  have hown' : ∀ name ∈ RpcBlock.names, name ∉ ([] : List (String × String)).map Prod.fst := by
    decide
  exact RichBlock.serialize_eq_iff Texts.plain_faithful (b := ⟨block, []⟩)
    (List.pairwise_singleton _ _) List.Pairwise.nil hown hown'

end

/-- Whatever two nodes have gone through, every response to a request is written, and if the same
request is answered with the same JSON value by both, they have responded with the same. -/
theorem eq_of_written {ι κ : Type} [DecidableEq ι] [DecidableEq κ] {texts : Texts}
    (htexts : texts.Faithful) (c : Crypto) (evm evm' : Evm) (requests : ι → ServiceRequest)
    (requests' : κ → ServiceRequest) (runtime runtime' : Runtime) (schedule : List ι)
    (schedule' : List κ) {i : ι} {j : κ} {a b : ServiceResponse} :
    let p := (startServices c evm requests runtime).run schedule
    let q := (startServices c evm' requests' runtime').run schedule'
    requests i = requests' j → p.threads i = .done (some (.ok a)) →
      q.threads j = .done (some (.ok b)) →
        (∃ v, a.serialize texts = .ok v) ∧ (a.serialize texts = b.serialize texts → a = b) := by
  intro p q hreq ha hb
  have hexpects := ServiceRequest.expects_of_done ha
  have hexpects' := ServiceRequest.expects_of_done hb
  rw [← hreq] at hexpects'
  exact hexpects.serialize htexts hexpects'

/-- A request that has responded has ended with the response. -/
theorem RequestThread.exists_response {t : RequestThread ServiceResponse}
    (h : (t.answer.join.bind Except.toOption).isSome) :
    ∃ response, t = .done (some (.ok response)) := by
  obtain ⟨response, hresponse⟩ := Option.isSome_iff_exists.mp h
  obtain ⟨result, hresult, hok⟩ := Option.bind_eq_some_iff.mp hresponse
  cases result with
  | error e => cases hok
  | ok a => exact ⟨a, Thread.answer_eq_some_iff.mp (Option.join_eq_some_iff.mp hresult)⟩

/-- The newest blocks of two new nodes, one of which has put the smallest creation into its
chain. -/
theorem eq_of_written_creation :
    let requests : Bool → ServiceRequest
      | true => .node (.sendRawTransaction 5
          [0xc9, 0x80, 0x80, 0x80, 0x80, 0x80, 0x80, 0x1b, 0x01, 0x01])
      | false => .blockByNumber .latest false
    let start := startServices .sample .sample requests ⟨HashMapEthDB.new .sample 0, false⟩
    ∃ a b, (start.run [true, false]).threads false = .done (some (.ok a)) ∧
      (start.run [false]).threads false = .done (some (.ok b)) ∧
      (∃ v, a.serialize .plain = .ok v) ∧ (a.serialize .plain = b.serialize .plain → a = b) := by
  intro requests start
  obtain ⟨a, ha⟩ : ∃ a, (start.run [true, false]).threads false = .done (some (.ok a)) :=
    RequestThread.exists_response (by decide +kernel)
  obtain ⟨b, hb⟩ : ∃ b, (start.run [false]).threads false = .done (some (.ok b)) :=
    RequestThread.exists_response (by decide +kernel)
  exact ⟨a, b, ha, hb, eq_of_written Texts.plain_faithful .sample .sample .sample requests requests
    ⟨HashMapEthDB.new .sample 0, false⟩ ⟨HashMapEthDB.new .sample 0, false⟩ [true, false] [false]
    rfl ha hb⟩

/-! ## Blocks that are shown -/

/-- The value shows a block, or the block of a receipt, by its number, its hash and its state
root. -/
def Json.ShowsBlock (v number hash root : Json) : Prop :=
  (v.get "number" = some number ∧ v.get "hash" = some hash ∧ v.get "stateRoot" = some root) ∨
    (v.get "blockNumber" = some number ∧ v.get "blockHash" = some hash ∧
      v.get "root" = some root)

/-- A value without members shows no block. -/
theorem Json.not_showsBlock {v number hash root : Json} (h : ∀ key, v.get key = none) :
    ¬ v.ShowsBlock number hash root := by
  simp [ShowsBlock, h]

/-- What a value shows, it shows of the block. -/
structure ShownAs (c : Crypto) (texts : Texts) (block : Block) (v number hash root : Json) :
    Prop where
  /-- The number. -/
  number : number = toValue texts (block.header.number.setWidth 256)
  /-- The hash. -/
  hash : hash = toValue texts (block.header.hash c)
  /-- The state root. -/
  root : root = toValue texts block.header.stateRoot
  /-- The hash of the parent, if there is one. -/
  parent : ∀ parent, v.get "parentHash" = some parent →
    parent = toValue texts block.header.parentHash

/-- A block carries the hash of the one before it. -/
def HashMapEthDB.Linked (c : Crypto) (db : HashMapEthDB) : Prop :=
  ∀ (i : Nat) (best block : Block), db.blocks[i]? = some best →
    db.blocks[i + 1]? = some block → block.header.parentHash = best.header.hash c

section

variable {c : Crypto} {evm : Evm} {texts : Texts} {number hash root : Json}

/-- A block that is written has its fields as members. -/
theorem RpcBlock.get_toValue (b : RpcBlock) (key : String) :
    (toValue texts b).get key = ((b.fields texts).lookup key).join := by
  have hnames : RpcBlock.names.Nodup := by decide
  exact Json.get_record hnames

/-- A receipt that is written has those fields as members that are not skipped. -/
theorem RpcReceipt.get_toValue (r : RpcReceipt) (key : String) :
    (toValue texts r).get key = ((r.fields texts).lookup key).join := by
  have hnames : RpcReceipt.names.Nodup := by decide
  exact Json.get_record hnames

/-- A block that is written shows itself. -/
theorem RpcBlock.showsBlock_iff {b : RpcBlock} :
    (toValue texts b).ShowsBlock number hash root ↔ number = toValue texts b.number ∧
      hash = toValue texts b.hash ∧ root = toValue texts b.stateRoot := by
  have hnumber : (toValue texts b).get "number" = some (toValue texts b.number) :=
    b.get_toValue "number"
  have hhash : (toValue texts b).get "hash" = some (toValue texts b.hash) := b.get_toValue "hash"
  have hroot : (toValue texts b).get "stateRoot" = some (toValue texts b.stateRoot) :=
    b.get_toValue "stateRoot"
  have hnone : (toValue texts b).get "blockNumber" = none := b.get_toValue "blockNumber"
  simp only [Json.ShowsBlock, hnumber, hhash, hroot, hnone, Option.some.injEq, reduceCtorEq,
    false_and, or_false, eq_comm]

/-- A receipt that is written shows its block, if it has a state root. -/
theorem RpcReceipt.showsBlock_iff {r : RpcReceipt} :
    (toValue texts r).ShowsBlock number hash root ↔ number = toValue texts r.blockNumber ∧
      hash = toValue texts r.blockHash ∧ r.stateRoot.map (toValue texts) = some root := by
  have hnumber : (toValue texts r).get "blockNumber" = some (toValue texts r.blockNumber) :=
    r.get_toValue "blockNumber"
  have hhash : (toValue texts r).get "blockHash" = some (toValue texts r.blockHash) :=
    r.get_toValue "blockHash"
  have hroot : (toValue texts r).get "root" = r.stateRoot.map (toValue texts) :=
    r.get_toValue "root"
  have hnone : (toValue texts r).get "number" = none := r.get_toValue "number"
  simp only [Json.ShowsBlock, hnumber, hhash, hroot, hnone, Option.some.injEq, reduceCtorEq,
    false_and, false_or, eq_comm]

/-- Operations keep the blocks linked. -/
theorem HashMapEthDB.linked_keptByOperations (c : Crypto) (evm : Evm) :
    KeptByOperations c evm (Linked c) := by
  refine .of_executes (fun {db db' now tx} h hexec => ?_) fun _ h => h
  obtain ⟨last, latest, hlast, _, _, rfl⟩ := hexec
  intro i best block hi hnext
  rw [extend] at hi hnext
  rcases getElem?_concat_cases hnext with ⟨hlt, hnext⟩ | ⟨hlen, rfl⟩
  · rw [List.getElem?_append_left (Nat.lt_of_succ_lt hlt)] at hi
    exact h i best block hi hnext
  · rw [List.getElem?_append_left (Nat.lt_of_succ_le (le_of_eq hlen))] at hi
    rw [List.getLast?_eq_getElem?, ← hlen, Nat.add_sub_cancel, hi] at hlast
    cases hlast
    exact Block.parentHash_next

/-- They are linked in a reachable store. -/
theorem HashMapEthDB.Reachable.linked {db : HashMapEthDB} (h : Reachable c evm db) :
    Linked c db := by
  intro i best block hi hnext
  obtain ⟨now, tx, rfl⟩ := h.wellFormed.grown i best block hi hnext
  exact Block.parentHash_next

/-- A block of a store is stored at its number. -/
theorem HashMapEthDB.Positioned.getElem?_number {db : HashMapEthDB} (h : Positioned c db)
    (hlen : db.blocks.length ≤ isizeMax) {block : Block} (hmem : block ∈ db.blocks) :
    db.blocks[block.header.number.toNat]? = some block := by
  obtain ⟨i, hi⟩ := List.mem_iff_getElem?.mp hmem
  obtain ⟨hlt, _⟩ := List.getElem?_eq_some_iff.mp hi
  simp only [isizeMax] at hlen
  rw [h.numbered i block hi, BitVec.toNat_ofNat, Nat.mod_eq_of_lt (by omega), hi]

variable {ι : Type} [DecidableEq ι] {requests : ι → ServiceRequest}

omit [DecidableEq ι] in
/-- A receipt tells the number, the hash and the state root of a block. -/
theorem Runtime.Kept.block_of_receipt {runtime : Runtime} (h : runtime.Kept c)
    (hlen : runtime.ethDb.blocks.length ≤ isizeMax) {hash : H256} {r : RpcReceipt}
    (hr : runtime.ethDb.receipt c hash = some (some r)) :
    ∃ block ∈ runtime.ethDb.blocks, r.blockNumber = some (block.header.number.setWidth 256) ∧
      r.blockHash = some (block.header.hash c) ∧ r.stateRoot = some block.header.stateRoot := by
  cases hi : runtime.ethDb.infos[hash]? with
  | none =>
    rw [receipt, hi] at hr
    cases hr
  | some info =>
    obtain ⟨_, block, tx, hb, _, _, ht, hbh, _⟩ := h.recorded.sound hash info hi
    obtain ⟨n, hn⟩ := Option.ne_none_iff_exists'.mp (h.positioned.named block
      (List.mem_of_getElem? hb))
    rw [← hbh] at hn
    obtain ⟨block', hmem, hhash, rfl⟩ := h.positioned.recorded _ n hn
    rw [receipt_eq hi ht hn] at hr
    cases hr
    refine ⟨block', hmem, rfl, congrArg some hhash.symm, ?_⟩
    rw [h.positioned.getElem?_number hlen hmem]
    rfl

/-- Whatever block a response shows was in the chain at a turn of its request. -/
theorem exists_block_of_shown {p : ServicePool ι} {i : ι} {s : List ι} {response : ServiceResponse}
    {v : Json} (hthread : p.threads i = (requests i).thread c evm)
    (hkept : ∀ s', s' <+: s → (p.run s').shared.Kept c)
    (hbound : ∀ s', s' <+: s → (p.run s').shared.ethDb.blocks.length ≤ isizeMax)
    (hdone : (p.run s).threads i = .done (some (.ok response)))
    (hexpects : (requests i).Expects c response)
    (hv : response.serialize texts = .ok v) (hshows : v.ShowsBlock number hash root) :
    ∃ s', s' <+: s ∧ ∃ block ∈ (p.run s').shared.ethDb.blocks,
      ShownAs c texts block v number hash root := by
  cases hreq : requests i with
  | blockByNumber tag full =>
    rw [hreq] at hthread
    obtain ⟨s', a, hs', hread, rfl⟩ := RequestThread.exists_read hthread hdone
    obtain ⟨best, hbest, hlast⟩ := (hkept s' hs').exists_best
    rw [hbest] at hread
    cases hread
    rw [ServiceResponse.serialize_block] at hv
    cases hv
    obtain ⟨hn, hh, hr⟩ := RpcBlock.showsBlock_iff.mp hshows
    refine ⟨s', hs', best, List.mem_of_getLast? hlast, hn, hh, hr, fun parent hparent => ?_⟩
    rw [RpcBlock.get_toValue] at hparent
    exact (Option.some.inj hparent).symm
  | transactionReceipt h =>
    rw [hreq] at hthread
    obtain ⟨s', a, hs', hread, rfl⟩ := RequestThread.exists_read hthread hdone
    obtain ⟨_, hfound, hok⟩ := Option.map_eq_some_iff.mp hread
    cases hok
    cases a with
    | none =>
      cases hv
      exact absurd hshows (Json.not_showsBlock fun _ => rfl)
    | some r =>
      cases hv
      obtain ⟨block, hmem, hnumber, hhash, hroot⟩ :=
        (hkept s' hs').block_of_receipt (hbound s' hs') hfound
      obtain ⟨hn, hh, hr⟩ := RpcReceipt.showsBlock_iff.mp hshows
      rw [hnumber] at hn
      rw [hhash] at hh
      rw [hroot] at hr
      refine ⟨s', hs', block, hmem, hn, hh, (Option.some.inj hr).symm, fun parent hparent => ?_⟩
      have hnone : (toValue texts r).get "parentHash" = none := r.get_toValue "parentHash"
      exact absurd (hnone.symm.trans hparent) (Option.some_ne_none parent).symm
  | node req =>
    rw [hreq] at hexpects
    obtain ⟨inner, rfl, _⟩ := hexpects
    have hnone : ∀ key, v.get key = none := by
      intro key
      cases inner with
      | hash h =>
        cases hv
        rfl
      | state response =>
        cases response with
        | output bytes =>
          cases hv
          rfl
        | quantity n =>
          cases hv
          rfl
    exact absurd hshows (Json.not_showsBlock hnone)
  | blockNumber =>
    rw [hreq] at hexpects
    obtain ⟨n, rfl⟩ := hexpects
    cases hv
    exact absurd hshows (Json.not_showsBlock fun _ => rfl)
  | _ =>
    rw [hreq] at hexpects
    cases hexpects .sample
    cases hv
    exact absurd hshows (Json.not_showsBlock fun _ => rfl)

/-- A block that is shown is in the chain at its number from then on. -/
theorem exists_block_at_number {db : HashMapEthDB} (h : Reachable c evm db)
    {schedule : List ι} {i : ι} {response : ServiceResponse} {v : Json} :
    let p := (startServices c evm requests ⟨db, false⟩).run schedule
    p.shared.ethDb.blocks.length ≤ isizeMax → p.threads i = .done (some (.ok response)) →
      response.serialize texts = .ok v → v.ShowsBlock number hash root →
        ∃ block, ShownAs c texts block v number hash root ∧
          p.shared.ethDb.blocks[block.header.number.toNat]? = some block := by
  intro p hlen hdone hv hshows
  have hannounces : (startServices c evm requests ⟨db, false⟩).Announces (Runtime.Kept c)
      Runtime.Later _ := startServices_announces (h.kept false) evm requests
  have hmoves := sections_moves c evm requests
  have hkept := fun s => (hannounces.run hmoves s).1.shared
  have hblocks := fun {s} (hs : s <+: schedule) => (hannounces.run_longer hmoves hs).blocks
  obtain ⟨s, hs, block, hmem, hshown⟩ := exists_block_of_shown rfl (fun s _ => hkept s)
    (fun s hs => (hblocks hs).length_le.trans hlen) hdone (ServiceRequest.expects_of_done hdone) hv
    hshows
  exact ⟨block, hshown,
    (hkept schedule).positioned.getElem?_number hlen ((hblocks hs).subset hmem)⟩

/-- Clients are shown one chain. Whatever blocks two responses show, in whatever interleaving and
at whatever times: if their numbers are equal, so are their hashes and their state roots, and if
one number is the next one, the parent that is shown with it is the other block. -/
theorem one_chain_shown {db : HashMapEthDB} (h : Reachable c evm db) (htexts : texts.Faithful)
    (requests : ι → ServiceRequest) (schedule : List ι) {i j : ι} {a b : ServiceResponse}
    {v w number number' hash hash' root root' : Json} :
    let p := (startServices c evm requests ⟨db, false⟩).run schedule
    p.shared.ethDb.blocks.length ≤ isizeMax →
      p.threads i = .done (some (.ok a)) → a.serialize texts = .ok v →
      v.ShowsBlock number hash root →
      p.threads j = .done (some (.ok b)) → b.serialize texts = .ok w →
      w.ShowsBlock number' hash' root' →
        (number = number' → hash = hash' ∧ root = root') ∧
          ∀ (n : U256) (parent : Json), number = toValue texts (n + 1) →
            number' = toValue texts n → v.get "parentHash" = some parent → parent = hash' := by
  intro p hlen ha hv hshows hb hw hshows'
  obtain ⟨block, hshown, hblock⟩ := exists_block_at_number h hlen ha hv hshows
  obtain ⟨block', hshown', hblock'⟩ := exists_block_at_number h hlen hb hw hshows'
  have hwidth : ∀ m : U64, (m.setWidth 256).toNat = m.toNat :=
    fun m => BitVec.toNat_setWidth_of_le (by decide)
  constructor
  · intro heq
    rw [hshown.number, hshown'.number, Lawful.toValue_inj htexts] at heq
    have hsame := congrArg BitVec.toNat heq
    rw [hwidth, hwidth] at hsame
    rw [hsame, hblock'] at hblock
    cases hblock
    exact ⟨hshown.hash.trans hshown'.hash.symm, hshown.root.trans hshown'.root.symm⟩
  · intro n parent hnext hn hparent
    rw [hshown.number, Lawful.toValue_inj htexts] at hnext
    rw [hshown'.number, Lawful.toValue_inj htexts] at hn
    have hsucc := congrArg BitVec.toNat hnext
    rw [← hn, BitVec.toNat_add, hwidth, hwidth] at hsucc
    have hlt := block'.header.number.isLt
    have hposition : block.header.number.toNat = block'.header.number.toNat + 1 := by
      rw [hsucc]
      exact Nat.mod_eq_of_lt (by change block'.header.number.toNat + 1 < 2 ^ 256; omega)
    rw [hposition] at hblock
    have hlinked := ((linked_keptByOperations c evm).run ⟨db, false⟩ h.linked requests schedule).1
    rw [hshown.parent parent hparent, hshown'.hash, hlinked _ _ _ hblock' hblock]

/-- The block of the smallest creation next to its receipt. -/
theorem one_chain_shown_creation :
    let raw := [0xc9, 0x80, 0x80, 0x80, 0x80, 0x80, 0x80, 0x1b, 0x01, 0x01]
    let requests : Fin 3 → ServiceRequest
      | 0 => .node (.sendRawTransaction 5 raw)
      | 1 => .blockByNumber .latest false
      | 2 => .transactionReceipt (Crypto.sample.keccak raw)
    let p := (startServices .sample .sample requests ⟨HashMapEthDB.new .sample 0, false⟩).run
      [0, 1, 2]
    ∃ a b v w number number' hash hash' root root',
      p.shared.ethDb.blocks.length ≤ isizeMax ∧
      p.threads 1 = .done (some (.ok a)) ∧ a.serialize .plain = .ok v ∧
      v.ShowsBlock number hash root ∧
      p.threads 2 = .done (some (.ok b)) ∧ b.serialize .plain = .ok w ∧
      w.ShowsBlock number' hash' root' ∧
      (number = number' → hash = hash' ∧ root = root') ∧
        ∀ (n : U256) (parent : Json), number = toValue .plain (n + 1) →
          number' = toValue .plain n → v.get "parentHash" = some parent → parent = hash' := by
  intro raw requests p
  obtain ⟨a, ha⟩ : ∃ a, p.threads 1 = .done (some (.ok a)) :=
    RequestThread.exists_response (by decide +kernel)
  obtain ⟨block, rfl⟩ := ServiceRequest.expects_of_done ha
  have hrooted : ((p.threads 2).answer.join.bind Except.toOption).any fun response =>
      ((response.serialize .plain).toOption.bind (·.get "root")).isSome := by
    decide +kernel
  obtain ⟨b, hb⟩ : ∃ b, p.threads 2 = .done (some (.ok b)) :=
    RequestThread.exists_response (by decide +kernel)
  obtain ⟨receipt, rfl⟩ := ServiceRequest.expects_of_done hb
  rw [hb] at hrooted
  cases receipt with
  | none => cases hrooted
  | some r =>
    obtain ⟨root', hroot⟩ := Option.isSome_iff_exists.mp hrooted
    have hlen : p.shared.ethDb.blocks.length ≤ isizeMax := by decide +kernel
    have hshows : (toValue .plain (RpcBlock.ofBlock .sample block)).ShowsBlock _ _ _ :=
      RpcBlock.showsBlock_iff.mpr ⟨rfl, rfl, rfl⟩
    have hshows' : (toValue .plain r).ShowsBlock _ _ root' :=
      RpcReceipt.showsBlock_iff.mpr ⟨rfl, rfl, (r.get_toValue "root").symm.trans hroot⟩
    exact ⟨_, _, _, _, _, _, _, _, _, _, hlen, ha, ServiceResponse.serialize_block _, hshows, hb,
      rfl, hshows', one_chain_shown (reachable_new .sample .sample 0) Texts.plain_faithful requests
        [0, 1, 2] hlen ha (ServiceResponse.serialize_block _) hshows hb rfl hshows'⟩

end

end Tethereum
