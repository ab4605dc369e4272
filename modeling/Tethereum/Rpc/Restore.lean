import Tethereum.Db.Rebuild
import Tethereum.Rpc.Provenance

/-!
# A node restored from its blocks

Served without estimates, in any interleaving, a node holds what its blocks determine.
To restore it over the wire, the transactions of its blocks are written as raw bytes
and submitted to a new node; that gives the node back exactly when every transaction
carries the hash of these bytes.
-/

namespace Tethereum

open HashMapEthDB EthClient Interleaving

/-- The transactions of the blocks as raw bytes, each with the time of its block. -/
def rawRequests (blocks : List Block) : List RawRequest :=
  (submissions blocks).map fun (now, tx) => (now, tx.rlpBytes)

/-- A new node at the time of the first block, to which the raw transactions of all blocks are
submitted. -/
def restore (c : Crypto) (evm : Evm) (blocks : List Block) : Outcome Runtime := do
  let genesis ← blocks.head?
  return submitAll c evm (rawRequests blocks) ⟨HashMapEthDB.new c genesis.header.timestamp, false⟩

/-- The request is an estimate. -/
def ServiceRequest.isEstimate : ServiceRequest → Bool
  | .node (.state (.estimateGas _ _)) => true
  | _ => false

section

variable {ι : Type} [DecidableEq ι] {c : Crypto} {evm : Evm} {db db' : HashMapEthDB} {now : U64}
  {tx : SignedTransaction} {raw : List UInt8}

/-! ## From the blocks -/

/-- A section of any request but an estimate leaves what the blocks make. -/
theorem ServiceRequest.Section.rebuild {req : ServiceRequest} {runtime runtime' : Runtime}
    {answer : ServiceAnswer} (h : req.Section c evm runtime runtime' answer)
    (hreq : req.isEstimate = false)
    (hre : rebuild c evm runtime.ethDb.blocks = some runtime.ethDb) :
    rebuild c evm runtime'.ethDb.blocks = some runtime'.ethDb := by
  cases h with
  | stays huneventful => exact hre
  | includes hopen haccepted hexec =>
    obtain ⟨db₁, hafter, hsame⟩ := (SameBut.refl ∅ runtime.ethDb).rebuild_executes hre hexec
    exact hafter.trans (congrArg some hsame.eq.symm)
  | changes hopen hi => contradiction
  | panics hopen hasks hn => exact hre

/-- Without estimates, every interleaving of requests on a new node leaves a store that its own
blocks make once more, records and account maps included. -/
theorem rebuild_of_run (c : Crypto) (evm : Evm) (now : U64) {requests : ι → ServiceRequest}
    (hrequests : ∀ i, (requests i).isEstimate = false) (schedule : List ι) :
    let p := (startServices c evm requests ⟨HashMapEthDB.new c now, false⟩).run schedule
    rebuild c evm p.shared.ethDb.blocks = some p.shared.ethDb := by
  have hkept : Runtime.Kept c ⟨HashMapEthDB.new c now, false⟩ :=
    (reachable_new c evm now).kept false
  refine (startServices_announces hkept evm requests).induction (sections_moves c evm requests)
    (P := fun _ q => rebuild c evm q.shared.ethDb.blocks = some q.shared.ethDb)
    (rebuild_new c evm now) (fun _ _ hs _ => hs) ?_ schedule
  intro s i _ hs _ hsection
  exact hsection.rebuild (hrequests i) hs

/-! ## Over the wire -/

/-- A verified transaction is accepted from its own encoding exactly when it carries the hash
of this encoding. -/
theorem accepted_rlpBytes_iff (hnew : SignedTransaction.new c tx.transaction = .ok tx) :
    Accepted c tx.rlpBytes tx ↔ tx.hash = c.keccak tx.rlpBytes := by
  constructor
  · rintro ⟨hdecode, _⟩
    exact ((UnverifiedTransaction.decode_eq_ok_iff c).mp hdecode).1
  · intro hhash
    obtain ⟨info, hlay⟩ := tx.transaction.layout_rlpBytes
    exact ⟨(UnverifiedTransaction.decode_eq_ok_iff c).mpr ⟨hhash, info, [], hlay, Rlp.stops_nil⟩,
      hnew⟩

/-- What is accepted from an encoding is encoded in this way. -/
theorem Accepted.rlpBytes_eq {tx' : SignedTransaction} (h : Accepted c tx'.rlpBytes tx) :
    tx.rlpBytes = tx'.rlpBytes := by
  obtain ⟨_, info, rest, hlay, hstops⟩ := (UnverifiedTransaction.decode_eq_ok_iff c).mp h.1
  obtain ⟨info', hlay'⟩ := tx'.transaction.layout_rlpBytes
  have hitems := (hlay.unique hlay' hstops Rlp.stops_nil).1
  rw [SignedTransaction.rlpBytes, SignedTransaction.rlpBytes, UnverifiedTransaction.rlpBytes_eq,
    UnverifiedTransaction.rlpBytes_eq, hitems]

/-- What is accepted from bytes is submitted when the bytes are sent. -/
theorem sendRawTransaction_of_accepted {result : Except String Unit} (h : Accepted c raw tx)
    (hs : db.submitTx c evm now tx = some (result, db')) :
    (sendRawTransaction c evm now raw ⟨db, false⟩).2 = ⟨db', false⟩ := by
  have hopen : getMutDb (fun db => db.submitTx c evm now tx) ⟨db, false⟩ = _ :=
    getMutDb_of_some hs
  unfold sendRawTransaction
  rw [h.1, Handler.rpcTry_ok_bind, h.2, Handler.rpcTry_ok_bind, Handler.bind_of_ok hopen]
  rfl

/-- Raw transactions that are accepted do what their submission does. -/
theorem submitAll_of_submitTxs {entries : List (U64 × SignedTransaction)}
    (hacc : ∀ entry ∈ entries, Accepted c entry.2.rlpBytes entry.2)
    (hs : submitTxs c evm entries db = some db') :
    submitAll c evm (entries.map fun (now, tx) => (now, tx.rlpBytes)) ⟨db, false⟩ =
      ⟨db', false⟩ := by
  induction entries generalizing db with
  | nil =>
    cases hs
    rfl
  | cons entry entries ih =>
    obtain ⟨⟨result, db₁⟩, hone, hrest⟩ := Option.bind_eq_some_iff.mp hs
    obtain ⟨hfirst, hlater⟩ := List.forall_mem_cons.mp hacc
    rw [List.map_cons, submitAll, List.foldl_cons, sendRawTransaction_of_accepted hfirst hone]
    exact ih hlater hrest

/-- What is submitted again are the transactions of the blocks. -/
theorem mem_included_of_mem_submissions {entry : U64 × SignedTransaction}
    (h : entry ∈ submissions db.blocks) : entry.2 ∈ included db := by
  obtain ⟨block, hblock, hentry⟩ := List.mem_flatMap.mp h
  obtain ⟨tx, htx, rfl⟩ := List.mem_map.mp hentry
  exact List.mem_flatMap.mpr ⟨block, hblock, htx⟩

/-- After every interleaving of requests without estimates on a new node, the raw transactions of
the blocks, sent again at the blocks' times, give the node back exactly when every transaction in
them carries the hash of its own encoding. -/
theorem restore_iff (c : Crypto) (evm : Evm) (now : U64) {requests : ι → ServiceRequest}
    (hrequests : ∀ i, (requests i).isEstimate = false) (schedule : List ι) :
    let p := (startServices c evm requests ⟨HashMapEthDB.new c now, false⟩).run schedule
    restore c evm p.shared.ethDb.blocks = some ⟨p.shared.ethDb, false⟩ ↔
      ∀ tx ∈ included p.shared.ethDb, tx.hash = c.keccak tx.rlpBytes := by
  intro p
  have haccepted : ∀ tx ∈ included p.shared.ethDb, _ :=
    accepted_of_included_new c evm now requests schedule
  have hrebuild : rebuild c evm p.shared.ethDb.blocks = _ :=
    rebuild_of_run c evm now hrequests schedule
  obtain ⟨genesis, hhead, hsubmit⟩ := Option.bind_eq_some_iff.mp hrebuild
  have hrestore : restore c evm p.shared.ethDb.blocks = some (submitAll c evm
      (rawRequests p.shared.ethDb.blocks)
      ⟨HashMapEthDB.new c genesis.header.timestamp, false⟩) := by
    rw [restore, hhead]
    rfl
  rw [hrestore, Option.some_inj]
  constructor
  · intro hsame tx hmem
    rw [← congrArg Runtime.ethDb hsame] at hmem
    obtain ⟨req, hreq, hacc⟩ := accepted_of_included _ _ tx hmem
    obtain ⟨entry, _, rfl⟩ := List.mem_map.mp hreq
    rw [hacc.rlpBytes_eq]
    exact ((UnverifiedTransaction.decode_eq_ok_iff c).mp hacc.1).1
  · intro hhash
    refine submitAll_of_submitTxs (fun entry hentry => ?_) hsubmit
    have hmem := mem_included_of_mem_submissions hentry
    obtain ⟨raw, _, hnew⟩ := haccepted entry.2 hmem
    exact (accepted_rlpBytes_iff hnew).mpr (hhash entry.2 hmem)

/-- A node with the smallest signed creation is restored. With one more byte behind it, the same
creation is included under another hash, and the node is not restored. -/
theorem restore_iff_creation :
    let raw := [0xc9, 0x80, 0x80, 0x80, 0x80, 0x80, 0x80, 0x1b, 0x01, 0x01]
    let node (raw : List UInt8) := ((startServices .sample .sample
      (fun _ : Unit => .node (.sendRawTransaction 5 raw))
      ⟨HashMapEthDB.new .sample 0, false⟩).run [()]).shared.ethDb
    restore .sample .sample (node raw).blocks = some ⟨node raw, false⟩ ∧
      restore .sample .sample (node (raw ++ [0x81])).blocks ≠
        some ⟨node (raw ++ [0x81]), false⟩ := by
  intro raw node
  have hiff : ∀ raw, restore .sample .sample (node raw).blocks = some ⟨node raw, false⟩ ↔
      ∀ tx ∈ included (node raw), tx.hash = Crypto.sample.keccak tx.rlpBytes :=
    fun raw => restore_iff .sample .sample 0 (fun _ => rfl) [()]
  refine ⟨(hiff raw).mpr (by decide +kernel), fun hrestore => ?_⟩
  exact absurd ((hiff _).mp hrestore) (by decide +kernel)

end

end Tethereum
