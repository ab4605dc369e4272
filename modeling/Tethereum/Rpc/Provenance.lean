import Tethereum.Rpc.Sessions
import Tethereum.Transaction.Localized

/-!
# Where transactions of the chain come from

Next to any other requests, whatever is put into the chain was accepted from the bytes
of a submission. So each transaction of the chain can be verified once more and tells
its sender without a panic, and none of those that are made without a key gets in.
-/

namespace Tethereum

open HashMapEthDB EthClient Interleaving

section

variable {ι : Type} [DecidableEq ι] {c : Crypto} {evm : Evm} {db : HashMapEthDB} {now : U64}

/-- In every interleaving, what is put into the chain was accepted from a submission. -/
theorem sent_of_included (h : Runtime.Kept c ⟨db, false⟩) (evm : Evm)
    (requests : ι → ServiceRequest) (schedule : List ι) :
    ∀ tx ∈ included ((startServices c evm requests ⟨db, false⟩).run schedule).shared.ethDb,
      tx ∈ included db ∨ ∃ i now raw, requests i = .node (.sendRawTransaction now raw) ∧
        Accepted c raw tx := by
  refine (startServices_announces h evm requests).induction (sections_moves c evm requests)
    (P := fun _ q => ∀ tx ∈ included q.shared.ethDb, tx ∈ included db ∨ ∃ i now raw,
      requests i = .node (.sendRawTransaction now raw) ∧ Accepted c raw tx)
    (fun tx hmem => Or.inl hmem) (fun _ _ hs _ => hs) ?_ schedule
  intro s i _ hs _ hsection tx hmem
  rcases hsection.included_cases with ⟨hsame, _⟩ | ⟨tx', htop, _, now, raw, hreq, hacc⟩
  · rw [hsame] at hmem
    exact hs tx hmem
  · rw [htop] at hmem
    rcases List.mem_append.mp hmem with hmem | hmem
    · exact hs tx hmem
    · obtain rfl := List.mem_singleton.mp hmem
      exact Or.inr ⟨i, now, raw, hreq, hacc⟩

/-- A new node has included what was accepted from submissions. -/
theorem accepted_of_included_new (c : Crypto) (evm : Evm) (now : U64)
    (requests : ι → ServiceRequest) (schedule : List ι) :
    ∀ tx ∈ included ((startServices c evm requests
      ⟨HashMapEthDB.new c now, false⟩).run schedule).shared.ethDb, ∃ raw, Accepted c raw tx := by
  intro tx hmem
  have hkept : Runtime.Kept c ⟨HashMapEthDB.new c now, false⟩ :=
    (reachable_new c evm now).kept false
  rcases sent_of_included hkept evm requests schedule tx hmem with
    hold | ⟨_, _, raw, _, hacc⟩
  · change tx ∈ ([] : List SignedTransaction) at hold
    contradiction
  · exact ⟨raw, hacc⟩

/-- In every interleaving on a new node, each transaction of the chain is verified with the same
result once more. Taken from the chain, it tells its sender, the recovered one, as often as it is
asked and whether or not the sender is cached: the recovery never panics. -/
theorem sender_of_included (c : Crypto) (evm : Evm) (now : U64) (requests : ι → ServiceRequest)
    (schedule : List ι) :
    ∀ tx ∈ included ((startServices c evm requests
      ⟨HashMapEthDB.new c now, false⟩).run schedule).shared.ethDb,
      tx.deconstruct.1.verifyUnordered c = .ok tx ∧
        ∀ localized : LocalizedTransaction, localized.signed = tx.transaction →
          (∀ sender ∈ localized.cachedSender, sender = tx.sender) →
            localized.sender c =
              some (tx.sender, { localized with cachedSender := some tx.sender }) := by
  intro tx hmem
  obtain ⟨raw, _, hnew⟩ := accepted_of_included_new c evm now requests schedule tx hmem
  refine ⟨SignedTransaction.verifyUnordered_deconstruct hnew, fun localized hsigned hcache => ?_⟩
  rw [← hsigned] at hnew
  exact LocalizedTransaction.sender_of_new hnew hcache

/-- The smallest creation is put into the chain, and tells its sender without a cache. -/
theorem sender_of_included_creation :
    let raw := [0xc9, 0x80, 0x80, 0x80, 0x80, 0x80, 0x80, 0x1b, 0x01, 0x01]
    let requests : Unit → ServiceRequest := fun _ => .node (.sendRawTransaction 5 raw)
    let p := (startServices .sample .sample requests ⟨HashMapEthDB.new .sample 0, false⟩).run [()]
    ∃ tx ∈ included p.shared.ethDb, tx.deconstruct.1.verifyUnordered .sample = .ok tx ∧
      LocalizedTransaction.sender .sample ⟨tx.transaction, 1, .zero, 0, none⟩ =
        some (tx.sender, ⟨tx.transaction, 1, .zero, 0, some tx.sender⟩) := by
  intro raw requests p
  have hne : included p.shared.ethDb ≠ [] := by decide +kernel
  obtain ⟨tx, hmem⟩ := List.exists_mem_of_ne_nil _ hne
  obtain ⟨hverify, hsender⟩ := sender_of_included .sample .sample 0 requests [()] tx hmem
  have hcache : ∀ sender ∈ (none : Option H160), sender = tx.sender := by simp
  exact ⟨tx, hmem, hverify, hsender ⟨tx.transaction, 1, .zero, 0, none⟩ rfl hcache⟩

omit [DecidableEq ι] in
/-- The submission of a counterfeit ends at once. -/
theorem Counterfeit.thread_eq {t : UnverifiedTransaction} (h : Counterfeit c t)
    (hlaw : c.RejectsInvalidV) (evm : Evm) (now : U64) :
    (ServiceRequest.node (.sendRawTransaction now t.rlpBytes)).thread c evm =
      .done (some (.error ⟨"verify transaction failed"⟩)) := by
  have hthread : (NodeRequest.sendRawTransaction now t.rlpBytes).thread c evm =
      .done (some (.error ⟨"verify transaction failed"⟩)) := by
    rw [NodeRequest.thread, RequestThread.sendRawTransaction, h.decode_eq]
    cases hn : SignedTransaction.new c t with
    | ok signed => exact absurd hn (h.new_ne_ok hlaw)
    | error e =>
      rw [rpcTry, Except.mapError, RequestThread.attempt, hn]
      rfl
  rw [ServiceRequest.thread, hthread]
  rfl

/-- A transaction that was signed without a key does not survive being sent: it is read, but it
is refused in every interleaving on a new node, and no such transaction is in the chain. -/
theorem counterfeits_refused (hlaw : c.RejectsInvalidV) (evm : Evm) (now : U64)
    (requests : ι → ServiceRequest) (schedule : List ι) :
    let p := (startServices c evm requests ⟨HashMapEthDB.new c now, false⟩).run schedule
    (∀ i now t, Counterfeit c t →
      requests i = .node (.sendRawTransaction now t.rlpBytes) →
        UnverifiedTransaction.decode c { bytes := t.rlpBytes } = .ok t ∧
          p.threads i = .done (some (.error ⟨"verify transaction failed"⟩))) ∧
      ∀ tx ∈ included p.shared.ethDb, ¬ Counterfeit c tx.transaction := by
  intro p
  refine ⟨fun i now' t ht hreq => ⟨ht.decode_eq, ?_⟩, fun tx hmem ht => ?_⟩
  · have hstart : (startServices c evm requests ⟨HashMapEthDB.new c now, false⟩).threads i =
        .done (some (.error ⟨"verify transaction failed"⟩)) := by
      change (requests i).thread c evm = _
      rw [hreq]
      exact ht.thread_eq hlaw evm now'
    exact Pool.threads_run_of_done hstart
  · obtain ⟨raw, _, hnew⟩ := accepted_of_included_new c evm now requests schedule tx hmem
    exact ht.new_ne_ok hlaw hnew

/-- Two transactions without data, one signed in the name of nobody and one with the empty
signature, are refused. -/
theorem counterfeits_refused_fake :
    let fake := ({} : Transaction).fakeSign .sample .zero
    let null := ({} : Transaction).nullSign .sample 127
    let requests : Bool → ServiceRequest
      | true => .node (.sendRawTransaction 5 fake.rlpBytes)
      | false => .node (.sendRawTransaction 6 null.rlpBytes)
    let p := (startServices .sample .sample requests ⟨HashMapEthDB.new .sample 0, false⟩).run
      [true, false]
    (∀ i now t, Counterfeit .sample t →
      requests i = .node (.sendRawTransaction now t.rlpBytes) →
        UnverifiedTransaction.decode .sample { bytes := t.rlpBytes } = .ok t ∧
          p.threads i = .done (some (.error ⟨"verify transaction failed"⟩))) ∧
      ∀ tx ∈ included p.shared.ethDb, ¬ Counterfeit .sample tx.transaction := by
  intro fake null requests p
  refine counterfeits_refused ?_ .sample 0 requests [true, false]
  intro sig message hv
  exact ⟨.invalidSignature, by simp [Crypto.sample, hv]⟩

end

end Tethereum
