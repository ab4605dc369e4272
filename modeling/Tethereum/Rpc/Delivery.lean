import Tethereum.Rpc.Provenance
import Tethereum.Rpc.Wire

/-!
# Delivery of a signed transaction

A wallet signs a transaction, and sends its encoding as a text. Whatever else is served,
the submission is refused only by the execution. Once it has responded, the transaction
itself is in the chain, and every receipt that is asked for later tells who has signed
it, whom it calls, or which address its signer and its nonce make for a contract.
-/

namespace Tethereum

open HashMapEthDB EthClient Interleaving Serialize

section

variable {c : Crypto} {t : Transaction} {secret : Secret} {chainId : Option U64}
  {sent signed : SignedTransaction} {raw : List UInt8}

/-- Signing takes a signature of the hash, and recovers the signer from it. -/
theorem Transaction.sign_eq_some_iff : t.sign c secret chainId = some sent ↔
    ∃ sig, c.sign secret (t.hash c chainId) = .ok sig ∧
      SignedTransaction.new c (t.withSignature c sig chainId) = .ok sent := by
  have htoOption : ∀ {ε α : Type} {result : Except ε α} {a : α},
      result.toOption = some a ↔ result = .ok a := by
    intro ε α result a
    cases result with
    | error e => exact iff_of_false (by rintro ⟨⟩) (by rintro ⟨⟩)
    | ok b => simp only [Except.toOption, Option.some.injEq, Except.ok.injEq]
  simp only [sign, Option.bind_eq_bind, Option.bind_eq_some_iff, htoOption]

/-- What is signed is accepted from its encoding. -/
theorem Transaction.accepted_of_sign (h : t.sign c secret chainId = some sent) :
    Accepted c sent.rlpBytes sent ∧ sent.transaction.unsigned = t := by
  obtain ⟨sig, _, hnew⟩ := sign_eq_some_iff.mp h
  have htransaction := SignedTransaction.transaction_of_new hnew
  have hdecode := t.decode_withSignature c sig chainId
  rw [Accepted, SignedTransaction.rlpBytes, htransaction]
  exact ⟨⟨hdecode, hnew⟩, rfl⟩

/-- Bytes are accepted as one transaction. -/
theorem Accepted.eq (h : Accepted c raw sent) (h' : Accepted c raw signed) : sent = signed := by
  have htransaction := Except.ok.inj (h.1.symm.trans h'.1)
  have hnew := h'.2
  rw [← htransaction, h.2] at hnew
  exact Except.ok.inj hnew

/-- An accepted transaction has the hash of the bytes. -/
theorem Accepted.hash_eq (h : Accepted c raw sent) : sent.hash = c.keccak raw :=
  ((UnverifiedTransaction.decode_eq_ok_iff c).mp h.1).1

variable {ι : Type} [DecidableEq ι] {evm : Evm} {db : HashMapEthDB} {requests : ι → ServiceRequest}
  {now : U64} {i : ι} {schedule : List ι}

omit [DecidableEq ι] in
/-- The submission of what is accepted only waits for the write guard. -/
theorem Accepted.thread_eq (h : Accepted c raw sent) (evm : Evm) (now : U64) :
    (ServiceRequest.node (.sendRawTransaction now raw)).thread c evm =
      (RequestThread.lock (getMutDb fun db => db.submitTx c evm now sent) fun result =>
        .attempt (rpcTry (result.map fun _ => sent.hash)
          "rpc error: invalid transaction received") fun h =>
        .respond (.hash h)).map nodeResponse := by
  change (RequestThread.sendRawTransaction c evm now raw).map nodeResponse = _
  rw [RequestThread.sendRawTransaction, h.1, rpcTry, Except.mapError, RequestThread.attempt, h.2]
  rfl

/-- The submission of what is accepted ends with its hash, or it is refused by the execution or the
lock. -/
theorem result_of_accepted (h : Runtime.Kept c ⟨db, false⟩) (haccepted : Accepted c raw sent)
    (hreq : requests i = .node (.sendRawTransaction now raw))
    {result : Outcome (Except RpcError ServiceResponse)} :
    let p := startServices c evm requests ⟨db, false⟩
    (p.run schedule).threads i = .done result →
      result = some (.ok (.node (.hash sent.hash))) ∨ result = some (.error lockError) ∨
        result = some (.error ⟨"rpc error: invalid transaction received"⟩) := by
  intro p hdone
  have hthread : p.threads i = _ :=
    (congrArg (fun req => req.thread c evm) hreq).trans (haccepted.thread_eq evm now)
  obtain ⟨s₁, s₂, rfl, hs₁⟩ := Pool.exists_first_turn hthread hdone
  have hend := Pool.threads_run_of_locked hthread hs₁
  have hkept : (p.run s₁).shared.Kept c :=
    ((startServices_announces h evm requests).run (sections_moves c evm requests) s₁).1.shared
  rw [List.append_cons, Pool.run_append] at hdone
  generalize (p.run s₁).shared = runtime at hend hkept
  obtain ⟨db', poisoned⟩ := runtime
  cases poisoned with
  | true =>
    rw [Pool.threads_run_of_done hend] at hdone
    cases hdone
    exact Or.inr (Or.inl rfl)
  | false =>
    have hsubmit : (∃ db'', db'.submitTx c evm now sent = some (.ok (), db'') ∧
        Executes c evm now sent db' db'') ∨
        db'.submitTx c evm now sent = some (.error "invalid transaction received", db') :=
      submitTx_total hkept.positioned.nonempty hkept.positioned.accounts_ne_nil
    rcases hsubmit with ⟨db'', hs, _⟩ | hs
    · have hguard : getMutDb (fun db => db.submitTx c evm now sent) ⟨db', false⟩ =
          (some (.ok (.ok ())), ⟨db'', false⟩) := getMutDb_of_some hs
      simp only [hguard] at hend
      rw [Pool.threads_run_of_done hend] at hdone
      cases hdone
      exact Or.inl rfl
    · have hguard : getMutDb (fun db => db.submitTx c evm now sent) ⟨db', false⟩ =
          (some (.ok (.error "invalid transaction received")), ⟨db', false⟩) := getMutDb_of_some hs
      simp only [hguard] at hend
      rw [Pool.threads_run_of_done hend] at hdone
      cases hdone
      exact Or.inr (Or.inr rfl)

/-- The value is a receipt of the transaction: it tells the hash, who has signed the transaction,
and either whom it calls or the address that the signer and the signed nonce make for a contract. -/
structure Json.ShowsSent (c : Crypto) (texts : Texts) (sent : SignedTransaction) (v : Json) :
    Prop where
  /-- The hash. -/
  hash : v.get "transactionHash" = some (toValue texts sent.hash)
  /-- The signer. -/
  sender : v.get "from" = some (toValue texts sent.sender)
  /-- A call shows its receiver, and no contract. -/
  call : ∀ a, sent.transaction.unsigned.action = .call a →
    v.get "to" = some (toValue texts a) ∧ v.get "contractAddress" = some .null
  /-- A creation shows no receiver, and the address of the signer and the signed nonce. -/
  create : sent.transaction.unsigned.action = .create →
    v.get "to" = some .null ∧ v.get "contractAddress" =
      some (toValue texts (createAddress c sent.sender sent.transaction.unsigned.nonce))

omit [DecidableEq ι] in
/-- A receipt that tells of a hash shows the one transaction with the hash. -/
theorem ReceiptTells.showsSent {texts : Texts} {r : RpcReceipt}
    (h : ReceiptTells c db sent.hash r)
    (hunique : ∀ tx ∈ included db, tx.hash = sent.hash → tx = sent) :
    (toValue texts r).ShowsSent c texts sent := by
  obtain ⟨block, hblock, tx, hmem, hhash, htransaction, _, hfrom, hto, hcontract⟩ := h
  obtain rfl := hunique tx (List.mem_flatMap.mpr ⟨block, hblock, hmem⟩) hhash
  have htoShown : (toValue texts r).get "to" = some (toValue texts r.to) := r.get_toValue "to"
  have hcontractShown : (toValue texts r).get "contractAddress" =
      some (toValue texts r.contractAddress) := r.get_toValue "contractAddress"
  constructor
  · rw [RpcReceipt.get_toValue]
    exact congrArg (fun hash => some (toValue texts hash)) htransaction
  · rw [RpcReceipt.get_toValue]
    exact congrArg (fun «from» => some (toValue texts «from»)) hfrom
  · intro a hcall
    have hnone : r.contractAddress = none := by
      rw [Option.eq_none_iff_forall_ne_some]
      intro address he
      have hcreate := ((hcontract address).mp he).1
      rw [hcall] at hcreate
      contradiction
    rw [htoShown, hcontractShown, (hto a).mpr hcall, hnone]
    exact ⟨rfl, rfl⟩
  · intro hcreate
    have hnone : r.to = none := by
      rw [Option.eq_none_iff_forall_ne_some]
      intro a he
      have hcall := (hto a).mp he
      rw [hcreate] at hcall
      contradiction
    rw [htoShown, hcontractShown, hnone, (hcontract _).mpr ⟨hcreate, rfl⟩]
    exact ⟨rfl, rfl⟩

/-- What is signed is delivered by a new node, unless other bytes with the same hash are sent. Read
from its text, it is refused only by the execution or the lock. Once the node responds, it is in the
chain as it was signed, and whoever asks for the receipt later is shown it. -/
theorem delivered (hsent : t.sign c secret chainId = some sent)
    {display : FromHexError → String}
    (hread : RpcBytes.visitStr display (RpcBytes.serialize sent.rlpBytes) = some (.ok raw))
    (hreq : requests i = .node (.sendRawTransaction now raw))
    (hunique : ∀ k now raw', requests k = .node (.sendRawTransaction now raw') →
      c.keccak raw' = sent.hash → raw' = raw)
    (texts : Texts) (evm : Evm) (start : U64) (s₁ s₂ : List ι) :
    let p := startServices c evm requests ⟨HashMapEthDB.new c start, false⟩
    (∀ result, (p.run s₁).threads i = .done result →
      result = some (.ok (.node (.hash sent.hash))) ∨ result = some (.error lockError) ∨
        result = some (.error ⟨"rpc error: invalid transaction received"⟩)) ∧
      ((p.run s₁).threads i = .done (some (.ok (.node (.hash sent.hash)))) →
        sent.transaction.unsigned = t ∧ sent ∈ included (p.run s₁).shared.ethDb ∧
          ∀ j response, j ∉ s₁ → requests j = .transactionReceipt sent.hash →
            (p.run (s₁ ++ s₂)).threads j = .done (some (.ok response)) →
              ∃ v, response.serialize texts = .ok v ∧ v.ShowsSent c texts sent) := by
  intro p
  have hkept : Runtime.Kept c ⟨HashMapEthDB.new c start, false⟩ :=
    (reachable_new c evm start).kept false
  obtain ⟨haccepted, hunsigned⟩ := Transaction.accepted_of_sign hsent
  rw [RpcBytes.visitStr_serialize] at hread
  rw [Except.ok.inj (Option.some.inj hread)] at haccepted
  refine ⟨fun result hdone => result_of_accepted hkept haccepted hreq hdone, fun hdone => ?_⟩
  -- no other submission has the hash
  have hone : ∀ s, ∀ tx ∈ included (p.run s).shared.ethDb, tx.hash = sent.hash → tx = sent := by
    intro s tx hmem hhash
    rcases sent_of_included hkept evm requests s tx hmem with hold | ⟨k, now', raw', hk, hacc⟩
    · change tx ∈ ([] : List SignedTransaction) at hold
      contradiction
    · obtain rfl := hunique k now' raw' hk (hacc.hash_eq.symm.trans hhash)
      exact hacc.eq haccepted
  obtain ⟨tx, hin, hhash, _⟩ := included_of_responded hkept requests hdone
  obtain rfl := hone s₁ tx hin hhash
  refine ⟨hunsigned, hin, fun j response hj hj' hdone' => ?_⟩
  rcases receipt_of_included_before hkept requests hin hj hj' hdone' with ⟨_, he⟩ | ⟨r, hr, htells⟩
  · cases he
  · cases hr
    exact ⟨_, rfl, htells.showsSent (hone (s₁ ++ s₂))⟩

/-- A creation on chain 127 signed with the sample scheme is sent, and its receipt is asked for. -/
theorem delivered_creation :
    let t : Transaction := {}
    let secret : Secret := .fromLowU64Be 7
    let pub : Public := ⟨secret.bytes ++ (H256.fromLowU64Be 1).bytes, rfl⟩
    let sent : SignedTransaction :=
      ⟨t.withSignature .sample ⟨secret, .fromLowU64Be 1, 0⟩ (some 127),
        Crypto.sample.publicToAddress pub, some pub⟩
    let raw := [0xcb, 0x80, 0x80, 0x80, 0x80, 0x80, 0x80, 0x82, 0x01, 0x21, 0x07, 0x01]
    let requests : Bool → ServiceRequest
      | true => .node (.sendRawTransaction 5 raw)
      | false => .transactionReceipt (Crypto.sample.keccak raw)
    let p := startServices .sample .sample requests ⟨HashMapEthDB.new .sample 0, false⟩
    (p.run [true]).threads true = .done (some (.ok (.node (.hash sent.hash)))) ∧
      ∃ response v, (p.run ([true] ++ [false])).threads false = .done (some (.ok response)) ∧
        response.serialize .plain = .ok v ∧ v.ShowsSent .sample .plain sent := by
  intro t secret pub sent raw requests p
  have hsent : t.sign .sample secret (some 127) = some sent :=
    Transaction.sign_eq_some_iff.mpr ⟨_, rfl, SignedTransaction.new_withSignature .sample t
      (Or.inl rfl) (by decide) (by decide) rfl⟩
  have hraw : sent.rlpBytes = raw := by decide +kernel
  have hread : RpcBytes.visitStr (fun _ => "") (RpcBytes.serialize sent.rlpBytes) =
      some (.ok raw) := by
    rw [hraw]
    exact RpcBytes.visitStr_serialize raw
  have hhash : sent.hash = Crypto.sample.keccak raw := by
    rw [(Transaction.accepted_of_sign hsent).1.hash_eq, hraw]
  have hanswer : ((p.run [true]).threads true).answer =
      some (some (.ok (.node (.hash sent.hash)))) := by
    decide +kernel
  have hdone := Thread.answer_eq_some_iff.mp hanswer
  obtain ⟨response, hresponse⟩ : ∃ response,
      (p.run ([true] ++ [false])).threads false = .done (some (.ok response)) :=
    RequestThread.exists_response (by decide +kernel)
  have hunique : ∀ k now raw', requests k = .node (.sendRawTransaction now raw') →
      Crypto.sample.keccak raw' = sent.hash → raw' = raw := by
    intro k now raw' hk _
    cases k with
    | false => cases hk
    | true => exact (NodeRequest.sendRawTransaction.inj (ServiceRequest.node.inj hk)).2.symm
  have hdelivered := delivered (i := true) hsent hread rfl hunique .plain .sample 0 [true] [false]
  obtain ⟨_, _, hreceipt⟩ := hdelivered.2 hdone
  obtain ⟨v, hv, hshows⟩ := hreceipt false response (by decide)
    (congrArg ServiceRequest.transactionReceipt hhash.symm) hresponse
  exact ⟨hdone, response, v, hresponse, hv, hshows⟩

end

end Tethereum
