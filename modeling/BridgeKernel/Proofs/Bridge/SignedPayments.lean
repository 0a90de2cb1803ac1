import BridgeKernel.Proofs.Bridge.CustodyJournal
import BridgeKernel.Proofs.Custody.Signing

/-!
# Signed payments along a run

Whatever calls are made, for however many chains and custody keys, scripts are stored as they were
parsed, what waits for signatures is a payment that a call has made, and the signatures collected
are short. So the call that closes a payment signs the transaction that was made for it, and
nothing else.
-/

namespace BridgeKernel

open Bitcoin Custody

variable {chain : ChainId} {key : String}

/-- A call made a payment from a custody key of a chain. -/
def BridgeEntry.Makes (chain : ChainId) (key : String) (draft : SpendDraft)
    (entry : BridgeEntry) : Prop :=
  ∃ (config : BridgeConfig) (payouts : List Payout) (fee : UInt64),
    entry = ⟨⟨config, .createDraft chain key payouts fee⟩, .ok draft⟩

/-- Payments are entered in the journal by the calls that made them. -/
theorem BridgeEntry.makes_of_journal {entry : BridgeEntry} {draft : SpendDraft}
    (hkey : entry.request.op.OnKey chain key)
    (h : draft ∈ (BridgeEntry.journal chain entry).drafts) : entry.Makes chain key draft := by
  obtain ⟨⟨config, op⟩, answer⟩ := entry
  unfold BridgeEntry.journal at h
  split at h
  · split at h <;> cases h
  · next made hentry =>
    cases hentry
    split at h
    · next hchain =>
      subst hchain
      cases List.mem_singleton.mp h
      cases hkey rfl
      exact ⟨_, _, _, rfl⟩
    · cases h
  · split at h <;> cases h
  · cases h

/-- A call that is not about custody on a chain writes neither scripts nor payments of it. -/
theorem BridgeOp.not_touches {op : BridgeOp} (h : op.custodyChain? ≠ some chain)
    {record : RecordKey} (hrecord : record.CustodyOf chain fun _ => False) :
    ¬ op.Touches record := by
  intro htouches
  cases op with
  | registerRedeem | recordDeposit | createDraft | addSignature =>
    cases record with
    | redeem | utxo | stxo | draft => exact h (congrArg some (htouches.symm.trans hrecord))
    | _ => exact hrecord
  | syncGenesis | syncBatch | syncHeaders =>
    cases record with
    | redeem | utxo | stxo | draft => exact htouches
    | _ => exact hrecord
  | propose => rcases htouches with ⟨_, rfl⟩ | ⟨_, _, rfl⟩ <;> exact hrecord
  | installCommittee | rotateCommittee =>
    obtain rfl := htouches
    exact hrecord
  | isApplied => exact htouches

/-- A call is a call of custody on a chain, or writes neither scripts nor payments of it. -/
theorem BridgeRequest.perform_call_or (request : BridgeRequest) (b : Bridge) (chain : ChainId) :
    (∃ key, request.op.OnlyKey chain key ∧ Call chain key b.state (request.perform b).2.state
      (BridgeEntry.journal chain ⟨request, (request.perform b).1⟩)) ∨
    ∀ record : RecordKey, record.CustodyOf chain (fun _ => False) →
      ¬ request.op.Touches record := by
  by_cases hchain : ∀ c, request.op.custodyChain? = some c → c = chain
  · obtain ⟨key, hkey⟩ := request.op.exists_onKey chain
    exact .inl ⟨key, ⟨hkey, hchain⟩, request.perform_call b ⟨hkey, hchain⟩⟩
  · right
    intro record
    apply BridgeOp.not_touches
    intro hsame
    apply hchain
    intro c hc
    exact Option.some.inj (hc.symm.trans hsame)

namespace Custody

/-- A payment that was made pays by an unsigned transaction. -/
theorem Call.pays {s t : State} {k : Journal} (h : Call chain key s t k) {draft : SpendDraft}
    (hdraft : draft ∈ k.drafts) : ∃ tx, Pays draft tx := by
  cases h with
  | drafted hmade =>
    cases List.mem_singleton.mp hdraft
    exact hmade.pays
  | _ => cases hdraft

/-- What custody has stored comes from calls. -/
structure Founded (past : List BridgeEntry) (s : State) : Prop where
  /-- Scripts have been parsed. -/
  scripts : ∀ (chain : ChainId) (name : String) (record : RedeemRecord),
    s.lookup (.redeem chain name) = some record → record.Parsed
  /-- Payments that wait were made by calls, and wait under their ids. -/
  waiting : ∀ (chain : ChainId) (txid : Hash) (draft : SpendDraft),
    s.lookup (.draft chain txid) = some draft →
    draft.txid = txid ∧ (∃ tx, Pays draft tx) ∧
      ∃ entry ∈ past, entry.Makes chain draft.redeemKey draft
  /-- Collected signatures are short. -/
  short : ∀ (txid : Hash) (collection : SignatureCollection),
    s.lookup (.multisig txid) = some collection → collection.Short

/-- A call keeps what custody has stored founded. -/
theorem Founded.perform {past : List BridgeEntry} {b : Bridge} (h : Founded past b.state)
    (request : BridgeRequest) :
    Founded (past ++ [⟨request, (request.perform b).1⟩]) (request.perform b).2.state := by
  refine ⟨fun chain name record hrecord => ?_, fun chain txid draft hdraft => ?_, ?_⟩
  · rcases request.perform_call_or b chain with ⟨key, -, hcall⟩ | hspared
    · rcases hcall.redeem_origin hrecord with hbefore | ⟨-, -, hparsed⟩
      · exact h.scripts chain name record hbefore
      · exact hparsed
    · rw [(request.perform_writes b).lookup_eq (hspared (.redeem chain name) rfl)] at hrecord
      exact h.scripts chain name record hrecord
  · have hbefore (hwaiting : b.state.lookup (.draft chain txid) = some draft) :
        draft.txid = txid ∧ (∃ tx, Pays draft tx) ∧
          ∃ entry ∈ past ++ [⟨request, (request.perform b).1⟩],
            entry.Makes chain draft.redeemKey draft := by
      obtain ⟨hnamed, hpays, entry, hentry, hmakes⟩ := h.waiting chain txid draft hwaiting
      exact ⟨hnamed, hpays, entry, List.mem_append_left _ hentry, hmakes⟩
    rcases request.perform_call_or b chain with ⟨key, hkey, hcall⟩ | hspared
    · rcases hcall.draft_origin hdraft with hwaiting | ⟨hmade, hnamed, rfl⟩
      · exact hbefore hwaiting
      · exact ⟨hnamed, hcall.pays hmade, _, List.mem_append_right _ List.mem_cons_self,
          BridgeEntry.makes_of_journal hkey.1 hmade⟩
    · rw [(request.perform_writes b).lookup_eq (hspared (.draft chain txid) rfl)] at hdraft
      exact hbefore hdraft
  · -- signatures are collected under no chain, so the call is looked at on the chain that it names
    have hchain (c : ChainId) (hc : request.op.custodyChain? = some c) :
        c = request.op.custodyChain?.getD 0 := by
      rw [hc, Option.getD_some]
    obtain ⟨key, hkey⟩ := request.op.exists_onKey (request.op.custodyChain?.getD 0)
    exact (request.perform_call b ⟨hkey, hchain⟩).short h.short

/-- A payment that a call made is closed, by a parsed script and short signatures. -/
structure ClosesMade (past : List BridgeEntry) (chain : ChainId) (txid : Hash) (draft : SpendDraft)
    (record : RedeemRecord) (tx signed : Transaction) (collection : SignatureCollection)
    (s t : State) : Prop where
  /-- The call that made it. -/
  made : ∃ entry ∈ past, entry.Makes chain draft.redeemKey draft
  /-- It is known by its id. -/
  named : draft.txid = txid
  /-- It waits for signatures. -/
  waiting : s.lookup (.draft chain txid) = some draft
  /-- It pays by its unsigned transaction. -/
  pays : Pays draft tx
  /-- The script of its custody key. -/
  registered : s.lookup (.redeem chain draft.redeemKey) = some record
  /-- The script has been parsed. -/
  parsed : record.Parsed
  /-- The signatures are short. -/
  short : collection.Short
  /-- They close it. -/
  closes : Closes chain draft record tx signed collection s t

/-- Where what custody has stored is founded, the answer that a payment is closed is true of a payment
that a call made. -/
theorem Founded.closing {past : List BridgeEntry} {b : Bridge} (h : Founded past b.state)
    {config : BridgeConfig} {signer : Custodian} {txid : Hash} {signatures : List Bytes}
    {raw : Bytes} {final : Hash}
    (hclosed : (BridgeRequest.perform ⟨config, .addSignature chain signer txid signatures⟩ b).1 =
      .ok (.finalized raw final)) :
    ∃ draft record tx signed collection, raw = signed.write ∧ final = signed.txid ∧
      ClosesMade past chain txid draft record tx signed collection b.state
        (BridgeRequest.perform ⟨config, .addSignature chain signer txid signatures⟩ b).2.state := by
  change ((addSignature chain signer txid signatures).mapError BridgeError.custody b.state).1 = _
    at hclosed
  have hstate : (BridgeRequest.perform ⟨config, .addSignature chain signer txid signatures⟩
      b).2.state = (addSignature chain signer txid signatures b.state).2 :=
    Transition.mapError_snd _ _ _
  rw [Transition.mapError_run] at hclosed
  rw [hstate]
  rcases hr : addSignature chain signer txid signatures b.state with ⟨e | outcome, t⟩
  · rw [hr] at hclosed
    cases hclosed
  rw [hr] at hclosed
  obtain ⟨draft, record, tx, collection, hfound, ⟨-, rfl, -⟩ | ⟨-, signed, rfl, hcloses⟩⟩ :=
    addSignature_ok hr
  · cases hclosed
  cases hclosed
  obtain ⟨hnamed, ⟨tx', hpays⟩, hmakes⟩ := h.waiting chain txid draft hfound.waiting
  cases hpays.read.symm.trans hfound.read
  exact ⟨draft, record, tx, signed, collection, rfl, rfl, hmakes, hnamed, hfound.waiting, hpays,
    hfound.registered, h.scripts chain draft.redeemKey record hfound.registered,
    hfound.short (h.short txid), hcloses⟩

end Custody

namespace Bridge

variable {module : Bytes} {faults : Nat → StoreOp → Option StoreFault}

theorem founded_after (requests : List BridgeRequest) :
    Founded (history requests (empty module faults)) (after requests (empty module faults)) := by
  induction requests using List.reverseRecOn with
  | nil => exact ⟨fun _ _ _ h => (nomatch h), fun _ _ _ h => (nomatch h), fun _ _ h => (nomatch h)⟩
  | append_singleton requests request ih =>
    rw [history_snoc, after_append]
    exact ih.perform request

/-- The signed transaction of a payment is the one that was made for it. In every run, the call that
closes a payment returns bytes from which the unsigned transaction is read back with scripts in its
inputs that are locked by script and witnesses in the others, and the id of that transaction without
witnesses; the outputs that it locks to the custody script become spendable under this id. -/
theorem finalized_signs_draft (module : Bytes) (faults : Nat → StoreOp → Option StoreFault)
    (requests : List BridgeRequest) (config : BridgeConfig) (chain : ChainId) (signer : Custodian)
    (txid : Hash) (signatures : List Bytes) (raw : Bytes) (final : Hash)
    (h : (BridgeRequest.perform ⟨config, .addSignature chain signer txid signatures⟩
      (run requests (empty module faults)).2).1 = .ok (.finalized raw final)) :
    ∃ (draft : SpendDraft) (record : RedeemRecord) (tx signed : Transaction) (paid : List Utxo),
      (∃ entry ∈ history requests (empty module faults),
        entry.Makes chain draft.redeemKey draft) ∧
      draft.txid = txid ∧
      (after requests (empty module faults)).lookup (.draft chain txid) = some draft ∧
      (after requests (empty module faults)).lookup (.redeem chain draft.redeemKey) =
        some record ∧
      SignsDraft record.redeemScript draft tx signed raw final ∧
      PaidBack record.redeemScript final signed.outputs paid ∧
      (after (requests ++ [⟨config, .addSignature chain signer txid signatures⟩])
          (empty module faults)).spendable chain draft.redeemKey =
        (((after requests (empty module faults)).spendable chain draft.redeemKey).filter
          fun u => !draft.inputs.any (·.sameOutpoint u)) ++ paid := by
  obtain ⟨draft, record, tx, signed, collection, rfl, rfl, hclosing⟩ :=
    (founded_after requests).closing h
  rw [after_append]
  exact ⟨draft, record, tx, signed, returned record.redeemScript signed, hclosing.made,
    hclosing.named, hclosing.waiting, hclosing.registered,
    hclosing.closes.signs hclosing.pays hclosing.parsed hclosing.short, returned_paidBack _ _,
    hclosing.closes.spendable_eq⟩

/-! ### A payment with inputs of both kinds -/

/-- An output that is locked by the hash of the guard's script. -/
def scriptCoin : Utxo where
  txid := .ofNatBE 32 0x2222222222222222222222222222222222222222222222222222222222222222
  vout := 1
  value := 60000
  scriptPubkey := .ofNatBE 23 0xa91483eebb7d79aa1d388e3b0ac65b98ac580c4da01a87

/-- An output that is not needed. -/
def spareCoin : Utxo where
  txid := .ofNatBE 32 0x3333333333333333333333333333333333333333333333333333333333333333
  vout := 0
  value := 5000
  scriptPubkey := soleLock

/-- The payment that spends one output of each kind. -/
def twoKindsId : Hash :=
  .ofNatBE 32 0xa7683f4b06a3d33f3329801dc5123336074e883797bd62ee27fef7ea8db49227

/-- The guard's signatures of the payment, one for each input. -/
def twoKindsSignatures : List Bytes := [
  Bytes.ofNatBE 35 0x30440220741a28f01d28978281747029ea6c5082e9dd484ebd7161e101520ffd95600e ++
  Bytes.ofNatBE 36 0xc702207befd2c0405c22fb5ea5281db4b00a9063f50ce755c407ad2494834c7a5bb26001,
  Bytes.ofNatBE 36 0x3045022100f150166c1e37800743e3780b73141e2fabb0da5c413d7a5923c5b49fba89a2 ++
  Bytes.ofNatBE 36 0x9602204cdb21eaed595362db6b3b553726b1839f20c1e65154d0f36dd4ccb43b143c2c01]

/-- Calls that deposit three outputs and make a payment of two of them. -/
def twoKindsRequests : List BridgeRequest := [
  ⟨.trial, .registerRedeem 1 soleScript⟩,
  ⟨.trial, .recordDeposit 1 soleKey soleCoin⟩,
  ⟨.trial, .recordDeposit 1 soleKey scriptCoin⟩,
  ⟨.trial, .recordDeposit 1 soleKey spareCoin⟩,
  ⟨.trial, .createDraft 1 soleKey [⟨[0x00, 0x14, 0xaa, 0xbb], 120000⟩] 1000⟩]

/-- The call with the guard's signatures. -/
def twoKindsSigning : BridgeRequest :=
  ⟨.trial, .addSignature 1 soleGuard twoKindsId twoKindsSignatures⟩

/-- An answer that a payment is closed. -/
def closes : SigningOutcome → Bool
  | .collecting _ _ => false
  | .finalized _ _ => true

theorem exists_of_closes {answer : Except BridgeError SigningOutcome}
    (h : answer.toOption.any closes = true) : ∃ raw final, answer = .ok (.finalized raw final) := by
  rcases answer with e | ⟨signed, required⟩ | ⟨raw, final⟩
  · cases h
  · cases h
  · exact ⟨raw, final, rfl⟩

/-- The outputs of the payment, with the change behind what is paid out. -/
def twoKindsOutputs : List TxOut :=
  [⟨120000, [0x00, 0x14, 0xaa, 0xbb]⟩, ⟨39000, soleLock⟩]

/-- The payment spends an output of each kind and leaves the third one, and the signatures close
it. -/
theorem twoKinds_run :
    ((after twoKindsRequests (empty [] fun _ _ => none)).lookup (.draft 1 twoKindsId)).map
        (fun draft : SpendDraft => (draft.redeemKey, draft.inputs,
          (Transaction.read draft.unsignedTx).toOption.map Transaction.outputs)) =
        some (soleKey, [soleCoin, scriptCoin], some twoKindsOutputs) ∧
      ((after twoKindsRequests (empty [] fun _ _ => none)).lookup (.redeem 1 soleKey)).map
        RedeemRecord.redeemScript = some soleScript ∧
      (after twoKindsRequests (empty [] fun _ _ => none)).spendable 1 soleKey = [spareCoin] ∧
      (twoKindsSigning.perform (run twoKindsRequests
        (empty [] fun _ _ => none)).2).1.toOption.any closes = true := by
  decide +kernel

/-- Of its outputs the change alone is locked to the script. -/
theorem twoKindsOutputs_locked :
    (twoKindsOutputs.filter fun o => o.scriptPubkey = Script.locking soleScript .scriptHash ∨
      o.scriptPubkey = Script.locking soleScript .witnessHash) = [⟨39000, soleLock⟩] := by
  decide +kernel

/-- A payment with inputs of both kinds is closed with the transaction that was made for it, and its
change becomes spendable beside the output that it leaves. -/
theorem two_kinds_payment_signed :
    ∃ (raw : Bytes) (final : Hash),
      (twoKindsSigning.perform (run twoKindsRequests (empty [] fun _ _ => none)).2).1 =
        .ok (.finalized raw final) ∧
      ∃ (draft : SpendDraft) (tx signed : Transaction) (paid : List Utxo),
        draft.txid = twoKindsId ∧ draft.inputs = [soleCoin, scriptCoin] ∧
        SignsDraft soleScript draft tx signed raw final ∧
        PaidBack soleScript final signed.outputs paid ∧
        (paid.map fun u => (⟨u.value, u.scriptPubkey⟩ : TxOut)) = [⟨39000, soleLock⟩] ∧
        (after (twoKindsRequests ++ [twoKindsSigning])
          (empty [] fun _ _ => none)).spendable 1 soleKey = spareCoin :: paid := by
  obtain ⟨hdraft, hscript, hspendable, hcloses⟩ := twoKinds_run
  obtain ⟨raw, final, houtcome⟩ := exists_of_closes hcloses
  obtain ⟨draft, record, tx, signed, paid, -, hnamed, hwaiting, hregistered, hsigns, hpaid,
    hlast⟩ := finalized_signs_draft [] _ twoKindsRequests .trial 1 soleGuard twoKindsId
      twoKindsSignatures raw final houtcome
  rw [hwaiting, Option.map_some, Option.some.injEq] at hdraft
  obtain ⟨hkey, hrest⟩ := Prod.mk.inj hdraft
  obtain ⟨hinputs, houtputs⟩ := Prod.mk.inj hrest
  rw [hkey] at hregistered
  rw [hregistered, Option.map_some, Option.some.injEq] at hscript
  rw [hscript] at hsigns hpaid
  rw [hsigns.unsigned] at houtputs
  have hpays : signed.outputs = twoKindsOutputs :=
    hsigns.outputs.trans (Option.some.inj houtputs)
  have hchange := hpaid.locked
  rw [hpays, twoKindsOutputs_locked] at hchange
  have hleft : [spareCoin].filter (fun u => !draft.inputs.any (·.sameOutpoint u)) =
      [spareCoin] := by
    rw [hinputs]
    decide
  rw [hkey, hspendable, hleft] at hlast
  exact ⟨raw, final, houtcome, draft, tx, signed, paid, hnamed, hinputs, hsigns, hpaid, hchange,
    hlast⟩

end Bridge

end BridgeKernel
