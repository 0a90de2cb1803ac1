import BridgeKernel.Proofs.Bridge.CustodyJournal
import BridgeKernel.Proofs.Custody.Finalization

/-!
# Finalization along a run

In a run on one chain and one custody key whose journal tells transactions apart, the contribution
that completes the required number of signatures closes its payment, and no other one does. What is
stored for a closed payment stays as it is, and signatures for it are refused.
-/

namespace BridgeKernel

open Custody

variable {chain : ChainId} {key : String}

namespace Bridge

/-- The contributions that calls have made to a payment of a chain. -/
def contributions (chain : ChainId) (txid : Hash) (requests : List BridgeRequest)
    (bridge : Bridge) : List Contribution :=
  (journal chain requests bridge).contributions txid

/-- How the signatures for a payment are collected along a run. -/
structure FinalizesExactly (chain : ChainId) (record : RedeemRecord) (draft : SpendDraft)
    (requests : List BridgeRequest) (bridge : Bridge) : Prop where
  /-- Contributions before the last one required leave the payment open, that one closes it with
  a signed transaction, and there are no others. -/
  brings : ∀ place c, (contributions chain draft.txid requests bridge)[place]? = some c →
    Brings record draft (((contributions chain draft.txid requests bridge).take
      (place + 1)).map Contribution.signer) c.outcome
  /-- What is stored is collecting as long as more signatures are required. -/
  collecting : ∀ front back, requests = front ++ back →
    0 < (contributions chain draft.txid front bridge).length →
    (contributions chain draft.txid front bridge).length < record.required.toNat →
    ∃ collection : SignatureCollection,
      (after front bridge).lookup (.multisig draft.txid) = some collection ∧
      collection.status = .collecting ∧
      collection.signerCount = (contributions chain draft.txid front bridge).length
  /-- From the last contribution on it holds what that one brought about, and does not change. -/
  finalized : ∀ front back, requests = front ++ back →
    (contributions chain draft.txid front bridge).length = record.required.toNat →
    ∃ (last : Contribution) (collection : SignatureCollection) (raw : Bytes) (final : Hash),
      (contributions chain draft.txid front bridge).getLast? = some last ∧
      last.outcome = .finalized raw final ∧
      (after front bridge).lookup (.multisig draft.txid) = some collection ∧
      collection.status = .finalized raw final ∧
      (after requests bridge).lookup (.multisig draft.txid) = some collection
  /-- From then on signatures are refused, because the payment is closed or the store fails. -/
  refused : ∀ front back, requests = front ++ back →
    (contributions chain draft.txid front bridge).length = record.required.toNat →
    ∀ config signer signatures,
      (BridgeRequest.perform ⟨config, .addSignature chain signer draft.txid signatures⟩
        (run front bridge).2).1 =
        .error (.custody (match (after front bridge).faults (after front bridge).clock .get with
          | none => .alreadyFinalized draft.txid
          | some fault => .storage (.database fault)))

section Front

variable {module : Bytes} {faults : Nat → StoreOp → Option StoreFault}
  {requests front back : List BridgeRequest}

theorem collected_after (hkey : ∀ request ∈ requests, request.op.OnlyKey chain key)
    (hjournal : (journal chain requests (empty module faults)).Unambiguous) :
    Collected chain key (journal chain requests (empty module faults))
      (after requests (empty module faults)) :=
  (calls_after (empty module faults) hkey).collected hjournal

theorem contributions_append (txid : Hash) (bridge : Bridge) :
    contributions chain txid (front ++ back) bridge =
      contributions chain txid front bridge ++
        contributions chain txid back (run front bridge).2 := by
  rw [contributions, journal_append, Journal.contributions_append]
  rfl

/-- What is stored after the first calls of a run is made of their contributions. -/
theorem collected_front (hkey : ∀ request ∈ front ++ back, request.op.OnlyKey chain key)
    (hjournal : (journal chain (front ++ back) (empty module faults)).Unambiguous) :
    Collected chain key (journal chain front (empty module faults))
      (after front (empty module faults)) := by
  rw [journal_append] at hjournal
  exact collected_after (fun request hr => hkey request (List.mem_append_left back hr))
    hjournal.of_append

end Front

/-- Signatures for a closed payment are refused. -/
theorem perform_addSignature_of_finalized {bridge : Bridge} {txid : Hash}
    {collection : SignatureCollection}
    (hfound : bridge.state.lookup (.multisig txid) = some collection)
    (hfinal : collection.isFinalized = true) (config : BridgeConfig) (signer : Custodian)
    (signatures : List Bytes) :
    (BridgeRequest.perform ⟨config, .addSignature chain signer txid signatures⟩ bridge).1 =
      .error (.custody (match bridge.state.faults bridge.state.clock .get with
        | none => .alreadyFinalized txid
        | some fault => .storage (.database fault))) := by
  have hrefused : (Custody.addSignature chain signer txid signatures bridge.state).1 = _ :=
    addSignature_of_finalized hfound hfinal signer signatures
  change ((Custody.addSignature chain signer txid signatures).mapError BridgeError.custody
    bridge.state).1 = _
  unfold Transition.mapError
  rcases hr : Custody.addSignature chain signer txid signatures bridge.state with ⟨result, t⟩
  rw [hr] at hrefused
  obtain rfl : result = _ := hrefused
  rfl

/-- Finalization is exact. In every run on one chain and one custody key whose journal tells
transactions apart, the signatures for every payment are collected until the required number of
custodians, all different, has signed, and the contribution of the last of them closes the payment
for good, with a transaction that carries their signatures in the order of the script. -/
theorem finalization_exact (module : Bytes) (faults : Nat → StoreOp → Option StoreFault)
    (chain : ChainId) (key : String) (requests : List BridgeRequest) (record : RedeemRecord)
    (draft : SpendDraft) (hkey : ∀ request ∈ requests, request.op.OnlyKey chain key)
    (hjournal : (journal chain requests (empty module faults)).Unambiguous)
    (hrecord : (after requests (empty module faults)).lookup (.redeem chain key) = some record)
    (hdistinct : record.custodians.Nodup)
    (hdraft : draft ∈ (journal chain requests (empty module faults)).drafts) :
    FinalizesExactly chain record draft requests (empty module faults) := by
  obtain ⟨htraced, -⟩ := (calls_after (empty module faults) hkey).orderly hjournal
  have hparsed := htraced.script record hrecord
  have hprogress : Progress record draft
      (contributions chain draft.txid requests (empty module faults)) :=
    (collected_after hkey hjournal).progress record hrecord hdistinct draft hdraft
  refine ⟨hprogress.brings, ?_, ?_, ?_⟩
  all_goals
    rintro front back rfl
    have hfront := collected_front hkey hjournal
    rw [contributions_append] at hprogress
  · intro hsome hfewer
    have hlast := List.getLast?_eq_some_getLast (List.ne_nil_of_length_pos hsome)
    obtain ⟨collection, hlookup, hstatus, hcount⟩ := hfront.lookup_of_last hlast
    have hopen := hprogress.of_append.collecting hlast hfewer
    exact ⟨collection, hlookup, hstatus.trans hopen, hcount⟩
  · intro hrequired
    obtain ⟨last, collection, raw, final, hlast, houtcome, hlookup, hstatus⟩ :=
      hfront.closed_of_required hparsed hprogress.of_append hrequired
    refine ⟨last, collection, raw, final, hlast, houtcome, hlookup, hstatus, ?_⟩
    -- the contributions of the whole run are those of its first calls
    have hsame : contributions chain draft.txid (front ++ back) (empty module faults) =
        contributions chain draft.txid front (empty module faults) := by
      rw [contributions_append, hprogress.eq_nil_of_required hrequired, List.append_nil]
    have hwhole := (collected_after hkey hjournal).stored draft.txid
    rw [hwhole, ← hlookup, hfront.stored]
    exact congrArg (collectionFrom draft.txid key) hsame
  · intro hrequired config signer signatures
    obtain ⟨last, collection, raw, final, -, -, hlookup, hstatus⟩ :=
      hfront.closed_of_required hparsed hprogress.of_append hrequired
    have hfinal : collection.isFinalized = true := by
      rw [SignatureCollection.isFinalized, hstatus]
      rfl
    exact perform_addSignature_of_finalized hlookup hfinal config signer signatures

/-- Two of the three guards close their payment. -/
theorem council_finalized_exactly :
    (∀ request ∈ councilRequests, request.op.OnlyKey 1 councilKey) ∧
      (journal 1 councilRequests (empty [] fun _ _ => none)).Unambiguous ∧
      ∃ (record : RedeemRecord) (draft : SpendDraft),
        (after councilRequests (empty [] fun _ _ => none)).lookup (.redeem 1 councilKey) =
          some record ∧
        record.custodians.Nodup ∧ record.required = 2 ∧
        draft ∈ (journal 1 councilRequests (empty [] fun _ _ => none)).drafts ∧
        draft.txid = councilId ∧
        FinalizesExactly 1 record draft councilRequests (empty [] fun _ _ => none) := by
  obtain ⟨hjournal, -, hdrafts, hregistered⟩ := councilRequests_run
  obtain ⟨record, hrecord, hthis⟩ := (Option.any_eq_true _ _).mp hregistered
  obtain ⟨hdistinct, hrequired⟩ := of_decide_eq_true hthis
  have hmade : councilId ∈
      (journal 1 councilRequests (empty [] fun _ _ => none)).drafts.map SpendDraft.txid := by
    rw [hdrafts]
    exact List.mem_singleton_self _
  obtain ⟨draft, hdraft, hid⟩ := List.mem_map.mp hmade
  exact ⟨councilRequests_onlyKey, hjournal, record, draft, hrecord, hdistinct, hrequired, hdraft,
    hid, finalization_exact [] _ 1 councilKey councilRequests record draft councilRequests_onlyKey
      hjournal hrecord hdistinct hdraft⟩

end Bridge

end BridgeKernel
