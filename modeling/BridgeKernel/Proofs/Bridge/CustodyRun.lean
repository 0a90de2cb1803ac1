import BridgeKernel.Proofs.Bridge.Run
import BridgeKernel.Proofs.Custody.Ledger
import BridgeKernel.Proofs.Custody.Unlock
import Mathlib.Data.List.Induction

/-!
# Outputs along a run

Calls about other chains, and calls that are not about custody, leave the outputs under a custody
key alone. So a run that uses one custody key on a chain keeps all outputs apart exactly as long as
no payment pays back an output that is held already, such as one that was deposited while the
payment was still waiting for signatures.
-/

namespace BridgeKernel

open Bitcoin

variable {chain : ChainId} {key : String} {s t : State}

namespace Custody

/-! ## Calls as steps -/

/-- Writing other records moves no outputs. -/
theorem Step.of_writes {P : RecordKey → Prop} (h : s.Writes P t) (hutxo : ¬ P (.utxo chain key))
    (hstxo : ¬ P (.stxo chain key)) (hdraft : ∀ txid, ¬ P (.draft chain txid)) :
    Step chain key s t [] :=
  have hstill : Still chain key s t := .of_writes h hutxo hstxo hdraft
  .quiet hstill.spendable hstill.spent hstill.drafts hstill.waiting

theorem Step.of_untouched (h : s.Untouched t) : Step chain key s t [] :=
  .of_writes (P := fun _ => False) (.of_untouched h) id id fun _ => id

/-- A call that leaves no trace when it is refused needs to be looked at only where it succeeds. -/
theorem Step.of_atomic {ε α : Type} {x : Transition ε α} (hx : x.Atomic)
    (hok : ∀ a t, x s = (.ok a, t) → Step chain key s t []) : Step chain key s (x s).2 [] := by
  rcases hr : x s with ⟨e | a, t⟩
  · have hu := hx s t e hr
    exact .of_untouched hu
  · exact hok a t hr

theorem register_step (script : Bytes) :
    Step chain key s (register chain script s).2 [] := by
  apply Step.of_atomic (register_atomic chain script)
  intro name t h
  rcases register_ok h with hu | ⟨record, -, hfits, -, hchanged⟩
  · exact .of_untouched hu
  · have hwrites : s.Writes (· = .redeem chain record.redeemKey) t :=
      hchanged.writes_one (.store rfl (.redeem _ hfits))
    exact .of_writes hwrites nofun nofun nofun

theorem recordDeposit_step (utxo : Utxo) :
    Step chain key s (recordDeposit chain key utxo s).2 [] := by
  apply Step.of_atomic (recordDeposit_atomic chain key utxo)
  intro x t h
  exact .deposited (recordDeposit_ok h)

theorem createDraft_step (config : CustodyConfig) (payouts : List Payout) (fee : UInt64) :
    Step chain key s (createDraft config chain key payouts fee s).2 [] := by
  apply Step.of_atomic (createDraft_atomic config chain key payouts fee)
  intro draft t h
  obtain ⟨record, cost, selection, hdrafts⟩ := createDraft_ok h
  exact .drafted hdrafts

/-- The outputs of a waiting payment that pay the script of its custody key, as they are known once
the signed transaction is. -/
def paysBack (s : State) (chain : ChainId) (txid final : Hash) : List Utxo :=
  match s.lookup (α := SpendDraft) (.draft chain txid) with
  | none => []
  | some draft =>
    match s.lookup (α := RedeemRecord) (.redeem chain draft.redeemKey),
      Transaction.read draft.unsignedTx with
    | some record, .ok tx =>
      (tx.outputs.mapIdx fun vout output =>
        (⟨final, UInt32.ofNat vout, output.value, output.scriptPubkey⟩ : Utxo)).filter
          fun u => (Script.lockKind? record.redeemScript u.scriptPubkey).isSome
    | _, _ => []

/-- A contribution that does not close its payment moves no outputs, and one that does pays back
what the payment says. -/
theorem addSignature_step (signer : Custodian) (txid : Hash) (signatures : List Bytes) :
    Step chain key s (addSignature chain signer txid signatures s).2
      (match (addSignature chain signer txid signatures s).1 with
        | .ok (.finalized _ final) => paysBack s chain txid final
        | _ => []) := by
  rcases hr : addSignature chain signer txid signatures s with ⟨e | outcome, t⟩
  · exact .of_untouched (addSignature_atomic chain signer txid signatures _ _ _ hr)
  · obtain ⟨draft, record, tx, collection, hfound, hcollects | ⟨-, signed, rfl, hcloses⟩⟩ :=
      addSignature_ok hr
    · obtain ⟨-, rfl, hfits, hchanged⟩ := hcollects
      have hwrites : s.Writes (· = .multisig txid) t :=
        hchanged.writes_one (.store rfl (.multisig _ hfits))
      exact .of_writes hwrites nofun nofun nofun
    · have hpaid : paysBack s chain txid signed.txid = returned record.redeemScript signed := by
        simp only [paysBack, hfound.waiting, hfound.registered, hfound.read]
        rw [← (assemble_ok hcloses.assembled).outputs_eq]
        rfl
      dsimp only
      rw [hpaid]
      exact .closed hfound.waiting hcloses

end Custody

/-! ## Calls -/

/-- A call does not bring a second custody key to a chain. -/
def BridgeOp.OnKey (chain : ChainId) (key : String) : BridgeOp → Prop
  | .recordDeposit c k _ => c = chain → k = key
  | .createDraft c k _ _ => c = chain → k = key
  | _ => True

/-- The outputs that an answered call pays back, from the state before it. -/
def BridgeEntry.paysBack (chain : ChainId) (e : BridgeEntry) (s : State) : List Utxo :=
  match e with
  | ⟨⟨_, .addSignature c _ txid _⟩, .ok (.finalized _ final)⟩ =>
    if c = chain then Custody.paysBack s chain txid final else []
  | _ => []

theorem BridgeEntry.paysBack_addSignature (config : BridgeConfig) (c : ChainId)
    (signer : Custodian) (txid : Hash) (signatures : List Bytes)
    (x : Transition CustodyError SigningOutcome) :
    BridgeEntry.paysBack chain ⟨⟨config, .addSignature c signer txid signatures⟩,
      (x.mapError BridgeError.custody s).1⟩ s =
    if c = chain then
      match (x s).1 with
      | .ok (.finalized _ final) => Custody.paysBack s chain txid final
      | _ => []
    else [] := by
  unfold Transition.mapError
  rcases x s with ⟨e | (_ | _), t⟩
  · exact (ite_self _).symm
  · exact (ite_self _).symm
  · rfl

/-- A call is a step of custody. -/
theorem BridgeRequest.perform_custody (request : BridgeRequest) (bridge : Bridge)
    (hkey : request.op.OnKey chain key) :
    Custody.Step chain key bridge.state (request.perform bridge).2.state
      (BridgeEntry.paysBack chain ⟨request, (request.perform bridge).1⟩ bridge.state) := by
  have hwrites := request.perform_writes bridge
  obtain ⟨config, op⟩ := request
  cases op with
  | registerRedeem c script =>
    by_cases hc : c = chain
    · subst hc
      change Custody.Step c key _ (Bridge.registerRedeem c script bridge).2.state []
      rw [Bridge.registerRedeem, Bridge.call_state]
      exact Custody.register_step script
    · exact .of_writes hwrites (Ne.symm hc) (Ne.symm hc) fun _ => Ne.symm hc
  | recordDeposit c k utxo =>
    by_cases hc : c = chain
    · subst hc
      obtain rfl := hkey rfl
      change Custody.Step c k _ (Bridge.recordDeposit c k utxo bridge).2.state []
      rw [Bridge.recordDeposit, Bridge.call_state]
      exact Custody.recordDeposit_step utxo
    · exact .of_writes hwrites (Ne.symm hc) (Ne.symm hc) fun _ => Ne.symm hc
  | createDraft c k payouts fee =>
    by_cases hc : c = chain
    · subst hc
      obtain rfl := hkey rfl
      change Custody.Step c k _ (Bridge.createDraft config c k payouts fee bridge).2.state []
      rw [Bridge.createDraft, Bridge.call_state]
      exact Custody.createDraft_step config.custody payouts fee
    · exact .of_writes hwrites (Ne.symm hc) (Ne.symm hc) fun _ => Ne.symm hc
  | addSignature c signer txid signatures =>
    change Custody.Step chain key bridge.state
      ((Custody.addSignature c signer txid signatures).mapError BridgeError.custody bridge.state).2
      (BridgeEntry.paysBack chain ⟨⟨config, .addSignature c signer txid signatures⟩,
        ((Custody.addSignature c signer txid signatures).mapError
          BridgeError.custody bridge.state).1⟩ bridge.state)
    by_cases hc : c = chain
    · subst hc
      have hstep : Custody.Step c key bridge.state _ _ :=
        Custody.addSignature_step signer txid signatures
      rw [Transition.mapError_snd, BridgeEntry.paysBack_addSignature, if_pos rfl]
      exact hstep
    · rw [BridgeEntry.paysBack_addSignature, if_neg hc]
      exact .of_writes hwrites (Ne.symm hc) (Ne.symm hc) fun _ => Ne.symm hc
  | propose => exact .of_writes hwrites nofun nofun nofun
  | isApplied => exact .of_writes hwrites nofun nofun nofun
  | syncGenesis | syncBatch | syncHeaders => exact .of_writes hwrites nofun nofun nofun
  | installCommittee | rotateCommittee => exact .of_writes hwrites nofun nofun nofun

/-- There is a custody key besides which a call brings none to a chain. -/
theorem BridgeOp.exists_onKey (op : BridgeOp) (chain : ChainId) : ∃ key, op.OnKey chain key := by
  cases op with
  | recordDeposit _ key _ => exact ⟨key, fun _ => rfl⟩
  | createDraft _ key _ _ => exact ⟨key, fun _ => rfl⟩
  | _ => exact ⟨"", trivial⟩

namespace Bridge

/-- After every run all payments that wait stand under their ids. -/
theorem draftsNamed_after {module : Bytes} {faults : Nat → StoreOp → Option StoreFault}
    (requests : List BridgeRequest) (chain : ChainId) :
    (after requests (empty module faults)).DraftsNamed chain := by
  refine run_induction (I := fun s => s.DraftsNamed chain) (fun request _ b hb => ?_) ?_
  · obtain ⟨key, hkey⟩ := request.op.exists_onKey chain
    exact (request.perform_custody b hkey).draftsNamed hb
  · intro txid draft hdraft
    exact nomatch hdraft

/-- After a run on one custody key all payments that wait stand under their ids, on that key. -/
theorem draftsOn_after {module : Bytes} {faults : Nat → StoreOp → Option StoreFault}
    {requests : List BridgeRequest} (hkey : ∀ request ∈ requests, request.op.OnKey chain key) :
    (after requests (empty module faults)).DraftsOn chain key := by
  refine run_induction (I := fun s => s.DraftsOn chain key) (fun request hr b hb => ?_) ?_
  · exact (request.perform_custody b (hkey request hr)).draftsOn hb
  · intro txid draft hdraft
    exact nomatch hdraft

/-- The outputs that a call pays back when it is made after others. -/
def paidAfter (chain : ChainId) (front : List BridgeRequest) (request : BridgeRequest)
    (bridge : Bridge) : List (Hash × UInt32) :=
  (BridgeEntry.paysBack chain ⟨request, (request.perform (run front bridge).2).1⟩
    (after front bridge)).map Utxo.outpoint

/-- One more call keeps all outputs apart exactly when it pays back new ones, each once. -/
theorem outpoints_snoc_iff {module : Bytes} {faults : Nat → StoreOp → Option StoreFault}
    {front : List BridgeRequest} {request : BridgeRequest}
    (hfront : ∀ r ∈ front, r.op.OnKey chain key) (hkey : request.op.OnKey chain key)
    (hs : ((after front (empty module faults)).outpoints chain key).Nodup) :
    ((after (front ++ [request]) (empty module faults)).outpoints chain key).Nodup ↔
      (paidAfter chain front request (empty module faults)).Nodup ∧
        ∀ p ∈ paidAfter chain front request (empty module faults),
          p ∉ (after front (empty module faults)).outpoints chain key := by
  have hstep := request.perform_custody (run front (empty module faults)).2 hkey
  rw [after_append]
  exact hstep.outpoints_nodup_iff (draftsOn_after hfront) hs

/-- In a run on one custody key every output stands once among the spendable, the reserved and the
spent ones after every call, exactly when no call pays back an output twice or one that is held
already. -/
theorem outputs_held_once_iff (module : Bytes) (faults : Nat → StoreOp → Option StoreFault)
    (chain : ChainId) (key : String) (requests : List BridgeRequest)
    (hkey : ∀ request ∈ requests, request.op.OnKey chain key) :
    (∀ front back, requests = front ++ back →
      ((after front (empty module faults)).outpoints chain key).Nodup) ↔
    ∀ front request back, requests = front ++ request :: back →
      (paidAfter chain front request (empty module faults)).Nodup ∧
        ∀ p ∈ paidAfter chain front request (empty module faults),
          p ∉ (after front (empty module faults)).outpoints chain key := by
  constructor
  · rintro h front request back rfl
    have hfront : ∀ r ∈ front, r.op.OnKey chain key :=
      fun r hr => hkey r (List.mem_append_left _ hr)
    have hrequest : request.op.OnKey chain key :=
      hkey request (List.mem_append_right _ List.mem_cons_self)
    have hbefore := h front (request :: back) rfl
    have hafter := h (front ++ [request]) back (List.append_cons front request back)
    exact (outpoints_snoc_iff hfront hrequest hbefore).mp hafter
  · intro h front
    -- the induction adds calls at the end, as a run does
    induction front using List.reverseRecOn with
    | nil =>
      intro back _
      exact List.nodup_nil
    | append_singleton front request ih =>
      intro back hr
      have hsplit : requests = front ++ request :: back := by
        rw [hr, ← List.append_cons]
      have hfront : ∀ r ∈ front, r.op.OnKey chain key :=
        fun r hr => hkey r (hsplit ▸ List.mem_append_left _ hr)
      have hrequest : request.op.OnKey chain key :=
        hkey request (hsplit ▸ List.mem_append_right _ List.mem_cons_self)
      have hbefore := ih (request :: back) hsplit
      exact (outpoints_snoc_iff hfront hrequest hbefore).mpr (h front request back hsplit)

/-! ## Change that is deposited early -/

/-- The custody script of one guard, who signs alone. -/
def soleScript : Bytes :=
  .ofNatBE 37 0x51210279be667ef9dcbbac55a06295ce870b07029bfcdb2dce28d959f2815b16f8179851ae

/-- The custody key of the script. -/
def soleKey : String := "83eebb7d79aa1d388e3b0ac65b98ac580c4da01a"

/-- What locks an output to the script. -/
def soleLock : Bytes :=
  .ofNatBE 34 0x002028205333db922f66e8a941b4a32d66de5cea03d9cda46e3e6658935272b9b24f

/-- The guard. -/
def soleGuard : Custodian := .ofNatBE 20 0x751e76e8199196d454941c45d1b3a323f1433bd6

/-- The only output that is deposited before the payment. -/
def soleCoin : Utxo where
  txid := .ofNatBE 32 0x1111111111111111111111111111111111111111111111111111111111111111
  vout := 0
  value := 100000
  scriptPubkey := soleLock

/-- The payment that spends it. -/
def earlyId : Hash :=
  .ofNatBE 32 0xb565afae8ceb597f2ec896abdfc4f2920cabfd0d6f05b600e3f8bb454e3a2ec2

/-- The change of the payment. -/
def earlyUtxo : Utxo := ⟨earlyId, 1, 49000, soleLock⟩

/-- The guard's signature of the payment. -/
def earlySignature : Bytes :=
  Bytes.ofNatBE 36 0x3045022100fdb9e0945d20b12d052aab1349f13dfcbdf8c87d6f1d54a86e21a68581b371 ++
  Bytes.ofNatBE 36 0x040220188320adaef54251ec59029882116cad56bf7b6a278c8b17bb870fc3547445b701

/-- Calls that make a payment, deposit its change while no one has signed, make a second payment
from the change, and close the first one. -/
def earlyRequests : List BridgeRequest := [
  ⟨.trial, .registerRedeem 1 soleScript⟩,
  ⟨.trial, .recordDeposit 1 soleKey soleCoin⟩,
  ⟨.trial, .createDraft 1 soleKey [⟨[0x00, 0x14, 0xaa, 0xbb], 50000⟩] 1000⟩,
  ⟨.trial, .recordDeposit 1 soleKey earlyUtxo⟩,
  ⟨.trial, .createDraft 1 soleKey [⟨[0x00, 0x14, 0xaa, 0xbb], 20000⟩] 1000⟩,
  ⟨.trial, .addSignature 1 soleGuard earlyId [earlySignature]⟩]

theorem earlyRequests_onKey : ∀ request ∈ earlyRequests, request.op.OnKey 1 soleKey := by
  simp [earlyRequests, BridgeOp.OnKey]

theorem earlyRequests_outputs :
    ((after earlyRequests (empty [] fun _ _ => none)).spendable 1 soleKey,
      (after earlyRequests (empty [] fun _ _ => none)).reserved 1) =
      ([earlyUtxo], [earlyUtxo]) := by
  decide +kernel

theorem earlyRequests_not_nodup :
    ¬ ((after earlyRequests (empty [] fun _ _ => none)).outpoints 1 soleKey).Nodup := by
  intro h
  obtain ⟨hspendable, hreserved⟩ := Prod.mk.inj earlyRequests_outputs
  refine State.spendable_not_reserved h (u := earlyUtxo) (v := earlyUtxo) ?_ ?_ rfl
  · rw [hspendable]
    exact List.mem_singleton_self _
  · rw [hreserved]
    exact List.mem_singleton_self _

/-- Calls on one custody key can leave an output spendable that a payment has reserved. -/
theorem early_change_held_twice :
    (∀ request ∈ earlyRequests, request.op.OnKey 1 soleKey) ∧
      ¬ ((after earlyRequests (empty [] fun _ _ => none)).outpoints 1 soleKey).Nodup :=
  ⟨earlyRequests_onKey, earlyRequests_not_nodup⟩

/-- In this run some call pays back an output that is held already. -/
theorem early_change_paid_back :
    (∀ request ∈ earlyRequests, request.op.OnKey 1 soleKey) ∧
      ¬ ∀ front request back, earlyRequests = front ++ request :: back →
        (paidAfter 1 front request (empty [] fun _ _ => none)).Nodup ∧
          ∀ p ∈ paidAfter 1 front request (empty [] fun _ _ => none),
            p ∉ (after front (empty [] fun _ _ => none)).outpoints 1 soleKey := by
  have hiff := outputs_held_once_iff [] (fun _ _ => none) 1 soleKey earlyRequests
    earlyRequests_onKey
  refine ⟨earlyRequests_onKey, fun hpaid => earlyRequests_not_nodup ?_⟩
  exact hiff.mpr hpaid earlyRequests [] (List.append_nil _).symm

end Bridge

end BridgeKernel
