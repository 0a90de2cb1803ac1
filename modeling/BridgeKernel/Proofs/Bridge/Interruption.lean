import BridgeKernel.Proofs.Bridge.HeaderRun
import BridgeKernel.Proofs.Committee.Succession
import BridgeKernel.Proofs.Header.Interruption

/-!
# Calls that meet a failure

The store may fail at any operation of a call. A call that writes at most once leaves no trace when
it is refused, and a batch of headers leaves the headers before its stop, each in whole. Proposals
are not spoken of here.
-/

namespace BridgeKernel

/-- A call that writes at most once, in a single write or batch. -/
def BridgeOp.WritesOnce : BridgeOp → Prop
  | .propose .. | .syncBatch .. | .syncHeaders .. => False
  | _ => True

namespace Bridge

variable {ε α : Type} {bridge b : Bridge} {e : BridgeError}

/-- A call whose transition has no effect when refused has none. -/
theorem counting_refused {count : Counters → Except BridgeError α → Counters}
    {x : Transition BridgeError α} (hx : x.Atomic) (h : counting count x bridge = (.error e, b)) :
    bridge.state.Untouched b.state := by
  unfold counting at h
  rcases hr : x bridge.state with ⟨r, t⟩
  rw [hr] at h
  cases h
  exact hx _ _ _ hr

theorem call_refused {f : ε → BridgeError} {x : Transition ε α} (hx : x.Atomic)
    (h : call f x bridge = (.error e, b)) : bridge.state.Untouched b.state :=
  counting_refused (.mapError hx f) h

end Bridge

/-- A call that writes at most once leaves no trace when it is refused. -/
theorem BridgeRequest.perform_refused {request : BridgeRequest} {bridge b : Bridge}
    {e : BridgeError} (hop : request.op.WritesOnce)
    (h : request.perform bridge = (.error e, b)) : bridge.state.Untouched b.state := by
  obtain ⟨config, op⟩ := request
  cases op with
  | propose | syncBatch | syncHeaders => exact hop.elim
  | isApplied chain id =>
    exact Bridge.call_refused (Replay.isApplied_readOnly chain id).atomic h
  | syncGenesis chain header prior =>
    exact Bridge.call_refused
      (LightClient.setGenesis_atomic config.headerSync chain header prior) h
  | installCommittee chain committee =>
    exact Bridge.call_refused (CommitteeStore.install_atomic chain committee) h
  | rotateCommittee chain message =>
    exact Bridge.call_refused (CommitteeStore.rotate_atomic chain message) h
  | registerRedeem chain script =>
    exact Bridge.call_refused (Custody.register_atomic chain script) h
  | recordDeposit chain key utxo =>
    exact Bridge.call_refused (Custody.recordDeposit_atomic chain key utxo) h
  | createDraft chain key payouts fee =>
    exact Bridge.call_refused (Custody.createDraft_atomic config.custody chain key payouts fee) h
  | addSignature chain signer txid signatures =>
    exact Bridge.counting_refused
      (.mapError (Custody.addSignature_atomic chain signer txid signatures) _) h

namespace Bridge

open LightClient (StopsAfter)

/-- A batch through the bridge stops as a batch does. -/
theorem syncBatch_stopsAfter (config : BridgeConfig) (ctx : BlockContext) (chain : ChainId)
    (headers : List Header) (bridge : Bridge) :
    ∃ answer k, (syncBatch config ctx chain headers bridge).1 = answer.mapError .header ∧
      StopsAfter config.headerSync ctx chain headers bridge.state answer
        (syncBatch config ctx chain headers bridge).2.state k := by
  rcases hr : LightClient.syncBatch config.headerSync ctx chain headers bridge.state with
    ⟨answer, t⟩
  obtain ⟨k, hk⟩ := LightClient.syncBatch_stopsAfter hr
  refine ⟨answer, k, ?_, ?_⟩
  · change ((LightClient.syncBatch config.headerSync ctx chain headers).mapError
      BridgeError.header bridge.state).1 = _
    rw [Transition.mapError_run, hr]
  · rw [syncBatch_state, hr]
    exact hk

/-- On every state and under every schedule of failures, a call that writes at most once leaves the
store as it was when it is refused, and a batch of headers, whatever its answer, leaves what the
headers before its stop bring, each stored in whole or left alone. -/
theorem refused_without_trace (config : BridgeConfig) (bridge : Bridge) :
    (∀ op : BridgeOp, op.WritesOnce → ∀ e b,
      BridgeRequest.perform ⟨config, op⟩ bridge = (.error e, b) →
        bridge.state.Untouched b.state) ∧
    ∀ ctx chain headers,
      (∃ answer k, (syncBatch config ctx chain headers bridge).1 = answer.mapError .header ∧
        StopsAfter config.headerSync ctx chain headers bridge.state answer
          (syncBatch config ctx chain headers bridge).2.state k) ∧
      (syncHeaders config ctx chain headers bridge).2.state =
        (syncBatch config ctx chain headers bridge).2.state := by
  refine ⟨fun op hop e b h => BridgeRequest.perform_refused hop h, fun ctx chain headers => ?_⟩
  exact ⟨syncBatch_stopsAfter config ctx chain headers bridge,
    syncHeaders_state config ctx chain headers bridge⟩

/-! ## A store that stops writing -/

/-- A schedule under which no batch is written from the third operation on. -/
def fullDisk (clock : Nat) (op : StoreOp) : Option StoreFault :=
  if 2 ≤ clock ∧ op = .batch then some (.io "disk full") else none

/-- The bridge on such a store, after the short chain has begun. -/
def fullBridge : Bridge := (run (shortRequests.take 1) (empty [] fullDisk)).2

/-- The short chain cannot begin under another chain id, and its second header is not stored; both
calls meet the failure at their write. -/
theorem full_disk_without_trace :
    (syncGenesis .trial 3 shortGenesis [] fullBridge).1 =
        .error (.header (.storage (.database (.io "disk full")))) ∧
      fullBridge.state.Untouched (syncGenesis .trial 3 shortGenesis [] fullBridge).2.state ∧
      (syncBatch .trial ⟨5, 500⟩ 2 [shortGenesis, shortChild] fullBridge).1 =
        .error (.header (.storage (.database (.io "disk full")))) ∧
      ∃ answer k, (syncBatch .trial ⟨5, 500⟩ 2 [shortGenesis, shortChild] fullBridge).1 =
          answer.mapError .header ∧
        StopsAfter .trial ⟨5, 500⟩ 2 [shortGenesis, shortChild] fullBridge.state answer
          (syncBatch .trial ⟨5, 500⟩ 2 [shortGenesis, shortChild] fullBridge).2.state k := by
  obtain ⟨hrefused, hbatch⟩ := refused_without_trace .trial fullBridge
  have hgenesis : (syncGenesis .trial 3 shortGenesis [] fullBridge).1 =
      .error (.header (.storage (.database (.io "disk full")))) := by decide +kernel
  have hfailed : (syncBatch .trial ⟨5, 500⟩ 2 [shortGenesis, shortChild] fullBridge).1 =
      .error (.header (.storage (.database (.io "disk full")))) := by decide +kernel
  have hsame := hrefused (.syncGenesis 3 shortGenesis []) trivial _
    (syncGenesis .trial 3 shortGenesis [] fullBridge).2 (Prod.ext hgenesis rfl)
  exact ⟨hgenesis, hsame, hfailed, (hbatch ⟨5, 500⟩ 2 [shortGenesis, shortChild]).1⟩

end Bridge

end BridgeKernel
