import BridgeKernel.Proofs.Bridge.CustodyIsolation
import BridgeKernel.Proofs.Custody.Conservation

/-!
# The journal of a run

The accepted calls about custody on a chain, as they stand in the history of a run, make its
journal. In every run on one chain and one custody key whose journal tells transactions apart, what
was deposited is accounted for after every call.
-/

namespace BridgeKernel

open Custody

variable {chain : ChainId} {key : String}

/-- A call is about custody on no other chain and brings no second custody key to this one. -/
def BridgeOp.OnlyKey (chain : ChainId) (key : String) (op : BridgeOp) : Prop :=
  op.OnKey chain key ∧ ∀ c, op.custodyChain? = some c → c = chain

/-- What an answered call adds to the journal of a chain. -/
def BridgeEntry.journal (chain : ChainId) : BridgeEntry → Journal
  | ⟨⟨_, .recordDeposit c _ utxo⟩, .ok _⟩ => if c = chain then [.deposited utxo] else []
  | ⟨⟨_, .createDraft c _ _ _⟩, .ok draft⟩ => if c = chain then [.drafted draft] else []
  | ⟨⟨_, .addSignature c signer txid signatures⟩, .ok outcome⟩ =>
    if c = chain then [.signed txid ⟨signer, signatures, outcome⟩] else []
  | _ => []

/-- A refused call has no entry, so a call needs to be looked at only where it succeeds. -/
theorem Custody.Call.of_atomic {α : Type} {x : Transition CustodyError α} {s : State}
    (entry : Except BridgeError α → Journal) (hx : x.Atomic) (herror : ∀ e, entry (.error e) = [])
    (hok : ∀ a t, x s = (.ok a, t) → Call chain key s t (entry (.ok a))) :
    Call chain key s (x.mapError BridgeError.custody s).2
      (entry (x.mapError BridgeError.custody s).1) := by
  rcases hr : x s with ⟨e | a, t⟩
  · have hu := hx s t e hr
    simp only [Transition.mapError, hr, herror]
    exact .of_untouched hu
  · simp only [Transition.mapError, hr]
    exact hok a t hr

/-- A call of the bridge is a call of custody. -/
theorem BridgeRequest.perform_call (request : BridgeRequest) (bridge : Bridge)
    (hkey : request.op.OnlyKey chain key) :
    Call chain key bridge.state (request.perform bridge).2.state
      (BridgeEntry.journal chain ⟨request, (request.perform bridge).1⟩) := by
  cases hop : request.op.custodyChain? with
  | none =>
    obtain ⟨Q, hwrites, hspared⟩ := request.perform_spares hop bridge
    have hentry : BridgeEntry.journal chain ⟨request, (request.perform bridge).1⟩ = [] := by
      obtain ⟨config, op⟩ := request
      cases op with
      | registerRedeem | recordDeposit | createDraft | addSignature => cases hop
      | _ => rfl
    rw [hentry]
    exact .quiet hwrites fun record hQ hcustody => hspared record hQ hcustody.custodyOf
  | some c =>
    obtain rfl := hkey.2 c hop
    obtain ⟨config, op⟩ := request
    cases op with
    | registerRedeem c script =>
      obtain rfl := Option.some.inj hop
      refine Call.of_atomic
        (fun answer => BridgeEntry.journal c ⟨⟨config, .registerRedeem c script⟩, answer⟩)
        (register_atomic c script) (fun _ => rfl) fun name t h => ?_
      exact register_call h
    | recordDeposit c k utxo =>
      obtain rfl := Option.some.inj hop
      obtain rfl := hkey.1 rfl
      refine Call.of_atomic
        (fun answer => BridgeEntry.journal c ⟨⟨config, .recordDeposit c k utxo⟩, answer⟩)
        (recordDeposit_atomic c k utxo) (fun _ => rfl) fun _ t h => ?_
      rw [BridgeEntry.journal, if_pos rfl]
      exact .deposited (recordDeposit_ok h)
    | createDraft c k payouts fee =>
      obtain rfl := Option.some.inj hop
      obtain rfl := hkey.1 rfl
      refine Call.of_atomic
        (fun answer => BridgeEntry.journal c ⟨⟨config, .createDraft c k payouts fee⟩, answer⟩)
        (createDraft_atomic config.custody c k payouts fee) (fun _ => rfl) fun draft t h => ?_
      rw [BridgeEntry.journal, if_pos rfl]
      exact createDraft_call h
    | addSignature c signer txid signatures =>
      obtain rfl := Option.some.inj hop
      refine Call.of_atomic
        (fun answer =>
          BridgeEntry.journal c ⟨⟨config, .addSignature c signer txid signatures⟩, answer⟩)
        (addSignature_atomic c signer txid signatures) (fun _ => rfl) fun outcome t h => ?_
      rw [BridgeEntry.journal, if_pos rfl]
      exact addSignature_call h
    | _ => cases hop

namespace Bridge

/-- The journal of a chain after calls. -/
def journal (chain : ChainId) (requests : List BridgeRequest) (bridge : Bridge) : Journal :=
  (history requests bridge).flatMap (BridgeEntry.journal chain)

theorem journal_append (front back : List BridgeRequest) (bridge : Bridge) :
    journal chain (front ++ back) bridge =
      journal chain front bridge ++ journal chain back (run front bridge).2 := by
  rw [journal, history, run_append, List.flatMap_append]
  rfl

/-- A run on one chain and one custody key makes calls of custody. -/
theorem calls_after {requests : List BridgeRequest} (bridge : Bridge)
    (hkey : ∀ request ∈ requests, request.op.OnlyKey chain key) :
    Calls chain key bridge.state (journal chain requests bridge) (after requests bridge) := by
  induction requests using List.reverseRecOn with
  | nil => exact .none
  | append_singleton front request ih =>
    have hbefore := ih fun r hr => hkey r (List.mem_append_left _ hr)
    have hrequest := hkey request (List.mem_append_right _ List.mem_cons_self)
    have hcall := request.perform_call (run front bridge).2 hrequest
    rw [journal_append, after_append]
    have hone : journal chain [request] (run front bridge).2 =
        BridgeEntry.journal chain ⟨request, (request.perform (run front bridge).2).1⟩ :=
      List.append_nil _
    rw [hone]
    exact hbefore.more hcall

/-- The value of custody is conserved. After every call of a run on one chain and one custody key
whose journal tells transactions apart, the accepted deposits are worth what is spendable, what is
reserved by payments that wait, what the signed transactions pay to others, and the fees of the
closed payments. -/
theorem custody_value_conserved (module : Bytes) (faults : Nat → StoreOp → Option StoreFault)
    (chain : ChainId) (key : String) (requests : List BridgeRequest)
    (hkey : ∀ request ∈ requests, request.op.OnlyKey chain key)
    (hjournal : (journal chain requests (empty module faults)).Unambiguous)
    (front back : List BridgeRequest) (hsplit : requests = front ++ back) :
    worth (journal chain front (empty module faults)).deposits =
      worth ((after front (empty module faults)).spendable chain key) +
        worth ((after front (empty module faults)).reserved chain) +
        paidWorth ((journal chain front (empty module faults)).paidOut
          ((after front (empty module faults)).script chain key)) +
        (journal chain front (empty module faults)).fees := by
  subst hsplit
  rw [journal_append] at hjournal
  have hfront : ∀ request ∈ front, request.op.OnlyKey chain key :=
    fun request hr => hkey request (List.mem_append_left back hr)
  exact (calls_after (empty module faults) hfront).balanced hjournal.of_append

/-! ## A payment of two out of three guards -/

/-- The custody script of three guards, two of whom must sign. -/
def councilScript : Bytes :=
  [0x52, 0x21] ++
  Bytes.ofNatBE 33 0x0279be667ef9dcbbac55a06295ce870b07029bfcdb2dce28d959f2815b16f81798 ++ [0x21] ++
  Bytes.ofNatBE 33 0x02c6047f9441ed7d6d3045406e95c07cd85c778e4b8cef3ca7abac09b95c709ee5 ++ [0x21] ++
  Bytes.ofNatBE 33 0x02f9308a019258c31049344f85f89d5229b531c845836f99b08601f113bce036f9 ++
    [0x53, 0xae]

/-- The custody key of the script. -/
def councilKey : String := "15fc0754e73eb85d1cbce08786fadb7320ecb8dc"

/-- The third guard. -/
def thirdGuard : Custodian := .ofNatBE 20 0x7dd65592d0ab2fe0d0257d571abf032cd9db93dc

/-- An output that is locked by the script. -/
def councilCoin : Utxo where
  txid := .ofNatBE 32 0x1111111111111111111111111111111111111111111111111111111111111111
  vout := 0
  value := 100000
  scriptPubkey := .ofNatBE 23 0xa91415fc0754e73eb85d1cbce08786fadb7320ecb8dc87

/-- The payment that spends it. -/
def councilId : Hash :=
  .ofNatBE 32 0x339a51754d585bf25ebb97da9d0b6c31693d41949bf0589a7bb38dc465096155

/-- The first guard's signature of the payment. -/
def firstSignature : Bytes :=
  Bytes.ofNatBE 36 0x3045022100cd07c5cebbf78bd5139b6f63fac1017791ae4e0dc5bf1651e2befa68e961c9 ++
  Bytes.ofNatBE 36 0x9f02206c1ef26a70631f09f2595332b911376d770d8c1dd0008f34a373407c2a5b721d01

/-- The third guard's signature of the payment. -/
def thirdSignature : Bytes :=
  Bytes.ofNatBE 36 0x3045022100cc63a65ee3cfb6f826c5a273873bda2623aef21fdd2bf46acbe747c218c13e ++
  Bytes.ofNatBE 36 0x1b02201270760428bd6cbb15d27b9efc0cd27d65cc7b6d2d1449d029f2fbb2660ea0c801

/-- The third guard signs before the first one. The change is known under the id of the signed
transaction, which is not that of the unsigned one. -/
def councilRequests : List BridgeRequest := [
  ⟨.trial, .registerRedeem 1 councilScript⟩,
  ⟨.trial, .recordDeposit 1 councilKey councilCoin⟩,
  ⟨.trial, .createDraft 1 councilKey [⟨[0x00, 0x14, 0xaa, 0xbb], 50000⟩] 1000⟩,
  ⟨.trial, .addSignature 1 thirdGuard councilId [thirdSignature]⟩,
  ⟨.trial, .addSignature 1 soleGuard councilId [firstSignature]⟩]

theorem councilRequests_onlyKey :
    ∀ request ∈ councilRequests, request.op.OnlyKey 1 councilKey := by
  simp [councilRequests, BridgeOp.OnlyKey, BridgeOp.OnKey, BridgeOp.custodyChain?]

/-- The run tells its transactions apart, and closes a payment of the script of the guards. -/
theorem councilRequests_run :
    (journal 1 councilRequests (empty [] fun _ _ => none)).Unambiguous ∧
      (journal 1 councilRequests (empty [] fun _ _ => none)).fees = 1000 ∧
      (journal 1 councilRequests (empty [] fun _ _ => none)).drafts.map SpendDraft.txid =
        [councilId] ∧
      ((after councilRequests (empty [] fun _ _ => none)).lookup (.redeem 1 councilKey)).any
        (fun record : RedeemRecord => record.custodians.Nodup ∧ record.required = 2) = true := by
  decide +kernel

/-- The deposit has gone to the change, to the payment, and to its fee. -/
theorem council_value_conserved :
    (∀ request ∈ councilRequests, request.op.OnlyKey 1 councilKey) ∧
      (journal 1 councilRequests (empty [] fun _ _ => none)).Unambiguous ∧
      worth (journal 1 councilRequests (empty [] fun _ _ => none)).deposits =
        worth ((after councilRequests (empty [] fun _ _ => none)).spendable 1 councilKey) +
          worth ((after councilRequests (empty [] fun _ _ => none)).reserved 1) +
          paidWorth ((journal 1 councilRequests (empty [] fun _ _ => none)).paidOut
            ((after councilRequests (empty [] fun _ _ => none)).script 1 councilKey)) +
          1000 := by
  obtain ⟨hjournal, hfees, -⟩ := councilRequests_run
  refine ⟨councilRequests_onlyKey, hjournal, ?_⟩
  rw [← hfees]
  exact custody_value_conserved [] _ 1 councilKey councilRequests councilRequests_onlyKey hjournal
    councilRequests [] (List.append_nil _).symm

end Bridge

end BridgeKernel
