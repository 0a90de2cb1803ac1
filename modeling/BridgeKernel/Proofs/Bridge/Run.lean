import BridgeKernel.Bridge.Calls
import BridgeKernel.Proofs.Claim.Proposal
import BridgeKernel.Proofs.Custody.Steps
import BridgeKernel.Proofs.Header.Sync

/-!
# Runs of the bridge

A run makes calls one after another on a store that begins empty, under any schedule of failures.
Its history keeps every call with its answer. Settings come with each call, so a law about all runs
holds across changes of settings, and a law about fixed settings says so.
-/

namespace BridgeKernel

/-- A call that a host may make. -/
inductive BridgeOp where
  /-- Proposes a claim about a chain. -/
  | propose (ctx : BlockContext) (sideChain? : SideChainLookup) (epochAt : EpochLookup)
    (chain : ChainId) (claim : DepositClaim)
  /-- Asks whether an id was admitted. -/
  | isApplied (chain : ChainId) (id : Bytes)
  /-- Begins a chain. -/
  | syncGenesis (chain : ChainId) (header : Header) (prior : List Address)
  /-- Brings headers, up to the first refused one. -/
  | syncBatch (ctx : BlockContext) (chain : ChainId) (headers : List Header)
  /-- Brings headers, none of which may be refused. -/
  | syncHeaders (ctx : BlockContext) (chain : ChainId) (headers : List Header)
  /-- Installs a first committee. -/
  | installCommittee (chain : ChainId) (committee : Committee)
  /-- Replaces a committee. -/
  | rotateCommittee (chain : ChainId) (message : Bytes)
  /-- Registers a custody script. -/
  | registerRedeem (chain : ChainId) (script : Bytes)
  /-- Adds a deposited output. -/
  | recordDeposit (chain : ChainId) (key : String) (utxo : Utxo)
  /-- Makes a payment. -/
  | createDraft (chain : ChainId) (key : String) (payouts : List Payout) (fee : UInt64)
  /-- Records a custodian's signatures. -/
  | addSignature (chain : ChainId) (signer : Custodian) (txid : Hash) (signatures : List Bytes)

/-- What a call brings when it is not refused. -/
def BridgeOp.Result : BridgeOp → Type
  | .propose .. => Option Instruction
  | .isApplied .. => Bool
  | .syncGenesis .. => Unit
  | .syncBatch .. => BatchOutcome
  | .syncHeaders .. => SyncReport
  | .installCommittee .. => Unit
  | .rotateCommittee .. => Committee
  | .registerRedeem .. => String
  | .recordDeposit .. => Unit
  | .createDraft .. => SpendDraft
  | .addSignature .. => SigningOutcome

/-- A call together with the settings under which it is made. -/
structure BridgeRequest where
  /-- The settings. -/
  config : BridgeConfig
  /-- The call. -/
  op : BridgeOp

/-- Makes a call. -/
def BridgeRequest.perform (request : BridgeRequest) : BridgeCall request.op.Result :=
  match request.op with
  | .propose ctx sideChain? epochAt chain claim =>
    Bridge.propose request.config ctx sideChain? epochAt chain claim
  | .isApplied chain id => Bridge.isApplied chain id
  | .syncGenesis chain header prior => Bridge.syncGenesis request.config chain header prior
  | .syncBatch ctx chain headers => Bridge.syncBatch request.config ctx chain headers
  | .syncHeaders ctx chain headers => Bridge.syncHeaders request.config ctx chain headers
  | .installCommittee chain committee => Bridge.installCommittee chain committee
  | .rotateCommittee chain message => Bridge.rotateCommittee chain message
  | .registerRedeem chain script => Bridge.registerRedeem chain script
  | .recordDeposit chain key utxo => Bridge.recordDeposit chain key utxo
  | .createDraft chain key payouts fee =>
    Bridge.createDraft request.config chain key payouts fee
  | .addSignature chain signer txid signatures =>
    Bridge.addSignature chain signer txid signatures

/-- A call with its answer. -/
structure BridgeEntry where
  /-- The call. -/
  request : BridgeRequest
  /-- What it brought, or why it was refused. -/
  answer : Except BridgeError request.op.Result

namespace Bridge

/-- A bridge on an empty store, under a schedule of failures. -/
def empty (module : Bytes) (faults : Nat → StoreOp → Option StoreFault) : Bridge :=
  ⟨⟨module, .empty, faults, 0⟩, .zero⟩

/-- Makes calls one after another. -/
def run : List BridgeRequest → Bridge → List BridgeEntry × Bridge
  | [], bridge => ([], bridge)
  | request :: rest, bridge =>
    let done := request.perform bridge
    let later := run rest done.2
    (⟨request, done.1⟩ :: later.1, later.2)

/-- What calls were answered. -/
def history (requests : List BridgeRequest) (bridge : Bridge) : List BridgeEntry :=
  (run requests bridge).1

/-- The state after calls. -/
def after (requests : List BridgeRequest) (bridge : Bridge) : State :=
  (run requests bridge).2.state

theorem run_append (front back : List BridgeRequest) (bridge : Bridge) :
    run (front ++ back) bridge =
      ((run front bridge).1 ++ (run back (run front bridge).2).1,
        (run back (run front bridge).2).2) := by
  induction front generalizing bridge with
  | nil => rfl
  | cons request front ih =>
    rw [List.cons_append, run, ih]
    rfl

theorem after_append (front back : List BridgeRequest) (bridge : Bridge) :
    after (front ++ back) bridge = after back (run front bridge).2 := by
  rw [after, run_append, after]

/-- A call made after others, with its answer. -/
def entryAfter (requests : List BridgeRequest) (request : BridgeRequest) (bridge : Bridge) :
    BridgeEntry :=
  ⟨request, (request.perform (run requests bridge).2).1⟩

theorem history_snoc (requests : List BridgeRequest) (request : BridgeRequest) (bridge : Bridge) :
    history (requests ++ [request]) bridge =
      history requests bridge ++ [entryAfter requests request bridge] := by
  rw [history, run_append]
  rfl

/-- One more call adds what is to be told about its answer. -/
theorem filterMap_history_snoc {γ : Type} (f : BridgeEntry → Option γ)
    (requests : List BridgeRequest) (request : BridgeRequest) (bridge : Bridge) :
    (history (requests ++ [request]) bridge).filterMap f =
      (history requests bridge).filterMap f ++ (f (entryAfter requests request bridge)).toList := by
  rw [history_snoc, List.filterMap_append]
  cases h : f (entryAfter requests request bridge) <;> simp [h]

/-- What every call preserves holds after a run. -/
theorem run_induction {I : State → Prop} {requests : List BridgeRequest} {bridge : Bridge}
    (hstep : ∀ request ∈ requests, ∀ b : Bridge, I b.state → I (request.perform b).2.state)
    (h : I bridge.state) : I (after requests bridge) := by
  induction requests generalizing bridge with
  | nil => exact h
  | cons request requests ih =>
    have hfirst := hstep request List.mem_cons_self bridge h
    exact ih (fun r hr => hstep r (List.mem_cons_of_mem _ hr)) hfirst

end Bridge

/-! ## What a call writes -/

/-- The mark of an id. -/
def RecordKey.IsApplied (key : RecordKey) : Prop := ∃ chain id, key = .applied chain id

/-- The records that a call may write. -/
def BridgeOp.Touches : BridgeOp → RecordKey → Prop
  | .propose .. => fun key => key.IsVote ∨ key.IsApplied
  | .isApplied .. => fun _ => False
  | .syncGenesis chain .. | .syncBatch _ chain _ | .syncHeaders _ chain _ =>
    RecordKey.Remembers chain
  | .installCommittee chain _ | .rotateCommittee chain _ => (· = .committee chain)
  | .registerRedeem chain _ | .recordDeposit chain _ _ | .createDraft chain _ _ _
  | .addSignature chain _ _ _ => RecordKey.IsCustody chain

namespace CommitteeStore

open Transition

theorem install_within (chain : ChainId) (committee : Committee) :
    (install chain committee).Within (· = .committee chain) := by
  refine .read (.mapError (State.has_readOnly _) _) fun found => ?_
  refine .guard ?_
  refine .read (.ofExcept _ _) fun _ => ?_
  exact .mapError (State.store_within (P := (· = .committee chain)) rfl
    fun hf => .committee _ hf) _

theorem rotate_within (chain : ChainId) (message : Bytes) :
    (rotate chain message).Within (· = .committee chain) := by
  refine .read (verified_readOnly chain message) fun found => ?_
  refine .read (.ofExcept _ _) fun next => ?_
  refine .bind (.mapError (State.store_within (P := (· = .committee chain)) rfl
    fun hf => .committee _ hf) _) fun _ => ?_
  exact (ReadOnly.pure _).within

end CommitteeStore

namespace Bridge

variable {ε α : Type} {P : RecordKey → Prop}

theorem call_state (f : ε → BridgeError) (x : Transition ε α) (bridge : Bridge) :
    (call f x bridge).2.state = (x bridge.state).2 := by
  change (x.mapError f bridge.state).2 = _
  rw [Transition.mapError_snd]

theorem call_writes {x : Transition ε α} (hx : x.Within P) (f : ε → BridgeError)
    (bridge : Bridge) : bridge.state.Writes P (call f x bridge).2.state := by
  rw [call_state]
  exact hx bridge.state

/-- A proposal is refused before its claim is looked at, or is answered as its claim is, for the
chain under which it is registered. -/
theorem propose_cases (config : BridgeConfig) (ctx : BlockContext) (sideChain? : SideChainLookup)
    (epochAt : EpochLookup) (chain : ChainId) (claim : DepositClaim) (bridge : Bridge) :
    ((∃ e, (propose config ctx sideChain? epochAt chain claim bridge).1 = .error e) ∧
      (propose config ctx sideChain? epochAt chain claim bridge).2.state = bridge.state) ∨
    ∃ source, sideChain? chain = some source ∧
      ((propose config ctx sideChain? epochAt chain claim bridge).1,
        (propose config ctx sideChain? epochAt chain claim bridge).2.state) =
      (claim.propose config ctx source epochAt).mapError .claim bridge.state := by
  unfold propose
  cases sideChain? chain with
  | none => exact .inl ⟨⟨_, rfl⟩, rfl⟩
  | some source =>
    dsimp only
    cases config.kindFor source with
    | error cause => exact .inl ⟨⟨_, rfl⟩, rfl⟩
    | ok kind =>
      by_cases hkind : claim.kind = kind
      · have hrun : claim.proposeAs kind config ctx source epochAt =
            (claim.propose config ctx source epochAt).mapError .claim := if_pos hkind
        exact .inr ⟨source, rfl, congrFun hrun bridge.state⟩
      · have hrun : claim.proposeAs kind config ctx source epochAt =
            throw (.claimMismatch source.chainId kind claim.kind) := if_neg hkind
        have hrefused := congrFun hrun bridge.state
        exact .inl ⟨⟨_, congrArg Prod.fst hrefused⟩, congrArg Prod.snd hrefused⟩

/-- A proposal through the bridge comes out as a proposal does. -/
theorem propose_proposed (config : BridgeConfig) (ctx : BlockContext)
    (sideChain? : SideChainLookup) (epochAt : EpochLookup) (chain : ChainId)
    (claim : DepositClaim) (bridge : Bridge) :
    Proposed RecordKey.IsVote ctx bridge.state
      (propose config ctx sideChain? epochAt chain claim bridge).1
      (propose config ctx sideChain? epochAt chain claim bridge).2.state := by
  rcases propose_cases config ctx sideChain? epochAt chain claim bridge with
    ⟨⟨e, hrefused⟩, hstate⟩ | ⟨source, -, hclaim⟩
  · rw [hrefused, hstate]
    exact .other (fun i hi => nomatch hi) (.refl _)
  · have hproposed : ((claim.propose config ctx source epochAt).mapError
        BridgeError.claim).Proposes RecordKey.IsVote ctx :=
      .mapError (claim.propose_proposes source config epochAt) _
    have hcomes := hproposed bridge.state
    rw [← hclaim] at hcomes
    exact hcomes

/-- A call that goes on without touching the state leaves that of its first part. -/
theorem bind_state {α β : Type} {x : BridgeCall α} {f : α → BridgeCall β}
    (hf : ∀ a b, (f a b).2.state = b.state) (bridge : Bridge) :
    ((x >>= f) bridge).2.state = (x bridge).2.state := by
  change (ExceptT.bindCont f (x bridge).1 (x bridge).2).2.state = _
  rcases x bridge with ⟨e | a, b⟩
  · rfl
  · exact hf a b

/-- The state after a batch of headers, whether or not a refusal counts against the call. -/
theorem syncHeaders_state (config : BridgeConfig) (ctx : BlockContext) (chain : ChainId)
    (headers : List Header) (bridge : Bridge) :
    (syncHeaders config ctx chain headers bridge).2.state =
      (syncBatch config ctx chain headers bridge).2.state := by
  refine bind_state (fun outcome b => ?_) bridge
  rcases LightClient.strictReport outcome with e | report
  · rfl
  · rfl

theorem syncBatch_state (config : BridgeConfig) (ctx : BlockContext) (chain : ChainId)
    (headers : List Header) (bridge : Bridge) :
    (syncBatch config ctx chain headers bridge).2.state =
      (LightClient.syncBatch config.headerSync ctx chain headers bridge.state).2 :=
  Transition.mapError_snd _ _ _

theorem syncGenesis_state (config : BridgeConfig) (chain : ChainId) (header : Header)
    (prior : List Address) (bridge : Bridge) :
    (syncGenesis config chain header prior bridge).2.state =
      (LightClient.setGenesis config.headerSync chain header prior bridge.state).2 :=
  call_state _ _ _

end Bridge

/-- A call writes only records that its kind of call may write. -/
theorem BridgeRequest.perform_writes (request : BridgeRequest) (bridge : Bridge) :
    bridge.state.Writes request.op.Touches (request.perform bridge).2.state := by
  obtain ⟨config, op⟩ := request
  cases op with
  | propose ctx sideChain? epochAt chain claim =>
    have hproposed := Bridge.propose_proposed config ctx sideChain? epochAt chain claim bridge
    exact hproposed.writes
  | isApplied chain id =>
    exact Bridge.call_writes (Replay.isApplied_readOnly chain id).within _ bridge
  | syncGenesis chain header prior =>
    change bridge.state.Writes _ (Bridge.syncGenesis config chain header prior bridge).2.state
    rw [Bridge.syncGenesis_state]
    exact (LightClient.setGenesis_step (P := fun _ => True) _ prior trivial _).writes
  | syncBatch ctx chain headers =>
    change bridge.state.Writes _ (Bridge.syncBatch config ctx chain headers bridge).2.state
    rw [Bridge.syncBatch_state]
    exact (LightClient.syncBatch_steps (P := fun _ => True) _ ctx (fun _ _ => trivial) _).writes
  | syncHeaders ctx chain headers =>
    change bridge.state.Writes _ (Bridge.syncHeaders config ctx chain headers bridge).2.state
    rw [Bridge.syncHeaders_state, Bridge.syncBatch_state]
    exact (LightClient.syncBatch_steps (P := fun _ => True) _ ctx (fun _ _ => trivial) _).writes
  | installCommittee chain committee =>
    exact Bridge.call_writes (CommitteeStore.install_within chain committee) _ bridge
  | rotateCommittee chain message =>
    exact Bridge.call_writes (CommitteeStore.rotate_within chain message) _ bridge
  | registerRedeem chain script =>
    have hwithin : (Custody.register chain script).Within
        (RecordKey.CustodyOf chain fun _ => True) := Custody.register_within chain script
    exact (Bridge.call_writes hwithin _ bridge).mono fun _ => RecordKey.CustodyOf.isCustody
  | recordDeposit chain key utxo =>
    have hwithin : (Custody.recordDeposit chain key utxo).Within
        (RecordKey.CustodyOf chain fun _ => True) := Custody.recordDeposit_within chain key utxo
    exact (Bridge.call_writes hwithin _ bridge).mono fun _ => RecordKey.CustodyOf.isCustody
  | createDraft chain key payouts fee =>
    have hwithin : (Custody.createDraft config.custody chain key payouts fee).Within
        (RecordKey.CustodyOf chain fun _ => True) :=
      Custody.createDraft_within config.custody chain key payouts fee
    exact (Bridge.call_writes hwithin _ bridge).mono fun _ => RecordKey.CustodyOf.isCustody
  | addSignature chain signer txid signatures =>
    change bridge.state.Writes _
      ((Custody.addSignature chain signer txid signatures).mapError BridgeError.custody
        bridge.state).2
    rw [Transition.mapError_snd]
    have hwrites : bridge.state.Writes (RecordKey.CustodyOf chain fun _ => True)
        (Custody.addSignature chain signer txid signatures bridge.state).2 :=
      Custody.addSignature_writes trivial fun _ _ => trivial
    exact hwrites.mono fun _ => RecordKey.CustodyOf.isCustody

namespace Bridge

/-- A store that begins empty holds nothing but records in the form of their kinds. -/
theorem wellFormed_after (requests : List BridgeRequest) (module : Bytes)
    (faults : Nat → StoreOp → Option StoreFault) :
    (after requests (empty module faults)).WellFormed := by
  refine run_induction (fun request _ b hb => (request.perform_writes b).wellFormed hb) ?_
  intro bytes value hv
  exact nomatch hv

end Bridge

end BridgeKernel
