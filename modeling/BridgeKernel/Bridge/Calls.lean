import BridgeKernel.Bridge.Counters
import BridgeKernel.Bridge.Deposit
import BridgeKernel.Custody.Multisig

/-!
# Calls to the bridge

The surface that a host calls into. Every call works on the bridge's state, counts what it brought,
and may be refused.
-/

namespace BridgeKernel

/-- The bridge between two calls. -/
structure Bridge where
  /-- Its state. -/
  state : State
  /-- What it has counted. -/
  counters : Counters

/-- A call to the bridge. -/
abbrev BridgeCall (α : Type) := ExceptT BridgeError (StateM Bridge) α

namespace Bridge

/-- A bridge with usable settings, on an empty store. -/
def start (config : BridgeConfig) : Except BridgeError Bridge :=
  match config.validate with
  | .ok () => .ok ⟨config.initialState, .zero⟩
  | .error complaint => .error (.config complaint)

variable {ε α : Type}

/-- A transition as a call, with what it brought counted from its result. -/
def counting (count : Counters → Except BridgeError α → Counters)
    (transition : Transition BridgeError α) : BridgeCall α := fun bridge =>
  let result := transition bridge.state
  (result.1, ⟨result.2, count bridge.counters result.1⟩)

/-- A transition as a call that counts nothing. -/
def call (f : ε → BridgeError) (transition : Transition ε α) : BridgeCall α :=
  counting (fun counters _ => counters) (transition.mapError f)

/-! ## Deposits -/

/-- Proposes a claim about a registered chain. The answer is the admitted instruction, or nothing
when an attestation was counted that did not complete a quorum. -/
def propose (config : BridgeConfig) (ctx : BlockContext) (sideChain? : SideChainLookup)
    (epochAt : EpochLookup) (chain : ChainId) (claim : DepositClaim) :
    BridgeCall (Option Instruction) := do
  match sideChain? chain with
  | none => throw (.unknownSideChain chain)
  | some source =>
    match config.kindFor source with
    | .error cause => throw cause
    | .ok kind =>
      counting (·.afterClaim kind ·) (claim.proposeAs kind config ctx source epochAt)

/-- Whether a cross-chain id of a chain was admitted. -/
def isApplied (chain : ChainId) (id : Bytes) : BridgeCall Bool :=
  call .replay (Replay.isApplied chain id)

/-! ## Light client -/

/-- Begins a chain at its trusted genesis header. -/
def syncGenesis (config : BridgeConfig) (chain : ChainId) (header : Header)
    (prior : List Address) : BridgeCall Unit :=
  call .header (LightClient.setGenesis config.headerSync chain header prior)

/-- Verifies and stores a batch of headers up to the first refused one. -/
def syncBatch (config : BridgeConfig) (ctx : BlockContext) (chain : ChainId)
    (headers : List Header) : BridgeCall BatchOutcome :=
  counting (·.afterBatch ·)
    ((LightClient.syncBatch config.headerSync ctx chain headers).mapError .header)

/-- The same, refused when a header is refused; the headers before it stay stored and counted. -/
def syncHeaders (config : BridgeConfig) (ctx : BlockContext) (chain : ChainId)
    (headers : List Header) : BridgeCall SyncReport := do
  match LightClient.strictReport (← syncBatch config ctx chain headers) with
  | .ok report => return report
  | .error cause => throw (.header cause)

/-! ## Committees -/

/-- Installs the first committee of a chain. -/
def installCommittee (chain : ChainId) (committee : Committee) : BridgeCall Unit :=
  call .committee (CommitteeStore.install chain committee)

/-- Replaces a chain's committee by the successor that it has signed. -/
def rotateCommittee (chain : ChainId) (message : Bytes) : BridgeCall Committee :=
  call .committee (CommitteeStore.rotate chain message)

/-! ## Custody -/

/-- Registers a script and gives its custody key. -/
def registerRedeem (chain : ChainId) (script : Bytes) : BridgeCall String :=
  call .custody (Custody.register chain script)

/-- Adds a deposited output. -/
def recordDeposit (chain : ChainId) (key : String) (utxo : Utxo) : BridgeCall Unit :=
  call .custody (Custody.recordDeposit chain key utxo)

/-- Makes a payment and reserves the outputs that it spends. -/
def createDraft (config : BridgeConfig) (chain : ChainId) (key : String) (payouts : List Payout)
    (fee : UInt64) : BridgeCall SpendDraft :=
  call .custody (Custody.createDraft config.custody chain key payouts fee)

/-- Records a custodian's signatures for a payment. -/
def addSignature (chain : ChainId) (signer : Custodian) (txid : Hash)
    (signatures : List Bytes) : BridgeCall SigningOutcome :=
  counting (·.afterSigning ·)
    ((Custody.addSignature chain signer txid signatures).mapError .custody)

end Bridge

end BridgeKernel
