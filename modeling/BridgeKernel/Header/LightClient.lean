import BridgeKernel.Header.Epochs
import BridgeKernel.Header.ForkChoice

/-!
# The light client

For each foreign chain the bridge keeps the headers that it trusts and the canonical digest at each
height. A chain begins at a header given by governance. A batch of headers is verified and stored
one header at a time, each in a single write, and stops at the first header that is refused; headers
stored before it stay.
-/

namespace BridgeKernel

/-- How far a chain's light client has come. -/
inductive LightClientStatus where
  /-- There is no genesis. -/
  | uninitialized
  /-- There is a genesis and no canonical header above it. -/
  | genesisSet
  /-- There is a canonical header above the genesis. -/
  | synced
deriving DecidableEq, Repr

/-- The stable name of a status. -/
def LightClientStatus.label : LightClientStatus → String
  | .uninitialized => "uninitialized"
  | .genesisSet => "genesis_set"
  | .synced => "synced"

/-- What a batch of headers brought. -/
structure SyncReport where
  /-- Headers newly stored. -/
  accepted : Nat
  /-- Headers stored before their turn. -/
  skipped : Nat
  /-- Accepted headers that became canonical without extending the canonical tip. -/
  reorgs : Nat
  /-- The canonical height after the batch. -/
  canonicalHeight : UInt64
deriving DecidableEq

/-- What a batch brought, and the refusal that stopped it. -/
structure BatchOutcome where
  /-- What the headers before the refusal brought. -/
  report : SyncReport
  /-- The refusal, if any. -/
  rejected : Option HeaderError
deriving DecidableEq

/-- What became of one header. -/
inductive HeaderFate where
  /-- It was stored already. -/
  | known
  /-- It was refused. -/
  | rejected (cause : HeaderError)
  /-- It was stored, and the canonical chain left its old tip or not. -/
  | accepted (reorg : Bool)
deriving DecidableEq

namespace LightClient

/-! ## Queries -/

/-- Where the chain began. -/
def genesis? (chain : ChainId) : Transition HeaderError (Option GenesisRecord) :=
  (State.load? (.genesis chain)).mapError .storage

/-- The canonical height. -/
def height? (chain : ChainId) : Transition HeaderError (Option UInt64) :=
  (State.load? (.height chain)).mapError .storage

/-- The stored header with a digest, canonical or not. -/
def header? (chain : ChainId) (hash : Hash) : Transition HeaderError (Option TrustedHeader) :=
  (State.load? (.header chain hash)).mapError .storage

/-- The canonical digest at a height. -/
def canonicalHash? (chain : ChainId) (level : UInt64) : Transition HeaderError (Option Hash) :=
  (State.load? (.canonical chain level)).mapError .storage

/-- The validator set kept for the epoch that begins at a height. -/
def epoch? (chain : ChainId) (start : UInt64) : Transition HeaderError (Option ValidatorEpoch) :=
  (State.load? (.epoch chain start)).mapError .storage

/-- The canonical header at a height. -/
def canonicalHeader? (chain : ChainId) (level : UInt64) :
    Transition HeaderError (Option TrustedHeader) := do
  match ← canonicalHash? chain level with
  | none => return none
  | some hash => header? chain hash

/-- Whether a stored header is canonical. -/
def isCanonical (chain : ChainId) (hash : Hash) : Transition HeaderError Bool := do
  match ← header? chain hash with
  | none => return false
  | some trusted => return (← canonicalHash? chain trusted.number) = some hash

/-- How far the chain's light client has come. -/
def status (chain : ChainId) : Transition HeaderError LightClientStatus := do
  match ← genesis? chain with
  | none => return .uninitialized
  | some genesis =>
    match ← height? chain with
    | none => return .genesisSet
    | some level => return if genesis.number < level then .synced else .genesisSet

/-! ## Genesis -/

/-- Begins a chain at a boundary header given by governance, which announces the current validators.
The validators before it are the given ones, or the current ones when none are given. -/
def setGenesis (config : HeaderSyncConfig) (chain : ChainId) (header : Header)
    (prior : List Address) : Transition HeaderError Unit := do
  if ← (State.has (.genesis chain)).mapError .storage then throw (.genesisAlreadySet chain)
  if !config.isBoundary header.number || header.number < config.epochLength then
    throw (.invalidGenesis header.number (.offBoundary config.epochLength))
  Transition.ofExcept id (header.checkExtra true)
  Transition.ofExcept id header.checkGas
  match header.validators? with
  | none => throw (.invalidGenesis header.number .unreadableValidators)
  | some validators =>
    let priorStart := header.number - config.epochLength
    let hash := header.hash
    let trusted : TrustedHeader :=
      { hash, header, signer := header.coinbase, weight := BitVec.ofNat 128 header.difficulty.toNat }
    let priorEpoch : ValidatorEpoch := ⟨priorStart, if prior.isEmpty then validators else prior⟩
    (do
      State.commit [
        ← State.writeAbout (.header chain hash) trusted,
        ← State.writeAbout (.canonical chain header.number) hash,
        ← State.writeAbout (.height chain) header.number,
        ← State.writeAbout (.genesis chain) (⟨hash, header.number, priorStart⟩ : GenesisRecord),
        ← State.writeAbout (.epoch chain priorStart) priorEpoch,
        ← State.writeAbout (.epoch chain header.number)
            (⟨header.number, validators⟩ : ValidatorEpoch)] :
      Transition StorageError Unit).mapError .storage

/-- The sets known from governance, at which walks over ancestors end. -/
def genesisEpochs (chain : ChainId) : Transition HeaderError GenesisEpochs := do
  match ← genesis? chain with
  | none => throw (.notInitialized chain)
  | some record =>
    match ← epoch? chain record.number with
    | none => throw (.epochNotFound record.number)
    | some current =>
      match ← epoch? chain record.priorEpochStart with
      | none => throw (.epochNotFound record.priorEpochStart)
      | some prior => return ⟨record.hash, current, prior⟩

/-! ## Headers -/

/-- Verifies a header against the stored ones: its fields, its parent, its seal, the governing
validator set, the recency of its signer and its turn. -/
def verifyHeader (config : HeaderSyncConfig) (ctx : BlockContext) (chain : ChainId)
    (genesis : GenesisEpochs) (header : Header) : Transition HeaderError TrustedHeader := do
  let view := ChainView.ofStore chain (← get)
  Transition.ofExcept id (header.checkFields config ctx.timestamp)
  match ← view.header? header.parentHash with
  | none => throw (.unknownParent header.number header.parentHash)
  | some parent =>
    Transition.ofExcept id (header.checkAgainstParent parent.header config)
    let signer ← Transition.ofExcept id (header.checkSeal chain)
    let pair ← view.resolveEpochs config genesis parent
    let epoch := pair.authoritative header.number
    if !epoch.contains signer then throw (.unauthorizedSigner header.number signer)
    view.checkRecentSigners parent signer (UInt64.ofNat (epoch.size / 2))
    Transition.ofExcept id (epoch.checkTurn header.number signer header.difficulty)
    return {
      hash := header.hash
      header
      signer
      weight := parent.weight + BitVec.ofNat 128 header.difficulty.toNat }

/-- The header at the canonical height. -/
def canonicalTip (chain : ChainId) : Transition HeaderError TrustedHeader := do
  match ← height? chain with
  | none => throw (.notInitialized chain)
  | some level =>
    match ← canonicalHeader? chain level with
    | none => throw (.notInitialized chain)
    | some tip => return tip

/-- The writes that move the canonical markers. -/
def updateWrites (chain : ChainId) (update : CanonicalUpdate) :
    Transition StorageError (List Write) := do
  let cleared ← update.clear.mapM fun level => State.deleteAbout (.canonical chain level)
  let assigned ← update.assign.mapM fun entry =>
    State.writeAbout (.canonical chain entry.1) entry.2
  let level ← State.writeAbout (.height chain) update.newHeight
  return cleared ++ assigned ++ [level]

/-- Stores a verified header together with the change of canonical markers that it causes. The
answer is whether the canonical chain left its old tip. -/
def storeHeader (chain : ChainId) (trusted : TrustedHeader) : Transition HeaderError Bool := do
  let tip ← canonicalTip chain
  let headerWrite ← (State.writeAbout (.header chain trusted.hash) trusted).mapError .storage
  let update? ← (ChainView.ofStore chain (← get)).planUpdate trusted tip
  let writes ← match update? with
    | none => pure []
    | some update => (updateWrites chain update).mapError .storage
  (State.commit (headerWrite :: writes)).mapError .storage
  return update?.isSome && trusted.parentHash != tip.hash

/-- Runs a step and hands on its refusal as a value. -/
def attempt {α : Type} (step : Transition HeaderError α) :
    Transition HeaderError (Except HeaderError α) := fun s =>
  let result := step s
  (.ok result.1, result.2)

/-- Takes in one header: known ones are left alone and new ones are verified and stored. -/
def submit (config : HeaderSyncConfig) (ctx : BlockContext) (chain : ChainId)
    (genesis : GenesisEpochs) (header : Header) : Transition HeaderError HeaderFate := do
  if ← (State.has (.header chain header.hash)).mapError .storage then return .known
  match ← attempt (verifyHeader config ctx chain genesis header) with
  | .error cause => return .rejected cause
  | .ok trusted => return .accepted (← storeHeader chain trusted)

/-- Takes in headers in order up to the first refused one, adding to a report. -/
def submitAll (config : HeaderSyncConfig) (ctx : BlockContext) (chain : ChainId)
    (genesis : GenesisEpochs) :
    List Header → SyncReport → Transition HeaderError BatchOutcome
  | [], report => pure ⟨report, none⟩
  | header :: rest, report => do
    match ← submit config ctx chain genesis header with
    | .known => submitAll config ctx chain genesis rest { report with skipped := report.skipped + 1 }
    | .rejected cause => return ⟨report, some cause⟩
    | .accepted reorg =>
      submitAll config ctx chain genesis rest
        { report with
          accepted := report.accepted + 1
          reorgs := report.reorgs + if reorg then 1 else 0 }

/-- Takes in a batch of headers and reports what it brought. -/
def syncBatch (config : HeaderSyncConfig) (ctx : BlockContext) (chain : ChainId)
    (headers : List Header) : Transition HeaderError BatchOutcome := do
  if config.maxBatchSize < headers.length then
    throw (.batchTooLarge headers.length config.maxBatchSize)
  let genesis ← genesisEpochs chain
  let outcome ← submitAll config ctx chain genesis headers ⟨0, 0, 0, 0⟩
  match ← height? chain with
  | none => throw (.notInitialized chain)
  | some level =>
    return { outcome with report := { outcome.report with canonicalHeight := level } }

/-- The report of a batch, or the refusal that stopped it. -/
def strictReport (outcome : BatchOutcome) : Except HeaderError SyncReport :=
  match outcome.rejected with
  | none => .ok outcome.report
  | some cause => .error cause

/-- Takes in a batch of headers and is refused when one of them is; those before it stay stored. -/
def syncStrict (config : HeaderSyncConfig) (ctx : BlockContext) (chain : ChainId)
    (headers : List Header) : Transition HeaderError SyncReport := do
  Transition.ofExcept id (strictReport (← syncBatch config ctx chain headers))

end LightClient

end BridgeKernel
