import BridgeKernel.Store.State

/-!
# The replay ledger

A cross-chain id is applied at most once for each source chain. The ledger keeps a mark for every
applied id, with the local height at which it was applied.
-/

namespace BridgeKernel

/-- The mark of an applied id. -/
structure ReplayMarker where
  /-- The local height at which the id was applied. -/
  appliedAtHeight : UInt64
deriving DecidableEq, Repr

instance : Record ReplayMarker where
  write marker := Record.write marker.appliedAtHeight
  read := do return ⟨← Record.read⟩
  fits _ := true

/-- Why the ledger refused an id. -/
inductive ReplayError where
  /-- The id was applied before. -/
  | alreadyApplied (chain : ChainId) (id : Bytes) (height : UInt64)
  /-- An empty id cannot be told apart. -/
  | emptyCrossChainId
  /-- The store failed. -/
  | storage (cause : StorageError)
deriving DecidableEq

namespace ReplayError

/-- The wording of a refusal. -/
def message : ReplayError → String
  | .alreadyApplied chain id height => "Cross-chain id " ++ id.toHex ++ " from chain " ++
      toString chain ++ " already applied at height " ++ toString height
  | .emptyCrossChainId => "Empty cross-chain id"
  | .storage cause => cause.message

/-- The kind of a refusal. -/
def kind : ReplayError → FailureKind
  | .alreadyApplied .. => .replayRejected
  | .emptyCrossChainId => .malformedInput
  | .storage cause => cause.kind

instance : Refusal ReplayError := ⟨kind, message⟩

end ReplayError

namespace Replay

/-- The mark of an id of a chain. -/
def marker? (chain : ChainId) (id : Bytes) : Transition ReplayError (Option ReplayMarker) :=
  (State.load? (.applied chain id)).mapError .storage

/-- Whether an id of a chain has been applied. -/
def isApplied (chain : ChainId) (id : Bytes) : Transition ReplayError Bool := do
  return (← marker? chain id).isSome

/-- Marks an id as applied at the current height, unless it is marked already. -/
def markApplied (ctx : BlockContext) (chain : ChainId) (id : Bytes) :
    Transition ReplayError Unit := do
  if id.isEmpty then throw .emptyCrossChainId
  match ← marker? chain id with
  | some marker => throw (.alreadyApplied chain id marker.appliedAtHeight)
  | none =>
    (State.store (.applied chain id) (⟨ctx.height⟩ : ReplayMarker)).mapError .storage

end Replay

end BridgeKernel
