import BridgeKernel.Claim.Error

/-!
# Admission of events

An event is bound to the chain on which it was proven and must be addressed to the local chain. A
bound event is admitted by marking its cross-chain id as applied.
-/

namespace BridgeKernel.Claim

/-- Refuses events above the length limit. -/
def checkLength (config : ProofConfig) (payload : Bytes) : Except ClaimError Unit :=
  if config.maxPayloadLen < payload.length then
    .error (.payloadTooLarge payload.length config.maxPayloadLen)
  else .ok ()

/-- The instruction that an event's bytes carry from a source chain to the local one. -/
def bind (config : ProofConfig) (localChain source : ChainId) (payload : Bytes) :
    Except ClaimError Instruction := do
  checkLength config payload
  let event ← (Event.decode payload).mapError .event
  if event.toChain ≠ localChain then throw (.wrongDestination localChain event.toChain)
  (event.toInstruction source).mapError .event

/-- Marks an instruction as applied and hands it on. -/
def markAdmitted (ctx : BlockContext) (instruction : Instruction) : Transition ClaimError Instruction := do
  (Replay.markApplied ctx instruction.sourceChain instruction.crossChainId).mapError .replay
  return instruction

end BridgeKernel.Claim
