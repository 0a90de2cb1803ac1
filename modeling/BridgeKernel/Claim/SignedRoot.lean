import BridgeKernel.Claim.Admission
import BridgeKernel.Committee.Store
import BridgeKernel.Merkle

/-!
# Claims proven by a signed transaction root

The chain's committee signs a root over its transactions, and a Merkle path leads to it from the
SHA-256 digest of the event.
-/

namespace BridgeKernel

/-- A claim that an event is under a signed root. -/
structure SignedRootClaim where
  /-- Bytes of the committee's message. -/
  message : Bytes
  /-- Bytes of the event. -/
  payload : Bytes
  /-- Siblings from the event up to the root. -/
  path : List Merkle.Sibling
deriving DecidableEq

/-- The instruction that a claim proves. -/
def SignedRootClaim.verify (claim : SignedRootClaim) (config : ProofConfig)
    (localChain : ChainId) (source : SideChain) : Transition ClaimError Instruction := do
  if config.maxMerklePath < claim.path.length then
    throw (.pathTooLong claim.path.length config.maxMerklePath)
  Transition.ofExcept id (Claim.checkLength config claim.payload)
  let body ← (CommitteeStore.verifyMessage source.chainId claim.message).mapError .committee
  if body.stateRoot = .zero 32 then throw .emptyRoot
  if !Merkle.includes (Sha256.hash claim.payload) claim.path body.stateRoot then
    throw .inclusionFailed
  Transition.ofExcept id (Claim.bind config localChain source.chainId claim.payload)

end BridgeKernel
