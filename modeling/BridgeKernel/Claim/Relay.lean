import BridgeKernel.Claim.Admission

/-!
# Claims attested by validators

For chains without proofs each validator submits the event that it has seen. The vote that reaches
the quorum of the governing set admits the event; the votes before and after it admit none of it.
-/

namespace BridgeKernel

/-- A validator's attestation of an event. -/
structure RelayClaim where
  /-- The validator. -/
  signer : Address
  /-- Bytes of the event. -/
  payload : Bytes
deriving DecidableEq

namespace RelayClaim

/-- What validators vote for: the source chain followed by the event. -/
def voteMessage (source : ChainId) (payload : Bytes) : Bytes :=
  Bytes.ofNatBE 8 source.toNat ++ payload

/-- Counts the attestation and admits the event when it completes the quorum. The event is bound
before the vote is counted. -/
def propose (claim : RelayClaim) (config : ProofConfig) (votes : VoteConfig)
    (localChain : ChainId) (ctx : BlockContext) (source : SideChain)
    (epochAt : UInt64 → Option ValidatorEpoch) : Transition ClaimError (Option Instruction) := do
  let instruction ← Transition.ofExcept id
    (Claim.bind config localChain source.chainId claim.payload)
  let reached ← (Vote.castInForce votes ctx epochAt claim.signer
    (voteMessage source.chainId claim.payload)).mapError .vote
  if reached then return some (← Claim.markAdmitted ctx instruction)
  else return none

end RelayClaim

end BridgeKernel
