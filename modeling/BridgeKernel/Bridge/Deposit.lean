import BridgeKernel.Bridge.Config
import BridgeKernel.Bridge.Error
import BridgeKernel.Claim.Evm
import BridgeKernel.Claim.Relay
import BridgeKernel.Claim.SignedRoot
import BridgeKernel.Claim.TaggedTrie

/-!
# Deposit claims

A claim is proposed for a registered chain and must be of the kind to which the chain's router tag
is bound. A proven claim is admitted at once; an attested one when it completes a quorum.
-/

namespace BridgeKernel

/-- A claim that an event took place on a foreign chain. -/
inductive DepositClaim where
  /-- Proven by a contract's storage. -/
  | evm (claim : EvmClaim)
  /-- Proven in a tagged trie. -/
  | taggedTrie (claim : TaggedTrieClaim)
  /-- Proven by a path to a signed root. -/
  | signedRoot (claim : SignedRootClaim)
  /-- Attested by a validator. -/
  | relay (claim : RelayClaim)
deriving DecidableEq

/-- Where registered chains are looked up. -/
abbrev SideChainLookup := ChainId → Option SideChain

/-- Where the validator set that governs a height is looked up. -/
abbrev EpochLookup := UInt64 → Option ValidatorEpoch

/-- The chains that governance has registered. -/
abbrev SideChains := OrderedMap ChainId SideChain

namespace SideChains

/-- Registers a chain; an earlier registration of the same chain is replaced. -/
def register (chains : SideChains) (chain : SideChain) : SideChains :=
  chains.insert chain.chainId chain

end SideChains

namespace DepositClaim

/-- The kind of a claim. -/
def kind : DepositClaim → ClaimKind
  | .evm _ => .evm
  | .taggedTrie _ => .taggedTrie
  | .signedRoot _ => .signedRoot
  | .relay _ => .relay

/-- The instruction that a proven claim carries; an attested claim proves none by itself. -/
def verify? (config : BridgeConfig) (source : SideChain) :
    DepositClaim → Option (Transition ClaimError Instruction)
  | .evm claim => some (claim.verify config.proof config.localChain source)
  | .taggedTrie claim => some (claim.verify config.proof config.localChain source)
  | .signedRoot claim => some (claim.verify config.proof config.localChain source)
  | .relay _ => none

/-- Verifies a claim and admits its instruction, or counts an attestation that leaves its event
short of a quorum. -/
def propose (config : BridgeConfig) (ctx : BlockContext) (source : SideChain)
    (epochAt : EpochLookup) : DepositClaim → Transition ClaimError (Option Instruction)
  | .evm claim => do
    let instruction ← claim.verify config.proof config.localChain source
    return some (← Claim.markAdmitted ctx instruction)
  | .taggedTrie claim => do
    let instruction ← claim.verify config.proof config.localChain source
    return some (← Claim.markAdmitted ctx instruction)
  | .signedRoot claim => do
    let instruction ← claim.verify config.proof config.localChain source
    return some (← Claim.markAdmitted ctx instruction)
  | .relay claim => claim.propose config.proof config.vote config.localChain ctx source epochAt

/-- The same for a chain whose claims must be of a given kind. -/
def proposeAs (expected : ClaimKind) (config : BridgeConfig) (ctx : BlockContext)
    (source : SideChain) (epochAt : EpochLookup) (claim : DepositClaim) :
    Transition BridgeError (Option Instruction) :=
  if claim.kind = expected then (claim.propose config ctx source epochAt).mapError .claim
  else throw (.claimMismatch source.chainId expected claim.kind)

end DepositClaim

/-- The kind of claim that a chain's router tag is bound to. -/
def BridgeConfig.kindFor (config : BridgeConfig) (source : SideChain) :
    Except BridgeError ClaimKind :=
  match config.routeTable.find? source.router with
  | some kind => .ok kind
  | none => .error (.unrouted source.chainId source.router)

end BridgeKernel
