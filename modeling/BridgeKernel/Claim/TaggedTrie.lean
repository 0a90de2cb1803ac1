import BridgeKernel.Claim.Admission
import BridgeKernel.Committee.Store
import BridgeKernel.Trie.Tagged

/-!
# Claims proven in a tagged trie

The chain's committee signs a state root. Under it a first proof leads to the registered contract's
storage root, and a second from there to the SHA-256 digest of the event.
-/

namespace BridgeKernel

/-- A claim that a contract's tagged storage holds an event's digest. -/
structure TaggedTrieClaim where
  /-- Bytes of the committee's message. -/
  message : Bytes
  /-- Bytes of the event. -/
  payload : Bytes
  /-- The contract. -/
  contract : Bytes
  /-- Nodes from the state root down to the contract. -/
  accountProof : List Bytes
  /-- Key of the storage entry. -/
  storageKey : Bytes
  /-- Nodes from the storage root down to the entry. -/
  storageProof : List Bytes
deriving DecidableEq

namespace TaggedTrieClaim

/-- Checks both proofs under a state root, and that the entry holds the event's digest. -/
def checkProofs (claim : TaggedTrieClaim) (config : ProofConfig) (stateRoot : Hash) :
    Except ClaimError Unit := do
  let accountLeaf ← (TaggedTrie.verify stateRoot claim.contract claim.accountProof
    config.maxProofDepth).mapError .trie
  let storageRoot ← (TaggedTrie.storageRoot accountLeaf).mapError .trie
  let storageLeaf ← (TaggedTrie.verify storageRoot claim.storageKey claim.storageProof
    config.maxProofDepth).mapError .trie
  let expected := Sha256.hash claim.payload
  let actual ← (TaggedTrie.normalize storageLeaf).mapError .trie
  if actual ≠ expected then throw (.valueMismatch expected actual)

/-- The instruction that a claim proves. -/
def verify (claim : TaggedTrieClaim) (config : ProofConfig) (localChain : ChainId)
    (source : SideChain) : Transition ClaimError Instruction := do
  Transition.ofExcept id (Claim.checkLength config claim.payload)
  if claim.contract ≠ source.contract then
    throw (.addressMismatch source.contract claim.contract)
  let body ← (CommitteeStore.verifyMessage source.chainId claim.message).mapError .committee
  if body.stateRoot = .zero 32 then throw .emptyRoot
  Transition.ofExcept id (claim.checkProofs config body.stateRoot)
  Transition.ofExcept id (Claim.bind config localChain source.chainId claim.payload)

end TaggedTrieClaim

end BridgeKernel
