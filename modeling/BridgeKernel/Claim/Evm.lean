import BridgeKernel.Claim.Admission
import BridgeKernel.Header.LightClient
import BridgeKernel.Trie.Patricia

/-!
# Claims proven by a contract's storage

The registered contract has stored the Keccak digest of the event in one of its slots. The account
is proven under the state root of a canonical header that is buried deep enough, and the slot under
the account's storage root.
-/

namespace BridgeKernel

/-- A machine word of the foreign chain. -/
abbrev Word := BitVec 256

namespace Word

/-- The word as an item. -/
def encode (w : Word) : Bytes := Rlp.encodeNat w.toNat

/-- The word as 32 bytes, most significant first. -/
def toHash (w : Word) : Hash := FixedBytes.ofNatBE 32 w.toNat

end Word

/-- What the state trie keeps of an account. -/
structure Account where
  /-- Transactions sent. -/
  nonce : UInt64
  /-- Balance. -/
  balance : Word
  /-- Root of the account's storage. -/
  storageRoot : Hash
  /-- Digest of the account's code. -/
  codeHash : Hash
deriving DecidableEq

/-- The bytes of an account in the state trie. -/
def Account.encode (a : Account) : Bytes :=
  Rlp.encodeList [Rlp.encodeNat a.nonce.toNat, a.balance.encode,
    Rlp.encodeBytes a.storageRoot.toBytes, Rlp.encodeBytes a.codeHash.toBytes]

/-- A proof of one storage slot. -/
structure SlotProof where
  /-- Key of the slot. -/
  key : Hash
  /-- Claimed value. -/
  value : Word
  /-- Nodes from the storage root down. -/
  proof : List Bytes
deriving DecidableEq

/-- A claim that a contract has stored an event's digest. -/
structure EvmClaim where
  /-- Height of the header whose state root is trusted. -/
  height : UInt64
  /-- Bytes of the event. -/
  payload : Bytes
  /-- The contract's address. -/
  address : Address
  /-- The contract's account. -/
  account : Account
  /-- Nodes from the state root down to the account. -/
  accountProof : List Bytes
  /-- Proven slots, of which there must be one. -/
  slots : List SlotProof
deriving DecidableEq

namespace EvmClaim

/-- The state root of the canonical header at a height, once enough headers bury it. -/
def anchor (source : SideChain) (height : UInt64) : Transition ClaimError Hash := do
  match ← (LightClient.canonicalHeader? source.chainId height).mapError .header with
  | none => throw (.headerNotFound source.chainId height)
  | some trusted =>
    let tip := (← (LightClient.height? source.chainId).mapError .header).getD height
    let confirmations := saturatingSub tip height
    if confirmations < source.blocksToWait then
      throw (.insufficientConfirmations height confirmations source.blocksToWait)
    if trusted.header.stateRoot = .zero 32 then throw .emptyRoot
    return trusted.header.stateRoot

/-- Checks the account and the slot under a state root, and that the slot holds the event's
digest. -/
def checkProofs (claim : EvmClaim) (config : ProofConfig) (stateRoot : Hash) :
    Except ClaimError Unit := do
  let accountLeaf ← (Patricia.verify stateRoot (Keccak256.hash claim.address.toBytes).toBytes
    claim.accountProof config.maxProofDepth).mapError .trie
  if accountLeaf ≠ claim.account.encode then throw .accountMismatch
  match claim.slots with
  | [slot] =>
    let slotLeaf ← (Patricia.verify claim.account.storageRoot (Keccak256.hash slot.key.toBytes).toBytes
      slot.proof config.maxProofDepth).mapError .trie
    if slotLeaf ≠ slot.value.encode then throw .storageMismatch
    let expected := Keccak256.hash claim.payload
    if slot.value.toHash ≠ expected then throw (.valueMismatch expected slot.value.toHash)
  | slots => throw (.storageProofCount slots.length)

/-- The instruction that a claim proves. -/
def verify (claim : EvmClaim) (config : ProofConfig) (localChain : ChainId) (source : SideChain) :
    Transition ClaimError Instruction := do
  Transition.ofExcept id (Claim.checkLength config claim.payload)
  if claim.address.toBytes ≠ source.contract then
    throw (.addressMismatch source.contract claim.address.toBytes)
  let stateRoot ← anchor source claim.height
  Transition.ofExcept id (claim.checkProofs config stateRoot)
  Transition.ofExcept id (Claim.bind config localChain source.chainId claim.payload)

end EvmClaim

end BridgeKernel
