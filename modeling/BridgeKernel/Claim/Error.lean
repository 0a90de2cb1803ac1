import BridgeKernel.Committee.Basic
import BridgeKernel.Header.Error
import BridgeKernel.Replay
import BridgeKernel.Trie.Error
import BridgeKernel.Vote.Engine

/-!
# Refusals of claims

Every way in which a claim about a foreign chain is refused, and the limits that claims must keep.
-/

namespace BridgeKernel

/-- Limits of the claim verifiers. -/
structure ProofConfig where
  /-- Nodes of the longest trie proof. -/
  maxProofDepth : Nat
  /-- Siblings of the longest Merkle path. -/
  maxMerklePath : Nat
  /-- Bytes of the longest event. -/
  maxPayloadLen : Nat
deriving DecidableEq, Repr

namespace ProofConfig

/-- The limits used unless others are given. -/
def standard : ProofConfig := ⟨64, 32, 64 * 1024⟩

/-- Small limits for trials. -/
def trial : ProofConfig := ⟨64, 16, 4096⟩

/-- Says what is wrong with the limits. -/
def validate (c : ProofConfig) : Except String Unit :=
  if c.maxProofDepth = 0 then .error "max_proof_depth must be > 0"
  else if c.maxMerklePath = 0 then .error "max_merkle_path must be > 0"
  else if c.maxPayloadLen = 0 then .error "max_payload_len must be > 0"
  else .ok ()

end ProofConfig

/-- Why a claim was refused. -/
inductive ClaimError where
  /-- The trusted root is zero. -/
  | emptyRoot
  /-- The Merkle path is too long. -/
  | pathTooLong (length max : Nat)
  /-- The claim is about another contract than the registered one. -/
  | addressMismatch (expected actual : Bytes)
  /-- The claimed account is not the proven one. -/
  | accountMismatch
  /-- Not exactly one storage slot is proven. -/
  | storageProofCount (count : Nat)
  /-- The claimed slot value is not the proven one. -/
  | storageMismatch
  /-- The proven value is not the event's digest. -/
  | valueMismatch (expected actual : Hash)
  /-- There is no canonical header at the height. -/
  | headerNotFound (chain : ChainId) (height : UInt64)
  /-- The height is not buried deep enough. -/
  | insufficientConfirmations (height confirmations required : UInt64)
  /-- The event is addressed to another chain. -/
  | wrongDestination (expected actual : ChainId)
  /-- The event is too long. -/
  | payloadTooLarge (length max : Nat)
  /-- The event is not under the signed root. -/
  | inclusionFailed
  /-- A trie proof was refused. -/
  | trie (cause : TrieError)
  /-- A committee message was refused. -/
  | committee (cause : CommitteeError)
  /-- The event was refused. -/
  | event (cause : EventError)
  /-- The replay ledger refused. -/
  | replay (cause : ReplayError)
  /-- The vote engine refused. -/
  | vote (cause : VoteError)
  /-- The light client refused. -/
  | header (cause : HeaderError)
deriving DecidableEq

namespace ClaimError

/-- The wording of a refusal. -/
def message : ClaimError → String
  | .emptyRoot => "Trusted state root is empty"
  | .pathTooLong length max => (TrieError.tooDeep length max).message
  | .addressMismatch expected actual => "Contract mismatch: expected " ++ expected.toHex ++
      ", got " ++ actual.toHex
  | .accountMismatch => "Account record does not match the proven leaf"
  | .storageProofCount count => "Expected one storage proof, got " ++ toString count
  | .storageMismatch => "Storage value does not match the proven leaf"
  | .valueMismatch expected actual => "Proven value " ++ actual.toHex ++
      " does not commit to payload " ++ expected.toHex
  | .headerNotFound chain height => "No canonical header for chain " ++ toString chain ++ " at " ++
      toString height
  | .insufficientConfirmations height confirmations required => "Height " ++ toString height ++
      " has " ++ toString confirmations ++ " confirmations, need " ++ toString required
  | .wrongDestination expected actual => "Payload addressed to chain " ++ toString actual ++
      ", local chain is " ++ toString expected
  | .payloadTooLarge length max => "Payload too large: " ++ toString length ++ " bytes (max " ++
      toString max ++ ")"
  | .inclusionFailed => "Transaction inclusion proof does not reach the state root"
  | .trie cause => cause.message
  | .committee cause => cause.message
  | .event cause => cause.message
  | .replay cause => cause.message
  | .vote cause => cause.message
  | .header cause => cause.message

/-- The kind of a refusal. -/
def kind : ClaimError → FailureKind
  | .addressMismatch .. => .untrustedClaim
  | .accountMismatch => .untrustedClaim
  | .storageMismatch => .untrustedClaim
  | .valueMismatch .. => .untrustedClaim
  | .inclusionFailed => .untrustedClaim
  | .headerNotFound .. => .notYetFinal
  | .insufficientConfirmations .. => .notYetFinal
  | .trie cause => cause.kind
  | .committee cause => cause.kind
  | .event cause => cause.kind
  | .replay cause => cause.kind
  | .vote cause => cause.kind
  | .header cause => cause.kind
  | _ => .malformedInput

instance : Refusal ClaimError := ⟨kind, message⟩

end ClaimError

end BridgeKernel
