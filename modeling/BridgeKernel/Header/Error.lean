import BridgeKernel.Curve.Ecdsa
import BridgeKernel.Store.State

/-!
# Refusals of headers

Every way in which a light client refuses a genesis, a batch or a header.
-/

namespace BridgeKernel

/-- What is wrong with a header's extra-data. -/
inductive ExtraFault where
  /-- Shorter than a vanity. -/
  | missingVanity
  /-- No room for a seal after the vanity. -/
  | missingSeal
  /-- An epoch boundary lists no validators. -/
  | boundaryWithoutValidators
  /-- The validators are not whole addresses. -/
  | partialValidator
  /-- Validators are listed off an epoch boundary. -/
  | validatorsOffBoundary
deriving DecidableEq, Repr

/-- The wording of a fault in extra-data. -/
def ExtraFault.message : ExtraFault → String
  | .missingVanity => "missing vanity"
  | .missingSeal => "missing seal"
  | .boundaryWithoutValidators => "epoch boundary without validators"
  | .partialValidator => "validator section is not a multiple of 20 bytes"
  | .validatorsOffBoundary => "validators outside an epoch boundary"

/-- What is wrong with a genesis header. -/
inductive GenesisFault where
  /-- Its height is no epoch boundary, or lies below the first one after zero. -/
  | offBoundary (epochLength : UInt64)
  /-- Its validators cannot be read. -/
  | unreadableValidators
deriving DecidableEq, Repr

/-- The wording of a fault in a genesis header. -/
def GenesisFault.message : GenesisFault → String
  | .offBoundary epochLength => "must be an epoch boundary at or above " ++ toString epochLength
  | .unreadableValidators => "unreadable validator set"

/-- Why a light client refused. -/
inductive HeaderError where
  /-- The chain has a genesis already. -/
  | genesisAlreadySet (chain : ChainId)
  /-- The chain has no genesis yet. -/
  | notInitialized (chain : ChainId)
  /-- The genesis header cannot begin a chain. -/
  | invalidGenesis (number : UInt64) (fault : GenesisFault)
  /-- More headers than one call may bring. -/
  | batchTooLarge (length max : Nat)
  /-- The header's time lies too far ahead. -/
  | futureBlock (number time now drift : UInt64)
  /-- The extra-data has the wrong layout. -/
  | malformedExtra (number : UInt64) (fault : ExtraFault)
  /-- The mix digest is not zero. -/
  | invalidMixDigest (number : UInt64)
  /-- There are uncles. -/
  | invalidUncleHash (number : UInt64)
  /-- The difficulty is neither one nor two. -/
  | invalidDifficulty (number difficulty : UInt64)
  /-- The parent is not stored. -/
  | unknownParent (number : UInt64) (parent : Hash)
  /-- The height is not one above the parent's. -/
  | invalidNumber (number parentNumber : UInt64)
  /-- The time is too close to the parent's. -/
  | invalidTimestamp (number time parentTime : UInt64)
  /-- The gas limit is out of range. -/
  | gasLimitOutOfBounds (number gasLimit : UInt64)
  /-- More gas is used than allowed. -/
  | gasUsedExceedsLimit (number gasUsed gasLimit : UInt64)
  /-- The gas limit moved too far from the parent's. -/
  | gasLimitDelta (number delta bound : UInt64)
  /-- The seal yields no signer. -/
  | invalidSeal (number : UInt64) (cause : SignatureError)
  /-- The signer is not the declared producer. -/
  | signerMismatch (number : UInt64) (declared recovered : Address)
  /-- The signer is not in the governing validator set. -/
  | unauthorizedSigner (number : UInt64) (signer : Address)
  /-- The signer produced another header too recently. -/
  | recentlySigned (number : UInt64) (signer : Address) (lastSigned : UInt64)
  /-- The difficulty does not fit the signer's turn. -/
  | wrongDifficultyForTurn (number difficulty : UInt64) (inTurn : Bool)
  /-- No validator set is known for the height. -/
  | epochNotFound (number : UInt64)
  /-- The store failed. -/
  | storage (cause : StorageError)
deriving DecidableEq

namespace HeaderError

/-- The wording of a refusal. -/
def message : HeaderError → String
  | .genesisAlreadySet chain => "Genesis already set for chain " ++ toString chain
  | .notInitialized chain => "Light client for chain " ++ toString chain ++ " is not initialized"
  | .invalidGenesis number fault => "Invalid genesis header " ++ toString number ++ ": " ++
      fault.message
  | .batchTooLarge length max => "Header batch of " ++ toString length ++ " exceeds limit " ++
      toString max
  | .futureBlock number time now drift => "Future block " ++ toString number ++ ": time " ++
      toString time ++ " > now " ++ toString now ++ " + drift " ++ toString drift
  | .malformedExtra number fault => "Malformed extra-data at " ++ toString number ++ ": " ++
      fault.message
  | .invalidMixDigest number => "Non-zero mix digest at " ++ toString number
  | .invalidUncleHash number => "Non-empty uncle hash at " ++ toString number
  | .invalidDifficulty number difficulty => "Invalid difficulty " ++ toString difficulty ++
      " at " ++ toString number
  | .unknownParent number parent => "Unknown parent " ++ parent.toHex ++ " for header " ++
      toString number
  | .invalidNumber number parentNumber => "Header " ++ toString number ++
      " does not follow parent " ++ toString parentNumber
  | .invalidTimestamp number time parentTime => "Header " ++ toString number ++ " time " ++
      toString time ++ " too close to parent time " ++ toString parentTime
  | .gasLimitOutOfBounds number gasLimit => "Gas limit " ++ toString gasLimit ++
      " out of bounds at " ++ toString number
  | .gasUsedExceedsLimit number gasUsed gasLimit => "Gas used " ++ toString gasUsed ++
      " exceeds limit " ++ toString gasLimit ++ " at " ++ toString number
  | .gasLimitDelta number delta bound => "Gas limit delta " ++ toString delta ++ " >= bound " ++
      toString bound ++ " at " ++ toString number
  | .invalidSeal number cause => "Invalid seal at " ++ toString number ++ ": " ++ cause.message
  | .signerMismatch number declared recovered => "Seal signer " ++ recovered.toHex ++
      " does not match coinbase " ++ declared.toHex ++ " at " ++ toString number
  | .unauthorizedSigner number signer => "Unauthorized signer " ++ signer.toHex ++ " at " ++
      toString number
  | .recentlySigned number signer lastSigned => "Signer " ++ signer.toHex ++
      " recently signed block " ++ toString lastSigned ++ ", rejecting " ++ toString number
  | .wrongDifficultyForTurn number difficulty inTurn => "Difficulty " ++ toString difficulty ++
      " does not match turn at " ++ toString number ++ " (in_turn=" ++ toString inTurn ++ ")"
  | .epochNotFound number => "No validator epoch resolvable for header " ++ toString number
  | .storage cause => cause.message

/-- The kind of a refusal. -/
def kind : HeaderError → FailureKind
  | .unauthorizedSigner .. => .authorityError
  | .invalidSeal .. => .untrustedClaim
  | .signerMismatch .. => .untrustedClaim
  | .recentlySigned .. => .untrustedClaim
  | .wrongDifficultyForTurn .. => .untrustedClaim
  | .storage cause => cause.kind
  | _ => .malformedInput

instance : Refusal HeaderError := ⟨kind, message⟩

end HeaderError

end BridgeKernel
