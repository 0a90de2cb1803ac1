/-!
# Kinds of failure

Every refusal of the bridge belongs to one of six kinds, so that a host can tell a replay from a
forgery. All but one of them revert the enclosing transition.
-/

namespace BridgeKernel

/-- The kind of a failure. -/
inductive FailureKind where
  /-- The input could not be read or is ill-formed. -/
  | malformedInput
  /-- A signature or proof did not verify. -/
  | untrustedClaim
  /-- A threshold is not reached yet; more submissions may reach it. -/
  | notYetFinal
  /-- The cross-chain id was applied before. -/
  | replayRejected
  /-- The signer is outside the active set. -/
  | authorityError
  /-- The store or a stored record failed. -/
  | storage
deriving DecidableEq, Repr

namespace FailureKind

/-- The six kinds, in the order in which they are documented. -/
def all : List FailureKind :=
  [.malformedInput, .untrustedClaim, .notYetFinal, .replayRejected, .authorityError, .storage]

/-- The stable name of a kind. -/
def label : FailureKind → String
  | .malformedInput => "malformed_input"
  | .untrustedClaim => "untrusted_claim"
  | .notYetFinal => "not_yet_final"
  | .replayRejected => "replay_rejected"
  | .authorityError => "authority_error"
  | .storage => "storage"

/-- Whether the enclosing transition must revert. -/
def isFatal (kind : FailureKind) : Bool := kind != .notYetFinal

end FailureKind

/-- Refusals of one sort: each has a kind and a wording. -/
class Refusal (ε : Type) where
  /-- The kind of a refusal. -/
  kind : ε → FailureKind
  /-- The wording of a refusal. -/
  message : ε → String

end BridgeKernel
