import BridgeKernel.Bridge.Route
import BridgeKernel.Claim.Error
import BridgeKernel.Custody.Basic

/-!
# Refusals of calls

What a host is told when a call to the bridge is refused. Refusals from the parts of the bridge keep
their wording and their kind.
-/

namespace BridgeKernel

/-- Why a call was refused. -/
inductive BridgeError where
  /-- The chain is not registered. -/
  | unknownSideChain (chain : ChainId)
  /-- The chain's router tag is bound to no kind of claim. -/
  | unrouted (chain : ChainId) (router : UInt64)
  /-- The claim is of another kind than the chain's. -/
  | claimMismatch (chain : ChainId) (expected actual : ClaimKind)
  /-- The settings are unusable. -/
  | config (complaint : String)
  /-- The replay ledger refused. -/
  | replay (cause : ReplayError)
  /-- The light client refused. -/
  | header (cause : HeaderError)
  /-- The claim was refused. -/
  | claim (cause : ClaimError)
  /-- The committee store refused. -/
  | committee (cause : CommitteeError)
  /-- Custody refused. -/
  | custody (cause : CustodyError)
deriving DecidableEq

namespace BridgeError

/-- The wording of a refusal. -/
def message : BridgeError → String
  | .unknownSideChain chain => "Side chain " ++ toString chain ++ " is not registered"
  | .unrouted chain router => "No verifier routed for chain " ++ toString chain ++ " (router " ++
      toString router ++ ")"
  | .claimMismatch chain expected actual => "Chain " ++ toString chain ++ " is verified by " ++
      expected.label ++ ", claim is " ++ actual.label
  | .config complaint => "Invalid configuration: " ++ complaint
  | .replay cause => cause.message
  | .header cause => cause.message
  | .claim cause => cause.message
  | .committee cause => cause.message
  | .custody cause => cause.message

/-- The kind of a refusal. -/
def kind : BridgeError → FailureKind
  | .replay cause => cause.kind
  | .header cause => cause.kind
  | .claim cause => cause.kind
  | .committee cause => cause.kind
  | .custody cause => cause.kind
  | _ => .malformedInput

instance : Refusal BridgeError := ⟨kind, message⟩

end BridgeError

end BridgeKernel
