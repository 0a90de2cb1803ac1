import BridgeKernel.Committee.Basic

/-!
# Trusted committees

A chain's committee is installed once by governance and afterwards replaced only by a message that
the committee itself has signed.
-/

namespace BridgeKernel.CommitteeStore

/-- The committee of a chain. -/
def current? (chain : ChainId) : Transition CommitteeError (Option Committee) :=
  (State.load? (.committee chain)).mapError .storage

/-- Installs the first committee of a chain. -/
def install (chain : ChainId) (committee : Committee) : Transition CommitteeError Unit := do
  if ← (State.has (.committee chain)).mapError .storage then throw (.alreadySet chain)
  let _ ← Transition.ofExcept .invalid committee.parseKeys
  (State.store (.committee chain) committee).mapError .storage

/-- Checks that a message is for a chain and that enough members of a committee signed it. -/
def checkWitness (chain : ChainId) (committee : Committee) (message : CommitteeMessage) :
    Except CommitteeError Unit := do
  if message.body.chainId ≠ chain then throw (.chainMismatch chain message.body.chainId)
  let keys ← committee.parseKeys.mapError .invalid
  let digest ← message.body.digest
  let valid ← countSigners keys digest message.witness
  if valid < committee.threshold.toNat then throw (.insufficient valid committee.threshold.toNat)

/-- The committee of a chain and the message that it has signed. -/
def verified (chain : ChainId) (bytes : Bytes) :
    Transition CommitteeError (Committee × CommitteeMessage) := do
  match ← current? chain with
  | none => throw (.notSet chain)
  | some committee =>
    let message ← Transition.ofExcept id (CommitteeMessage.decode bytes)
    Transition.ofExcept id (checkWitness chain committee message)
    return (committee, message)

/-- The body of a message that a chain's committee has signed. -/
def verifyMessage (chain : ChainId) (bytes : Bytes) : Transition CommitteeError MessageBody := do
  return (← verified chain bytes).2.body

/-- The successor that a message names for a committee, as of the message's height. -/
def successor (current : Committee) (body : MessageBody) : Except CommitteeError Committee :=
  if body.height ≤ current.height then .error (.staleRotation body.height current.height)
  else
    match body.nextCommittee with
    | none => .error (.invalid .noSuccessor)
    | some next =>
      match next.parseKeys with
      | .error fault => .error (.invalid fault)
      | .ok _ => .ok { next with height := body.height }

/-- Replaces a chain's committee by the successor that it has named. -/
def rotate (chain : ChainId) (bytes : Bytes) : Transition CommitteeError Committee := do
  let (current, message) ← verified chain bytes
  let next ← Transition.ofExcept id (successor current message.body)
  (State.store (.committee chain) next).mapError .storage
  return next

end BridgeKernel.CommitteeStore
