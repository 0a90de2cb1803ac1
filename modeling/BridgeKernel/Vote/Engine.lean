import BridgeKernel.Hash.Sha256
import BridgeKernel.Store.State
import BridgeKernel.Vote.Epoch

/-!
# Quorum votes

Validators vote for messages. The votes for a message are kept under its digest, each signer once
with the height of its vote, and the record remembers the height at which the votes first reached a
quorum. Casting a vote answers whether this very vote brought the quorum about.
-/

namespace BridgeKernel

/-- Limits of the vote engine. -/
structure VoteConfig where
  /-- Bytes of the longest message that can be voted for. -/
  maxMessageLen : Nat
deriving DecidableEq, Repr

namespace VoteConfig

/-- The limits used unless others are given. -/
def standard : VoteConfig := ⟨64 * 1024⟩

/-- Small limits for trials. -/
def trial : VoteConfig := ⟨1024⟩

/-- Says what is wrong with the limits. -/
def validate (c : VoteConfig) : Except String Unit :=
  if c.maxMessageLen = 0 then .error "max_message_len must be positive" else .ok ()

end VoteConfig

/-- The votes for one message. -/
structure VoteRecord where
  /-- Digest of the message. -/
  messageHash : Hash
  /-- The message itself. -/
  message : Bytes
  /-- Each signer with the height of its vote. -/
  signers : OrderedMap Address UInt64
  /-- The height at which the votes first reached a quorum. -/
  quorumReachedHeight : Option UInt64
deriving DecidableEq

instance : Record VoteRecord where
  write r := Record.write r.messageHash ++ Record.write r.message ++ Record.write r.signers ++
    Record.write r.quorumReachedHeight
  read := do
    let messageHash ← Record.read
    let message ← Record.read
    let signers ← Record.read
    let quorumReachedHeight ← Record.read
    return { messageHash, message, signers, quorumReachedHeight }
  fits r := Record.fits r.message && Record.fits r.signers

/-- Why a vote was refused. -/
inductive VoteError where
  /-- Another message is recorded under the same digest. -/
  | invalidSign (messageHash : Hash)
  /-- The signer is not in the validator set. -/
  | invalidAuthority (signer : Address)
  /-- The quorum is zero or larger than the set. -/
  | invalidQuorum (quorum validators : Nat)
  /-- The message is empty or too long. -/
  | invalidMessage (length max : Nat)
  /-- No validator set governs the height. -/
  | noEpoch (height : UInt64)
  /-- The store failed. -/
  | storage (cause : StorageError)
deriving DecidableEq

namespace VoteError

/-- The wording of a refusal. -/
def message : VoteError → String
  | .invalidSign hash => "Invalid sign: message content conflicts with record " ++ hash.toHex
  | .invalidAuthority signer => "Invalid authority: " ++ signer.toHex ++
      " is not an active validator"
  | .invalidQuorum quorum validators => "Invalid quorum " ++ toString quorum ++ " for " ++
      toString validators ++ " validators"
  | .invalidMessage length max => "Invalid message length " ++ toString length ++ " (max " ++
      toString max ++ ")"
  | .noEpoch height => "No validator epoch for height " ++ toString height
  | .storage cause => cause.message

/-- The kind of a refusal. -/
def kind : VoteError → FailureKind
  | .invalidSign _ => .untrustedClaim
  | .invalidAuthority _ => .authorityError
  | .invalidQuorum .. => .malformedInput
  | .invalidMessage .. => .malformedInput
  | .noEpoch _ => .malformedInput
  | .storage cause => cause.kind

instance : Refusal VoteError := ⟨kind, message⟩

end VoteError

namespace VoteRecord

/-- The record of a message without votes. -/
def start (message : Bytes) : VoteRecord := ⟨Sha256.hash message, message, .empty, none⟩

/-- The number of signers. -/
def signerCount (r : VoteRecord) : Nat := r.signers.size

/-- Whether a signer has voted. -/
def hasSigned (r : VoteRecord) (signer : Address) : Bool := r.signers.contains signer

/-- Whether a quorum was ever reached. -/
def isFinal (r : VoteRecord) : Bool := r.quorumReachedHeight.isSome

/-- The record with one more vote. -/
def addVote (r : VoteRecord) (signer : Address) (height : UInt64) : VoteRecord :=
  { r with signers := r.signers.insert signer height }

/-- Whether a further vote lifts the votes from below a quorum to it for the first time. -/
def reachedBy (r : VoteRecord) (signer : Address) (height : UInt64) (quorum : Nat) : Bool :=
  decide (r.signerCount < quorum) && decide (quorum ≤ (r.addVote signer height).signerCount) &&
    r.quorumReachedHeight.isNone

/-- The record after a further vote, with the height noted when that vote reached the quorum. -/
def cast (r : VoteRecord) (signer : Address) (height : UInt64) (quorum : Nat) : VoteRecord :=
  let voted := r.addVote signer height
  if r.reachedBy signer height quorum then { voted with quorumReachedHeight := some height }
  else voted

end VoteRecord

namespace Vote

/-- The votes kept under a digest. -/
def record? (hash : Hash) : Transition VoteError (Option VoteRecord) :=
  (State.load? (.vote hash)).mapError .storage

/-- The votes to which a vote for a message is added. -/
def recordFor (message : Bytes) : Transition VoteError VoteRecord := do
  match ← record? (Sha256.hash message) with
  | none => return .start message
  | some r => if r.message = message then return r else throw (.invalidSign (Sha256.hash message))

/-- Casts a vote under a validator set and a quorum. The answer is whether this vote reached the
quorum; a repeated vote changes nothing. -/
def cast (config : VoteConfig) (ctx : BlockContext) (epoch : ValidatorEpoch) (quorum : Nat)
    (signer : Address) (message : Bytes) : Transition VoteError Bool := do
  if message.isEmpty || config.maxMessageLen < message.length then
    throw (.invalidMessage message.length config.maxMessageLen)
  if quorum = 0 || epoch.size < quorum then throw (.invalidQuorum quorum epoch.size)
  if !epoch.contains signer then throw (.invalidAuthority signer)
  let record ← recordFor message
  if record.hasSigned signer then return false
  (State.store (.vote (Sha256.hash message)) (record.cast signer ctx.height quorum)).mapError
    .storage
  return record.reachedBy signer ctx.height quorum

/-- Casts a vote under the validator set that governs the current height, with its quorum. -/
def castInForce (config : VoteConfig) (ctx : BlockContext)
    (epochAt : UInt64 → Option ValidatorEpoch) (signer : Address) (message : Bytes) :
    Transition VoteError Bool := do
  match epochAt ctx.height with
  | none => throw (.noEpoch ctx.height)
  | some epoch => cast config ctx epoch epoch.quorumSize signer message

end Vote

end BridgeKernel
