import BridgeKernel.Curve.Ecdsa
import BridgeKernel.Event
import BridgeKernel.Store.State

/-!
# Signing committees

A committee is a threshold and an ordered list of public keys. It signs messages that declare a root
of its chain and may name a successor.
-/

namespace BridgeKernel

/-- A committee of a foreign chain. -/
structure Committee where
  /-- The foreign height at which it took over. -/
  height : UInt64
  /-- How many different members must sign. -/
  threshold : UInt32
  /-- The members' keys, 33 bytes each. -/
  publicKeys : List Bytes
deriving DecidableEq

instance : Record Committee where
  write c := Record.write c.height ++ Record.write c.threshold ++ Record.write c.publicKeys
  read := do
    let height ← Record.read
    let threshold ← Record.read
    let publicKeys ← Record.read
    return { height, threshold, publicKeys }
  fits c := Record.fits c.publicKeys

/-- What is wrong with a committee. -/
inductive CommitteeFault where
  /-- It has no keys. -/
  | noKeys
  /-- Its threshold cannot be met or is zero. -/
  | threshold (threshold : UInt32) (keys : Nat)
  /-- A key cannot be read. -/
  | badKey (position : Nat) (cause : SignatureError)
  /-- A key stands twice. -/
  | repeatedKey (position : Nat)
  /-- A message that should name a successor names none. -/
  | noSuccessor
deriving DecidableEq, Repr

/-- The wording of a fault in a committee. -/
def CommitteeFault.message : CommitteeFault → String
  | .noKeys => "no keys"
  | .threshold stated keys => "threshold " ++ toString stated ++ " outside 1..=" ++
      toString keys
  | .badKey position cause => "key " ++ toString position ++ ": " ++ cause.message
  | .repeatedKey position => "key " ++ toString position ++ " repeated"
  | .noSuccessor => "message names no successor"

/-- What is wrong with a signature under a message. -/
inductive WitnessFault where
  /-- The committee has no key at this place. -/
  | keyOutOfRange
  /-- The key has signed already. -/
  | signedTwice
  /-- The signature is not 64 bytes long. -/
  | signatureLength
  /-- The signature does not fit. -/
  | signature (cause : SignatureError)
deriving DecidableEq, Repr

/-- The wording of a fault in a signature. -/
def WitnessFault.message : WitnessFault → String
  | .keyOutOfRange => "key index out of range"
  | .signedTwice => "key signed twice"
  | .signatureLength => "signature is not 64 bytes"
  | .signature cause => cause.message

/-- Why a committee or its message was refused. -/
inductive CommitteeError where
  /-- The message is too large, or its bytes are no message. -/
  | messageDecode (cause : Option Record.Error)
  /-- The chain has no committee. -/
  | notSet (chain : ChainId)
  /-- The chain has a committee already. -/
  | alreadySet (chain : ChainId)
  /-- A committee is unusable. -/
  | invalid (fault : CommitteeFault)
  /-- A successor does not come after the committee. -/
  | staleRotation (height current : UInt64)
  /-- A signature is unusable. -/
  | invalidWitness (position : Nat) (fault : WitnessFault)
  /-- The message was signed for another chain. -/
  | chainMismatch (expected actual : ChainId)
  /-- Too few members signed. -/
  | insufficient (valid threshold : Nat)
  /-- The store failed. -/
  | storage (cause : StorageError)
deriving DecidableEq

namespace CommitteeError

/-- The wording of a refusal. -/
def message : CommitteeError → String
  | .messageDecode (some cause) => "Committee message decode failed: " ++ cause.message
  | .messageDecode none => "Committee message decode failed: the size limit has been reached"
  | .notSet chain => "No committee for chain " ++ toString chain
  | .alreadySet chain => "Committee for chain " ++ toString chain ++ " already set"
  | .invalid fault => "Invalid committee: " ++ fault.message
  | .staleRotation height current => "Rotation at height " ++ toString height ++
      " does not follow committee height " ++ toString current
  | .invalidWitness position fault => "Witness " ++ toString position ++ " invalid: " ++
      fault.message
  | .chainMismatch expected actual => "Committee message signed for chain " ++ toString actual ++
      ", expected " ++ toString expected
  | .insufficient valid threshold => "Committee signatures: " ++ toString valid ++
      " valid, threshold " ++ toString threshold
  | .storage cause => cause.message

/-- The kind of a refusal. -/
def kind : CommitteeError → FailureKind
  | .invalidWitness .. => .untrustedClaim
  | .chainMismatch .. => .untrustedClaim
  | .insufficient .. => .untrustedClaim
  | .storage cause => cause.kind
  | _ => .malformedInput

instance : Refusal CommitteeError := ⟨kind, message⟩

end CommitteeError

namespace Committee

/-- Reads keys in order after those read so far; each must be new. -/
def readKeys : List Bytes → List PublicKey → Except CommitteeFault (List PublicKey)
  | [], known => .ok known
  | bytes :: rest, known =>
    match PublicKey.ofBytes bytes with
    | .error cause => .error (.badKey known.length cause)
    | .ok key =>
      if known.contains key then .error (.repeatedKey known.length)
      else readKeys rest (known ++ [key])

/-- The keys of a usable committee: there are keys, the threshold can be met, and no key stands
twice. -/
def parseKeys (c : Committee) : Except CommitteeFault (List PublicKey) :=
  if c.publicKeys.isEmpty then .error .noKeys
  else if c.threshold = 0 ∨ c.publicKeys.length < c.threshold.toNat then
    .error (.threshold c.threshold c.publicKeys.length)
  else readKeys c.publicKeys []

end Committee

/-- What a committee signs. -/
structure MessageBody where
  /-- Version of the format. -/
  version : UInt8
  /-- The chain for which the committee signs. -/
  chainId : ChainId
  /-- The foreign height of the root. -/
  height : UInt64
  /-- The root of the chain's transactions or state. -/
  stateRoot : Hash
  /-- The successor, if the message names one. -/
  nextCommittee : Option Committee
deriving DecidableEq

instance : Record MessageBody where
  write b := Record.write b.version ++ Record.write b.chainId ++ Record.write b.height ++
    Record.write b.stateRoot ++ Record.write b.nextCommittee
  read := do
    let version ← Record.read
    let chainId ← Record.read
    let height ← Record.read
    let stateRoot ← Record.read
    let nextCommittee ← Record.read
    return { version, chainId, height, stateRoot, nextCommittee }
  fits b := Record.fits b.nextCommittee

/-- One member's signature. -/
structure WitnessEntry where
  /-- The place of the member's key. -/
  keyIndex : UInt32
  /-- The signature of the body's digest. -/
  signature : Bytes
deriving DecidableEq

instance : Record WitnessEntry where
  write w := Record.write w.keyIndex ++ Record.write w.signature
  read := do
    let keyIndex ← Record.read
    let signature ← Record.read
    return { keyIndex, signature }
  fits w := Record.fits w.signature

/-- A signed message. -/
structure CommitteeMessage where
  /-- What is signed. -/
  body : MessageBody
  /-- The signatures. -/
  witness : List WitnessEntry
deriving DecidableEq

instance : Record CommitteeMessage where
  write m := Record.write m.body ++ Record.write m.witness
  read := do
    let body ← Record.read
    let witness ← Record.read
    return { body, witness }
  fits m := Record.fits m.body && Record.fits m.witness

/-- The bytes that a committee signs the digest of. -/
def MessageBody.preimage (b : MessageBody) : Except CommitteeError Bytes :=
  if Record.fits b then .ok (Record.write b) else .error (.messageDecode none)

/-- The digest that a committee signs. -/
def MessageBody.digest (b : MessageBody) : Except CommitteeError Hash :=
  b.preimage.map Sha256.hash

namespace CommitteeMessage

/-- The bytes of a message. -/
def encode (m : CommitteeMessage) : Except CommitteeError Bytes :=
  if Record.fits m then .ok (Record.write m) else .error (.messageDecode none)

/-- The message at the front of a byte string. -/
def decode (bytes : Bytes) : Except CommitteeError CommitteeMessage :=
  match Record.decode bytes with
  | .ok m => .ok m
  | .error cause => .error (.messageDecode (some cause))

end CommitteeMessage

/-- Checks one signature against the keys that have not signed yet. -/
def WitnessEntry.check (keys : List PublicKey) (digest : Hash) (signed : List UInt32)
    (entry : WitnessEntry) : Except WitnessFault Unit :=
  match keys[entry.keyIndex.toNat]? with
  | none => .error .keyOutOfRange
  | some key =>
    if signed.contains entry.keyIndex then .error .signedTwice
    else
      match FixedBytes.ofBytes? 64 entry.signature with
      | none => .error .signatureLength
      | some signature =>
        match key.verify digest signature with
        | .ok () => .ok ()
        | .error cause => .error (.signature cause)

/-- Counts the members that signed; one unusable signature refuses all. -/
def countSigners (keys : List PublicKey) (digest : Hash) (witness : List WitnessEntry) :
    Except CommitteeError Nat :=
  go witness []
where
  /-- Goes on after the members that have signed. -/
  go : List WitnessEntry → List UInt32 → Except CommitteeError Nat
    | [], signed => .ok signed.length
    | entry :: rest, signed =>
      match entry.check keys digest signed with
      | .error fault => .error (.invalidWitness signed.length fault)
      | .ok () => go rest (signed ++ [entry.keyIndex])

end BridgeKernel
