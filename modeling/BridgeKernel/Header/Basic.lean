import BridgeKernel.Event
import BridgeKernel.Hash.Keccak256
import BridgeKernel.Wire.Record
import BridgeKernel.Wire.Rlp

/-!
# Block headers of validator chains

A header's extra-data is a vanity of 32 bytes, at an epoch boundary the addresses of the next
validators, and the producer's seal of 65 bytes. A header is known by the digest of its encoding,
and its producer signs the digest of the unsealed header in front of which the chain id stands.
-/

namespace BridgeKernel

/-- A block header. -/
structure Header where
  /-- Digest of the parent header. -/
  parentHash : Hash
  /-- Digest of the list of uncles, which must be empty. -/
  uncleHash : Hash
  /-- The declared producer. -/
  coinbase : Address
  /-- Root of the state. -/
  stateRoot : Hash
  /-- Root of the transactions. -/
  txRoot : Hash
  /-- Root of the receipts. -/
  receiptRoot : Hash
  /-- Filter over the logs. -/
  bloom : FixedBytes 256
  /-- Two when the producer is in turn and one otherwise. -/
  difficulty : UInt64
  /-- Height. -/
  number : UInt64
  /-- Limit of gas. -/
  gasLimit : UInt64
  /-- Gas used. -/
  gasUsed : UInt64
  /-- Unix time in seconds. -/
  time : UInt64
  /-- Vanity, validators and seal. -/
  extra : Bytes
  /-- Unused, zero. -/
  mixDigest : Hash
  /-- Unused. -/
  nonce : FixedBytes 8
deriving DecidableEq

namespace Header

/-- Bytes of the vanity. -/
def vanityLength : Nat := 32

/-- Bytes of the seal. -/
def sealLength : Nat := 65

/-- Bytes of a validator's address. -/
def validatorLength : Nat := 20

/-- The difficulty of a header whose producer is in turn. -/
def inTurnDifficulty : UInt64 := 2

/-- The difficulty of a header whose producer is out of turn. -/
def outOfTurnDifficulty : UInt64 := 1

/-- The digest of the encoding of an empty list. -/
def emptyUncleHash : Hash :=
  ⟨[0x1d, 0xcc, 0x4d, 0xe8, 0xde, 0xc7, 0x5d, 0x7a, 0xab, 0x85, 0xb5, 0x67, 0xb6, 0xcc, 0xd4,
    0x1a, 0xd3, 0x12, 0x45, 0x1b, 0x94, 0x8a, 0x74, 0x13, 0xf0, 0xa1, 0x42, 0xfd, 0x40, 0xd4,
    0x93, 0x47], rfl⟩

/-- A header with nothing filled in but what every header carries. -/
def blank : Header where
  parentHash := .zero 32
  uncleHash := emptyUncleHash
  coinbase := .zero 20
  stateRoot := .zero 32
  txRoot := .zero 32
  receiptRoot := .zero 32
  bloom := .zero 256
  difficulty := inTurnDifficulty
  number := 0
  gasLimit := 30000000
  gasUsed := 0
  time := 0
  extra := List.replicate (vanityLength + sealLength) 0
  mixDigest := .zero 32
  nonce := .zero 8

instance : Inhabited Header := ⟨blank⟩

/-! ## Extra-data -/

/-- Whether extra-data is long enough for a vanity and a seal. -/
def hasSeal (h : Header) : Bool := vanityLength + sealLength ≤ h.extra.length

/-- The seal at the end of extra-data. -/
def seal? (h : Header) : Option (FixedBytes 65) :=
  if h.hasSeal then FixedBytes.ofBytes? 65 (h.extra.drop (h.extra.length - sealLength)) else none

/-- The bytes between vanity and seal. -/
def validatorBytes (h : Header) : Bytes :=
  if h.hasSeal then (h.extra.take (h.extra.length - sealLength)).drop vanityLength else []

/-- The addresses between vanity and seal, when these bytes are whole addresses. -/
def validators? (h : Header) : Option (List Address) :=
  if h.validatorBytes.length % validatorLength = 0 then
    (Bytes.wholePieces validatorLength h.validatorBytes).mapM (FixedBytes.ofBytes? 20)
  else none

/-- Extra-data from its three parts. -/
def buildExtra (vanity : FixedBytes 32) (validators : List Address) (sealBytes : FixedBytes 65) :
    Bytes :=
  vanity.toBytes ++ validators.flatMap FixedBytes.toBytes ++ sealBytes.toBytes

/-- Extra-data without the room for a seal. -/
def unsealedExtra (h : Header) : Bytes := h.extra.take (h.extra.length - sealLength)

/-- The header with its last bytes replaced by a seal, when there is room for one. -/
def setSeal (h : Header) (sealBytes : FixedBytes 65) : Header :=
  if sealLength ≤ h.extra.length then { h with extra := h.unsealedExtra ++ sealBytes.toBytes }
  else h

/-! ## Digests -/

/-- The encoded fields, with the given extra-data. -/
def fieldItems (h : Header) (extra : Bytes) : List Bytes :=
  [Rlp.encodeBytes h.parentHash.toBytes, Rlp.encodeBytes h.uncleHash.toBytes,
    Rlp.encodeBytes h.coinbase.toBytes, Rlp.encodeBytes h.stateRoot.toBytes,
    Rlp.encodeBytes h.txRoot.toBytes, Rlp.encodeBytes h.receiptRoot.toBytes,
    Rlp.encodeBytes h.bloom.toBytes, Rlp.encodeNat h.difficulty.toNat,
    Rlp.encodeNat h.number.toNat, Rlp.encodeNat h.gasLimit.toNat, Rlp.encodeNat h.gasUsed.toNat,
    Rlp.encodeNat h.time.toNat, Rlp.encodeBytes extra, Rlp.encodeBytes h.mixDigest.toBytes,
    Rlp.encodeBytes h.nonce.toBytes]

/-- The encoded header. -/
def encode (h : Header) : Bytes := Rlp.encodeList (h.fieldItems h.extra)

/-- The digest by which the header is known. -/
def hash (h : Header) : Hash := Keccak256.hash h.encode

/-- The bytes whose digest the producer signs on a chain. -/
def sealPreimage (h : Header) (chain : ChainId) : Bytes :=
  Rlp.encodeList (Rlp.encodeNat chain.toNat :: h.fieldItems h.unsealedExtra)

/-- The digest that the producer signs on a chain. -/
def sealHash (h : Header) (chain : ChainId) : Hash := Keccak256.hash (h.sealPreimage chain)

/-- A field of fixed length. -/
def readFixed (n : Nat) (item : Bytes) : Except Rlp.Error (FixedBytes n) := do
  match FixedBytes.ofBytes? n (← Rlp.readBytes item) with
  | some a => return a
  | none => throw (.custom "fixed-size header field has wrong length")

/-- A field that is a 64-bit number. -/
def readWord (item : Bytes) : Except Rlp.Error UInt64 := do
  return UInt64.ofNat (← Rlp.readNat 8 item)

/-- The header that fifteen items spell, read in order. -/
def ofItems : List Bytes → Except Rlp.Error Header
  | [parentHash, uncleHash, coinbase, stateRoot, txRoot, receiptRoot, bloom, difficulty, number,
      gasLimit, gasUsed, time, extra, mixDigest, nonce] => do
    return {
      parentHash := ← readFixed 32 parentHash
      uncleHash := ← readFixed 32 uncleHash
      coinbase := ← readFixed 20 coinbase
      stateRoot := ← readFixed 32 stateRoot
      txRoot := ← readFixed 32 txRoot
      receiptRoot := ← readFixed 32 receiptRoot
      bloom := ← readFixed 256 bloom
      difficulty := ← readWord difficulty
      number := ← readWord number
      gasLimit := ← readWord gasLimit
      gasUsed := ← readWord gasUsed
      time := ← readWord time
      extra := ← Rlp.readBytes extra
      mixDigest := ← readFixed 32 mixDigest
      nonce := ← readFixed 8 nonce }
  | _ => .error .incorrectListLen

/-- The header at the front of a byte string. -/
def decode (bytes : Bytes) : Except Rlp.Error Header := Rlp.items bytes >>= ofItems

/-! ## The stored form -/

/-- Reads a byte string of known length that is stored with its length. -/
def readBloom : Record.Reader (FixedBytes 256) := do
  let length ← Record.takeNat 8
  let bytes ← Record.takeBytes .endOfText length
  match FixedBytes.ofBytes? 256 bytes with
  | some bloom => return bloom
  | none => throw (.byteCount length 256)

instance : Record Header where
  write h :=
    Record.write h.parentHash ++ Record.write h.uncleHash ++ Record.write h.coinbase ++
      Record.write h.stateRoot ++ Record.write h.txRoot ++ Record.write h.receiptRoot ++
      (Record.lengthBytes 256 ++ h.bloom.toBytes) ++ Record.write h.difficulty ++
      Record.write h.number ++ Record.write h.gasLimit ++ Record.write h.gasUsed ++
      Record.write h.time ++ Record.write h.extra ++ Record.write h.mixDigest ++
      Record.write h.nonce
  read := do
    let parentHash ← Record.read
    let uncleHash ← Record.read
    let coinbase ← Record.read
    let stateRoot ← Record.read
    let txRoot ← Record.read
    let receiptRoot ← Record.read
    let bloom ← readBloom
    let difficulty ← Record.read
    let number ← Record.read
    let gasLimit ← Record.read
    let gasUsed ← Record.read
    let time ← Record.read
    let extra ← Record.read
    let mixDigest ← Record.read
    let nonce ← Record.read
    return { parentHash, uncleHash, coinbase, stateRoot, txRoot, receiptRoot, bloom, difficulty,
             number, gasLimit, gasUsed, time, extra, mixDigest, nonce }
  fits h := Record.fits h.extra

end Header

end BridgeKernel
