import BridgeKernel.Bytes
import BridgeKernel.Event
import BridgeKernel.Text.Utf8

/-!
# Record keys

A record lies under the address of the bridge's module, the tag of its kind, a slash, and segments
that tell the records of one kind apart. Chain ids and heights are eight bytes big-endian, so the
records of one chain are listed in ascending height.
-/

namespace BridgeKernel

/-- The kinds of record. -/
inductive RecordKind where
  /-- A trusted foreign header, by its digest. -/
  | header
  /-- The canonical digest at a height. -/
  | canonical
  /-- The height of the canonical tip. -/
  | height
  /-- The header at which a chain's light client began. -/
  | genesis
  /-- A validator set, by its first height. -/
  | epoch
  /-- The votes for a message, by its digest. -/
  | vote
  /-- The mark of an applied cross-chain id. -/
  | applied
  /-- The trusted signing committee of a chain. -/
  | committee
  /-- A custody script. -/
  | redeem
  /-- Spendable outputs. -/
  | utxo
  /-- Spent outputs. -/
  | stxo
  /-- A payment waiting for signatures. -/
  | draft
  /-- The signatures collected for a payment. -/
  | multisig
deriving DecidableEq, Repr

namespace RecordKind

/-- All kinds. -/
def all : List RecordKind :=
  [.header, .canonical, .height, .genesis, .epoch, .vote, .applied, .committee, .redeem, .utxo,
    .stxo, .draft, .multisig]

/-- The name of a kind, which is also its tag in keys. -/
def label : RecordKind → String
  | .header => "header"
  | .canonical => "canonical"
  | .height => "height"
  | .genesis => "genesis"
  | .epoch => "epoch"
  | .vote => "vote"
  | .applied => "applied"
  | .committee => "committee"
  | .redeem => "redeem"
  | .utxo => "utxo"
  | .stxo => "stxo"
  | .draft => "draft"
  | .multisig => "multisig"

/-- The kind with a given name. -/
def ofLabel? (text : String) : Option RecordKind := all.find? (·.label == text)

/-- The bytes of the tag. -/
def tag (kind : RecordKind) : Bytes := Utf8.encode kind.label

end RecordKind

/-- A part of a key after the tag. -/
inductive KeySegment where
  /-- A chain id or a height. -/
  | number (n : UInt64)
  /-- A digest, id or text. -/
  | opaqueBytes (bytes : Bytes)
deriving DecidableEq

/-- The bytes of a segment. -/
def KeySegment.toBytes : KeySegment → Bytes
  | .number n => Bytes.ofNatBE 8 n.toNat
  | .opaqueBytes bytes => bytes

/-- The key of a kind and its segments under a module address. -/
def keyBytes (module : Bytes) (kind : RecordKind) (segments : List KeySegment) : Bytes :=
  module ++ kind.tag ++ [0x2f] ++ segments.flatMap KeySegment.toBytes

/-- What a record is about: the part of the bridge's memory that it holds. -/
inductive RecordKey where
  /-- The header of a chain with a digest. -/
  | header (chain : ChainId) (hash : Hash)
  /-- The canonical digest of a chain at a height. -/
  | canonical (chain : ChainId) (height : UInt64)
  /-- The canonical height of a chain. -/
  | height (chain : ChainId)
  /-- The beginning of a chain's light client. -/
  | genesis (chain : ChainId)
  /-- The validator set of a chain that begins at a height. -/
  | epoch (chain : ChainId) (start : UInt64)
  /-- The votes for the message with a digest. -/
  | vote (hash : Hash)
  /-- The mark of a chain's cross-chain id. -/
  | applied (chain : ChainId) (id : Bytes)
  /-- The committee of a chain. -/
  | committee (chain : ChainId)
  /-- The script of a chain under a custody key. -/
  | redeem (chain : ChainId) (key : String)
  /-- The spendable outputs of a chain under a custody key. -/
  | utxo (chain : ChainId) (key : String)
  /-- The spent outputs of a chain under a custody key. -/
  | stxo (chain : ChainId) (key : String)
  /-- The unsigned payment of a chain with a transaction id. -/
  | draft (chain : ChainId) (txid : Hash)
  /-- The signatures for the transaction with an id. -/
  | multisig (txid : Hash)
deriving DecidableEq

namespace RecordKey

/-- The kind of a record. -/
def kind : RecordKey → RecordKind
  | .header .. => .header
  | .canonical .. => .canonical
  | .height .. => .height
  | .genesis .. => .genesis
  | .epoch .. => .epoch
  | .vote .. => .vote
  | .applied .. => .applied
  | .committee .. => .committee
  | .redeem .. => .redeem
  | .utxo .. => .utxo
  | .stxo .. => .stxo
  | .draft .. => .draft
  | .multisig .. => .multisig

/-- What follows the tag in a record's key. -/
def segments : RecordKey → List KeySegment
  | .header chain hash => [.number chain, .opaqueBytes hash.toBytes]
  | .canonical chain level => [.number chain, .number level]
  | .height chain => [.number chain]
  | .genesis chain => [.number chain]
  | .epoch chain start => [.number chain, .number start]
  | .vote hash => [.opaqueBytes hash.toBytes]
  | .applied chain id => [.number chain, .opaqueBytes id]
  | .committee chain => [.number chain]
  | .redeem chain key => [.number chain, .opaqueBytes (Utf8.encode key)]
  | .utxo chain key => [.number chain, .opaqueBytes (Utf8.encode key)]
  | .stxo chain key => [.number chain, .opaqueBytes (Utf8.encode key)]
  | .draft chain txid => [.number chain, .opaqueBytes txid.toBytes]
  | .multisig txid => [.opaqueBytes txid.toBytes]

/-- The key bytes of a record under a module address. -/
def toBytes (module : Bytes) (key : RecordKey) : Bytes :=
  keyBytes module key.kind key.segments

end RecordKey

end BridgeKernel
