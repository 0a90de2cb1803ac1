import BridgeKernel.Header.Basic
import BridgeKernel.Header.Error

/-!
# Trusted headers

What a light client keeps of each accepted header, where its chain began, and the view of one chain
that epochs and fork choice are decided on.
-/

namespace BridgeKernel

/-- The sum of the difficulties of a header and its ancestors. -/
abbrev Weight := BitVec 128

/-- An accepted header. -/
structure TrustedHeader where
  /-- Its digest. -/
  hash : Hash
  /-- The header itself. -/
  header : Header
  /-- The producer recovered from the seal. -/
  signer : Address
  /-- Sum of difficulties since the genesis. -/
  weight : Weight
deriving DecidableEq

instance : Record TrustedHeader where
  write t := Record.write t.hash ++ Record.write t.header ++ Record.write t.signer ++
    Record.write t.weight
  read := do
    let hash ← Record.read
    let header ← Record.read
    let signer ← Record.read
    let weight ← Record.read
    return { hash, header, signer, weight }
  fits t := Record.fits t.header

namespace TrustedHeader

/-- The height. -/
def number (t : TrustedHeader) : UInt64 := t.header.number

/-- The digest of the parent. -/
def parentHash (t : TrustedHeader) : Hash := t.header.parentHash

end TrustedHeader

/-- Where a chain's light client began. -/
structure GenesisRecord where
  /-- Digest of the genesis header. -/
  hash : Hash
  /-- Its height. -/
  number : UInt64
  /-- First height of the validator set before it. -/
  priorEpochStart : UInt64
deriving DecidableEq

instance : Record GenesisRecord where
  write g := Record.write g.hash ++ Record.write g.number ++ Record.write g.priorEpochStart
  read := do
    let hash ← Record.read
    let number ← Record.read
    let priorEpochStart ← Record.read
    return { hash, number, priorEpochStart }
  fits _ := true

/-- The trusted headers of one chain. -/
structure ChainView where
  /-- The header with a digest. -/
  header? : Hash → Transition HeaderError (Option TrustedHeader)
  /-- The canonical digest at a height. -/
  canonical? : UInt64 → Transition HeaderError (Option Hash)
  /-- A bound on the number of headers. -/
  size : Nat

namespace ChainView

/-- The view of a chain in the store, as of a state. -/
def ofStore (chain : ChainId) (s : State) : ChainView where
  header? hash := (State.load? (.header chain hash)).mapError .storage
  canonical? level := (State.load? (.canonical chain level)).mapError .storage
  size := s.records.size

/-- A view of listed headers, each under its own digest; the later of two entries with the same key
counts. -/
def ofLists (headers : List TrustedHeader) (canonical : List (UInt64 × Hash)) : ChainView where
  header? hash := pure (headers.reverse.find? (·.hash == hash))
  canonical? level := pure ((canonical.reverse.find? (·.1 == level)).map (·.2))
  size := headers.length

end ChainView

end BridgeKernel
