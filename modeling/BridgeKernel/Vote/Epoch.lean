import BridgeKernel.Event
import BridgeKernel.Wire.Record

/-!
# Validator epochs

A validator set governs from its first height on until the next one. A quorum is what remains of a
set when as many validators as may be faulty, the floor of a third of all but one, are left out.
-/

namespace BridgeKernel

/-- A validator set and the first height that it governs. -/
structure ValidatorEpoch where
  /-- First height governed by the set. -/
  startHeight : UInt64
  /-- The validators in their order. -/
  validators : List Address
deriving DecidableEq

instance : Record ValidatorEpoch where
  write e := Record.write e.startHeight ++ Record.write e.validators
  read := do
    let start ← Record.read
    let validators ← Record.read
    return ⟨start, validators⟩
  fits e := Record.fits e.validators

namespace ValidatorEpoch

/-- The number of places in the set. -/
def size (e : ValidatorEpoch) : Nat := e.validators.length

/-- Whether the set has no places. -/
def isEmpty (e : ValidatorEpoch) : Bool := e.validators.isEmpty

/-- Whether an address is in the set. -/
def contains (e : ValidatorEpoch) (signer : Address) : Bool := e.validators.contains signer

/-- The first place of an address in the set. -/
def index? (e : ValidatorEpoch) (signer : Address) : Option Nat := e.validators.idxOf? signer

/-- The number of votes that no coalition of tolerated faulty validators can prevent or forge. -/
def quorumSize (e : ValidatorEpoch) : Nat :=
  if e.size = 0 then 0 else e.size - (e.size - 1) / 3

end ValidatorEpoch

/-- The validator sets that governance has announced, by first height. -/
abbrev EpochSource := OrderedMap UInt64 ValidatorEpoch

namespace EpochSource

/-- Announces a set; an earlier one with the same first height is replaced. -/
def announce (source : EpochSource) (e : ValidatorEpoch) : EpochSource :=
  source.insert e.startHeight e

/-- The set with the greatest first height. -/
def current? (source : EpochSource) : Option ValidatorEpoch := source.last?.map (·.2)

/-- The set that governs a height: the one with the greatest first height not above it. -/
def atHeight? (source : EpochSource) (height : UInt64) : Option ValidatorEpoch :=
  (source.lastUpTo? height).map (·.2)

end EpochSource

end BridgeKernel
