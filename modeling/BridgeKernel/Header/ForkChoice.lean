import BridgeKernel.Header.Trusted

/-!
# Fork choice

The header with the greatest weight ends the canonical chain; of equal weights the earlier stays.
-/

namespace BridgeKernel

/-- How the canonical markers change for a new tip. -/
structure CanonicalUpdate where
  /-- Heights whose marker goes away. -/
  clear : List UInt64
  /-- Markers to set, from the new tip downwards. -/
  assign : List (UInt64 × Hash)
  /-- The new canonical height. -/
  newHeight : UInt64
deriving DecidableEq

/-- The heights from one to another, both included. -/
def heightsFrom (low high : UInt64) : List UInt64 :=
  (List.range' low.toNat (high.toNat + 1 - low.toNat)).map UInt64.ofNat

/-- A height is listed exactly when it lies between the two. -/
theorem mem_heightsFrom {low high level : UInt64} :
    level ∈ heightsFrom low high ↔ low ≤ level ∧ level ≤ high := by
  have bound := high.toNat_lt
  simp only [heightsFrom, List.mem_map, List.mem_range'_1, UInt64.le_iff_toNat_le]
  constructor
  · rintro ⟨n, range, rfl⟩
    have back : (UInt64.ofNat n).toNat = n :=
      UInt64.toNat_ofNat_of_lt' (show n < 2 ^ 64 by omega)
    omega
  · intro range
    exact ⟨level.toNat, by omega, UInt64.ofNat_toNat⟩

namespace ChainView

/-- The markers to set below a height, down to the first ancestor that is canonical already. The
height shrinks with every step. -/
def relabel (view : ChainView) : (level : Nat) → Hash →
    Transition HeaderError (List (UInt64 × Hash))
  | 0, _ => pure []
  | level + 1, hash => do
    if (← view.canonical? (UInt64.ofNat level)) = some hash then return []
    match ← view.header? hash with
    | none => throw (.unknownParent (UInt64.ofNat (level + 1)) hash)
    | some ancestor =>
      let below ← relabel view level ancestor.parentHash
      return (UInt64.ofNat level, hash) :: below

/-- The change of markers for a new header, or none when it does not outweigh the tip. The markers
from the next height up to the tip go away; after the greatest height the next one is zero. -/
def planUpdate (view : ChainView) (new tip : TrustedHeader) :
    Transition HeaderError (Option CanonicalUpdate) := do
  if new.weight ≤ tip.weight then return none
  let below ← view.relabel new.number.toNat new.parentHash
  return some {
    clear := heightsFrom (new.number + 1) tip.number
    assign := (new.number, new.hash) :: below
    newHeight := new.number }

end ChainView

end BridgeKernel
