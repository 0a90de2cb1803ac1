import BridgeKernel.Custody.Basic

/-!
# Coin selection

The largest outputs are spent first until a target is covered. Outputs of equal value go by
transaction and place, so that everybody picks the same ones.
-/

namespace BridgeKernel

/-- Outputs picked for a payment. -/
structure Selection where
  /-- The outputs to spend, in input order. -/
  chosen : List Utxo
  /-- The outputs left. -/
  remaining : List Utxo
  /-- The value of the chosen ones. -/
  total : Nat
deriving DecidableEq

namespace Selection

/-- Whether an output is spent no later than another. -/
def notAfter (a b : Utxo) : Bool :=
  match compare b.value a.value with
  | .lt => true
  | .gt => false
  | .eq =>
    match compare a.txid b.txid with
    | .lt => true
    | .gt => false
    | .eq => a.vout ≤ b.vout

/-- Puts an output in its place among outputs in order, before those equal to it. -/
def place (u : Utxo) : List Utxo → List Utxo
  | [] => [u]
  | v :: rest => if notAfter u v then u :: v :: rest else v :: place u rest

/-- The outputs in the order in which they are spent. -/
def order (utxos : List Utxo) : List Utxo := utxos.foldr place []

/-- Takes outputs until a target is covered, starting from a value already taken; nothing when their
value grows out of range. -/
def gather (target : Nat) : (taken : Nat) → List Utxo → Option Selection
  | taken, [] => some ⟨[], [], taken⟩
  | taken, u :: rest =>
    let sum := taken + u.value.toNat
    if UInt64.size ≤ sum then none
    else if target ≤ sum then some ⟨[u], rest, sum⟩
    else (gather target sum rest).map fun s => { s with chosen := u :: s.chosen }

/-- The outputs to spend for a target, at least one, or nothing when all together fall short. -/
def largestFirst (utxos : List Utxo) (target : UInt64) : Option Selection := do
  let s ← gather target.toNat 0 (order utxos)
  if s.total < target.toNat || s.chosen.isEmpty then none else some s

end Selection

end BridgeKernel
