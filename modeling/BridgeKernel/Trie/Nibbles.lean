import BridgeKernel.Bytes

/-!
# Nibble paths

Tries are walked half a byte at a time. In nodes a path is written two nibbles a byte behind a flag
that says whether it is odd and whether it ends in a leaf.
-/

namespace BridgeKernel.Nibbles

/-- The nibbles of a byte string, high half first. -/
def ofBytes (bytes : Bytes) : List UInt8 := bytes.flatMap fun (b : UInt8) => [b >>> 4, b &&& 0x0f]

/-- Nibbles packed two a byte; a last odd one is followed by zero. -/
def pack : List UInt8 → Bytes
  | [] => []
  | [a] => [a <<< 4]
  | a :: b :: rest => ((a <<< 4) ||| b) :: pack rest

/-- The flag of a path: bit 0 says odd and bit 1 says leaf. -/
def flag (odd leaf : Bool) : UInt8 := (if leaf then 2 else 0) + (if odd then 1 else 0)

/-- A path as it is written in a node. -/
def encodePath (nibbles : List UInt8) (leaf : Bool) : Bytes :=
  if nibbles.length % 2 = 1 then
    match nibbles with
    | [] => []
    | first :: rest => ((flag true leaf <<< 4) ||| first) :: pack rest
  else (flag false leaf <<< 4) :: pack nibbles

/-- The path and leaf mark that bytes in a node spell, unless the flag is unknown or padding is not
zero. -/
def decodePath? : Bytes → Option (List UInt8 × Bool)
  | [] => none
  | first :: rest =>
    let code := first >>> 4
    if 3 < code then none
    else if code % 2 = 1 then some ((first &&& 0x0f) :: ofBytes rest, 2 ≤ code)
    else if first &&& 0x0f ≠ 0 then none
    else some (ofBytes rest, 2 ≤ code)

end BridgeKernel.Nibbles
