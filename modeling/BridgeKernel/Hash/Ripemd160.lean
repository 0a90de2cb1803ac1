import BridgeKernel.Bytes
import BridgeKernel.Hash.Sha256

/-!
# RIPEMD-160 and the script digest

Two lines of eighty steps run over the same block and are added crosswise. A script or a public key
is addressed by the RIPEMD-160 digest of its SHA-256 digest.
-/

namespace BridgeKernel.Ripemd160

/-- The five working words. -/
structure State where
  /-- First word. -/
  a : UInt32
  /-- Second word. -/
  b : UInt32
  /-- Third word. -/
  c : UInt32
  /-- Fourth word. -/
  d : UInt32
  /-- Fifth word. -/
  e : UInt32

/-- The words before the first block. -/
def initialState : State := ⟨0x67452301, 0xefcdab89, 0x98badcfe, 0x10325476, 0xc3d2e1f0⟩

/-- Rotation to the left by an amount from 1 to 31. -/
def rotateLeft (x n : UInt32) : UInt32 := (x <<< n) ||| (x >>> (32 - n))

/-- The five Boolean functions, by the number of the group of sixteen steps. -/
def mix : Nat → UInt32 → UInt32 → UInt32 → UInt32
  | 0, x, y, z => x ^^^ y ^^^ z
  | 1, x, y, z => (x &&& y) ||| (~~~x &&& z)
  | 2, x, y, z => (x ||| ~~~y) ^^^ z
  | 3, x, y, z => (x &&& z) ||| (y &&& ~~~z)
  | _, x, y, z => x ^^^ (y ||| ~~~z)

/-- One group of sixteen steps: the function, the constant, and for each step the word it takes and
the amount it rotates by. -/
structure Group where
  /-- Number of the Boolean function. -/
  function : Nat
  /-- Constant added in each step. -/
  constant : UInt32
  /-- Word taken and rotation of each step. -/
  steps : List (Nat × UInt32)

/-- One step. -/
def step (block : List UInt32) (g : Group) (s : State) (wordAndShift : Nat × UInt32) : State :=
  let sum := s.a + mix g.function s.b s.c s.d + block.getD wordAndShift.1 0 + g.constant
  ⟨s.e, rotateLeft sum wordAndShift.2 + s.e, s.b, rotateLeft s.c 10, s.d⟩

/-- All steps of one line. -/
def runLine (block : List UInt32) (groups : List Group) (s : State) : State :=
  groups.foldl (fun s g => g.steps.foldl (step block g) s) s

/-- The left line. -/
def leftLine : List Group := [
  ⟨0, 0x00000000, [(0, 11), (1, 14), (2, 15), (3, 12), (4, 5), (5, 8), (6, 7), (7, 9),
    (8, 11), (9, 13), (10, 14), (11, 15), (12, 6), (13, 7), (14, 9), (15, 8)]⟩,
  ⟨1, 0x5a827999, [(7, 7), (4, 6), (13, 8), (1, 13), (10, 11), (6, 9), (15, 7), (3, 15),
    (12, 7), (0, 12), (9, 15), (5, 9), (2, 11), (14, 7), (11, 13), (8, 12)]⟩,
  ⟨2, 0x6ed9eba1, [(3, 11), (10, 13), (14, 6), (4, 7), (9, 14), (15, 9), (8, 13), (1, 15),
    (2, 14), (7, 8), (0, 13), (6, 6), (13, 5), (11, 12), (5, 7), (12, 5)]⟩,
  ⟨3, 0x8f1bbcdc, [(1, 11), (9, 12), (11, 14), (10, 15), (0, 14), (8, 15), (12, 9), (4, 8),
    (13, 9), (3, 14), (7, 5), (15, 6), (14, 8), (5, 6), (6, 5), (2, 12)]⟩,
  ⟨4, 0xa953fd4e, [(4, 9), (0, 15), (5, 5), (9, 11), (7, 6), (12, 8), (2, 13), (10, 12),
    (14, 5), (1, 12), (3, 13), (8, 14), (11, 11), (6, 8), (15, 5), (13, 6)]⟩]

/-- The right line, which takes the Boolean functions in the opposite order. -/
def rightLine : List Group := [
  ⟨4, 0x50a28be6, [(5, 8), (14, 9), (7, 9), (0, 11), (9, 13), (2, 15), (11, 15), (4, 5),
    (13, 7), (6, 7), (15, 8), (8, 11), (1, 14), (10, 14), (3, 12), (12, 6)]⟩,
  ⟨3, 0x5c4dd124, [(6, 9), (11, 13), (3, 15), (7, 7), (0, 12), (13, 8), (5, 9), (10, 11),
    (14, 7), (15, 7), (8, 12), (12, 7), (4, 6), (9, 15), (1, 13), (2, 11)]⟩,
  ⟨2, 0x6d703ef3, [(15, 9), (5, 7), (1, 15), (3, 11), (7, 8), (14, 6), (6, 6), (9, 14),
    (11, 12), (8, 13), (12, 5), (2, 14), (10, 13), (0, 13), (4, 7), (13, 5)]⟩,
  ⟨1, 0x7a6d76e9, [(8, 15), (6, 5), (4, 8), (1, 11), (3, 14), (11, 14), (15, 6), (0, 14),
    (5, 6), (12, 9), (2, 12), (13, 9), (9, 12), (7, 5), (10, 15), (14, 8)]⟩,
  ⟨0, 0x00000000, [(12, 8), (15, 5), (10, 12), (4, 9), (1, 12), (5, 5), (8, 14), (7, 6),
    (6, 8), (2, 13), (13, 6), (14, 5), (0, 15), (3, 13), (9, 11), (11, 11)]⟩]

/-- The little-endian words of a block. -/
def words : Bytes → List UInt32
  | a :: b :: c :: d :: rest =>
    (a.toUInt32 ||| (b.toUInt32 <<< 8) ||| (c.toUInt32 <<< 16) ||| (d.toUInt32 <<< 24)) :: words rest
  | _ => []

/-- The state after one block of sixty-four bytes. -/
def compress (s : State) (block : Bytes) : State :=
  let l := runLine (words block) leftLine s
  let r := runLine (words block) rightLine s
  ⟨s.b + l.c + r.d, s.c + l.d + r.e, s.d + l.e + r.a, s.e + l.a + r.b, s.a + l.b + r.c⟩

/-- The message, a one bit, zeros, and the bit length, to a whole number of blocks. -/
def pad (message : Bytes) : Bytes :=
  message ++ 0x80 :: List.replicate ((119 - message.length % 64) % 64) 0 ++
    Bytes.ofNatLE 8 (8 * message.length)

/-- A word as four bytes, least significant first. -/
def wordBytes (w : UInt32) : Bytes :=
  [w.toUInt8, (w >>> 8).toUInt8, (w >>> 16).toUInt8, (w >>> 24).toUInt8]

/-- The RIPEMD-160 digest. -/
def hash (message : Bytes) : FixedBytes 20 :=
  let s := (Bytes.wholePieces 64 (pad message)).foldl compress initialState
  ⟨wordBytes s.a ++ wordBytes s.b ++ wordBytes s.c ++ wordBytes s.d ++ wordBytes s.e, rfl⟩

/-- The digest under which a script or key is addressed: RIPEMD-160 of SHA-256. -/
def hash160 (message : Bytes) : FixedBytes 20 := hash (Sha256.hash message).toBytes

end BridgeKernel.Ripemd160
