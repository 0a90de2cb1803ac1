import BridgeKernel.Bytes

/-!
# Keccak-256

The sponge over the 1600-bit permutation with the padding byte `01`. The state is five
planes of five 64-bit lanes, and each step of a round is written on planes.
-/

namespace BridgeKernel.Keccak256

/-- Five lanes in a row. -/
structure Plane where
  /-- Lane 0. -/
  l₀ : UInt64
  /-- Lane 1. -/
  l₁ : UInt64
  /-- Lane 2. -/
  l₂ : UInt64
  /-- Lane 3. -/
  l₃ : UInt64
  /-- Lane 4. -/
  l₄ : UInt64

/-- Five planes. -/
structure State where
  /-- Plane 0. -/
  p₀ : Plane
  /-- Plane 1. -/
  p₁ : Plane
  /-- Plane 2. -/
  p₂ : Plane
  /-- Plane 3. -/
  p₃ : Plane
  /-- Plane 4. -/
  p₄ : Plane

/-- Lane-wise exclusive or. -/
def Plane.xor (p q : Plane) : Plane :=
  ⟨p.l₀ ^^^ q.l₀, p.l₁ ^^^ q.l₁, p.l₂ ^^^ q.l₂, p.l₃ ^^^ q.l₃, p.l₄ ^^^ q.l₄⟩

/-- Rotation to the left by an amount from 1 to 63. -/
def rotateLeft (x n : UInt64) : UInt64 := (x <<< n) ||| (x >>> (64 - n))

/-- Every lane takes in the parity of two neighbouring columns. -/
def State.theta (s : State) : State :=
  let c := (((s.p₀.xor s.p₁).xor s.p₂).xor s.p₃).xor s.p₄
  let d : Plane := ⟨c.l₄ ^^^ rotateLeft c.l₁ 1, c.l₀ ^^^ rotateLeft c.l₂ 1,
    c.l₁ ^^^ rotateLeft c.l₃ 1, c.l₂ ^^^ rotateLeft c.l₄ 1, c.l₃ ^^^ rotateLeft c.l₀ 1⟩
  ⟨s.p₀.xor d, s.p₁.xor d, s.p₂.xor d, s.p₃.xor d, s.p₄.xor d⟩

/-- Every lane is rotated by its own amount and moves to its new place. -/
def State.rotateAndMove (s : State) : State where
  p₀ := ⟨s.p₀.l₀, rotateLeft s.p₁.l₁ 44, rotateLeft s.p₂.l₂ 43, rotateLeft s.p₃.l₃ 21,
    rotateLeft s.p₄.l₄ 14⟩
  p₁ := ⟨rotateLeft s.p₀.l₃ 28, rotateLeft s.p₁.l₄ 20, rotateLeft s.p₂.l₀ 3,
    rotateLeft s.p₃.l₁ 45, rotateLeft s.p₄.l₂ 61⟩
  p₂ := ⟨rotateLeft s.p₀.l₁ 1, rotateLeft s.p₁.l₂ 6, rotateLeft s.p₂.l₃ 25,
    rotateLeft s.p₃.l₄ 8, rotateLeft s.p₄.l₀ 18⟩
  p₃ := ⟨rotateLeft s.p₀.l₄ 27, rotateLeft s.p₁.l₀ 36, rotateLeft s.p₂.l₁ 10,
    rotateLeft s.p₃.l₂ 15, rotateLeft s.p₄.l₃ 56⟩
  p₄ := ⟨rotateLeft s.p₀.l₂ 62, rotateLeft s.p₁.l₃ 55, rotateLeft s.p₂.l₄ 39,
    rotateLeft s.p₃.l₀ 41, rotateLeft s.p₄.l₁ 2⟩

/-- The nonlinear step on one plane. -/
def Plane.chi (p : Plane) : Plane :=
  ⟨p.l₀ ^^^ (~~~p.l₁ &&& p.l₂), p.l₁ ^^^ (~~~p.l₂ &&& p.l₃), p.l₂ ^^^ (~~~p.l₃ &&& p.l₄),
    p.l₃ ^^^ (~~~p.l₄ &&& p.l₀), p.l₄ ^^^ (~~~p.l₀ &&& p.l₁)⟩

/-- One round with its constant. -/
def round (s : State) (constant : UInt64) : State :=
  let t := s.theta.rotateAndMove
  let q := t.p₀.chi
  ⟨{ q with l₀ := q.l₀ ^^^ constant }, t.p₁.chi, t.p₂.chi, t.p₃.chi, t.p₄.chi⟩

/-- One constant for each of the twenty-four rounds. -/
def roundConstants : List UInt64 := [
  0x0000000000000001, 0x0000000000008082, 0x800000000000808a, 0x8000000080008000,
  0x000000000000808b, 0x0000000080000001, 0x8000000080008081, 0x8000000000008009,
  0x000000000000008a, 0x0000000000000088, 0x0000000080008009, 0x000000008000000a,
  0x000000008000808b, 0x800000000000008b, 0x8000000000008089, 0x8000000000008003,
  0x8000000000008002, 0x8000000000000080, 0x000000000000800a, 0x800000008000000a,
  0x8000000080008081, 0x8000000000008080, 0x0000000080000001, 0x8000000080008008]

/-- The permutation of the whole state. -/
def permute (s : State) : State := roundConstants.foldl round s

/-- A lane from eight bytes, least significant first. -/
def lane : Bytes → UInt64
  | [] => 0
  | b :: rest => b.toUInt64 ||| (lane rest <<< 8)

/-- The state after a block of one hundred and thirty-six bytes. -/
def absorb (s : State) (block : Bytes) : State :=
  let l i := lane ((block.drop (8 * i)).take 8)
  permute
    ⟨s.p₀.xor ⟨l 0, l 1, l 2, l 3, l 4⟩, s.p₁.xor ⟨l 5, l 6, l 7, l 8, l 9⟩,
      s.p₂.xor ⟨l 10, l 11, l 12, l 13, l 14⟩, s.p₃.xor ⟨l 15, l 16, 0, 0, 0⟩, s.p₄⟩

/-- The message, the byte `01`, zeros, and the final bit `80`, to a whole number of blocks. -/
def pad (message : Bytes) : Bytes :=
  let fill := 136 - message.length % 136
  if fill = 1 then message ++ [0x81]
  else message ++ 0x01 :: List.replicate (fill - 2) 0 ++ [0x80]

/-- A lane as eight bytes, least significant first. -/
def laneBytes (x : UInt64) : Bytes :=
  [x.toUInt8, (x >>> 8).toUInt8, (x >>> 16).toUInt8, (x >>> 24).toUInt8,
    (x >>> 32).toUInt8, (x >>> 40).toUInt8, (x >>> 48).toUInt8, (x >>> 56).toUInt8]

/-- The state before the first block. -/
def initialState : State :=
  let zero : Plane := ⟨0, 0, 0, 0, 0⟩
  ⟨zero, zero, zero, zero, zero⟩

/-- The Keccak-256 digest. -/
def hash (message : Bytes) : Hash :=
  let s := (Bytes.wholePieces 136 (pad message)).foldl absorb initialState
  ⟨laneBytes s.p₀.l₀ ++ laneBytes s.p₀.l₁ ++ laneBytes s.p₀.l₂ ++ laneBytes s.p₀.l₃, rfl⟩

/-- A padded message is a whole number of blocks. -/
theorem length_pad_mod (message : Bytes) : (pad message).length % 136 = 0 := by
  simp only [pad]
  split <;>
  · simp only [List.length_append, List.length_cons, List.length_replicate, List.length_nil]
    omega

end BridgeKernel.Keccak256
