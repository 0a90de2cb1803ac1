import BridgeKernel.Bytes

/-!
# Variable-width lengths

A number takes one byte below `fd`, or a mark and two, four or eight little-endian bytes. A byte
string follows its length. A cursor reads them one after another; a failed read leaves it where the
failure was noticed.
-/

namespace BridgeKernel

/-- A read that wanted more bytes than are left. -/
structure ShortRead where
  /-- Bytes wanted. -/
  wanted : Nat
  /-- Where they were wanted. -/
  offset : Nat
deriving DecidableEq, Repr

/-- The wording of a short read. -/
def ShortRead.message (e : ShortRead) : String :=
  "need " ++ toString e.wanted ++ " bytes at offset " ++ toString e.offset

/-- A position in a byte string. -/
structure Cursor where
  /-- Bytes read so far. -/
  offset : Nat
  /-- Bytes still to read. -/
  rest : Bytes
deriving DecidableEq

/-- A reading that may fail and keeps the cursor where it stopped. -/
abbrev Reading (ε α : Type) := ExceptT ε (StateM Cursor) α

namespace Cursor

/-- The start of a byte string. -/
def start (bytes : Bytes) : Cursor := ⟨0, bytes⟩

/-- Whether everything has been read. -/
def isDone (c : Cursor) : Bool := c.rest.isEmpty

/-- Reads so many bytes. -/
def take (count : Nat) : Reading ShortRead Bytes := fun c =>
  if count ≤ c.rest.length then
    (.ok (c.rest.take count), ⟨c.offset + count, c.rest.drop count⟩)
  else (.error ⟨count, c.offset⟩, c)

/-- Reads one byte. -/
def takeByte : Reading ShortRead UInt8 := do return (← take 1).headD 0

/-- Reads a number of variable width. -/
def takeVarInt : Reading ShortRead UInt64 := do
  let mark ← takeByte
  if mark = 0xfd then
    let low ← takeByte
    let high ← takeByte
    return UInt64.ofNat (Bytes.toNatLE [low, high])
  else if mark = 0xfe then return UInt64.ofNat (Bytes.toNatLE (← take 4))
  else if mark = 0xff then return UInt64.ofNat (Bytes.toNatLE (← take 8))
  else return mark.toUInt64

/-- Reads a byte string behind its length. -/
def takeVarBytes : Reading ShortRead Bytes := do take (← takeVarInt).toNat

end Cursor

namespace VarBytes

/-- A number in the fewest bytes. -/
def writeInt (n : UInt64) : Bytes :=
  if n < 0xfd then Bytes.ofNatLE 1 n.toNat
  else if n ≤ 0xffff then 0xfd :: Bytes.ofNatLE 2 n.toNat
  else if n ≤ 0xffffffff then 0xfe :: Bytes.ofNatLE 4 n.toNat
  else 0xff :: Bytes.ofNatLE 8 n.toNat

/-- A byte string behind its length. -/
def write (bytes : Bytes) : Bytes := writeInt (UInt64.ofNat bytes.length) ++ bytes

end VarBytes

end BridgeKernel
