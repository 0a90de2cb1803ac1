import BridgeKernel.OrderedMap
import BridgeKernel.Text.Utf8

/-!
# Stored records

The format of everything that the bridge keeps: numbers little-endian in their full width, a 64-bit
length before strings, sequences and maps, one byte before an optional value, a 32-bit number before
a variant, and the fields of a structure one after another. Reading takes a record from the front of
a byte string and leaves the rest.
-/

namespace BridgeKernel

namespace Record

/-- Why a record could not be read. -/
inductive Error where
  /-- The bytes end inside a number or an array. -/
  | endOfBytes
  /-- The bytes end inside a text or byte string. -/
  | endOfText
  /-- The byte before an optional value is neither 0 nor 1. -/
  | optionTag (found : Nat)
  /-- A text is no UTF-8. -/
  | invalidText (fault : Utf8.Fault)
  /-- No variant has this number. -/
  | variant (found count : Nat)
  /-- A byte string has the wrong length. -/
  | byteCount (found expected : Nat)
deriving DecidableEq

/-- The wording of a reading error. -/
def Error.message : Error → String
  | .endOfBytes => "io error: unexpected end of file"
  | .endOfText => "io error: "
  | .optionTag found => "tag for enum is not valid, found " ++ toString found
  | .invalidText fault => "string is not valid utf8: " ++ fault.message
  | .variant found count => "invalid value: integer `" ++ toString found ++
      "`, expected variant index 0 <= i < " ++ toString count
  | .byteCount found expected => "invalid length " ++ toString found ++
      ", expected an byte array of size " ++ toString expected

/-- A reader takes a value from the front of a byte string. -/
abbrev Reader := StateT Bytes (Except Error)

/-- Takes so many bytes, and fails with the given error when there are fewer. -/
def takeBytes (error : Error) (count : Nat) : Reader Bytes := fun bytes =>
  if count ≤ bytes.length then .ok (bytes.take count, bytes.drop count) else .error error

/-- Takes a little-endian number of so many bytes. -/
def takeNat (width : Nat) : Reader Nat := do
  return Bytes.toNatLE (← takeBytes .endOfBytes width)

/-- Takes so many values. -/
def takeMany {α : Type} (take : Reader α) : (count : Nat) → Reader (List α)
  | 0 => pure []
  | count + 1 => do
    let first ← take
    let rest ← takeMany take count
    return first :: rest

/-- The 64-bit form of a length. -/
def lengthBytes (length : Nat) : Bytes := Bytes.ofNatLE 8 length

/-- The largest length that a record can state. -/
def lengthLimit : Nat := UInt64.size

end Record

/-- A type of values that can be stored. -/
class Record (α : Type) where
  /-- The stored form. -/
  write : α → Bytes
  /-- Reads a value from the front of a byte string. -/
  read : Record.Reader α
  /-- Whether every length in the value can be stated. -/
  fits : α → Bool

namespace Record

instance : Record UInt8 where
  write n := [n]
  read := do return UInt8.ofNat (← takeNat 1)
  fits _ := true

instance : Record UInt32 where
  write n := Bytes.ofNatLE 4 n.toNat
  read := do return UInt32.ofNat (← takeNat 4)
  fits _ := true

instance : Record UInt64 where
  write n := Bytes.ofNatLE 8 n.toNat
  read := do return UInt64.ofNat (← takeNat 8)
  fits _ := true

/-- A number of fixed width in bits takes that many bits of whole bytes. -/
instance : Record (BitVec 128) where
  write n := Bytes.ofNatLE 16 n.toNat
  read := do return BitVec.ofNat 128 (← takeNat 16)
  fits _ := true

/-- Takes a byte string of known length. -/
def takeFixed (n : Nat) : Reader (FixedBytes n) := fun bytes =>
  if h : n ≤ bytes.length then .ok (⟨bytes.take n, by simp [h]⟩, bytes.drop n)
  else .error .endOfBytes

instance {n : Nat} : Record (FixedBytes n) where
  write a := a.toBytes
  read := takeFixed n
  fits _ := true

instance {α : Type} [Record α] : Record (List α) where
  write xs := lengthBytes xs.length ++ xs.flatMap write
  read := do takeMany read (← takeNat 8)
  fits xs := decide (xs.length < lengthLimit) && xs.all fits

instance {α : Type} [Record α] : Record (Option α) where
  write
    | none => [0]
    | some a => 1 :: write a
  read := do
    match ← takeNat 1 with
    | 0 => return none
    | 1 => return some (← read)
    | found => throw (.optionTag found)
  fits
    | none => true
    | some a => fits a

instance {α β : Type} [Record α] [Record β] : Record (α × β) where
  write p := write p.1 ++ write p.2
  read := do
    let a ← read
    let b ← read
    return (a, b)
  fits p := fits p.1 && fits p.2

instance {κ ν : Type} [Ord κ] [Std.TransOrd κ] [Record κ] [Record ν] :
    Record (OrderedMap κ ν) where
  write m := write m.entries
  read := do return OrderedMap.ofList (← read (α := List (κ × ν)))
  fits m := fits m.entries

/-- A text is stored as its bytes. -/
instance : Record String where
  write text := lengthBytes (Utf8.encode text).length ++ Utf8.encode text
  read := do
    let bytes ← takeBytes .endOfText (← takeNat 8)
    match Utf8.decode bytes with
    | .ok text => return text
    | .error fault => throw (.invalidText fault)
  fits text := decide ((Utf8.encode text).length < lengthLimit)

/-- The value at the front of a byte string; bytes after it do not matter. -/
def decode {α : Type} [Record α] (bytes : Bytes) : Except Error α :=
  match read bytes with
  | .ok (a, _) => .ok a
  | .error e => .error e

end Record

end BridgeKernel
