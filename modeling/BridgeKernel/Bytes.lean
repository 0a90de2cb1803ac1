/-!
# Byte strings

Byte strings are lists of bytes, ordered lexicographically. This module holds their fixed-width and
minimal number forms in both byte orders, the byte strings of one fixed length, and the lower-case
hexadecimal spelling that every message of the library uses.
-/

namespace BridgeKernel

/-- A byte string of any length. -/
abbrev Bytes := List UInt8

namespace Bytes

/-! ## Numbers as bytes -/

/-- The low `width` bytes of a number, least significant first. -/
def ofNatLE : (width : Nat) → Nat → Bytes
  | 0, _ => []
  | width + 1, n => UInt8.ofNat n :: ofNatLE width (n / 256)

/-- The low `width` bytes of a number, most significant first. -/
def ofNatBE (width n : Nat) : Bytes := (ofNatLE width n).reverse

/-- The number whose bytes these are, least significant first. -/
def toNatLE : Bytes → Nat
  | [] => 0
  | b :: rest => b.toNat + 256 * toNatLE rest

/-- The number whose bytes these are, most significant first. -/
def toNatBE (bytes : Bytes) : Nat := toNatLE bytes.reverse

/-- The number of bytes in the shortest form of a number: none for zero. -/
def minimalWidth (n : Nat) : Nat := if n = 0 then 0 else n.log2 / 8 + 1

/-- The shortest big-endian form of a number, empty for zero. -/
def minimalBE (n : Nat) : Bytes := ofNatBE (minimalWidth n) n

@[simp] theorem length_ofNatLE (width n : Nat) : (ofNatLE width n).length = width := by
  induction width generalizing n with
  | zero => rfl
  | succ width ih => simp [ofNatLE, ih]

@[simp] theorem length_ofNatBE (width n : Nat) : (ofNatBE width n).length = width := by
  simp [ofNatBE]

/-! ## Cutting -/

/-- The first `count` pieces of `size` bytes each. -/
def pieces (size : Nat) : (count : Nat) → Bytes → List Bytes
  | 0, _ => []
  | count + 1, bytes => bytes.take size :: pieces size count (bytes.drop size)

/-- The whole pieces of `size` bytes; a shorter tail is left out. -/
def wholePieces (size : Nat) (bytes : Bytes) : List Bytes :=
  pieces size (bytes.length / size) bytes

/-! ## Hexadecimal text -/

/-- The lower-case digit of a value below sixteen. -/
def hexDigit (n : Nat) : Char :=
  if n < 10 then Char.ofNat (48 + n) else Char.ofNat (87 + n)

/-- Two lower-case hexadecimal digits for every byte. -/
def toHex (bytes : Bytes) : String :=
  String.ofList (bytes.flatMap fun b => [hexDigit (b.toNat / 16), hexDigit (b.toNat % 16)])

/-- The value of a hexadecimal digit of either case. -/
def hexValue? (c : Char) : Option Nat :=
  if '0' ≤ c ∧ c ≤ '9' then some (c.toNat - 48)
  else if 'a' ≤ c ∧ c ≤ 'f' then some (c.toNat - 87)
  else if 'A' ≤ c ∧ c ≤ 'F' then some (c.toNat - 55)
  else none

/-- The bytes spelled by pairs of hexadecimal digits. -/
def ofHexDigits? : List Char → Option Bytes
  | [] => some []
  | [_] => none
  | hi :: lo :: rest => do
    let h ← hexValue? hi
    let l ← hexValue? lo
    return UInt8.ofNat (16 * h + l) :: (← ofHexDigits? rest)

/-- The bytes spelled by a hexadecimal text. -/
def ofHex? (text : String) : Option Bytes := ofHexDigits? text.toList

end Bytes

/-! ## Byte strings of one length -/

/-- A byte string of exactly `n` bytes. -/
structure FixedBytes (n : Nat) where
  /-- The bytes themselves. -/
  toBytes : Bytes
  /-- Their number is the declared one. -/
  length_toBytes : toBytes.length = n
deriving DecidableEq

/-- A 32-byte digest; which function produced it depends on where it stands. -/
abbrev Hash := FixedBytes 32

/-- A 20-byte account address. -/
abbrev Address := FixedBytes 20

namespace FixedBytes

variable {n : Nat}

@[ext] theorem ext {a b : FixedBytes n} (h : a.toBytes = b.toBytes) : a = b := by
  cases a; cases b; cases h; rfl

/-- The string itself when its length is right. -/
def ofBytes? (n : Nat) (bytes : Bytes) : Option (FixedBytes n) :=
  if h : bytes.length = n then some ⟨bytes, h⟩ else none

/-- The first `n` bytes, filled up with zero bytes on the right. -/
def ofPrefix (n : Nat) (bytes : Bytes) : FixedBytes n :=
  ⟨bytes.take n ++ List.replicate (n - bytes.length) 0, by simp; omega⟩

/-- All bytes zero. -/
def zero (n : Nat) : FixedBytes n := ⟨List.replicate n 0, by simp⟩

/-- The big-endian form of the low `n` bytes of a number. -/
def ofNatBE (n value : Nat) : FixedBytes n := ⟨Bytes.ofNatBE n value, by simp⟩

/-- One string after the other. -/
def append {m : Nat} (a : FixedBytes n) (b : FixedBytes m) : FixedBytes (n + m) :=
  ⟨a.toBytes ++ b.toBytes, by rw [List.length_append, a.length_toBytes, b.length_toBytes]⟩

/-- The number that the bytes spell, most significant first. -/
def toNatBE (a : FixedBytes n) : Nat := Bytes.toNatBE a.toBytes

/-- Lower-case hexadecimal text. -/
def toHex (a : FixedBytes n) : String := Bytes.toHex a.toBytes

instance : Inhabited (FixedBytes n) := ⟨zero n⟩

/-- Fixed-length strings are ordered as the byte strings they are. -/
instance : Ord (FixedBytes n) := ⟨fun a b => compare a.toBytes b.toBytes⟩

@[simp] theorem compare_def (a b : FixedBytes n) : compare a b = compare a.toBytes b.toBytes := rfl

instance : Std.TransOrd (FixedBytes n) where
  eq_swap := by
    intro a b
    exact @Std.OrientedCmp.eq_swap Bytes compare _ a.toBytes b.toBytes
  isLE_trans := by
    intro a b c
    exact @Std.TransCmp.isLE_trans Bytes compare _ a.toBytes b.toBytes c.toBytes

instance : Std.LawfulEqOrd (FixedBytes n) where
  eq_of_compare := by
    intro a b h
    exact ext (@Std.LawfulEqCmp.eq_of_compare Bytes compare _ a.toBytes b.toBytes h)

/-- Addresses are keys of maps. -/
instance : Std.TransOrd Address := inferInstance

@[simp] theorem ofBytes?_toBytes (a : FixedBytes n) : ofBytes? n a.toBytes = some a := by
  simp [ofBytes?, a.length_toBytes]

@[simp] theorem ofPrefix_toBytes (a : FixedBytes n) : ofPrefix n a.toBytes = a := by
  apply ext
  simp [ofPrefix, a.length_toBytes, List.take_of_length_le]

/-- A byte string has a fixed-length reading exactly when it has that length. -/
theorem ofBytes?_eq_some_iff {bytes : Bytes} {a : FixedBytes n} :
    ofBytes? n bytes = some a ↔ a.toBytes = bytes := by
  constructor
  · intro h
    unfold ofBytes? at h
    split at h
    · cases h; rfl
    · cases h
  · rintro rfl; simp

end FixedBytes

end BridgeKernel
