import BridgeKernel.Bytes

/-!
# Recursive length prefixes

An item is a byte string or a list of items, each with a header that gives its length. Encoding
writes shortest headers; numbers are written big-endian without leading zeros.

Reading works on raw bytes. A list's first item must end within the announced payload, and the items
after it are read one after another from there on for as long as whole items follow; a single item
picked by its position is looked for in the announced payload only.
-/

namespace BridgeKernel.Rlp

/-- Why bytes could not be read. -/
inductive Error where
  /-- A number is wider than its type. -/
  | isTooBig
  /-- An item ends after the bytes do. -/
  | isTooShort
  /-- A list was wanted. -/
  | expectedToBeList
  /-- A byte string was wanted. -/
  | expectedToBeData
  /-- A list has the wrong number of items. -/
  | incorrectListLen
  /-- A long header's length begins with a zero byte. -/
  | dataLenWithZeroPrefix
  /-- There is a shorter spelling of the same item. -/
  | invalidIndirection
  /-- A rule of the format that uses the item. -/
  | custom (text : String)
deriving DecidableEq, Repr

/-- The wording of a reading error. -/
def Error.message : Error → String
  | .isTooBig => "RlpIsTooBig"
  | .isTooShort => "RlpIsTooShort"
  | .expectedToBeList => "RlpExpectedToBeList"
  | .expectedToBeData => "RlpExpectedToBeData"
  | .incorrectListLen => "RlpIncorrectListLen"
  | .dataLenWithZeroPrefix => "RlpDataLenWithZeroPrefix"
  | .invalidIndirection => "RlpInvalidIndirection"
  | .custom text => "Custom(\"" ++ text ++ "\")"

/-! ## Writing -/

/-- A header for a body of the given length, with the base of byte strings or of lists. -/
def header (base : Nat) (length : Nat) : Bytes :=
  if length ≤ 55 then [UInt8.ofNat (base + length)]
  else UInt8.ofNat (base + 55 + Bytes.minimalWidth length) :: Bytes.minimalBE length

/-- A byte string as an item. A single byte below `80` stands for itself. -/
def encodeBytes (bytes : Bytes) : Bytes :=
  match bytes with
  | [b] => if b < 0x80 then [b] else header 0x80 1 ++ [b]
  | _ => header 0x80 bytes.length ++ bytes

/-- A number as an item. -/
def encodeNat (n : Nat) : Bytes := encodeBytes (Bytes.minimalBE n)

/-- A list of items that are already written. -/
def encodeList (items : List Bytes) : Bytes :=
  header 0xc0 items.flatten.length ++ items.flatten

/-! ## Reading -/

/-- The length of an item's header and of its body. -/
structure Extent where
  /-- Bytes before the body. -/
  header : Nat
  /-- Bytes of the body. -/
  body : Nat
deriving DecidableEq, Repr

/-- Bytes of the whole item. -/
def Extent.total (e : Extent) : Nat := e.header + e.body

/-- The extent given by a header whose length takes `width` bytes after the first. -/
def longExtent (width : Nat) (rest : Bytes) : Except Error Extent :=
  match rest with
  | [] => .error .isTooShort
  | b :: _ =>
    if b = 0 then .error .dataLenWithZeroPrefix
    else if rest.length < width then .error .isTooShort
    else
      let length := Bytes.toNatBE (rest.take width)
      if length ≤ 55 then .error .invalidIndirection else .ok ⟨1 + width, length⟩

/-- The extent that the first bytes announce. -/
def announcedExtent : Bytes → Except Error Extent
  | [] => .error .isTooShort
  | first :: rest =>
    if first < 0x80 then .ok ⟨0, 1⟩
    else if first < 0xb8 then .ok ⟨1, first.toNat - 0x80⟩
    else if first < 0xc0 then longExtent (first.toNat - 0xb7) rest
    else if first < 0xf8 then .ok ⟨1, first.toNat - 0xc0⟩
    else longExtent (first.toNat - 0xf7) rest

/-- The extent of the item at the front, which must be there as a whole. -/
def extent (bytes : Bytes) : Except Error Extent :=
  match announcedExtent bytes with
  | .error e => .error e
  | .ok x => if x.total ≤ bytes.length then .ok x else .error .isTooShort

/-- Whether the item at the front is a list. -/
def isList : Bytes → Bool
  | [] => false
  | first :: _ => 0xc0 ≤ first

/-- The item at the front and what follows it. -/
def split (bytes : Bytes) : Except Error (Bytes × Bytes) :=
  match extent bytes with
  | .error e => .error e
  | .ok x => .ok (bytes.take x.total, bytes.drop x.total)

/-- The whole items at the front, `fuel` of them at most, up to the first that is broken. -/
def itemRun : (fuel : Nat) → Bytes → List Bytes
  | 0, _ => []
  | fuel + 1, bytes =>
    match split bytes with
    | .error _ => []
    | .ok (item, rest) => item :: itemRun fuel rest

/-- The body of the item at the front, whether it is a list or a byte string. -/
def body (bytes : Bytes) : Except Error Bytes :=
  match extent bytes with
  | .error e => .error e
  | .ok x => .ok ((bytes.drop x.header).take x.body)

/-- The items of a list, read one after another. Only the first is confined to the payload. -/
def items (bytes : Bytes) : Except Error (List Bytes) :=
  if !isList bytes then .error .expectedToBeList
  else
    match extent bytes with
    | .error _ => .ok []
    | .ok x =>
      let payload := (bytes.drop x.header).take x.body
      match split payload with
      | .error _ => .ok []
      | .ok (first, _) =>
        .ok (first :: itemRun bytes.length (bytes.drop (x.header + first.length)))

/-- What is left after skipping whole items. -/
def skip : (count : Nat) → Bytes → Except Error Bytes
  | 0, bytes => .ok bytes
  | count + 1, bytes =>
    match split bytes with
    | .error e => .error e
    | .ok (_, rest) => skip count rest

/-- The item at a position of a list's payload. -/
def itemAt (bytes : Bytes) (position : Nat) : Except Error Bytes := do
  if !isList bytes then throw .expectedToBeList
  let rest ← skip position (← body bytes)
  return (← split rest).1

/-- The byte string that an item spells in its only accepted form. -/
def readBytes (item : Bytes) : Except Error Bytes :=
  match item with
  | [] => .error .isTooShort
  | [0x81, b] => if b < 0x80 then .error .invalidIndirection else .ok [b]
  | _ => if isList item then .error .expectedToBeData else body item

/-- The number below `256 ^ width` that an item spells without leading zeros. -/
def readNat (width : Nat) (item : Bytes) : Except Error Nat :=
  match readBytes item with
  | .error e => .error e
  | .ok digits =>
    if width < digits.length then .error .isTooBig
    else if digits.head? = some 0 then .error .invalidIndirection
    else .ok (Bytes.toNatBE digits)

end BridgeKernel.Rlp
