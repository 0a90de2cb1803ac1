import BridgeKernel.Bytes

/-!
# Text in UTF-8

Texts enter and leave byte strings in UTF-8. Reading a byte string back either gives the text or
says where the first broken sequence begins and how long it is.
-/

namespace BridgeKernel.Utf8

/-- The bytes of a text. -/
def encode (text : String) : Bytes := text.toUTF8.data.toList

/-- The text that the bytes spell. -/
def decode? (bytes : Bytes) : Option String := String.fromUTF8? ⟨bytes.toArray⟩

/-- Reading back the bytes of a text gives the text. -/
theorem decode?_encode (text : String) : decode? (encode text) = some text := by
  have valid : (⟨text.toByteArray.data⟩ : ByteArray).IsValidUTF8 := text.isValidUTF8
  simp [decode?, encode, String.fromUTF8?, String.fromUTF8, valid]

/-- The first broken sequence of a byte string. -/
structure Fault where
  /-- Number of bytes before it. -/
  position : Nat
  /-- Its length, or nothing when the string ends inside a sequence. -/
  length : Option Nat
deriving DecidableEq, Repr

/-- The wording of a fault. -/
def Fault.message (f : Fault) : String :=
  match f.length with
  | some n => "invalid utf-8 sequence of " ++ toString n ++ " bytes from index " ++
      toString f.position
  | none => "incomplete utf-8 byte sequence from index " ++ toString f.position

/-- Whether a byte continues a sequence. -/
def isContinuation (b : UInt8) : Bool := 0x80 ≤ b && b ≤ 0xbf

/-- The number of bytes that a first byte announces, and zero when it announces none. -/
def announced (first : UInt8) : Nat :=
  if first < 0x80 then 1
  else if 0xc2 ≤ first && first ≤ 0xdf then 2
  else if 0xe0 ≤ first && first ≤ 0xef then 3
  else if 0xf0 ≤ first && first ≤ 0xf4 then 4
  else 0

/-- Whether a second byte is possible after a first one: overlong forms, surrogates and code points
out of range are excluded here. -/
def secondFits (first second : UInt8) : Bool :=
  if first == 0xe0 then 0xa0 ≤ second && second ≤ 0xbf
  else if first == 0xed then 0x80 ≤ second && second ≤ 0x9f
  else if first == 0xf0 then 0x90 ≤ second && second ≤ 0xbf
  else if first == 0xf4 then 0x80 ≤ second && second ≤ 0x8f
  else isContinuation second

/-- The length of the sequence at the front of a nonempty byte string, or the fault in it. -/
def sequenceLength (first : UInt8) (rest : Bytes) : Except (Option Nat) Nat :=
  match announced first, rest with
  | 0, _ => .error (some 1)
  | 1, _ => .ok 1
  | _, [] => .error none
  | n, second :: rest =>
    if !secondFits first second then .error (some 1)
    else if n = 2 then .ok 2
    else match rest with
      | [] => .error none
      | third :: rest =>
        if !isContinuation third then .error (some 2)
        else if n = 3 then .ok 3
        else match rest with
          | [] => .error none
          | fourth :: _ => if isContinuation fourth then .ok 4 else .error (some 3)

/-- The first fault at or after a position, looking at `fuel` sequences at most. -/
def faultFrom : (fuel : Nat) → (position : Nat) → Bytes → Option Fault
  | 0, _, _ => none
  | _, _, [] => none
  | fuel + 1, position, first :: rest =>
    match sequenceLength first rest with
    | .ok n => faultFrom fuel (position + n) (rest.drop (n - 1))
    | .error length => some ⟨position, length⟩

/-- The text that the bytes spell, or their first fault. -/
def decode (bytes : Bytes) : Except Fault String :=
  match decode? bytes with
  | some text => .ok text
  | none => .error ((faultFrom bytes.length 0 bytes).getD ⟨0, none⟩)

end BridgeKernel.Utf8
