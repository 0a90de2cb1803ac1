import BridgeKernel.Curve.Ecdsa

/-!
# Keys and signatures in scripts

Public keys of 33 or 65 bytes, signatures as two integers in a tagged sequence followed by a byte
that says what is signed, and their verification.
-/

namespace BridgeKernel.Bitcoin

open Secp256k1

/-- Why bytes are no public key. -/
inductive KeyFault where
  /-- Neither 33 nor 65 bytes. -/
  | length (found : Nat)
  /-- A long key with another first byte than 4. -/
  | leadByte (found : UInt8)
  /-- No point of the curve. -/
  | noPoint
deriving DecidableEq, Repr

/-- The wording of a fault in a key. -/
def KeyFault.message : KeyFault → String
  | .length found => "slice length should be 33 or 65 bytes, got: " ++ toString found
  | .leadByte found => "key prefix invalid: " ++ toString found.toNat
  | .noPoint => "secp256k1"

/-- The point that a key of 33 or 65 bytes spells. -/
def readKey (bytes : Bytes) : Except KeyFault Point :=
  if bytes.length = 33 then
    match bytes with
    | 2 :: x => (lift? (Bytes.toNatBE x) false).elim (.error .noPoint) .ok
    | 3 :: x => (lift? (Bytes.toNatBE x) true).elim (.error .noPoint) .ok
    | _ => .error .noPoint
  else if bytes.length = 65 then
    match bytes with
    | 4 :: coordinates =>
      let x := Bytes.toNatBE (coordinates.take 32)
      let y := Bytes.toNatBE (coordinates.drop 32)
      if onCurve x y then .ok (.affine x y) else .error .noPoint
    | first :: _ => .error (.leadByte first)
    | [] => .error (.length 0)
  else .error (.length bytes.length)

/-- What a signature covers. -/
inductive SighashKind where
  /-- All outputs. -/
  | all
  /-- No outputs. -/
  | none
  /-- The output in the input's place. -/
  | single
deriving DecidableEq, Repr

/-- What a signature covers, and whether other inputs may be added. -/
structure SighashType where
  /-- The outputs covered. -/
  kind : SighashKind
  /-- Other inputs may be added. -/
  anyoneCanPay : Bool
deriving DecidableEq, Repr

namespace SighashType

/-- The type that the last byte of a signature stands for. -/
def ofByte? (b : UInt8) : Option SighashType :=
  if b = 0x01 then some ⟨.all, false⟩
  else if b = 0x02 then some ⟨.none, false⟩
  else if b = 0x03 then some ⟨.single, false⟩
  else if b = 0x81 then some ⟨.all, true⟩
  else if b = 0x82 then some ⟨.none, true⟩
  else if b = 0x83 then some ⟨.single, true⟩
  else Option.none

/-- The name of a type. -/
def label (t : SighashType) : String :=
  (match t.kind with
    | .all => "SIGHASH_ALL"
    | .none => "SIGHASH_NONE"
    | .single => "SIGHASH_SINGLE") ++
  if t.anyoneCanPay then "|SIGHASH_ANYONECANPAY" else ""

end SighashType

/-- Why a script's signature was refused. -/
inductive ScriptSignatureFault where
  /-- There are no bytes. -/
  | empty
  /-- The last byte stands for no type. -/
  | unknownType
  /-- The bytes before it are no sequence of two integers. -/
  | unreadable
  /-- The signature does not cover everything. -/
  | wrongType (found : SighashType)
  /-- The key cannot be read. -/
  | key (cause : KeyFault)
  /-- The signature does not fit. -/
  | verification
deriving DecidableEq, Repr

/-- The wording of a fault in a signature. -/
def ScriptSignatureFault.message : ScriptSignatureFault → String
  | .empty => "empty ECDSA signature"
  | .unknownType => "non-standard signature hash type"
  | .unreadable => "secp256k1"
  | .wrongType found => "sighash type " ++ found.label ++ " is not SIGHASH_ALL"
  | .key cause => cause.message
  | .verification => "signature failed verification"

namespace Der

/-- A length and what follows it. The long form is only for lengths from 128 on and has no leading
zero. -/
def takeLength : Bytes → Option (Nat × Bytes)
  | [] => none
  | first :: rest =>
    if first < 0x80 then some (first.toNat, rest)
    else if first = 0x80 || first = 0xff then none
    else
      let width := first.toNat - 0x80
      if rest.length < width || rest.head? == some 0 || 8 < width then none
      else
        let length := Bytes.toNatBE (rest.take width)
        if rest.length - width < length || length < 128 then none
        else some (length, rest.drop width)

/-- Whether an integer has a byte in front that says nothing. -/
def padded : Bytes → Bool
  | first :: second :: _ => (first == 0 && second < 0x80) || (first == 0xff && 0x80 ≤ second)
  | _ => false

/-- The value of an integer's bytes as a signature number: zero when it is negative or not below the
group order. -/
def scalar (bytes : Bytes) : Nat :=
  if bytes.headD 0 < 0x80 && Bytes.toNatBE bytes < groupOrder then Bytes.toNatBE bytes else 0

/-- An integer and what follows it. -/
def takeInteger : Bytes → Option (Nat × Bytes)
  | 0x02 :: rest => do
    let (length, rest) ← takeLength rest
    if length = 0 || rest.length < length || padded (rest.take length) then none
    else some (scalar (rest.take length), rest.drop length)
  | _ => none

/-- The signature that a sequence of two integers spells, with nothing after it. -/
def signature? : Bytes → Option Ecdsa.Signature
  | 0x30 :: rest => do
    let (length, body) ← takeLength rest
    if length ≠ body.length then none
    else
      let (r, body) ← takeInteger body
      let (s, body) ← takeInteger body
      if body.isEmpty then some ⟨r, s⟩ else none
  | _ => none

end Der

/-- Checks a script's signature of a digest under a key: its last byte, its integers, what it
covers, the key, and that it fits. -/
def checkSignature (digest : Hash) (signature key : Bytes) : Except ScriptSignatureFault Unit :=
  match signature.getLast? with
  | none => .error .empty
  | some last =>
    match SighashType.ofByte? last with
    | none => .error .unknownType
    | some covered =>
      match Der.signature? signature.dropLast with
      | none => .error .unreadable
      | some sig =>
        if covered ≠ ⟨.all, false⟩ then .error (.wrongType covered)
        else
          match readKey key with
          | .error cause => .error (.key cause)
          | .ok point =>
            if Ecdsa.verifies point digest sig then .ok () else .error .verification

end BridgeKernel.Bitcoin
