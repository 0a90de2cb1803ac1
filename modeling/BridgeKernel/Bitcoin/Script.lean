import BridgeKernel.Hash.Ripemd160

/-!
# Scripts

Reading a script as pushes and opcodes, writing pushes in their shortest form, and the two locking
scripts that hide a redeem script behind a digest.
-/

namespace BridgeKernel.Script

/-- A part of a script. -/
inductive Instruction where
  /-- Data put on the stack. -/
  | push (data : Bytes)
  /-- Any other opcode. -/
  | op (code : UInt8)
deriving DecidableEq

/-- The opcode that checks several signatures. -/
def checkMultisig : UInt8 := 0xae

/-- How many bytes after an opcode state the length of its push, if it is such an opcode. -/
def pushLengthWidth? (code : UInt8) : Option Nat :=
  if code = 0x4c then some 1 else if code = 0x4d then some 2 else if code = 0x4e then some 4 else none

/-- A push of so many bytes and what follows it. -/
def takePush (count : Nat) (rest : Bytes) : Option (Instruction × Bytes) :=
  if count ≤ rest.length then some (.push (rest.take count), rest.drop count) else none

/-- The instruction that begins with an opcode and what follows it, or nothing when the script ends
inside it. -/
def takeInstruction (code : UInt8) (rest : Bytes) : Option (Instruction × Bytes) :=
  if code ≤ 0x4b then takePush code.toNat rest
  else
    match pushLengthWidth? code with
    | none => some (.op code, rest)
    | some width =>
      if width ≤ rest.length then takePush (Bytes.toNatLE (rest.take width)) (rest.drop width)
      else none

/-- The instructions of a script, at most `fuel` of them, or nothing when it ends inside one. -/
def parse : (fuel : Nat) → Bytes → Option (List Instruction)
  | _, [] => some []
  | 0, _ :: _ => none
  | fuel + 1, code :: rest => do
    let (first, rest) ← takeInstruction code rest
    return first :: (← parse fuel rest)

/-- The instructions of a script, or nothing when it ends inside one. -/
def instructions? (script : Bytes) : Option (List Instruction) := parse script.length script

/-- The number from 1 to 16 that an opcode puts on the stack. -/
def smallNumber? (code : UInt8) : Option Nat :=
  if 0x51 ≤ code ∧ code ≤ 0x60 then some (code.toNat - 0x50) else none

/-- The push of a byte string with the shortest length form. -/
def push (data : Bytes) : Bytes :=
  let n := data.length
  if n < 0x4c then UInt8.ofNat n :: data
  else if n < 0x100 then 0x4c :: (Bytes.ofNatLE 1 n ++ data)
  else if n < 0x10000 then 0x4d :: (Bytes.ofNatLE 2 n ++ data)
  else 0x4e :: (Bytes.ofNatLE 4 n ++ data)

/-- How an output hides a redeem script. -/
inductive LockKind where
  /-- Behind its 20-byte digest, unlocked by a script. -/
  | scriptHash
  /-- Behind its 32-byte digest, unlocked by a witness. -/
  | witnessHash
deriving DecidableEq, Repr

/-- The name of a kind. -/
def LockKind.label : LockKind → String
  | .scriptHash => "p2sh"
  | .witnessHash => "p2wsh"

/-- The kind with a given name. -/
def LockKind.ofLabel? (text : String) : Option LockKind :=
  if text = "p2sh" then some .scriptHash else if text = "p2wsh" then some .witnessHash else none

/-- The script of an output that hides a redeem script. -/
def locking (redeem : Bytes) : LockKind → Bytes
  | .scriptHash => [0xa9, 0x14] ++ (Ripemd160.hash160 redeem).toBytes ++ [0x87]
  | .witnessHash => [0x00, 0x20] ++ (Sha256.hash redeem).toBytes

/-- How an output's script hides a redeem script, if it does. -/
def lockKind? (redeem scriptPubkey : Bytes) : Option LockKind :=
  if scriptPubkey = locking redeem .scriptHash then some .scriptHash
  else if scriptPubkey = locking redeem .witnessHash then some .witnessHash
  else none

end BridgeKernel.Script
