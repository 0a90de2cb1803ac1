import BridgeKernel.Custody.Basic

/-!
# Scripts that name custodians

A script states how many signatures it requires, lists public keys, states their number, and ends
with the check of several signatures.
-/

namespace BridgeKernel.Redeem

open Script

/-- The custody key of a script: hexadecimal text of its digest. -/
def keyOf (script : Bytes) : String := (Ripemd160.hash160 script).toHex

/-- The instructions of a script by their part in the template: the opcode for the signatures, the
keys, the opcode for the number of keys, and the final opcode. -/
def template? : List Script.Instruction →
    Option (UInt8 × List Script.Instruction × UInt8 × UInt8)
  | .op required :: rest =>
    match rest.reverse with
    | .op check :: .op total :: keys => some (required, keys.reverse, total, check)
    | _ => none
  | _ => none

/-- The keys and custodians of a list of pushes, read after those known so far; each key must be in
its short form and new. -/
def readKeys : List Script.Instruction → List Bytes →
    Except RedeemFault (List (Bytes × Custodian))
  | [], _ => .ok []
  | .op _ :: _, _ => .error .nonPush
  | .push bytes :: rest, known =>
    match Bitcoin.readKey bytes with
    | .error cause => .error (.key cause)
    | .ok _ =>
      if bytes.length ≠ 33 then .error .uncompressed
      else if known.contains bytes then .error .repeated
      else do return (bytes, Ripemd160.hash160 bytes) :: (← readKeys rest (known ++ [bytes]))

/-- The record of a script. -/
def parse (script : Bytes) : Except RedeemFault RedeemRecord :=
  match instructions? script with
  | none => .error .cutScript
  | some instructions =>
    match template? instructions with
    | none => .error .notTemplate
    | some (requiredOp, keys, totalOp, check) =>
      if check ≠ checkMultisig then .error .missingCheck
      else
        match smallNumber? requiredOp with
        | none => .error .badRequired
        | some required =>
          match smallNumber? totalOp with
          | none => .error .badTotal
          | some total =>
            if keys.length ≠ total then .error .keyCount
            else if total < required then .error .requiredExceedsTotal
            else
              match readKeys keys [] with
              | .error fault => .error fault
              | .ok parsed => .ok {
                  redeemKey := keyOf script
                  redeemScript := script
                  required := UInt64.ofNat required
                  publicKeys := parsed.map (·.1)
                  custodians := parsed.map (·.2) }

end BridgeKernel.Redeem
