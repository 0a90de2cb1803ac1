import BridgeKernel.Hash.Sha256
import BridgeKernel.Wire.VarBytes

/-!
# Transactions

A transaction and its two written forms, the plain one and the one with witnesses, the digests by
which it is known and signed, and reading it back.
-/

namespace BridgeKernel.Bitcoin

/-- A reference to an output. -/
structure OutPoint where
  /-- Digest of the transaction. -/
  txid : Hash
  /-- Place of the output. -/
  vout : UInt32
deriving DecidableEq

/-- An input. -/
structure TxIn where
  /-- The output that it spends. -/
  previous : OutPoint
  /-- Unlocking script. -/
  scriptSig : Bytes
  /-- Sequence number. -/
  sequence : UInt32
  /-- Unlocking witness. -/
  witness : List Bytes
deriving DecidableEq

/-- An output. -/
structure TxOut where
  /-- Value in the smallest unit. -/
  value : UInt64
  /-- Locking script. -/
  scriptPubkey : Bytes
deriving DecidableEq

/-- A transaction. -/
structure Transaction where
  /-- Version. -/
  version : UInt32
  /-- Inputs. -/
  inputs : List TxIn
  /-- Outputs. -/
  outputs : List TxOut
  /-- First block or time at which it is valid. -/
  lockTime : UInt32
deriving DecidableEq

/-! ## Writing -/

/-- A length or count. -/
def writeCount (n : Nat) : Bytes := VarBytes.writeInt (UInt64.ofNat n)

/-- A word of four bytes. -/
def writeWord (n : UInt32) : Bytes := Bytes.ofNatLE 4 n.toNat

/-- A value of eight bytes. -/
def writeValue (n : UInt64) : Bytes := Bytes.ofNatLE 8 n.toNat

/-- A list behind its count. -/
def writeList {α : Type} (write : α → Bytes) (xs : List α) : Bytes :=
  writeCount xs.length ++ xs.flatMap write

/-- A reference to an output. -/
def OutPoint.write (o : OutPoint) : Bytes := o.txid.toBytes ++ writeWord o.vout

/-- An input without its witness. -/
def TxIn.write (i : TxIn) : Bytes :=
  i.previous.write ++ VarBytes.write i.scriptSig ++ writeWord i.sequence

/-- An output. -/
def TxOut.write (o : TxOut) : Bytes := writeValue o.value ++ VarBytes.write o.scriptPubkey

namespace Transaction

/-- The form without witnesses. -/
def writePlain (tx : Transaction) : Bytes :=
  writeWord tx.version ++ writeList TxIn.write tx.inputs ++ writeList TxOut.write tx.outputs ++
    writeWord tx.lockTime

/-- Whether the form with witnesses is needed: there is a witness, or there are no inputs, in which
case the plain form could be taken for the other. -/
def needsWitnessForm (tx : Transaction) : Bool :=
  tx.inputs.isEmpty || tx.inputs.any fun i => !i.witness.isEmpty

/-- The form that is passed on. -/
def write (tx : Transaction) : Bytes :=
  if tx.needsWitnessForm then
    writeWord tx.version ++ [0x00, 0x01] ++ writeList TxIn.write tx.inputs ++
      writeList TxOut.write tx.outputs ++
      tx.inputs.flatMap (fun i => writeList VarBytes.write i.witness) ++ writeWord tx.lockTime
  else tx.writePlain

/-- The digest by which a transaction is known, which leaves witnesses out. -/
def txid (tx : Transaction) : Hash := Sha256.double tx.writePlain

/-! ## Signing -/

/-- The mark of a signature over all inputs and outputs. -/
def signAllMark : UInt32 := 1

/-- What is signed for an input that is unlocked by a script: the transaction with the script code
in the place of that input's script and no other scripts. -/
def scriptPreimage (tx : Transaction) (index : Nat) (scriptCode : Bytes) : Bytes :=
  let stripped := tx.inputs.mapIdx fun i (input : TxIn) =>
    { input with scriptSig := if i = index then scriptCode else [], witness := [] }
  { tx with inputs := stripped }.writePlain ++ writeWord signAllMark

/-- What is signed for an input that is unlocked by a witness and spends a given value. -/
def witnessPreimage (tx : Transaction) (input : TxIn) (scriptCode : Bytes) (value : UInt64) :
    Bytes :=
  writeWord tx.version ++
    (Sha256.double (tx.inputs.flatMap fun i => i.previous.write)).toBytes ++
    (Sha256.double (tx.inputs.flatMap fun i => writeWord i.sequence)).toBytes ++
    input.previous.write ++ VarBytes.write scriptCode ++ writeValue value ++
    writeWord input.sequence ++ (Sha256.double (tx.outputs.flatMap TxOut.write)).toBytes ++
    writeWord tx.lockTime ++ writeWord signAllMark

/-- The digest signed for an input that is unlocked by a script. -/
def scriptSighash? (tx : Transaction) (index : Nat) (scriptCode : Bytes) : Option Hash :=
  if index < tx.inputs.length then some (Sha256.double (tx.scriptPreimage index scriptCode))
  else none

/-- The digest signed for an input that is unlocked by a witness. -/
def witnessSighash? (tx : Transaction) (index : Nat) (scriptCode : Bytes) (value : UInt64) :
    Option Hash :=
  tx.inputs[index]?.map fun input => Sha256.double (tx.witnessPreimage input scriptCode value)

end Transaction

/-! ## Reading -/

/-- Why bytes are no transaction. -/
inductive TransactionError where
  /-- The bytes end too early. -/
  | tooShort
  /-- A count is not in its shortest form. -/
  | nonMinimalCount
  /-- A witness takes more room than any block has. -/
  | oversized (requested max : Nat)
  /-- The form with witnesses holds none. -/
  | noWitnesses
  /-- The mark after an empty list of inputs is unknown. -/
  | unsupportedMark (mark : UInt8)
  /-- Bytes follow the transaction. -/
  | trailing
deriving DecidableEq, Repr

/-- The wording of a reading error. -/
def TransactionError.message : TransactionError → String
  | .tooShort => "IO error"
  | .nonMinimalCount => "non-minimal varint"
  | .oversized requested max => "allocation of oversized vector: requested " ++
      toString requested ++ ", maximum " ++ toString max
  | .noWitnesses => "parse failed: witness flag set but no witnesses present"
  | .unsupportedMark mark => "unsupported segwit version: " ++ toString mark.toNat
  | .trailing => "parse failed: data not consumed entirely when explicitly deserializing"

/-- A reader takes a value from the front of a byte string. -/
abbrev Reader := StateT Bytes (Except TransactionError)

/-- Takes so many bytes. -/
def takeBytes (count : Nat) : Reader Bytes := fun bytes =>
  if count ≤ bytes.length then .ok (bytes.take count, bytes.drop count) else .error .tooShort

/-- Takes a little-endian number of so many bytes. -/
def takeNat (width : Nat) : Reader Nat := do return Bytes.toNatLE (← takeBytes width)

/-- Takes a number of so many bytes that must not fit a shorter form. -/
def takeWide (width least : Nat) : Reader Nat := do
  let n ← takeNat width
  if n < least then throw .nonMinimalCount
  return n

/-- Takes a count in its shortest form. -/
def takeCount : Reader Nat := do
  let mark ← takeNat 1
  if mark = 0xfd then takeWide 2 0xfd
  else if mark = 0xfe then takeWide 4 0x10000
  else if mark = 0xff then takeWide 8 0x100000000
  else return mark

/-- Takes a byte string behind its length. -/
def takeVarBytes : Reader Bytes := do takeBytes (← takeCount)

/-- Takes so many values. -/
def takeMany {α : Type} (take : Reader α) : (count : Nat) → Reader (List α)
  | 0 => pure []
  | count + 1 => do
    let first ← take
    let rest ← takeMany take count
    return first :: rest

/-- Takes a list behind its count. -/
def takeList {α : Type} (take : Reader α) : Reader (List α) := do takeMany take (← takeCount)

/-- Takes a word. -/
def takeWord : Reader UInt32 := do return UInt32.ofNat (← takeNat 4)

/-- Takes an input without its witness. -/
def takeInput : Reader TxIn := do
  let txid ← takeBytes 32
  let vout ← takeWord
  let scriptSig ← takeVarBytes
  let sequence ← takeWord
  return ⟨⟨FixedBytes.ofPrefix 32 txid, vout⟩, scriptSig, sequence, []⟩

/-- Takes an output. -/
def takeOutput : Reader TxOut := do
  let value ← takeNat 8
  let scriptPubkey ← takeVarBytes
  return ⟨UInt64.ofNat value, scriptPubkey⟩

/-- The most bytes that a witness may take. -/
def maxWitness : Nat := 4000000

/-- Takes so many elements of a witness. The bytes `used` so far, with lengths and four bytes for
every element of the witness, are bounded. -/
def takeElements (room : Nat) : (count used : Nat) → Reader (List Bytes)
  | 0, _ => pure []
  | count + 1, used => do
    let length ← takeCount
    let used := used + length + (writeCount length).length
    if UInt64.size ≤ used then throw (.oversized (UInt64.size - 1) maxWitness)
    if maxWitness + room < used then throw (.oversized used maxWitness)
    let first ← takeBytes length
    let rest ← takeElements room count used
    return first :: rest

/-- Takes the witness of an input. -/
def takeWitness : Reader (List Bytes) := do
  let count ← takeCount
  if maxWitness < count then throw (.oversized count maxWitness)
  takeElements (4 * count) count (4 * count)

/-- Takes the witnesses of inputs, in order. -/
def takeWitnesses : List TxIn → Reader (List TxIn)
  | [] => pure []
  | input :: rest => do
    let witness ← takeWitness
    let others ← takeWitnesses rest
    return { input with witness } :: others

/-- Takes a transaction in either form. -/
def takeTransaction : Reader Transaction := do
  let version ← takeWord
  let inputs ← takeList takeInput
  if inputs.isEmpty then
    let mark ← takeNat 1
    if mark ≠ 1 then throw (.unsupportedMark (UInt8.ofNat mark))
    let inputs ← takeList takeInput
    let outputs ← takeList takeOutput
    let inputs ← takeWitnesses inputs
    if !inputs.isEmpty && inputs.all (·.witness.isEmpty) then throw .noWitnesses
    return { version, inputs, outputs, lockTime := ← takeWord }
  else
    let outputs ← takeList takeOutput
    return { version, inputs, outputs, lockTime := ← takeWord }

/-- The transaction that bytes spell to their end. -/
def Transaction.read (bytes : Bytes) : Except TransactionError Transaction :=
  match takeTransaction bytes with
  | .error e => .error e
  | .ok (tx, rest) => if rest.isEmpty then .ok tx else .error .trailing

end BridgeKernel.Bitcoin
