import BridgeKernel.Bitcoin.Script
import BridgeKernel.Bitcoin.Signature
import BridgeKernel.Bitcoin.Transaction
import BridgeKernel.Store.State

/-!
# Custody records

What the bridge keeps about the coins in its custody: the registered scripts, the outputs that they
hold, the payments waiting for signatures, and the signatures collected.
-/

namespace BridgeKernel

/-- Settings of custody. -/
structure CustodyConfig where
  /-- Change up to this value is left to the fee. -/
  dustLimit : UInt64
  /-- How change is locked. -/
  lockKind : Script.LockKind
  /-- Most inputs of one payment. -/
  maxInputs : Nat
deriving DecidableEq, Repr

namespace CustodyConfig

/-- The settings used unless others are given. -/
def standard : CustodyConfig := ⟨546, .witnessHash, 100⟩

/-- Small payments for trials. -/
def trial : CustodyConfig := ⟨546, .witnessHash, 8⟩

/-- Says what is wrong with the settings. -/
def validate (c : CustodyConfig) : Except String Unit :=
  if c.maxInputs = 0 then .error "max_inputs must be > 0" else .ok ()

end CustodyConfig

/-- The digest by which a custodian is known. -/
abbrev Custodian := FixedBytes 20

/-- A registered script: so many of the custodians must sign. -/
structure RedeemRecord where
  /-- The custody key: hexadecimal digest of the script. -/
  redeemKey : String
  /-- The script. -/
  redeemScript : Bytes
  /-- Signatures required. -/
  required : UInt64
  /-- Public keys in script order. -/
  publicKeys : List Bytes
  /-- Their digests in the same order. -/
  custodians : List Custodian
deriving DecidableEq

instance : Record RedeemRecord where
  write r := Record.write r.redeemKey ++ Record.write r.redeemScript ++ Record.write r.required ++
    Record.write r.publicKeys ++ Record.write r.custodians
  read := do
    let redeemKey ← Record.read
    let redeemScript ← Record.read
    let required ← Record.read
    let publicKeys ← Record.read
    let custodians ← Record.read
    return { redeemKey, redeemScript, required, publicKeys, custodians }
  fits r := Record.fits r.redeemKey && Record.fits r.redeemScript && Record.fits r.publicKeys &&
    Record.fits r.custodians

/-- The place of a custodian in the script. -/
def RedeemRecord.position? (r : RedeemRecord) (signer : Custodian) : Option Nat :=
  r.custodians.idxOf? signer

/-- An output in custody. -/
structure Utxo where
  /-- The transaction. -/
  txid : Hash
  /-- Place of the output in it. -/
  vout : UInt32
  /-- Value. -/
  value : UInt64
  /-- Locking script. -/
  scriptPubkey : Bytes
deriving DecidableEq

instance : Record Utxo where
  write u := Record.write u.txid ++ Record.write u.vout ++ Record.write u.value ++
    Record.write u.scriptPubkey
  read := do
    let txid ← Record.read
    let vout ← Record.read
    let value ← Record.read
    let scriptPubkey ← Record.read
    return { txid, vout, value, scriptPubkey }
  fits u := Record.fits u.scriptPubkey

/-- Whether two outputs are the same place of the same transaction. -/
def Utxo.sameOutpoint (a b : Utxo) : Bool := a.txid == b.txid && a.vout == b.vout

/-- An output wanted of a payment. -/
structure Payout where
  /-- Locking script. -/
  scriptPubkey : Bytes
  /-- Value. -/
  value : UInt64
deriving DecidableEq

/-- A payment waiting for signatures, with the outputs that it has reserved. -/
structure SpendDraft where
  /-- Digest of the unsigned transaction. -/
  txid : Hash
  /-- The custody key whose outputs are spent. -/
  redeemKey : String
  /-- The unsigned transaction. -/
  unsignedTx : Bytes
  /-- The outputs spent, in input order. -/
  inputs : List Utxo
  /-- The fee. -/
  fee : UInt64
deriving DecidableEq

instance : Record SpendDraft where
  write d := Record.write d.txid ++ Record.write d.redeemKey ++ Record.write d.unsignedTx ++
    Record.write d.inputs ++ Record.write d.fee
  read := do
    let txid ← Record.read
    let redeemKey ← Record.read
    let unsignedTx ← Record.read
    let inputs ← Record.read
    let fee ← Record.read
    return { txid, redeemKey, unsignedTx, inputs, fee }
  fits d := Record.fits d.redeemKey && Record.fits d.unsignedTx && Record.fits d.inputs

/-- How far a collection of signatures has come. -/
inductive CollectionStatus where
  /-- More custodians must sign. -/
  | collecting
  /-- The signed transaction and the digest by which it is known. -/
  | finalized (rawTx : Bytes) (txid : Hash)
deriving DecidableEq

instance : Record CollectionStatus where
  write
    | .collecting => Record.write (0 : UInt32)
    | .finalized rawTx txid => Record.write (1 : UInt32) ++ Record.write rawTx ++ Record.write txid
  read := do
    match ← Record.takeNat 4 with
    | 0 => return .collecting
    | 1 =>
      let rawTx ← Record.read
      let txid ← Record.read
      return .finalized rawTx txid
    | found => throw (.variant found 2)
  fits
    | .collecting => true
    | .finalized rawTx _ => Record.fits rawTx

/-- The signatures collected for a payment. -/
structure SignatureCollection where
  /-- Digest of the unsigned transaction. -/
  txid : Hash
  /-- The custody key of the payment. -/
  redeemKey : String
  /-- For each custodian that signed, a signature for every input. -/
  signatures : OrderedMap Custodian (List Bytes)
  /-- How far the collection has come. -/
  status : CollectionStatus
deriving DecidableEq

instance : Record SignatureCollection where
  write c := Record.write c.txid ++ Record.write c.redeemKey ++ Record.write c.signatures ++
    Record.write c.status
  read := do
    let txid ← Record.read
    let redeemKey ← Record.read
    let signatures ← Record.read
    let status ← Record.read
    return { txid, redeemKey, signatures, status }
  fits c := Record.fits c.redeemKey && Record.fits c.signatures && Record.fits c.status

namespace SignatureCollection

/-- A collection without signatures. -/
def start (txid : Hash) (redeemKey : String) : SignatureCollection :=
  ⟨txid, redeemKey, .empty, .collecting⟩

/-- The number of custodians that signed. -/
def signerCount (c : SignatureCollection) : Nat := c.signatures.size

/-- Whether the transaction has been put together. -/
def isFinalized (c : SignatureCollection) : Bool := c.status != .collecting

end SignatureCollection

/-- What a custodian's contribution brought about. -/
inductive SigningOutcome where
  /-- It was recorded and more custodians must sign. -/
  | collecting (signed : Nat) (required : UInt64)
  /-- It was the last one needed. -/
  | finalized (rawTx : Bytes) (txid : Hash)
deriving DecidableEq

/-! ## Refusals -/

/-- What is wrong with a script that should name custodians. -/
inductive RedeemFault where
  /-- The script ends inside an instruction. -/
  | cutScript
  /-- It does not begin and end with opcodes. -/
  | notTemplate
  /-- It does not end with the check of several signatures. -/
  | missingCheck
  /-- The number of signatures is no opcode for 1 to 16. -/
  | badRequired
  /-- The number of keys is no opcode for 1 to 16. -/
  | badTotal
  /-- There are more or fewer keys than stated. -/
  | keyCount
  /-- More signatures than keys are required. -/
  | requiredExceedsTotal
  /-- An opcode stands among the keys. -/
  | nonPush
  /-- A key cannot be read. -/
  | key (cause : Bitcoin.KeyFault)
  /-- A key is in its long form. -/
  | uncompressed
  /-- A key stands twice. -/
  | repeated
deriving DecidableEq, Repr

/-- The wording of a fault in a script. -/
def RedeemFault.message : RedeemFault → String
  | .cutScript => "unexpected end of script"
  | .notTemplate => "not a multisig template"
  | .missingCheck => "missing OP_CHECKMULTISIG"
  | .badRequired => "m is not OP_1..OP_16"
  | .badTotal => "n is not OP_1..OP_16"
  | .keyCount => "key count differs from n"
  | .requiredExceedsTotal => "m exceeds n"
  | .nonPush => "non-push between m and n"
  | .key cause => cause.message
  | .uncompressed => "uncompressed public key"
  | .repeated => "public key repeated"

/-- What is wrong with a wanted payment. -/
inductive PayoutFault where
  /-- Nothing is to be paid. -/
  | none
  /-- An output has no script. -/
  | emptyScript
  /-- An output is not worth its cost. -/
  | dust (value : UInt64)
  /-- The sum is out of range. -/
  | overflow
deriving DecidableEq, Repr

/-- The wording of a fault in a payment. -/
def PayoutFault.message : PayoutFault → String
  | .none => "no payouts"
  | .emptyScript => "empty script"
  | .dust value => toString value ++ " sat is dust"
  | .overflow => "total overflows"

/-- What is wrong with a transaction. -/
inductive EncodingFault where
  /-- It has no such input. -/
  | inputIndex
  /-- It cannot be read. -/
  | transaction (cause : Bitcoin.TransactionError)
deriving DecidableEq, Repr

/-- The wording of a fault in a transaction. -/
def EncodingFault.message : EncodingFault → String
  | .inputIndex => "invalid input index"
  | .transaction cause => cause.message

/-- Why custody refused. -/
inductive CustodyError where
  /-- The script is not one that requires some of listed custodians. -/
  | invalidRedeemScript (fault : RedeemFault)
  /-- No script is registered under the custody key. -/
  | unknownRedeemKey (chain : ChainId) (redeemKey : String)
  /-- The output is not locked to the custody key. -/
  | foreignOutput (txid : Hash) (vout : UInt32) (redeemKey : String)
  /-- The output is known already. -/
  | duplicateOutput (txid : Hash) (vout : UInt32)
  /-- The payment is unusable. -/
  | invalidPayout (fault : PayoutFault)
  /-- The spendable outputs are worth too little. -/
  | insufficientFunds (available required : UInt64)
  /-- The payment needs too many outputs. -/
  | tooManyInputs (count max : Nat)
  /-- There is no such payment. -/
  | draftNotFound (txid : Hash)
  /-- The payment is signed already. -/
  | alreadyFinalized (txid : Hash)
  /-- The custodian has signed already. -/
  | duplicateSigner (signer : Custodian) (txid : Hash)
  /-- The signer is no custodian of the script. -/
  | notCustodian (signer : Custodian)
  /-- There must be one signature for every input. -/
  | signatureCount (expected actual : Nat)
  /-- A signature was refused. -/
  | invalidSignature (input : Nat) (fault : Bitcoin.ScriptSignatureFault)
  /-- An input spends an output that is not locked to the script. -/
  | unsupportedScript (input : Nat)
  /-- The transaction is unusable. -/
  | encoding (fault : EncodingFault)
  /-- The store failed. -/
  | storage (cause : StorageError)
deriving DecidableEq

namespace CustodyError

/-- The wording of a refusal. -/
def message : CustodyError → String
  | .invalidRedeemScript fault => "Invalid redeem script: " ++ fault.message
  | .unknownRedeemKey chain redeemKey => "Unknown redeem key " ++ redeemKey ++ " on chain " ++
      toString chain
  | .foreignOutput txid vout redeemKey => "Output " ++ txid.toHex ++ ":" ++ toString vout ++
      " is not locked to custody key " ++ redeemKey
  | .duplicateOutput txid vout => "Output " ++ txid.toHex ++ ":" ++ toString vout ++
      " already known"
  | .invalidPayout fault => "Invalid payout: " ++ fault.message
  | .insufficientFunds available required => "Insufficient custody funds: " ++
      toString available ++ " sat available, " ++ toString required ++ " sat required"
  | .tooManyInputs count max => "Draft needs " ++ toString count ++ " inputs (max " ++
      toString max ++ ")"
  | .draftNotFound txid => "No spend draft " ++ txid.toHex
  | .alreadyFinalized txid => "Draft " ++ txid.toHex ++ " already finalized"
  | .duplicateSigner signer txid => "Custodian " ++ signer.toHex ++ " already signed draft " ++
      txid.toHex
  | .notCustodian signer => signer.toHex ++ " is not a custodian of this redeem script"
  | .signatureCount expected actual => "Expected " ++ toString expected ++ " signatures, got " ++
      toString actual
  | .invalidSignature input fault => "Signature for input " ++ toString input ++ " invalid: " ++
      fault.message
  | .unsupportedScript input => "Input " ++ toString input ++
      " spends an unsupported script type"
  | .encoding fault => "Transaction encoding failed: " ++ fault.message
  | .storage cause => cause.message

/-- The kind of a refusal. -/
def kind : CustodyError → FailureKind
  | .invalidSignature .. => .untrustedClaim
  | .notCustodian _ => .authorityError
  | .duplicateSigner .. => .replayRejected
  | .alreadyFinalized _ => .replayRejected
  | .duplicateOutput .. => .replayRejected
  | .storage cause => cause.kind
  | _ => .malformedInput

instance : Refusal CustodyError := ⟨kind, message⟩

end CustodyError

end BridgeKernel
