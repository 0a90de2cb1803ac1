import BridgeKernel.Custody.Assembly
import BridgeKernel.Custody.Redeem
import BridgeKernel.Custody.Selection

/-!
# Custody of coins

Outputs deposited under a custody key are spendable until a payment reserves them. Custodians sign a
payment one after another; the contribution that completes the required number makes the signed
transaction, moves its inputs to the spent outputs, and adds those of its outputs that pay the
custody key to the spendable ones.
-/

namespace BridgeKernel.Custody

open Bitcoin

/-! ## Queries -/

/-- The script registered under a custody key. -/
def redeem? (chain : ChainId) (key : String) : Transition CustodyError (Option RedeemRecord) :=
  (State.load? (.redeem chain key)).mapError .storage

/-- The script registered under a custody key, which must be there. -/
def redeem (chain : ChainId) (key : String) : Transition CustodyError RedeemRecord := do
  match ← redeem? chain key with
  | none => throw (.unknownRedeemKey chain key)
  | some record => return record

/-- The spendable outputs of a custody key. -/
def utxos (chain : ChainId) (key : String) : Transition CustodyError (List Utxo) := do
  let stored : Option (List Utxo) ← (State.load? (.utxo chain key)).mapError .storage
  return stored.getD []

/-- The spent outputs of a custody key. -/
def stxos (chain : ChainId) (key : String) : Transition CustodyError (List Utxo) := do
  let stored : Option (List Utxo) ← (State.load? (.stxo chain key)).mapError .storage
  return stored.getD []

/-- The payment with a transaction id. -/
def draft? (chain : ChainId) (txid : Hash) : Transition CustodyError (Option SpendDraft) :=
  (State.load? (.draft chain txid)).mapError .storage

/-- The signatures collected for a transaction id. -/
def collection? (txid : Hash) : Transition CustodyError (Option SignatureCollection) :=
  (State.load? (.multisig txid)).mapError .storage

/-- The script to which deposits under a custody key are locked. -/
def depositScript (config : CustodyConfig) (chain : ChainId) (key : String) :
    Transition CustodyError Bytes := do
  return Script.locking (← redeem chain key).redeemScript config.lockKind

/-! ## Registration and deposits -/

/-- Registers a script and gives its custody key; a registered script stays as it is. -/
def register (chain : ChainId) (script : Bytes) : Transition CustodyError String := do
  let record ← Transition.ofExcept .invalidRedeemScript (Redeem.parse script)
  if !(← (State.has (.redeem chain record.redeemKey)).mapError .storage) then
    (State.store (.redeem chain record.redeemKey) record).mapError .storage
  return record.redeemKey

/-- The outputs reserved by the payments of a chain that wait for signatures. -/
def reserved (chain : ChainId) : Transition CustodyError (List Utxo) := do
  let start := keyBytes (← get).module .draft [.number chain]
  let drafts : List (Bytes × SpendDraft) ← (State.scan start).mapError .storage
  return drafts.flatMap fun entry => entry.2.inputs

/-- Adds an output to the spendable ones of a custody key, unless it is spendable, spent or reserved
already. -/
def recordDeposit (chain : ChainId) (key : String) (utxo : Utxo) :
    Transition CustodyError Unit := do
  let record ← redeem chain key
  if (Script.lockKind? record.redeemScript utxo.scriptPubkey).isNone then
    throw (.foreignOutput utxo.txid utxo.vout key)
  let spendable ← utxos chain key
  let spent ← stxos chain key
  let held ← reserved chain
  if (spendable ++ spent ++ held).any (·.sameOutpoint utxo) then
    throw (.duplicateOutput utxo.txid utxo.vout)
  (State.store (.utxo chain key) (spendable ++ [utxo])).mapError .storage

/-! ## Payments -/

/-- The sum of wanted outputs added to a sum so far; each must have a script and be worth its
cost. -/
def sumPayouts (config : CustodyConfig) : (sum : UInt64) → List Payout →
    Except PayoutFault UInt64
  | sum, [] => .ok sum
  | sum, payout :: rest =>
    if payout.scriptPubkey.isEmpty then .error .emptyScript
    else if payout.value ≤ config.dustLimit then .error (.dust payout.value)
    else if UInt64.size ≤ sum.toNat + payout.value.toNat then .error .overflow
    else sumPayouts config (sum + payout.value) rest

/-- What a payment costs: its fee and its outputs, of which there must be one. -/
def required (config : CustodyConfig) (payouts : List Payout) (fee : UInt64) :
    Except PayoutFault UInt64 :=
  if payouts.isEmpty then .error .none else sumPayouts config fee payouts

/-- The unsigned transaction that spends outputs, with the given change if it is worth its cost. -/
def unsignedTransaction (config : CustodyConfig) (redeemScript : Bytes) (spent : List Utxo)
    (payouts : List Payout) (change : UInt64) : Transaction where
  version := 2
  inputs := spent.map fun u => ⟨⟨u.txid, u.vout⟩, [], 0xffffffff, []⟩
  outputs := (payouts.map fun p => ⟨p.value, p.scriptPubkey⟩) ++
    if config.dustLimit < change then
      [⟨change, Script.locking redeemScript config.lockKind⟩]
    else []
  lockTime := 0

/-- The payment made of a selection that covers its cost. -/
def draftOf (config : CustodyConfig) (record : RedeemRecord) (key : String)
    (selection : Selection) (payouts : List Payout) (cost fee : UInt64) : SpendDraft :=
  let change := UInt64.ofNat selection.total - cost
  let tx := unsignedTransaction config record.redeemScript selection.chosen payouts change
  { txid := tx.txid
    redeemKey := key
    unsignedTx := tx.write
    inputs := selection.chosen
    fee := if config.dustLimit < change then fee else fee + change }

/-- Makes a payment and reserves the outputs that it spends. -/
def createDraft (config : CustodyConfig) (chain : ChainId) (key : String)
    (payouts : List Payout) (fee : UInt64) : Transition CustodyError SpendDraft := do
  let record ← redeem chain key
  let cost ← Transition.ofExcept .invalidPayout (required config payouts fee)
  let spendable ← utxos chain key
  match Selection.largestFirst spendable cost with
  | none =>
    throw (.insufficientFunds (spendable.foldl (fun sum u => sum + u.value) 0) cost)
  | some selection =>
    if config.maxInputs < selection.chosen.length then
      throw (.tooManyInputs selection.chosen.length config.maxInputs)
    let draft := draftOf config record key selection payouts cost fee
    (do
      State.commit [
        ← State.writeAbout (.draft chain draft.txid) draft,
        ← State.writeAbout (.utxo chain key) selection.remaining] :
      Transition StorageError Unit).mapError .storage
    return draft

/-! ## Signatures -/

/-- Checks a signature for each input from a place on. -/
def checkSignatures (tx : Transaction) (record : RedeemRecord) (key : Bytes) :
    (index : Nat) → List Utxo → List Bytes → Except CustodyError Unit
  | index, spent :: rest, signature :: signatures => do
    let digest ← Assembly.sighash tx index spent record.redeemScript
    Assembly.checkSignature index digest signature key
    checkSignatures tx record key (index + 1) rest signatures
  | _, _, _ => .ok ()

/-- The collection to which a custodian may still contribute, if one has begun. -/
def openCollection (signer : Custodian) (txid : Hash) :
    Transition CustodyError (Option SignatureCollection) := do
  match ← collection? txid with
  | none => return none
  | some collection =>
    if collection.isFinalized then throw (.alreadyFinalized txid)
    if collection.signatures.contains signer then throw (.duplicateSigner signer txid)
    return some collection

/-- The outputs of a signed transaction that pay a script, as spendable outputs. -/
def returned (redeemScript : Bytes) (tx : Transaction) : List Utxo :=
  let listed := tx.outputs.mapIdx fun vout output =>
    (⟨tx.txid, UInt32.ofNat vout, output.value, output.scriptPubkey⟩ : Utxo)
  listed.filter fun u => (Script.lockKind? redeemScript u.scriptPubkey).isSome

/-- The signatures of the custodians that signed, in the order of the script's keys. -/
def inKeyOrder (record : RedeemRecord) (collection : SignatureCollection) : List (List Bytes) :=
  record.custodians.filterMap fun c => collection.signatures.find? c

/-- Puts the signed transaction together and closes the payment. -/
def finalize (chain : ChainId) (tx : Transaction) (draft : SpendDraft) (record : RedeemRecord)
    (collection : SignatureCollection) : Transition CustodyError SigningOutcome := do
  let signed ← Transition.ofExcept id
    (Assembly.assemble tx draft.inputs record.redeemScript (inKeyOrder record collection))
  let spendable ← utxos chain draft.redeemKey
  let kept := spendable.filter fun u => !draft.inputs.any (·.sameOutpoint u)
  let spent ← stxos chain draft.redeemKey
  let closed := { collection with status := .finalized signed.write signed.txid }
  (do
    State.commit [
      ← State.writeAbout (.multisig draft.txid) closed,
      ← State.writeAbout (.utxo chain draft.redeemKey)
          (kept ++ returned record.redeemScript signed),
      ← State.writeAbout (.stxo chain draft.redeemKey) (spent ++ draft.inputs),
      ← State.deleteAbout (.draft chain draft.txid)] :
    Transition StorageError Unit).mapError .storage
  return .finalized signed.write signed.txid

/-- Records a custodian's signatures, one for each input of a payment, and closes the payment when
enough custodians have signed. -/
def addSignature (chain : ChainId) (signer : Custodian) (txid : Hash) (signatures : List Bytes) :
    Transition CustodyError SigningOutcome := do
  let begun ← openCollection signer txid
  match ← draft? chain txid with
  | none => throw (.draftNotFound txid)
  | some draft =>
    let record ← redeem chain draft.redeemKey
    match record.position? signer with
    | none => throw (.notCustodian signer)
    | some position =>
      if signatures.length ≠ draft.inputs.length then
        throw (.signatureCount draft.inputs.length signatures.length)
      let tx ← Transition.ofExcept (.encoding ∘ .transaction) (Transaction.read draft.unsignedTx)
      let key := record.publicKeys.getD position []
      Transition.ofExcept id (checkSignatures tx record key 0 draft.inputs signatures)
      let collection := begun.getD (.start txid draft.redeemKey)
      let collection :=
        { collection with signatures := collection.signatures.insert signer signatures }
      if collection.signerCount < record.required.toNat then
        (State.store (.multisig txid) collection).mapError .storage
        return .collecting collection.signerCount record.required
      else finalize chain tx draft record collection

end BridgeKernel.Custody
