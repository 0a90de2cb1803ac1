import BridgeKernel.Custody.Basic

/-!
# Signing and assembly

The digest that custodians sign for an input, and the unlocking data that their signatures make.
-/

namespace BridgeKernel.Assembly

open Bitcoin Script

/-- The digest that custodians sign for an input that spends an output. -/
def sighash (tx : Transaction) (index : Nat) (spent : Utxo) (redeem : Bytes) :
    Except CustodyError Hash :=
  match lockKind? redeem spent.scriptPubkey with
  | none => .error (.unsupportedScript index)
  | some .scriptHash =>
    (tx.scriptSighash? index redeem).elim (.error (.encoding .inputIndex)) .ok
  | some .witnessHash =>
    (tx.witnessSighash? index redeem spent.value).elim (.error (.encoding .inputIndex)) .ok

/-- Checks a custodian's signature of a digest. -/
def checkSignature (input : Nat) (digest : Hash) (signature key : Bytes) :
    Except CustodyError Unit :=
  (Bitcoin.checkSignature digest signature key).mapError (.invalidSignature input)

/-- An input unlocked by the signatures made for it. An empty element stands first because the check
of several signatures takes one more than it uses. -/
def unlock (index : Nat) (input : TxIn) (spent : Utxo) (redeem : Bytes)
    (signatures : List Bytes) : Except CustodyError TxIn :=
  match lockKind? redeem spent.scriptPubkey with
  | none => .error (.unsupportedScript index)
  | some .scriptHash =>
    .ok { input with scriptSig := 0x00 :: (signatures.flatMap push ++ push redeem) }
  | some .witnessHash => .ok { input with witness := [] :: (signatures ++ [redeem]) }

/-- The signatures that the signers made for an input. -/
def signaturesFor (index inputCount : Nat) (signers : List (List Bytes)) :
    Except CustodyError (List Bytes) :=
  signers.mapM fun signatures =>
    match signatures[index]? with
    | some signature => .ok signature
    | none => .error (.signatureCount inputCount signatures.length)

/-- Inputs from a place on, unlocked as far as there are spent outputs for them. -/
def unlockAll (redeem : Bytes) (signers : List (List Bytes)) (inputCount : Nat) :
    (index : Nat) → List TxIn → List Utxo → Except CustodyError (List TxIn)
  | _, [], _ => .ok []
  | _, inputs, [] => .ok inputs
  | index, input :: inputs, spent :: rest => do
    let signatures ← signaturesFor index inputCount signers
    let first ← unlock index input spent redeem signatures
    return first :: (← unlockAll redeem signers inputCount (index + 1) inputs rest)

/-- The transaction with every input unlocked. Each signer gives a signature for every input, and
the signers stand in the order of the script's keys. -/
def assemble (tx : Transaction) (spent : List Utxo) (redeem : Bytes)
    (signers : List (List Bytes)) : Except CustodyError Transaction := do
  return { tx with inputs := ← unlockAll redeem signers spent.length 0 tx.inputs spent }

end BridgeKernel.Assembly
