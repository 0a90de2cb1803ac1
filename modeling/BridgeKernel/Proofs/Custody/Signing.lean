import BridgeKernel.Proofs.Custody.Orderly

/-!
# Payments and their signed transactions

The signed transaction of a payment is the unsigned one with scripts or witnesses put into its
inputs, each in the place that the spent output asks for. It is read back from its bytes, is known
by its form without witnesses, and pays back what it locks to the custody script.
-/

namespace BridgeKernel

open Bitcoin

namespace Script

variable {redeem scriptPubkey : Bytes}

theorem lockKind?_isSome_iff : (lockKind? redeem scriptPubkey).isSome = true ↔
    scriptPubkey = locking redeem .scriptHash ∨ scriptPubkey = locking redeem .witnessHash := by
  unfold lockKind?
  split
  · next hscript => simp [hscript]
  split
  · next hwitness => simp [hwitness]
  · next hscript hwitness => simp [hscript, hwitness]

/-- The two kinds of locks differ in their first byte. -/
theorem locking_ne : locking redeem .scriptHash ≠ locking redeem .witnessHash := by
  intro h
  have hfirst := congrArg List.head? h
  simp [locking] at hfirst

end Script

namespace Custody

/-- An input of a signed transaction: that of the unsigned one with an unlocking script or a witness
put into it, as the output that it spends is locked. -/
inductive SignedInput (redeem : Bytes) (input : TxIn) (u : Utxo) : TxIn → Prop
  /-- The output is unlocked by a script. -/
  | script (lock : u.scriptPubkey = Script.locking redeem .scriptHash) (scriptSig : Bytes) :
    SignedInput redeem input u { input with scriptSig := scriptSig }
  /-- The output is unlocked by a witness. -/
  | witness (lock : u.scriptPubkey = Script.locking redeem .witnessHash) (witness : List Bytes) :
    SignedInput redeem input u { input with witness := witness }

variable {redeem : Bytes} {tx signed : Transaction} {spent : List Utxo}
  {signers : List (List Bytes)}

theorem UnlockedBy.signedInput {index : Nat} {input unlocked : TxIn} {u : Utxo}
    {signatures : List Bytes} (h : UnlockedBy redeem signers index input u signatures unlocked) :
    SignedInput redeem input u unlocked := by
  rcases unlock_ok h.laid with ⟨hkind, rfl⟩ | ⟨hkind, rfl⟩
  · exact .script (Script.locking_of_lockKind? hkind) _
  · exact .witness (Script.locking_of_lockKind? hkind) _

/-- What unlocks an output by a witness is left out of the plain form. -/
theorem SignedInput.write_eq {input unlocked : TxIn} {u : Utxo}
    (h : SignedInput redeem input u unlocked)
    (hlock : u.scriptPubkey = Script.locking redeem .witnessHash) :
    unlocked.write = input.write := by
  cases h with
  | script lock => exact absurd (lock.symm.trans hlock) Script.locking_ne
  | witness => rfl

/-- Transactions with the same inputs, up to the witnesses, have the same plain form. -/
theorem writePlain_eq_of_inputs (hrest : signed = { tx with inputs := signed.inputs })
    (hinputs : signed.inputs.map TxIn.write = tx.inputs.map TxIn.write) :
    signed.writePlain = tx.writePlain := by
  have hlist : writeList TxIn.write signed.inputs = writeList TxIn.write tx.inputs := by
    have hcount := congrArg List.length hinputs
    rw [List.length_map, List.length_map] at hcount
    rw [writeList, writeList, hcount, List.flatMap_def, List.flatMap_def, hinputs]
  have hversion := congrArg Transaction.version hrest
  have houtputs := congrArg Transaction.outputs hrest
  have hlockTime := congrArg Transaction.lockTime hrest
  rw [Transaction.writePlain, Transaction.writePlain, hlist, hversion, houtputs, hlockTime]

namespace Assembles

variable (h : Assembles tx spent redeem signers signed)
include h

theorem signedInput (place : Nat) (input : TxIn) (u : Utxo)
    (hinput : tx.inputs[place]? = some input) (hu : spent[place]? = some u) :
    ∃ unlocked, signed.inputs[place]? = some unlocked ∧ SignedInput redeem input u unlocked := by
  obtain ⟨signatures, unlocked, hunlocked, hby⟩ := h.unlocked place input u hinput hu
  exact ⟨unlocked, hunlocked, hby.signedInput⟩

/-- A transaction that spends only what is unlocked by witnesses keeps its plain form. -/
theorem writePlain_eq (hcount : tx.inputs.length = spent.length)
    (hlocks : ∀ u ∈ spent, u.scriptPubkey = Script.locking redeem .witnessHash) :
    signed.writePlain = tx.writePlain := by
  apply writePlain_eq_of_inputs h.rest
  apply List.ext_getElem?
  intro place
  rw [List.getElem?_map, List.getElem?_map]
  by_cases hplace : place < tx.inputs.length
  · have hinput := List.getElem?_eq_getElem hplace
    have hu := List.getElem?_eq_getElem (hcount ▸ hplace)
    obtain ⟨unlocked, hunlocked, hsigned⟩ := h.signedInput _ _ _ hinput hu
    rw [hunlocked, hinput, Option.map_some, Option.map_some,
      hsigned.write_eq (hlocks _ (List.mem_of_getElem? hu))]
  · rw [List.getElem?_eq_none (by rw [h.count]; omega), List.getElem?_eq_none (by omega)]

end Assembles

/-! ## What is paid back -/

/-- Outputs in custody that are the outputs of a transaction locked to a script. -/
structure PaidBack (redeem : Bytes) (txid : Hash) (outputs : List TxOut) (utxos : List Utxo) :
    Prop where
  /-- They are all of these, in their order. -/
  locked : (utxos.map fun u => (⟨u.value, u.scriptPubkey⟩ : TxOut)) =
    outputs.filter fun o => o.scriptPubkey = Script.locking redeem .scriptHash ∨
      o.scriptPubkey = Script.locking redeem .witnessHash
  /-- Each is known by the id of the transaction and its place in it. -/
  mem_iff : ∀ u, u ∈ utxos ↔ ∃ (place : Nat) (output : TxOut), outputs[place]? = some output ∧
    (output.scriptPubkey = Script.locking redeem .scriptHash ∨
      output.scriptPubkey = Script.locking redeem .witnessHash) ∧
    u = ⟨txid, UInt32.ofNat place, output.value, output.scriptPubkey⟩

theorem returned_paidBack (redeem : Bytes) (tx : Transaction) :
    PaidBack redeem tx.txid tx.outputs (returned redeem tx) where
  locked := by
    have houtputs : (tx.outputs.mapIdx fun place output =>
        (⟨tx.txid, UInt32.ofNat place, output.value, output.scriptPubkey⟩ : Utxo)).map
          (fun u => (⟨u.value, u.scriptPubkey⟩ : TxOut)) = tx.outputs := by
      rw [List.mapIdx_eq_zipIdx_map, List.map_map]
      exact List.zipIdx_map_fst 0 tx.outputs
    rw [← congrArg (List.filter _) houtputs, List.filter_map, returned]
    congr 1
    apply List.filter_congr
    intro u _
    rw [Bool.eq_iff_iff, Script.lockKind?_isSome_iff]
    exact decide_eq_true_iff.symm
  mem_iff u := by
    rw [returned, List.mem_filter, Script.lockKind?_isSome_iff, List.mem_mapIdx]
    constructor
    · rintro ⟨⟨place, hplace, rfl⟩, hlock⟩
      exact ⟨place, _, List.getElem?_eq_getElem hplace, hlock, rfl⟩
    · rintro ⟨place, output, houtput, hlock, rfl⟩
      obtain ⟨hplace, rfl⟩ := List.getElem?_eq_some_iff.mp houtput
      exact ⟨⟨place, hplace, rfl⟩, hlock⟩

/-- The signed transaction of a payment, its bytes, and the id by which it is known. -/
structure SignsDraft (redeem : Bytes) (draft : SpendDraft) (tx signed : Transaction) (raw : Bytes)
    (final : Hash) : Prop where
  /-- The unsigned transaction. -/
  unsigned : Transaction.read draft.unsignedTx = .ok tx
  /-- The signed one is read from the bytes. -/
  read : Transaction.read raw = .ok signed
  /-- These are the bytes that it is written with. -/
  write : signed.write = raw
  /-- Both have one version. -/
  version : signed.version = tx.version
  /-- Both have one lock time. -/
  lockTime : signed.lockTime = tx.lockTime
  /-- Both pay the same. -/
  outputs : signed.outputs = tx.outputs
  /-- Both have an input for each output that is spent. -/
  count : tx.inputs.length = draft.inputs.length ∧ signed.inputs.length = draft.inputs.length
  /-- Their inputs differ in what unlocks the outputs. -/
  inputs : ∀ (place : Nat) (input : TxIn) (u : Utxo), tx.inputs[place]? = some input →
    draft.inputs[place]? = some u →
    ∃ unlocked, signed.inputs[place]? = some unlocked ∧ SignedInput redeem input u unlocked
  /-- The id leaves witnesses out. -/
  id : final = Sha256.double signed.writePlain
  /-- It is that of the payment if witnesses unlock all inputs. -/
  kept : (∀ u ∈ draft.inputs, u.scriptPubkey = Script.locking redeem .witnessHash) →
    final = draft.txid

theorem Closes.signs {chain : ChainId} {draft : SpendDraft} {record : RedeemRecord}
    {collection : SignatureCollection} {s t : State}
    (h : Closes chain draft record tx signed collection s t) (hpays : Pays draft tx)
    (hparsed : record.Parsed) (hshort : collection.Short) :
    SignsDraft record.redeemScript draft tx signed signed.write signed.txid := by
  have hassembles := assemble_ok h.assembled
  have hspends := h.spends hpays hparsed hshort
  have hcount : tx.inputs.length = draft.inputs.length := by
    rw [hpays.inputs, List.length_map]
  exact {
    unsigned := hpays.read
    read := Transaction.read_write hspends.fits hspends.inputs_ne_nil
    write := rfl
    version := by rw [hassembles.rest]
    lockTime := by rw [hassembles.rest]
    outputs := hassembles.outputs_eq
    count := ⟨hcount, hassembles.count.trans hcount⟩
    inputs := hassembles.signedInput
    id := rfl
    kept := fun hlocks => by
      rw [hpays.txid, Transaction.txid, Transaction.txid, hassembles.writePlain_eq hcount hlocks] }

end Custody

end BridgeKernel
