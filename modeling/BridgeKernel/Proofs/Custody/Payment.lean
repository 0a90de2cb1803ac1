import BridgeKernel.Proofs.Bitcoin.Codec
import BridgeKernel.Proofs.Custody.Steps

/-!
# What a payment is worth

The outputs picked for a payment cover its cost. What they are worth beyond it is change, which goes
to an output of its own or to the fee, so nothing is lost or made. The unsigned transaction can be
read back from the payment, and spends the outputs that are reserved for it.
-/

namespace BridgeKernel

open Bitcoin

/-- The value of outputs in custody, without bound. -/
def worth (utxos : List Utxo) : Nat := (utxos.map fun u => u.value.toNat).sum

/-- The value of outputs of transactions, without bound. -/
def paidWorth (outputs : List TxOut) : Nat := (outputs.map fun o => o.value.toNat).sum

@[simp] theorem worth_nil : worth [] = 0 := rfl

@[simp] theorem worth_cons (u : Utxo) (utxos : List Utxo) :
    worth (u :: utxos) = u.value.toNat + worth utxos := rfl

@[simp] theorem worth_append (front back : List Utxo) :
    worth (front ++ back) = worth front + worth back := by
  simp [worth]

theorem worth_perm {utxos utxos' : List Utxo} (h : utxos.Perm utxos') :
    worth utxos = worth utxos' := (h.map _).sum_nat

@[simp] theorem paidWorth_nil : paidWorth [] = 0 := rfl

@[simp] theorem paidWorth_cons (o : TxOut) (outputs : List TxOut) :
    paidWorth (o :: outputs) = o.value.toNat + paidWorth outputs := rfl

@[simp] theorem paidWorth_append (front back : List TxOut) :
    paidWorth (front ++ back) = paidWorth front + paidWorth back := by
  simp [paidWorth]

namespace Selection

/-- The outputs gathered are worth the total, which stays in range. -/
theorem gather_total {target taken : Nat} {utxos : List Utxo} {selection : Selection}
    (h : gather target taken utxos = some selection) (htaken : taken < UInt64.size) :
    selection.total = taken + worth selection.chosen ∧ selection.total < UInt64.size := by
  induction utxos generalizing taken selection with
  | nil =>
    cases h
    exact ⟨rfl, htaken⟩
  | cons u rest ih =>
    simp only [gather] at h
    split at h
    · cases h
    next hrange =>
    have hsum : taken + u.value.toNat < UInt64.size := Nat.not_le.mp hrange
    split at h
    · cases h
      exact ⟨rfl, hsum⟩
    · obtain ⟨later, hlater, rfl⟩ := Option.map_eq_some_iff.mp h
      obtain ⟨htotal, hlimit⟩ := ih hlater hsum
      refine ⟨?_, hlimit⟩
      rw [htotal, worth_cons]
      omega

/-- A selection picks an output, is worth its total, and covers its target. -/
theorem largestFirst_total {utxos : List Utxo} {target : UInt64} {selection : Selection}
    (h : largestFirst utxos target = some selection) :
    selection.chosen ≠ [] ∧ selection.total = worth selection.chosen ∧
      selection.total < UInt64.size ∧ target.toNat ≤ selection.total := by
  obtain ⟨found, hgather, h⟩ := Option.bind_eq_some_iff.mp h
  split at h
  · cases h
  · next hcovers =>
    cases h
    simp only [Bool.or_eq_true, decide_eq_true_eq, List.isEmpty_iff, not_or] at hcovers
    obtain ⟨htotal, hlimit⟩ := gather_total hgather (by decide)
    refine ⟨hcovers.2, ?_, hlimit, Nat.not_lt.mp hcovers.1⟩
    omega

end Selection

namespace Custody

variable {config : CustodyConfig} {chain : ChainId} {key : String} {payouts : List Payout}
  {fee cost : UInt64} {record : RedeemRecord} {selection : Selection} {draft : SpendDraft}
  {s t : State}

/-- Wanted outputs are summed in range. -/
theorem sumPayouts_ok {sum total : UInt64} (h : sumPayouts config sum payouts = .ok total) :
    total.toNat = sum.toNat + paidWorth (payouts.map fun p => ⟨p.value, p.scriptPubkey⟩) := by
  induction payouts generalizing sum with
  | nil =>
    cases h
    rfl
  | cons payout rest ih =>
    unfold sumPayouts at h
    split at h
    · cases h
    split at h
    · cases h
    split at h
    · cases h
    next hrange =>
    have hsum := ih h
    rw [UInt64.toNat_add] at hsum
    have hmod := Nat.mod_eq_of_lt (Nat.not_le.mp hrange)
    have hsize : (UInt64.size : Nat) = 2 ^ 64 := rfl
    rw [hsize] at hmod
    rw [List.map_cons, paidWorth_cons, hsum, hmod, Nat.add_assoc]

/-- A payment costs its fee and its outputs, of which there is one. -/
theorem required_ok (h : required config payouts fee = .ok cost) :
    payouts ≠ [] ∧
      cost.toNat = fee.toNat + paidWorth (payouts.map fun p => ⟨p.value, p.scriptPubkey⟩) := by
  unfold required at h
  split at h
  · cases h
  · next hsome =>
    refine ⟨?_, sumPayouts_ok h⟩
    rwa [List.isEmpty_iff] at hsome

/-- The unsigned transaction of a payment. -/
structure Pays (draft : SpendDraft) (tx : Transaction) : Prop where
  /-- It is read back from the payment. -/
  read : Transaction.read draft.unsignedTx = .ok tx
  /-- The payment is known by it. -/
  txid : draft.txid = tx.txid
  /-- It spends the reserved outputs, and nothing unlocks them yet. -/
  inputs : tx.inputs = draft.inputs.map fun u => ⟨⟨u.txid, u.vout⟩, [], 0xffffffff, []⟩
  /-- There is one. -/
  spends : draft.inputs ≠ []
  /-- It has an output. -/
  pays : tx.outputs ≠ []
  /-- The reserved outputs are worth what is paid and the fee. -/
  balance : worth draft.inputs = paidWorth tx.outputs + draft.fee.toNat
  /-- It can be written and read. -/
  fits : tx.Fits

/-- Outputs take up room. -/
theorem length_outputs_le (outputs : List TxOut) :
    outputs.length ≤ (outputs.flatMap TxOut.write).length ∧
      ∀ o ∈ outputs, o.scriptPubkey.length ≤ (outputs.flatMap TxOut.write).length := by
  induction outputs with
  | nil => exact ⟨Nat.le_refl _, nofun⟩
  | cons o outputs ih =>
    have hwrite : o.scriptPubkey.length + 8 ≤ o.write.length := by
      simp only [TxOut.write, writeValue, VarBytes.write, List.length_append,
        Bytes.length_ofNatLE]
      omega
    rw [List.flatMap_cons, List.length_append, List.length_cons]
    refine ⟨by omega, fun o' ho => ?_⟩
    rcases List.mem_cons.mp ho with rfl | ho
    · omega
    · have hlater := ih.2 o' ho
      omega

section Unsigned

variable {redeemScript : Bytes} {spent : List Utxo} {change : UInt64}

/-- Nothing unlocks the inputs of an unsigned transaction, so it is written without witnesses. -/
theorem unsignedTransaction_write (hspent : spent ≠ []) :
    (unsignedTransaction config redeemScript spent payouts change).write =
      (unsignedTransaction config redeemScript spent payouts change).writePlain := by
  have hneeds : (unsignedTransaction config redeemScript spent payouts change).needsWitnessForm =
      false := by
    simp [Transaction.needsWitnessForm, unsignedTransaction, hspent]
  rw [Transaction.write, hneeds]
  rfl

/-- An unsigned transaction whose bytes can be counted can be written and read. -/
theorem unsignedTransaction_fits (hcount : spent.length < UInt64.size)
    (hbytes : (unsignedTransaction config redeemScript spent payouts change).writePlain.length <
      UInt64.size) :
    (unsignedTransaction config redeemScript spent payouts change).Fits := by
  have hsize : UInt64.size = 18446744073709551616 := rfl
  generalize htx : unsignedTransaction config redeemScript spent payouts change = tx at hbytes ⊢
  have hinputs : tx.inputs = spent.map fun u => ⟨⟨u.txid, u.vout⟩, [], 0xffffffff, []⟩ := by
    rw [← htx]
    rfl
  have hlength : (tx.outputs.flatMap TxOut.write).length ≤ tx.writePlain.length := by
    simp only [Transaction.writePlain, writeList, List.length_append]
    omega
  obtain ⟨houtputs, hscripts⟩ := length_outputs_le tx.outputs
  refine ⟨?_, by omega, fun i hi => ?_, fun o ho => ?_, fun i hi => ?_⟩
  · rw [hinputs, List.length_map]
    exact hcount
  · rw [hinputs] at hi
    obtain ⟨u, -, rfl⟩ := List.mem_map.mp hi
    exact Nat.zero_lt_of_ne_zero (by omega)
  · have hscript := hscripts o ho
    omega
  · rw [hinputs] at hi
    obtain ⟨u, -, rfl⟩ := List.mem_map.mp hi
    exact Nat.zero_le _

/-- What exceeds the cost of a payment is paid back or goes to its fee. -/
theorem unsignedTransaction_balance {total : Nat}
    (hcost : cost.toNat = fee.toNat + paidWorth (payouts.map fun p => ⟨p.value, p.scriptPubkey⟩))
    (htotal : total = cost.toNat + change.toNat) (hlimit : total < UInt64.size) :
    total = paidWorth (unsignedTransaction config redeemScript spent payouts change).outputs +
      (if config.dustLimit < change then fee else fee + change).toNat := by
  have hsize : UInt64.size = 18446744073709551616 := rfl
  by_cases hdust : config.dustLimit < change
  · simp only [unsignedTransaction, if_pos hdust, paidWorth_append, paidWorth_cons, paidWorth_nil]
    omega
  · simp only [unsignedTransaction, if_neg hdust, List.append_nil, UInt64.toNat_add]
    omega

end Unsigned

namespace Drafts

variable (h : Drafts config chain key payouts fee record cost selection draft s t)
include h

/-- What an accepted payment spends is its cost and its change. -/
theorem total_eq :
    selection.total = cost.toNat + (UInt64.ofNat selection.total - cost).toNat := by
  obtain ⟨-, -, hlimit, hcovers⟩ := Selection.largestFirst_total h.selected
  have hnat : (UInt64.ofNat selection.total).toNat = selection.total :=
    UInt64.toNat_ofNat_of_lt' hlimit
  have hle : cost ≤ UInt64.ofNat selection.total := by
    rw [UInt64.le_iff_toNat_le, hnat]
    exact hcovers
  rw [UInt64.toNat_sub_of_le _ _ hle, hnat]
  omega

/-- An accepted payment has the unsigned transaction that is made of it, which balances. -/
theorem pays_unsigned : Pays draft (unsignedTransaction config record.redeemScript selection.chosen
    payouts (UInt64.ofNat selection.total - cost)) := by
  obtain ⟨hchosen, htotal, hlimit, -⟩ := Selection.largestFirst_total h.selected
  obtain ⟨hpayouts, hcost⟩ := required_ok h.costs
  have hspent := h.total_eq
  have hdraft := h.fits
  simp only [Record.fits, Bool.and_eq_true, decide_eq_true_eq] at hdraft
  obtain ⟨⟨-, hbytes, -⟩, hcount, -⟩ := hdraft
  obtain rfl := h.made
  have hunsigned : (draftOf config record key selection payouts cost fee).unsignedTx =
      Transaction.writePlain _ := unsignedTransaction_write hchosen
  rw [hunsigned] at hbytes
  have hfits := unsignedTransaction_fits hcount hbytes
  refine ⟨Transaction.read_write hfits ?_, rfl, rfl, hchosen, ?_, ?_, hfits⟩
  · simpa [unsignedTransaction] using hchosen
  · simp [unsignedTransaction, hpayouts]
  · exact htotal.symm.trans (unsignedTransaction_balance hcost hspent hlimit)

/-- An accepted payment has an unsigned transaction that balances. -/
theorem pays : ∃ tx, Pays draft tx := ⟨_, h.pays_unsigned⟩

end Drafts

end Custody

end BridgeKernel
