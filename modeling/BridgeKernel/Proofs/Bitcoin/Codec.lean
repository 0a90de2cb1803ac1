import BridgeKernel.Bitcoin.Transaction
import BridgeKernel.Proofs.Wire.Lawful

/-!
# Transactions read back

A transaction that has an input is read back exactly from the form in which it is passed on, as long
as its counts can be stated and its witnesses find room in a block. From the plain form it is read
back without its witnesses, so that form says everything else about it.
-/

namespace BridgeKernel.Bitcoin

open Wire

/-! ## Numbers and counts -/

/-- Bytes of the wanted number are taken whole. -/
theorem takeBytes_append (front rest : Bytes) :
    takeBytes front.length (front ++ rest) = .ok (front, rest) := by
  simp [takeBytes]

theorem takeNat_ofNatLE {width n : Nat} (hn : n < 256 ^ width) (rest : Bytes) :
    takeNat width (Bytes.ofNatLE width n ++ rest) = .ok (n, rest) := by
  have htake := takeBytes_append (Bytes.ofNatLE width n) rest
  rw [Bytes.length_ofNatLE] at htake
  rw [takeNat, bind_of_ok htake]
  change Except.ok (Bytes.toNatLE (Bytes.ofNatLE width n), rest) = _
  rw [Bytes.toNatLE_ofNatLE, Nat.mod_eq_of_lt hn]

theorem takeNat_byte {n : Nat} (hn : n < 256) (rest : Bytes) :
    takeNat 1 (UInt8.ofNat n :: rest) = .ok (n, rest) :=
  takeNat_ofNatLE (show n < 256 ^ 1 from hn) rest

theorem takeWord_write (n : UInt32) (rest : Bytes) :
    takeWord (writeWord n ++ rest) = .ok (n, rest) := by
  have htake := takeNat_ofNatLE (show n.toNat < 256 ^ 4 from n.toNat_lt) rest
  rw [takeWord, writeWord, bind_of_ok htake]
  change Except.ok (UInt32.ofNat n.toNat, rest) = _
  rw [UInt32.ofNat_toNat]

/-- A number that does not fit a shorter form is read back from a longer one. -/
theorem takeWide_ofNatLE {width least n : Nat} (hleast : least ≤ n) (hn : n < 256 ^ width)
    (rest : Bytes) : takeWide width least (Bytes.ofNatLE width n ++ rest) = .ok (n, rest) := by
  rw [takeWide, bind_of_ok (takeNat_ofNatLE hn rest), if_neg (Nat.not_lt.mpr hleast)]
  rfl

/-- A count is read back. -/
theorem takeCount_write {n : Nat} (hn : n < UInt64.size) (rest : Bytes) :
    takeCount (writeCount n ++ rest) = .ok (n, rest) := by
  have hn64 : (UInt64.ofNat n).toNat = n := UInt64.toNat_ofNat_of_lt' hn
  have hlt (m : UInt64) : UInt64.ofNat n < m ↔ n < m.toNat := by
    rw [UInt64.lt_iff_toNat_lt, hn64]
  have hle (m : UInt64) : UInt64.ofNat n ≤ m ↔ n ≤ m.toNat := by
    rw [UInt64.le_iff_toNat_le, hn64]
  have h253 := hlt 0xfd
  have h16 := hle 0xffff
  have h32 := hle 0xffffffff
  simp only [UInt64.reduceToNat] at h253 h16 h32
  simp only [writeCount, VarBytes.writeInt, hn64, h253, h16, h32]
  split
  · next hsmall =>
    have hbyte := takeNat_ofNatLE (show n < 256 ^ 1 by omega) rest
    rw [takeCount, bind_of_ok hbyte, if_neg (by omega), if_neg (by omega), if_neg (by omega)]
    rfl
  split
  · next hsmall hmedium =>
    have hmark := takeNat_byte (n := 0xfd) (by omega) (Bytes.ofNatLE 2 n ++ rest)
    rw [takeCount, List.cons_append]
    refine (bind_of_ok hmark).trans ?_
    rw [if_pos rfl]
    exact takeWide_ofNatLE (by omega) (by omega) rest
  split
  · next hsmall hmedium hlarge =>
    have hmark := takeNat_byte (n := 0xfe) (by omega) (Bytes.ofNatLE 4 n ++ rest)
    rw [takeCount, List.cons_append]
    refine (bind_of_ok hmark).trans ?_
    rw [if_neg (by omega), if_pos rfl]
    exact takeWide_ofNatLE (by omega) (by omega) rest
  · next hsmall hmedium hlarge =>
    have hmark := takeNat_byte (n := 0xff) (by omega) (Bytes.ofNatLE 8 n ++ rest)
    rw [takeCount, List.cons_append]
    refine (bind_of_ok hmark).trans ?_
    rw [if_neg (by omega), if_neg (by omega), if_pos rfl]
    exact takeWide_ofNatLE (by omega) hn rest

/-- A count takes at most nine bytes, and at least one. -/
theorem length_writeCount (n : Nat) : 1 ≤ (writeCount n).length ∧ (writeCount n).length ≤ 9 := by
  unfold writeCount VarBytes.writeInt
  split
  · simp
  split
  · simp
  split
  · simp
  · simp

/-! ## Byte strings and lists -/

theorem takeVarBytes_write {bytes : Bytes} (h : bytes.length < UInt64.size) (rest : Bytes) :
    takeVarBytes (VarBytes.write bytes ++ rest) = .ok (bytes, rest) := by
  have hcount := takeCount_write h (bytes ++ rest)
  rw [takeVarBytes, VarBytes.write, List.append_assoc]
  exact (bind_of_ok hcount).trans (takeBytes_append bytes rest)

section Lists

variable {α β : Type} {take : Reader β} {write : α → Bytes} {kept : α → β}

/-- Values written one after another are read back one after another. -/
theorem takeMany_flatMap {xs : List α}
    (h : ∀ x ∈ xs, ∀ rest, take (write x ++ rest) = .ok (kept x, rest)) (rest : Bytes) :
    takeMany take xs.length (xs.flatMap write ++ rest) = .ok (xs.map kept, rest) := by
  induction xs with
  | nil => rfl
  | cons x xs ih =>
    have hhead := h x List.mem_cons_self (xs.flatMap write ++ rest)
    have htail := ih fun y hy => h y (List.mem_cons_of_mem x hy)
    rw [List.flatMap_cons, List.append_assoc, List.length_cons, takeMany, bind_of_ok hhead,
      bind_of_ok htail]
    rfl

theorem takeList_write {xs : List α} (hlength : xs.length < UInt64.size)
    (h : ∀ x ∈ xs, ∀ rest, take (write x ++ rest) = .ok (kept x, rest)) (rest : Bytes) :
    takeList take (writeList write xs ++ rest) = .ok (xs.map kept, rest) := by
  have hcount := takeCount_write hlength (xs.flatMap write ++ rest)
  rw [takeList, writeList, List.append_assoc, bind_of_ok hcount]
  exact takeMany_flatMap h rest

end Lists

/-! ## Inputs and outputs -/

/-- An input without its witness. -/
def TxIn.stripped (i : TxIn) : TxIn := { i with witness := [] }

theorem takeInput_write {i : TxIn} (h : i.scriptSig.length < UInt64.size) (rest : Bytes) :
    takeInput (i.write ++ rest) = .ok (i.stripped, rest) := by
  obtain ⟨⟨txid, vout⟩, scriptSig, sequence, witness⟩ := i
  have htxid := takeBytes_append txid.toBytes
    (writeWord vout ++ (VarBytes.write scriptSig ++ (writeWord sequence ++ rest)))
  rw [txid.length_toBytes] at htxid
  simp only [TxIn.write, OutPoint.write, List.append_assoc]
  rw [takeInput, bind_of_ok htxid, bind_of_ok (takeWord_write vout _),
    bind_of_ok (takeVarBytes_write h _), bind_of_ok (takeWord_write sequence rest),
    FixedBytes.ofPrefix_toBytes]
  rfl

theorem takeOutput_write {o : TxOut} (h : o.scriptPubkey.length < UInt64.size) (rest : Bytes) :
    takeOutput (o.write ++ rest) = .ok (o, rest) := by
  obtain ⟨value, scriptPubkey⟩ := o
  have hvalue := takeNat_ofNatLE (show value.toNat < 256 ^ 8 from value.toNat_lt)
    (VarBytes.write scriptPubkey ++ rest)
  rw [takeOutput, TxOut.write, writeValue, List.append_assoc, bind_of_ok hvalue,
    bind_of_ok (takeVarBytes_write h rest)]
  change Except.ok ((⟨UInt64.ofNat value.toNat, scriptPubkey⟩ : TxOut), rest) = _
  rw [UInt64.ofNat_toNat]

/-! ## Witnesses -/

/-- The bytes that the elements of a witness take, with their lengths. -/
def witnessBytes (witness : List Bytes) : Nat :=
  (witness.map fun element => element.length + (writeCount element.length).length).sum

/-- Every element of a witness takes a byte. -/
theorem length_le_witnessBytes (witness : List Bytes) : witness.length ≤ witnessBytes witness := by
  induction witness with
  | nil => exact Nat.zero_le _
  | cons element witness ih =>
    have hone := (length_writeCount element.length).1
    rw [witnessBytes, List.map_cons, List.sum_cons, List.length_cons]
    change _ ≤ _ + witnessBytes witness
    omega

/-- Elements for which there is room are read back. -/
theorem takeElements_write {room used : Nat} {witness : List Bytes}
    (hroom : used + witnessBytes witness ≤ maxWitness + room)
    (hsize : used + witnessBytes witness < UInt64.size) (rest : Bytes) :
    takeElements room witness.length used (witness.flatMap VarBytes.write ++ rest) =
      .ok (witness, rest) := by
  induction witness generalizing used with
  | nil => rfl
  | cons element witness ih =>
    rw [witnessBytes, List.map_cons, List.sum_cons] at hroom hsize
    change _ + (_ + witnessBytes witness) ≤ _ at hroom
    change _ + (_ + witnessBytes witness) < _ at hsize
    have hcount := takeCount_write (n := element.length) (by omega)
      (element ++ (witness.flatMap VarBytes.write ++ rest))
    have htake := takeBytes_append element (witness.flatMap VarBytes.write ++ rest)
    have hrest : takeElements room witness.length
        (used + element.length + (writeCount element.length).length)
        (witness.flatMap VarBytes.write ++ rest) = .ok (witness, rest) :=
      ih (by omega) (by omega)
    have hbytes : (element :: witness).flatMap VarBytes.write ++ rest =
        writeCount element.length ++ (element ++ (witness.flatMap VarBytes.write ++ rest)) := by
      rw [List.flatMap_cons, VarBytes.write, List.append_assoc, List.append_assoc]
      rfl
    rw [hbytes, List.length_cons, takeElements, bind_of_ok hcount, if_neg (by omega),
      if_neg (by omega)]
    exact (bind_of_ok htake).trans (bind_of_ok hrest)

theorem takeWitness_write {witness : List Bytes} (h : witnessBytes witness ≤ maxWitness)
    (rest : Bytes) :
    takeWitness (writeList VarBytes.write witness ++ rest) = .ok (witness, rest) := by
  have hlength := length_le_witnessBytes witness
  have hmax : maxWitness = 4000000 := rfl
  have hsize : UInt64.size = 18446744073709551616 := rfl
  have hcount := takeCount_write (n := witness.length) (by omega)
    (witness.flatMap VarBytes.write ++ rest)
  rw [takeWitness, writeList, List.append_assoc, bind_of_ok hcount, if_neg (by omega)]
  exact takeElements_write (by omega) (by omega) rest

theorem takeWitnesses_write {inputs : List TxIn}
    (h : ∀ i ∈ inputs, witnessBytes i.witness ≤ maxWitness) (rest : Bytes) :
    takeWitnesses (inputs.map TxIn.stripped)
      (inputs.flatMap (fun i => writeList VarBytes.write i.witness) ++ rest) =
      .ok (inputs, rest) := by
  induction inputs with
  | nil => rfl
  | cons i inputs ih =>
    have hhead := takeWitness_write (h i List.mem_cons_self)
      (inputs.flatMap (fun i => writeList VarBytes.write i.witness) ++ rest)
    have htail := ih fun j hj => h j (List.mem_cons_of_mem i hj)
    rw [List.map_cons, List.flatMap_cons, List.append_assoc, takeWitnesses, bind_of_ok hhead,
      bind_of_ok htail]
    rfl

/-! ## Transactions -/

namespace Transaction

/-- Counts and lengths that the written forms can state, and witnesses that find room. -/
structure Fits (tx : Transaction) : Prop where
  /-- The inputs can be counted. -/
  inputs : tx.inputs.length < UInt64.size
  /-- The outputs can be counted. -/
  outputs : tx.outputs.length < UInt64.size
  /-- Every unlocking script can be measured. -/
  unlocking : ∀ i ∈ tx.inputs, i.scriptSig.length < UInt64.size
  /-- Every locking script can be measured. -/
  locking : ∀ o ∈ tx.outputs, o.scriptPubkey.length < UInt64.size
  /-- Every witness finds room in a block. -/
  witness : ∀ i ∈ tx.inputs, witnessBytes i.witness ≤ maxWitness

/-- A transaction without its witnesses. -/
def stripped (tx : Transaction) : Transaction :=
  { tx with inputs := tx.inputs.map TxIn.stripped }

variable {tx : Transaction}

theorem takeList_inputs (h : tx.Fits) (rest : Bytes) :
    takeList takeInput (writeList TxIn.write tx.inputs ++ rest) =
      .ok (tx.inputs.map TxIn.stripped, rest) :=
  takeList_write h.inputs (fun i hi => takeInput_write (h.unlocking i hi)) rest

theorem takeList_outputs (h : tx.Fits) (rest : Bytes) :
    takeList takeOutput (writeList TxOut.write tx.outputs ++ rest) = .ok (tx.outputs, rest) := by
  have htake : takeList takeOutput (writeList TxOut.write tx.outputs ++ rest) =
      .ok (tx.outputs.map id, rest) :=
    takeList_write h.outputs (fun o ho => takeOutput_write (h.locking o ho)) rest
  rwa [List.map_id] at htake

/-- The plain form is read back as the transaction without its witnesses. -/
theorem read_writePlain (h : tx.Fits) (hinputs : tx.inputs ≠ []) :
    read tx.writePlain = .ok tx.stripped := by
  have hlast := takeWord_write tx.lockTime []
  rw [List.append_nil] at hlast
  have hsome : (tx.inputs.map TxIn.stripped).isEmpty = false := by
    simpa using hinputs
  have htake : takeTransaction tx.writePlain = .ok (tx.stripped, []) := by
    simp only [writePlain, List.append_assoc]
    rw [takeTransaction, bind_of_ok (takeWord_write tx.version _),
      bind_of_ok (takeList_inputs h _)]
    simp only [hsome, Bool.false_eq_true, if_false]
    rw [bind_of_ok (takeList_outputs h _), bind_of_ok hlast]
    rfl
  rw [read, htake]
  rfl

/-- The form with witnesses is read back when there is a witness. -/
theorem read_witnessForm (h : tx.Fits) (hwitness : ∃ i ∈ tx.inputs, i.witness ≠ []) :
    read (writeWord tx.version ++ [0x00, 0x01] ++ writeList TxIn.write tx.inputs ++
      writeList TxOut.write tx.outputs ++
      tx.inputs.flatMap (fun i => writeList VarBytes.write i.witness) ++ writeWord tx.lockTime) =
      .ok tx := by
  obtain ⟨i, hi, hne⟩ := hwitness
  have hlast := takeWord_write tx.lockTime []
  rw [List.append_nil] at hlast
  have hempty : ∀ i ∈ ([] : List TxIn), ∀ rest,
      takeInput (i.write ++ rest) = .ok (i.stripped, rest) := nofun
  have hnone (rest : Bytes) : takeList takeInput (0x00 :: rest) = .ok ([], rest) := by
    have hread := takeList_write (by decide) hempty rest
    exact hread
  have hmark (rest : Bytes) : takeNat 1 (0x01 :: rest) = .ok (1, rest) :=
    takeNat_byte (n := 1) (by omega) rest
  have hsome : (!tx.inputs.isEmpty && tx.inputs.all (·.witness.isEmpty)) = false := by
    rw [Bool.and_eq_false_iff]
    right
    rw [List.all_eq_false]
    exact ⟨i, hi, by simpa using hne⟩
  have htake : takeTransaction (writeWord tx.version ++ [0x00, 0x01] ++
      writeList TxIn.write tx.inputs ++ writeList TxOut.write tx.outputs ++
      tx.inputs.flatMap (fun i => writeList VarBytes.write i.witness) ++ writeWord tx.lockTime) =
      .ok (tx, []) := by
    simp only [List.append_assoc, List.cons_append, List.nil_append]
    rw [takeTransaction, bind_of_ok (takeWord_write tx.version _), bind_of_ok (hnone _)]
    simp only [List.isEmpty_nil, if_true]
    rw [bind_of_ok (hmark _)]
    simp only [ne_eq, not_true_eq_false, if_false]
    rw [bind_of_ok (takeList_inputs h _), bind_of_ok (takeList_outputs h _),
      bind_of_ok (takeWitnesses_write h.witness _)]
    simp only [hsome, Bool.false_eq_true, if_false]
    rw [bind_of_ok hlast]
    rfl
  rw [read, htake]
  rfl

/-- A transaction with an input is read back from the form that is passed on. -/
theorem read_write (h : tx.Fits) (hinputs : tx.inputs ≠ []) : read tx.write = .ok tx := by
  unfold write
  split
  · next hneeds =>
    refine read_witnessForm h ?_
    rw [needsWitnessForm, Bool.or_eq_true, List.isEmpty_iff, List.any_eq_true] at hneeds
    obtain ⟨i, hi, hwitness⟩ := hneeds.resolve_left hinputs
    exact ⟨i, hi, by simpa using hwitness⟩
  · next hplain =>
    rw [read_writePlain h hinputs]
    have hnone : ∀ i ∈ tx.inputs, i.stripped = i := by
      intro i hi
      rw [needsWitnessForm, Bool.or_eq_true, not_or, List.any_eq_true] at hplain
      have hwitness : i.witness = [] := by
        cases hw : i.witness with
        | nil => rfl
        | cons element rest => exact absurd ⟨i, hi, by rw [hw]; rfl⟩ hplain.2
      rw [TxIn.stripped, ← hwitness]
    have hstripped : tx.inputs.map TxIn.stripped = tx.inputs := by
      simpa using List.map_congr_left hnone
    rw [stripped, hstripped]

/-- Transactions that differ in their witnesses at most have one plain form. -/
theorem stripped_eq_of_writePlain {tx' : Transaction} (h : tx.Fits) (h' : tx'.Fits)
    (hinputs : tx.inputs ≠ []) (hinputs' : tx'.inputs ≠ []) (heq : tx.writePlain = tx'.writePlain) :
    tx.stripped = tx'.stripped := by
  have hread := read_writePlain h hinputs
  rw [heq, read_writePlain h' hinputs'] at hread
  exact (Except.ok.inj hread).symm

end Transaction

end BridgeKernel.Bitcoin
