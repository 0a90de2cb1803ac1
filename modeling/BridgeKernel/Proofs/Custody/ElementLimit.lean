import BridgeKernel.Proofs.Custody.Intake

/-!
# The limit on stack elements

The network takes no element of more than 520 bytes on its stack. A script that unlocks an output
pushes an empty element, the signatures and the redeem script, and checked signatures are short, so
all depends on the redeem script. A registered script may list sixteen keys, or spell the pushes of
its keys in more bytes than they need, and is then too long. Deposits and change are locked to it
all the same. Behind a witness there is nothing to push.
-/

namespace BridgeKernel

open Bitcoin

namespace Script

/-- Bytes of the longest element that the network takes on its stack. -/
def maxElement : Nat := 520

/-- The bytes that an instruction pushes. -/
def Instruction.pushed : Instruction → Bytes
  | .push data => data
  | .op _ => []

/-- A script can be read to its end and pushes no element that the network does not take. -/
def WithinLimit (script : Bytes) : Prop :=
  ∃ found ∈ instructions? script, ∀ part ∈ found, part.pushed.length ≤ maxElement

instance (script : Bytes) : Decidable (WithinLimit script) :=
  inferInstanceAs (Decidable (∃ found ∈ instructions? script, ∀ part ∈ found, _ ≤ _))

theorem withinLimit_nil : WithinLimit [] := by decide

/-- What an unlocking script pushes. -/
theorem instructions?_unlocking {signatures : List Bytes} {redeem : Bytes}
    (hshort : ∀ signature ∈ signatures, signature.length < 256 ^ 4)
    (hredeem : redeem.length < 256 ^ 4) :
    instructions? (0x00 :: (signatures.flatMap push ++ push redeem)) =
      some (.push [] :: (signatures.map .push ++ [.push redeem])) := by
  have hempty : Spells (UInt8.ofNat ([] : Bytes).length :: []) (.push []) :=
    .direct (Nat.zero_le _)
  have hsignatures : List.Forall₂ Spells (signatures.map push) (signatures.map .push) := by
    refine List.forall₂_map_left_iff.mpr (List.forall₂_map_right_iff.mpr ?_)
    exact List.forall₂_same.mpr fun signature hmem => spells_push (hshort signature hmem)
  refine instructions?_some_iff.mpr ⟨[0x00] :: (signatures.map push ++ [push redeem]), ?_, ?_⟩
  · exact .cons hempty (List.rel_append hsignatures (.cons (spells_push hredeem) .nil))
  · simp [List.flatMap_def]

/-- With short signatures an unlocking script is within the limit when the redeem script is. -/
theorem withinLimit_unlocking_iff {signatures : List Bytes} {redeem : Bytes}
    (hshort : ∀ signature ∈ signatures, signature.length ≤ 97) (hredeem : redeem.length ≤ 611) :
    WithinLimit (0x00 :: (signatures.flatMap push ++ push redeem)) ↔
      redeem.length ≤ maxElement := by
  have hread : instructions? (0x00 :: (signatures.flatMap push ++ push redeem)) = some _ :=
    instructions?_unlocking
      (fun signature hmem => Nat.lt_of_le_of_lt (hshort signature hmem) (by decide))
      (Nat.lt_of_le_of_lt hredeem (by decide))
  constructor
  · rintro ⟨found, hfound, hall⟩
    cases hread.symm.trans hfound
    exact hall (.push redeem) (by simp)
  · intro hle
    refine ⟨_, hread, ?_⟩
    simp only [List.mem_cons, List.mem_append, List.mem_map, List.not_mem_nil, or_false]
    rintro part (rfl | ⟨signature, hmem, rfl⟩ | rfl)
    · exact Nat.zero_le _
    · exact Nat.le_trans (hshort signature hmem) (by decide)
    · exact hle

end Script

/-! ## Registered scripts -/

namespace Redeem

variable {script : Bytes} {record : RedeemRecord}

theorem exists_of_parses (h : (parse script).toOption.isSome = true) :
    ∃ record, parse script = .ok record := by
  rcases hrecord : parse script with e | record
  · rw [hrecord] at h
    cases h
  · exact ⟨record, rfl⟩

/-- A registered script takes between 34 and 38 bytes for each key. -/
theorem length_bounds (h : parse script = .ok record) :
    34 * record.publicKeys.length + 3 ≤ script.length ∧
      script.length ≤ 38 * record.publicKeys.length + 3 := by
  obtain ⟨m, hspelled, rfl⟩ := parse_ok_iff.mp h
  have hmost := hspelled.length_le
  obtain ⟨pushes, hpushes, rfl⟩ := hspelled
  obtain ⟨hleast, -, -⟩ := length_of_pushes hpushes m.isKey
  refine ⟨?_, hmost⟩
  rw [length_layout]
  exact Nat.add_le_add_right hleast 3

/-- Up to thirteen keys make a script within the limit in any spelling, up to fifteen when each is
pushed directly, and sixteen in none. -/
theorem length_le_maxElement (h : parse script = .ok record) :
    (record.publicKeys.length ≤ 13 → script.length ≤ Script.maxElement) ∧
      (script.length = 34 * record.publicKeys.length + 3 →
        (script.length ≤ Script.maxElement ↔ record.publicKeys.length ≤ 15)) ∧
      (script.length ≤ Script.maxElement → record.publicKeys.length ≤ 15) := by
  obtain ⟨hleast, hmost⟩ := length_bounds h
  have hlimit : Script.maxElement = 520 := rfl
  omega

end Redeem

namespace Custody

variable {chain : ChainId} {key : String} {s t : State} {record : RedeemRecord} {u : Utxo}

/-! ## Unlocking data -/

variable {redeem : Bytes} {tx signed : Transaction} {spent : List Utxo}
  {signers : List (List Bytes)}

/-- Short signatures unlock an output within the limit when a witness does, or when the redeem
script is within the limit. -/
theorem UnlockedBy.withinLimit_iff {index : Nat} {input unlocked : TxIn} {signatures : List Bytes}
    (h : UnlockedBy redeem signers index input u signatures unlocked)
    (hunsigned : input.scriptSig = []) (hredeem : redeem.length ≤ 611)
    (hshort : ∀ signer ∈ signers, ∀ signature ∈ signer, signature.length ≤ 97) :
    Script.WithinLimit unlocked.scriptSig ↔
      u.scriptPubkey = Script.locking redeem .witnessHash ∨ redeem.length ≤ Script.maxElement := by
  rcases unlock_ok h.laid with ⟨hkind, rfl⟩ | ⟨hkind, rfl⟩
  · have hlock : u.scriptPubkey ≠ Script.locking redeem .witnessHash := by
      rw [Script.locking_of_lockKind? hkind]
      exact Script.locking_ne
    have hgiven : ∀ signature ∈ signatures, signature.length ≤ 97 := by
      intro signature hmem
      obtain ⟨signer, hsigner, hmem⟩ := h.exists_signer hmem
      exact hshort signer hsigner signature hmem
    rw [or_iff_right hlock]
    exact Script.withinLimit_unlocking_iff hgiven hredeem
  · refine iff_of_true ?_ (.inl (Script.locking_of_lockKind? hkind))
    change Script.WithinLimit input.scriptSig
    rw [hunsigned]
    exact Script.withinLimit_nil

/-- In a signed transaction the input of each spent output is within the limit exactly when a
witness unlocks the output or the redeem script is within the limit. -/
def DecidedByScript (redeem : Bytes) (spent : List Utxo) (signed : Transaction) : Prop :=
  ∀ (place : Nat) (u : Utxo), spent[place]? = some u →
    ∃ input : TxIn, signed.inputs[place]? = some input ∧
      (Script.WithinLimit input.scriptSig ↔
        u.scriptPubkey = Script.locking redeem .witnessHash ∨ redeem.length ≤ Script.maxElement)

theorem Assembles.decidedByScript (h : Assembles tx spent redeem signers signed)
    (hcount : tx.inputs.length = spent.length)
    (hunsigned : ∀ input ∈ tx.inputs, input.scriptSig = []) (hredeem : redeem.length ≤ 611)
    (hshort : ∀ signer ∈ signers, ∀ signature ∈ signer, signature.length ≤ 97) :
    DecidedByScript redeem spent signed := by
  intro place u hu
  have hplace : place < tx.inputs.length := hcount ▸ (List.getElem?_eq_some_iff.mp hu).1
  obtain ⟨signatures, unlocked, hunlocked, hby⟩ :=
    h.unlocked place _ u (List.getElem?_eq_getElem hplace) hu
  exact ⟨unlocked, hunlocked,
    hby.withinLimit_iff (hunsigned _ (List.getElem_mem hplace)) hredeem hshort⟩

/-- The transaction that closes a payment is put together from short signatures. -/
theorem Closes.decidedByScript {draft : SpendDraft} {collection : SignatureCollection}
    (h : Closes chain draft record tx signed collection s t) (hpays : Pays draft tx)
    (hparsed : record.Parsed) (hshort : collection.Short) :
    DecidedByScript record.redeemScript draft.inputs signed := by
  have hcount : tx.inputs.length = draft.inputs.length := by
    rw [hpays.inputs, List.length_map]
  have hunsigned : ∀ input ∈ tx.inputs, input.scriptSig = [] := by
    rw [hpays.inputs]
    exact List.forall_mem_map.mpr fun _ _ => rfl
  refine (assemble_ok h.assembled).decidedByScript hcount hunsigned hparsed.short ?_
  intro signer hsigner
  obtain ⟨custodian, -, hfind⟩ := List.mem_filterMap.mp hsigner
  exact hshort custodian signer hfind

/-- Outputs that were taken in for a registered script are unlocked by signatures that were checked,
and the script decides what is within the limit. -/
theorem TakesIn.assembled {script : Bytes} (hparse : Redeem.parse script = .ok record)
    (hspent : ∀ u ∈ spent, TakesIn record u) (hcount : tx.inputs.length = spent.length)
    (hunsigned : ∀ input ∈ tx.inputs, input.scriptSig = [])
    (hsigned : ∀ signer ∈ signers, signer.length = spent.length)
    (hchecked : ∀ signer ∈ signers, ∀ signature ∈ signer, ∃ digest key,
      checkSignature digest signature key = .ok ()) :
    ∃ signed, Assembly.assemble tx spent script signers = .ok signed ∧
      DecidedByScript script spent signed := by
  obtain ⟨hscript, -, hparsed⟩ := Redeem.parse_ok hparse
  have hlocked (u : Utxo) (hu : u ∈ spent) :
      ∃ kind, Script.lockKind? script u.scriptPubkey = some kind := hscript ▸ (hspent u hu).locked
  obtain ⟨signed, hassembled⟩ : ∃ signed, Assembly.assemble tx spent script signers = .ok signed :=
    assemble_answers hlocked hsigned
  refine ⟨signed, hassembled, (assemble_ok hassembled).decidedByScript hcount hunsigned
    (hscript ▸ hparsed.short) fun signer hsigner signature hsignature => ?_⟩
  obtain ⟨digest, key, hcheck⟩ := hchecked signer hsigner signature hsignature
  exact checkSignature_length hcheck

end Custody

end BridgeKernel
