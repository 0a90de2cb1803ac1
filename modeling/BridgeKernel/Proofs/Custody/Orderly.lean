import BridgeKernel.Proofs.Custody.Journal
import Mathlib.Data.List.Nodup

/-!
# Payments told apart

Whatever is called, every payment of the journal balances, those that wait for signatures are found
in the records, and every closed one has been paid by a signed transaction that spends what was
reserved for it. As long as transactions are told apart by their ids, and no output of one of them
is deposited, each payment has an id of its own and no output is held twice.
-/

namespace BridgeKernel

open Bitcoin

/-- All signatures collected are short. -/
def SignatureCollection.Short (c : SignatureCollection) : Prop :=
  ∀ signer signatures, c.signatures.find? signer = some signatures →
    ∀ signature ∈ signatures, signature.length ≤ 97

namespace Custody

variable {chain : ChainId} {key : String} {j k : Journal} {s t : State}

/-! ## What a transaction spends -/

/-- A transaction that can be written and read spends what is reserved for a payment. -/
structure Spends (draft : SpendDraft) (tx : Transaction) : Prop where
  /-- It can be written and read. -/
  fits : tx.Fits
  /-- It names the reserved outputs. -/
  previous : tx.inputs.map TxIn.previous = draft.inputs.map fun u => ⟨u.txid, u.vout⟩
  /-- There is one. -/
  spends : draft.inputs ≠ []

theorem Pays.toSpends {draft : SpendDraft} {tx : Transaction} (h : Pays draft tx) :
    Spends draft tx := by
  refine ⟨h.fits, ?_, h.spends⟩
  rw [h.inputs, List.map_map]
  rfl

namespace Spends

variable {draft draft' : SpendDraft} {tx tx' : Transaction}

theorem inputs_ne_nil (h : Spends draft tx) : tx.inputs ≠ [] := by
  intro hnil
  have hprevious := h.previous
  rw [hnil, List.map_nil] at hprevious
  exact h.spends (List.map_eq_nil_iff.mp hprevious.symm)

/-- Transactions with one plain form spend the same outputs. -/
theorem outpoints_eq (h : Spends draft tx) (h' : Spends draft' tx')
    (hplain : tx.writePlain = tx'.writePlain) :
    draft.inputs.map Utxo.outpoint = draft'.inputs.map Utxo.outpoint := by
  have hstripped := Transaction.stripped_eq_of_writePlain h.fits h'.fits h.inputs_ne_nil
    h'.inputs_ne_nil hplain
  have hinputs : tx.inputs.map TxIn.stripped = tx'.inputs.map TxIn.stripped :=
    congrArg Transaction.inputs hstripped
  have hprevious : tx.inputs.map TxIn.previous = tx'.inputs.map TxIn.previous := by
    have hkept := congrArg (List.map TxIn.previous) hinputs
    rw [List.map_map, List.map_map] at hkept
    exact hkept
  rw [h.previous, h'.previous] at hprevious
  have hpairs := congrArg (List.map fun o : OutPoint => (o.txid, o.vout)) hprevious
  rwa [List.map_map, List.map_map] at hpairs

end Spends

/-! ## Every journal -/

/-- A payment was closed with the bytes of a signed transaction. -/
structure Settled (chain : ChainId) (key : String) (j : Journal) (s : State) (txid : Hash)
    (raw : Bytes) (draft : SpendDraft) (tx signed : Transaction) : Prop where
  /-- The payment stands in the journal. -/
  made : draft ∈ j.drafts
  /-- It is the one with this id. -/
  named : draft.txid = txid
  /-- The unsigned transaction. -/
  pays : Pays draft tx
  /-- The bytes are those of the signed one. -/
  read : Transaction.read raw = .ok signed
  /-- It spends what was reserved. -/
  spends : Spends draft signed
  /-- It pays what the unsigned one pays. -/
  outputs : signed.outputs = tx.outputs
  /-- What was reserved is spent. -/
  spent : draft.inputs ⊆ s.spent chain key

/-- What is stored agrees with the journal. -/
structure Traced (chain : ChainId) (key : String) (j : Journal) (s : State) : Prop where
  /-- The script under the custody key has been parsed. -/
  script : ∀ record : RedeemRecord, s.lookup (.redeem chain key) = some record → record.Parsed
  /-- Payments wait under their ids, on the custody key. -/
  named : s.DraftsOn chain key
  /-- They stand in the journal. -/
  waiting : ∀ (txid : Hash) (draft : SpendDraft), s.lookup (.draft chain txid) = some draft →
    draft ∈ j.drafts
  /-- Every payment balances. -/
  pays : ∀ draft ∈ j.drafts, ∃ tx, Pays draft tx
  /-- No payment is made before the script is registered. -/
  registered : j.drafts ≠ [] → ∃ record : RedeemRecord, s.lookup (.redeem chain key) = some record
  /-- Collected signatures are short. -/
  short : ∀ (txid : Hash) (collection : SignatureCollection),
    s.lookup (.multisig txid) = some collection → collection.Short
  /-- Closed payments are settled. -/
  closed : ∀ closing ∈ j.closings, ∃ draft tx signed,
    Settled chain key j s closing.1 closing.2 draft tx signed

/-- Nothing has been called yet. -/
theorem Traced.empty (module : Bytes) (faults : Nat → StoreOp → Option StoreFault) (clock : Nat) :
    Traced chain key [] ⟨module, .empty, faults, clock⟩ where
  script _ h := nomatch h
  named _ _ h := nomatch h
  waiting _ _ h := nomatch h
  pays _ h := nomatch h
  registered h := absurd rfl h
  short _ _ h := nomatch h
  closed _ h := nomatch h

/-- A settled payment stays settled. -/
theorem Settled.call {txid : Hash} {raw : Bytes} {draft : SpendDraft} {tx signed : Transaction}
    (h : Settled chain key j s txid raw draft tx signed) (hon : s.DraftsOn chain key)
    (hcall : Call chain key s t k) : Settled chain key (j ++ k) t txid raw draft tx signed := by
  refine { h with made := ?_, spent := ?_ }
  · rw [Journal.drafts_append]
    exact List.mem_append_left _ h.made
  · exact List.Subset.trans h.spent (hcall.spent_subset hon)

section Contribution

variable {signer : Custodian} {txid : Hash} {signatures : List Bytes} {draft : SpendDraft}
  {record : RedeemRecord} {tx signed : Transaction} {collection : SignatureCollection}

/-- Accepted signatures have been checked with a key of the script. -/
theorem Contributes.signedBy
    (h : Contributes chain signer txid signatures draft record tx collection s) :
    ∃ position, record.position? signer = some position ∧
      Signed tx record draft.inputs (record.publicKeys.getD position []) signatures := by
  obtain ⟨position, hposition, hchecked⟩ := h.checked
  exact ⟨position, hposition, h.count, hchecked⟩

/-- Short signatures are added to short ones. -/
theorem Contributes.short
    (h : Contributes chain signer txid signatures draft record tx collection s)
    (hshort : ∀ begun : SignatureCollection, s.lookup (.multisig txid) = some begun →
      begun.Short) : collection.Short := by
  obtain ⟨begun, hbegun, -, rfl⟩ := h.collected
  obtain ⟨position, -, hsigned⟩ := h.signedBy
  have hbefore : (begun.getD (.start txid draft.redeemKey)).Short := by
    cases begun with
    | none => exact nofun
    | some begun => exact hshort begun hbegun
  intro other found hfound signature hsignature
  rw [collectionOf, OrderedMap.find?_insert] at hfound
  split at hfound
  · cases hfound
    exact hsigned.length_le hsignature
  · exact hbefore other found hfound signature hsignature

/-- Short signatures find room in the signed transaction, which spends what was reserved. -/
theorem Closes.spends (h : Closes chain draft record tx signed collection s t)
    (hpays : Pays draft tx) (hparsed : record.Parsed) (hshort : collection.Short) :
    Spends draft signed := by
  have hassembles := assemble_ok h.assembled
  have hcount : tx.inputs.length = draft.inputs.length := by
    rw [hpays.inputs, List.length_map]
  have hfew : (inKeyOrder record collection).length ≤ 16 := by
    refine Nat.le_trans (List.length_filterMap_le _ _) ?_
    rw [hparsed.custodians, List.length_map]
    exact hparsed.few
  have hfits : signed.Fits := by
    refine hassembles.fits hcount hpays.fits hparsed.short hfew fun given hgiven => ?_
    obtain ⟨custodian, -, hfind⟩ := List.mem_filterMap.mp hgiven
    exact hshort custodian given hfind
  refine ⟨hfits, ?_, hpays.spends⟩
  rw [hassembles.previous_eq hcount]
  exact hpays.toSpends.previous

/-- A call that closes a payment settles it. -/
theorem Traced.settles (h : Traced chain key j s)
    (hfound : Contributes chain signer txid signatures draft record tx collection s)
    (hcloses : Closes chain draft record tx signed collection s t) :
    Settled chain key j t txid signed.write draft tx signed := by
  obtain ⟨hnamed, hkey⟩ := h.named txid draft hfound.waiting
  have hmade := h.waiting txid draft hfound.waiting
  obtain ⟨tx', hpays⟩ := h.pays draft hmade
  cases hpays.read.symm.trans hfound.read
  subst hkey
  have hspends := hcloses.spends hpays (h.script record hfound.registered)
    (hfound.short (h.short txid))
  refine ⟨hmade, hnamed, hpays, Transaction.read_write hspends.fits hspends.inputs_ne_nil, hspends,
    (assemble_ok hcloses.assembled).outputs_eq, ?_⟩
  rw [hcloses.spent_eq]
  exact List.subset_append_right _ _

end Contribution

/-- A call keeps collections short. -/
theorem Call.short (hcall : Call chain key s t k)
    (hshort : ∀ (txid : Hash) (collection : SignatureCollection),
      s.lookup (.multisig txid) = some collection → collection.Short) (txid : Hash)
    (found : SignatureCollection) (hfound : t.lookup (.multisig txid) = some found) :
    found.Short := by
  cases hcall with
  | quiet hwrites hspared =>
    rw [hwrites.lookup_eq fun hP => hspared (.multisig txid) hP trivial] at hfound
    exact hshort txid found hfound
  | registered _ _ _ hchanged =>
    rw [hchanged.lookup_of_ne (by simp)] at hfound
    exact hshort txid found hfound
  | deposited hdeposits =>
    rw [hdeposits.changed.lookup_of_ne (by simp)] at hfound
    exact hshort txid found hfound
  | drafted hdrafts =>
    rw [hdrafts.changed.lookup_of_ne (by simp)] at hfound
    exact hshort txid found hfound
  | @collected _ id _ _ _ _ _ hcontributes _ hfits hchanged =>
    by_cases hid : txid = id
    · subst hid
      cases (hchanged.lookup_store hfits).symm.trans hfound
      exact hcontributes.short (hshort txid)
    · rw [hchanged.lookup_of_ne (by simpa using hid)] at hfound
      exact hshort txid found hfound
  | @closed _ id _ draft _ _ _ _ hcontributes _ hcloses =>
    by_cases hid : txid = draft.txid
    · subst hid
      cases hcloses.collection_self.symm.trans hfound
      exact hcontributes.short (hshort id)
    · rw [hcloses.collection_of_ne hid] at hfound
      exact hshort txid found hfound

/-- A call keeps the records in agreement with the journal. -/
theorem Traced.call (h : Traced chain key j s) (hcall : Call chain key s t k) :
    Traced chain key (j ++ k) t where
  script record hrecord := by
    rcases hcall.redeem_origin hrecord with hbefore | ⟨-, -, hparsed⟩
    · exact h.script record hbefore
    · exact hparsed
  named := hcall.draftsOn h.named
  waiting txid draft hdraft := by
    rw [Journal.drafts_append]
    rcases hcall.draft_origin hdraft with hbefore | ⟨hmade, -⟩
    · exact List.mem_append_left _ (h.waiting txid draft hbefore)
    · exact List.mem_append_right _ hmade
  pays draft hdraft := by
    rw [Journal.drafts_append] at hdraft
    rcases List.mem_append.mp hdraft with hbefore | hmade
    · exact h.pays draft hbefore
    · cases hcall with
      | drafted hdrafts =>
        cases List.mem_singleton.mp hmade
        exact hdrafts.pays
      | _ => cases hmade
  registered hdrafts := by
    by_cases hbefore : j.drafts = []
    · rw [Journal.drafts_append, hbefore, List.nil_append] at hdrafts
      cases hcall with
      | drafted hmade =>
        refine ⟨_, (hmade.changed.lookup_of_ne ?_).trans hmade.registered⟩
        simp
      | _ => exact absurd rfl hdrafts
    · obtain ⟨record, hrecord⟩ := h.registered hbefore
      exact ⟨record, hcall.redeem_kept hrecord⟩
  short := hcall.short h.short
  closed closing hclosing := by
    rw [Journal.closings_append] at hclosing
    rcases List.mem_append.mp hclosing with hbefore | hclosed
    · obtain ⟨draft, tx, signed, hsettled⟩ := h.closed closing hbefore
      exact ⟨draft, tx, signed, hsettled.call h.named hcall⟩
    · cases hcall with
      | closed hfound _ hcloses =>
        cases List.mem_singleton.mp hclosed
        have hsettled := h.settles hfound hcloses
        refine ⟨_, _, _, { hsettled with made := ?_ }⟩
        rw [Journal.drafts_append]
        exact List.mem_append_left _ hsettled.made
      | _ => cases hclosed

/-- What is closed was made before. -/
theorem Traced.closings_subset (h : Traced chain key j s) :
    j.closings.map Prod.fst ⊆ j.drafts.map SpendDraft.txid := by
  intro txid hclosed
  obtain ⟨closing, hclosing, rfl⟩ := List.mem_map.mp hclosed
  obtain ⟨draft, tx, signed, hsettled⟩ := h.closed closing hclosing
  rw [← hsettled.named]
  exact List.mem_map_of_mem hsettled.made

/-! ## Outputs that are paid back -/

theorem returned_outpoints_sublist (redeem : Bytes) (tx : Transaction) :
    ((returned redeem tx).map Utxo.outpoint).Sublist
      ((List.range tx.outputs.length).map fun place => (tx.txid, UInt32.ofNat place)) := by
  have hlisted : (tx.outputs.mapIdx fun vout output =>
      (⟨tx.txid, UInt32.ofNat vout, output.value, output.scriptPubkey⟩ : Utxo)).map Utxo.outpoint =
      (List.range tx.outputs.length).map fun place => (tx.txid, UInt32.ofNat place) := by
    apply List.ext_getElem
    · simp
    · intro place _ _
      simp [Utxo.outpoint]
  rw [← hlisted]
  exact List.Sublist.map _ List.filter_sublist

theorem returned_outpoints_nodup {redeem : Bytes} {tx : Transaction}
    (hplaces : tx.outputs.length ≤ UInt32.size) :
    ((returned redeem tx).map Utxo.outpoint).Nodup := by
  refine List.Nodup.sublist (returned_outpoints_sublist redeem tx) ?_
  refine List.Nodup.map_on ?_ List.nodup_range
  intro place hplace place' hplace' heq
  have hlt := List.mem_range.mp hplace
  have hlt' := List.mem_range.mp hplace'
  have hword := congrArg UInt32.toNat (Prod.mk.inj heq).2
  rwa [UInt32.toNat_ofNat_of_lt' (by omega), UInt32.toNat_ofNat_of_lt' (by omega)] at hword

/-- An output that is paid back is known by its place in the signed transaction. -/
theorem mem_returned_outpoints {redeem : Bytes} {tx : Transaction} {p : Hash × UInt32}
    (hp : p ∈ (returned redeem tx).map Utxo.outpoint) :
    ∃ place, place < tx.outputs.length ∧ p = (tx.txid, UInt32.ofNat place) := by
  have hlisted := (returned_outpoints_sublist redeem tx).subset hp
  obtain ⟨place, hplace, rfl⟩ := List.mem_map.mp hlisted
  exact ⟨place, List.mem_range.mp hplace, rfl⟩

/-! ## Journals that tell transactions apart -/

/-- The outputs of the transactions of a journal are told apart, from each other and from what is
deposited. -/
structure Journal.Unambiguous (j : Journal) : Prop where
  /-- No output of a transaction is deposited, neither under the id of the unsigned transaction nor
  under that of the signed one. -/
  deposits : ∀ u ∈ j.deposits, ∀ tx ∈ j.transactions, ∀ place, place < tx.outputs.length →
    u.outpoint ≠ (tx.txid, UInt32.ofNat place)
  /-- Transactions with the same id are the same, up to the witnesses, which the id leaves out. -/
  ids : ∀ tx ∈ j.transactions, ∀ tx' ∈ j.transactions, tx.txid = tx'.txid →
    tx.writePlain = tx'.writePlain
  /-- Every output has a place of its own, which is a word of 32 bits. -/
  places : ∀ tx ∈ j.transactions, tx.outputs.length ≤ UInt32.size

instance (j : Journal) : Decidable j.Unambiguous :=
  decidable_of_iff
    ((∀ u ∈ j.deposits, ∀ tx ∈ j.transactions, ∀ place, place < tx.outputs.length →
        u.outpoint ≠ (tx.txid, UInt32.ofNat place)) ∧
      (∀ tx ∈ j.transactions, ∀ tx' ∈ j.transactions, tx.txid = tx'.txid →
        tx.writePlain = tx'.writePlain) ∧
      ∀ tx ∈ j.transactions, tx.outputs.length ≤ UInt32.size)
    ⟨fun h => ⟨h.1, h.2.1, h.2.2⟩, fun h => ⟨h.deposits, h.ids, h.places⟩⟩

/-- What holds of a journal held of what it began with. -/
theorem Journal.Unambiguous.of_append (h : (j ++ k).Unambiguous) : j.Unambiguous := by
  have hsubset := Journal.transactions_subset j k
  refine ⟨fun u hu tx htx => h.deposits u ?_ tx (hsubset htx), fun tx htx tx' htx' =>
    h.ids tx (hsubset htx) tx' (hsubset htx'), fun tx htx => h.places tx (hsubset htx)⟩
  rw [Journal.deposits_append]
  exact List.mem_append_left _ hu

namespace Journal

theorem mem_transactions_of_draft {draft : SpendDraft} {tx : Transaction}
    (hdraft : draft ∈ j.drafts) (hread : Transaction.read draft.unsignedTx = .ok tx) :
    tx ∈ j.transactions := by
  refine List.mem_append_left _ (List.mem_filterMap.mpr ⟨draft, hdraft, ?_⟩)
  rw [hread]
  rfl

theorem mem_finalized {txid : Hash} {raw : Bytes} {tx : Transaction}
    (hclosing : (txid, raw) ∈ j.closings) (hread : Transaction.read raw = .ok tx) :
    tx ∈ j.finalized := by
  refine List.mem_filterMap.mpr ⟨(txid, raw), hclosing, ?_⟩
  rw [hread]
  rfl

end Journal

/-- Payments and outputs are told apart. -/
structure Orderly (chain : ChainId) (key : String) (j : Journal) (s : State) : Prop where
  /-- No output is held twice. -/
  apart : (s.outpoints chain key).Nodup
  /-- Every output held was deposited, or paid back by a closed payment. -/
  held : ∀ p ∈ s.outpoints chain key, p ∈ j.deposits.map Utxo.outpoint ∨
    ∃ tx ∈ j.finalized, ∃ place, place < tx.outputs.length ∧ p = (tx.txid, UInt32.ofNat place)
  /-- Each payment has an id of its own. -/
  ids : (j.drafts.map SpendDraft.txid).Nodup
  /-- It waits until it is closed. -/
  fate : ∀ draft ∈ j.drafts, s.lookup (.draft chain draft.txid) = some draft ∨
    draft.txid ∈ j.closings.map Prod.fst
  /-- A payment that waits is not closed. -/
  waits : ∀ (txid : Hash) (draft : SpendDraft), s.lookup (.draft chain txid) = some draft →
    txid ∉ j.closings.map Prod.fst

/-- Nothing has been called yet. -/
theorem Orderly.empty (module : Bytes) (faults : Nat → StoreOp → Option StoreFault) (clock : Nat) :
    Orderly chain key [] ⟨module, .empty, faults, clock⟩ where
  apart := List.nodup_nil
  held _ h := nomatch h
  ids := List.nodup_nil
  fate _ h := nomatch h
  waits _ _ h := nomatch h

namespace Orderly

/-- A closed payment is found by its id. -/
theorem eq_of_txid (h : Orderly chain key j s) {draft draft' : SpendDraft}
    (hdraft : draft ∈ j.drafts) (hdraft' : draft' ∈ j.drafts) (hid : draft.txid = draft'.txid) :
    draft = draft' := List.inj_on_of_nodup_map h.ids hdraft hdraft' hid

/-- What a payment has reserved is reserved until it is spent. -/
theorem inputs_held (h : Orderly chain key j s) (htraced : Traced chain key j s)
    {draft : SpendDraft} (hdraft : draft ∈ j.drafts) :
    draft.inputs ⊆ s.reserved chain ++ s.spent chain key := by
  intro u hu
  rcases h.fate draft hdraft with hwaiting | hclosed
  · exact List.mem_append_left _ (State.reserved_of_lookup hwaiting hu)
  · obtain ⟨closing, hclosing, hid⟩ := List.mem_map.mp hclosed
    obtain ⟨draft', tx, signed, hsettled⟩ := htraced.closed closing hclosing
    obtain rfl := h.eq_of_txid hsettled.made hdraft (hsettled.named.trans hid)
    exact List.mem_append_right _ (hsettled.spent hu)

/-- A payment that is made has a new id. -/
theorem fresh (h : Orderly chain key j s) (htraced : Traced chain key j s)
    {config : CustodyConfig} {payouts : List Payout} {fee cost : UInt64} {record : RedeemRecord}
    {selection : Selection} {draft : SpendDraft}
    (hdrafts : Drafts config chain key payouts fee record cost selection draft s t)
    (hj : Journal.Unambiguous (j ++ [.drafted draft])) :
    draft.txid ∉ j.drafts.map SpendDraft.txid := by
  intro hmem
  obtain ⟨earlier, hearlier, hid⟩ := List.mem_map.mp hmem
  obtain ⟨tx, hpays⟩ := hdrafts.pays
  obtain ⟨tx', hpays'⟩ := htraced.pays earlier hearlier
  -- the two transactions would be the same, so they would spend the same outputs
  have hplain : tx.writePlain = tx'.writePlain := by
    refine hj.ids tx ?_ tx' ?_ (hpays.txid.symm.trans (hid.symm.trans hpays'.txid))
    · refine Journal.mem_transactions_of_draft ?_ hpays.read
      simp [Journal.drafts]
    · refine Journal.mem_transactions_of_draft ?_ hpays'.read
      rw [Journal.drafts_append]
      exact List.mem_append_left _ hearlier
  have hsame := hpays.toSpends.outpoints_eq hpays'.toSpends hplain
  obtain ⟨u, hu⟩ := List.exists_mem_of_ne_nil _ hpays.spends
  have hmem : u.outpoint ∈ earlier.inputs.map Utxo.outpoint :=
    hsame ▸ List.mem_map_of_mem hu
  obtain ⟨v, hv, heq⟩ := List.mem_map.mp hmem
  have hspendable : u ∈ s.spendable chain key := by
    rw [hdrafts.inputs_eq] at hu
    exact (Selection.largestFirst_perm hdrafts.selected).subset (List.mem_append_left _ hu)
  exact State.spendable_apart h.apart hspendable (h.inputs_held htraced hearlier hv) heq.symm

/-- What a payment that is closed pays back is new. -/
theorem returned_new (h : Orderly chain key j s) (htraced : Traced chain key j s) {txid : Hash}
    {draft : SpendDraft} {signed : Transaction} {redeem : Bytes}
    (hwaiting : s.lookup (.draft chain txid) = some draft) (hspends : Spends draft signed)
    (hj : (j ++ k).Unambiguous) (hsigned : signed ∈ (j ++ k).transactions) {p : Hash × UInt32}
    (hp : p ∈ (returned redeem signed).map Utxo.outpoint) : p ∉ s.outpoints chain key := by
  intro hheld
  obtain ⟨place, hplace, rfl⟩ := mem_returned_outpoints hp
  rcases h.held _ hheld with hdeposited | ⟨tx, htx, place', hplace', heq⟩
  · obtain ⟨u, hu, hname⟩ := List.mem_map.mp hdeposited
    refine hj.deposits u ?_ signed hsigned place hplace hname
    rw [Journal.deposits_append]
    exact List.mem_append_left _ hu
  -- the transaction of a closed payment would be the same, so what is reserved would be spent
  · obtain ⟨closing, hclosing, hread⟩ := List.mem_filterMap.mp htx
    obtain ⟨draft', tx', signed', hsettled⟩ := htraced.closed closing hclosing
    rw [hsettled.read] at hread
    obtain rfl : signed' = tx := Option.some.inj hread
    have hlisted := Journal.transactions_subset j k (List.mem_append_right _ htx)
    have hplain := hj.ids signed hsigned signed' hlisted (Prod.mk.inj heq).1
    have hsame := hspends.outpoints_eq hsettled.spends hplain
    obtain ⟨u, hu⟩ := List.exists_mem_of_ne_nil _ hspends.spends
    have hmem : u.outpoint ∈ draft'.inputs.map Utxo.outpoint :=
      hsame ▸ List.mem_map_of_mem hu
    obtain ⟨v, hv, hname⟩ := List.mem_map.mp hmem
    have hreserved := State.reserved_of_lookup hwaiting hu
    exact State.reserved_apart h.apart hreserved (hsettled.spent hv) hname.symm

/-! ## Calls -/

/-- A call that moves nothing and brings nothing to the journal. -/
theorem still (h : Orderly chain key j s) (hstill : Still chain key s t)
    (hdeposits : k.deposits = []) (hdrafts : k.drafts = []) (hclosings : k.closings = []) :
    Orderly chain key (j ++ k) t where
  apart := hstill.outpoints_perm.nodup_iff.mpr h.apart
  held p hp := by
    rw [Journal.deposits_append, hdeposits, List.append_nil, Journal.finalized,
      Journal.closings_append, hclosings, List.append_nil]
    exact h.held p (hstill.outpoints_perm.subset hp)
  ids := by
    rw [Journal.drafts_append, hdrafts, List.append_nil]
    exact h.ids
  fate draft hdraft := by
    rw [Journal.drafts_append, hdrafts, List.append_nil] at hdraft
    rw [hstill.waiting, Journal.closings_append, hclosings, List.append_nil]
    exact h.fate draft hdraft
  waits txid draft hwaiting := by
    rw [hstill.waiting] at hwaiting
    rw [Journal.closings_append, hclosings, List.append_nil]
    exact h.waits txid draft hwaiting

/-- A deposit brings an output that was not held. -/
theorem deposited (h : Orderly chain key j s) {utxo : Utxo}
    (hdeposits : Deposits chain key utxo s t) : Orderly chain key (j ++ [.deposited utxo]) t := by
  obtain ⟨hperm, hnew⟩ := hdeposits.outpoints_perm
  have hclosings : Journal.closings (j ++ [.deposited utxo]) = j.closings := by
    rw [Journal.closings_append]
    exact List.append_nil _
  have hdrafts : Journal.drafts (j ++ [.deposited utxo]) = j.drafts := by
    rw [Journal.drafts_append]
    exact List.append_nil _
  refine ⟨hperm.nodup_iff.mpr (List.nodup_cons.mpr ⟨hnew, h.apart⟩), fun p hp => ?_, ?_,
    fun draft hdraft => ?_, fun txid draft hwaiting => ?_⟩
  · rw [Journal.deposits_append, List.map_append, Journal.finalized, hclosings]
    rcases List.mem_cons.mp (hperm.subset hp) with rfl | hheld
    · exact .inl (List.mem_append_right _ List.mem_cons_self)
    · exact (h.held p hheld).imp_left (List.mem_append_left _)
  · rw [hdrafts]
    exact h.ids
  · rw [hdrafts] at hdraft
    rw [hdeposits.waiting_eq, hclosings]
    exact h.fate draft hdraft
  · rw [hdeposits.waiting_eq] at hwaiting
    rw [hclosings]
    exact h.waits txid draft hwaiting

/-- A payment has a new id and waits. -/
theorem drafted (h : Orderly chain key j s) (htraced : Traced chain key j s)
    {config : CustodyConfig} {payouts : List Payout} {fee cost : UInt64} {record : RedeemRecord}
    {selection : Selection} {draft : SpendDraft}
    (hdrafts : Drafts config chain key payouts fee record cost selection draft s t)
    (hj : Journal.Unambiguous (j ++ [.drafted draft])) :
    Orderly chain key (j ++ [.drafted draft]) t := by
  have hfresh := h.fresh htraced hdrafts hj
  have hmade : Journal.drafts (j ++ [.drafted draft]) = j.drafts ++ [draft] :=
    Journal.drafts_append _ _
  have hclosings : Journal.closings (j ++ [.drafted draft]) = j.closings := by
    rw [Journal.closings_append]
    exact List.append_nil _
  refine ⟨hdrafts.outpoints_nodup h.apart, fun p hp => ?_, ?_, fun other hother => ?_,
    fun txid other hwaiting => ?_⟩
  · have hheld := h.held p ((List.map_subset _ hdrafts.held_subperm.subset) hp)
    rw [Journal.deposits_append, List.map_append, Journal.finalized, hclosings]
    exact hheld.imp_left (List.mem_append_left _)
  · rw [hmade, List.map_append, List.map_singleton, List.nodup_append_comm]
    exact List.nodup_cons.mpr ⟨hfresh, h.ids⟩
  · rw [hmade] at hother
    rw [hclosings]
    rcases List.mem_append.mp hother with hbefore | hnew
    · have hne : other.txid ≠ draft.txid := fun hid =>
        hfresh (hid ▸ List.mem_map_of_mem hbefore)
      rw [hdrafts.waiting_of_ne hne]
      exact h.fate other hbefore
    · obtain rfl := List.mem_singleton.mp hnew
      exact .inl hdrafts.waiting_self
  · rw [hclosings]
    by_cases hid : txid = draft.txid
    · rw [hid]
      exact fun hclosed => hfresh (htraced.closings_subset hclosed)
    · rw [hdrafts.waiting_of_ne hid] at hwaiting
      exact h.waits txid other hwaiting

/-- A payment that is closed pays back new outputs and waits no more. -/
theorem closed (h : Orderly chain key j s) (htraced : Traced chain key j s) {signer : Custodian}
    {txid : Hash} {signatures : List Bytes} {draft : SpendDraft} {record : RedeemRecord}
    {tx signed : Transaction} {collection : SignatureCollection}
    (hfound : Contributes chain signer txid signatures draft record tx collection s)
    (hcloses : Closes chain draft record tx signed collection s t) (hdrafts : k.drafts = [])
    (hclosings : k.closings = [(txid, signed.write)]) (hj : (j ++ k).Unambiguous) :
    Orderly chain key (j ++ k) t := by
  have hsettled := htraced.settles hfound hcloses
  obtain ⟨rfl, rfl⟩ := htraced.named txid draft hfound.waiting
  have hfinalized : signed ∈ (j ++ k).finalized := by
    have hclosing : (draft.txid, signed.write) ∈ k.closings := by
      rw [hclosings]
      exact List.mem_cons_self
    rw [Journal.finalized_append]
    exact List.mem_append_right _ (Journal.mem_finalized hclosing hsettled.read)
  have hsigned : signed ∈ (j ++ k).transactions := List.mem_append_right _ hfinalized
  have hperm := hcloses.outpoints_perm hfound.waiting h.apart
  refine ⟨?_, fun p hp => ?_, ?_, fun other hother => ?_, fun id other hwaiting => ?_⟩
  · rw [hperm.nodup_iff, List.nodup_append]
    refine ⟨returned_outpoints_nodup (hj.places signed hsigned), h.apart, ?_⟩
    rintro p hp q hq rfl
    exact h.returned_new htraced hfound.waiting hsettled.spends hj hsigned hp hq
  · rw [Journal.deposits_append, List.map_append]
    rcases List.mem_append.mp (hperm.subset hp) with hpaid | hheld
    · obtain ⟨place, hplace, rfl⟩ := mem_returned_outpoints hpaid
      exact .inr ⟨signed, hfinalized, place, hplace, rfl⟩
    · rcases h.held p hheld with hdeposited | ⟨other, hother, hplace⟩
      · exact .inl (List.mem_append_left _ hdeposited)
      · rw [Journal.finalized_append]
        exact .inr ⟨other, List.mem_append_left _ hother, hplace⟩
  · rw [Journal.drafts_append, hdrafts, List.append_nil]
    exact h.ids
  · rw [Journal.drafts_append, hdrafts, List.append_nil] at hother
    rw [Journal.closings_append, hclosings, List.map_append]
    by_cases hid : other.txid = draft.txid
    · exact .inr (List.mem_append_right _ (List.mem_singleton.mpr hid))
    · rw [hcloses.waiting_of_ne hid]
      exact (h.fate other hother).imp_right (List.mem_append_left _)
  · rw [Journal.closings_append, hclosings, List.map_append]
    by_cases hid : id = draft.txid
    · rw [hid, hcloses.waiting_self] at hwaiting
      cases hwaiting
    · rw [hcloses.waiting_of_ne hid] at hwaiting
      intro hclosed
      rcases List.mem_append.mp hclosed with hbefore | hnow
      · exact h.waits id other hwaiting hbefore
      · exact hid (List.mem_singleton.mp hnow)

/-- A call keeps payments and outputs told apart. -/
theorem call (h : Orderly chain key j s) (htraced : Traced chain key j s)
    (hcall : Call chain key s t k) (hj : (j ++ k).Unambiguous) : Orderly chain key (j ++ k) t := by
  cases hcall with
  | quiet hwrites hspared =>
    exact h.still (Call.still (.quiet hwrites hspared) rfl rfl rfl) rfl rfl rfl
  | registered hparsed hfits hnew hchanged =>
    exact h.still (Call.still (.registered hparsed hfits hnew hchanged) rfl rfl rfl) rfl rfl rfl
  | deposited hdeposits => exact h.deposited hdeposits
  | drafted hdrafts => exact h.drafted htraced hdrafts hj
  | collected hfound hfewer hfits hchanged =>
    have hcall : Call chain key s t _ := .collected hfound hfewer hfits hchanged
    exact h.still (hcall.still rfl rfl rfl) rfl rfl rfl
  | closed hfound _ hcloses => exact h.closed htraced hfound hcloses rfl rfl hj

end Orderly

/-- After calls on an empty store the records agree with the journal, and payments are told apart as
long as the journal tells transactions apart. -/
theorem Calls.orderly {module : Bytes} {faults : Nat → StoreOp → Option StoreFault} {clock : Nat}
    (h : Calls chain key ⟨module, .empty, faults, clock⟩ j s) (hj : j.Unambiguous) :
    Traced chain key j s ∧ Orderly chain key j s := by
  induction h with
  | none => exact ⟨.empty module faults clock, .empty module faults clock⟩
  | more _ hcall ih =>
    obtain ⟨htraced, horderly⟩ := ih hj.of_append
    exact ⟨htraced.call hcall, horderly.call htraced hcall hj⟩

end Custody

end BridgeKernel
