import BridgeKernel.Proofs.Custody.Steps
import BridgeKernel.Proofs.Store.Scan

/-!
# The outputs that custody holds

An output in custody is spendable, reserved by a payment that waits for signatures, or spent. What
is reserved is read off a listing of the payments of the chain, so a change of the store shows there
as the payment that it adds or removes.
-/

namespace BridgeKernel

open Record

/-! ## Records read back -/

instance : LawfulRecord Utxo where
  read_write u rest hf := by
    have hscript : fits u.scriptPubkey = true := hf
    change (do
      let txid ← read
      let vout ← read
      let value ← read
      let scriptPubkey ← read
      return { txid, vout, value, scriptPubkey } : Reader Utxo)
      (write u.txid ++ write u.vout ++ write u.value ++ write u.scriptPubkey ++ rest) = _
    simp only [List.append_assoc]
    rw [bind_read_write rfl, bind_read_write rfl, bind_read_write rfl, bind_read_write hscript]
    rfl

instance : LawfulRecord SpendDraft where
  read_write d rest hf := by
    obtain ⟨hkeytx, hinputs⟩ := Bool.and_eq_true_iff.mp hf
    obtain ⟨hkey, htx⟩ := Bool.and_eq_true_iff.mp hkeytx
    change (do
      let txid ← read
      let redeemKey ← read
      let unsignedTx ← read
      let inputs ← read
      let fee ← read
      return { txid, redeemKey, unsignedTx, inputs, fee } : Reader SpendDraft)
      (write d.txid ++ write d.redeemKey ++ write d.unsignedTx ++ write d.inputs ++ write d.fee ++
        rest) = _
    simp only [List.append_assoc]
    rw [bind_read_write rfl, bind_read_write hkey, bind_read_write htx, bind_read_write hinputs,
      bind_read_write rfl]
    rfl

/-! ## The listing of payments -/

/-- The keys under the beginning of a chain's payments are those of its payments. -/
theorem RecordKey.draft_prefix_iff {module : Bytes} {chain : ChainId} {key : RecordKey} :
    keyBytes module .draft [.number chain] <+: key.toBytes module ↔
      ∃ txid, key = .draft chain txid := by
  constructor
  · rintro ⟨rest, h⟩
    have hbytes : module ++ (RecordKind.draft.tag ++ [0x2f] ++
        ((KeySegment.number chain).toBytes ++ rest)) =
        module ++ (key.kind.tag ++ [0x2f] ++ key.suffix) := by
      rw [← toBytes_eq, ← h]
      simp [keyBytes]
    obtain ⟨hkind, hsuffix⟩ := RecordKind.tag_append_inj (List.append_cancel_left hbytes)
    cases key with
    | draft c txid =>
      simp only [suffix, segments, List.flatMap_cons, List.flatMap_nil, List.append_nil] at hsuffix
      obtain ⟨rfl, -⟩ := KeySegment.number_append_inj hsuffix
      exact ⟨txid, rfl⟩
    | _ => cases hkind
  · rintro ⟨txid, rfl⟩
    refine ⟨txid.toBytes, ?_⟩
    simp [toBytes, keyBytes, kind, segments, KeySegment.toBytes]

namespace State

variable {s t : State} {chain : ChainId}

/-- What does not move payments of a chain leaves their listing as it is, up to order. -/
theorem Writes.drafts_perm {P : RecordKey → Prop} (h : s.Writes P t)
    (hP : ∀ txid, ¬ P (.draft chain txid)) : (t.drafts chain).Perm (s.drafts chain) := by
  unfold drafts
  rw [h.module_eq]
  refine (Contents.scan_perm fun bytes hstart => ?_).filterMap _
  rcases h.records bytes with hsame | ⟨key, hkey, rfl, -⟩
  · exact hsame
  · obtain ⟨txid, rfl⟩ := RecordKey.draft_prefix_iff.mp hstart
    exact absurd hkey (hP txid)

theorem drafts_change_of_ne {c : Change} (h : ∀ txid, c.key ≠ .draft chain txid) :
    ((s.change c).drafts chain).Perm (s.drafts chain) := by
  refine (Contents.scan_perm fun bytes hstart => ?_).filterMap _
  have hfind := Contents.find?_apply s.records (c.toWrite s.module) bytes
  rw [Change.toWrite_key] at hfind
  refine hfind.trans (if_neg ?_)
  rintro rfl
  obtain ⟨txid, hkey⟩ := RecordKey.draft_prefix_iff.mp hstart
  exact h txid hkey

/-- A payment that is stored stands in the listing, beside the payments left without it. -/
theorem drafts_perm_of_lookup {txid : Hash} {draft : SpendDraft}
    (h : s.lookup (.draft chain txid) = some draft) :
    (s.drafts chain).Perm (draft :: (s.change (.remove (.draft chain txid))).drafts chain) := by
  obtain ⟨value, hvalue, hdecode⟩ := Option.bind_eq_some_iff.mp h
  have hstart : keyBytes s.module .draft [.number chain] <+:
      (RecordKey.draft chain txid).toBytes s.module := RecordKey.draft_prefix_iff.mpr ⟨txid, rfl⟩
  have hscan := (Contents.scan_erase_perm hstart hvalue).filterMap
    fun e => (decode (α := SpendDraft) e.2).toOption
  rw [List.filterMap_cons, hdecode] at hscan
  exact hscan

/-- Storing a payment puts it beside the payments left without it. -/
theorem drafts_change_store {txid : Hash} {draft : SpendDraft} (hf : fits draft = true) :
    ((s.change (.store (.draft chain txid) draft)).drafts chain).Perm
      (draft :: (s.change (.remove (.draft chain txid))).drafts chain) := by
  have hstored : (s.change (.store (.draft chain txid) draft)).lookup (.draft chain txid) =
      some draft := lookup_change_store hf
  have hadd := drafts_perm_of_lookup hstored
  refine hadd.trans (.cons _ ((Contents.scan_perm fun bytes _ => ?_).filterMap _))
  change ((s.records.insert ((RecordKey.draft chain txid).toBytes s.module) (write draft)).erase
    ((RecordKey.draft chain txid).toBytes s.module)).find? bytes =
    (s.records.erase ((RecordKey.draft chain txid).toBytes s.module)).find? bytes
  by_cases hkey : bytes = (RecordKey.draft chain txid).toBytes s.module
  · rw [hkey, OrderedMap.find?_erase_self, OrderedMap.find?_erase_self]
  · rw [OrderedMap.find?_erase_of_ne _ hkey, OrderedMap.find?_erase_of_ne _ hkey,
      OrderedMap.find?_insert_of_ne _ _ hkey]

/-- Removing a payment where none can be read leaves the listing as it is. -/
theorem drafts_change_remove_of_lookup_none {txid : Hash}
    (h : s.lookup (α := SpendDraft) (.draft chain txid) = none) :
    ((s.change (.remove (.draft chain txid))).drafts chain).Perm (s.drafts chain) := by
  have hstart : keyBytes s.module .draft [.number chain] <+:
      (RecordKey.draft chain txid).toBytes s.module := RecordKey.draft_prefix_iff.mpr ⟨txid, rfl⟩
  cases hraw : s.raw? (.draft chain txid) with
  | none =>
    refine (Contents.scan_perm fun bytes _ => ?_).filterMap _
    change (s.records.erase ((RecordKey.draft chain txid).toBytes s.module)).find? bytes = _
    by_cases hkey : bytes = (RecordKey.draft chain txid).toBytes s.module
    · rw [hkey, OrderedMap.find?_erase_self]
      exact hraw.symm
    · rw [OrderedMap.find?_erase_of_ne _ hkey]
  | some value =>
    have hdecode : (decode (α := SpendDraft) value).toOption = none := by
      rwa [lookup, hraw] at h
    have hscan := (Contents.scan_erase_perm hstart hraw).filterMap
      fun e => (decode (α := SpendDraft) e.2).toOption
    rw [List.filterMap_cons, hdecode] at hscan
    exact hscan.symm

/-- Removing a payment leaves no more payments than there were. -/
theorem drafts_change_remove_sublist (txid : Hash) :
    ((s.change (.remove (.draft chain txid))).drafts chain).Sublist (s.drafts chain) :=
  (Contents.scan_erase_sublist _ _ _).filterMap _

end State

end BridgeKernel
