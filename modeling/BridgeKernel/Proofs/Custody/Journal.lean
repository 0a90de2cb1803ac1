import BridgeKernel.Proofs.Custody.Ledger
import BridgeKernel.Proofs.Custody.Payment
import BridgeKernel.Proofs.Custody.Redeem
import BridgeKernel.Proofs.Custody.Unlock

/-!
# The journal of custody

What was deposited, paid and signed on a chain stands in a journal, with one entry for every call
that was accepted. A call is described by what it did to the records together with its entry.
-/

namespace BridgeKernel

open Bitcoin

/-! ## Collections read back -/

namespace Record

instance : LawfulRecord CollectionStatus where
  read_write status rest hf := by
    have htag (n : Nat) (hn : n < 256 ^ 4) (rest : Bytes) :
        takeNat 4 (Bytes.ofNatLE 4 n ++ rest) = .ok (n, rest) := takeNat_ofNatLE hn rest
    cases status with
    | collecting =>
      change (takeNat 4 >>= _) (Bytes.ofNatLE 4 0 ++ rest) = _
      rw [Wire.bind_of_ok (htag 0 (by omega) rest)]
      rfl
    | finalized rawTx txid =>
      have hraw : fits rawTx = true := hf
      change (takeNat 4 >>= _) (Bytes.ofNatLE 4 1 ++ write rawTx ++ write txid ++ rest) = _
      rw [List.append_assoc, List.append_assoc, Wire.bind_of_ok (htag 1 (by omega) _)]
      change (read >>= fun rawTx => read >>= fun txid =>
        pure (CollectionStatus.finalized rawTx txid) : Reader _)
        (write rawTx ++ (write txid ++ rest)) = _
      rw [bind_read_write hraw, bind_read_write rfl]
      rfl

instance : LawfulRecord SignatureCollection where
  read_write c rest hf := by
    obtain ⟨hf, hstatus⟩ := Bool.and_eq_true_iff.mp hf
    obtain ⟨hkey, hsignatures⟩ := Bool.and_eq_true_iff.mp hf
    change (do
      let txid ← read
      let redeemKey ← read
      let signatures ← read
      let status ← read
      return { txid, redeemKey, signatures, status } : Reader SignatureCollection)
      (write c.txid ++ write c.redeemKey ++ write c.signatures ++ write c.status ++ rest) = _
    simp only [List.append_assoc]
    rw [bind_read_write rfl, bind_read_write hkey, bind_read_write hsignatures,
      bind_read_write hstatus]
    rfl

end Record

namespace Custody

namespace Closes

variable {chain : ChainId} {s t : State} {draft : SpendDraft} {record : RedeemRecord}
  {tx signed : Transaction} {collection : SignatureCollection}
  (h : Closes chain draft record tx signed collection s t)
include h

/-- The collection of a closed payment is closed. -/
theorem collection_self : t.lookup (.multisig draft.txid) =
    some { collection with status := .finalized signed.write signed.txid } := by
  have hafter := h.changed.lookup_eq (α := SignatureCollection) (.multisig draft.txid)
  simp only [closingChanges, State.changeAll_cons, State.changeAll_nil] at hafter
  rw [hafter, State.lookup_change_of_ne (by simp), State.lookup_change_of_ne (by simp),
    State.lookup_change_of_ne (by simp), State.lookup_change_store h.fits]

theorem collection_of_ne {txid : Hash} (hne : txid ≠ draft.txid) :
    t.lookup (α := SignatureCollection) (.multisig txid) = s.lookup (.multisig txid) :=
  h.changed.lookup_of_ne (by simp [closingChanges, hne])

end Closes

/-! ## Entries -/

/-- Signatures that were accepted for a payment. -/
structure Contribution where
  /-- The custodian that made them. -/
  signer : Custodian
  /-- The signatures, one for each input. -/
  signatures : List Bytes
  /-- What they brought about. -/
  outcome : SigningOutcome

/-- An accepted call. -/
inductive Entry where
  /-- An output was deposited. -/
  | deposited (utxo : Utxo)
  /-- A payment was made. -/
  | drafted (draft : SpendDraft)
  /-- A payment was signed. -/
  | signed (txid : Hash) (contribution : Contribution)

/-- The accepted calls, the oldest first. -/
abbrev Journal := List Entry

namespace Journal

/-- The deposited outputs. -/
def deposits (j : Journal) : List Utxo :=
  j.filterMap fun
    | .deposited utxo => some utxo
    | _ => none

/-- The payments that were made. -/
def drafts (j : Journal) : List SpendDraft :=
  j.filterMap fun
    | .drafted draft => some draft
    | _ => none

/-- The contributions to a payment. -/
def contributions (j : Journal) (txid : Hash) : List Contribution :=
  j.filterMap fun
    | .signed id contribution => if id = txid then some contribution else none
    | _ => none

/-- The ids of the closed payments, with the bytes of their signed transactions. -/
def closings (j : Journal) : List (Hash × Bytes) :=
  j.filterMap fun
    | .signed txid ⟨_, _, .finalized raw _⟩ => some (txid, raw)
    | _ => none

/-- The signed transactions of the closed payments. -/
def finalized (j : Journal) : List Transaction :=
  j.closings.filterMap fun closing => (Transaction.read closing.2).toOption

/-- The transactions of all payments: each as it was made, and each as it was signed. -/
def transactions (j : Journal) : List Transaction :=
  (j.drafts.filterMap fun draft => (Transaction.read draft.unsignedTx).toOption) ++ j.finalized

@[simp] theorem deposits_append (j k : Journal) :
    (j ++ k).deposits = j.deposits ++ k.deposits := List.filterMap_append

@[simp] theorem drafts_append (j k : Journal) : (j ++ k).drafts = j.drafts ++ k.drafts :=
  List.filterMap_append

@[simp] theorem contributions_append (j k : Journal) (txid : Hash) :
    (j ++ k).contributions txid = j.contributions txid ++ k.contributions txid :=
  List.filterMap_append

theorem contributions_signed_self (txid : Hash) (c : Contribution) :
    contributions [.signed txid c] txid = [c] := by
  simp [contributions]

theorem contributions_signed_of_ne {txid id : Hash} (hne : id ≠ txid) (c : Contribution) :
    contributions [.signed txid c] id = [] := by
  simp [contributions, hne.symm]

@[simp] theorem closings_append (j k : Journal) :
    (j ++ k).closings = j.closings ++ k.closings := List.filterMap_append

@[simp] theorem finalized_append (j k : Journal) :
    (j ++ k).finalized = j.finalized ++ k.finalized := by
  rw [finalized, closings_append, List.filterMap_append, finalized, finalized]

/-- More entries bring more transactions. -/
theorem transactions_subset (j k : Journal) : j.transactions ⊆ (j ++ k).transactions := by
  intro tx htx
  simp only [transactions, drafts_append, finalized_append, List.filterMap_append,
    List.mem_append] at htx ⊢
  tauto

end Journal

/-! ## Calls -/

/-- What a call does to the records of a chain that uses one custody key, with its entry in the
journal if it was accepted and has one. -/
inductive Call (chain : ChainId) (key : String) (s t : State) : Journal → Prop
  /-- No record of custody on the chain is touched. -/
  | quiet {P : RecordKey → Prop} (writes : s.Writes P t)
    (spared : ∀ record, P record → ¬ record.IsCustody chain) : Call chain key s t []
  /-- A script is registered. -/
  | registered {record : RedeemRecord} (parsed : record.Parsed) (fits : Record.fits record = true)
    (new : s.raw? (.redeem chain record.redeemKey) = none)
    (changed : s.Changed [.store (.redeem chain record.redeemKey) record] t) :
    Call chain key s t []
  /-- An output is deposited. -/
  | deposited {utxo : Utxo} (h : Deposits chain key utxo s t) :
    Call chain key s t [.deposited utxo]
  /-- A payment is made. -/
  | drafted {config : CustodyConfig} {payouts : List Payout} {fee : UInt64} {record : RedeemRecord}
    {cost : UInt64} {selection : Selection} {draft : SpendDraft}
    (h : Drafts config chain key payouts fee record cost selection draft s t) :
    Call chain key s t [.drafted draft]
  /-- Signatures are collected. -/
  | collected {signer : Custodian} {txid : Hash} {signatures : List Bytes} {draft : SpendDraft}
    {record : RedeemRecord} {tx : Transaction} {collection : SignatureCollection}
    (h : Contributes chain signer txid signatures draft record tx collection s)
    (fewer : collection.signerCount < record.required.toNat)
    (fits : Record.fits collection = true)
    (changed : s.Changed [.store (.multisig txid) collection] t) :
    Call chain key s t [.signed txid
      ⟨signer, signatures, .collecting collection.signerCount record.required⟩]
  /-- Signatures close a payment. -/
  | closed {signer : Custodian} {txid : Hash} {signatures : List Bytes} {draft : SpendDraft}
    {record : RedeemRecord} {tx signed : Transaction} {collection : SignatureCollection}
    (h : Contributes chain signer txid signatures draft record tx collection s)
    (enough : record.required.toNat ≤ collection.signerCount)
    (closes : Closes chain draft record tx signed collection s t) :
    Call chain key s t [.signed txid ⟨signer, signatures, .finalized signed.write signed.txid⟩]

/-- Calls one after another, with the journal of them. -/
inductive Calls (chain : ChainId) (key : String) (s : State) : Journal → State → Prop
  /-- No call has been made. -/
  | none : Calls chain key s [] s
  /-- One more call is made. -/
  | more {j k : Journal} {t u : State} (before : Calls chain key s j t)
    (call : Call chain key t u k) : Calls chain key s (j ++ k) u

variable {chain : ChainId} {key : String} {s t : State} {k : Journal}

namespace Call

variable (h : Call chain key s t k)
include h

/-- The record of a script is as it was, or has been made of a script where there was none. -/
theorem redeem_eq_or (name : String) :
    t.lookup (α := RedeemRecord) (.redeem chain name) = s.lookup (.redeem chain name) ∨
      s.lookup (α := RedeemRecord) (.redeem chain name) = none ∧ k = [] ∧
        ∃ record : RedeemRecord, t.lookup (.redeem chain name) = some record ∧ record.Parsed := by
  cases h with
  | quiet hwrites hspared =>
    exact .inl (hwrites.lookup_eq fun hP => hspared (.redeem chain name) hP rfl)
  | @registered record hparsed hfits hnew hchanged =>
    by_cases hname : name = record.redeemKey
    · subst hname
      exact .inr ⟨State.lookup_of_raw?_none hnew, rfl, record, hchanged.lookup_store hfits, hparsed⟩
    · exact .inl (hchanged.lookup_of_ne (by simpa using hname))
  | deposited h => exact .inl (h.changed.lookup_of_ne (by simp))
  | drafted h => exact .inl (h.changed.lookup_of_ne (by simp))
  | collected _ _ _ hchanged => exact .inl (hchanged.lookup_of_ne (by simp))
  | closed _ _ hcloses => exact .inl (hcloses.changed.lookup_of_ne (by simp [closingChanges]))

/-- The record of a script stays once it is there. -/
theorem redeem_kept {name : String} {record : RedeemRecord}
    (hrecord : s.lookup (.redeem chain name) = some record) :
    t.lookup (.redeem chain name) = some record := by
  rcases h.redeem_eq_or name with hsame | ⟨hnone, -⟩
  · exact hsame.trans hrecord
  · rw [hrecord] at hnone
    cases hnone

/-- The record of a script was there before, or was made of a script. -/
theorem redeem_origin {name : String} {record : RedeemRecord}
    (hrecord : t.lookup (.redeem chain name) = some record) :
    s.lookup (.redeem chain name) = some record ∨
      s.lookup (α := RedeemRecord) (.redeem chain name) = none ∧ k = [] ∧ record.Parsed := by
  rcases h.redeem_eq_or name with hsame | ⟨hnone, hk, made, hmade, hparsed⟩
  · exact .inl (hsame.symm.trans hrecord)
  · cases hmade.symm.trans hrecord
    exact .inr ⟨hnone, hk, hparsed⟩

/-- A payment that waits after a call waited before it, or was made by it. -/
theorem draft_origin {txid : Hash} {found : SpendDraft}
    (hfound : t.lookup (.draft chain txid) = some found) :
    s.lookup (.draft chain txid) = some found ∨
      found ∈ k.drafts ∧ found.txid = txid ∧ found.redeemKey = key := by
  cases h with
  | quiet hwrites hspared =>
    rw [hwrites.lookup_eq fun hP => hspared (.draft chain txid) hP rfl] at hfound
    exact .inl hfound
  | registered _ _ _ hchanged =>
    rw [hchanged.lookup_of_ne (by simp)] at hfound
    exact .inl hfound
  | deposited h => exact .inl ((h.waiting_eq txid).symm.trans hfound)
  | @drafted _ _ _ _ _ _ draft h =>
    by_cases hid : txid = draft.txid
    · rw [hid, h.waiting_self] at hfound
      cases hfound
      exact .inr ⟨List.mem_cons_self, hid.symm, congrArg SpendDraft.redeemKey h.made⟩
    · exact .inl ((h.waiting_of_ne hid).symm.trans hfound)
  | collected _ _ _ hchanged =>
    rw [hchanged.lookup_of_ne (by simp)] at hfound
    exact .inl hfound
  | @closed _ _ _ draft _ _ _ _ _ _ hcloses =>
    by_cases hid : txid = draft.txid
    · rw [hid, hcloses.waiting_self] at hfound
      cases hfound
    · exact .inl ((hcloses.waiting_of_ne hid).symm.trans hfound)

/-- All payments stay under their own ids, on one custody key. -/
theorem draftsOn (hon : s.DraftsOn chain key) : t.DraftsOn chain key := by
  intro txid found hfound
  rcases h.draft_origin hfound with hwaiting | ⟨-, hnamed⟩
  · exact hon txid found hwaiting
  · exact hnamed

/-- Spent outputs stay spent. -/
theorem spent_subset (hon : s.DraftsOn chain key) :
    s.spent chain key ⊆ t.spent chain key := by
  intro u hu
  cases h with
  | quiet hwrites hspared =>
    rwa [State.spent, hwrites.lookup_eq fun hP => hspared (.stxo chain key) hP rfl]
  | registered _ _ _ hchanged => rwa [State.spent, hchanged.lookup_of_ne (by simp)]
  | deposited h => rwa [h.spent_eq]
  | drafted h => rwa [h.spent_eq]
  | collected _ _ _ hchanged => rwa [State.spent, hchanged.lookup_of_ne (by simp)]
  | closed hfound _ hcloses =>
    obtain ⟨rfl, rfl⟩ := hon _ _ hfound.waiting
    rw [hcloses.spent_eq]
    exact List.mem_append_left _ hu

/-- A call that deposits nothing, and makes and closes no payment, moves no outputs. -/
theorem still (hdeposits : k.deposits = []) (hdrafts : k.drafts = [])
    (hclosings : k.closings = []) : Still chain key s t := by
  cases h with
  | quiet hwrites hspared =>
    exact .of_writes hwrites (fun hP => hspared _ hP rfl) (fun hP => hspared _ hP rfl)
      fun _ hP => hspared _ hP rfl
  | @registered record _ hfits _ hchanged =>
    have hwrites : s.Writes (· = .redeem chain record.redeemKey) t :=
      hchanged.writes_one (.store rfl (.redeem _ hfits))
    exact .of_writes hwrites nofun nofun nofun
  | deposited => cases hdeposits
  | drafted => cases hdrafts
  | @collected _ txid _ _ _ _ _ _ _ hfits hchanged =>
    have hwrites : s.Writes (· = .multisig txid) t :=
      hchanged.writes_one (.store rfl (.multisig _ hfits))
    exact .of_writes hwrites nofun nofun nofun
  | closed => cases hclosings

end Call

/-! ## Operations as calls -/

/-- A call that leaves no trace. -/
theorem Call.of_untouched (h : s.Untouched t) : Call chain key s t [] :=
  .quiet (P := fun _ => False) (.of_untouched h) fun _ => False.elim

theorem register_call {script : Bytes} {name : String}
    (h : register chain script s = (.ok name, t)) : Call chain key s t [] := by
  rcases register_ok h with hu | ⟨record, hparse, hfits, hnew, hchanged⟩
  · exact .of_untouched hu
  · obtain ⟨-, -, hparsed⟩ := Redeem.parse_ok hparse
    exact .registered hparsed hfits hnew hchanged

theorem createDraft_call {config : CustodyConfig} {payouts : List Payout} {fee : UInt64}
    {draft : SpendDraft} (h : createDraft config chain key payouts fee s = (.ok draft, t)) :
    Call chain key s t [.drafted draft] := by
  obtain ⟨record, cost, selection, hdrafts⟩ := createDraft_ok h
  exact .drafted hdrafts

theorem addSignature_call {signer : Custodian} {txid : Hash} {signatures : List Bytes}
    {outcome : SigningOutcome}
    (h : addSignature chain signer txid signatures s = (.ok outcome, t)) :
    Call chain key s t [.signed txid ⟨signer, signatures, outcome⟩] := by
  obtain ⟨draft, record, tx, collection, hfound, hcollects | ⟨henough, signed, rfl, hcloses⟩⟩ :=
    addSignature_ok h
  · obtain ⟨hfewer, rfl, hfits, hchanged⟩ := hcollects
    exact .collected hfound hfewer hfits hchanged
  · exact .closed hfound henough hcloses

end Custody

end BridgeKernel
