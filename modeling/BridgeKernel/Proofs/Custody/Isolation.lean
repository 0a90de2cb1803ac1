import BridgeKernel.Proofs.Custody.Outputs
import BridgeKernel.Proofs.Store.Agree

/-!
# What custody reads

A call of custody on a chain reads records of that chain and the signatures collected for the
transaction that it names. So it cannot tell apart states that agree on these records.
-/

namespace BridgeKernel.Custody

open Transition

variable {chain : ChainId} {ids : Hash → Prop}

theorem load?_local {α : Type} [Record α] {key : RecordKey} (h : key.CustodyOf chain ids) :
    ((State.load? (α := α) key).mapError CustodyError.storage).Local
      (RecordKey.CustodyOf chain ids) :=
  .mapError (State.load?_local h) _

theorem redeem?_local (key : String) :
    (redeem? chain key).Local (RecordKey.CustodyOf chain ids) := load?_local rfl

theorem redeem_local (key : String) :
    (redeem chain key).Local (RecordKey.CustodyOf chain ids) := by
  refine .bind (redeem?_local key) fun record? => ?_
  cases record? with
  | none => exact .throw _
  | some record => exact .pure _

theorem utxos_local (key : String) : (utxos chain key).Local (RecordKey.CustodyOf chain ids) :=
  .bind (load?_local rfl) fun _ => .pure _

theorem stxos_local (key : String) : (stxos chain key).Local (RecordKey.CustodyOf chain ids) :=
  .bind (load?_local rfl) fun _ => .pure _

/-- The listing of a chain's payments meets no other records. -/
theorem reserved_local (chain : ChainId) :
    (reserved chain).Local (RecordKey.CustodyOf chain ids) := by
  intro s t h
  have hstart (bytes : Bytes) (hb : keyBytes s.module .draft [.number chain] <+: bytes) :
      t.records.find? bytes = s.records.find? bytes := by
    rcases h.records bytes with hsame | ⟨key, hkey, rfl⟩
    · exact hsame
    · obtain ⟨txid, rfl⟩ := RecordKey.draft_prefix_iff.mp hb
      exact absurd rfl hkey
  have hrun (u : State) : reserved chain u =
      ((State.scan (keyBytes u.module .draft [.number chain])).mapError CustodyError.storage >>=
        fun drafts : List (Bytes × SpendDraft) =>
          pure (drafts.flatMap fun entry => entry.2.inputs)) u := rfl
  rw [hrun, hrun, h.module_eq]
  exact ((State.scan_alike h hstart).mapError _).bind fun _ => .pure _

theorem register_local (script : Bytes) :
    (register chain script).Local (RecordKey.CustodyOf chain ids) := by
  refine .bind (.ofExcept _ _) fun record => ?_
  have hredeem : (RecordKey.redeem chain record.redeemKey).CustodyOf chain ids := rfl
  refine .bind (.mapError (State.has_local hredeem) _) fun found => ?_
  cases found with
  | true => exact .pure _
  | false => exact .bind (.mapError (State.store_local record) _) fun _ => .pure _

theorem recordDeposit_local (key : String) (utxo : Utxo) :
    (recordDeposit chain key utxo).Local (RecordKey.CustodyOf chain ids) := by
  refine .bind (redeem_local key) fun record => ?_
  refine .guard ?_
  refine .bind (utxos_local key) fun spendable => ?_
  refine .bind (stxos_local key) fun spent => ?_
  refine .bind (reserved_local chain) fun held => ?_
  refine .guard ?_
  exact .mapError (State.store_local _) _

theorem createDraft_local (config : CustodyConfig) (key : String) (payouts : List Payout)
    (fee : UInt64) :
    (createDraft config chain key payouts fee).Local (RecordKey.CustodyOf chain ids) := by
  refine .bind (redeem_local key) fun record => ?_
  refine .bind (.ofExcept _ _) fun cost => ?_
  refine .bind (utxos_local key) fun spendable => ?_
  cases Selection.largestFirst spendable cost with
  | none => exact .throw _
  | some selection =>
    refine .guard ?_
    refine .bind (.mapError ?_ _) fun _ => .pure _
    refine .bind (State.writeAbout_local _) fun _ => ?_
    exact .bind (State.writeAbout_local _) fun _ => State.commit_local _

theorem openCollection_local {signer : Custodian} {txid : Hash} (hid : ids txid) :
    (openCollection signer txid).Local (RecordKey.CustodyOf chain ids) := by
  refine .bind (load?_local hid) fun found => ?_
  cases found with
  | none => exact .pure _
  | some collection =>
    refine .guard ?_
    refine .guard ?_
    exact .pure _

theorem finalize_local (tx : Bitcoin.Transaction) (draft : SpendDraft) (record : RedeemRecord)
    (collection : SignatureCollection) :
    (finalize chain tx draft record collection).Local (RecordKey.CustodyOf chain ids) := by
  refine .bind (.ofExcept _ _) fun signed => ?_
  refine .bind (utxos_local _) fun spendable => ?_
  refine .bind (stxos_local _) fun spent => ?_
  refine .bind (.mapError ?_ _) fun _ => .pure _
  refine .bind (State.writeAbout_local _) fun _ => ?_
  refine .bind (State.writeAbout_local _) fun _ => ?_
  refine .bind (State.writeAbout_local _) fun _ => ?_
  exact .bind State.deleteAbout_local fun _ => State.commit_local _

theorem addSignature_local (signer : Custodian) {txid : Hash} (signatures : List Bytes)
    (hid : ids txid) :
    (addSignature chain signer txid signatures).Local (RecordKey.CustodyOf chain ids) := by
  refine .bind (openCollection_local hid) fun begun => ?_
  refine .bind (load?_local rfl) fun draft? => ?_
  cases draft? with
  | none => exact .throw _
  | some draft =>
    refine .bind (redeem_local _) fun record => ?_
    cases record.position? signer with
    | none => exact .throw _
    | some position =>
      refine .guard ?_
      refine .bind (.ofExcept _ _) fun tx => ?_
      refine .bind (.ofExcept _ _) fun _ => ?_
      change (if _ then _ else _ : Transition CustodyError SigningOutcome).Local _
      split
      · exact .bind (.mapError (State.store_local _) _) fun _ => .pure _
      · exact finalize_local _ _ _ _

end BridgeKernel.Custody
