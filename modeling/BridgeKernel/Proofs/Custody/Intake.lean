import BridgeKernel.Proofs.Custody.Listing
import BridgeKernel.Proofs.Custody.Redeem
import BridgeKernel.Proofs.Custody.Signing
import BridgeKernel.Proofs.Store.Calm
import Mathlib.Data.String.Basic

/-!
# Deposits on a store that never fails

There a deposit is admitted exactly when it is locked to the registered script, is not known, and
can be stored. So custody takes in every output that is locked to a registered script in one of the
two ways, whatever the length of the script.
-/

namespace BridgeKernel

open Bitcoin Record Transition

/-! ## Records that fit -/

theorem Utf8.length_encode_ofList_le (text : List Char) :
    (encode (String.ofList text)).length ≤ 4 * text.length := by
  change (String.ofList text).utf8ByteSize ≤ _
  rw [String.utf8ByteSize_ofList]
  induction text with
  | nil => exact Nat.le_refl 0
  | cons c text ih =>
    have hchar := c.utf8Size_le_four
    rw [String.utf8Len_cons, List.length_cons]
    omega

theorem Bytes.fits_toHex {bytes : Bytes} (h : 8 * bytes.length < lengthLimit) :
    fits bytes.toHex = true := by
  refine decide_eq_true (Nat.lt_of_le_of_lt (Utf8.length_encode_ofList_le _) ?_)
  rw [List.length_flatMap]
  simp only [List.length_cons, List.length_nil, List.map_const', List.sum_replicate_nat]
  omega

/-- The record of a script can be stored. -/
theorem Redeem.parse_fits {script : Bytes} {record : RedeemRecord}
    (h : parse script = .ok record) : fits record = true := by
  obtain ⟨m, hspelled, rfl⟩ := parse_ok_iff.mp h
  have hlength := hspelled.length_le
  have hfew := m.few
  have hlimit : lengthLimit = 18446744073709551616 := rfl
  have hkey : fits (keyOf script) = true :=
    Bytes.fits_toHex (by rw [FixedBytes.length_toBytes]; decide)
  have hscript : fits script = true := fits_bytes_iff.mpr (by omega)
  have hkeys : fits m.keys = true := by
    refine fits_list_iff.mpr ⟨by omega, fun key hmem => fits_bytes_iff.mpr ?_⟩
    rw [(m.isKey key hmem).1]
    decide
  have hcustodians : fits (m.keys.map Ripemd160.hash160) = true :=
    fits_list_iff.mpr ⟨by rw [List.length_map]; omega, fun _ _ => rfl⟩
  change (fits (keyOf script) && fits script && fits m.keys &&
    fits (m.keys.map Ripemd160.hash160)) = true
  rw [hkey, hscript, hkeys, hcustodians]
  rfl

theorem Script.length_locking_le (redeem : Bytes) (kind : LockKind) :
    (locking redeem kind).length ≤ 34 := by
  cases kind <;> simp [locking, FixedBytes.length_toBytes]

namespace Custody

variable {chain : ChainId} {key : String} {s t : State} {record : RedeemRecord} {u : Utxo}

/-! ## Answers -/

theorem redeem_answers (hs : s.Reliable) (h : s.lookup (.redeem chain key) = some record) :
    ∃ t, redeem chain key s = (.ok record, t) := by
  obtain ⟨t, hload, -⟩ := hs.load? (RecordKey.redeem_holds chain key)
  rw [h] at hload
  exact ⟨t, run_bind (run_mapError hload _) _⟩

theorem utxos_answers (hs : s.Reliable) (chain : ChainId) (key : String) :
    ∃ t, utxos chain key s = (.ok (s.spendable chain key), t) := by
  obtain ⟨t, hload, -⟩ := hs.load? (RecordKey.utxo_holds chain key)
  exact ⟨t, run_bind (run_mapError hload _) _⟩

theorem stxos_answers (hs : s.Reliable) (chain : ChainId) (key : String) :
    ∃ t, stxos chain key s = (.ok (s.spent chain key), t) := by
  obtain ⟨t, hload, -⟩ := hs.load? (RecordKey.stxo_holds chain key)
  exact ⟨t, run_bind (run_mapError hload _) _⟩

theorem reserved_answers (hs : s.Reliable) (chain : ChainId) :
    ∃ t, reserved chain s = (.ok (s.reserved chain), t) := by
  obtain ⟨drafts, hscan, -⟩ :=
    hs.form.keyed.scan_drafts (hs.calm _ _) (hs.form.readable chain)
  have hrun : reserved chain s = (.ok _, _) :=
    run_bind (run_mapError (Prod.ext hscan rfl) CustodyError.storage) _
  obtain ⟨hheld, -⟩ := reserved_ok hrun
  exact ⟨_, hheld ▸ hrun⟩

/-- On a store that never fails a deposit is admitted exactly when it is locked to the registered
script, is not known, and can be stored. -/
theorem recordDeposit_answers_iff (hs : s.Reliable) :
    (∃ t, recordDeposit chain key u s = (.ok (), t)) ↔
      (∃ record : RedeemRecord, s.lookup (.redeem chain key) = some record ∧
        (Script.lockKind? record.redeemScript u.scriptPubkey).isSome = true) ∧
      (∀ v ∈ s.spendable chain key ++ s.spent chain key ++ s.reserved chain,
        ¬ v.sameOutpoint u = true) ∧
      fits (s.spendable chain key ++ [u]) = true := by
  constructor
  · rintro ⟨t, h⟩
    have hdeposits := recordDeposit_ok h
    exact ⟨hdeposits.locked, hdeposits.fresh, hdeposits.fits⟩
  · rintro ⟨⟨record, hrecord, hlocked⟩, hfresh, hfits⟩
    have hlock : ¬ (Script.lockKind? record.redeemScript u.scriptPubkey).isNone = true := by
      rwa [Bool.not_eq_true, Option.isNone_eq_false_iff]
    obtain ⟨s₁, hredeem⟩ := redeem_answers hs hrecord
    have h₁ := (redeem_ok hredeem).2
    obtain ⟨s₂, hspendable⟩ := utxos_answers (hs.untouched h₁) chain key
    have h₂ := h₁.trans (utxos_ok hspendable).2
    obtain ⟨s₃, hspent⟩ := stxos_answers (hs.untouched h₂) chain key
    have h₃ := h₂.trans (stxos_ok hspent).2
    obtain ⟨s₄, hheld⟩ := reserved_answers (hs.untouched h₃) chain
    have h₄ := h₃.trans (reserved_ok hheld).2
    rw [h₁.spendable_eq] at hspendable
    rw [h₂.spent_eq] at hspent
    rw [h₃.reserved_eq] at hheld
    obtain ⟨t, hstore⟩ := (hs.untouched h₄).calm.store (.utxo chain key) hfits
    refine ⟨t, ?_⟩
    unfold recordDeposit
    refine (run_bind hredeem _).trans ?_
    refine (run_guard hlock).trans ?_
    refine (run_bind hspendable _).trans ?_
    refine (run_bind hspent _).trans ?_
    refine (run_bind hheld _).trans ?_
    refine (run_guard ?_).trans (run_mapError hstore _)
    rwa [Bool.not_eq_true, List.any_eq_false]

/-! ## Outputs that are taken in -/

/-- An output that custody takes in for a script: a deposit that is admitted under its key, or the
change of a payment that is made under it. -/
inductive TakesIn (record : RedeemRecord) (u : Utxo) : Prop
  /-- It is deposited. -/
  | deposit {chain : ChainId} {key : String} {s t : State}
    (registered : s.lookup (.redeem chain key) = some record)
    (admitted : recordDeposit chain key u s = (.ok (), t))
  /-- It stands behind the wanted outputs of a payment. -/
  | change {config : CustodyConfig} {chain : ChainId} {key : String} {payouts : List Payout}
    {fee : UInt64} {draft : SpendDraft} {tx : Transaction} {s t : State}
    (registered : s.lookup (.redeem chain key) = some record)
    (made : createDraft config chain key payouts fee s = (.ok draft, t))
    (unsigned : Transaction.read draft.unsignedTx = .ok tx)
    (last : tx.outputs[payouts.length]? = some ⟨u.value, u.scriptPubkey⟩)

/-- What is taken in is locked to the script. -/
theorem TakesIn.locked (h : TakesIn record u) :
    ∃ kind, Script.lockKind? record.redeemScript u.scriptPubkey = some kind := by
  refine Option.isSome_iff_exists.mp ?_
  cases h with
  | deposit registered admitted =>
    obtain ⟨found, hfound, hlocked⟩ := (recordDeposit_ok admitted).locked
    cases registered.symm.trans hfound
    exact hlocked
  | @change config _ _ payouts _ _ _ _ _ registered made unsigned last =>
    obtain ⟨found, cost, selection, hdrafts⟩ := createDraft_ok made
    cases registered.symm.trans hdrafts.registered
    cases unsigned.symm.trans hdrafts.pays_unsigned.read
    rw [unsignedTransaction, List.getElem?_append_right (by simp), List.length_map,
      Nat.sub_self] at last
    split at last
    · obtain ⟨-, hscript⟩ := TxOut.mk.inj (Option.some.inj last)
      rw [Script.lockKind?_isSome_iff, ← hscript]
      cases config.lockKind with
      | scriptHash => exact .inl rfl
      | witnessHash => exact .inr rfl
    · cases last

/-- A store that holds nothing but the record of a script. -/
def onlyScript (record : RedeemRecord) : State :=
  (State.initial []).change (.store (.redeem 1 record.redeemKey) record)

theorem onlyScript_reliable (hfits : fits record = true) : (onlyScript record).Reliable := by
  refine ⟨fun _ _ => rfl, ?_⟩
  have hwrites : (State.initial []).Writes (fun _ => True) (onlyScript record) :=
    .change (.store trivial (.redeem record hfits))
  exact hwrites.wellFormed nofun

theorem onlyScript_raw? {name : RecordKey} (h : name ≠ .redeem 1 record.redeemKey) :
    (onlyScript record).raw? name = none :=
  State.raw?_change_of_ne h

theorem onlyScript_spendable (record : RedeemRecord) (chain : ChainId) (key : String) :
    (onlyScript record).spendable chain key = [] := by
  rw [State.spendable, State.lookup_of_raw?_none (onlyScript_raw? (by simp))]
  rfl

theorem onlyScript_spent (record : RedeemRecord) (chain : ChainId) (key : String) :
    (onlyScript record).spent chain key = [] := by
  rw [State.spent, State.lookup_of_raw?_none (onlyScript_raw? (by simp))]
  rfl

theorem onlyScript_reserved (hfits : fits record = true) (chain : ChainId) :
    (onlyScript record).reserved chain = [] := by
  have hscan : (onlyScript record).records.scan
      (keyBytes (onlyScript record).module .draft [.number chain]) = [] := by
    refine List.eq_nil_iff_forall_not_mem.mpr fun e he => ?_
    obtain ⟨txid, -, hraw⟩ := (onlyScript_reliable hfits).form.keyed.mem_scan he
    rw [onlyScript_raw? (by simp)] at hraw
    cases hraw
  rw [State.reserved, State.drafts, hscan]
  rfl

/-- Every output that is locked to a registered script is taken in, and nothing else is. -/
theorem takesIn_iff {script : Bytes} (hparse : Redeem.parse script = .ok record) :
    TakesIn record u ↔ ∃ kind, Script.lockKind? script u.scriptPubkey = some kind := by
  obtain ⟨rfl, -, -⟩ := Redeem.parse_ok hparse
  refine ⟨TakesIn.locked, fun ⟨kind, hkind⟩ => ?_⟩
  have hfits := Redeem.parse_fits hparse
  have hregistered : (onlyScript record).lookup (.redeem 1 record.redeemKey) = some record :=
    State.lookup_change_store hfits
  have hsingle : fits [u] = true := by
    have hone : [u].length < lengthLimit := show 1 < lengthLimit by decide
    refine fits_list_iff.mpr ⟨hone, List.forall_mem_singleton.mpr (fits_bytes_iff.mpr ?_)⟩
    rw [Script.locking_of_lockKind? hkind]
    exact Nat.lt_of_le_of_lt (Script.length_locking_le _ kind) (by decide)
  obtain ⟨t, hadmitted⟩ :
      ∃ t, recordDeposit 1 record.redeemKey u (onlyScript record) = (.ok (), t) := by
    rw [recordDeposit_answers_iff (onlyScript_reliable hfits), onlyScript_spendable,
      onlyScript_spent, onlyScript_reserved hfits]
    exact ⟨⟨record, hregistered, Option.isSome_iff_exists.mpr ⟨kind, hkind⟩⟩, nofun, hsingle⟩
  exact .deposit hregistered hadmitted

end Custody

end BridgeKernel
