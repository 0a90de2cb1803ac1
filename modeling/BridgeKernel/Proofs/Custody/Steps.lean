import BridgeKernel.Custody.Multisig
import BridgeKernel.Proofs.Store.Frame

/-!
# What custody does to its records

Every call of custody that is not refused makes one batch of changes, and a refused one makes none.
The lemmas say what was found in the records before the batch and what the batch holds.
-/

namespace BridgeKernel

open Bitcoin Transition

/-- A record of custody on a chain; collected signatures belong to no chain. -/
def RecordKey.IsCustody (chain : ChainId) : RecordKey → Prop
  | .redeem c _ | .utxo c _ | .stxo c _ | .draft c _ => c = chain
  | .multisig _ => True
  | _ => False

/-- A record of custody on a chain, or the signatures collected for one of some transactions. -/
def RecordKey.CustodyOf (chain : ChainId) (ids : Hash → Prop) : RecordKey → Prop
  | .redeem c _ | .utxo c _ | .stxo c _ | .draft c _ => c = chain
  | .multisig txid => ids txid
  | _ => False

theorem RecordKey.CustodyOf.isCustody {chain : ChainId} {ids : Hash → Prop} {key : RecordKey}
    (h : key.CustodyOf chain ids) : key.IsCustody chain := by
  cases key with
  | redeem | utxo | stxo | draft => exact h
  | multisig => trivial
  | _ => exact h.elim

/-- The signatures collected for all transactions. -/
theorem RecordKey.IsCustody.custodyOf {chain : ChainId} {key : RecordKey}
    (h : key.IsCustody chain) : key.CustodyOf chain fun _ => True := by
  cases key with
  | redeem | utxo | stxo | draft => exact h
  | multisig => trivial
  | _ => exact h.elim

namespace State

/-- The spendable outputs of a custody key. -/
def spendable (s : State) (chain : ChainId) (key : String) : List Utxo :=
  (s.lookup (.utxo chain key)).getD []

/-- The spent outputs of a custody key. -/
def spent (s : State) (chain : ChainId) (key : String) : List Utxo :=
  (s.lookup (.stxo chain key)).getD []

/-- The payments of a chain that wait for signatures. -/
def drafts (s : State) (chain : ChainId) : List SpendDraft :=
  (s.records.scan (keyBytes s.module .draft [.number chain])).filterMap fun e =>
    (Record.decode e.2).toOption

/-- The outputs reserved by the payments of a chain that wait for signatures. -/
def reserved (s : State) (chain : ChainId) : List Utxo := (s.drafts chain).flatMap (·.inputs)

end State

namespace State.Untouched

variable {s t : State} (h : s.Untouched t) (chain : ChainId) (key : String)
include h

theorem spendable_eq : t.spendable chain key = s.spendable chain key := by
  obtain ⟨n, rfl⟩ := h
  rfl

theorem spent_eq : t.spent chain key = s.spent chain key := by
  obtain ⟨n, rfl⟩ := h
  rfl

theorem drafts_eq : t.drafts chain = s.drafts chain := by
  obtain ⟨n, rfl⟩ := h
  rfl

theorem reserved_eq : t.reserved chain = s.reserved chain := by
  obtain ⟨n, rfl⟩ := h
  rfl

end State.Untouched

namespace Custody

variable {chain : ChainId} {key : String} {s t u : State}

/-! ## Reading -/

theorem redeem?_readOnly (chain : ChainId) (key : String) : (redeem? chain key).ReadOnly :=
  .mapError (State.load?_readOnly _) _

theorem redeem_readOnly (chain : ChainId) (key : String) : (redeem chain key).ReadOnly := by
  refine .bind (redeem?_readOnly chain key) fun record? => ?_
  cases record? with
  | none => exact .throw _
  | some record => exact .pure _

theorem redeem_ok {record : RedeemRecord} (h : redeem chain key s = (.ok record, t)) :
    s.lookup (.redeem chain key) = some record ∧ s.Untouched t := by
  refine ⟨?_, (redeem_readOnly chain key).untouched h⟩
  obtain ⟨record?, u, hload, h⟩ := bind_ok h
  obtain ⟨hrecord, -⟩ := State.load?_ok (mapError_ok hload)
  cases record? with
  | none => exact (throw_ok h).elim
  | some record =>
    obtain ⟨rfl, -⟩ := pure_ok h
    exact hrecord.symm

theorem utxos_readOnly (chain : ChainId) (key : String) : (utxos chain key).ReadOnly :=
  .bind (.mapError (State.load?_readOnly _) _) fun _ => .pure _

theorem utxos_ok {found : List Utxo} (h : utxos chain key s = (.ok found, t)) :
    found = s.spendable chain key ∧ s.Untouched t := by
  refine ⟨?_, (utxos_readOnly chain key).untouched h⟩
  obtain ⟨stored, u, hload, h⟩ := bind_ok h
  obtain ⟨rfl, -⟩ := State.load?_ok (mapError_ok hload)
  exact (pure_ok h).1

theorem stxos_readOnly (chain : ChainId) (key : String) : (stxos chain key).ReadOnly :=
  .bind (.mapError (State.load?_readOnly _) _) fun _ => .pure _

theorem stxos_ok {found : List Utxo} (h : stxos chain key s = (.ok found, t)) :
    found = s.spent chain key ∧ s.Untouched t := by
  refine ⟨?_, (stxos_readOnly chain key).untouched h⟩
  obtain ⟨stored, u, hload, h⟩ := bind_ok h
  obtain ⟨rfl, -⟩ := State.load?_ok (mapError_ok hload)
  exact (pure_ok h).1

theorem reserved_readOnly (chain : ChainId) : (reserved chain).ReadOnly :=
  .bind .get fun _ => .bind (.mapError (State.scan_readOnly _) _) fun _ => .pure _

/-- When every pair of a listing can be read, the records read are those that can be read. -/
theorem mapM_decodeAt_ok {α : Type} [Record α] {pairs : List (Bytes × Bytes)}
    {found : List (Bytes × α)}
    (h : (pairs.mapM fun e => do return (e.1, ← State.decodeAt e.1 e.2) :
      Except StorageError (List (Bytes × α))) = .ok found) :
    found.map (·.2) = pairs.filterMap fun e => (Record.decode e.2).toOption := by
  induction pairs generalizing found with
  | nil =>
    cases h
    rfl
  | cons e pairs ih =>
    rw [List.mapM_cons] at h
    cases hd : State.decodeAt (α := α) e.1 e.2 with
    | error cause =>
      rw [hd] at h
      cases h
    | ok a =>
      rw [hd] at h
      cases hrest : (pairs.mapM fun e => do return (e.1, ← State.decodeAt e.1 e.2) :
          Except StorageError (List (Bytes × α))) with
      | error cause =>
        simp only [hrest] at h
        cases h
      | ok rest =>
        simp only [hrest] at h
        cases h
        rw [List.map_cons, ih hrest, List.filterMap_cons, State.decodeAt_ok hd]
        rfl

theorem reserved_ok {held : List Utxo} (h : reserved chain s = (.ok held, t)) :
    held = s.reserved chain ∧ s.Untouched t := by
  refine ⟨?_, (reserved_readOnly chain).untouched h⟩
  obtain ⟨s', u, hget, h⟩ := bind_ok h
  obtain ⟨rfl, rfl⟩ := get_ok hget
  obtain ⟨drafts, u, hscan, h⟩ := bind_ok h
  obtain ⟨rfl, -⟩ := pure_ok h
  obtain ⟨pairs, v, hpairs, hscan⟩ := bind_ok (mapError_ok hscan)
  obtain ⟨rfl, -⟩ := Store.perform_ok (mapError_ok hpairs)
  have hdecoded := mapM_decodeAt_ok (ofExcept_ok hscan).1
  rw [State.reserved, State.drafts, ← hdecoded, List.flatMap_map]

/-! ## Registration and deposits -/

/-- Registering a script stores its record when there is none under its key. -/
theorem register_ok {script : Bytes} (h : register chain script s = (.ok key, t)) :
    s.Untouched t ∨ ∃ record, Redeem.parse script = .ok record ∧ Record.fits record = true ∧
      s.raw? (.redeem chain record.redeemKey) = none ∧
      s.Changed [.store (.redeem chain record.redeemKey) record] t := by
  obtain ⟨record, u, hcheck, h⟩ := bind_ok h
  obtain ⟨hparse, rfl⟩ := ofExcept_ok hcheck
  obtain ⟨found, u, hhas, h⟩ := bind_ok h
  obtain ⟨hfound, hu⟩ := State.has_ok (mapError_ok hhas)
  cases found with
  | true =>
    obtain ⟨-, rfl⟩ := pure_ok h
    exact .inl hu
  | false =>
    obtain ⟨_, v, hstore, h⟩ := bind_ok h
    obtain ⟨-, rfl⟩ := pure_ok h
    obtain ⟨hfits, hchanged⟩ := State.store_changed (mapError_ok hstore)
    rw [eq_comm, Option.isSome_eq_false_iff, Option.isNone_iff_eq_none] at hfound
    exact .inr ⟨record, hparse, hfits, hfound, hu.changed hchanged⟩

theorem register_atomic (chain : ChainId) (script : Bytes) : (register chain script).Atomic := by
  refine .read (.ofExcept _ _) fun record => ?_
  refine .read (.mapError (State.has_readOnly _) _) fun found => ?_
  cases found with
  | true => exact (ReadOnly.pure _).atomic
  | false => exact .andThen (.mapError (State.store_atomic _ _) _) _

/-- What an accepted deposit has found. -/
structure Deposits (chain : ChainId) (key : String) (utxo : Utxo) (s t : State) : Prop where
  /-- The output is locked to the script under the key. -/
  locked : ∃ record : RedeemRecord, s.lookup (.redeem chain key) = some record ∧
    (Script.lockKind? record.redeemScript utxo.scriptPubkey).isSome = true
  /-- The output is not known. -/
  fresh : ∀ u ∈ s.spendable chain key ++ s.spent chain key ++ s.reserved chain,
    ¬ u.sameOutpoint utxo = true
  /-- The longer list can be stored. -/
  fits : Record.fits (s.spendable chain key ++ [utxo]) = true
  /-- The output is spendable afterwards. -/
  changed : s.Changed [.store (.utxo chain key) (s.spendable chain key ++ [utxo])] t

theorem recordDeposit_ok {utxo : Utxo} {x : Unit}
    (h : recordDeposit chain key utxo s = (.ok x, t)) : Deposits chain key utxo s t := by
  obtain ⟨record, u₁, hrecord, h⟩ := bind_ok h
  obtain ⟨hrecord, h₁⟩ := redeem_ok hrecord
  obtain ⟨hlock, h⟩ := guard_ok h
  obtain ⟨spendable, u₂, hspendable, h⟩ := bind_ok h
  obtain ⟨hspendable, h₂⟩ := utxos_ok hspendable
  obtain ⟨spent, u₃, hspent, h⟩ := bind_ok h
  obtain ⟨hspent, h₃⟩ := stxos_ok hspent
  obtain ⟨held, u₄, hheld, h⟩ := bind_ok h
  obtain ⟨hheld, h₄⟩ := reserved_ok hheld
  obtain ⟨hfresh, h⟩ := guard_ok h
  obtain ⟨hfits, hchanged⟩ := State.store_changed (mapError_ok h)
  have h₁₂ := h₁.trans h₂
  have h₁₃ := h₁₂.trans h₃
  rw [h₁.spendable_eq] at hspendable
  rw [h₁₂.spent_eq] at hspent
  rw [h₁₃.reserved_eq] at hheld
  subst hspendable hspent hheld
  refine ⟨⟨record, hrecord, ?_⟩, ?_, hfits, (h₁₃.trans h₄).changed hchanged⟩
  · rwa [Bool.not_eq_true, Option.isNone_eq_false_iff] at hlock
  · rwa [Bool.not_eq_true, List.any_eq_false] at hfresh

theorem recordDeposit_atomic (chain : ChainId) (key : String) (utxo : Utxo) :
    (recordDeposit chain key utxo).Atomic := by
  refine .read (redeem_readOnly chain key) fun record => ?_
  refine .guard ?_
  refine .read (utxos_readOnly chain key) fun spendable => ?_
  refine .read (stxos_readOnly chain key) fun spent => ?_
  refine .read (reserved_readOnly chain) fun held => ?_
  refine .guard ?_
  exact .mapError (State.store_atomic _ _) _

/-! ## Payments -/

/-- What an accepted payment has found. -/
structure Drafts (config : CustodyConfig) (chain : ChainId) (key : String) (payouts : List Payout)
    (fee : UInt64) (record : RedeemRecord) (cost : UInt64) (selection : Selection)
    (draft : SpendDraft) (s t : State) : Prop where
  /-- The script under the key. -/
  registered : s.lookup (.redeem chain key) = some record
  /-- What the payment costs. -/
  costs : required config payouts fee = .ok cost
  /-- The outputs that are picked. -/
  selected : Selection.largestFirst (s.spendable chain key) cost = some selection
  /-- They are not too many. -/
  few : selection.chosen.length ≤ config.maxInputs
  /-- The payment made of them. -/
  made : draft = draftOf config record key selection payouts cost fee
  /-- The payment can be stored. -/
  fits : Record.fits draft = true
  /-- The remaining outputs can be stored. -/
  fitsRemaining : Record.fits selection.remaining = true
  /-- The picked outputs are reserved and the others stay spendable. -/
  changed : s.Changed [.store (.draft chain draft.txid) draft,
    .store (.utxo chain key) selection.remaining] t

theorem createDraft_ok {config : CustodyConfig} {payouts : List Payout} {fee : UInt64}
    {draft : SpendDraft} (h : createDraft config chain key payouts fee s = (.ok draft, t)) :
    ∃ record cost selection,
      Drafts config chain key payouts fee record cost selection draft s t := by
  obtain ⟨record, u₁, hrecord, h⟩ := bind_ok h
  obtain ⟨hrecord, h₁⟩ := redeem_ok hrecord
  obtain ⟨cost, u₂, hcheck, h⟩ := bind_ok h
  obtain ⟨hcost, rfl⟩ := ofExcept_ok hcheck
  obtain ⟨spendable, u₂, hspendable, h⟩ := bind_ok h
  obtain ⟨hspendable, h₂⟩ := utxos_ok hspendable
  cases hselected : Selection.largestFirst spendable cost with
  | none =>
    rw [hselected] at h
    exact (throw_ok h).elim
  | some selection =>
    rw [hselected] at h
    obtain ⟨hfew, h⟩ := guard_ok h
    obtain ⟨_, u₃, hcommit, h⟩ := bind_ok h
    obtain ⟨rfl, rfl⟩ := pure_ok h
    obtain ⟨hf₁, hcommit⟩ := State.writeAbout_bind (mapError_ok hcommit)
    obtain ⟨hf₂, hcommit⟩ := State.writeAbout_bind hcommit
    rw [hspendable, h₁.spendable_eq] at hselected
    have hfew := Nat.not_lt.mp hfew
    have h₁₂ := h₁.trans h₂
    exact ⟨record, cost, selection, hrecord, hcost, hselected, hfew, rfl, hf₁, hf₂,
      h₁₂.changed (State.commit_changed hcommit)⟩

theorem createDraft_atomic (config : CustodyConfig) (chain : ChainId) (key : String)
    (payouts : List Payout) (fee : UInt64) :
    (createDraft config chain key payouts fee).Atomic := by
  refine .read (redeem_readOnly chain key) fun record => ?_
  refine .read (.ofExcept _ _) fun cost => ?_
  refine .read (utxos_readOnly chain key) fun spendable => ?_
  cases Selection.largestFirst spendable cost with
  | none => exact (ReadOnly.throw _).atomic
  | some selection =>
    refine .guard ?_
    refine .andThen (.mapError ?_ _) _
    refine .read (State.writeAbout_readOnly _ _) fun _ => ?_
    exact .read (State.writeAbout_readOnly _ _) fun _ => State.commit_atomic _

/-! ## Signatures -/

/-- The collection with which a payment starts, and then the ones before it. -/
def collectionOf (begun : Option SignatureCollection) (draft : SpendDraft) (txid : Hash)
    (signer : Custodian) (signatures : List Bytes) : SignatureCollection :=
  let collection := begun.getD (.start txid draft.redeemKey)
  { collection with signatures := collection.signatures.insert signer signatures }

/-- What an accepted contribution of a custodian has found. -/
structure Contributes (chain : ChainId) (signer : Custodian) (txid : Hash)
    (signatures : List Bytes) (draft : SpendDraft) (record : RedeemRecord) (tx : Transaction)
    (collection : SignatureCollection) (s : State) : Prop where
  /-- The payment waits for signatures. -/
  waiting : s.lookup (.draft chain txid) = some draft
  /-- The script of its custody key. -/
  registered : s.lookup (.redeem chain draft.redeemKey) = some record
  /-- The signer is a custodian, and its signatures are good ones for the inputs. -/
  checked : ∃ position, record.position? signer = some position ∧
    checkSignatures tx record (record.publicKeys.getD position []) 0 draft.inputs signatures =
      .ok ()
  /-- There is a signature for each input. -/
  count : signatures.length = draft.inputs.length
  /-- The unsigned transaction. -/
  read : Transaction.read draft.unsignedTx = .ok tx
  /-- The signatures are added to those collected so far. -/
  collected : ∃ begun, s.lookup (.multisig txid) = begun ∧
    (∀ c, begun = some c → c.isFinalized = false ∧ c.signatures.contains signer = false) ∧
    collection = collectionOf begun draft txid signer signatures

/-- The changes that close a payment. -/
def closingChanges (chain : ChainId) (draft : SpendDraft) (signed : Transaction)
    (collection : SignatureCollection) (spendable spent : List Utxo) : List Change :=
  [.store (.multisig draft.txid)
      { collection with status := .finalized signed.write signed.txid },
    .store (.utxo chain draft.redeemKey) spendable, .store (.stxo chain draft.redeemKey) spent,
    .remove (.draft chain draft.txid)]

/-- How a payment is closed with a signed transaction. -/
structure Closes (chain : ChainId) (draft : SpendDraft) (record : RedeemRecord)
    (tx signed : Transaction) (collection : SignatureCollection) (s t : State) : Prop where
  /-- The transaction is unlocked by the signatures collected. -/
  assembled : Assembly.assemble tx draft.inputs record.redeemScript (inKeyOrder record collection) =
    .ok signed
  /-- The closed collection can be stored. -/
  fits : Record.fits
    { collection with status := .finalized signed.write signed.txid } = true
  /-- The spendable outputs can be stored. -/
  fitsSpendable : Record.fits (((s.spendable chain draft.redeemKey).filter fun u =>
    !draft.inputs.any (·.sameOutpoint u)) ++ returned record.redeemScript signed) = true
  /-- The spent outputs can be stored. -/
  fitsSpent : Record.fits (s.spent chain draft.redeemKey ++ draft.inputs) = true
  /-- All is stored at once. -/
  changed : s.Changed (closingChanges chain draft signed collection
    (((s.spendable chain draft.redeemKey).filter fun u => !draft.inputs.any (·.sameOutpoint u)) ++
      returned record.redeemScript signed) (s.spent chain draft.redeemKey ++ draft.inputs)) t

theorem Closes.of_untouched {draft : SpendDraft} {record : RedeemRecord}
    {tx signed : Transaction} {collection : SignatureCollection} (hu : s.Untouched u)
    (h : Closes chain draft record tx signed collection u t) :
    Closes chain draft record tx signed collection s t := by
  obtain ⟨hassembled, hfits, hspendable, hspent, hchanged⟩ := h
  rw [hu.spendable_eq] at hspendable hchanged
  rw [hu.spent_eq] at hspent hchanged
  exact ⟨hassembled, hfits, hspendable, hspent, hu.changed hchanged⟩

theorem openCollection_readOnly (signer : Custodian) (txid : Hash) :
    (openCollection signer txid).ReadOnly := by
  refine .bind (.mapError (State.load?_readOnly _) _) fun found => ?_
  cases found with
  | none => exact .pure _
  | some collection =>
    refine .guard ?_
    refine .guard ?_
    exact .pure _

theorem openCollection_ok {signer : Custodian} {txid : Hash}
    {begun : Option SignatureCollection} (h : openCollection signer txid s = (.ok begun, t)) :
    s.lookup (.multisig txid) = begun ∧
      ∀ c, begun = some c → c.isFinalized = false ∧ c.signatures.contains signer = false := by
  obtain ⟨found, u, hload, h⟩ := bind_ok h
  obtain ⟨hfound, -⟩ := State.load?_ok (mapError_ok hload)
  cases found with
  | none =>
    obtain ⟨rfl, -⟩ := pure_ok h
    exact ⟨hfound.symm, nofun⟩
  | some collection =>
    obtain ⟨hopen, h⟩ := guard_ok h
    obtain ⟨hnew, h⟩ := guard_ok h
    obtain ⟨rfl, -⟩ := pure_ok h
    refine ⟨hfound.symm, fun c hc => ?_⟩
    cases hc
    exact ⟨Bool.not_eq_true _ ▸ hopen, Bool.not_eq_true _ ▸ hnew⟩

/-- A payment that was closed was closed in one batch. -/
theorem finalize_ok {tx : Transaction} {draft : SpendDraft} {record : RedeemRecord}
    {collection : SignatureCollection} {outcome : SigningOutcome}
    (h : finalize chain tx draft record collection s = (.ok outcome, t)) :
    ∃ signed, outcome = .finalized signed.write signed.txid ∧
      Closes chain draft record tx signed collection s t := by
  obtain ⟨signed, u₁, hcheck, h⟩ := bind_ok h
  obtain ⟨hsigned, rfl⟩ := ofExcept_ok hcheck
  obtain ⟨spendable, u₁, hspendable, h⟩ := bind_ok h
  obtain ⟨hspendable, h₁⟩ := utxos_ok hspendable
  obtain ⟨spent, u₂, hspent, h⟩ := bind_ok h
  obtain ⟨hspent, h₂⟩ := stxos_ok hspent
  obtain ⟨_, u₃, hcommit, h⟩ := bind_ok h
  obtain ⟨rfl, rfl⟩ := pure_ok h
  obtain ⟨hf₁, hcommit⟩ := State.writeAbout_bind (mapError_ok hcommit)
  obtain ⟨hf₂, hcommit⟩ := State.writeAbout_bind hcommit
  obtain ⟨hf₃, hcommit⟩ := State.writeAbout_bind hcommit
  have hcommit := State.deleteAbout_bind hcommit
  rw [h₁.spent_eq] at hspent
  subst hspendable hspent
  exact ⟨signed, rfl, hsigned, hf₁, hf₂, hf₃, (h₁.trans h₂).changed (State.commit_changed hcommit)⟩

theorem finalize_atomic (chain : ChainId) (tx : Transaction) (draft : SpendDraft)
    (record : RedeemRecord) (collection : SignatureCollection) :
    (finalize chain tx draft record collection).Atomic := by
  refine .read (.ofExcept _ _) fun signed => ?_
  refine .read (utxos_readOnly _ _) fun spendable => ?_
  refine .read (stxos_readOnly _ _) fun spent => ?_
  refine .andThen (.mapError ?_ _) _
  refine .read (State.writeAbout_readOnly _ _) fun _ => ?_
  refine .read (State.writeAbout_readOnly _ _) fun _ => ?_
  refine .read (State.writeAbout_readOnly _ _) fun _ => ?_
  exact .read (State.deleteAbout_readOnly _) fun _ => State.commit_atomic _

/-- A contribution is recorded, or closes its payment when enough custodians have signed. -/
theorem addSignature_ok {signer : Custodian} {txid : Hash} {signatures : List Bytes}
    {outcome : SigningOutcome}
    (h : addSignature chain signer txid signatures s = (.ok outcome, t)) :
    ∃ draft record tx collection,
      Contributes chain signer txid signatures draft record tx collection s ∧
      ((collection.signerCount < record.required.toNat ∧
          outcome = .collecting collection.signerCount record.required ∧
          Record.fits collection = true ∧
          s.Changed [.store (.multisig txid) collection] t) ∨
        (record.required.toNat ≤ collection.signerCount ∧ ∃ signed,
          outcome = .finalized signed.write signed.txid ∧
          Closes chain draft record tx signed collection s t)) := by
  obtain ⟨begun, u₁, hbegun, h⟩ := bind_ok h
  have h₁ := (openCollection_readOnly signer txid).untouched hbegun
  obtain ⟨draft?, u₂, hload, h⟩ := bind_ok h
  obtain ⟨hdraft, h₂⟩ := State.load?_ok (mapError_ok hload)
  cases draft? with
  | none => exact (throw_ok h).elim
  | some draft =>
    obtain ⟨record, u₃, hrecord, h⟩ := bind_ok h
    obtain ⟨hrecord, h₃⟩ := redeem_ok hrecord
    cases hposition : record.position? signer with
    | none =>
      rw [hposition] at h
      exact (throw_ok h).elim
    | some position =>
      rw [hposition] at h
      obtain ⟨hcount, h⟩ := guard_ok h
      obtain ⟨tx, u₄, hcheck, h⟩ := bind_ok h
      obtain ⟨hread, rfl⟩ := ofExcept_ok hcheck
      obtain ⟨_, u₄, hcheck, h⟩ := bind_ok h
      obtain ⟨hchecked, rfl⟩ := ofExcept_ok hcheck
      have h₁₂ := h₁.trans h₂
      have h₁₃ := h₁₂.trans h₃
      rw [h₁.lookup_eq] at hdraft
      rw [h₁₂.lookup_eq] at hrecord
      obtain ⟨hopen, hnew⟩ := openCollection_ok hbegun
      have hcount := Decidable.not_not.mp hcount
      have hcontributes : Contributes chain signer txid signatures draft record tx
          (collectionOf begun draft txid signer signatures) s :=
        ⟨hdraft.symm, hrecord, ⟨position, hposition, hchecked⟩, hcount, hread, begun, hopen, hnew,
          rfl⟩
      refine ⟨draft, record, tx, _, hcontributes, ?_⟩
      change (if (collectionOf begun draft txid signer signatures).signerCount <
        record.required.toNat then _ else _ : Transition CustodyError SigningOutcome) _ = _ at h
      split at h
      · next hfewer =>
        obtain ⟨_, u₄, hstore, h⟩ := bind_ok h
        obtain ⟨rfl, rfl⟩ := pure_ok h
        obtain ⟨hfits, hchanged⟩ := State.store_changed (mapError_ok hstore)
        exact .inl ⟨hfewer, rfl, hfits, h₁₃.changed hchanged⟩
      · next henough =>
        obtain ⟨signed, rfl, hcloses⟩ := finalize_ok h
        exact .inr ⟨Nat.not_lt.mp henough, signed, rfl, hcloses.of_untouched h₁₃⟩

theorem addSignature_atomic (chain : ChainId) (signer : Custodian) (txid : Hash)
    (signatures : List Bytes) : (addSignature chain signer txid signatures).Atomic := by
  refine .read (openCollection_readOnly signer txid) fun begun => ?_
  refine .read (.mapError (State.load?_readOnly _) _) fun draft? => ?_
  cases draft? with
  | none => exact (ReadOnly.throw _).atomic
  | some draft =>
    refine .read (redeem_readOnly chain _) fun record => ?_
    cases record.position? signer with
    | none => exact (ReadOnly.throw _).atomic
    | some position =>
      refine .guard ?_
      refine .read (.ofExcept _ _) fun tx => ?_
      refine .read (.ofExcept _ _) fun _ => ?_
      change (if _ then _ else _ : Transition CustodyError SigningOutcome).Atomic
      split
      · exact .andThen (.mapError (State.store_atomic _ _) _) _
      · exact finalize_atomic _ _ _ _ _

/-! ## Nothing but records of custody is written -/

variable {ids : Hash → Prop}

theorem register_within (chain : ChainId) (script : Bytes) :
    (register chain script).Within (RecordKey.CustodyOf chain ids) := by
  refine .of_atomic (register_atomic chain script) fun s key t h => ?_
  rcases register_ok h with hu | ⟨record, -, hfits, -, hchanged⟩
  · exact .of_untouched hu
  · exact hchanged.writes_one (.store rfl (.redeem _ hfits))

theorem recordDeposit_within (chain : ChainId) (key : String) (utxo : Utxo) :
    (recordDeposit chain key utxo).Within (RecordKey.CustodyOf chain ids) := by
  refine .of_atomic (recordDeposit_atomic chain key utxo) fun s _ t h => ?_
  obtain ⟨-, -, hfits, hchanged⟩ := recordDeposit_ok h
  exact hchanged.writes_one (.store rfl (.utxo _ hfits))

theorem createDraft_within (config : CustodyConfig) (chain : ChainId) (key : String)
    (payouts : List Payout) (fee : UInt64) :
    (createDraft config chain key payouts fee).Within (RecordKey.CustodyOf chain ids) := by
  refine .of_atomic (createDraft_atomic config chain key payouts fee) fun s draft t h => ?_
  obtain ⟨record, cost, selection, hdrafts⟩ := createDraft_ok h
  refine hdrafts.changed.writes (List.forall_mem_cons.mpr ⟨?_, List.forall_mem_singleton.mpr ?_⟩)
  · exact .store rfl (.draft _ hdrafts.fits)
  · exact .store rfl (.utxo _ hdrafts.fitsRemaining)

theorem Closes.writes {draft : SpendDraft} {record : RedeemRecord} {tx signed : Transaction}
    {collection : SignatureCollection} (h : Closes chain draft record tx signed collection s t)
    (hid : ids draft.txid) : s.Writes (RecordKey.CustodyOf chain ids) t := by
  refine h.changed.writes ?_
  simp only [closingChanges, List.forall_mem_cons]
  exact ⟨.store hid (.multisig _ h.fits), .store rfl (.utxo _ h.fitsSpendable),
    .store rfl (.stxo _ h.fitsSpent), .remove rfl, nofun⟩

/-- Signatures are written for the transaction that the call names, and, when they close its
payment, for the transaction that the payment names. -/
theorem addSignature_writes {signer : Custodian} {txid : Hash} {signatures : List Bytes}
    (hid : ids txid)
    (hdraft : ∀ draft : SpendDraft, s.lookup (.draft chain txid) = some draft → ids draft.txid) :
    s.Writes (RecordKey.CustodyOf chain ids) (addSignature chain signer txid signatures s).2 := by
  rcases hr : addSignature chain signer txid signatures s with ⟨e | outcome, t⟩
  · exact .of_untouched (addSignature_atomic chain signer txid signatures _ _ _ hr)
  · obtain ⟨draft, record, tx, collection, hfound, hcollects | ⟨-, signed, -, hcloses⟩⟩ :=
      addSignature_ok hr
    · obtain ⟨-, -, hfits, hchanged⟩ := hcollects
      exact hchanged.writes_one (.store hid (.multisig _ hfits))
    · exact hcloses.writes (hdraft draft hfound.waiting)

end Custody

end BridgeKernel
