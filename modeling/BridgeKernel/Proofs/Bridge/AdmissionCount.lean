import BridgeKernel.Proofs.Bridge.Admission
import BridgeKernel.Proofs.Bridge.Counting
import BridgeKernel.Proofs.Bridge.CustodyIsolation
import BridgeKernel.Proofs.Custody.Journal

/-!
# Counted admissions and completed payments

A mark is set by the answer that is counted as an admission and by nothing else, and a payment is
closed by the answer that is counted as its completion. Neither record is ever taken back: a marked
id is not marked again, and no more signatures are taken for a closed payment. So both counts are
those of the store, whatever operations of the store fail.
-/

namespace BridgeKernel

namespace State

variable {s t : State}

/-- The ids that are marked as applied. -/
def marks (s : State) : Set (ChainId × Bytes) := {m | (s.raw? (.applied m.1 m.2)).isSome = true}

/-- The transactions for which the collected signatures are stored as complete. -/
def completed (s : State) : Set Hash :=
  {txid | ∃ c : SignatureCollection, s.lookup (.multisig txid) = some c ∧ c.isFinalized = true}

theorem WellFormed.mem_marks (hs : s.WellFormed) (chain : ChainId) (id : Bytes) :
    (chain, id) ∈ s.marks ↔ s.mark? chain id ≠ none := by
  change (s.raw? (.applied chain id)).isSome = true ↔ _
  rw [hs.mark_isSome, Option.isSome_iff_ne_none]

/-- Where the same signatures are collected, the same payments are complete. -/
theorem completed_congr
    (h : ∀ txid, t.lookup (α := SignatureCollection) (.multisig txid) = s.lookup (.multisig txid)) :
    t.completed = s.completed := by
  unfold completed
  simp only [h]

/-- What moves no collected signatures completes no payment. -/
theorem Writes.completed_eq {P : RecordKey → Prop} (h : s.Writes P t)
    (hP : ∀ txid, ¬ P (.multisig txid)) : t.completed = s.completed :=
  completed_congr fun txid => h.lookup_eq (hP txid)

end State

/-! ## Admissions -/

/-- A proposal counts an admission when it is answered with an instruction. -/
theorem Bridge.propose_counts_admitted (config : BridgeConfig) (ctx : BlockContext)
    (sideChain? : SideChainLookup) (epochAt : EpochLookup) (chain : ChainId)
    (claim : DepositClaim) (bridge : Bridge) :
    (propose config ctx sideChain? epochAt chain claim bridge).2.counters.admitted.total =
      bridge.counters.admitted.total +
        if (BridgeEntry.admission? ⟨⟨config, .propose ctx sideChain? epochAt chain claim⟩,
          (propose config ctx sideChain? epochAt chain claim bridge).1⟩).isSome then 1 else 0 := by
  rcases propose_answer config ctx sideChain? epochAt chain claim bridge with
    ⟨e, -, hrefused⟩ | ⟨source, answer, t, -, -, hanswer⟩
  · rw [hrefused]
    rfl
  · rw [hanswer]
    rcases answer with e | (_ | i)
    · exact congrArg KindCounts.total (bridge.counters.afterClaim_error _ _).1
    · rfl
    · exact KindCounts.total_bump _ _

namespace BridgeRequest

variable {request : BridgeRequest} {bridge : Bridge}

/-- One admission is counted for a call that admitted an instruction, and none for any other. -/
theorem perform_counts_admitted (request : BridgeRequest) (bridge : Bridge) :
    (request.perform bridge).2.counters.admitted.total = bridge.counters.admitted.total +
      if (BridgeEntry.admission? ⟨request, (request.perform bridge).1⟩).isSome then 1 else 0 := by
  obtain ⟨config, op⟩ := request
  cases op with
  | propose ctx sideChain? epochAt chain claim =>
    exact Bridge.propose_counts_admitted config ctx sideChain? epochAt chain claim bridge
  | syncBatch ctx chain headers =>
    exact congrArg KindCounts.total (bridge.counters.afterBatch_admitted _)
  | syncHeaders ctx chain headers =>
    change (Bridge.syncHeaders config ctx chain headers bridge).2.counters.admitted.total = _
    rw [Bridge.syncHeaders_bridge]
    exact congrArg KindCounts.total (bridge.counters.afterBatch_admitted _)
  | addSignature chain signer txid signatures =>
    exact congrArg KindCounts.total (bridge.counters.afterSigning_admitted _)
  | _ => rfl

/-- A call counts an admission when it sets a mark. -/
theorem perform_marks_accounts (hs : bridge.state.WellFormed) :
    Bridge.Accounts (·.admitted.total) State.marks 0 0 bridge (request.perform bridge).2 := by
  have ht := (request.perform_writes bridge).wellFormed hs
  have hcount := request.perform_counts_admitted bridge
  have hmarks := request.perform_marks bridge
  generalize (request.perform bridge).2 = after at ht hcount hmarks ⊢
  generalize hentry : BridgeEntry.mk request (request.perform bridge).1 = e at hcount hmarks
  cases hadmission : e.admission? with
  | none =>
    refine .quiet (Set.ext ?_) ?_
    · rintro ⟨chain, id⟩
      have hnone : e.admittedAt? chain id = none := by
        rw [BridgeEntry.admittedAt?, hadmission]
      rw [ht.mem_marks, hs.mem_marks]
      rcases hmarks chain id with ⟨height, hsome, -, -⟩ | ⟨-, hsame⟩
      · exact nomatch hnone.symm.trans hsome
      · rw [hsame]
    · rw [hcount, hadmission]
      rfl
  | some admission =>
    obtain ⟨ctx, i⟩ := admission
    have hadmitted (chain : ChainId) (id : Bytes) : e.admittedAt? chain id =
        if i.sourceChain = chain ∧ i.crossChainId = id then some ctx.height else none := by
      rw [BridgeEntry.admittedAt?, hadmission]
    have hself := hmarks i.sourceChain i.crossChainId
    rw [BridgeEntry.Marks, hadmitted, if_pos ⟨rfl, rfl⟩] at hself
    obtain ⟨height, -, hbefore, hafter⟩ : ∃ height, _ ∧ _ ∧ _ :=
      hself.resolve_right fun h => nomatch h.1
    refine .stored (a := (i.sourceChain, i.crossChainId)) (Set.ext ?_) ?_ ?_
    · rintro ⟨chain, id⟩
      rw [Set.mem_insert_iff, ht.mem_marks, hs.mem_marks]
      by_cases hi : i.sourceChain = chain ∧ i.crossChainId = id
      · obtain ⟨rfl, rfl⟩ := hi
        rw [hafter]
        simp
      · have hother := hmarks chain id
        rw [BridgeEntry.Marks, hadmitted, if_neg hi] at hother
        have hsame : after.state.mark? chain id = bridge.state.mark? chain id := by
          rcases hother with ⟨_, hsome, -⟩ | ⟨-, hsame⟩
          · exact nomatch hsome
          · exact hsame
        have hne : (chain, id) ≠ (i.sourceChain, i.crossChainId) := by
          rintro ⟨⟩
          exact hi ⟨rfl, rfl⟩
        rw [hsame, or_iff_right hne]
    · rw [hs.mem_marks]
      exact not_not_intro hbefore
    · rw [hcount, hadmission]
      rfl

end BridgeRequest

/-! ## Completed payments -/

namespace Custody

variable {chain : ChainId} {signer : Custodian} {txid : Hash} {signatures : List Bytes}
  {s t : State}

/-- Signatures taken for a transaction find it incomplete. -/
theorem Contributes.incomplete {draft : SpendDraft} {record : RedeemRecord}
    {tx : Bitcoin.Transaction} {collection : SignatureCollection}
    (h : Contributes chain signer txid signatures draft record tx collection s) :
    txid ∉ s.completed ∧ collection.isFinalized = false := by
  obtain ⟨begun, hbegun, hopen, rfl⟩ := h.collected
  constructor
  · rintro ⟨c, hc, hfinal⟩
    have hcollecting := (hopen c (hbegun.symm.trans hc)).1
    exact nomatch hcollecting.symm.trans hfinal
  · cases begun with
    | none => rfl
    | some c => exact (hopen c rfl).1

/-- Signatures that complete a payment add its transaction to the complete ones, and others add
nothing. -/
theorem addSignature_completed {outcome : SigningOutcome}
    (h : addSignature chain signer txid signatures s = (.ok outcome, t))
    (hnamed : s.DraftsNamed chain) :
    ((∃ count required, outcome = .collecting count required) ∧ t.completed = s.completed) ∨
      (∃ bytes final, outcome = .finalized bytes final) ∧ txid ∉ s.completed ∧
        t.completed = insert txid s.completed := by
  obtain ⟨draft, record, tx, collection, hcontributes, houtcome⟩ := addSignature_ok h
  obtain ⟨hnew, hopen⟩ := hcontributes.incomplete
  rcases houtcome with ⟨-, rfl, hfits, hchanged⟩ | ⟨-, signed, rfl, hcloses⟩
  · refine .inl ⟨⟨_, _, rfl⟩, Set.ext fun id => ?_⟩
    by_cases hid : id = txid
    · subst hid
      refine iff_of_false ?_ hnew
      rintro ⟨c, hc, hfinal⟩
      obtain rfl := Option.some.inj ((hchanged.lookup_store hfits).symm.trans hc)
      exact nomatch hopen.symm.trans hfinal
    · have hsame : t.lookup (α := SignatureCollection) (.multisig id) = s.lookup (.multisig id) :=
        hchanged.lookup_of_ne (by simpa using hid)
      change (∃ _, _) ↔ ∃ _, _
      rw [hsame]
  · have hname := hnamed txid draft hcontributes.waiting
    subst hname
    refine .inr ⟨⟨_, _, rfl⟩, hnew, Set.ext fun id => ?_⟩
    rw [Set.mem_insert_iff]
    by_cases hid : id = draft.txid
    · exact iff_of_true ⟨_, hid ▸ hcloses.collection_self, rfl⟩ (.inl hid)
    · rw [or_iff_right hid]
      change (∃ _, _) ↔ ∃ _, _
      rw [hcloses.collection_of_ne hid]

end Custody

namespace BridgeRequest

variable {request : BridgeRequest} {bridge : Bridge}

/-- A call counts a completed payment when it completes one. -/
theorem perform_completed_accounts (hnamed : ∀ chain, bridge.state.DraftsNamed chain) :
    Bridge.Accounts (·.finalized) State.completed 0 0 bridge (request.perform bridge).2 := by
  -- A call of custody that takes no signatures moves none.
  have hcustody {chain : ChainId}
      (hwrites : bridge.state.Writes (RecordKey.CustodyOf chain fun _ => False)
        (request.perform bridge).2.state) :
      (request.perform bridge).2.state.completed = bridge.state.completed :=
    hwrites.completed_eq fun txid h => h
  -- A call that is not about custody moves none either.
  have hother (hchain : request.op.custodyChain? = none) :
      (request.perform bridge).2.state.completed = bridge.state.completed := by
    obtain ⟨Q, hwrites, hspared⟩ : ∃ Q, bridge.state.Writes Q (request.perform bridge).2.state ∧
        ∀ key, Q key → ¬ key.CustodyOf 0 fun _ => True := perform_spares hchain bridge
    exact hwrites.completed_eq fun txid hQ => hspared _ hQ trivial
  obtain ⟨config, op⟩ := request
  cases op with
  | addSignature chain signer txid signatures =>
    change Bridge.Accounts _ _ 0 0 bridge
      (Bridge.addSignature chain signer txid signatures bridge).2
    unfold Bridge.addSignature Bridge.counting
    rw [Transition.mapError_run]
    rcases hr : Custody.addSignature chain signer txid signatures bridge.state with ⟨e | outcome, t⟩
    · have hu := Custody.addSignature_atomic chain signer txid signatures _ _ _ hr
      exact .quiet (State.completed_congr fun txid => hu.lookup_eq _) rfl
    · rcases Custody.addSignature_completed hr (hnamed chain) with
        ⟨⟨_, _, rfl⟩, hsame⟩ | ⟨⟨_, _, rfl⟩, hnew, hinsert⟩
      · exact .quiet hsame rfl
      · exact .stored hinsert hnew rfl
  | registerRedeem chain script =>
    exact .quiet (hcustody (Bridge.call_writes (Custody.register_within chain script) _ bridge)) rfl
  | recordDeposit chain key utxo =>
    exact .quiet
      (hcustody (Bridge.call_writes (Custody.recordDeposit_within chain key utxo) _ bridge)) rfl
  | createDraft chain key payouts fee =>
    exact .quiet (hcustody (Bridge.call_writes
      (Custody.createDraft_within config.custody chain key payouts fee) _ bridge)) rfl
  | propose ctx sideChain? epochAt chain claim =>
    exact .quiet (hother rfl) (Bridge.propose_count Counters.afterClaim_finalized config ctx
      sideChain? epochAt chain claim bridge)
  | syncBatch ctx chain headers =>
    exact .quiet (hother rfl) (bridge.counters.afterBatch_finalized _)
  | syncHeaders ctx chain headers =>
    refine .quiet (hother rfl) ?_
    change (Bridge.syncHeaders config ctx chain headers bridge).2.counters.finalized = _
    rw [Bridge.syncHeaders_bridge]
    exact bridge.counters.afterBatch_finalized _
  | isApplied | syncGenesis | installCommittee | rotateCommittee => exact .quiet (hother rfl) rfl

end BridgeRequest

namespace Bridge

/-- Over every run from an empty store, whatever its operations do, the admissions counted on the
way are as many as the marks that are stored in the end, and the completed payments counted are as
many as the transactions whose collected signatures are stored as complete. -/
theorem admissions_and_completions_counted (module : Bytes)
    (faults : Nat → StoreOp → Option StoreFault) (counters : Counters)
    (requests : List BridgeRequest) :
    ((run requests (opened module faults counters)).2.counters.admitted.total : ENat) =
        counters.admitted.total + (after requests (opened module faults counters)).marks.encard ∧
      ((run requests (opened module faults counters)).2.counters.finalized : ENat) =
        counters.finalized + (after requests (opened module faults counters)).completed.encard := by
  have hform : (opened module faults counters).state.WellFormed :=
    wellFormed_after [] module faults
  have hnamed (chain : ChainId) : (opened module faults counters).state.DraftsNamed chain :=
    show (empty module faults).state.DraftsNamed chain from draftsNamed_after [] chain
  have hmarks : (opened module faults counters).state.marks = ∅ :=
    Set.eq_empty_of_forall_notMem fun m hm => nomatch hm
  have hcompleted : (opened module faults counters).state.completed = ∅ :=
    Set.eq_empty_of_forall_notMem fun txid hc => nomatch hc.choose_spec.1
  obtain ⟨admitted, hmarked, hadmitted⟩ := run_counts
    (fun request b hb => (request.perform_writes b).wellFormed hb)
    (fun _ _ => BridgeRequest.perform_marks_accounts) requests hform hmarks
  obtain ⟨finalized, hclosed, hfinalized⟩ := run_counts (I := fun s => ∀ chain, s.DraftsNamed chain)
    (fun _ _ => BridgeRequest.perform_draftsNamed)
    (fun _ _ => BridgeRequest.perform_completed_accounts) requests hnamed hcompleted
  rw [totalOver_zero, Nat.add_zero, Nat.add_zero] at hadmitted hfinalized
  rw [hmarked, hclosed]
  exact ⟨mod_cast hadmitted, mod_cast hfinalized⟩

end Bridge

end BridgeKernel
