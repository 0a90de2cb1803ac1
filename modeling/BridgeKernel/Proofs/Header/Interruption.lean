import BridgeKernel.Proofs.Header.Sync
import BridgeKernel.Proofs.Store.Calm

/-!
# Batches stopped by a failure

A batch of headers may be stopped at any of its headers, by a refusal or by a failure of the store
at any operation. What it leaves is what the headers before the stop bring, each taken in whole, and
a store that never fails comes to the same records from these headers alone.
-/

namespace BridgeKernel

open Transition

namespace LightClient

variable {chain : ChainId} {s t u : State} {config : HeaderSyncConfig} {ctx : BlockContext}

/-- A header is stored as on a store that never fails. -/
theorem storeHeader_steadfast (chain : ChainId) (trusted : TrustedHeader) :
    (storeHeader chain trusted).Steadfast := by
  refine .bind (canonicalTip_reading chain).steadfast fun tip => ?_
  refine .bind (.mapError (State.writeAbout_steadfast _ _) _) fun write => ?_
  refine .get (fun _ => rfl) fun s => ?_
  refine .bind (ChainView.planUpdate_reading s chain trusted tip).steadfast fun update? => ?_
  have hcommit (writes : List Write) (reorg : Bool) :
      ((State.commit writes).mapError HeaderError.storage >>= fun _ => pure reorg).Steadfast :=
    .bind (.mapError (State.commit_steadfast _) _) fun _ => .pure _
  cases update? with
  | none => exact .bind (.pure _) fun _ => hcommit _ _
  | some update =>
    exact .bind (.mapError (updateWrites_reading chain update).steadfast _) fun _ => hcommit _ _

/-! ## Headers taken in whole -/

/-- One header has been taken in whole. -/
inductive Takes (config : HeaderSyncConfig) (chain : ChainId) (header : Header) (s : State) :
    State → Prop
  /-- It was stored already, and nothing is changed. -/
  | known {t : State} (stored : (s.raw? (.header chain header.hash)).isSome = true)
    (h : s.Untouched t) : Takes config chain header s t
  /-- It is verified, and stored together with the markers and the height that move with it. -/
  | grew {t : State} {record : GenesisRecord} {g : GenesisEpochs}
    {trusted parent tip : TrustedHeader} {pair : EpochPair} {update? : Option CanonicalUpdate}
    (same : trusted.header = header) (begun : (s.memory chain).Began record g)
    (fresh : s.raw? (.header chain trusted.hash) = none)
    (verified : Verified config chain g s trusted parent pair)
    (atTip : (s.memory chain).Tip tip) (plans : (s.memory chain).Plans trusted tip update?)
    (fits : Record.fits trusted = true)
    (changed : s.Changed (headerChanges chain trusted update?) t) : Takes config chain header s t

/-- Headers have been taken in whole, one after another. -/
inductive TakesAll (config : HeaderSyncConfig) (chain : ChainId) :
    List Header → State → State → Prop
  /-- There was none, and nothing is changed. -/
  | nil {s t : State} (h : s.Untouched t) : TakesAll config chain [] s t
  /-- One was taken in, and then the others. -/
  | cons {s t u : State} {header : Header} {rest : List Header}
    (first : Takes config chain header s t) (next : TakesAll config chain rest t u) :
    TakesAll config chain (header :: rest) s u

/-- A header taken in is a step of its chain. -/
theorem Takes.step {header : Header} (h : Takes config chain header s t) :
    Step (· = header) config chain s t := by
  cases h with
  | known _ h => exact .quiet h
  | grew same begun fresh verified atTip plans fits changed =>
    exact .grew same begun fresh verified atTip plans fits changed

theorem Takes.of_untouched {header : Header} (hu : s.Untouched u)
    (h : Takes config chain header u t) : Takes config chain header s t := by
  cases h with
  | known stored h =>
    rw [hu.raw?_eq] at stored
    exact .known stored (hu.trans h)
  | grew same begun fresh verified atTip plans fits changed =>
    rw [hu.memory_eq] at begun atTip plans
    rw [hu.raw?_eq] at fresh
    exact .grew same begun fresh (verified.of_untouched hu) atTip plans fits (hu.changed changed)

theorem TakesAll.of_untouched {headers : List Header} (hu : s.Untouched u)
    (h : TakesAll config chain headers u t) : TakesAll config chain headers s t := by
  cases h with
  | nil h => exact .nil (hu.trans h)
  | cons first next => exact .cons (first.of_untouched hu) next

theorem TakesAll.untouched {headers : List Header} (h : TakesAll config chain headers s t)
    (hu : t.Untouched u) : TakesAll config chain headers s u := by
  induction h with
  | nil h => exact .nil (h.trans hu)
  | cons first _ ih => exact .cons first (ih hu)

/-! ## Batches -/

/-- A header is taken in whole, as it is on a store that never fails, or nothing is changed. -/
theorem submit_takes {record : GenesisRecord} {g : GenesisEpochs} {header : Header}
    {r : Except HeaderError HeaderFate} (hs : (s.memory chain).Began record g)
    (h : submit config ctx chain g header s = (r, t)) :
    (s.Untouched t ∧ ((∃ e, r = .error e) ∨ ∃ cause, r = .ok (.rejected cause))) ∨
    (submit config ctx chain g header s.calmed = (r, t.calmed) ∧
      Takes config chain header s t ∧ (r = .ok .known ∨ ∃ reorg, r = .ok (.accepted reorg))) := by
  have hasks := isStored_reading chain header
  have hreads := verifyHeader_reading config ctx chain g header
  rw [submit_eq] at h ⊢
  cases takeIn_iff.mp h with
  | unanswered asked => exact .inl ⟨hasks.untouched asked, .inl ⟨_, rfl⟩⟩
  | rejected asked refused =>
    exact .inl ⟨(hasks.untouched asked).trans (hreads.untouched refused), .inr ⟨_, rfl⟩⟩
  | failed asked verified stored =>
    have hv := (hasks.untouched asked).trans (hreads.untouched verified)
    exact .inl ⟨hv.trans (storeHeader_atomic chain _ _ _ _ stored), .inl ⟨_, rfl⟩⟩
  | known asked =>
    obtain ⟨hstored, hu⟩ := State.has_ok (mapError_ok asked)
    refine .inr ⟨takeIn_iff.mpr (.known ?_), .known hstored.symm hu, .inl rfl⟩
    exact hasks.steadfast _ _ _ asked
  | @accepted u v _ trusted reorg asked verified stored =>
    obtain ⟨hv, rfl, hfresh, parent, pair, hverified⟩ := verified_of_new asked verified
    obtain ⟨tip, update?, htip, hplans, hfits, hchanged⟩ := storeHeader_ok stored
    rw [hv.memory_eq] at htip hplans
    have hverify := hreads.steadfast _ _ _ verified
    have hstore := storeHeader_steadfast chain trusted _ _ _ stored
    exact .inr ⟨takeIn_iff.mpr (.accepted (hasks.steadfast _ _ _ asked) hverify hstore),
      .grew rfl hs hfresh hverified htip hplans hfits (hv.changed hchanged), .inr ⟨reorg, rfl⟩⟩

/-- Taking in headers stops after some of them, each taken in whole, as they all are on a store that
never fails. -/
theorem submitAll_takes {record : GenesisRecord} {g : GenesisEpochs} {headers : List Header}
    {report : SyncReport} {r : Except HeaderError BatchOutcome}
    (hs : (s.memory chain).Began record g)
    (h : submitAll config ctx chain g headers report s = (r, t)) :
    ∃ k, k ≤ headers.length ∧ TakesAll config chain (headers.take k) s t ∧
      (∃ outcome, ∃ u : State, submitAll config ctx chain g (headers.take k) report s.calmed =
        (.ok outcome, u.calmed) ∧ u.Untouched t) ∧
      ∀ outcome, r = .ok outcome →
        outcome.report.accepted + outcome.report.skipped =
          report.accepted + report.skipped + k ∧
        (outcome.rejected = none ↔ k = headers.length) := by
  induction headers generalizing s report with
  | nil =>
    cases h
    refine ⟨0, Nat.le_refl 0, .nil (.refl _), ⟨_, _, rfl, .refl _⟩, fun outcome hr => ?_⟩
    cases hr
    exact ⟨rfl, iff_of_true rfl rfl⟩
  | cons header rest ih =>
    rcases hone : submit config ctx chain g header s with ⟨r', u⟩
    rcases submit_takes hs hone with ⟨hu, hstop⟩ | ⟨hcalm, htakes, hfate⟩
    · -- the batch stops before this header
      refine ⟨0, Nat.zero_le _, ?_⟩
      rcases hstop with ⟨e, rfl⟩ | ⟨cause, rfl⟩
      · rw [submitAll_break hone] at h
        cases h
        exact ⟨.nil hu, ⟨_, s, rfl, hu⟩, nofun⟩
      · rw [submitAll_stop hone rfl] at h
        cases h
        refine ⟨.nil hu, ⟨_, s, rfl, hu⟩, fun outcome hr => ?_⟩
        cases hr
        exact ⟨rfl, iff_of_false (Option.some_ne_none _) (Nat.succ_ne_zero _).symm⟩
    · obtain ⟨fate, rfl, hgo, hcount⟩ : ∃ fate, r' = .ok fate ∧ fate.refusal? = none ∧
          (report.count fate).accepted + (report.count fate).skipped =
            report.accepted + report.skipped + 1 := by
        rcases hfate with rfl | ⟨reorg, rfl⟩
        · exact ⟨_, rfl, rfl, (Nat.add_assoc _ _ _).symm⟩
        · exact ⟨_, rfl, rfl, Nat.add_right_comm _ _ _⟩
      rw [submitAll_go hone hgo] at h
      obtain ⟨k, hk, htaken, ⟨outcome', v, hrun, hv⟩, hanswer⟩ :=
        ih (hs.extends (htakes.step.extends hs.genesis)) h
      refine ⟨k + 1, Nat.succ_le_succ hk, .cons htakes htaken, ⟨outcome', v, ?_, hv⟩, ?_⟩
      · rw [List.take_succ_cons, submitAll_go hcalm hgo, hrun]
      · intro outcome hr
        obtain ⟨hsum, hnone⟩ := hanswer outcome hr
        refine ⟨by omega, ?_⟩
        rw [hnone, List.length_cons, Nat.add_right_cancel_iff]

/-- A batch that stopped after `k` of its headers. -/
structure StopsAfter (config : HeaderSyncConfig) (ctx : BlockContext) (chain : ChainId)
    (headers : List Header) (s : State) (answer : Except HeaderError BatchOutcome) (t : State)
    (k : Nat) : Prop where
  /-- There are as many headers. -/
  within : k ≤ headers.length
  /-- Each of them was taken in whole, and nothing else is changed. -/
  taken : TakesAll config chain (headers.take k) s t
  /-- The batch of these headers brings the same records to a store that never fails. -/
  same : (syncBatch config ctx chain (headers.take k) s.calmed).2.records = t.records
  /-- The report counts these headers. -/
  counted : ∀ outcome, answer = .ok outcome →
    outcome.report.accepted + outcome.report.skipped = k
  /-- A report without a refused header is of all headers, and no other is. -/
  complete : ∀ outcome, answer = .ok outcome → (outcome.rejected = none ↔ k = headers.length)

/-- A batch that was refused before its first header. -/
private theorem StopsAfter.refused {headers : List Header} {e : HeaderError} (h : s.Untouched t) :
    StopsAfter config ctx chain headers s (.error e) t 0 := by
  refine ⟨Nat.zero_le _, .nil h, ?_, nofun, nofun⟩
  have hread : (syncBatch config ctx chain []).ReadOnly := by
    rw [syncBatch_of_le ctx chain (Nat.zero_le _)]
    refine .bind (genesisEpochs_reading chain).readOnly fun g => ?_
    exact .bind (.pure _) fun outcome => finish_readOnly chain outcome
  exact (hread s.calmed).records_eq.trans h.records_eq.symm

/-- A batch leaves what the headers before its stop bring, each taken in whole, as the batch of
these headers does on a store that never fails. -/
theorem syncBatch_stopsAfter {headers : List Header} {answer : Except HeaderError BatchOutcome}
    (h : syncBatch config ctx chain headers s = (answer, t)) :
    ∃ k, StopsAfter config ctx chain headers s answer t k := by
  by_cases hsize : headers.length ≤ config.maxBatchSize
  case neg =>
    rw [syncBatch_of_lt ctx chain (Nat.lt_of_not_le hsize)] at h
    cases h
    exact ⟨0, .refused (.refl s)⟩
  rw [syncBatch_of_le ctx chain hsize, bind_run] at h
  rcases hg : genesisEpochs chain s with ⟨e | g, u⟩ <;> rw [hg] at h
  · cases h
    exact ⟨0, .refused ((genesisEpochs_reading chain).untouched hg)⟩
  have hu := (genesisEpochs_reading chain).untouched hg
  obtain ⟨record, hbegun⟩ := genesisEpochs_ok hg
  rw [← hu.memory_eq] at hbegun
  dsimp only at h
  rw [bind_run] at h
  rcases hall : submitAll config ctx chain g headers ⟨0, 0, 0, 0⟩ u with ⟨answer', v⟩
  obtain ⟨k, hk, htaken, ⟨outcome', w, hrun, hw⟩, hanswer⟩ := submitAll_takes hbegun hall
  rw [hall] at h
  have hsame : (syncBatch config ctx chain (headers.take k) s.calmed).2.records = v.records := by
    have hfits : (headers.take k).length ≤ config.maxBatchSize := by
      rw [List.length_take]
      omega
    rw [syncBatch_of_le ctx chain hfits, bind_run,
      (genesisEpochs_reading chain).steadfast s u g hg]
    dsimp only
    rw [bind_run, hrun]
    exact (finish_readOnly chain outcome' w.calmed).records_eq.trans hw.records_eq.symm
  rcases answer' with e | outcome
  · cases h
    exact ⟨k, hk, htaken.of_untouched hu, hsame, nofun, nofun⟩
  obtain ⟨hcount, hnone⟩ := hanswer outcome rfl
  have hend := (finish_readOnly chain outcome).untouched h
  refine ⟨k, hk, (htaken.of_untouched hu).untouched hend, hsame.trans hend.records_eq.symm,
    fun told htold => ?_, fun told htold => ?_⟩
  · subst htold
    obtain ⟨-, haccepted, hskipped⟩ := finish_ok h
    rw [haccepted, hskipped, hcount]
    exact Nat.zero_add k
  · subst htold
    obtain ⟨hrejected, -, -⟩ := finish_ok h
    rw [hrejected, hnone]

end LightClient

end BridgeKernel
