import BridgeKernel.Proofs.Header.Isolation
import BridgeKernel.Proofs.Header.Progress

/-!
# Headers in one call and in several

A batch reads the sets known from governance once, and then takes in its headers one after another,
each against what the ones before it have stored. A call for each header reads these sets again and
finds the same, for nothing of a beginning is ever written again. So the calls up to the first refused
header leave the same store and, summed, the same counts. Headers that are stored already are counted
and leave no trace.
-/

namespace BridgeKernel

open Transition

/-! ## The answers of several calls -/

/-- What a batch brought and then another one: the counts are added, and the height and the refusal
are those of the later one. -/
def BatchOutcome.andThen (first later : BatchOutcome) : BatchOutcome where
  report :=
    { accepted := first.report.accepted + later.report.accepted
      skipped := first.report.skipped + later.report.skipped
      reorgs := first.report.reorgs + later.report.reorgs
      canonicalHeight := later.report.canonicalHeight }
  rejected := later.rejected

/-- What batches brought one after another, from a canonical height on. -/
def BatchOutcome.total (level : UInt64) (outcomes : List BatchOutcome) : BatchOutcome :=
  outcomes.foldl andThen ⟨⟨0, 0, 0, level⟩, none⟩

/-- What a call with one header answers by what became of the header. -/
def HeaderFate.outcome (level : UInt64) : HeaderFate → BatchOutcome
  | .known => ⟨⟨0, 1, 0, level⟩, none⟩
  | .rejected cause => ⟨⟨0, 0, 0, level⟩, some cause⟩
  | .accepted reorg => ⟨⟨1, 0, if reorg then 1 else 0, level⟩, none⟩

namespace HeaderFate

theorem outcome_rejected (fate : HeaderFate) (level : UInt64) :
    (fate.outcome level).rejected = fate.refusal? := by
  cases fate <;> rfl

/-- A header that was not refused adds its share to a report. -/
theorem andThen_outcome (fate : HeaderFate) (hgo : fate.refusal? = none) {report : SyncReport}
    {level found : UInt64} :
    BatchOutcome.andThen ⟨{ report with canonicalHeight := level }, none⟩ (fate.outcome found) =
      ⟨{ report.count fate with canonicalHeight := found }, none⟩ := by
  cases fate with
  | rejected cause => cases hgo
  | known | accepted => rfl

end HeaderFate

/-- Two states on reliable stores with the same records. -/
abbrev State.Matches (s t : State) : Prop := s.Twins (fun _ => True) t

namespace LightClient

/-- Brings headers in order, each by a call of its own, up to the first refused one. -/
def syncEach (config : HeaderSyncConfig) (ctx : BlockContext) (chain : ChainId) :
    List Header → Transition HeaderError (List BatchOutcome)
  | [] => pure []
  | header :: rest => do
    let outcome ← syncBatch config ctx chain [header]
    match outcome.rejected with
    | some _ => return [outcome]
    | none => return outcome :: (← syncEach config ctx chain rest)

end LightClient

/-! ## What goes on through calls -/

/-- A chain has begun, with its sets from governance, and has a canonical height. -/
structure ChainMemory.Underway (m : ChainMemory) (record : GenesisRecord) (g : GenesisEpochs) :
    Prop where
  /-- It has begun. -/
  began : m.Began record g
  /-- It has a height. -/
  height : ∃ level, m.height? = some level

namespace LightClient

variable {config : HeaderSyncConfig} {ctx : BlockContext} {chain : ChainId} {s t u v : State}
  {record : GenesisRecord} {g : GenesisEpochs} {header : Header} {level : UInt64}

/-- A step leaves no chain with a genesis and without a height. -/
theorem Step.height_of_genesis {P : Header → Prop} (h : Step P config chain s t)
    (hs : ∀ record, (s.memory chain).genesis? = some record →
      ∃ level, (s.memory chain).height? = some level)
    (record : GenesisRecord) (ht : (t.memory chain).genesis? = some record) :
    ∃ level, (t.memory chain).height? = some level := by
  cases h with
  | quiet h =>
    rw [h.memory_eq] at ht ⊢
    exact hs record ht
  | began _ _ _ begins =>
    rw [begins.changed.memory_eq,
      memory_genesisChanges begins.fits begins.fitsPrior begins.fitsCurrent]
    exact ⟨_, rfl⟩
  | @grew _ _ _ _ _ _ update? _ _ _ _ atTip _ fits changed =>
    obtain ⟨level, -, hlevel, -⟩ := atTip
    rw [changed.memory_eq, memory_headerChanges fits]
    cases update? with
    | none => exact ⟨level, hlevel⟩
    | some update => exact ⟨update.newHeight, rfl⟩

/-- A chain that is underway stays so. -/
theorem Step.underway {P : Header → Prop} (h : Step P config chain s t)
    (hs : (s.memory chain).Underway record g) : (t.memory chain).Underway record g := by
  have hbegan := hs.began.extends (h.extends hs.began.genesis)
  exact ⟨hbegan, h.height_of_genesis (fun _ _ => hs.height) record hbegan.genesis⟩

/-- The height is read at the end of a batch. -/
theorem finish_run (hs : s.Reliable) (hlevel : (s.memory chain).height? = some level)
    (outcome : BatchOutcome) :
    ∃ t, finish chain outcome s =
        (.ok { outcome with report := { outcome.report with canonicalHeight := level } }, t) ∧
      s.Untouched t := by
  obtain ⟨t, hload, ht⟩ := hs.load? (RecordKey.height_holds chain)
  have hlevel' : s.lookup (.height chain) = some level := hlevel
  rw [hlevel'] at hload
  exact ⟨t, run_bind (run_mapError hload HeaderError.storage) _, ht⟩

/-! ## One header -/

/-- What a batch of one header counts. -/
theorem submitAll_singleton (config : HeaderSyncConfig) (ctx : BlockContext) (chain : ChainId)
    (g : GenesisEpochs) (header : Header) :
    submitAll config ctx chain g [header] ⟨0, 0, 0, 0⟩ =
      submit config ctx chain g header >>= fun fate => pure (fate.outcome 0) := by
  refine congrArg (submit config ctx chain g header >>= ·) (funext fun fate => ?_)
  cases fate with
  | known | rejected => rfl
  | accepted reorg => cases reorg <;> rfl

/-- On a store with the same records a call reads the same sets and takes a header in alike. -/
theorem submit_matches (config : HeaderSyncConfig) (ctx : BlockContext) (header : Header)
    (h : s.Matches t) (hs : (s.memory chain).Underway record g) :
    ∃ u w, genesisEpochs chain t = (.ok g, u) ∧
      submit config ctx chain g header u = ((submit config ctx chain g header s).1, w) ∧
      (submit config ctx chain g header s).2.Matches w := by
  have hmemory : t.memory chain = s.memory chain := h.agree.memory_eq fun _ _ => trivial
  obtain ⟨u, hgenesis⟩ := genesisEpochs_answer h.second (hmemory ▸ hs.began)
  have hu := (genesisEpochs_reading chain).untouched hgenesis
  have huniform : (submit config ctx chain g header).Uniform fun _ => True :=
    submit_uniform (fun _ _ => trivial) config ctx g header
  obtain ⟨hanswer, hends⟩ := huniform s u (h.untouched (.refl s) hu)
  refine ⟨u, (submit config ctx chain g header u).2, hgenesis, ?_, hends⟩
  rw [← hanswer]
  exact Prod.mk.eta.symm

/-- A call with one header is refused when taking the header in is. -/
theorem syncBatch_singleton_error {e : HeaderError} (h : s.Matches t)
    (hs : (s.memory chain).Underway record g) (hroom : [header].length ≤ config.maxBatchSize)
    (hsubmit : submit config ctx chain g header s = (.error e, v)) :
    ∃ w, syncBatch config ctx chain [header] t = (.error e, w) ∧ v.Matches w := by
  obtain ⟨u, w, hgenesis, hrun, hends⟩ := submit_matches config ctx header h hs
  rw [hsubmit] at hrun hends
  refine ⟨w, ?_, hends⟩
  rw [syncBatch_of_le ctx chain hroom, run_bind hgenesis, submitAll_singleton, bind_run, bind_run,
    hrun]

/-- A call with one header answers by what became of the header. -/
theorem syncBatch_singleton_ok {fate : HeaderFate} (h : s.Matches t)
    (hs : (s.memory chain).Underway record g) (hroom : [header].length ≤ config.maxBatchSize)
    (hsubmit : submit config ctx chain g header s = (.ok fate, v)) :
    ∃ level w, (v.memory chain).height? = some level ∧
      syncBatch config ctx chain [header] t = (.ok (fate.outcome level), w) ∧ v.Matches w := by
  obtain ⟨u, w, hgenesis, hrun, hends⟩ := submit_matches config ctx header h hs
  have hstep : Step (fun _ => True) config chain s (submit config ctx chain g header s).2 :=
    submit_step config ctx trivial hs.began
  rw [hsubmit] at hrun hends hstep
  obtain ⟨level, hlevel⟩ := (hstep.underway hs).height
  have hmemory : w.memory chain = v.memory chain := hends.agree.memory_eq fun _ _ => trivial
  obtain ⟨x, hfinish, hx⟩ := finish_run hends.second (hmemory ▸ hlevel) (fate.outcome 0)
  refine ⟨level, x, hlevel, ?_, hends.untouched (.refl v) hx⟩
  have hone : submitAll config ctx chain g [header] ⟨0, 0, 0, 0⟩ u = (.ok (fate.outcome 0), w) := by
    rw [submitAll_singleton]
    exact run_bind hrun _
  rw [syncBatch_of_le ctx chain hroom, run_bind hgenesis, run_bind hone, hfinish]
  cases fate <;> rfl

/-! ## Headers one after another -/

/-- Calls go on after one that did not refuse its header. -/
theorem syncEach_go {outcome : BatchOutcome} {rest : List Header}
    (hcall : syncBatch config ctx chain [header] t = (.ok outcome, v))
    (hgo : outcome.rejected = none) :
    syncEach config ctx chain (header :: rest) t =
      ((syncEach config ctx chain rest v).1.map (outcome :: ·),
        (syncEach config ctx chain rest v).2) := by
  rw [syncEach, run_bind hcall, hgo]
  dsimp only
  rw [bind_run]
  rcases syncEach config ctx chain rest v with ⟨e | outcomes, w⟩ <;> rfl

/-- Calls end with one that refused its header. -/
theorem syncEach_stop {outcome : BatchOutcome} {cause : HeaderError} {rest : List Header}
    (hcall : syncBatch config ctx chain [header] t = (.ok outcome, v))
    (hstop : outcome.rejected = some cause) :
    syncEach config ctx chain (header :: rest) t = (.ok [outcome], v) := by
  rw [syncEach, run_bind hcall, hstop]
  rfl

/-- What a batch answers is what calls bring in all on top of an outcome, and the states that both
leave match. -/
structure Sums (start : BatchOutcome) (batch : Except HeaderError BatchOutcome × State)
    (calls : Except HeaderError (List BatchOutcome) × State) : Prop where
  /-- The answers. -/
  answer : batch.1 = calls.1.map (·.foldl .andThen start)
  /-- The states. -/
  ends : batch.2.Matches calls.2

/-- A call that did not refuse its header brings its share, and the others add theirs. -/
theorem Sums.cons {start outcome : BatchOutcome} {rest : List Header}
    {batch : Except HeaderError BatchOutcome × State}
    (hcall : syncBatch config ctx chain [header] t = (.ok outcome, v))
    (hgo : outcome.rejected = none)
    (h : Sums (start.andThen outcome) batch (syncEach config ctx chain rest v)) :
    Sums start batch (syncEach config ctx chain (header :: rest) t) := by
  rw [syncEach_go hcall hgo]
  refine ⟨?_, h.ends⟩
  rw [h.answer]
  cases (syncEach config ctx chain rest v).1 <;> rfl

/-- Headers in one batch and each by a call of its own leave the same store, and the batch answers
what the calls bring on top of its report. -/
theorem submitAll_sums {headers : List Header} (report : SyncReport) (h : s.Matches t)
    (hs : (s.memory chain).Underway record g) (hlevel : (s.memory chain).height? = some level)
    (hroom : headers.length ≤ config.maxBatchSize) :
    Sums ⟨{ report with canonicalHeight := level }, none⟩
      ((submitAll config ctx chain g headers report >>= finish chain) s)
      (syncEach config ctx chain headers t) := by
  -- the states before each header stay matched: the one in the middle of the batch, and the one
  -- between two calls, which has read the height and the sets once more
  induction headers generalizing s t level report with
  | nil =>
    obtain ⟨x, hfinish, hx⟩ := finish_run h.first hlevel ⟨report, none⟩
    have hrun : (submitAll config ctx chain g [] report >>= finish chain) s = _ := hfinish
    rw [hrun]
    exact ⟨rfl, h.untouched hx (.refl t)⟩
  | cons header rest ih =>
    have hone : [header].length ≤ config.maxBatchSize :=
      (Nat.succ_le_succ (Nat.zero_le rest.length)).trans hroom
    have hrest : rest.length ≤ config.maxBatchSize := (Nat.le_succ _).trans hroom
    have hstep : Step (fun _ => True) config chain s (submit config ctx chain g header s).2 :=
      submit_step config ctx trivial hs.began
    rcases hsubmit : submit config ctx chain g header s with ⟨e | fate, v⟩
    · obtain ⟨w, hcall, hends⟩ := syncBatch_singleton_error h hs hone hsubmit
      rw [bind_run, submitAll_break hsubmit, syncEach, bind_run, hcall]
      exact ⟨rfl, hends⟩
    rw [hsubmit] at hstep
    obtain ⟨found, w, hfound, hcall, hends⟩ := syncBatch_singleton_ok h hs hone hsubmit
    cases hstop : fate.refusal? with
    | some cause =>
      obtain ⟨x, hfinish, hx⟩ := finish_run hends.first hfound ⟨report, some cause⟩
      rw [syncEach_stop hcall ((fate.outcome_rejected found).trans hstop),
        run_bind (submitAll_stop hsubmit hstop rest report), hfinish]
      refine ⟨?_, hends.untouched hx (.refl w)⟩
      cases fate with
      | rejected cause =>
        cases hstop
        rfl
      | known | accepted => cases hstop
    | none =>
      have hnext := ih (report.count fate) hends (hstep.underway hs) hfound hrest
      refine .cons hcall ((fate.outcome_rejected found).trans hstop) ?_
      rw [bind_run] at hnext ⊢
      rwa [fate.andThen_outcome hstop, submitAll_go hsubmit hstop]

/-- A batch that is not too large leaves the store that a call for each header would, and its report
is what these calls bring in all. -/
theorem syncBatch_eq_syncEach {headers : List Header} (ctx : BlockContext) (hs : s.Reliable)
    (hm : (s.memory chain).Underway record g) (hlevel : (s.memory chain).height? = some level)
    (hroom : headers.length ≤ config.maxBatchSize) :
    (syncBatch config ctx chain headers s).1 =
        (syncEach config ctx chain headers s).1.map (BatchOutcome.total level) ∧
      (syncBatch config ctx chain headers s).2.records =
        (syncEach config ctx chain headers s).2.records := by
  obtain ⟨u, hgenesis⟩ := genesisEpochs_answer hs hm.began
  have hu := (genesisEpochs_reading chain).untouched hgenesis
  have hmatches : u.Matches s := (State.Twins.refl hs).untouched hu (.refl s)
  rw [← hu.memory_eq] at hm hlevel
  obtain ⟨hanswer, hends⟩ := submitAll_sums ⟨0, 0, 0, 0⟩ hmatches hm hlevel hroom
  rw [syncBatch_of_le ctx chain hroom, run_bind hgenesis]
  exact ⟨hanswer, hends.records_eq.symm⟩

/-! ## Batches that come to a report -/

/-- Low headers that fit are taken in up to a refused one. -/
theorem submitAll_succeeds (config : HeaderSyncConfig) (ctx : BlockContext) {headers : List Header}
    (report : SyncReport) (hs : s.Reliable) (hbegan : (s.memory chain).Began record g)
    (hsound : (s.memory chain).Sound) (hlow : ∀ header ∈ headers, header.Low)
    (hfits : ∀ header ∈ headers, Record.fits header = true) :
    (submitAll config ctx chain g headers report).Succeeds s := by
  induction headers generalizing s report with
  | nil => exact .pure _
  | cons header rest ih =>
    obtain ⟨hlowFirst, hlowRest⟩ := List.forall_mem_cons.mp hlow
    obtain ⟨hfitsFirst, hfitsRest⟩ := List.forall_mem_cons.mp hfits
    obtain ⟨tip, htree, hc⟩ := hsound.canonical hbegan.genesis
    refine .bind (submit_succeeds config ctx g hs htree hc hfitsFirst) fun fate t hrun => ?_
    have hstep : Step Header.Low config chain s (submit config ctx chain g header s).2 :=
      submit_step config ctx hlowFirst hbegan
    rw [hrun] at hstep
    have hnext (report : SyncReport) := ih report (hs.writes hstep.writes)
      (hbegan.extends (hstep.extends hbegan.genesis)) (hstep.sound hsound) hlowRest hfitsRest
    cases fate with
    | rejected cause => exact .pure _
    | known | accepted => exact hnext _

/-- A batch of low headers that fit comes to a report. -/
theorem syncBatch_succeeds {headers : List Header} (ctx : BlockContext) (hs : s.Reliable)
    (hm : (s.memory chain).Underway record g) (hsound : (s.memory chain).Sound)
    (hroom : headers.length ≤ config.maxBatchSize) (hlow : ∀ header ∈ headers, header.Low)
    (hfits : ∀ header ∈ headers, Record.fits header = true) :
    (syncBatch config ctx chain headers).Succeeds s := by
  obtain ⟨u, hgenesis⟩ := genesisEpochs_answer hs hm.began
  have hu := (genesisEpochs_reading chain).untouched hgenesis
  rw [← hu.memory_eq] at hm hsound
  obtain ⟨outcome, v, hall⟩ := submitAll_succeeds config ctx ⟨0, 0, 0, 0⟩ (hs.untouched hu) hm.began
    hsound hlow hfits
  have hsteps : Steps Header.Low config chain u
      (submitAll config ctx chain g headers ⟨0, 0, 0, 0⟩ u).2 :=
    submitAll_steps config ctx hlow _ hm.began
  rw [hall] at hsteps
  have hlast : (v.memory chain).Underway record g :=
    hsteps.preserves (I := fun s => (s.memory chain).Underway record g)
      (fun _ _ hstep hs => hstep.underway hs) hm
  obtain ⟨level, hlevel⟩ := hlast.height
  have hv : v.Reliable := (hs.untouched hu).writes hsteps.writes
  obtain ⟨t, hfinish, -⟩ := finish_run hv hlevel outcome
  rw [syncBatch_of_le ctx chain hroom]
  exact ⟨_, t, (run_bind hgenesis _).trans ((run_bind hall _).trans hfinish)⟩

/-! ## Headers that are stored already -/

/-- Headers that are stored are skipped. -/
theorem submitAll_stored (config : HeaderSyncConfig) (ctx : BlockContext) (g : GenesisEpochs)
    {headers : List Header} (report : SyncReport) (hs : s.Reliable)
    (hstored : ∀ header ∈ headers, ((s.memory chain).header? header.hash).isSome = true) :
    ∃ t, submitAll config ctx chain g headers report s =
        (.ok ⟨{ report with skipped := report.skipped + headers.length }, none⟩, t) ∧
      s.Untouched t := by
  induction headers generalizing s report with
  | nil => exact ⟨s, rfl, .refl s⟩
  | cons header rest ih =>
    obtain ⟨hfirst, hrest⟩ := List.forall_mem_cons.mp hstored
    obtain ⟨u, hhas⟩ := hs.calm.has (.header chain header.hash)
    rw [hs.form.header_isSome, hfirst] at hhas
    have hu := (State.has_ok hhas).2
    have hasked : isStored chain header s = (.ok true, u) := run_mapError hhas _
    have hknown : submit config ctx chain g header s = (.ok .known, u) := by
      rw [submit_eq]
      exact takeIn_iff.mpr (.known hasked)
    rw [← hu.memory_eq] at hrest
    obtain ⟨t, hrun, ht⟩ := ih (report.count .known) (hs.untouched hu) hrest
    refine ⟨t, ?_, hu.trans ht⟩
    rw [submitAll_go hknown rfl, hrun, SyncReport.count, List.length_cons, Nat.add_assoc,
      Nat.add_comm 1]

/-- A batch of stored headers counts each as skipped and leaves no trace. -/
theorem syncBatch_stored {headers : List Header} (ctx : BlockContext) (hs : s.Reliable)
    (hm : (s.memory chain).Underway record g) (hlevel : (s.memory chain).height? = some level)
    (hroom : headers.length ≤ config.maxBatchSize)
    (hstored : ∀ header ∈ headers, ((s.memory chain).header? header.hash).isSome = true) :
    ∃ t, syncBatch config ctx chain headers s =
        (.ok ⟨⟨0, headers.length, 0, level⟩, none⟩, t) ∧ s.Untouched t := by
  obtain ⟨u, hgenesis⟩ := genesisEpochs_answer hs hm.began
  have hu := (genesisEpochs_reading chain).untouched hgenesis
  rw [← hu.memory_eq] at hstored hlevel
  obtain ⟨v, hall, hv⟩ := submitAll_stored config ctx g ⟨0, 0, 0, 0⟩ (hs.untouched hu) hstored
  rw [← hv.memory_eq] at hlevel
  obtain ⟨t, hfinish, ht⟩ := finish_run (hs.untouched (hu.trans hv)) hlevel
    ⟨⟨0, 0 + headers.length, 0, 0⟩, none⟩
  refine ⟨t, ?_, (hu.trans hv).trans ht⟩
  rw [syncBatch_of_le ctx chain hroom, run_bind hgenesis, run_bind hall, hfinish, Nat.zero_add]

/-- So do any batches of stored headers. -/
theorem syncBatches_stored {batches : List (BlockContext × List Header)} (hs : s.Reliable)
    (hm : (s.memory chain).Underway record g) (hlevel : (s.memory chain).height? = some level)
    (hroom : ∀ batch ∈ batches, batch.2.length ≤ config.maxBatchSize)
    (hstored : ∀ batch ∈ batches, ∀ header ∈ batch.2,
      ((s.memory chain).header? header.hash).isSome = true) :
    ∃ t, batches.mapM (fun batch => syncBatch config batch.1 chain batch.2) s =
        (.ok (batches.map fun batch => ⟨⟨0, batch.2.length, 0, level⟩, none⟩), t) ∧
      s.Untouched t := by
  induction batches generalizing s with
  | nil => exact ⟨s, rfl, .refl s⟩
  | cons batch rest ih =>
    obtain ⟨hroom', hroomRest⟩ := List.forall_mem_cons.mp hroom
    obtain ⟨hstored', hstoredRest⟩ := List.forall_mem_cons.mp hstored
    obtain ⟨u, hfirst, hu⟩ := syncBatch_stored batch.1 hs hm hlevel hroom' hstored'
    rw [← hu.memory_eq] at hm hlevel hstoredRest
    obtain ⟨t, hrest, ht⟩ := ih (hs.untouched hu) hm hlevel hroomRest hstoredRest
    refine ⟨t, ?_, hu.trans ht⟩
    rw [List.mapM_cons, run_bind hfirst, run_bind hrest]
    rfl

end LightClient

end BridgeKernel
