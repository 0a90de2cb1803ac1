import BridgeKernel.Proofs.Header.Steps
import Mathlib.Logic.Relation

/-!
# Batches of headers as steps of a chain

Storing a verified header is one step of its chain. A batch is a sequence of such steps, whether it
comes to its end or is stopped by a refused header or a failure of the store.
-/

namespace BridgeKernel

open Transition

/-- What became of a header, as it counts in a report. -/
def SyncReport.count (report : SyncReport) : HeaderFate → SyncReport
  | .known => { report with skipped := report.skipped + 1 }
  | .rejected _ => report
  | .accepted reorg =>
    { report with
      accepted := report.accepted + 1
      reorgs := report.reorgs + if reorg then 1 else 0 }

/-- Why a header was refused, if it was. -/
def HeaderFate.refusal? : HeaderFate → Option HeaderError
  | .rejected cause => some cause
  | _ => none

namespace LightClient

variable {chain : ChainId} {s t u : State}

/-! ## Storing a header -/

/-- A stored header has been written in one batch with the markers that were planned for it, and the
answer is whether markers were moved away from a tip that is not its parent. -/
theorem storeHeader_answer {trusted : TrustedHeader} {reorg : Bool}
    (h : storeHeader chain trusted s = (.ok reorg, t)) :
    ∃ tip update?, reorg = (update?.isSome && trusted.parentHash != tip.hash) ∧
      (s.memory chain).Tip tip ∧ (s.memory chain).Plans trusted tip update? ∧
      Record.fits trusted = true ∧ s.Changed (headerChanges chain trusted update?) t := by
  obtain ⟨tip, u, htip, h⟩ := bind_ok h
  have hatTip := canonicalTip_ok htip
  have hu := (canonicalTip_reading chain).untouched htip
  obtain ⟨write, v, hwrite, h⟩ := bind_ok h
  obtain ⟨rfl, hfits, rfl⟩ := State.writeAbout_change (mapError_ok hwrite)
  obtain ⟨s', v, hget, h⟩ := bind_ok h
  obtain ⟨rfl, rfl⟩ := get_ok hget
  obtain ⟨update?, v, hplan, h⟩ := bind_ok h
  have hv := (ChainView.planUpdate_reading _ _ _ _).untouched hplan
  have hplans := ChainView.planUpdate_ok hplan
  rw [hu.memory_eq] at hplans
  have hfound := hu.trans hv
  cases update? with
  | none =>
    obtain ⟨writes, w, hwrites, h⟩ := bind_ok h
    obtain ⟨rfl, rfl⟩ := pure_ok hwrites
    obtain ⟨_, w, hcommit, h⟩ := bind_ok h
    obtain ⟨rfl, rfl⟩ := pure_ok h
    rw [← hv.module_eq] at hcommit
    have hchanged : s.Changed (headerChanges chain trusted none) w :=
      hfound.changed (State.commit_changed (mapError_ok hcommit))
    exact ⟨tip, none, rfl, hatTip, hplans, hfits, hchanged⟩
  | some update =>
    obtain ⟨writes, w, hwrites, h⟩ := bind_ok h
    obtain ⟨rfl, rfl⟩ := updateWrites_ok (mapError_ok hwrites)
    obtain ⟨_, w, hcommit, h⟩ := bind_ok h
    obtain ⟨rfl, rfl⟩ := pure_ok h
    rw [← hv.module_eq] at hcommit
    have hchanged : s.Changed (headerChanges chain trusted (some update)) w :=
      hfound.changed (State.commit_changed (mapError_ok hcommit))
    exact ⟨tip, some update, rfl, hatTip, hplans, hfits, hchanged⟩

/-- A stored header has been written in one batch with the markers that were planned for it. -/
theorem storeHeader_ok {trusted : TrustedHeader} {reorg : Bool}
    (h : storeHeader chain trusted s = (.ok reorg, t)) :
    ∃ tip update?, (s.memory chain).Tip tip ∧ (s.memory chain).Plans trusted tip update? ∧
      Record.fits trusted = true ∧ s.Changed (headerChanges chain trusted update?) t := by
  obtain ⟨tip, update?, -, hstored⟩ := storeHeader_answer h
  exact ⟨tip, update?, hstored⟩

/-- A header that was not stored left no trace. -/
theorem storeHeader_atomic (chain : ChainId) (trusted : TrustedHeader) :
    (storeHeader chain trusted).Atomic := by
  refine .read (canonicalTip_reading chain).readOnly fun tip => ?_
  refine .read (.mapError (State.writeAbout_readOnly _ _) _) fun write => ?_
  refine .read .get fun s => ?_
  refine .read (ChainView.planUpdate_reading s chain trusted tip).readOnly fun update? => ?_
  cases update? with
  | none => exact .read (.pure _) fun _ => .andThen (.mapError (State.commit_atomic _) _) _
  | some update =>
    refine .read (.mapError (updateWrites_reading chain update).readOnly _) fun _ => ?_
    exact .andThen (.mapError (State.commit_atomic _) _) _

/-! ## Taking in a header -/

/-- Taking in a header, by its parts: whether it is stored, its checks, and its storing. -/
def takeIn (known : Transition HeaderError Bool) (verify : Transition HeaderError TrustedHeader)
    (store : TrustedHeader → Transition HeaderError Bool) : Transition HeaderError HeaderFate := do
  if ← known then return .known
  match ← attempt verify with
  | .error cause => return .rejected cause
  | .ok trusted => return .accepted (← store trusted)

/-- What taking in a header comes to, by what its parts answer. -/
inductive TakenIn (known : Transition HeaderError Bool)
    (verify : Transition HeaderError TrustedHeader)
    (store : TrustedHeader → Transition HeaderError Bool) (s : State) :
    Except HeaderError HeaderFate → State → Prop
  /-- The store could not tell whether it holds the header. -/
  | unanswered {t : State} {e : HeaderError} (asked : known s = (.error e, t)) :
    TakenIn known verify store s (.error e) t
  /-- The header is stored already. -/
  | known {t : State} (asked : known s = (.ok true, t)) :
    TakenIn known verify store s (.ok .known) t
  /-- The header is refused. -/
  | rejected {u t : State} {cause : HeaderError} (asked : known s = (.ok false, u))
    (refused : verify u = (.error cause, t)) :
    TakenIn known verify store s (.ok (.rejected cause)) t
  /-- The header is verified, but not stored. -/
  | failed {u v t : State} {trusted : TrustedHeader} {e : HeaderError}
    (asked : known s = (.ok false, u)) (verified : verify u = (.ok trusted, v))
    (stored : store trusted v = (.error e, t)) : TakenIn known verify store s (.error e) t
  /-- The header is verified and stored. -/
  | accepted {u v t : State} {trusted : TrustedHeader} {reorg : Bool}
    (asked : known s = (.ok false, u)) (verified : verify u = (.ok trusted, v))
    (stored : store trusted v = (.ok reorg, t)) :
    TakenIn known verify store s (.ok (.accepted reorg)) t

-- The parts are variables here: the checks of a header are not to be looked into.
theorem takeIn_iff {known : Transition HeaderError Bool}
    {verify : Transition HeaderError TrustedHeader}
    {store : TrustedHeader → Transition HeaderError Bool} {r : Except HeaderError HeaderFate} :
    takeIn known verify store s = (r, t) ↔ TakenIn known verify store s r t := by
  have hrun (w : State) : attempt verify w = (.ok (verify w).1, (verify w).2) := rfl
  unfold takeIn
  rw [bind_run]
  constructor
  · intro h
    rcases hk : known s with ⟨e | found, u⟩ <;> rw [hk] at h
    · cases h
      exact .unanswered hk
    cases found with
    | true =>
      cases h
      exact .known hk
    | false =>
      simp only [Bool.false_eq_true, if_false, bind_run, hrun] at h
      rcases hv : verify u with ⟨e | trusted, v⟩ <;> rw [hv] at h
      · cases h
        exact .rejected hk hv
      dsimp only at h
      rw [bind_run] at h
      rcases hw : store trusted v with ⟨e | reorg, w⟩ <;> rw [hw] at h <;> cases h
      · exact .failed hk hv hw
      · exact .accepted hk hv hw
  · intro h
    cases h with
    | unanswered asked => rw [asked]
    | known asked =>
      rw [asked]
      rfl
    | rejected asked refused =>
      rw [asked]
      simp only [Bool.false_eq_true, if_false, bind_run, hrun, refused]
      rfl
    | failed asked verified stored =>
      rw [asked]
      simp only [Bool.false_eq_true, if_false, bind_run, hrun, verified, stored]
    | accepted asked verified stored =>
      rw [asked]
      simp only [Bool.false_eq_true, if_false, bind_run, hrun, verified, stored]
      rfl

/-- Whether a header is stored. -/
def isStored (chain : ChainId) (header : Header) : Transition HeaderError Bool :=
  (State.has (.header chain header.hash)).mapError .storage

theorem isStored_reading (chain : ChainId) (header : Header) :
    (isStored chain header).Reading :=
  .mapError (State.has_reading _) _

theorem submit_eq (config : HeaderSyncConfig) (ctx : BlockContext) (chain : ChainId)
    (g : GenesisEpochs) (header : Header) :
    submit config ctx chain g header =
      takeIn (isStored chain header) (verifyHeader config ctx chain g header)
        (storeHeader chain) := rfl

/-- A header that was not found and then verified is new and verified for the state before. -/
theorem verified_of_new {config : HeaderSyncConfig} {ctx : BlockContext} {g : GenesisEpochs}
    {header : Header} {trusted : TrustedHeader} {v : State}
    (asked : isStored chain header s = (.ok false, u))
    (verified : verifyHeader config ctx chain g header u = (.ok trusted, v)) :
    s.Untouched v ∧ trusted.header = header ∧ s.raw? (.header chain trusted.hash) = none ∧
      ∃ parent pair, Verified config chain g s trusted parent pair := by
  obtain ⟨hfresh, hu⟩ := State.has_ok (mapError_ok asked)
  have hv := hu.trans ((verifyHeader_reading config ctx chain g header).untouched verified)
  obtain ⟨hheader, parent, pair, hverified⟩ := verifyHeader_ok verified
  have hhash : trusted.hash = header.hash := by rw [hverified.hash, hheader]
  rw [← hhash, eq_comm, Option.isSome_eq_false_iff, Option.isNone_iff_eq_none] at hfresh
  exact ⟨hv, hheader, hfresh, parent, pair, hverified.of_untouched hu⟩

/-! ## Steps -/

/-- A step of the light client on a chain, with headers of a class. -/
inductive Step (P : Header → Prop) (config : HeaderSyncConfig) (chain : ChainId) (s : State) :
    State → Prop
  /-- Nothing is stored. -/
  | quiet {t : State} (h : s.Untouched t) : Step P config chain s t
  /-- The chain begins. -/
  | began {t : State} {header : Header} {validators prior : List Address} (hP : P header)
    (fresh : s.raw? (.genesis chain) = none) (place : BeginsAt config header validators)
    (begins : Begins config chain header validators prior s t) : Step P config chain s t
  /-- A verified header is stored. -/
  | grew {t : State} {record : GenesisRecord} {g : GenesisEpochs}
    {trusted parent tip : TrustedHeader} {pair : EpochPair} {update? : Option CanonicalUpdate}
    (hP : P trusted.header) (begun : (s.memory chain).Began record g)
    (fresh : s.raw? (.header chain trusted.hash) = none)
    (verified : Verified config chain g s trusted parent pair)
    (atTip : (s.memory chain).Tip tip) (plans : (s.memory chain).Plans trusted tip update?)
    (fits : Record.fits trusted = true)
    (changed : s.Changed (headerChanges chain trusted update?) t) : Step P config chain s t

/-- Steps of the light client on a chain, one after another. -/
abbrev Steps (P : Header → Prop) (config : HeaderSyncConfig) (chain : ChainId) :
    State → State → Prop :=
  Relation.ReflTransGen (Step P config chain)

/-- Beginning a chain is a step. -/
theorem setGenesis_step {P : Header → Prop} (config : HeaderSyncConfig) {header : Header}
    (prior : List Address) (hP : P header) (s : State) :
    Step P config chain s (setGenesis config chain header prior s).2 := by
  rcases hr : setGenesis config chain header prior s with ⟨e | x, t⟩
  · have hu := setGenesis_atomic config chain header prior _ _ _ hr
    exact .quiet hu
  · obtain ⟨hnone, validators, hplace, hbegins⟩ := setGenesis_ok hr
    exact .began hP hnone hplace hbegins

/-- Storing a header that was verified is a step. -/
theorem storeHeader_step {P : Header → Prop} {config : HeaderSyncConfig} {record : GenesisRecord}
    {g : GenesisEpochs} {trusted parent : TrustedHeader} {pair : EpochPair}
    (hP : P trusted.header) (hs : (s.memory chain).Began record g)
    (fresh : s.raw? (.header chain trusted.hash) = none)
    (hv : Verified config chain g s trusted parent pair) (hu : s.Untouched u) :
    Step P config chain s (storeHeader chain trusted u).2 := by
  rcases hr : storeHeader chain trusted u with ⟨e | reorg, t⟩
  · have ht := storeHeader_atomic chain trusted _ _ _ hr
    exact .quiet (hu.trans ht)
  · obtain ⟨tip, update?, htip, hplans, hfits, hchanged⟩ := storeHeader_ok hr
    rw [hu.memory_eq] at htip hplans
    exact .grew hP hs fresh hv htip hplans hfits (hu.changed hchanged)

/-- Taking in one header is a step. -/
theorem submit_step {P : Header → Prop} (config : HeaderSyncConfig) (ctx : BlockContext)
    {record : GenesisRecord} {g : GenesisEpochs} {header : Header} (hP : P header)
    (hs : (s.memory chain).Began record g) :
    Step P config chain s (submit config ctx chain g header s).2 := by
  have hasks := isStored_reading chain header
  have hreads := verifyHeader_reading config ctx chain g header
  rcases hr : submit config ctx chain g header s with ⟨r, t⟩
  rw [submit_eq] at hr
  cases takeIn_iff.mp hr with
  | unanswered asked | known asked => exact .quiet (hasks.untouched asked)
  | rejected asked refused =>
    exact .quiet ((hasks.untouched asked).trans (hreads.untouched refused))
  | failed asked verified stored | accepted asked verified stored =>
    obtain ⟨hv, rfl, hfresh, parent, pair, hverified⟩ := verified_of_new asked verified
    have hstep := storeHeader_step hP hs hfresh hverified hv
    rw [stored] at hstep
    exact hstep

/-- A step on a chain that has begun only adds to its memory. -/
theorem Step.extends {P : Header → Prop} {config : HeaderSyncConfig} {record : GenesisRecord}
    (h : Step P config chain s t) (hs : (s.memory chain).genesis? = some record) :
    (s.memory chain).Extends (t.memory chain) := by
  cases h with
  | quiet h =>
    rw [h.memory_eq]
    exact .refl _
  | began _ fresh => exact nomatch (State.lookup_of_raw?_none fresh).symm.trans hs
  | grew _ _ fresh _ _ _ fits changed =>
    rw [changed.memory_eq, memory_headerChanges fits]
    exact .setHeader (State.lookup_of_raw?_none fresh) _

theorem genesisChanges_within {trusted : TrustedHeader} {record : GenesisRecord}
    {prior current : ValidatorEpoch} (hf : Record.fits trusted = true)
    (hprior : Record.fits prior = true) (hcurrent : Record.fits current = true) :
    ∀ c ∈ genesisChanges chain trusted record prior current,
      c.Within (RecordKey.Remembers chain) := by
  simp only [genesisChanges, List.forall_mem_cons]
  exact ⟨.store rfl (.header _ hf), .store rfl (.canonical _), .store rfl (.height _),
    .store rfl (.genesis _), .store rfl (.epoch _ hprior), .store rfl (.epoch _ hcurrent),
    fun _ hc => absurd hc List.not_mem_nil⟩

theorem headerChanges_within {trusted : TrustedHeader} {update? : Option CanonicalUpdate}
    (hf : Record.fits trusted = true) :
    ∀ c ∈ headerChanges chain trusted update?, c.Within (RecordKey.Remembers chain) := by
  refine List.forall_mem_cons.mpr ⟨.store rfl (.header _ hf), fun c hc => ?_⟩
  cases update? with
  | none => simp at hc
  | some update =>
    simp only [updateChanges, List.mem_append, List.mem_map, List.mem_singleton] at hc
    rcases hc with (⟨level, -, rfl⟩ | ⟨entry, -, rfl⟩) | rfl
    · exact .remove rfl
    · exact .store rfl (.canonical _)
    · exact .store rfl (.height _)

/-- A step writes records of the memory of its chain only. -/
theorem Step.writes {P : Header → Prop} {config : HeaderSyncConfig}
    (h : Step P config chain s t) : s.Writes (RecordKey.Remembers chain) t := by
  cases h with
  | quiet h => exact .of_untouched h
  | began _ _ _ begins =>
    exact begins.changed.writes
      (genesisChanges_within begins.fits begins.fitsPrior begins.fitsCurrent)
  | grew _ _ _ _ _ _ fits changed => exact changed.writes (headerChanges_within fits)

/-- What a step preserves holds after steps. -/
theorem Steps.preserves {P : Header → Prop} {config : HeaderSyncConfig} {I : State → Prop}
    (hstep : ∀ s t, Step P config chain s t → I s → I t) (h : Steps P config chain s t)
    (hs : I s) : I t := by
  induction h with
  | refl => exact hs
  | tail _ hlast ih => exact hstep _ _ hlast ih

theorem Steps.writes {P : Header → Prop} {config : HeaderSyncConfig}
    (h : Steps P config chain s t) : s.Writes (RecordKey.Remembers chain) t := by
  induction h with
  | refl => exact .refl s
  | tail _ hstep ih => exact ih.trans hstep.writes

section Loop

variable {config : HeaderSyncConfig} {ctx : BlockContext} {g : GenesisEpochs} {header : Header}
  {fate : HeaderFate}

/-- Taking in headers breaks off when the store fails. -/
theorem submitAll_break {e : HeaderError}
    (h : submit config ctx chain g header s = (.error e, t)) (rest : List Header)
    (report : SyncReport) :
    submitAll config ctx chain g (header :: rest) report s = (.error e, t) := by
  rw [submitAll, bind_run, h]

/-- It ends at a refused header. -/
theorem submitAll_stop {cause : HeaderError}
    (h : submit config ctx chain g header s = (.ok fate, t)) (hstop : fate.refusal? = some cause)
    (rest : List Header) (report : SyncReport) :
    submitAll config ctx chain g (header :: rest) report s = (.ok ⟨report, some cause⟩, t) := by
  rw [submitAll, bind_run, h]
  cases fate with
  | rejected cause =>
    cases hstop
    rfl
  | known | accepted => cases hstop

/-- It goes on after any other one, which is counted. -/
theorem submitAll_go (h : submit config ctx chain g header s = (.ok fate, t))
    (hgo : fate.refusal? = none) (rest : List Header) (report : SyncReport) :
    submitAll config ctx chain g (header :: rest) report s =
      submitAll config ctx chain g rest (report.count fate) t := by
  rw [submitAll, bind_run, h]
  cases fate with
  | rejected cause => cases hgo
  | known | accepted => rfl

end Loop

/-- Taking in headers one after another is a sequence of steps. -/
theorem submitAll_steps {P : Header → Prop} (config : HeaderSyncConfig) (ctx : BlockContext)
    {record : GenesisRecord} {g : GenesisEpochs} {headers : List Header}
    (hP : ∀ header ∈ headers, P header) (report : SyncReport)
    (hs : (s.memory chain).Began record g) :
    Steps P config chain s (submitAll config ctx chain g headers report s).2 := by
  induction headers generalizing s report with
  | nil => exact .refl
  | cons header rest ih =>
    have hstep := submit_step config ctx (hP header List.mem_cons_self) hs
    rcases hone : submit config ctx chain g header s with ⟨e | fate, t⟩ <;> rw [hone] at hstep
    · rw [submitAll_break hone]
      exact .single hstep
    cases hstop : fate.refusal? with
    | some cause =>
      rw [submitAll_stop hone hstop]
      exact .single hstep
    | none =>
      have hbegun : (t.memory chain).Began record g := hs.extends (hstep.extends hs.genesis)
      rw [submitAll_go hone hstop]
      exact .head hstep (ih (fun h hm => hP h (List.mem_cons_of_mem _ hm)) _ hbegun)

/-- What a batch tells of its headers, with the canonical height read after them. -/
def finish (chain : ChainId) (outcome : BatchOutcome) : Transition HeaderError BatchOutcome := do
  match ← height? chain with
  | none => throw (.notInitialized chain)
  | some level => return { outcome with report := { outcome.report with canonicalHeight := level } }

theorem finish_readOnly (chain : ChainId) (outcome : BatchOutcome) :
    (finish chain outcome).ReadOnly := by
  refine .bind (height?_reading chain).readOnly fun level? => ?_
  cases level? with
  | none => exact .throw _
  | some level => exact .pure _

/-- The end of a batch adds the canonical height to its report. -/
theorem finish_answer {outcome outcome' : BatchOutcome}
    (h : finish chain outcome s = (.ok outcome', t)) :
    ∃ level, (s.memory chain).height? = some level ∧ outcome' =
      { outcome with report := { outcome.report with canonicalHeight := level } } := by
  obtain ⟨level?, u, hload, hlast⟩ := bind_ok h
  obtain ⟨hlevel, -⟩ := State.load?_ok (mapError_ok hload)
  cases level? with
  | none => exact (throw_ok hlast).elim
  | some level =>
    obtain ⟨rfl, -⟩ := pure_ok hlast
    exact ⟨level, hlevel.symm, rfl⟩

/-- What is read at the end of a batch does not change what it counted. -/
theorem finish_ok {outcome outcome' : BatchOutcome}
    (h : finish chain outcome s = (.ok outcome', t)) :
    outcome'.rejected = outcome.rejected ∧ outcome'.report.accepted = outcome.report.accepted ∧
      outcome'.report.skipped = outcome.report.skipped := by
  obtain ⟨level, -, rfl⟩ := finish_answer h
  exact ⟨rfl, rfl, rfl⟩

/-- A batch that is not too large takes in its headers between its readings. -/
theorem syncBatch_of_le {config : HeaderSyncConfig} {headers : List Header} (ctx : BlockContext)
    (chain : ChainId) (h : headers.length ≤ config.maxBatchSize) :
    syncBatch config ctx chain headers = genesisEpochs chain >>= fun g =>
      submitAll config ctx chain g headers ⟨0, 0, 0, 0⟩ >>= finish chain := by
  unfold syncBatch
  rw [if_neg (Nat.not_lt.mpr h)]
  rfl

theorem syncBatch_of_lt {config : HeaderSyncConfig} {headers : List Header} (ctx : BlockContext)
    (chain : ChainId) (h : config.maxBatchSize < headers.length) :
    syncBatch config ctx chain headers =
      throw (.batchTooLarge headers.length config.maxBatchSize) := by
  unfold syncBatch
  rw [if_pos h]
  rfl

/-- A batch of headers is a sequence of steps. -/
theorem syncBatch_steps {P : Header → Prop} (config : HeaderSyncConfig) (ctx : BlockContext)
    {headers : List Header} (hP : ∀ header ∈ headers, P header) (s : State) :
    Steps P config chain s (syncBatch config ctx chain headers s).2 := by
  by_cases hsize : headers.length ≤ config.maxBatchSize
  case neg =>
    rw [syncBatch_of_lt ctx chain (Nat.lt_of_not_le hsize)]
    exact .refl
  rw [syncBatch_of_le ctx chain hsize]
  refine bind_leads (R := Steps P config chain) .trans ?_ ?_
  · exact .single (.quiet ((genesisEpochs_reading chain).readOnly s))
  intro g u hg
  have hu := (genesisEpochs_reading chain).untouched hg
  obtain ⟨record, hbegan⟩ := genesisEpochs_ok hg
  rw [← hu.memory_eq] at hbegan
  refine bind_leads (R := Steps P config chain) .trans ?_ ?_
  · exact submitAll_steps config ctx hP ⟨0, 0, 0, 0⟩ hbegan
  intro outcome v _
  exact .single (.quiet (finish_readOnly chain outcome v))

end LightClient

end BridgeKernel
