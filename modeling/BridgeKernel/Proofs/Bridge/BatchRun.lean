import BridgeKernel.Proofs.Bridge.ReportRun
import BridgeKernel.Proofs.Header.Batching

/-!
# Batches after a run

Whatever has been called, it makes no difference on a store that does not fail whether headers come
in one batch or each by a call of its own, and headers that are stored already may be brought again
in any batches.
-/

namespace BridgeKernel.Bridge

open LightClient

/-- The state after calls, on a store that fails no more. -/
def settled (module : Bytes) (faults : Nat → StoreOp → Option StoreFault)
    (requests : List BridgeRequest) : State := (after requests (empty module faults)).calmed

theorem settled_reliable (module : Bytes) (faults : Nat → StoreOp → Option StoreFault)
    (requests : List BridgeRequest) : (settled module faults requests).Reliable :=
  ⟨fun _ _ => rfl, wellFormed_after requests module faults⟩

/-- After every run a chain with a genesis is underway. -/
theorem underway_after {module : Bytes} {faults : Nat → StoreOp → Option StoreFault}
    {requests : List BridgeRequest} {chain : ChainId} {record : GenesisRecord}
    (h : ((after requests (empty module faults)).memory chain).genesis? = some record) :
    ∃ g, ((after requests (empty module faults)).memory chain).Underway record g := by
  have hblank : ((empty module faults).state.memory chain).Blank := empty_blank module faults
  obtain ⟨g, hbegan⟩ := began_after module faults requests chain record h
  refine ⟨g, hbegan, ?_⟩
  refine memory_induction (P := fun _ => True)
    (I := fun m => ∀ record, m.genesis? = some record → ∃ level, m.height? = some level)
    (fun _ _ _ _ => trivial) ?_ (empty_wellFormed module faults) ?_ record h
  · exact fun _ _ _ _ _ hstep hs => hstep.height_of_genesis hs
  · exact fun record hrecord => nomatch hblank.genesis.symm.trans hrecord

/-- After every run with a genesis, on a store that does not fail, a batch within the limit answers
what the calls with one of its headers each, up to the first refused one, answer in all, and leaves
the same store. With headers below the largest height, each short enough to be stored, it comes to a
report. Batches of headers that are stored already leave the store as it is, and count each header as
skipped and nothing else. -/
theorem batching_immaterial (module : Bytes) (faults : Nat → StoreOp → Option StoreFault)
    (requests : List BridgeRequest) (chain : ChainId) (record : GenesisRecord)
    (hbegun : ((settled module faults requests).memory chain).genesis? = some record)
    (config : HeaderSyncConfig) (ctx : BlockContext) (headers : List Header)
    (hroom : headers.length ≤ config.maxBatchSize) :
    ∃ level, ((settled module faults requests).memory chain).height? = some level ∧
      (LightClient.syncBatch config ctx chain headers (settled module faults requests)).1 =
        (syncEach config ctx chain headers (settled module faults requests)).1.map
          (BatchOutcome.total level) ∧
      (LightClient.syncBatch config ctx chain headers (settled module faults requests)).2.records =
        (syncEach config ctx chain headers (settled module faults requests)).2.records ∧
      ((∀ request ∈ requests, ∀ header ∈ request.op.headers, header.Low) →
        (∀ header ∈ headers, header.Low ∧ Record.fits header = true) →
        (LightClient.syncBatch config ctx chain headers).Succeeds (settled module faults requests)) ∧
      ∀ batches : List (BlockContext × List Header),
        (∀ batch ∈ batches, batch.2.length ≤ config.maxBatchSize ∧ ∀ header ∈ batch.2,
          (((settled module faults requests).memory chain).header? header.hash).isSome = true) →
        ∃ t : State, batches.mapM
            (fun batch => LightClient.syncBatch config batch.1 chain batch.2)
            (settled module faults requests) =
          (.ok (batches.map fun batch => ⟨⟨0, batch.2.length, 0, level⟩, none⟩), t) ∧
          t.records = (settled module faults requests).records := by
  have hreliable := settled_reliable module faults requests
  obtain ⟨g, hunderway⟩ := underway_after hbegun
  obtain ⟨level, hlevel⟩ := hunderway.height
  obtain ⟨hanswer, hstore⟩ := syncBatch_eq_syncEach ctx hreliable hunderway hlevel hroom
  refine ⟨level, hlevel, hanswer, hstore, fun hlow hheaders => ?_, fun batches hknown => ?_⟩
  · exact syncBatch_succeeds ctx hreliable hunderway (sound_after hlow chain) hroom
      (fun header hm => (hheaders header hm).1) fun header hm => (hheaders header hm).2
  · obtain ⟨t, hrun, ht⟩ := syncBatches_stored hreliable hunderway hlevel
      (fun batch hm => (hknown batch hm).1) fun batch hm => (hknown batch hm).2
    exact ⟨t, hrun, ht.records_eq⟩

/-- The state with the genesis of the short chain alone. -/
def shortStart : State := settled [] (fun _ _ => none) (shortRequests.take 1)

/-- Two batches that bring that genesis again. -/
def againBatches : List (BlockContext × List Header) :=
  [(⟨6, 600⟩, [shortGenesis]), (⟨7, 0⟩, [shortGenesis, shortGenesis])]

theorem calmed_state (bridge : Bridge) : bridge.calmed.state = bridge.state.calmed := rfl

theorem shortStart_eq : forkStart.state = shortStart := by
  rw [forkStart, calmed_state, shortStart, settled, after]

theorem shortStart_genesis : (shortStart.memory 2).genesis? = some shortRecord ∧
    ((shortStart.memory 2).header? shortGenesis.hash).isSome = true := by
  have hhash : shortGenesis.hash = shortRecord.hash := by decide +kernel
  have hmemory := forkStart_memory
  rw [shortStart_eq] at hmemory
  obtain ⟨hgenesis, hrest⟩ := Prod.mk.inj hmemory
  obtain ⟨hstored, -⟩ := Prod.mk.inj hrest
  rw [hhash, hstored]
  exact ⟨hgenesis, rfl⟩

/-- The fork comes to the same by four calls as by one, and its genesis may be brought again. -/
theorem fork_batching_immaterial :
    (shortStart.memory 2).genesis? = some shortRecord ∧
      forkBatch.length ≤ HeaderSyncConfig.trial.maxBatchSize ∧
      ∃ level, (syncEach .trial ⟨5, 500⟩ 2 forkBatch shortStart).1.map (BatchOutcome.total level) =
          .ok ⟨⟨3, 1, 1, 10⟩, none⟩ ∧
        (LightClient.syncBatch .trial ⟨5, 500⟩ 2 forkBatch shortStart).2.records =
          (syncEach .trial ⟨5, 500⟩ 2 forkBatch shortStart).2.records ∧
        ∃ t : State, againBatches.mapM
            (fun batch => LightClient.syncBatch .trial batch.1 2 batch.2) shortStart =
          (.ok [⟨⟨0, 1, 0, level⟩, none⟩, ⟨⟨0, 2, 0, level⟩, none⟩], t) ∧
          t.records = shortStart.records := by
  obtain ⟨hgenesis, hstored⟩ := shortStart_genesis
  have hroom : forkBatch.length ≤ HeaderSyncConfig.trial.maxBatchSize := by decide
  have himmaterial := batching_immaterial [] (fun _ _ => none) (shortRequests.take 1) 2 shortRecord
    hgenesis .trial ⟨5, 500⟩ forkBatch hroom
  rw [← shortStart] at himmaterial
  obtain ⟨level, -, hanswer, hstore, -, hagain⟩ := himmaterial
  have hcalm : (after (shortRequests.take 1) (empty [] fun _ _ => none)).Calm :=
    (reliable_after ⟨fun _ _ => rfl, empty_wellFormed [] fun _ _ => none⟩ _).calm
  have hstart : shortStart = after (shortRequests.take 1) (empty [] fun _ _ => none) :=
    hcalm.calmed_eq
  have hone := forkBatch_outcome
  rw [← hstart, hanswer] at hone
  refine ⟨hgenesis, hroom, level, hone, hstore, hagain againBatches ?_⟩
  simp [againBatches, hstored, HeaderSyncConfig.trial]

end BridgeKernel.Bridge
