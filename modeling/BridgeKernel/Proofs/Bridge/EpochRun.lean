import BridgeKernel.Proofs.Bridge.HeaderOrder
import BridgeKernel.Proofs.Header.Epochs

/-!
# Live validator sets along a run

A chain is begun by one call only, and keeps what that call gave it. From then on the headers that
join it at boundaries list validators, whatever else is called. So while the length of an epoch stays
the same, the two sets that are live after a header can be told from its height, and resolving them
comes to a result for every stored header.
-/

namespace BridgeKernel

open LightClient

variable {chain : ChainId} {record : GenesisRecord}

/-- A chain has the beginning that a call among these gave it. -/
def ChainMemory.BegunBy (m : ChainMemory) (chain : ChainId) (requests : List BridgeRequest)
    (record : GenesisRecord) (g : GenesisEpochs) : Prop :=
  ∃ start header prior, ⟨start, .syncGenesis chain header prior⟩ ∈ requests ∧
    m.StartedBy start.headerSync header prior record g

/-- A chain that has begun with a call was begun by it. -/
theorem BridgeRequest.perform_begunBy {request : BridgeRequest} {bridge : Bridge}
    (hbefore : (bridge.state.memory chain).genesis? = none)
    (hafter : ((request.perform bridge).2.state.memory chain).genesis? = some record) :
    ∃ g, ((request.perform bridge).2.state.memory chain).BegunBy chain [request] record g := by
  cases request.perform_treats bridge chain with
  | aside same =>
    rw [same] at hafter
    exact nomatch hbefore.symm.trans hafter
  | @begins header prior op state =>
    rw [state] at hafter ⊢
    rcases hr : setGenesis request.config.headerSync chain header prior bridge.state with
      ⟨e | x, t⟩ <;> rw [hr] at hafter
    · have hu := setGenesis_atomic _ _ _ _ _ _ _ hr
      rw [hu.memory_eq] at hafter
      exact nomatch hbefore.symm.trans hafter
    · obtain ⟨-, validators, hplace, hbegins⟩ := setGenesis_ok hr
      have hstarted := hbegins.startedBy hplace
      obtain rfl : genesisRecord request.config.headerSync header = record :=
        Option.some.inj (hstarted.began.genesis.symm.trans hafter)
      refine ⟨_, request.config, header, prior, ?_, hstarted⟩
      rw [← op]
      exact List.mem_singleton.mpr rfl
  | @brings ctx headers _ state =>
    rw [state, (syncBatch_unbegun ctx headers hbefore).memory_eq] at hafter
    exact nomatch hbefore.symm.trans hafter

namespace Bridge

/-- After every run, a chain that has begun was begun by one of the calls. -/
theorem begunBy_after {module : Bytes} {faults : Nat → StoreOp → Option StoreFault}
    {requests : List BridgeRequest}
    (h : ((after requests (empty module faults)).memory chain).genesis? = some record) :
    ∃ g, ((after requests (empty module faults)).memory chain).BegunBy chain requests record g := by
  have hblank : ((empty module faults).state.memory chain).Blank := empty_blank module faults
  let I (s : State) : Prop := s.WellFormed ∧ ∀ record, (s.memory chain).genesis? = some record →
    ∃ g, (s.memory chain).BegunBy chain requests record g
  have hstart : I (empty module faults).state :=
    ⟨empty_wellFormed module faults, fun _ hrecord => nomatch hblank.genesis.symm.trans hrecord⟩
  refine (run_induction (I := I) ?_ hstart).2 record h
  intro request hr b hb
  refine ⟨(request.perform_writes b).wellFormed hb.1, fun record hrecord => ?_⟩
  cases hbefore : (b.state.memory chain).genesis? with
  | none =>
    obtain ⟨g, start, header, prior, hmem, hstarted⟩ :=
      BridgeRequest.perform_begunBy hbefore hrecord
    rw [← List.mem_singleton.mp hmem] at hr
    exact ⟨g, start, header, prior, hr, hstarted⟩
  | some found =>
    -- nothing of a beginning is ever written again, so the record is that of an earlier call
    obtain ⟨g, start, header, prior, hmem, hstarted⟩ := hb.2 found hbefore
    have hextends : (b.state.memory chain).Extends ((request.perform b).2.state.memory chain) :=
      extends_after hb.1 hbefore [request]
    obtain rfl : found = record := Option.some.inj ((hextends.genesis hbefore).symm.trans hrecord)
    exact ⟨g, start, header, prior, hmem, hstarted.extends hextends⟩

/-- After every run with one length of epochs, headers at boundaries list validators. -/
theorem listed_after {module : Bytes} {faults : Nat → StoreOp → Option StoreFault}
    {length : UInt64} {requests : List BridgeRequest}
    (hlength : ∀ request ∈ requests, request.config.headerSync.epochLength = length)
    (hlow : ∀ request ∈ requests, ∀ header ∈ request.op.headers, header.Low) :
    ((after requests (empty module faults)).memory chain).Listed length := by
  refine allAbove_after hlow ?_
  intro request hr s g trusted parent pair hverified config hconfig
  rw [HeaderSyncConfig.isBoundary_congr (hconfig.trans (hlength request hr).symm)]
  exact hverified.fields.extra

/-- After every run with one length of epochs and headers below the largest height, two validator
sets are live after each stored header: that of the last multiple of the length up to its height,
and that of the multiple before. Each is the one that the header or its ancestor lists there, except
that the calls of governance give the one before the genesis. Resolving the sets for the header comes
to these two, unless the store fails, and the set that governs a height always has a member. -/
theorem resolved_sets_live (module : Bytes) (faults : Nat → StoreOp → Option StoreFault)
    (length : UInt64) (requests : List BridgeRequest)
    (hlength : ∀ request ∈ requests, request.config.headerSync.epochLength = length)
    (hlow : ∀ request ∈ requests, ∀ header ∈ request.op.headers, header.Low) (chain : ChainId)
    (hash : Hash) (P : TrustedHeader)
    (hstored : ((after requests (empty module faults)).memory chain).header? hash = some P) :
    ∃ record g line pair,
      ((after requests (empty module faults)).memory chain).BegunBy chain requests record g ∧
      ((after requests (empty module faults)).memory chain).Lineage record P line ∧
      ChainMemory.LiveAfter length record g P line pair ∧
      (∀ number, 0 < (pair.authoritative number).size) ∧
      ∀ config : HeaderSyncConfig, config.epochLength = length →
        ∀ u, (after requests (empty module faults)).Untouched u →
          (((ChainView.ofStore chain (after requests (empty module faults))).resolveEpochs
              config g P u).1 = .ok pair ∨
            ∃ cause, ((ChainView.ofStore chain (after requests (empty module faults))).resolveEpochs
              config g P u).1 = .error (.storage cause)) ∧
          (u.Calm → ((ChainView.ofStore chain (after requests (empty module faults))).resolveEpochs
            config g P u).1 = .ok pair) := by
  cases sound_after hlow chain with
  | blank hblank => exact nomatch (hblank.header hash).symm.trans hstored
  | @begun record tip genesis tree canonical =>
    obtain ⟨g, start, header, prior, hmem, hstarted⟩ := begunBy_after genesis
    obtain rfl : start.headerSync.epochLength = length := hlength _ hmem
    have hlisted : ((after requests (empty module faults)).memory chain).Listed
        start.headerSync.epochLength := listed_after hlength hlow
    obtain ⟨line, hline⟩ := tree.lineage hstored
    obtain ⟨pair, rest, hannounced, hlive⟩ := hline.announced_live tree hstarted hlisted
    refine ⟨record, g, line, pair, ⟨start, header, prior, hmem, hstarted⟩, hline, hlive,
      hlive.size_pos, fun config hconfig u hu => ?_⟩
    rw [← ChainMemory.announced_congr hconfig] at hannounced
    rw [← hconfig] at hlisted
    have hform : u.WellFormed := (State.Writes.of_untouched (P := fun _ => False) hu).wellFormed
      (wellFormed_after requests module faults)
    obtain ⟨hanswer, hreliable⟩ :=
      ChainView.resolveEpochs_live hline hstarted.began hlisted hannounced hu
    exact ⟨hanswer, fun hcalm => hreliable ⟨hcalm, hform⟩⟩

/-- The sets of the short chain are resolved for its second header. -/
theorem short_child_resolved :
    (∀ request ∈ shortRequests, request.config.headerSync.epochLength = 8) ∧
      (∀ request ∈ shortRequests, ∀ header ∈ request.op.headers, header.Low) ∧
      shortMemory.header? shortTrusted.hash = some shortTrusted ∧
      ∃ record g line pair, shortMemory.BegunBy 2 shortRequests record g ∧
        shortMemory.Lineage record shortTrusted line ∧
        ChainMemory.LiveAfter 8 record g shortTrusted line pair ∧
        ((ChainView.ofStore 2 (after shortRequests (empty [] fun _ _ => none))).resolveEpochs .trial
          g shortTrusted (after shortRequests (empty [] fun _ _ => none))).1 = .ok pair := by
  obtain ⟨-, hrest⟩ := Prod.mk.inj shortMemory_eq
  obtain ⟨-, hstored⟩ := Prod.mk.inj hrest
  have hlength : ∀ request ∈ shortRequests, request.config.headerSync.epochLength = 8 := by
    simp [shortRequests, BridgeConfig.trial, HeaderSyncConfig.trial]
  have hcalm : (after shortRequests (empty [] fun _ _ => none)).Calm :=
    (reliable_after ⟨fun _ _ => rfl, empty_wellFormed [] fun _ _ => none⟩ shortRequests).calm
  obtain ⟨record, g, line, pair, hbegun, hline, hlive, -, hanswer⟩ :=
    resolved_sets_live [] (fun _ _ => none) 8 shortRequests hlength shortRequests_low 2
      shortTrusted.hash shortTrusted hstored
  exact ⟨hlength, shortRequests_low, hstored, record, g, line, pair, hbegun, hline, hlive,
    (hanswer .trial rfl _ (.refl _)).2 hcalm⟩

end Bridge

end BridgeKernel
