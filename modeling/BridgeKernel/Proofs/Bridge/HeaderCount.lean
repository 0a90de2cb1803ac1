import BridgeKernel.Proofs.Bridge.Counting
import BridgeKernel.Proofs.Bridge.HeaderRun
import BridgeKernel.Proofs.Header.Buried
import BridgeKernel.Proofs.Header.Gains

/-!
# Counted headers

The headers that a batch stored are counted from its report, which comes at its end. A refused
header ends a batch with a report, and what was stored before it is counted. A failure of the store
breaks a batch off without one: the headers stored before it stay, and are not counted. So the count
is that of the stored headers, the geneses left out, as long as no batch is broken off after it has
stored a header.
-/

namespace BridgeKernel

open LightClient

/-- The stored headers that are not the genesis of their chain. -/
def State.acceptedHeaders (s : State) : Set (ChainId × Hash) :=
  {h | (s.raw? (.header h.1 h.2)).isSome = true ∧
    ∀ record, (s.memory h.1).genesis? = some record → h.2 ≠ record.hash}

namespace State

variable {s t : State} {chain : ChainId}

theorem WellFormed.mem_acceptedHeaders (hs : s.WellFormed) (chain : ChainId) (hash : Hash) :
    (chain, hash) ∈ s.acceptedHeaders ↔ (s.memory chain).header? hash ≠ none ∧
      ∀ record, (s.memory chain).genesis? = some record → hash ≠ record.hash := by
  change (s.raw? (.header chain hash)).isSome = true ∧ _ ↔ _
  rw [hs.header_isSome, Option.isSome_iff_ne_none]

/-- Every chain is blank or settled on its genesis. -/
def Settled (s : State) : Prop := ∀ chain, (s.memory chain).Settled

/-- The headers that a chain gains are added to the accepted ones. -/
theorem acceptedHeaders_gains {new : Finset Hash} (hs : s.WellFormed) (ht : t.WellFormed)
    (hsettled : s.Settled) (hgains : (s.memory chain).Gains new (t.memory chain))
    (hother : ∀ c, c ≠ chain → t.memory c = s.memory c) :
    t.acceptedHeaders.encard = s.acceptedHeaders.encard + new.card := by
  have hunion : t.acceptedHeaders = s.acceptedHeaders ∪ Prod.mk chain '' (new : Set Hash) := by
    ext ⟨c, hash⟩
    rw [Set.mem_union, ht.mem_acceptedHeaders, hs.mem_acceptedHeaders]
    by_cases hc : c = chain
    · subst hc
      rw [hgains.genesis, (Prod.mk_right_injective c).mem_set_image, Finset.mem_coe]
      by_cases hnew : hash ∈ new
      · -- A header that was not stored is not the genesis.
        refine iff_of_true ⟨hgains.stored hash hnew, ?_⟩ (.inr hnew)
        rintro record hbegun rfl
        exact (hsettled c).genesis_stored hbegun (hgains.fresh _ hnew)
      · rw [hgains.others hash hnew, or_iff_left hnew]
    · have hne : (c, hash) ∉ Prod.mk chain '' (new : Set Hash) := by
        rintro ⟨_, -, heq⟩
        exact hc (congrArg Prod.fst heq).symm
      rw [hother c hc, or_iff_left hne]
  have hdisjoint : Disjoint s.acceptedHeaders (Prod.mk chain '' (new : Set Hash)) := by
    rw [Set.disjoint_right]
    rintro _ ⟨hash, hnew, rfl⟩ hmem
    exact ((hs.mem_acceptedHeaders chain hash).mp hmem).1 (hgains.fresh hash hnew)
  rw [hunion, Set.encard_union_eq hdisjoint,
    (Prod.mk_right_injective chain).encard_image, Set.encard_coe_eq_coe_finsetCard]

/-- What is remembered of every chain tells the accepted headers. -/
theorem acceptedHeaders_congr (hs : s.WellFormed) (ht : t.WellFormed)
    (h : ∀ c, t.memory c = s.memory c) : t.acceptedHeaders = s.acceptedHeaders := by
  ext ⟨c, hash⟩
  rw [ht.mem_acceptedHeaders, hs.mem_acceptedHeaders, h c]

/-- A chain that begins stores its genesis and no other header. -/
theorem acceptedHeaders_begins {config : HeaderSyncConfig} {header : Header}
    {validators prior : List Address} (hs : s.WellFormed) (ht : t.WellFormed) (hsettled : s.Settled)
    (fresh : s.raw? (.genesis chain) = none)
    (begins : Begins config chain header validators prior s t) :
    t.acceptedHeaders = s.acceptedHeaders := by
  have hwrites : s.Writes (RecordKey.Remembers chain) t :=
    begins.changed.writes (genesisChanges_within begins.fits begins.fitsPrior begins.fitsCurrent)
  ext ⟨c, hash⟩
  rw [ht.mem_acceptedHeaders, hs.mem_acceptedHeaders]
  by_cases hc : c = chain
  · subst hc
    have hblank : (s.memory c).Blank := by
      cases hsettled c with
      | blank hblank => exact hblank
      | begun genesis => exact nomatch genesis.symm.trans (lookup_of_raw?_none fresh)
    have hafter := begins.changed.memory_eq c
    rw [memory_genesisChanges begins.fits begins.fitsPrior begins.fitsCurrent] at hafter
    refine iff_of_false ?_ fun h => h.1 (hblank.header hash)
    rintro ⟨hstored, hother⟩
    rw [hafter] at hstored hother
    change ((s.memory c).setHeader (trustedGenesis header)).header? hash ≠ none at hstored
    rw [ChainMemory.setHeader_header?,
      if_neg (show hash ≠ (trustedGenesis header).hash from hother _ rfl)] at hstored
    exact hstored (hblank.header hash)
  · rw [hwrites.memory_eq fun key hkey hkey' => hc (hkey'.chain_eq hkey)]

end State

namespace BridgeRequest

/-- How many headers a call leaves stored without counting them: those of a batch that was broken
off. -/
def missedHeaders (request : BridgeRequest) (bridge : Bridge) : Nat :=
  match request.op with
  | .syncBatch ctx chain headers | .syncHeaders ctx chain headers =>
    unreported request.config.headerSync ctx chain headers bridge.state
  | _ => 0

/-- Every call leaves the chains settled. -/
theorem perform_settled (request : BridgeRequest) {bridge : Bridge} (h : bridge.state.Settled) :
    (request.perform bridge).2.state.Settled := by
  intro chain
  rcases request.perform_memory (P := fun _ => True) bridge chain (fun _ _ => trivial) with
    hsteps | hsame
  · exact hsteps.preserves (I := fun s => (s.memory chain).Settled)
      (fun s t hstep hs => hstep.settled hs) (h chain)
  · rw [hsame]
    exact h chain

end BridgeRequest

namespace Bridge

variable {bridge : Bridge}

/-- A batch accounts for the headers that it stores, unless it is broken off. -/
theorem syncBatch_accounts (config : BridgeConfig) (ctx : BlockContext) (chain : ChainId)
    (headers : List Header) (hs : bridge.state.WellFormed)
    (ht : (syncBatch config ctx chain headers bridge).2.state.WellFormed)
    (hsettled : bridge.state.Settled) :
    Accounts (·.headers) State.acceptedHeaders 0
      (unreported config.headerSync ctx chain headers bridge.state) bridge
      (syncBatch config ctx chain headers bridge).2 := by
  obtain ⟨new, hnew, hgains, hreport⟩ :=
    syncBatch_gains config.headerSync ctx chain headers bridge.state
  have hwrites : bridge.state.Writes (RecordKey.Remembers chain)
      (LightClient.syncBatch config.headerSync ctx chain headers bridge.state).2 :=
    (syncBatch_steps (P := fun _ => True) config.headerSync ctx (fun _ _ => trivial) _).writes
  have hstored : (syncBatch config ctx chain headers bridge).2.state.acceptedHeaders.encard =
      bridge.state.acceptedHeaders.encard + new.card := by
    rw [syncBatch_state] at ht ⊢
    exact State.acceptedHeaders_gains hs ht hsettled hgains
      fun c hc => hwrites.memory_eq fun key hkey hkey' => hc (hkey'.chain_eq hkey)
  refine ⟨new.card, hstored, ?_⟩
  change (syncBatch config ctx chain headers bridge).2.counters.headers + _ = _
  rw [syncBatch_counters, unreported]
  rcases hr : LightClient.syncBatch config.headerSync ctx chain headers bridge.state with
    ⟨e | outcome, t⟩ <;> rw [hr] at hgains hreport
  · have hgained : gained chain headers bridge.state t = new := (hgains.eq_filter hnew).symm
    change bridge.counters.headers + (gained chain headers bridge.state t).card = _
    rw [hgained]
    rfl
  · change bridge.counters.headers + outcome.report.accepted + 0 = _
    rw [hreport outcome rfl]

end Bridge

/-- A call accounts for the headers that it stores, but for those of a batch that was broken off. -/
theorem BridgeRequest.perform_headers_accounts (request : BridgeRequest) {bridge : Bridge}
    (hs : bridge.state.WellFormed) (hsettled : bridge.state.Settled) :
    Bridge.Accounts (·.headers) State.acceptedHeaders 0 (request.missedHeaders bridge) bridge
      (request.perform bridge).2 := by
  have hwrites := request.perform_writes bridge
  have ht := hwrites.wellFormed hs
  -- A call that writes nothing of what is remembered of chains accepts no header.
  have hquiet (hkey : ∀ key chain, request.op.Touches key → ¬ key.Remembers chain)
      (hcount : (request.perform bridge).2.counters.headers = bridge.counters.headers) :
      Bridge.Accounts (·.headers) State.acceptedHeaders 0 0 bridge (request.perform bridge).2 :=
    .quiet (State.acceptedHeaders_congr hs ht
      fun chain => hwrites.memory_eq fun key => hkey key chain) hcount
  obtain ⟨config, op⟩ := request
  cases op with
  | syncBatch ctx chain headers =>
    exact Bridge.syncBatch_accounts config ctx chain headers hs ht hsettled
  | syncHeaders ctx chain headers =>
    change (Bridge.syncHeaders config ctx chain headers bridge).2.state.WellFormed at ht
    change Bridge.Accounts _ _ 0 _ bridge (Bridge.syncHeaders config ctx chain headers bridge).2
    rw [Bridge.syncHeaders_bridge] at ht ⊢
    exact Bridge.syncBatch_accounts config ctx chain headers hs ht hsettled
  | syncGenesis chain header prior =>
    refine .quiet ?_ rfl
    change (Bridge.syncGenesis config chain header prior bridge).2.state.WellFormed at ht
    change (Bridge.syncGenesis config chain header prior bridge).2.state.acceptedHeaders = _
    rw [Bridge.syncGenesis_state] at ht ⊢
    rcases hr : setGenesis config.headerSync chain header prior bridge.state with ⟨e | x, t⟩ <;>
      rw [hr] at ht
    · have hu := setGenesis_atomic config.headerSync chain header prior _ _ _ hr
      exact State.acceptedHeaders_congr hs ht hu.memory_eq
    · obtain ⟨hfresh, validators, -, hbegins⟩ := setGenesis_ok hr
      exact State.acceptedHeaders_begins hs ht hsettled hfresh hbegins
  | propose ctx sideChain? epochAt chain claim =>
    refine hquiet ?_ (Bridge.propose_count Counters.afterClaim_headers config ctx sideChain?
      epochAt chain claim bridge)
    rintro key c (⟨hash, rfl⟩ | ⟨_, id, rfl⟩) hkey
    · exact hkey
    · exact hkey
  | isApplied => exact hquiet (fun key c h => h.elim) rfl
  | installCommittee | rotateCommittee =>
    refine hquiet ?_ rfl
    rintro key c rfl hkey
    exact hkey
  | registerRedeem | recordDeposit | createDraft =>
    refine hquiet (fun key c htouch hkey => ?_) rfl
    cases key <;> first | exact htouch.elim | exact hkey.elim
  | addSignature =>
    refine hquiet (fun key c htouch hkey => ?_) (bridge.counters.afterSigning_headers _)
    cases key <;> first | exact htouch.elim | exact hkey.elim

namespace Bridge

/-- What a run from an empty store counted and stored of headers. -/
theorem headers_accounted (module : Bytes) (faults : Nat → StoreOp → Option StoreFault)
    (counters : Counters) (requests : List BridgeRequest) :
    ∃ n : Nat, (after requests (opened module faults counters)).acceptedHeaders.encard = n ∧
      (run requests (opened module faults counters)).2.counters.headers +
          totalOver BridgeRequest.missedHeaders requests (opened module faults counters) =
        counters.headers + n := by
  have hform : (opened module faults counters).state.WellFormed := empty_wellFormed module faults
  have hsettled : (opened module faults counters).state.Settled :=
    fun chain => .blank (empty_blank module faults)
  have hnone : (opened module faults counters).state.acceptedHeaders = ∅ :=
    Set.eq_empty_of_forall_notMem fun h hh => nomatch hh.1
  obtain ⟨n, hstored, hcount⟩ := run_counts (I := fun s => s.WellFormed ∧ s.Settled)
    (fun request b hb => ⟨(request.perform_writes b).wellFormed hb.1, request.perform_settled hb.2⟩)
    (fun request b hb => request.perform_headers_accounts hb.1 hb.2) requests ⟨hform, hsettled⟩ hnone
  rw [totalOver_zero] at hcount
  exact ⟨n, hstored, hcount⟩

/-- Over every run from an empty store, whatever its operations do, the headers counted on the way
and those that batches left stored when they were broken off are as many as the headers that are
stored in the end, the geneses left out. So the count is that of the store exactly when no batch was
broken off after it had stored a header. -/
theorem headers_counted_iff (module : Bytes) (faults : Nat → StoreOp → Option StoreFault)
    (counters : Counters) (requests : List BridgeRequest) :
    let start := opened module faults counters
    let counted := (run requests start).2.counters.headers
    let stored := (after requests start).acceptedHeaders
    let missed := totalOver BridgeRequest.missedHeaders requests start
    (counted + missed : ENat) = counters.headers + stored.encard ∧
      ((counted : ENat) = counters.headers + stored.encard ↔ missed = 0) := by
  intro start counted stored missed
  obtain ⟨n, hstored, hcount⟩ := headers_accounted module faults counters requests
  change stored.encard = n at hstored
  change counted + missed = counters.headers + n at hcount
  rw [hstored]
  constructor
  · exact_mod_cast hcount
  · norm_cast
    omega

/-! ### A store that is lost at the end of a batch -/

/-- A schedule under which every operation fails from the thirteenth on: the first call is made of
two, and the second one stores its header with the tenth of its eleven. -/
def lostStore (clock : Nat) (_ : StoreOp) : Option StoreFault :=
  if 12 ≤ clock then some (.io "connection lost") else none

/-- The second header of the short chain is stored, and the batch that brought it is broken off when
it reads the canonical height. No header is counted. -/
theorem lost_batch_not_counted :
    (run shortRequests (opened [] lostStore .zero)).2.counters.headers = 0 ∧
      (after shortRequests (opened [] lostStore .zero)).acceptedHeaders.encard = 1 := by
  have hrun : (run shortRequests (opened [] lostStore .zero)).2.counters.headers = 0 ∧
      totalOver BridgeRequest.missedHeaders shortRequests (opened [] lostStore .zero) = 1 := by
    decide +kernel
  obtain ⟨hcounted, hmissed⟩ := hrun
  obtain ⟨n, hstored, hcount⟩ := headers_accounted [] lostStore .zero shortRequests
  rw [hcounted, hmissed] at hcount
  change 0 + 1 = 0 + n at hcount
  refine ⟨hcounted, ?_⟩
  rw [hstored, show n = 1 by omega, Nat.cast_one]

end Bridge

end BridgeKernel
