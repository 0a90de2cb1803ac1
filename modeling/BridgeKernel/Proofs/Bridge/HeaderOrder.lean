import BridgeKernel.Proofs.Bridge.HeaderRun
import BridgeKernel.Proofs.Header.Convergence

/-!
# The order in which headers come

Relayers bring the headers of a chain in any order, each by a call of its own, as long as parents
come first. On a store that does not fail every such order comes to the same stored headers and to
tips of one weight, and with one heaviest header to the same markers, so forks that come interleaved
differently leave no difference behind.
-/

namespace BridgeKernel

open LightClient

/-- A header that comes by a call of its own. -/
structure HeaderDelivery where
  /-- The local height of the call. -/
  height : UInt64
  /-- Whether the call is refused when the header is. -/
  strict : Bool
  /-- The header. -/
  header : Header

/-- The call that brings the header. -/
def HeaderDelivery.request (d : HeaderDelivery) (config : BridgeConfig) (now : UInt64)
    (chain : ChainId) : BridgeRequest where
  config := config
  op := if d.strict then .syncHeaders ⟨d.height, now⟩ chain [d.header]
    else .syncBatch ⟨d.height, now⟩ chain [d.header]

/-- No header comes before its parent. -/
def ParentsFirst (headers : List Header) : Prop :=
  headers.Pairwise fun h later => later.hash ≠ h.parentHash

instance (headers : List Header) : Decidable (ParentsFirst headers) :=
  inferInstanceAs (Decidable (List.Pairwise _ _))

variable {chain : ChainId} {record : GenesisRecord}

theorem HeaderDelivery.request_headers (d : HeaderDelivery) (config : BridgeConfig) (now : UInt64)
    (chain : ChainId) : (d.request config now chain).op.headers = [d.header] := by
  cases hstrict : d.strict <;> simp [request, hstrict, BridgeOp.headers]

/-- Refusing the call or not makes no difference to the state. -/
theorem HeaderDelivery.perform_state (d : HeaderDelivery) (config : BridgeConfig) (now : UInt64)
    (chain : ChainId) (bridge : Bridge) :
    ((d.request config now chain).perform bridge).2.state =
      (syncBatch config.headerSync ⟨d.height, now⟩ chain [d.header] bridge.state).2 := by
  obtain ⟨height, strict, header⟩ := d
  cases strict with
  | true =>
    change (Bridge.syncHeaders config ⟨height, now⟩ chain [header] bridge).2.state = _
    rw [Bridge.syncHeaders_state, Bridge.syncBatch_state]
  | false => exact Bridge.syncBatch_state config ⟨height, now⟩ chain [header] bridge

namespace Bridge

/-- The same bridge on a store that fails no more. -/
def calmed (bridge : Bridge) : Bridge := { bridge with state := bridge.state.calmed }

theorem calmed_memory (bridge : Bridge) (chain : ChainId) :
    bridge.calmed.state.memory chain = bridge.state.memory chain := rfl

theorem calmed_reliable {bridge : Bridge} (h : bridge.state.WellFormed) :
    bridge.calmed.state.Reliable := ⟨fun _ _ => rfl, h⟩

/-- The calls that bring headers in an order. -/
def deliveries (config : BridgeConfig) (now : UInt64) (chain : ChainId)
    (order : List HeaderDelivery) : List BridgeRequest :=
  order.map fun d => d.request config now chain

/-- What a bridge remembers of a chain after headers have come. -/
def delivered (bridge : Bridge) (config : BridgeConfig) (now : UInt64) (chain : ChainId)
    (order : List HeaderDelivery) : ChainMemory :=
  (after (deliveries config now chain order) bridge).memory chain

/-- A reliable store stays so. -/
theorem reliable_after {bridge : Bridge} (h : bridge.state.Reliable)
    (requests : List BridgeRequest) : (after requests bridge).Reliable :=
  run_induction (fun request _ b hb => hb.writes (request.perform_writes b)) h

/-- After every run a chain with a genesis has its sets from governance. -/
theorem began_after (module : Bytes) (faults : Nat → StoreOp → Option StoreFault)
    (requests : List BridgeRequest) (chain : ChainId) (record : GenesisRecord)
    (h : ((after requests (empty module faults)).memory chain).genesis? = some record) :
    ∃ g, ((after requests (empty module faults)).memory chain).Began record g := by
  have hblank : ((empty module faults).state.memory chain).Blank := empty_blank module faults
  refine memory_induction (P := fun _ => True)
    (I := fun m => ∀ record, m.genesis? = some record → ∃ g, m.Began record g)
    (fun _ _ _ _ => trivial) ?_ (empty_wellFormed module faults) ?_ record h
  · exact fun _ _ _ _ _ hstep hs => hstep.began_of_genesis hs
  · exact fun record hrecord => nomatch hblank.genesis.symm.trans hrecord

section

variable {bridge : Bridge} {config : BridgeConfig} {now : UInt64} {g : GenesisEpochs}

/-- What holds of the headers that come holds of those that the calls bring. -/
theorem forall_deliveries {P : Header → Prop} {order : List HeaderDelivery}
    (h : ∀ d ∈ order, P d.header) :
    ∀ request ∈ deliveries config now chain order, ∀ header ∈ request.op.headers, P header := by
  intro request hrequest header hheader
  obtain ⟨d, hd, rfl⟩ := List.mem_map.mp hrequest
  rw [d.request_headers, List.mem_singleton] at hheader
  exact hheader ▸ h d hd

/-- Headers that come leave the memory of their chain sound. -/
theorem delivered_sound {order : List HeaderDelivery} (hs : bridge.state.WellFormed)
    (hsound : (bridge.state.memory chain).Sound) (hlow : ∀ d ∈ order, d.header.Low) :
    (bridge.delivered config now chain order).Sound :=
  memory_induction (forall_deliveries hlow) (fun _ _ _ _ _ h hs => h.sound hs) hs hsound

/-- What is remembered after one header more. -/
theorem delivered_snoc (bridge : Bridge) (config : BridgeConfig) (now : UInt64) (chain : ChainId)
    (front : List HeaderDelivery) (d : HeaderDelivery) :
    bridge.delivered config now chain (front ++ [d]) =
      (after [d.request config now chain]
        (run (deliveries config now chain front) bridge).2).memory chain := by
  rw [delivered, deliveries, List.map_append, after_append]
  rfl

/-- The parent of the genesis is not stored unless it was or came. -/
theorem delivered_not_looped {order : List HeaderDelivery} {G : TrustedHeader}
    (hs : bridge.state.WellFormed)
    (hbegun : (bridge.state.memory chain).genesis? = some record)
    (hG : (bridge.state.memory chain).header? record.hash = some G)
    (hnone : (bridge.state.memory chain).header? G.parentHash = none)
    (hnew : ∀ d ∈ order, d.header.hash ≠ G.parentHash) :
    ¬ (bridge.delivered config now chain order).Looped record := by
  rintro ⟨G', Q, hG', hQ⟩
  have hkept := (extends_after hs hbegun (deliveries config now chain order)).header hG
  cases hkept.symm.trans hG'
  have hbrings : ∀ request ∈ deliveries config now chain order,
      ∀ header ∈ request.op.headers, ∃ d ∈ order, d.header = header :=
    forall_deliveries fun d hd => ⟨d, hd, rfl⟩
  rcases brought_after hs hbrings hQ with hold | ⟨_, ⟨d, hd, rfl⟩, hhash⟩
  · exact nomatch hnone.symm.trans hold
  · exact hnew d hd hhash

/-- Headers that come parents first, under digests of their own, are judged as things stand in the
end. -/
theorem delivered_judged {order : List HeaderDelivery} (hs : bridge.state.Reliable)
    (hsound : (bridge.state.memory chain).Sound) (hg : (bridge.state.memory chain).Began record g)
    (hlow : ∀ d ∈ order, d.header.Low) (hparents : ParentsFirst (order.map HeaderDelivery.header))
    (hdigests : ∀ d ∈ order, ∀ d' ∈ order, d.header.hash = d'.header.hash → d.header = d'.header)
    (hroot : ¬ (bridge.delivered config now chain order).Looped record) :
    (bridge.state.memory chain).Judged ⟨config.headerSync, now, chain, g⟩
      (order.map HeaderDelivery.header) (bridge.delivered config now chain order) := by
  induction order using List.reverseRecOn with
  | nil => exact .nil ⟨_, bridge.state.memory_atMost chain⟩
  | append_singleton front d ih =>
    have hfront : ∀ d' ∈ front, d' ∈ front ++ [d] := fun d' hd' => List.mem_append_left _ hd'
    have hlast : d ∈ front ++ [d] := List.mem_append_right _ List.mem_cons_self
    rw [ParentsFirst, List.map_append, List.pairwise_append] at hparents
    have hlowFront : ∀ d' ∈ front, d'.header.Low := fun d' hd' => hlow d' (hfront d' hd')
    have hreliable := reliable_after hs (deliveries config now chain front)
    have hbegun : (bridge.delivered config now chain front).Began record g :=
      hg.extends (extends_after hs.form hg.genesis _)
    have hsoundFront : (bridge.delivered config now chain front).Sound :=
      delivered_sound hs.form hsound hlowFront
    obtain ⟨tip, htree, hcanonical⟩ := hsoundFront.canonical hbegun.genesis
    have hreceives : (bridge.delivered config now chain front).Receives
        ⟨config.headerSync, now, chain, g⟩ d.header
        (bridge.delivered config now chain (front ++ [d])) := by
      have hstate := d.perform_state config now chain
        (run (deliveries config now chain front) bridge).2
      rw [delivered_snoc, after, run, run, hstate]
      exact syncBatch_receives ⟨config.headerSync, now, chain, g⟩ d.header d.height hreliable htree
        hcanonical hbegun
    have hgrows : (bridge.delivered config now chain front).Extends
        (bridge.delivered config now chain (front ++ [d])) := by
      rw [delivered_snoc]
      exact extends_after hreliable.form hbegun.genesis _
    have hjudged := ih hlowFront hparents.1
      (fun d' hd' d'' hd'' => hdigests d' (hfront d' hd') d'' (hfront d'' hd''))
      (fun hl => hroot (hl.extends hgrows.header))
    rw [List.map_append]
    refine hjudged.snoc htree hreceives hroot ⟨_, State.memory_atMost _ chain⟩ ?_ ?_
    · intro h hh
      exact hparents.2.2 h hh _ List.mem_cons_self
    · intro h hh hsame
      obtain ⟨d', hd', rfl⟩ := List.mem_map.mp hh
      exact hdigests d' (hfront d' hd') d hlast hsame

/-- Headers that come in two orders converge. -/
theorem delivered_converged {first second : List HeaderDelivery} (hs : bridge.state.Reliable)
    (hsound : (bridge.state.memory chain).Sound) (hg : (bridge.state.memory chain).Began record g)
    (same : (first.map HeaderDelivery.header).Perm (second.map HeaderDelivery.header))
    (hlow : ∀ h ∈ first.map HeaderDelivery.header, h.Low)
    (hdigests : ∀ h ∈ first.map HeaderDelivery.header, ∀ h' ∈ first.map HeaderDelivery.header,
      h.hash = h'.hash → h = h')
    (hfirst : ParentsFirst (first.map HeaderDelivery.header))
    (hsecond : ParentsFirst (second.map HeaderDelivery.header))
    (hroot : ¬ (bridge.delivered config now chain first).Looped record)
    (hroot' : ¬ (bridge.delivered config now chain second).Looped record) :
    (bridge.delivered config now chain first).Converged
      (bridge.delivered config now chain second) := by
  obtain ⟨tip₀, hstart, -⟩ := hsound.canonical hg.genesis
  have hmem (d : HeaderDelivery) (hd : d ∈ second) : d.header ∈ first.map HeaderDelivery.header :=
    same.mem_iff.mpr (List.mem_map_of_mem hd)
  have hlow₁ : ∀ d ∈ first, d.header.Low := fun d hd => hlow _ (List.mem_map_of_mem hd)
  have hlow₂ : ∀ d ∈ second, d.header.Low := fun d hd => hlow _ (hmem d hd)
  have hjudged := delivered_judged hs hsound hg hlow₁ hfirst
    (fun d hd d' hd' => hdigests _ (List.mem_map_of_mem hd) _ (List.mem_map_of_mem hd')) hroot
  have hjudged' := delivered_judged hs hsound hg hlow₂ hsecond
    (fun d hd d' hd' => hdigests _ (hmem d hd) _ (hmem d' hd')) hroot'
  have hgenesis := hjudged.genesis.trans hg.genesis
  have hgenesis' := hjudged'.genesis.trans hg.genesis
  obtain ⟨tip, htree, hcanonical⟩ :=
    (delivered_sound hs.form hsound hlow₁).canonical hgenesis
  obtain ⟨tip', htree', hcanonical'⟩ :=
    (delivered_sound hs.form hsound hlow₂).canonical hgenesis'
  have hheaders := hjudged.header?_eq hjudged' (fun h => same.mem_iff) hstart htree htree' hroot
    hroot'
  exact hcanonical.converged hcanonical' htree hheaders (hgenesis'.trans hgenesis.symm)
    (hjudged'.epoch.trans hjudged.epoch.symm)

end

/-! ## Convergence -/

/-- From whatever state calls have left on a chain that has begun, on a store that fails no more,
headers below the largest height that come one by one, parents first and under one time, come to the
same stored headers and to tips of one weight in any two orders, and with one heaviest header to the
same markers; unless two different ones of them have one digest. No stored header may be the parent
of the genesis. -/
theorem header_order_converges (module : Bytes) (faults : Nat → StoreOp → Option StoreFault)
    (requests : List BridgeRequest)
    (hlow : ∀ request ∈ requests, ∀ header ∈ request.op.headers, header.Low) (chain : ChainId)
    (record : GenesisRecord)
    (hbegun : ((after requests (empty module faults)).memory chain).genesis? = some record)
    (config : BridgeConfig) (now : UInt64) (first second : List HeaderDelivery)
    (same : (first.map HeaderDelivery.header).Perm (second.map HeaderDelivery.header))
    (hheaders : ∀ h ∈ first.map HeaderDelivery.header, h.Low)
    (hfirst : ParentsFirst (first.map HeaderDelivery.header))
    (hsecond : ParentsFirst (second.map HeaderDelivery.header))
    (hroot : ¬ ((run requests (empty module faults)).2.calmed.delivered config now chain
      first).Looped record)
    (hroot' : ¬ ((run requests (empty module faults)).2.calmed.delivered config now chain
      second).Looped record) :
    ((run requests (empty module faults)).2.calmed.delivered config now chain first).Converged
        ((run requests (empty module faults)).2.calmed.delivered config now chain second) ∨
      ∃ h ∈ first.map HeaderDelivery.header, ∃ h' ∈ first.map HeaderDelivery.header,
        h ≠ h' ∧ h.hash = h'.hash := by
  by_cases hcollide : ∃ h ∈ first.map HeaderDelivery.header,
      ∃ h' ∈ first.map HeaderDelivery.header, h ≠ h' ∧ h.hash = h'.hash
  · exact .inr hcollide
  left
  push Not at hcollide
  obtain ⟨g, hg⟩ := began_after module faults requests chain record hbegun
  have hreliable := calmed_reliable (wellFormed_after requests module faults)
  have hsound : ((after requests (empty module faults)).memory chain).Sound := sound_after hlow chain
  have hdigests : ∀ h ∈ first.map HeaderDelivery.header,
      ∀ h' ∈ first.map HeaderDelivery.header, h.hash = h'.hash → h = h' := by
    intro h hh h' hh' heq
    by_contra hne
    exact hcollide h hh h' hh' hne heq
  exact delivered_converged hreliable hsound hg same hheaders hdigests hfirst hsecond hroot hroot'

/-! ## A fork that comes in two orders -/

/-- The validator's seal of a second child of the genesis of the short chain. -/
def rivalSeal : FixedBytes 65 :=
  (FixedBytes.ofNatBE 32
    0x855faac16c660e8d3eafc3c6386247b096b5537bb9209b5f5beb7bb42d628881).append
  ((FixedBytes.ofNatBE 32
    0x395e25fd9469819acdc49cfaecdb87235ec404de07045118be7bdb1a35810370).append (.ofNatBE 1 1))

/-- A second child of the genesis of the short chain. -/
def rivalChild : Header :=
  { shortChild with
    time := 101
    extra := Header.buildExtra (.zero 32) [] rivalSeal }

/-- The validator's seal of the header above it. -/
def rivalTopSeal : FixedBytes 65 :=
  (FixedBytes.ofNatBE 32
    0x281df25375f1457b43f446142f14ad8c7ea30e16106be12122a581bf9b28537f).append
  ((FixedBytes.ofNatBE 32
    0x75ff26053ec89b5c0d9de8a68b3451ee33bf4cd2cb6ba47e0031cf28d7d62ae8).append (.ofNatBE 1 1))

/-- The header above the second child. -/
def rivalTop : Header :=
  { shortChild with
    parentHash := .ofNatBE 32 0x866da394cab1e32dea29eb83d89cdd61961829375cb01091da8b8fd4b52aeeb6
    number := 10
    time := 102
    extra := Header.buildExtra (.zero 32) [] rivalTopSeal }

/-- The header above the second child as it is trusted. -/
def rivalTrusted : TrustedHeader where
  hash := .ofNatBE 32 0x02efce9114d84180f9974e674e3f4053f30c50208af31a646a801efab3d52f29
  header := rivalTop
  signer := soleSigner
  weight := 6

/-- The fork with its lighter branch first. -/
def forkForth : List HeaderDelivery :=
  [⟨5, false, shortChild⟩, ⟨6, false, rivalChild⟩, ⟨7, true, rivalTop⟩]

/-- The fork with its lighter branch last, in one block. -/
def forkBack : List HeaderDelivery :=
  [⟨9, false, rivalChild⟩, ⟨9, true, rivalTop⟩, ⟨9, false, shortChild⟩]

/-- The bridge on which the short chain has begun. -/
def forkStart : Bridge := (run (shortRequests.take 1) (empty [] fun _ _ => none)).2.calmed

theorem forkStart_memory :
    ((forkStart.state.memory 2).genesis?, (forkStart.state.memory 2).header? shortRecord.hash,
      (forkStart.state.memory 2).header? (.zero 32)) =
    (some shortRecord, some ⟨shortRecord.hash, shortGenesis, .zero 20, 2⟩, none) := by
  decide +kernel

theorem fork_hashes : (shortChild.hash, rivalChild.hash, rivalTop.hash) =
    (shortTrusted.hash, rivalTop.parentHash, rivalTrusted.hash) := by
  decide +kernel

theorem shortChild_hash : shortChild.hash = shortTrusted.hash := (Prod.mk.inj fork_hashes).1

theorem rivalChild_hash : rivalChild.hash = rivalTop.parentHash :=
  (Prod.mk.inj (Prod.mk.inj fork_hashes).2).1

theorem rivalTop_hash : rivalTop.hash = rivalTrusted.hash :=
  (Prod.mk.inj (Prod.mk.inj fork_hashes).2).2

theorem forkForth_hashes : (forkForth.map HeaderDelivery.header).map Header.hash =
    [shortTrusted.hash, rivalTop.parentHash, rivalTrusted.hash] := by
  simp only [forkForth, List.map_cons, List.map_nil, shortChild_hash, rivalChild_hash,
    rivalTop_hash]

/-- The digests differ from one another and from that of the parent of the genesis. -/
theorem fork_apart :
    [.zero 32, shortTrusted.hash, rivalTop.parentHash, rivalTrusted.hash].Nodup := by
  decide

/-- No header of the fork is the parent of the genesis. -/
theorem forkForth_new (h : Header) (hh : h ∈ forkForth.map HeaderDelivery.header) :
    h.hash ≠ .zero 32 := by
  have hmem := List.mem_map_of_mem (f := Header.hash) hh
  rw [forkForth_hashes] at hmem
  rintro heq
  exact (List.nodup_cons.mp fork_apart).1 (heq ▸ hmem)

theorem forkForth_parentsFirst : ParentsFirst (forkForth.map HeaderDelivery.header) := by
  simp only [ParentsFirst, forkForth, List.map_cons, List.map_nil, List.pairwise_cons]
  simp only [List.mem_cons, forall_eq_or_imp, rivalChild_hash, rivalTop_hash]
  decide

theorem forkBack_parentsFirst : ParentsFirst (forkBack.map HeaderDelivery.header) := by
  simp only [ParentsFirst, forkBack, List.map_cons, List.map_nil, List.pairwise_cons]
  simp only [List.mem_cons, forall_eq_or_imp, shortChild_hash, rivalTop_hash]
  decide

/-- The fork ends with the second branch as the only heaviest one. -/
theorem forkForth_heaviest :
    ((after (deliveries .trial 500 2 forkForth) forkStart).memory 2).header? rivalTrusted.hash =
        some rivalTrusted ∧
      ∀ H ∈ (after (deliveries .trial 500 2 forkForth) forkStart).readableHeaders,
        H ≠ rivalTrusted → H.weight < rivalTrusted.weight := by
  decide +kernel

/-- Both orders of the fork leave the same behind, with the upper header of the second branch
stored. -/
theorem fork_converges :
    (forkStart.state.memory 2).genesis? = some shortRecord ∧
      (forkForth.map HeaderDelivery.header).Perm (forkBack.map HeaderDelivery.header) ∧
      ParentsFirst (forkForth.map HeaderDelivery.header) ∧
      ParentsFirst (forkBack.map HeaderDelivery.header) ∧
      (forkStart.delivered .trial 500 2 forkForth).header? rivalTrusted.hash = some rivalTrusted ∧
      forkStart.delivered .trial 500 2 forkBack = forkStart.delivered .trial 500 2 forkForth := by
  obtain ⟨hbegun, hrest⟩ := Prod.mk.inj forkStart_memory
  obtain ⟨hG, hnone⟩ := Prod.mk.inj hrest
  obtain ⟨hstored, hheaviest⟩ := forkForth_heaviest
  have hlow : ∀ request ∈ shortRequests.take 1, ∀ header ∈ request.op.headers, header.Low :=
    fun request hrequest => shortRequests_low request (List.mem_of_mem_take hrequest)
  have hperm : (forkForth.map HeaderDelivery.header).Perm (forkBack.map HeaderDelivery.header) :=
    .trans (.swap _ _ _) (.cons _ (.swap _ _ _))
  have hheaders : ∀ h ∈ forkForth.map HeaderDelivery.header, h.Low := by
    simp [forkForth, Header.Low, shortChild, rivalChild, rivalTop]
  have hform : forkStart.state.WellFormed :=
    (calmed_reliable (wellFormed_after (shortRequests.take 1) [] fun _ _ => none)).form
  have hroot : ¬ (forkStart.delivered .trial 500 2 forkForth).Looped shortRecord :=
    delivered_not_looped hform hbegun hG hnone fun d hd => forkForth_new _ (List.mem_map_of_mem hd)
  have hroot' : ¬ (forkStart.delivered .trial 500 2 forkBack).Looped shortRecord :=
    delivered_not_looped hform hbegun hG hnone
      fun d hd => forkForth_new _ (hperm.mem_iff.mpr (List.mem_map_of_mem hd))
  have hstart := hbegun
  rw [forkStart, calmed_memory] at hstart
  rcases header_order_converges [] (fun _ _ => none) (shortRequests.take 1) hlow 2 shortRecord
    hstart .trial 500 forkForth forkBack hperm hheaders forkForth_parentsFirst
    forkBack_parentsFirst hroot hroot' with
    hconverged | ⟨h, hh, h', hh', hne, hsame⟩
  · have hstores : (forkStart.delivered .trial 500 2 forkForth).Stores rivalTrusted :=
      ⟨_, hstored⟩
    refine ⟨hbegun, hperm, forkForth_parentsFirst, forkBack_parentsFirst, hstored, ?_⟩
    exact hconverged.same rivalTrusted hstores fun H hH =>
      hheaviest H (State.mem_readableHeaders hH)
  · have hnodup : ((forkForth.map HeaderDelivery.header).map Header.hash).Nodup := by
      rw [forkForth_hashes]
      exact (List.nodup_cons.mp fork_apart).2
    exact absurd (List.inj_on_of_nodup_map hnodup hh hh' hsame) hne

end Bridge

end BridgeKernel
