import BridgeKernel.Proofs.Bridge.Run
import BridgeKernel.Proofs.Header.Justified

/-!
# Chains along a run

A call either takes steps of the light client on a chain or leaves what is remembered of the chain
alone. So what every step preserves holds after every run, and the markers of a chain name one
connected chain of headers whose tip is heaviest.
-/

namespace BridgeKernel

open LightClient

/-- The headers that a call brings. -/
def BridgeOp.headers : BridgeOp → List Header
  | .syncGenesis _ header _ => [header]
  | .syncBatch _ _ headers => headers
  | .syncHeaders _ _ headers => headers
  | _ => []

variable {P : Header → Prop} {chain : ChainId}

/-- A record belongs to the memory of one chain. -/
theorem RecordKey.Remembers.chain_eq {key : RecordKey} {c : ChainId} (h : key.Remembers c)
    (h' : key.Remembers chain) : c = chain := by
  cases key <;> first | exact h.symm.trans h' | exact h.elim

/-- What a call does to the memory of a chain. -/
inductive BridgeRequest.Treats (request : BridgeRequest) (chain : ChainId) (s t : State) : Prop
  /-- It leaves the memory alone. -/
  | aside (same : t.memory chain = s.memory chain)
  /-- It is to begin the chain. -/
  | begins {header : Header} {prior : List Address}
    (op : request.op = .syncGenesis chain header prior)
    (state : t = (setGenesis request.config.headerSync chain header prior s).2)
  /-- It brings headers of the chain. -/
  | brings {ctx : BlockContext} {headers : List Header} (op : request.op.headers = headers)
    (state : t = (LightClient.syncBatch request.config.headerSync ctx chain headers s).2)

/-- A call is to begin a chain, brings headers of it, or leaves its memory alone. -/
theorem BridgeRequest.perform_treats (request : BridgeRequest) (bridge : Bridge)
    (chain : ChainId) :
    request.Treats chain bridge.state (request.perform bridge).2.state := by
  by_cases htouch : ∀ key, request.op.Touches key → ¬ key.Remembers chain
  · exact .aside ((request.perform_writes bridge).memory_eq htouch)
  push Not at htouch
  obtain ⟨key, htouch, hkey⟩ := htouch
  obtain ⟨config, op⟩ := request
  cases op with
  | syncGenesis c header prior =>
    obtain rfl := RecordKey.Remembers.chain_eq htouch hkey
    exact .begins rfl (Bridge.syncGenesis_state config c header prior bridge)
  | syncBatch ctx c headers =>
    obtain rfl := RecordKey.Remembers.chain_eq htouch hkey
    exact .brings rfl (Bridge.syncBatch_state config ctx c headers bridge)
  | syncHeaders ctx c headers =>
    obtain rfl := RecordKey.Remembers.chain_eq htouch hkey
    have hstate := Bridge.syncHeaders_state config ctx c headers bridge
    exact .brings rfl (hstate.trans (Bridge.syncBatch_state config ctx c headers bridge))
  | propose =>
    rcases htouch with ⟨hash, rfl⟩ | ⟨c, id, rfl⟩
    · exact hkey.elim
    · exact hkey.elim
  | isApplied => exact htouch.elim
  | installCommittee | rotateCommittee =>
    obtain rfl : key = _ := htouch
    exact hkey.elim
  | registerRedeem | recordDeposit | createDraft | addSignature =>
    cases key <;> first | exact htouch.elim | exact hkey.elim

/-- A call takes steps on a chain or does not touch its memory. -/
theorem BridgeRequest.perform_memory (request : BridgeRequest) (bridge : Bridge)
    (chain : ChainId) (hP : ∀ header ∈ request.op.headers, P header) :
    Steps P request.config.headerSync chain bridge.state (request.perform bridge).2.state ∨
      (request.perform bridge).2.state.memory chain = bridge.state.memory chain := by
  cases request.perform_treats bridge chain with
  | aside same => exact .inr same
  | @begins header prior op state =>
    rw [state]
    have hheader : P header := hP header (by rw [op]; exact List.mem_cons_self)
    exact .inl (.single (setGenesis_step _ prior hheader _))
  | @brings ctx headers op state =>
    rw [state]
    exact .inl (syncBatch_steps _ ctx (fun header hm => hP header (op ▸ hm)) _)

/-! ## The canonical chain of a state -/

/-- A chain with a genesis and a tip height whose markers name one header at each height in between,
each the parent of the next, and whose tip is heaviest. -/
structure State.Connected (s : State) (chain : ChainId) (record : GenesisRecord)
    (height : UInt64) : Prop where
  /-- The tip is not below the genesis. -/
  ordered : record.number ≤ height
  /-- There are markers from the genesis to the tip and nowhere else. -/
  marked_iff : ∀ level, (s.raw? (.canonical chain level)).isSome = true ↔
    record.number ≤ level ∧ level ≤ height
  /-- The genesis is marked. -/
  root : (s.memory chain).canonical? record.number = some record.hash
  /-- A marker names a stored header of its height, whose parent has the marker below. -/
  linked : ∀ level, record.number ≤ level → level ≤ height →
    ∃ hash H, (s.memory chain).canonical? level = some hash ∧
      (s.memory chain).header? hash = some H ∧ H.number = level ∧
      (record.number < level → (s.memory chain).canonical? (level - 1) = some H.parentHash)
  /-- Every stored header but the genesis has a stored parent one lower, to whose weight it adds its
  difficulty. -/
  parent : ∀ hash H, (s.memory chain).header? hash = some H → hash ≠ record.hash →
    ∃ P, (s.memory chain).header? H.parentHash = some P ∧
      P.number.toNat + 1 = H.number.toNat ∧
      H.weight.toNat = P.weight.toNat + H.header.difficulty.toNat
  /-- The tip outweighs every stored header or weighs the same. -/
  heaviest : ∃ hash tip, (s.memory chain).canonical? height = some hash ∧
    (s.memory chain).header? hash = some tip ∧
    ∀ other H, (s.memory chain).header? other = some H → H.weight ≤ tip.weight

/-- A tree with its canonical markers is connected. -/
theorem ChainMemory.Canonical.connected {s : State} {record : GenesisRecord} {tip : TrustedHeader}
    (h : (s.memory chain).Canonical record tip) (ht : (s.memory chain).Tree record)
    (hs : s.WellFormed) : s.Connected chain record tip.number where
  ordered := UInt64.le_iff_toNat_le.mpr (ht.above h.spine.stored)
  marked_iff level := by
    rw [hs.canonical_isSome, h.isSome_iff, UInt64.le_iff_toNat_le, UInt64.le_iff_toNat_le]
  root := h.root_mark ht
  linked level hlow hhigh := by
    rw [UInt64.le_iff_toNat_le] at hlow hhigh
    obtain ⟨A, rfl, hA⟩ := h.spine.at_level hlow hhigh
    refine ⟨A.hash, A, hA.mark, hA.stored, rfl, fun habove => ?_⟩
    exact ChainMemory.Canonical.parent_mark hA ht (UInt64.lt_iff_toNat_lt.mp habove)
  parent hash H hH hne := ht.parent hH hne
  heaviest := by
    refine ⟨tip.hash, tip, h.spine.mark, h.spine.stored, fun other H hH => ?_⟩
    exact BitVec.le_def.mpr (h.heaviest hH)

namespace Bridge

/-- What every step on a chain preserves of its memory holds after a run. -/
theorem memory_induction {I : ChainMemory → Prop} {requests : List BridgeRequest} {bridge : Bridge}
    (hP : ∀ request ∈ requests, ∀ header ∈ request.op.headers, P header)
    (hstep : ∀ request ∈ requests, ∀ s t, s.WellFormed →
      Step P request.config.headerSync chain s t → I (s.memory chain) → I (t.memory chain))
    (hform : bridge.state.WellFormed) (h : I (bridge.state.memory chain)) :
    I ((after requests bridge).memory chain) := by
  have hboth : (after requests bridge).WellFormed ∧ I ((after requests bridge).memory chain) := by
    refine run_induction (I := fun s => s.WellFormed ∧ I (s.memory chain)) ?_ ⟨hform, h⟩
    intro request hr b hb
    rcases request.perform_memory b chain (hP request hr) with hsteps | hsame
    · refine hsteps.preserves (I := fun s => s.WellFormed ∧ I (s.memory chain)) ?_ hb
      intro s t h hs
      exact ⟨h.writes.wellFormed hs.1, hstep request hr s t hs.1 h hs.2⟩
    · exact ⟨(request.perform_writes b).wellFormed hb.1, by rw [hsame]; exact hb.2⟩
  exact hboth.2

theorem empty_wellFormed (module : Bytes) (faults : Nat → StoreOp → Option StoreFault) :
    (empty module faults).state.WellFormed :=
  wellFormed_after [] module faults

theorem empty_blank (module : Bytes) (faults : Nat → StoreOp → Option StoreFault) :
    ((empty module faults).state.memory chain).Blank :=
  ⟨rfl, fun _ => rfl, fun _ => rfl⟩

/-- After every run the memory of a chain is sound. -/
theorem sound_after {module : Bytes} {faults : Nat → StoreOp → Option StoreFault}
    {requests : List BridgeRequest}
    (hlow : ∀ request ∈ requests, ∀ header ∈ request.op.headers, header.Low) (chain : ChainId) :
    ((after requests (empty module faults)).memory chain).Sound :=
  memory_induction hlow (fun _ _ _ _ _ h hs => h.sound hs) (empty_wellFormed module faults)
    (.blank (empty_blank module faults))

/-- Calls only add to the memory of a chain that has begun. -/
theorem extends_after {bridge : Bridge} (hform : bridge.state.WellFormed) {record : GenesisRecord}
    (hbegun : (bridge.state.memory chain).genesis? = some record) (requests : List BridgeRequest) :
    (bridge.state.memory chain).Extends ((after requests bridge).memory chain) := by
  refine memory_induction (P := fun _ => True) (fun _ _ _ _ => trivial) ?_ hform (.refl _)
  intro request hr s t hs h hextends
  exact hextends.trans (h.extends (hextends.genesis hbegun))

/-- What is stored after calls was stored before them, or they brought it. -/
theorem brought_after {bridge : Bridge} {requests : List BridgeRequest} {hash : Hash}
    {H : TrustedHeader} (hform : bridge.state.WellFormed)
    (hP : ∀ request ∈ requests, ∀ header ∈ request.op.headers, P header)
    (h : ((after requests bridge).memory chain).header? hash = some H) :
    (bridge.state.memory chain).header? hash = some H ∨ ∃ header, P header ∧ header.hash = hash := by
  have hset {m : ChainMemory} {T : TrustedHeader} {hash : Hash} {H : TrustedHeader}
      (hH : (m.setHeader T).header? hash = some H) :
      m.header? hash = some H ∨ hash = T.hash := by
    rw [ChainMemory.setHeader_header?] at hH
    split at hH
    · next he => exact .inr he
    · exact .inl hH
  refine memory_induction (P := P) (I := fun m => ∀ {hash H}, m.header? hash = some H →
    (bridge.state.memory chain).header? hash = some H ∨ ∃ header, P header ∧ header.hash = hash)
    hP ?_ hform .inl h
  intro request _ s t _ hstep hs hash H hH
  cases hstep with
  | quiet hu =>
    rw [hu.memory_eq] at hH
    exact hs hH
  | @began header _ _ hheader _ _ begins =>
    rw [begins.changed.memory_eq,
      memory_genesisChanges begins.fits begins.fitsPrior begins.fitsCurrent] at hH
    rcases hset (m := s.memory chain) hH with hold | hnew
    · exact hs hold
    · exact .inr ⟨header, hheader, hnew.symm⟩
  | @grew _ _ trusted _ _ _ _ hheader _ _ verified _ _ fits changed =>
    rw [changed.memory_eq, memory_headerChanges fits, ChainMemory.move_header?] at hH
    rcases hset hH with hold | hnew
    · exact hs hold
    · exact .inr ⟨trusted.header, hheader, (hnew.trans verified.hash).symm⟩

/-- What holds of a blank memory, and what every step on a sound one preserves, holds after a run. -/
theorem sound_induction {I : ChainMemory → Prop} {module : Bytes}
    {faults : Nat → StoreOp → Option StoreFault} {requests : List BridgeRequest}
    (hlow : ∀ request ∈ requests, ∀ header ∈ request.op.headers, header.Low)
    (hblank : ∀ m, m.Blank → I m)
    (hstep : ∀ request ∈ requests, ∀ s t, s.WellFormed → (s.memory chain).Sound →
      Step Header.Low request.config.headerSync chain s t → I (s.memory chain) →
      I (t.memory chain)) :
    I ((after requests (empty module faults)).memory chain) := by
  have hstart : ((empty module faults).state.memory chain).Blank := empty_blank module faults
  refine (memory_induction (I := fun m => m.Sound ∧ I m) hlow ?_
    (empty_wellFormed module faults) ⟨.blank hstart, hblank _ hstart⟩).2
  intro request hr s t hform h hs
  exact ⟨h.sound hs.1, hstep request hr s t hform hs.1 h hs.2⟩

/-- With fixed settings of the light client all headers are justified after a run. -/
theorem allJustified_after {module : Bytes} {faults : Nat → StoreOp → Option StoreFault}
    {config : HeaderSyncConfig} {requests : List BridgeRequest}
    (hconfig : ∀ request ∈ requests, request.config.headerSync = config)
    (hlow : ∀ request ∈ requests, ∀ header ∈ request.op.headers, header.Low) (chain : ChainId) :
    ((after requests (empty module faults)).memory chain).AllJustified config chain := by
  refine sound_induction (I := fun m => m.AllJustified config chain) hlow ?_ ?_
  · intro m hblank record hrecord
    exact nomatch hblank.genesis.symm.trans hrecord
  · intro request hr s t hform hsound h hs
    rw [hconfig request hr] at h
    exact h.allJustified hform hsound hs

/-- After every run, what holds of every verified header holds of all headers above the genesis. -/
theorem allAbove_after {module : Bytes} {faults : Nat → StoreOp → Option StoreFault}
    {requests : List BridgeRequest} {Q : TrustedHeader → Prop}
    (hlow : ∀ request ∈ requests, ∀ header ∈ request.op.headers, header.Low)
    (hQ : ∀ request ∈ requests, ∀ s g trusted parent pair,
      Verified request.config.headerSync chain g s trusted parent pair → Q trusted) :
    ((after requests (empty module faults)).memory chain).AllAbove Q := by
  refine sound_induction (I := fun m => m.AllAbove Q) hlow ?_ ?_
  · intro m hblank record hrecord
    exact nomatch hblank.genesis.symm.trans hrecord
  · intro request hr s t _ hsound h hs
    exact h.allAbove hsound (hQ request hr s) hs

/-! ## Laws of all runs -/

/-- After every run with headers below the largest height, a chain that has begun has one connected
canonical chain from its genesis to its heaviest header, and no other markers. -/
theorem canonical_chain_connected (module : Bytes) (faults : Nat → StoreOp → Option StoreFault)
    (requests : List BridgeRequest)
    (hlow : ∀ request ∈ requests, ∀ header ∈ request.op.headers, header.Low) (chain : ChainId)
    (record : GenesisRecord)
    (hbegun : ((after requests (empty module faults)).memory chain).genesis? = some record) :
    ∃ height, ((after requests (empty module faults)).memory chain).height? = some height ∧
      (after requests (empty module faults)).Connected chain record height := by
  cases sound_after hlow chain with
  | blank hblank => exact nomatch hblank.genesis.symm.trans hbegun
  | @begun found tip genesis tree canonical =>
    obtain rfl : found = record := Option.some.inj (genesis.symm.trans hbegun)
    have hform := wellFormed_after requests module faults
    exact ⟨tip.number, canonical.height, canonical.connected tree hform⟩

/-- After every run with fixed settings of the light client and headers below the largest height,
each header but the genesis is justified by the line of its ancestors and the sets announced there,
and the same line and sets justify it after whatever is called later. -/
theorem stored_headers_justified (module : Bytes) (faults : Nat → StoreOp → Option StoreFault)
    (config : HeaderSyncConfig) (requests : List BridgeRequest)
    (hconfig : ∀ request ∈ requests, request.config.headerSync = config)
    (hlow : ∀ request ∈ requests, ∀ header ∈ request.op.headers, header.Low) (chain : ChainId)
    (record : GenesisRecord)
    (hbegun : ((after requests (empty module faults)).memory chain).genesis? = some record) :
    ∃ g, ∀ hash H, ((after requests (empty module faults)).memory chain).header? hash = some H →
      hash ≠ record.hash → ∃ line pair, ∀ later,
        ((after (requests ++ later) (empty module faults)).memory chain).header? hash = some H ∧
        ((after (requests ++ later) (empty module faults)).memory chain).Began record g ∧
        ((after (requests ++ later) (empty module faults)).memory chain).Justified
          config chain record g H line pair := by
  obtain ⟨g, hg, hall⟩ := allJustified_after hconfig hlow chain record hbegun
  refine ⟨g, fun hash H hH hne => ?_⟩
  obtain ⟨line, pair, hjustified⟩ := hall hash H hH hne
  refine ⟨line, pair, fun later => ?_⟩
  have hform := wellFormed_after requests module faults
  have hextends := extends_after hform hbegun later
  rw [after_append]
  exact ⟨hextends.header hH, hg.extends hextends, hjustified.extends hextends⟩

/-! ## A chain of two headers -/

/-- The only validator of a short chain. -/
def soleSigner : Address := .ofNatBE 20 0x7e5f4552091a69125d5dfcb7b8c2659029395bdf

/-- The genesis of the short chain, which announces the validator. -/
def shortGenesis : Header :=
  { Header.blank with
    number := 8
    extra := Header.buildExtra (.zero 32) [soleSigner] (.zero 65) }

/-- Where the short chain begins. -/
def shortRecord : GenesisRecord where
  hash := .ofNatBE 32 0xe254ca5b6cd0087030a36ebc7e02d51f4ab3d64397cfb199e638bc089f32899c
  number := 8
  priorEpochStart := 0

/-- The validator's seal of the next header, for chain 2. -/
def shortSeal : FixedBytes 65 :=
  (FixedBytes.ofNatBE 32
    0xb29c8550b4cd691821af478787de4cf1b8e1831936b5791bf1506791567a4c45).append
  ((FixedBytes.ofNatBE 32
    0x3b8cc5e949e330be4918f40b2d2a8b218f29d6d8c628a74d2752a9465b6cab2d).append (.ofNatBE 1 1))

/-- The next header. -/
def shortChild : Header :=
  { Header.blank with
    parentHash := shortRecord.hash
    coinbase := soleSigner
    number := 9
    time := 100
    extra := Header.buildExtra (.zero 32) [] shortSeal }

/-- The next header as it is trusted. -/
def shortTrusted : TrustedHeader where
  hash := .ofNatBE 32 0x7e6d75163a26e41ddff8f45ca899fa761a6867d320ead3aa7cb901f46538169f
  header := shortChild
  signer := soleSigner
  weight := 4

/-- Calls that bring both headers. -/
def shortRequests : List BridgeRequest := [
  ⟨.trial, .syncGenesis 2 shortGenesis []⟩,
  ⟨.trial, .syncBatch ⟨5, 500⟩ 2 [shortChild]⟩]

/-- What the bridge remembers of chain 2 after these calls. -/
def shortMemory : ChainMemory := (after shortRequests (empty [] fun _ _ => none)).memory 2

theorem shortRequests_low :
    ∀ request ∈ shortRequests, ∀ header ∈ request.op.headers, header.Low := by
  simp [shortRequests, BridgeOp.headers, Header.Low, shortGenesis, shortChild]

theorem shortMemory_eq :
    (shortMemory.genesis?, shortMemory.height?, shortMemory.header? shortTrusted.hash) =
      (some shortRecord, some 9, some shortTrusted) := by
  decide +kernel

/-- The two headers stand on the canonical chain, the second one at its end. -/
theorem short_chain_connected :
    (∀ request ∈ shortRequests, ∀ header ∈ request.op.headers, header.Low) ∧
      shortMemory.genesis? = some shortRecord ∧
      (after shortRequests (empty [] fun _ _ => none)).Connected 2 shortRecord 9 := by
  obtain ⟨hgenesis, hrest⟩ := Prod.mk.inj shortMemory_eq
  obtain ⟨hnine, -⟩ := Prod.mk.inj hrest
  obtain ⟨height, hheight, hconnected⟩ := canonical_chain_connected [] (fun _ _ => none)
    shortRequests shortRequests_low 2 shortRecord hgenesis
  obtain rfl : height = 9 := Option.some.inj (hheight.symm.trans hnine)
  exact ⟨shortRequests_low, hgenesis, hconnected⟩

/-- The second header is justified by what the first one announces. -/
theorem short_child_justified :
    (∀ request ∈ shortRequests, request.config.headerSync = .trial) ∧
      (∀ request ∈ shortRequests, ∀ header ∈ request.op.headers, header.Low) ∧
      shortMemory.genesis? = some shortRecord ∧
      shortMemory.header? shortTrusted.hash = some shortTrusted ∧
      ∃ g line pair, shortMemory.Justified .trial 2 shortRecord g shortTrusted line pair := by
  obtain ⟨hgenesis, hrest⟩ := Prod.mk.inj shortMemory_eq
  obtain ⟨-, hstored⟩ := Prod.mk.inj hrest
  have hconfig : ∀ request ∈ shortRequests, request.config.headerSync = .trial := by
    simp [shortRequests, BridgeConfig.trial]
  have hother : shortTrusted.hash ≠ shortRecord.hash := by decide +kernel
  obtain ⟨g, hall⟩ := stored_headers_justified [] (fun _ _ => none) .trial shortRequests hconfig
    shortRequests_low 2 shortRecord hgenesis
  obtain ⟨line, pair, hlater⟩ := hall shortTrusted.hash shortTrusted hstored hother
  have hnow := (hlater []).2.2
  rw [List.append_nil] at hnow
  exact ⟨hconfig, shortRequests_low, hgenesis, hstored, g, line, pair, hnow⟩

end Bridge

end BridgeKernel
