import BridgeKernel.Proofs.Bridge.HeaderRun
import BridgeKernel.Proofs.Claim.Evm
import BridgeKernel.Proofs.Header.Buried

/-!
# Claims under canonical headers

Along every run the markers of a chain reach up to its tip without a gap, so a header deep enough
below the canonical height is buried under as many headers as are asked for. A claim that is admitted
was proven under such a header, and its state root leaves no choice of the event.
-/

namespace BridgeKernel

/-- A canonical header with at least so many headers above it, one at each height up to the canonical
height, each the parent of the next. -/
structure ChainMemory.Confirms (m : ChainMemory) (blocks height top : UInt64)
    (H : TrustedHeader) : Prop where
  /-- The header is marked at the height and stored under its digest. -/
  canonical : m.canonical? height = some H.header.hash ∧ m.header? H.header.hash = some H
  /-- The canonical height. -/
  tip : m.height? = some top
  /-- It is at least so much higher. -/
  deep : height.toNat + blocks.toNat ≤ top.toNat
  /-- A header is marked at each height above and stored under its digest, and its parent is marked
  at the height below. -/
  descends : ∀ level, height < level → level ≤ top →
    ∃ D, m.canonical? level = some D.header.hash ∧ m.header? D.header.hash = some D ∧
      m.canonical? (level - 1) = some D.parentHash
  /-- Marked headers have the heights at which they are marked, unless the genesis names a stored
  header as its parent. -/
  numbered : m.Numbered ∨ ∃ record, m.genesis? = some record ∧ m.Looped record

/-- An anchor in a settled memory is confirmed as often as it must be. -/
theorem ChainMemory.Settled.confirms {m : ChainMemory} {blocks height : UInt64} {H : TrustedHeader}
    (h : m.Settled) (hH : EvmClaim.Anchor m blocks height H) :
    ∃ top, m.Confirms blocks height top H := by
  obtain ⟨hash, hmark, hstored⟩ := Option.bind_eq_some_iff.mp hH.canonical
  cases h with
  | blank hblank => exact nomatch (hblank.canonical height).symm.trans hmark
  | @begun record tip genesis rooted buried numbered =>
    have hdigest {hash : Hash} {A : TrustedHeader} (hA : m.header? hash = some A) :
        A.header.hash = hash := (buried.named hA).2
    have hwithin := buried.within hmark
    refine ⟨tip.number, ?_⟩
    constructor
    case canonical =>
      rw [hdigest hstored]
      exact ⟨hmark, hstored⟩
    case tip => exact buried.height
    case deep =>
      have hconfirmed := UInt64.le_iff_toNat_le.mp hH.confirmed
      rw [saturatingSub_toNat, buried.height, Option.getD_some] at hconfirmed
      omega
    case descends =>
      intro level hlow hhigh
      obtain ⟨D, hD, hchild, hparent⟩ := buried.descends hmark (UInt64.lt_iff_toNat_lt.mp hlow)
        (UInt64.le_iff_toNat_le.mp hhigh)
      rw [← hdigest hD] at hchild
      exact ⟨D, hchild, by rw [hdigest hD]; exact hD, hparent⟩
    case numbered => exact numbered.imp_right fun hlooped => ⟨record, genesis, hlooped⟩

/-- An instruction is carried by an event for the local chain that is bound to its source. -/
structure Instruction.CarriedBy (i : Instruction) (payload : Bytes) (localChain source : ChainId) :
    Prop where
  /-- It is decoded from the event's bytes. -/
  decoded : ∃ event, Event.decode payload = .ok event ∧ event.toInstruction source = .ok i
  /-- It comes from the source. -/
  source_eq : i.sourceChain = source
  /-- It goes to the local chain. -/
  dest_eq : i.destChain = localChain

theorem Claim.bind_carried {config : ProofConfig} {localChain source : ChainId} {payload : Bytes}
    {i : Instruction} (h : bind config localChain source payload = .ok i) :
    i.CarriedBy payload localChain source := by
  obtain ⟨event, hdecode, hlocal, hinstruction⟩ := bind_ok h
  obtain ⟨hsource, hdest⟩ := Event.toInstruction_ok hinstruction
  exact ⟨⟨event, hdecode, hinstruction⟩, hsource, hdest.trans hlocal⟩

/-- An instruction is admitted as it was verified. -/
theorem Claim.admit_ok {ctx : BlockContext} {x : Transition ClaimError Instruction} {s t : State}
    {i : Instruction}
    (h : (do
      let instruction ← x
      return some (← Claim.markAdmitted ctx instruction) :
      Transition ClaimError (Option Instruction)) s = (.ok (some i), t)) : (x s).1 = .ok i := by
  obtain ⟨instruction, u, hx, h⟩ := Transition.bind_ok h
  obtain ⟨admitted, v, hmark, h⟩ := Transition.bind_ok h
  obtain ⟨hsame, -⟩ := Transition.pure_ok h
  obtain rfl := Option.some.inj hsame
  obtain ⟨rfl, -⟩ := markAdmitted_ok hmark
  rw [hx]

namespace Bridge

/-- A claim that is admitted is about a registered chain and was verified. -/
theorem propose_admitted {config : BridgeConfig} {ctx : BlockContext} {sideChain? : SideChainLookup}
    {epochAt : EpochLookup} {chain : ChainId} {claim : EvmClaim} {bridge : Bridge} {i : Instruction}
    (h : (propose config ctx sideChain? epochAt chain (.evm claim) bridge).1 = .ok (some i)) :
    ∃ source, sideChain? chain = some source ∧
      (claim.verify config.proof config.localChain source bridge.state).1 = .ok i := by
  rcases propose_cases config ctx sideChain? epochAt chain (.evm claim) bridge with
    ⟨⟨e, hrefused⟩, -⟩ | ⟨source, hsource, hclaim⟩
  · rw [hrefused] at h
    cases h
  · rw [h] at hclaim
    exact ⟨source, hsource, Claim.admit_ok (Transition.mapError_ok hclaim.symm)⟩

/-- After every run the markers of a chain reach up to its tip. -/
theorem settled_after (module : Bytes) (faults : Nat → StoreOp → Option StoreFault)
    (requests : List BridgeRequest) (chain : ChainId) :
    ((after requests (empty module faults)).memory chain).Settled :=
  memory_induction (P := fun _ => True) (fun _ _ _ _ => trivial) (fun _ _ _ _ _ h hs => h.settled hs)
    (empty_wellFormed module faults) (.blank (empty_blank module faults))

/-- Claims about a contract's storage are anchored and binding. After every run, an admitted claim is
proven under a canonical header with as many canonical headers above it as its chain asks for, in one
line up to the tip, and its event is what the admitted instruction says. And two claims that are
verified in whatever states, about one contract and one slot key under canonical headers with one
state root, carry one event, unless two different ones of their nodes and events have one digest. -/
theorem storage_claims_anchored_and_binding :
    (∀ (module : Bytes) (faults : Nat → StoreOp → Option StoreFault) (requests : List BridgeRequest)
      (config : BridgeConfig) (ctx : BlockContext) (sideChain? : SideChainLookup)
      (epochAt : EpochLookup) (chain : ChainId) (claim : EvmClaim) (i : Instruction),
      (propose config ctx sideChain? epochAt chain (.evm claim)
        (run requests (empty module faults)).2).1 = .ok (some i) →
      ∃ source H top slot, sideChain? chain = some source ∧
        ((after requests (empty module faults)).memory source.chainId).Confirms
          source.blocksToWait claim.height top H ∧
        claim.Proven config.proof.maxProofDepth H.header.stateRoot slot ∧
        i.CarriedBy claim.payload config.localChain source.chainId) ∧
    (∀ (a b : EvmClaim) (config config' : ProofConfig) (localChain localChain' : ChainId)
      (source source' : SideChain) (s s' : State) (i i' : Instruction) (H H' : TrustedHeader),
      (a.verify config localChain source s).1 = .ok i →
      (b.verify config' localChain' source' s').1 = .ok i' →
      (s.memory source.chainId).canonicalHeader? a.height = some H →
      (s'.memory source'.chainId).canonicalHeader? b.height = some H' →
      H.header.stateRoot = H'.header.stateRoot → source.contract = source'.contract →
      a.slots.map SlotProof.key = b.slots.map SlotProof.key →
      a.payload = b.payload ∨
        Collision Keccak256.hash (a.nodes ++ b.nodes ++ [a.payload, b.payload])) := by
  constructor
  · intro module faults requests config ctx sideChain? epochAt chain claim i h
    obtain ⟨source, hsource, hverified⟩ := propose_admitted h
    obtain ⟨-, ⟨H, slot, hanchor, hproven⟩, hbind⟩ := EvmClaim.verify_ok (Prod.ext hverified rfl)
    have hsettled := settled_after module faults requests source.chainId
    obtain ⟨top, hconfirms⟩ := hsettled.confirms hanchor
    exact ⟨source, H, top, slot, hsource, hconfirms, hproven, Claim.bind_carried hbind⟩
  · intro a b config config' localChain localChain' source source' s s' i i' H H' ha hb hH hH'
    exact EvmClaim.verify_binding ha hb hH hH'

/-! ### A claim under the header below the tip -/

/-- The contract that stores the event's digest. -/
def buriedContract : Address := .ofNatBE 20 0x1111111111111111111111111111111111111111

/-- The chain on which it does so, where one more header is waited for. -/
def buriedChain : SideChain := ⟨2, "e", 2, buriedContract.toBytes, 1⟩

/-- The claim, with one node for the account and one for the slot. -/
def buriedClaim : EvmClaim where
  height := 8
  payload := Bytes.ofNatBE 9 0xc881aa428007206d01
  address := buriedContract
  account := ⟨1, 0, .ofNatBE 32 0x748cc73b9f0363de4cbd343abc378d19db48a307bec49c1b09474912559a01a0,
    .zero 32⟩
  accountProof := [Bytes.ofNatBE 36
      0xf86aa120e2c07404b8c1df4c46226425cac68c28d27a766bbddce62309f36724839b22c0 ++
    Bytes.ofNatBE 72 0xb846f8440180a0748cc73b9f0363de4cbd343abc378d19db48a307bec49c1b09474912559a01a0a00000000000000000000000000000000000000000000000000000000000000000]
  slots := [{
    key := .ofNatBE 32 3
    value := 0x84e629708a33de76cd5c29655a2ea31a4965a353a21df3229be2649d861f8809
    proof := [Bytes.ofNatBE 70 0xf844a120c2575a0e9e593c00f959f8c92f12db2869c3395a3b0502d05e2516446f71f85ba1a084e629708a33de76cd5c29655a2ea31a4965a353a21df3229be2649d861f8809] }]

/-- What the event asks for. -/
def buriedInstruction : Instruction := ⟨[0xaa], [0x42], 2, [], 7, [0x20], "m", [1]⟩

/-- The genesis of the short chain with the account in its state. -/
def buriedGenesis : Header :=
  { shortGenesis with
    stateRoot := .ofNatBE 32 0x4b644d2ccd4c1cf27c75eabac557f45d7711791843bdf6768b6dac41837dcfb9 }

/-- The validator's seal of the next header. -/
def buryingSeal : FixedBytes 65 :=
  (FixedBytes.ofNatBE 32
    0xcd4c96ec5443660a5ca1ef15e6048f6292c5f78249ebccc1b7dee4cf44e31283).append
  ((FixedBytes.ofNatBE 32
    0x40f3c096e10252c1775bc28f030a18285a6dce6dadd987a0acd8783e2df56f1d).append (.ofNatBE 1 1))

/-- The next header, with the same state. -/
def buryingChild : Header :=
  { shortChild with
    parentHash := .ofNatBE 32 0x7b938c06df3837c2529c6eded805783fe1d489e6cbbe2ff6627e133aaaf6ae7f
    stateRoot := buriedGenesis.stateRoot
    extra := Header.buildExtra (.zero 32) [] buryingSeal }

/-- Calls that bring both headers. -/
def buryingRequests : List BridgeRequest := [
  ⟨.trial, .syncGenesis 2 buriedGenesis []⟩,
  ⟨.trial, .syncBatch ⟨5, 500⟩ 2 [buryingChild]⟩]

/-- The same chain where no header is waited for. -/
def promptChain : SideChain := { buriedChain with blocksToWait := 0 }

/-- The claim for an event under the header at the tip. -/
def tipClaim (payload : Bytes) : EvmClaim := { buriedClaim with height := 9, payload }

/-- The claim is admitted under the lower header, and both claims are verified under headers with
one state. -/
theorem buriedClaims_verified :
    (propose .trial ⟨6, 500⟩ (fun _ => some buriedChain) (fun _ => none) 2 (.evm buriedClaim)
      (run buryingRequests (empty [] fun _ _ => none)).2).1 = .ok (some buriedInstruction) ∧
    (buriedClaim.verify .trial BridgeConfig.trial.localChain buriedChain
      (after buryingRequests (empty [] fun _ _ => none))).1 = .ok buriedInstruction ∧
    ((tipClaim buriedClaim.payload).verify .trial BridgeConfig.trial.localChain promptChain
      (after buryingRequests (empty [] fun _ _ => none))).1 = .ok buriedInstruction ∧
    (((after buryingRequests (empty [] fun _ _ => none)).memory 2).canonicalHeader? 8).map
      TrustedHeader.header = some buriedGenesis ∧
    (((after buryingRequests (empty [] fun _ _ => none)).memory 2).canonicalHeader? 9).map
      TrustedHeader.header = some buryingChild := by
  decide +kernel

/-- The claim is admitted, under the header at height 8 below the one at height 9. The same event
can be claimed under the upper header, which has the same state, and no other one without a
collision. -/
theorem buried_claim_anchored :
    (propose .trial ⟨6, 500⟩ (fun _ => some buriedChain) (fun _ => none) 2 (.evm buriedClaim)
      (run buryingRequests (empty [] fun _ _ => none)).2).1 = .ok (some buriedInstruction) ∧
    (∃ H top slot,
      ((after buryingRequests (empty [] fun _ _ => none)).memory buriedChain.chainId).Confirms
        buriedChain.blocksToWait buriedClaim.height top H ∧
      buriedClaim.Proven BridgeConfig.trial.proof.maxProofDepth H.header.stateRoot slot ∧
      buriedInstruction.CarriedBy buriedClaim.payload BridgeConfig.trial.localChain
        buriedChain.chainId) ∧
    ((tipClaim buriedClaim.payload).verify .trial BridgeConfig.trial.localChain promptChain
      (after buryingRequests (empty [] fun _ _ => none))).1 = .ok buriedInstruction ∧
    ∀ payload i,
      ((tipClaim payload).verify .trial BridgeConfig.trial.localChain promptChain
        (after buryingRequests (empty [] fun _ _ => none))).1 = .ok i →
      buriedClaim.payload = payload ∨ Collision Keccak256.hash
        (buriedClaim.nodes ++ (tipClaim payload).nodes ++ [buriedClaim.payload, payload]) := by
  obtain ⟨hadmitted, hverified, htip, hlower, hupper⟩ := buriedClaims_verified
  obtain ⟨hanchored, hbinding⟩ := storage_claims_anchored_and_binding
  obtain ⟨source, H, top, slot, hsource, hanchor⟩ := hanchored [] (fun _ _ => none) buryingRequests
    .trial ⟨6, 500⟩ (fun _ => some buriedChain) (fun _ => none) 2 buriedClaim buriedInstruction
    hadmitted
  obtain rfl := Option.some.inj hsource
  obtain ⟨L, hL, hlower⟩ := Option.map_eq_some_iff.mp hlower
  obtain ⟨U, hU, hupper⟩ := Option.map_eq_some_iff.mp hupper
  have hroot : L.header.stateRoot = U.header.stateRoot := by
    rw [hlower, hupper]
    rfl
  refine ⟨hadmitted, ⟨H, top, slot, hanchor⟩, htip, fun payload i hclaimed => ?_⟩
  exact hbinding buriedClaim (tipClaim payload) .trial .trial BridgeConfig.trial.localChain
    BridgeConfig.trial.localChain buriedChain promptChain _ _ buriedInstruction i L U hverified
    hclaimed hL hU hroot rfl rfl

end Bridge

end BridgeKernel
