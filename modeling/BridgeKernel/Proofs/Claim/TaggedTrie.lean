import BridgeKernel.Claim.TaggedTrie
import BridgeKernel.Proofs.Committee
import BridgeKernel.Proofs.Trie.Binding

/-!
# A signed state root binds an event

The contract and the storage key lead from a state root to one storage entry, however the claims that
prove it spell their nodes, lengths and values. What is read there is the digest of the event, so two
events can be proven in one place only with a collision.
-/

namespace BridgeKernel.TaggedTrieClaim

/-- The nodes that a claim shows. -/
def nodes (claim : TaggedTrieClaim) : List Bytes := claim.accountProof ++ claim.storageProof

/-- What the proofs of a claim show under a state root. -/
structure Proven (claim : TaggedTrieClaim) (max : Nat) (stateRoot : Hash) (accountLeaf : Bytes)
    (storageRoot : Hash) (storageLeaf : Bytes) : Prop where
  /-- The state root has a value for the contract. -/
  account : TaggedTrie.verify stateRoot claim.contract claim.accountProof max = .ok accountLeaf
  /-- The value holds a storage root. -/
  root : TaggedTrie.storageRoot accountLeaf = .ok storageRoot
  /-- The storage root has a value for the storage key. -/
  entry : TaggedTrie.verify storageRoot claim.storageKey claim.storageProof max = .ok storageLeaf
  /-- The value holds the digest of the event. -/
  digest : TaggedTrie.normalize storageLeaf = .ok (Sha256.hash claim.payload)

theorem checkProofs_ok {claim : TaggedTrieClaim} {config : ProofConfig} {stateRoot : Hash}
    (h : claim.checkProofs config stateRoot = .ok ()) :
    ∃ accountLeaf storageRoot storageLeaf,
      claim.Proven config.maxProofDepth stateRoot accountLeaf storageRoot storageLeaf := by
  unfold checkProofs at h
  obtain ⟨accountLeaf, haccount, h⟩ := Except.bind_ok h
  obtain ⟨storageRoot, hroot, h⟩ := Except.bind_ok h
  obtain ⟨storageLeaf, hentry, h⟩ := Except.bind_ok h
  obtain ⟨actual, hactual, h⟩ := Except.bind_ok h
  obtain rfl := Decidable.not_not.mp (Except.last_ok_iff.mp h)
  exact ⟨accountLeaf, storageRoot, storageLeaf, Except.mapError_ok haccount,
    Except.mapError_ok hroot, Except.mapError_ok hentry, Except.mapError_ok hactual⟩

/-- A verified claim is about the registered contract, and its proofs start from the state root of a
message that the chain's committee has witnessed. -/
theorem verify_ok {claim : TaggedTrieClaim} {config : ProofConfig} {localChain : ChainId}
    {source : SideChain} {s t : State} {i : Instruction}
    (h : claim.verify config localChain source s = (.ok i, t)) :
    claim.contract = source.contract ∧
      ∃ (c : Committee) (m : CommitteeMessage), s.lookup (.committee source.chainId) = some c ∧
        CommitteeMessage.decode claim.message = .ok m ∧ c.Witnessed m ∧
        claim.checkProofs config m.body.stateRoot = .ok () := by
  unfold verify at h
  obtain ⟨_, u, hlength, h⟩ := Transition.bind_ok h
  obtain ⟨-, rfl⟩ := Transition.ofExcept_ok hlength
  obtain ⟨hcontract, h⟩ := Transition.guard_ok h
  obtain ⟨body, v, hbody, h⟩ := Transition.bind_ok h
  obtain ⟨c, m, hlookup, hdecode, rfl, hwitnessed⟩ :=
    CommitteeStore.verifyMessage_ok (Transition.mapError_ok hbody)
  obtain ⟨-, h⟩ := Transition.guard_ok h
  obtain ⟨_, w, hproofs, -⟩ := Transition.bind_ok h
  exact ⟨Decidable.not_not.mp hcontract, c, m, hlookup, hdecode, hwitnessed,
    (Transition.ofExcept_ok hproofs).1⟩

/-- Proofs for one contract and one storage key under one state root show one event, or collide. -/
theorem Proven.binding {a b : TaggedTrieClaim} {max max' : Nat}
    {stateRoot storageRoot storageRoot' : Hash}
    {accountLeaf accountLeaf' storageLeaf storageLeaf' : Bytes}
    (ha : a.Proven max stateRoot accountLeaf storageRoot storageLeaf)
    (hb : b.Proven max' stateRoot accountLeaf' storageRoot' storageLeaf')
    (hcontract : a.contract = b.contract) (hkey : a.storageKey = b.storageKey) :
    a.payload = b.payload ∨ Collision Sha256.double (a.nodes ++ b.nodes) ∨
      Collision Sha256.hash [a.payload, b.payload] := by
  have haccount := TaggedTrie.verify_binding (hcontract ▸ ha.account) hb.account
  rcases haccount with ⟨rfl, -⟩ | hcollision
  · obtain rfl := Except.ok.inj (ha.root.symm.trans hb.root)
    rcases TaggedTrie.verify_binding (hkey ▸ ha.entry) hb.entry with ⟨rfl, -⟩ | hcollision
    · have hdigest := Except.ok.inj (ha.digest.symm.trans hb.digest)
      have hpayload : b.payload ∈ [a.payload, b.payload] := List.mem_cons_of_mem _ List.mem_cons_self
      exact (eq_or_collision hdigest List.mem_cons_self hpayload).imp_right .inr
    · exact .inr (.inl (hcollision.of_parts (List.subset_append_right _ _)
        (List.subset_append_right _ _)))
  · exact .inr (.inl (hcollision.of_parts (List.subset_append_left _ _)
      (List.subset_append_left _ _)))

/-- Two claims about a chain that are verified in whatever states, for one storage key and with
messages that declare one state root, carry one event, unless two of their nodes or their events
collide. -/
theorem payload_binding {a b : TaggedTrieClaim} {config config' : ProofConfig}
    {localChain localChain' : ChainId} {source : SideChain} {s s' : State} {i i' : Instruction}
    {m m' : CommitteeMessage} (ha : (a.verify config localChain source s).1 = .ok i)
    (hb : (b.verify config' localChain' source s').1 = .ok i')
    (hkey : a.storageKey = b.storageKey) (hm : CommitteeMessage.decode a.message = .ok m)
    (hm' : CommitteeMessage.decode b.message = .ok m')
    (hroot : m.body.stateRoot = m'.body.stateRoot) :
    a.payload = b.payload ∨ Collision Sha256.double (a.nodes ++ b.nodes) ∨
      Collision Sha256.hash [a.payload, b.payload] := by
  obtain ⟨hcontract, c, n, -, hn, -, hproofs⟩ := verify_ok (Prod.ext ha rfl)
  obtain ⟨hcontract', c', n', -, hn', -, hproofs'⟩ := verify_ok (Prod.ext hb rfl)
  obtain rfl := Except.ok.inj (hm.symm.trans hn)
  obtain rfl := Except.ok.inj (hm'.symm.trans hn')
  obtain ⟨_, _, _, hproven⟩ := checkProofs_ok hproofs
  obtain ⟨_, _, _, hproven'⟩ := checkProofs_ok hproofs'
  rw [← hroot] at hproven'
  exact hproven.binding hproven' (hcontract.trans hcontract'.symm) hkey

/-! ### One event under two messages -/

/-- An event for chain 7. -/
def shownPayload : Bytes := Bytes.ofNatBE 9 0xc881aa428007206d01

/-- What it asks for when it comes from chain 1. -/
def shownInstruction : Instruction := ⟨[0xaa], [0x42], 1, [], 7, [0x20], "m", [1]⟩

/-- The nodes that lead along two nibbles to a 32-byte value behind its length. -/
def twoNodes (nibbles : List UInt8) (leafDigest value : Nat) : List Bytes :=
  [TaggedNode.encode (.extension nibbles (some (.ofNatBE 32 leafDigest))),
    TaggedNode.encode (.leaf (VarBytes.write (Bytes.ofNatBE 32 value)))]

/-- The entry with the digest of the event. -/
def shownEntry : List Bytes := twoNodes [0, 5]
  0x53f46c1c89685cd66ca208071ac15f84ae2314fabf3bfa203e88e521266d38a5
  0x86e9f9a416655e1b81a519b82360602018543d6c990ebaded3f769635ddcf737

/-- The account with that entry. -/
def shownAccount : List Bytes := twoNodes [0, 12]
  0xdefb2c040c017fb566f3e18001c28b86eca7065fff21e934f6c8ddc1a5c19e16
  0x202cb65fc9c6bb50919a6e3153ec0415282df0e286c8b963dfa62156ce00489b

/-- A message with the state root of that account. -/
def rootMessage (height : UInt64) (signature : Nat) : CommitteeMessage where
  body := ⟨1, 1, height,
    .ofNatBE 32 0x7b584f560973494c2d24e5f5d0226e3954d21bd7616644c378f51162ab80855b, none⟩
  witness := [⟨0, Bytes.ofNatBE 64 signature⟩]

/-- The message at height 5. -/
def earlyMessage : CommitteeMessage := rootMessage 5 0x5cbdf0646e5db4eaa398f365f2ea7a0e3d419b7e0330e39ce92bddedcac4f9bc5d18dbf0937ecd1503666ab721e560d924116266fc8e5e244b919acdeee2bad1

/-- The message at height 6. -/
def lateMessage : CommitteeMessage := rootMessage 6 0x5cbdf0646e5db4eaa398f365f2ea7a0e3d419b7e0330e39ce92bddedcac4f9bc6d5b5c1bef4489027288419cb6c659f7156b24f6e1d66b593e28f6fd0ad78fdd

/-- The claim that proves the event under a message. -/
def shownClaim (message : CommitteeMessage) : TaggedTrieClaim :=
  ⟨Record.write message, shownPayload, [0x0c], shownAccount, [0x05], shownEntry⟩

/-- Two messages declare one state root, and the claims under them carry one event. -/
theorem shown_payload_bound :
    let source : SideChain := ⟨1, "shore", 2, [0x0c], 0⟩
    let s := CommitteeStore.installed ⟨0, 1, [CommitteeStore.generatorKey 2]⟩
    let a := shownClaim earlyMessage
    let b := shownClaim lateMessage
    (a.verify .trial 7 source s).1 = .ok shownInstruction ∧
    (b.verify .trial 7 source s).1 = .ok shownInstruction ∧ a.message ≠ b.message ∧
    (a.payload = b.payload ∨ Collision Sha256.double (a.nodes ++ b.nodes) ∨
      Collision Sha256.hash [a.payload, b.payload]) := by
  intro source s a b
  have ha : (a.verify .trial 7 source s).1 = .ok shownInstruction := by decide +kernel
  have hb : (b.verify .trial 7 source s).1 = .ok shownInstruction := by decide +kernel
  have hm : CommitteeMessage.decode a.message = .ok earlyMessage := by decide +kernel
  have hm' : CommitteeMessage.decode b.message = .ok lateMessage := by decide +kernel
  exact ⟨ha, hb, by decide +kernel, payload_binding ha hb rfl hm hm' rfl⟩

end BridgeKernel.TaggedTrieClaim
