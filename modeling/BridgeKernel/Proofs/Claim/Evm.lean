import BridgeKernel.Proofs.Claim.Proposal
import BridgeKernel.Proofs.Header.Rules
import BridgeKernel.Proofs.Trie.Binding
import BridgeKernel.Proofs.Wire.Rlp

/-!
# A state root binds an event

The registered contract and the key of a slot lead from a state root to one account and from its
storage root to one word, whatever else the claimant says of the account. That word is the digest of
the event, so two events can be proven in one slot only with a collision.
-/

namespace BridgeKernel

/-! ## Words and accounts -/

theorem Word.encode_append_inj {a b : Word} {x y : Bytes} (h : a.encode ++ x = b.encode ++ y) :
    a = b ∧ x = y := by
  have hroom (w : Word) : w.toNat < 256 ^ 32 := w.isLt
  obtain ⟨hvalue, hrest⟩ := Rlp.encodeNat_append_inj (by decide) (hroom a) (hroom b) h
  exact ⟨BitVec.eq_of_toNat_eq hvalue, hrest⟩

/-- Words are told apart by their items. -/
theorem Word.encode_injective : Function.Injective Word.encode := fun _ _ h =>
  (encode_append_inj (congrArg (· ++ []) h)).1

namespace Account

/-- The items of an account. -/
def items (a : Account) : List Bytes :=
  [Rlp.encodeNat a.nonce.toNat, a.balance.encode, Rlp.encodeBytes a.storageRoot.toBytes,
    Rlp.encodeBytes a.codeHash.toBytes]

/-- Accounts are told apart by their bytes. -/
theorem encode_injective : Function.Injective encode := by
  intro a b h
  have hitems : a.items.flatten = b.items.flatten := Rlp.encodeList_inj h
  simp only [items, List.flatten_cons, List.flatten_nil, List.append_nil] at hitems
  obtain ⟨hnonce, hitems⟩ := Rlp.encodeWord_append_inj hitems
  obtain ⟨hbalance, hitems⟩ := Word.encode_append_inj hitems
  obtain ⟨hroot, hitems⟩ := Rlp.encodeFixed_append_inj (by decide) hitems
  have hcode := FixedBytes.ext (Rlp.encodeBytes_injective hitems)
  cases a
  cases b
  cases hnonce
  cases hbalance
  cases hroot
  cases hcode
  rfl

end Account

theorem Claim.bind_ok {config : ProofConfig} {localChain source : ChainId} {payload : Bytes}
    {i : Instruction} (h : bind config localChain source payload = .ok i) :
    ∃ event, Event.decode payload = .ok event ∧ event.toChain = localChain ∧
      event.toInstruction source = .ok i := by
  unfold bind at h
  obtain ⟨_, -, h⟩ := Except.bind_ok h
  obtain ⟨event, hdecode, h⟩ := Except.bind_ok h
  obtain ⟨hchain, h⟩ := Except.guard_ok_iff.mp h
  exact ⟨event, Except.mapError_ok hdecode, Decidable.not_not.mp hchain, Except.mapError_ok h⟩

/-- An instruction comes from the chain that its event was bound to and goes where the event
says. -/
theorem Event.toInstruction_ok {e : Event} {source : ChainId} {i : Instruction}
    (h : e.toInstruction source = .ok i) : i.sourceChain = source ∧ i.destChain = e.toChain := by
  unfold toInstruction at h
  split at h
  · cases h
  split at h
  · cases h
  split at h
  · cases h
  · cases h
    exact ⟨rfl, rfl⟩

/-- The instruction of a bound event comes from the chain that it was bound to. -/
theorem Claim.bind_source {config : ProofConfig} {localChain source : ChainId} {payload : Bytes}
    {i : Instruction} (h : bind config localChain source payload = .ok i) :
    i.sourceChain = source := by
  obtain ⟨event, -, -, hevent⟩ := bind_ok h
  exact (Event.toInstruction_ok hevent).1

/-- The canonical header at a height. -/
def ChainMemory.canonicalHeader? (m : ChainMemory) (height : UInt64) : Option TrustedHeader :=
  (m.canonical? height).bind m.header?

namespace EvmClaim

/-! ## What a verified claim shows -/

/-- The nodes that a claim shows. -/
def nodes (claim : EvmClaim) : List Bytes :=
  claim.accountProof ++ claim.slots.flatMap SlotProof.proof

/-- What the proofs of a claim show under a state root. -/
structure Proven (claim : EvmClaim) (max : Nat) (stateRoot : Hash) (slot : SlotProof) : Prop where
  /-- The state root has the account for the contract. -/
  account : Patricia.verify stateRoot (Keccak256.hash claim.address.toBytes).toBytes
    claim.accountProof max = .ok claim.account.encode
  /-- There is one slot. -/
  slots : claim.slots = [slot]
  /-- The storage root has the word for the key. -/
  entry : Patricia.verify claim.account.storageRoot (Keccak256.hash slot.key.toBytes).toBytes
    slot.proof max = .ok slot.value.encode
  /-- The word is the digest of the event. -/
  digest : slot.value.toHash = Keccak256.hash claim.payload

theorem checkProofs_ok {claim : EvmClaim} {config : ProofConfig} {stateRoot : Hash}
    (h : claim.checkProofs config stateRoot = .ok ()) :
    ∃ slot, claim.Proven config.maxProofDepth stateRoot slot := by
  unfold checkProofs at h
  obtain ⟨accountLeaf, haccount, hrest⟩ := Except.bind_ok h
  obtain ⟨hleaf, hslots⟩ := Except.guard_ok_iff.mp hrest
  have haccount := Except.mapError_ok haccount
  rw [Decidable.not_not.mp hleaf] at haccount
  split at hslots
  · next slot hone =>
    obtain ⟨slotLeaf, hentry, hrest⟩ := Except.bind_ok hslots
    obtain ⟨hword, hvalue⟩ := Except.guard_ok_iff.mp hrest
    have hentry := Except.mapError_ok hentry
    rw [Decidable.not_not.mp hword] at hentry
    exact ⟨slot, haccount, hone, hentry, Decidable.not_not.mp (Except.last_ok_iff.mp hvalue)⟩
  · cases hslots

/-- The header under whose state root a claim is checked is canonical and lies deep enough below the
canonical height. -/
structure Anchor (m : ChainMemory) (blocksToWait height : UInt64) (H : TrustedHeader) : Prop where
  /-- The header is canonical at the height. -/
  canonical : m.canonicalHeader? height = some H
  /-- The canonical height is so far above. -/
  confirmed : blocksToWait ≤ saturatingSub (m.height?.getD height) height

theorem anchor_ok {source : SideChain} {height : UInt64} {stateRoot : Hash} {s t : State}
    (h : anchor source height s = (.ok stateRoot, t)) :
    ∃ H, Anchor (s.memory source.chainId) source.blocksToWait height H ∧
      H.header.stateRoot = stateRoot := by
  obtain ⟨found, u, hfound, h⟩ := Transition.bind_ok h
  have hu := (LightClient.canonicalHeader?_reading _ _).untouched (Transition.mapError_ok hfound)
  obtain ⟨hash?, v, hhash, hfound⟩ := Transition.bind_ok (Transition.mapError_ok hfound)
  obtain ⟨hmark, hv⟩ := State.load?_ok (Transition.mapError_ok hhash)
  cases found with
  | none => exact (Transition.throw_ok h).elim
  | some H =>
    cases hash? with
    | none => exact nomatch (Transition.pure_ok hfound).1
    | some hash =>
      obtain ⟨hheader, -⟩ := State.load?_ok (Transition.mapError_ok hfound)
      rw [hv.lookup_eq] at hheader
      obtain ⟨tip?, w, htip, h⟩ := Transition.bind_ok h
      have hload := Transition.mapError_ok (Transition.mapError_ok htip)
      obtain ⟨rfl, -⟩ := State.load?_ok hload
      rw [hu.lookup_eq] at h
      obtain ⟨hdeep, h⟩ := Transition.guard_ok h
      obtain ⟨-, h⟩ := Transition.guard_ok h
      obtain ⟨rfl, -⟩ := Transition.pure_ok h
      have hcanonical : (s.memory source.chainId).canonicalHeader? height = some H :=
        Option.bind_eq_some_iff.mpr ⟨hash, hmark.symm, hheader.symm⟩
      exact ⟨H, ⟨hcanonical, UInt64.not_lt.mp hdeep⟩, rfl⟩

/-- A verified claim is about the registered contract, its proofs start from the state root of an
anchor, and its instruction is carried by its event. -/
theorem verify_ok {claim : EvmClaim} {config : ProofConfig} {localChain : ChainId}
    {source : SideChain} {s t : State} {i : Instruction}
    (h : claim.verify config localChain source s = (.ok i, t)) :
    claim.address.toBytes = source.contract ∧
      (∃ H slot, Anchor (s.memory source.chainId) source.blocksToWait claim.height H ∧
        claim.Proven config.maxProofDepth H.header.stateRoot slot) ∧
      Claim.bind config localChain source.chainId claim.payload = .ok i := by
  unfold verify at h
  obtain ⟨_, u, hlength, h⟩ := Transition.bind_ok h
  obtain ⟨-, rfl⟩ := Transition.ofExcept_ok hlength
  obtain ⟨haddress, h⟩ := Transition.guard_ok h
  obtain ⟨stateRoot, v, hanchor, h⟩ := Transition.bind_ok h
  obtain ⟨H, hH, rfl⟩ := anchor_ok hanchor
  obtain ⟨_, w, hproofs, h⟩ := Transition.bind_ok h
  obtain ⟨slot, hproven⟩ := checkProofs_ok (Transition.ofExcept_ok hproofs).1
  exact ⟨Decidable.not_not.mp haddress, ⟨H, slot, hH, hproven⟩, (Transition.ofExcept_ok h).1⟩

/-- Proofs for one contract and one slot key under one state root show one event, or collide. -/
theorem Proven.binding {a b : EvmClaim} {max max' : Nat} {stateRoot : Hash} {slot slot' : SlotProof}
    (ha : a.Proven max stateRoot slot) (hb : b.Proven max' stateRoot slot')
    (haddress : a.address = b.address) (hkey : slot.key = slot'.key) :
    a.payload = b.payload ∨
      Collision Keccak256.hash (a.nodes ++ b.nodes ++ [a.payload, b.payload]) := by
  have hanodes : a.nodes = a.accountProof ++ slot.proof := by
    rw [nodes, ha.slots, List.flatMap_singleton]
  have hbnodes : b.nodes = b.accountProof ++ slot'.proof := by
    rw [nodes, hb.slots, List.flatMap_singleton]
  have hnodes : Collision Keccak256.hash (a.nodes ++ b.nodes) →
      Collision Keccak256.hash (a.nodes ++ b.nodes ++ [a.payload, b.payload]) :=
    fun h => h.mono (List.subset_append_left _ _)
  rcases Patricia.verify_binding (haddress ▸ ha.account) hb.account with ⟨hleaf, -⟩ | hcollision
  · have haccount : a.account = b.account := Account.encode_injective hleaf
    have hentry := Patricia.verify_binding (hkey ▸ haccount ▸ ha.entry) hb.entry
    rcases hentry with ⟨hword, -⟩ | hcollision
    · have hvalue : slot.value = slot'.value := Word.encode_injective hword
      have hdigest : Keccak256.hash a.payload = Keccak256.hash b.payload := by
        rw [← ha.digest, hvalue, hb.digest]
      refine eq_or_collision hdigest ?_ ?_
      · exact List.mem_append_right _ List.mem_cons_self
      · exact List.mem_append_right _ (List.mem_cons_of_mem _ List.mem_cons_self)
    · rw [hanodes, hbnodes] at hnodes ⊢
      exact .inr (hnodes (hcollision.of_parts (List.subset_append_right _ _)
        (List.subset_append_right _ _)))
  · rw [hanodes, hbnodes] at hnodes ⊢
    exact .inr (hnodes (hcollision.of_parts (List.subset_append_left _ _)
      (List.subset_append_left _ _)))

/-- Two claims that are verified in whatever states, about one contract and one slot key, under
canonical headers with one state root, carry one event, unless two of their nodes or events
collide. -/
theorem verify_binding {a b : EvmClaim} {config config' : ProofConfig}
    {localChain localChain' : ChainId} {source source' : SideChain} {s s' : State}
    {i i' : Instruction} {H H' : TrustedHeader}
    (ha : (a.verify config localChain source s).1 = .ok i)
    (hb : (b.verify config' localChain' source' s').1 = .ok i')
    (hH : (s.memory source.chainId).canonicalHeader? a.height = some H)
    (hH' : (s'.memory source'.chainId).canonicalHeader? b.height = some H')
    (hroot : H.header.stateRoot = H'.header.stateRoot)
    (hcontract : source.contract = source'.contract)
    (hkeys : a.slots.map SlotProof.key = b.slots.map SlotProof.key) :
    a.payload = b.payload ∨
      Collision Keccak256.hash (a.nodes ++ b.nodes ++ [a.payload, b.payload]) := by
  obtain ⟨haddress, ⟨A, slot, hanchor, hproven⟩, -⟩ := verify_ok (Prod.ext ha rfl)
  obtain ⟨haddress', ⟨A', slot', hanchor', hproven'⟩, -⟩ := verify_ok (Prod.ext hb rfl)
  obtain rfl := Option.some.inj (hH.symm.trans hanchor.canonical)
  obtain rfl := Option.some.inj (hH'.symm.trans hanchor'.canonical)
  rw [← hroot] at hproven'
  have hsame : a.address = b.address :=
    FixedBytes.ext (haddress.trans (hcontract.trans haddress'.symm))
  rw [hproven.slots, hproven'.slots] at hkeys
  exact hproven.binding hproven' hsame (List.cons.inj hkeys).1

end EvmClaim

end BridgeKernel
