import BridgeKernel.Proofs.Trie.Binding
import BridgeKernel.Proofs.Trie.PatriciaTrie
import BridgeKernel.Proofs.Wire.RlpList

/-!
# Proofs in a Keccak trie are the paths of its map

A node of a trie is read back from its bytes, and what it says about a path is where the trie leads
along it. So a proof for a key is accepted exactly when the map has the key, and the proof lists the
root and those nodes on the path of the key that do not stand in the node before.
-/

namespace BridgeKernel.Patricia

theorem childRef_digest (digest : Hash) :
    childRef (Rlp.encodeBytes digest.toBytes) = .ok (some (.hashed digest)) := by
  have hlength : digest.toBytes.length < 256 ^ 8 := by
    rw [digest.length_toBytes]
    decide
  have hlist := Rlp.isList_encodeBytes hlength []
  have hread := FixedBytes.ofBytes?_toBytes digest
  rw [List.append_nil] at hlist
  rw [childRef, hlist, Rlp.body_encodeBytes_self hlength]
  cases hbytes : digest.toBytes with
  | nil => simp [hbytes, FixedBytes.ofBytes?] at hread
  | cons first others =>
    rw [hbytes] at hread
    simp [hread]

namespace Trie

variable {t child : Trie} {path rest run : List UInt8} {value : Bytes} {children : Fin 16 → Trie}

/-! ## Items of a node -/

theorem isList_encode (h : t.encode.length < 256 ^ 8) : Rlp.isList t.encode = !t.isEmpty := by
  cases t with
  | empty => rfl
  | leaf path value => exact Rlp.isList_encodeList (Rlp.length_flatten_lt h)
  | extension run child => exact Rlp.isList_encodeList (Rlp.length_flatten_lt h)
  | branch children => exact Rlp.isList_encodeList (Rlp.length_flatten_lt h)

theorem whole_encode (h : t.encode.length < 256 ^ 8) : Rlp.Whole t.encode := by
  cases t with
  | empty => exact Rlp.whole_encodeBytes (by decide)
  | leaf path value => exact Rlp.whole_encodeList (Rlp.length_flatten_lt h)
  | extension run child => exact Rlp.whole_encodeList (Rlp.length_flatten_lt h)
  | branch children => exact Rlp.whole_encodeList (Rlp.length_flatten_lt h)

theorem whole_refer (t : Trie) : Rlp.Whole (refer t.encode) := by
  unfold refer
  split
  · exact whole_encode (by omega)
  · apply Rlp.whole_encodeBytes
    rw [(Keccak256.hash t.encode).length_toBytes]
    decide

@[simp] theorem length_slots (encoded : Fin 16 → Bytes) : (slots encoded).length = 17 := by
  simp [slots]

theorem whole_slots (children : Fin 16 → Trie) :
    ∀ item ∈ slots fun slot => (children slot).encode, Rlp.Whole item := by
  intro item hmem
  rw [slots, List.mem_append, List.mem_ofFn, List.mem_singleton] at hmem
  rcases hmem with ⟨slot, rfl⟩ | rfl
  · exact whole_refer (children slot)
  · exact Rlp.whole_encodeBytes (by decide)

/-- A reference is read back. -/
theorem childRef_refer (t : Trie) :
    childRef (refer t.encode) = .ok (if t.isEmpty then none else some t.reference) := by
  unfold refer reference
  split
  · next hshort =>
    rw [childRef, isList_encode (by omega)]
    cases t <;> rfl
  · next hlong =>
    rw [childRef_digest]
    cases t with
    | empty => exact absurd (by decide) hlong
    | leaf path value => rfl
    | extension run child => rfl
    | branch children => rfl

/-! ## What a node says -/

/-- A leaf has its value for its own path. -/
theorem step_leaf (hlow : Nibbles.Low path) (h : (leaf path value).encode.length < 256 ^ 8)
    (wanted : List UInt8) :
    step (leaf path value).encode wanted =
      .ok (if wanted = path then .value value else .absent) := by
  have hpath := Rlp.length_lt_of_mem h List.mem_cons_self
  have hvalue := Rlp.length_lt_of_mem h (List.mem_cons_of_mem _ List.mem_cons_self)
  have hitems := Rlp.items_encodeList
    (by simp [Rlp.whole_encodeBytes hpath, Rlp.whole_encodeBytes hvalue]) (Rlp.length_flatten_lt h)
  rw [encode, step, hitems]
  simp only [read, pairStep, bind, Except.bind, Rlp.body_encodeBytes_self hpath,
    Nibbles.decodePath?_encodePath hlow, Rlp.body_encodeBytes_self hvalue]
  by_cases hbegins : path.isPrefixOf wanted
  · obtain ⟨rest, rfl⟩ := List.isPrefixOf_iff_prefix.mp hbegins
    rw [hbegins]
    cases rest <;> simp <;> rfl
  · have hne : wanted ≠ path := by
      rintro rfl
      exact hbegins (List.isPrefixOf_iff_prefix.mpr (List.prefix_refl _))
    simp [hbegins, hne]
    rfl

/-- An extension leads the paths that begin with its run to its child. -/
theorem step_extension (hlow : Nibbles.Low run) (hne : child ≠ .empty)
    (h : (extension run child).encode.length < 256 ^ 8) (wanted : List UInt8) :
    step (extension run child).encode wanted =
      .ok (if run.isPrefixOf wanted then .descend child.reference (wanted.drop run.length)
        else .absent) := by
  have hrun := Rlp.length_lt_of_mem h List.mem_cons_self
  have hitems := Rlp.items_encodeList
    (by simp [Rlp.whole_encodeBytes hrun, whole_refer]) (Rlp.length_flatten_lt h)
  have hempty : ¬ child.isEmpty = true := by simpa using hne
  rw [encode, step, hitems]
  simp only [read, pairStep, bind, Except.bind, Rlp.body_encodeBytes_self hrun,
    Nibbles.decodePath?_encodePath hlow, childRef_refer, if_neg hempty]
  by_cases hbegins : run.isPrefixOf wanted
  · simp [hbegins]
    rfl
  · simp [hbegins]
    rfl

theorem step_branch (h : (branch children).encode.length < 256 ^ 8) (wanted : List UInt8) :
    step (branch children).encode wanted = branchStep (branch children).encode wanted := by
  have hlength := length_slots fun slot => (children slot).encode
  have hitems := Rlp.items_encodeList (whole_slots children) (Rlp.length_flatten_lt h)
  rw [step, encode, hitems]
  simp only [read, bind, Except.bind]
  split
  · next hpair => simp [hpair] at hlength
  · rw [if_pos hlength]

theorem itemAt_branch (h : (branch children).encode.length < 256 ^ 8) (slot : Fin 16) :
    Rlp.itemAt (branch children).encode slot = .ok (refer (children slot).encode) := by
  have hposition : slot.val < (slots fun slot => (children slot).encode).length := by
    rw [length_slots]
    omega
  rw [encode, Rlp.itemAt_encodeList (whole_slots children) (Rlp.length_flatten_lt h) hposition]
  simp only [slots]
  rw [List.getElem_append_left (by simp), List.getElem_ofFn]

theorem itemAt_branch_last (h : (branch children).encode.length < 256 ^ 8) :
    Rlp.itemAt (branch children).encode 16 = .ok (Rlp.encodeBytes []) := by
  have hposition : 16 < (slots fun slot => (children slot).encode).length := by
    rw [length_slots]
    omega
  rw [encode, Rlp.itemAt_encodeList (whole_slots children) (Rlp.length_flatten_lt h) hposition]
  simp [slots]

/-- A branch has no value of its own. -/
theorem step_branch_nil (h : (branch children).encode.length < 256 ^ 8) :
    step (branch children).encode [] = .ok .absent := by
  rw [step_branch h, branchStep, itemAt_branch_last h]
  rfl

/-- A branch leads a path to the child in the slot of its first nibble. -/
theorem step_branch_cons (h : (branch children).encode.length < 256 ^ 8) (slot : Fin 16)
    (rest : List UInt8) :
    step (branch children).encode (UInt8.ofNat slot :: rest) =
      .ok (if (children slot).isEmpty then .absent
        else .descend (children slot).reference rest) := by
  have hslot : (UInt8.ofNat slot).toNat = slot := (Nibbles.eq_ofNat_iff slot).mp rfl
  rw [step_branch h, branchStep, hslot, itemAt_branch h]
  simp only [bind, Except.bind, childRef_refer, read]
  cases (children slot).isEmpty <;> rfl

/-- A node of a trie has a value for a path exactly when it is the leaf with this path. -/
theorem step_value (ht : t.Canonical) (h : t.encode.length < 256 ^ 8) (hlow : Nibbles.Low path) :
    step t.encode path = .ok (.value value) ↔ t = .leaf path value := by
  cases ht with
  | leaf hpath =>
    rw [step_leaf hpath h]
    split
    · next heq => simp [heq]
    · next hne => simp [Ne.symm hne]
  | extension hne hrun hchild =>
    rw [step_extension hrun (by simp) h]
    split <;> simp
  | branch hne ha hb hchildren =>
    cases path with
    | nil => simp [step_branch_nil h]
    | cons nibble rest =>
      have hnibble := hlow nibble (by simp)
      rw [(Nibbles.eq_ofNat_iff ⟨nibble.toNat, hnibble⟩).mpr rfl, step_branch_cons h]
      split <;> simp

/-- A node of a trie leads a path on to where the trie does. -/
theorem step_descend {next : ChildRef} (ht : t.Canonical) (h : t.encode.length < 256 ^ 8)
    (hlow : Nibbles.Low path) :
    step t.encode path = .ok (.descend next rest) ↔
      ∃ child, t.Descends path child rest ∧ child ≠ .empty ∧ next = child.reference := by
  cases ht with
  | leaf hpath =>
    rw [step_leaf hpath h]
    constructor
    · intro hstep
      split at hstep <;> simp at hstep
    · rintro ⟨child, hdown, -⟩
      cases hdown
  | @extension run children hne hrun hchild =>
    rw [step_extension hrun (by simp) h]
    constructor
    · intro hstep
      split at hstep
      · next hbegins =>
        obtain ⟨after, rfl⟩ := List.isPrefixOf_iff_prefix.mp hbegins
        simp only [List.drop_left, Except.ok.injEq, Step.descend.injEq] at hstep
        obtain ⟨rfl, rfl⟩ := hstep
        exact ⟨_, .extension, by simp, rfl⟩
      · simp at hstep
    · rintro ⟨child, hdown, -, rfl⟩
      cases hdown
      simp
  | @branch children a b hne ha hb hchildren =>
    cases path with
    | nil =>
      rw [step_branch_nil h]
      constructor
      · intro hstep
        simp at hstep
      · rintro ⟨child, hdown, -⟩
        cases hdown
    | cons nibble after =>
      have hnibble := hlow nibble (by simp)
      constructor
      · intro hstep
        rw [(Nibbles.eq_ofNat_iff ⟨nibble.toNat, hnibble⟩).mpr rfl] at hstep ⊢
        rw [step_branch_cons h] at hstep
        split at hstep
        · simp at hstep
        · next hused =>
          simp only [Except.ok.injEq, Step.descend.injEq] at hstep
          obtain ⟨rfl, rfl⟩ := hstep
          exact ⟨_, .slot, by simpa using hused, rfl⟩
      · rintro ⟨child, hdown, hused, rfl⟩
        cases hdown
        rw [step_branch_cons h, if_neg (by simpa using hused)]

/-! ## Tries below -/

theorem Descends.low (h : t.Descends path child rest) (hlow : Nibbles.Low path) :
    Nibbles.Low rest := by
  intro nibble hmem
  cases h with
  | extension => exact hlow nibble (by simp [hmem])
  | slot => exact hlow nibble (by simp [hmem])

theorem encode_mem_nodes (t : Trie) : t.encode ∈ t.nodes := by
  cases t <;> simp [nodes]

theorem Descends.nodes_subset (h : t.Descends path child rest) (hne : child ≠ .empty) :
    child.nodes ⊆ t.nodes := by
  intro node hmem
  cases h with
  | extension => exact List.mem_cons_of_mem _ hmem
  | @slot children slot =>
    rw [nodes]
    apply List.mem_cons_of_mem
    rw [List.mem_flatten]
    refine ⟨_, List.mem_ofFn.mpr ⟨slot, rfl⟩, ?_⟩
    rwa [if_neg (by simpa using hne)]

/-! ## Whole walks -/

/-- The nodes of tries that do not stand in the node before. -/
def hashed (below : List Trie) : List Bytes :=
  (below.map encode).filter fun node => 32 ≤ node.length

/-- What refers to a trie, and what a proof brings for it. -/
inductive Refers : ChildRef → Trie → List Bytes → Prop
  /-- The proof brings the root that has the digest. -/
  | digest {t : Trie} : Refers (.hashed (Keccak256.hash t.encode)) t [t.encode]
  /-- The root stands in the reference. -/
  | node {t : Trie} : Refers (.embedded t.encode) t []

theorem refers_reference (t : Trie) : Refers t.reference t (hashed [t]) := by
  unfold reference
  split
  · next hshort =>
    have hnone : hashed [t] = [] := by simp [hashed, hshort]
    rw [hnone]
    exact .node
  · next hlong =>
    have hone : hashed [t] = [t.encode] := by simp [hashed, Nat.le_of_not_lt hlong]
    rw [hone]
    exact .digest

theorem hashed_append (above below : List Trie) :
    hashed (above ++ below) = hashed above ++ hashed below := by
  simp [hashed]

section Walks

variable {next : ChildRef} {front proof : List Bytes} {key node : Bytes} {fuel depth max : Nat}
  {below : List Trie}

/-- What is fetched for a reference is the root to which it refers, or collides with it. -/
theorem Refers.fetch_ok {left : List Bytes} (h : Refers next t front)
    (hfetch : fetch depth next proof = .ok (node, left)) :
    (node = t.encode ∧ proof = front ++ left) ∨ Collision Keccak256.hash (t.nodes ++ proof) := by
  cases h with
  | digest =>
    rcases Patricia.fetch_ok hfetch with ⟨hnode, -⟩ | ⟨digest, hnode, rfl, hdigest⟩
    · cases hnode
    · cases hnode
      have hfirst : node ∈ t.nodes ++ node :: left := by simp
      have hroot : t.encode ∈ t.nodes ++ node :: left :=
        List.mem_append_left _ (encode_mem_nodes t)
      rcases eq_or_collision hdigest hfirst hroot with rfl | hcollision
      · exact .inl ⟨rfl, rfl⟩
      · exact .inr hcollision
  | node =>
    rcases Patricia.fetch_ok hfetch with ⟨hnode, rfl⟩ | ⟨digest, hnode, -⟩
    · cases hnode
      exact .inl ⟨rfl, rfl⟩
    · cases hnode

theorem Refers.fetch (h : Refers next t front) (depth : Nat) (proof : List Bytes) :
    fetch depth next (front ++ proof) = .ok (t.encode, proof) := by
  cases h with
  | digest => exact if_pos rfl
  | node => rfl

/-- A walk from the root of a trie that comes to a value was led there by the trie, or met a node
that collides with one of the trie. -/
theorem walk_sound (ht : t.Canonical) (hfits : ∀ node ∈ t.nodes, node.length < 256 ^ 8)
    (hlow : Nibbles.Low path) (href : Refers next t front)
    (h : walk key max fuel depth next path proof = .ok value) :
    (∃ below, t.Leads path below value ∧ below.length < fuel ∧ proof = front ++ hashed below) ∨
      Collision Keccak256.hash (t.nodes ++ proof) := by
  induction fuel generalizing t depth next path front proof with
  | zero => cases h
  | succ fuel ih =>
    obtain ⟨node, left, hfetch, hends⟩ := walk_ok h
    rcases href.fetch_ok hfetch with ⟨rfl, rfl⟩ | hcollision
    · have hroot := hfits _ (encode_mem_nodes t)
      rcases hends with ⟨hstep, rfl⟩ | ⟨after, path', hstep, hrest⟩
      · obtain rfl := (step_value ht hroot hlow).mp hstep
        exact .inl ⟨[], .leaf, Nat.succ_pos _, rfl⟩
      · obtain ⟨child, hdown, hne, rfl⟩ := (step_descend ht hroot hlow).mp hstep
        have hbelow := hdown.nodes_subset hne
        rcases ih (hdown.canonical ht hne) (fun node hmem => hfits node (hbelow hmem))
            (hdown.low hlow) (refers_reference child) hrest with
          ⟨below, hleads, hlength, rfl⟩ | hcollision
        · refine .inl ⟨child :: below, .descend hdown hleads, Nat.succ_lt_succ hlength, ?_⟩
          rw [← hashed_append, List.singleton_append]
        · exact .inr (hcollision.of_parts hbelow (List.subset_append_right _ _))
    · exact .inr hcollision

/-- A walk that finds the root of a trie where it is referred to does what its node says. -/
theorem Refers.walk (h : Refers next t front) (key : Bytes) (max fuel depth : Nat)
    (path : List UInt8) (proof : List Bytes) :
    walk key max (fuel + 1) depth next path (front ++ proof) =
      match step t.encode path with
      | .error fault => .error (.malformedNode depth fault)
      | .ok .absent => .error (.keyNotInTrie key)
      | .ok (.value bytes) =>
        if proof.isEmpty then .ok bytes else .error (.unusedNodes proof.length)
      | .ok (.descend child rest) => Patricia.walk key max fuel (depth + 1) child rest proof := by
  rw [Patricia.walk, h.fetch]
  rfl

theorem Leads.ne_empty (h : t.Leads path below value) : t ≠ .empty := by
  rintro rfl
  cases h with
  | descend hdown hleads => cases hdown

/-- A walk along the nodes through which a trie leads comes to the value at their end. -/
theorem Leads.walk (h : t.Leads path below value) (ht : t.Canonical)
    (hfits : ∀ node ∈ t.nodes, node.length < 256 ^ 8) (hlow : Nibbles.Low path)
    (href : Refers next t front) (hfuel : below.length < fuel) (key : Bytes) (max depth : Nat) :
    walk key max fuel depth next path (front ++ hashed below) = .ok value := by
  have hroot := hfits _ (encode_mem_nodes t)
  induction h generalizing fuel depth next front with
  | @leaf path value =>
    cases fuel with
    | zero => simp at hfuel
    | succ fuel =>
      rw [href.walk, (step_value ht hroot hlow).mpr rfl]
      rfl
  | @descend t child path rest below value hdown hleads ih =>
    cases fuel with
    | zero => simp at hfuel
    | succ fuel =>
      have hne := hleads.ne_empty
      have hbelow := hdown.nodes_subset hne
      have hchild : ∀ node ∈ child.nodes, node.length < 256 ^ 8 :=
        fun node hmem => hfits node (hbelow hmem)
      have hstep := (step_descend ht hroot hlow).mpr ⟨child, hdown, hne, rfl⟩
      have hnodes : hashed (child :: below) = hashed [child] ++ hashed below :=
        hashed_append [child] below
      rw [hnodes, href.walk, hstep]
      exact ih (hdown.canonical ht hne) hchild (hdown.low hlow) (refers_reference child)
        (Nat.lt_of_succ_lt_succ hfuel) (depth + 1) (hchild _ (encode_mem_nodes child))

/-- A proof for a key under the root of a canonical trie is accepted exactly when the trie leads
along the nibbles of the key to the value, the proof lists the root and the nodes on the path that
do not stand in the node before, and the path is not too long; or else two nodes of the trie and the
proof collide. -/
theorem verify_iff (ht : t.Canonical) (hfits : ∀ node ∈ t.nodes, node.length < 256 ^ 8)
    (key : Bytes) (proof : List Bytes) (max : Nat) (value : Bytes) :
    (verify (Keccak256.hash t.encode) key proof max = .ok value ↔
      ∃ below, t.Leads (Nibbles.ofBytes key) below value ∧ proof = t.encode :: hashed below ∧
        below.length < max) ∨
      Collision Keccak256.hash (t.nodes ++ proof) := by
  have hlow := Nibbles.low_ofBytes key
  by_cases hcollision : Collision Keccak256.hash (t.nodes ++ proof)
  · exact .inr hcollision
  · left
    rw [verify]
    constructor
    · intro h
      split at h
      · cases h
      · rcases walk_sound ht hfits hlow .digest h with ⟨below, hleads, hlength, rfl⟩ | hfound
        · exact ⟨below, hleads, rfl, hlength⟩
        · exact absurd hfound hcollision
    · rintro ⟨below, hleads, rfl, hlength⟩
      have hproof : (t.encode :: hashed below).length ≤ max := by
        have hle : (hashed below).length ≤ (below.map encode).length := List.length_filter_le _ _
        rw [List.length_map] at hle
        rw [List.length_cons]
        omega
      rw [if_neg (Nat.not_lt.mpr hproof)]
      exact hleads.walk ht hfits hlow .digest hlength key max 0

/-- No proof under the root of the empty trie is accepted. -/
theorem verify_empty (key : Bytes) (proof : List Bytes) (max : Nat) (value : Bytes) :
    verify (Keccak256.hash empty.encode) key proof max ≠ .ok value ∨
      Collision Keccak256.hash (empty.nodes ++ proof) := by
  by_cases hcollision : Collision Keccak256.hash (empty.nodes ++ proof)
  · exact .inr hcollision
  · left
    intro h
    rw [verify] at h
    split at h
    · cases h
    · cases max with
      | zero => cases h
      | succ max =>
        obtain ⟨node, left, hfetch, hends⟩ := walk_ok h
        obtain ⟨rfl, -⟩ := (Refers.digest.fetch_ok hfetch).resolve_right hcollision
        have hstep (path : List UInt8) :
            step empty.encode path = .error (.rlp .expectedToBeList) := rfl
        simp [hstep] at hends

/-- A proof for a key under the root of the trie of a map is accepted exactly when the map has the
key with the value, the proof lists the root and the nodes on the path of the key that do not stand
in the node before, and the path is not too long; or else two nodes of the trie and the proof
collide. The trie is canonical unless the map is empty. A node is an item whose length a header can
state, in at most eight bytes. -/
theorem verify_map_iff (width : Nat) (m : OrderedMap Bytes Bytes)
    (hwidth : ∀ entry ∈ m.entries, entry.1.length = width)
    (hfits : ∀ node ∈ (ofMap width m).nodes, node.length < 256 ^ 8) (key : Bytes)
    (proof : List Bytes) (max : Nat) (value : Bytes) :
    (ofMap width m = .empty ∨ (ofMap width m).Canonical) ∧
    ((verify (Keccak256.hash (ofMap width m).encode) key proof max = .ok value ↔
      m.find? key = some value ∧ ∃ below, (ofMap width m).Leads (Nibbles.ofBytes key) below value ∧
        proof = (ofMap width m).encode :: hashed below ∧ below.length < max) ∨
      Collision Keccak256.hash ((ofMap width m).nodes ++ proof)) := by
  have hholds := @holds_ofMap_key value width m hwidth key
  by_cases hempty : ofMap width m = .empty
  · refine ⟨.inl hempty, ?_⟩
    rw [hempty] at hholds ⊢
    refine (verify_empty key proof max value).imp_left fun hne => ?_
    simp [hne, ← hholds]
  · have hcanonical := canonical_ofMap hempty
    refine ⟨.inr hcanonical, ?_⟩
    refine (verify_iff hcanonical hfits key proof max value).imp_left fun h => h.trans ?_
    constructor
    · rintro ⟨below, hleads, hproof, hmax⟩
      exact ⟨hholds.mp ⟨below, hleads⟩, below, hleads, hproof, hmax⟩
    · rintro ⟨-, h⟩
      exact h

end Walks

/-- Three values, two of them under keys that begin with one nibble. -/
def threeValues : OrderedMap Bytes Bytes :=
  .ofList [([0x12], List.replicate 40 7), ([0x15], [5]), ([0x32], [9])]

theorem threeValues_shown :
    (∀ entry ∈ threeValues.entries, entry.1.length = 1) ∧
    (∀ node ∈ (ofMap 1 threeValues).nodes, node.length < 256 ^ 8) ∧
    ((threeValues.find? [0x15] = some [5] ∧
        ∃ below, (ofMap 1 threeValues).Leads (Nibbles.ofBytes [0x15]) below [5] ∧
          [(ofMap 1 threeValues).encode, (build 1 (under 1 (paths threeValues))).encode] =
            (ofMap 1 threeValues).encode :: hashed below ∧ below.length < 3) ∨
      Collision Keccak256.hash ((ofMap 1 threeValues).nodes ++
        [(ofMap 1 threeValues).encode, (build 1 (under 1 (paths threeValues))).encode])) := by
  have hwidth : ∀ entry ∈ threeValues.entries, entry.1.length = 1 := by decide +kernel
  have hfits : ∀ node ∈ (ofMap 1 threeValues).nodes, node.length < 256 ^ 8 := by decide +kernel
  have hshown : verify (Keccak256.hash (ofMap 1 threeValues).encode) [0x15]
      [(ofMap 1 threeValues).encode, (build 1 (under 1 (paths threeValues))).encode] 3 =
      .ok [5] := by
    decide +kernel
  exact ⟨hwidth, hfits, (verify_map_iff 1 threeValues hwidth hfits [0x15] _ 3 [5]).2.imp_left
    fun h => h.mp hshown⟩

end Trie

end BridgeKernel.Patricia
