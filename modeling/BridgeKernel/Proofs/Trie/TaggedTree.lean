import BridgeKernel.Proofs.Trie.Binding
import BridgeKernel.Proofs.Trie.TaggedNode

/-!
# Proofs in a tagged trie are the paths of its tree

A tree of nodes is known by the digest of its root. Along the nibbles of a key it leads from node to
node, each named by its digest in the one before, and the key has the value of the leaf at which its
nibbles end. A proof is accepted exactly when it lists the nodes on that path.
-/

namespace BridgeKernel

/-- A run of nibbles along which an extension leads. -/
structure NibbleRun where
  /-- The nibbles. -/
  nibbles : List UInt8
  /-- There is one. -/
  ne_nil : nibbles ≠ []
  /-- They are halves of bytes. -/
  low : Nibbles.Low nibbles

/-- A finite tree of nodes. -/
inductive TaggedTree where
  /-- A value. -/
  | leaf (value : Bytes)
  /-- A run of nibbles and what it leads to. -/
  | extension (run : NibbleRun) (child : Option TaggedTree)
  /-- A slot for each nibble, and a last one for keys that end here. -/
  | branch (children : Fin 17 → Option TaggedTree)

namespace TaggedTree

mutual

/-- The root of a tree, with the digests of the nodes below it. -/
def node (tree : TaggedTree) : TaggedNode :=
  match tree with
  | .leaf value => .leaf value
  | .extension run child => .extension run.nibbles (reference child)
  | .branch children => .branch (List.ofFn fun slot => reference (children slot))
termination_by structural tree

/-- How a node refers to what stands below it. -/
def reference (child : Option TaggedTree) : Option Hash :=
  match child with
  | none => none
  | some tree => some (TaggedNode.digest (node tree).encode)
termination_by structural child

end

/-- The bytes of the root. -/
def encode (tree : TaggedTree) : Bytes := tree.node.encode

/-- The digest by which a tree is known. -/
def digest (tree : TaggedTree) : Hash := TaggedNode.digest tree.encode

mutual

/-- The bytes of all nodes. -/
def encodings (tree : TaggedTree) : List Bytes :=
  match tree with
  | .leaf value => [encode (.leaf value)]
  | .extension run child => encode (.extension run child) :: encodingsBelow child
  | .branch children =>
    encode (.branch children) :: (List.ofFn fun slot => encodingsBelow (children slot)).flatten
termination_by structural tree

/-- The bytes of all nodes below a reference. -/
def encodingsBelow (child : Option TaggedTree) : List Bytes :=
  match child with
  | none => []
  | some tree => encodings tree
termination_by structural child

end

/-- A path goes on from the root of a tree at a node below it. -/
inductive Descends : TaggedTree → List UInt8 → TaggedTree → List UInt8 → Prop
  /-- An extension takes its run off the path. -/
  | extension {run : NibbleRun} {child : TaggedTree} {rest : List UInt8} :
    Descends (.extension run (some child)) (run.nibbles ++ rest) child rest
  /-- A branch takes the nibble of a slot off the path. -/
  | slot {children : Fin 17 → Option TaggedTree} {nibble : Fin 16} {child : TaggedTree}
    {rest : List UInt8} (hchild : children nibble.castSucc = some child) :
    Descends (.branch children) (UInt8.ofNat nibble :: rest) child rest
  /-- At the end of the path a branch leads to its last slot. -/
  | last {children : Fin 17 → Option TaggedTree} {child : TaggedTree}
    (hchild : children (Fin.last 16) = some child) : Descends (.branch children) [] child []

/-- A path leads through nodes to a leaf at which it ends. -/
inductive Leads : TaggedTree → List UInt8 → List TaggedTree → Bytes → Prop
  /-- The path ends at the leaf. -/
  | leaf {value : Bytes} : Leads (.leaf value) [] [.leaf value] value
  /-- The path goes on at a node below. -/
  | descend {tree child : TaggedTree} {path rest : List UInt8} {visited : List TaggedTree}
    {value : Bytes} (hchild : tree.Descends path child rest)
    (hrest : child.Leads rest visited value) : Leads tree path (tree :: visited) value

variable {tree child : TaggedTree} {path rest : List UInt8}

/-! ## Nodes of a tree -/

theorem encode_mem_encodings (tree : TaggedTree) : tree.encode ∈ tree.encodings := by
  cases tree <;> simp [encodings]

/-- The nodes in a slot are nodes of the branch. -/
theorem encodings_slot_subset {children : Fin 17 → Option TaggedTree} {slot : Fin 17}
    (hchild : children slot = some child) : child.encodings ⊆ (branch children).encodings := by
  intro bytes hmem
  rw [encodings]
  apply List.mem_cons_of_mem
  rw [List.mem_flatten]
  refine ⟨encodingsBelow (children slot), List.mem_ofFn.mpr ⟨slot, rfl⟩, ?_⟩
  rwa [hchild, encodingsBelow]

/-- The nodes below a node are nodes of the tree. -/
theorem Descends.encodings_subset (h : tree.Descends path child rest) :
    child.encodings ⊆ tree.encodings := by
  cases h with
  | extension =>
    intro bytes hmem
    simp [encodings, encodingsBelow, hmem]
  | slot hchild => exact encodings_slot_subset hchild
  | last hchild => exact encodings_slot_subset hchild

/-- A path that goes on is made of halves of bytes like the whole. -/
theorem Descends.low (h : tree.Descends path child rest) (hlow : Nibbles.Low path) :
    Nibbles.Low rest := by
  intro nibble hmem
  cases h with
  | extension => exact hlow nibble (by simp [hmem])
  | slot => exact hlow nibble (by simp [hmem])
  | last => simp at hmem

/-- A node whose bytes can be counted can be written and read. -/
theorem fits_node (h : tree.encode.length < UInt64.size) : tree.node.Fits := by
  cases tree with
  | leaf value =>
    have hvalue := VarBytes.length_le_write value
    simp only [encode, node, TaggedNode.encode, List.length_cons] at h
    exact .leaf (by omega)
  | extension run child =>
    have hkey := VarBytes.length_le_write run.nibbles
    simp only [encode, node, TaggedNode.encode, List.length_cons, List.length_append] at h
    exact .extension run.ne_nil run.low (by omega)
  | branch children =>
    refine .branch ?_
    simp [TaggedNode.branchWidth]

/-! ## One step down -/

/-- A path comes to a value where it ends at a leaf. -/
theorem step_node_value {value : Bytes} :
    TaggedTrie.step tree.node path = .value value ↔ tree = .leaf value ∧ path = [] := by
  have hfollow (child : Option Hash) (rest : List UInt8) :
      TaggedTrie.follow child rest ≠ .value value := by
    cases child <;> simp [TaggedTrie.follow]
  cases tree with
  | leaf found =>
    by_cases hpath : path = []
    · simp [node, TaggedTrie.step, hpath]
    · simp [node, TaggedTrie.step, hpath]
  | extension run child =>
    simp only [node, TaggedTrie.step]
    split <;> simp [hfollow]
  | branch children =>
    cases path <;> simp [node, TaggedTrie.step, hfollow]

theorem follow_reference {child? : Option TaggedTree} {wanted : Hash} {path : List UInt8} :
    TaggedTrie.follow (reference child?) path = .descend wanted rest ↔
      ∃ child, child? = some child ∧ wanted = child.digest ∧ rest = path := by
  cases child? with
  | none => simp [reference, TaggedTrie.follow]
  | some child => simp [reference, TaggedTrie.follow, digest, encode, eq_comm]

/-- A branch refers in each slot to what stands there. -/
theorem getD_references (children : Fin 17 → Option TaggedTree) (slot : Fin 17) :
    (List.ofFn fun slot => reference (children slot)).getD slot none =
      reference (children slot) := by
  rw [List.getD_eq_getElem?_getD, List.getElem?_ofFn, dif_pos slot.isLt]
  rfl

/-- A path goes on at the digest of the node to which the tree leads. -/
theorem step_node_descend {wanted : Hash} (hlow : Nibbles.Low path) :
    TaggedTrie.step tree.node path = .descend wanted rest ↔
      ∃ child, tree.Descends path child rest ∧ wanted = child.digest := by
  cases tree with
  | leaf value =>
    constructor
    · intro h
      simp only [node, TaggedTrie.step] at h
      split at h <;> simp at h
    · rintro ⟨child, h, -⟩
      cases h
  | extension run child? =>
    simp only [node, TaggedTrie.step]
    constructor
    · intro h
      split at h
      · next hrun =>
        obtain ⟨after, rfl⟩ := List.isPrefixOf_iff_prefix.mp hrun
        obtain ⟨child, rfl, rfl, rfl⟩ := follow_reference.mp h
        rw [List.drop_left]
        exact ⟨child, .extension, rfl⟩
      · simp at h
    · rintro ⟨child, h, rfl⟩
      cases h
      rw [if_pos (List.isPrefixOf_iff_prefix.mpr (List.prefix_append _ _)), List.drop_left]
      exact follow_reference.mpr ⟨child, rfl, rfl, rfl⟩
  | branch children =>
    cases path with
    | nil =>
      have hlast : (List.ofFn fun slot => reference (children slot)).getD
          (TaggedNode.branchWidth - 1) none = reference (children (Fin.last 16)) :=
        getD_references children (Fin.last 16)
      simp only [node, TaggedTrie.step, hlast, follow_reference]
      constructor
      · rintro ⟨child, hchild, rfl, rfl⟩
        exact ⟨child, .last hchild, rfl⟩
      · rintro ⟨child, h, rfl⟩
        cases h with
        | last hchild => exact ⟨child, hchild, rfl, rfl⟩
    | cons nibble after =>
      have hnibble := hlow nibble (by simp)
      have hslot : (List.ofFn fun slot => reference (children slot)).getD nibble.toNat none =
          reference (children (Fin.castSucc ⟨nibble.toNat, hnibble⟩)) :=
        getD_references children (Fin.castSucc ⟨nibble.toNat, hnibble⟩)
      simp only [node, TaggedTrie.step, hslot, follow_reference]
      constructor
      · rintro ⟨child, hchild, rfl, rfl⟩
        have hdown := @Descends.slot children ⟨nibble.toNat, hnibble⟩ child rest hchild
        rw [Fin.val_mk, UInt8.ofNat_toNat] at hdown
        exact ⟨child, hdown, rfl⟩
      · rintro ⟨child, h, rfl⟩
        cases h with
        | @slot _ slot _ _ hchild =>
          refine ⟨child, ?_, rfl, rfl⟩
          rw [← hchild]
          congr
          simp
          omega

/-! ## Whole walks -/

section Walks

variable {key : Bytes} {depth max : Nat} {proof : List Bytes} {value : Bytes}
  {visited : List TaggedTree}

/-- The bytes of a node of a tree that can be counted spell the node. -/
theorem decode_encode (h : tree.encode.length < UInt64.size) :
    TaggedNode.decode tree.encode = .ok tree.node :=
  TaggedNode.decode_encode (fits_node h)

/-- A walk down from the root of a tree that comes to a value was led there by the tree, or met a
node that collides with one of the tree. -/
theorem walk_sound (hfits : ∀ bytes ∈ tree.encodings, bytes.length < UInt64.size)
    (hlow : Nibbles.Low path)
    (h : TaggedTrie.walk key depth tree.digest path proof = .ok value) :
    (∃ visited, tree.Leads path visited value ∧ proof = visited.map encode) ∨
      Collision TaggedNode.digest (tree.encodings ++ proof) := by
  induction proof generalizing depth tree path with
  | nil => cases h
  | cons bytes rest ih =>
    obtain ⟨_, node, _, hproof, hdigest, hdecode, hends⟩ := TaggedTrie.walk_ok h
    cases hproof
    have hroot := encode_mem_encodings tree
    have hfirst : bytes ∈ tree.encodings ++ bytes :: rest := by simp
    rcases eq_or_collision hdigest hfirst (List.mem_append_left _ hroot) with rfl | hcollision
    · rw [decode_encode (hfits _ hroot)] at hdecode
      cases hdecode
      rcases hends with ⟨hstep, rfl⟩ | ⟨wanted, path', hstep, hrest⟩
      · obtain ⟨rfl, rfl⟩ := step_node_value.mp hstep
        exact .inl ⟨_, .leaf, rfl⟩
      · obtain ⟨child, hdown, rfl⟩ := (step_node_descend hlow).mp hstep
        have hbelow := hdown.encodings_subset
        rcases ih (fun bytes hmem => hfits bytes (hbelow hmem)) (hdown.low hlow) hrest with
          ⟨visited, hleads, rfl⟩ | hcollision
        · exact .inl ⟨_, .descend hdown hleads, rfl⟩
        · exact .inr (hcollision.of_parts hbelow (List.subset_cons_self _ _))
    · exact .inr hcollision

/-- A walk that finds the root of a tree in the proof goes on where the root leads. -/
theorem walk_descend {wanted : Hash} (h : tree.encode.length < UInt64.size)
    (hstep : TaggedTrie.step tree.node path = .descend wanted rest) (key : Bytes) (depth : Nat)
    (proof : List Bytes) : TaggedTrie.walk key depth tree.digest path (tree.encode :: proof) =
      TaggedTrie.walk key (depth + 1) wanted rest proof := by
  simp [TaggedTrie.walk, digest, decode_encode h, hstep]

/-- A walk along the nodes through which a tree leads comes to the value at their end. -/
theorem Leads.walk (h : tree.Leads path visited value)
    (hfits : ∀ bytes ∈ tree.encodings, bytes.length < UInt64.size) (hlow : Nibbles.Low path)
    (key : Bytes) (depth : Nat) :
    TaggedTrie.walk key depth tree.digest path (visited.map encode) = .ok value := by
  induction h generalizing depth with
  | @leaf value =>
    have hread := decode_encode (hfits _ (encode_mem_encodings (.leaf value)))
    have hstep : TaggedTrie.step (TaggedTree.leaf value).node [] = .value value :=
      step_node_value.mpr ⟨rfl, rfl⟩
    simp [TaggedTrie.walk, digest, hread, hstep]
  | descend hdown hleads ih =>
    have hbelow := hdown.encodings_subset
    rw [List.map_cons, walk_descend (hfits _ (encode_mem_encodings _))
      ((step_node_descend hlow).mpr ⟨_, hdown, rfl⟩)]
    exact ih (fun bytes hmem => hfits bytes (hbelow hmem)) (hdown.low hlow) (depth + 1)

/-- A proof for a key under the root of a tree is accepted exactly when it lists the nodes through
which the tree leads along the nibbles of the key to the value, and is not too long; or else two
nodes of the tree and the proof collide. The length of a node is one that a node can state, in a
word. -/
theorem verify_iff_leads (tree : TaggedTree)
    (hfits : ∀ bytes ∈ tree.encodings, bytes.length < UInt64.size) (key : Bytes)
    (proof : List Bytes) (max : Nat) (value : Bytes) :
    (TaggedTrie.verify tree.digest key proof max = .ok value ↔
      proof.length ≤ max ∧ ∃ visited, tree.Leads (Nibbles.ofBytes key) visited value ∧
        proof = visited.map encode) ∨
      Collision TaggedNode.digest (tree.encodings ++ proof) := by
  have hlow := Nibbles.low_ofBytes key
  by_cases hcollision : Collision TaggedNode.digest (tree.encodings ++ proof)
  · exact .inr hcollision
  · left
    constructor
    · intro h
      rw [TaggedTrie.verify] at h
      split at h
      · cases h
      · next hmax =>
        exact ⟨Nat.le_of_not_lt hmax, (walk_sound hfits hlow h).resolve_right hcollision⟩
    · rintro ⟨hmax, visited, hleads, rfl⟩
      rw [TaggedTrie.verify, if_neg (Nat.not_lt.mpr hmax)]
      exact hleads.walk hfits hlow key 0

end Walks

/-- A run of the nibble two. -/
def twoRun : NibbleRun := ⟨[2], by simp, by simp [Nibbles.Low]⟩

/-- A branch with a value at its end, and one behind the nibbles one and two. -/
def forkedTree : TaggedTree :=
  .branch fun slot =>
    if slot = 1 then some (.extension twoRun (some (.leaf [5])))
    else if slot = Fin.last 16 then some (.leaf [7])
    else none

theorem forkedTree_read :
    (∀ bytes ∈ forkedTree.encodings, bytes.length < UInt64.size) ∧
    (TaggedTrie.verify forkedTree.digest [0x12]
        ([forkedTree, .extension twoRun (some (.leaf [5])), .leaf [5]].map encode) 3 = .ok [5] ∨
      Collision TaggedNode.digest (forkedTree.encodings ++
        [forkedTree, .extension twoRun (some (.leaf [5])), .leaf [5]].map encode)) := by
  have hfits : ∀ bytes ∈ forkedTree.encodings, bytes.length < UInt64.size := by decide +kernel
  have hleads : forkedTree.Leads (Nibbles.ofBytes [0x12])
      [forkedTree, .extension twoRun (some (.leaf [5])), .leaf [5]] [5] :=
    .descend (@Descends.slot _ 1 _ [2] rfl) (.descend .extension .leaf)
  exact ⟨hfits, (verify_iff_leads forkedTree hfits [0x12] _ 3 [5]).imp_left
    fun h => h.mpr ⟨by simp, _, hleads, rfl⟩⟩

end TaggedTree

end BridgeKernel
