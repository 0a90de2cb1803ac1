import BridgeKernel.Hash.Sha256
import BridgeKernel.Trie.Error
import BridgeKernel.Trie.Nibbles

/-!
# Proofs in tagged tries

Nodes begin with a tag byte and are known by their doubled SHA-256 digest. A branch has seventeen
references, the last for a value whose key ends there; an extension has a run of nibbles and one
reference; a leaf has a value. A proof lists all nodes on the path of a key, root first.
-/

namespace BridgeKernel

/-- A node of a tagged trie. -/
inductive TaggedNode where
  /-- Seventeen references. -/
  | branch (children : List (Option Hash))
  /-- A run of nibbles and one reference. -/
  | extension (key : List UInt8) (child : Option Hash)
  /-- A value. -/
  | leaf (value : Bytes)
deriving DecidableEq

namespace TaggedNode

/-- References of a branch. -/
def branchWidth : Nat := 17

/-- A reference: a tag, and a digest when there is one. -/
def encodeRef : Option Hash → Bytes
  | some digest => 0x03 :: digest.toBytes
  | none => [0x04]

/-- The bytes of a node. -/
def encode : TaggedNode → Bytes
  | .branch children => 0x00 :: children.flatMap encodeRef
  | .extension key child => 0x01 :: (VarBytes.write key ++ encodeRef child)
  | .leaf value => 0x02 :: VarBytes.write value

/-- The digest by which a node with the given bytes is known. -/
def digest (encoded : Bytes) : Hash := Sha256.double encoded

/-- A read in a node. -/
def lift {α : Type} (reading : Reading ShortRead α) : Reading NodeFault α := fun c =>
  match reading c with
  | (.ok a, c') => (.ok a, c')
  | (.error e, c') => (.error (.short e), c')

/-- Reads a reference. -/
def takeRef : Reading NodeFault (Option Hash) := do
  let tag ← lift Cursor.takeByte
  if tag = 0x03 then return some (FixedBytes.ofPrefix 32 (← lift (Cursor.take 32)))
  else if tag = 0x04 then return none
  else throw (.unknownReference tag)

/-- Reads so many references. -/
def takeRefs : (count : Nat) → Reading NodeFault (List (Option Hash))
  | 0 => pure []
  | count + 1 => do
    let first ← takeRef
    let rest ← takeRefs count
    return first :: rest

/-- Reads a node. -/
def takeNode : Reading NodeFault TaggedNode := do
  let tag ← lift Cursor.takeByte
  if tag = 0x00 then return .branch (← takeRefs branchWidth)
  else if tag = 0x01 then
    let key ← lift Cursor.takeVarBytes
    if key.isEmpty || key.any (0x0f < ·) then throw .badKey
    return .extension key (← takeRef)
  else if tag = 0x02 then return .leaf (← lift Cursor.takeVarBytes)
  else throw (.unknownTag tag)

/-- The node that bytes spell to their end. -/
def decode (bytes : Bytes) : Except NodeFault TaggedNode :=
  match takeNode (Cursor.start bytes) with
  | (.error fault, _) => .error fault
  | (.ok node, c) => if c.isDone then .ok node else .error .trailing

end TaggedNode

namespace TaggedTrie

/-- What a node says about a path. -/
inductive Step where
  /-- The path ends here with a value. -/
  | value (bytes : Bytes)
  /-- The rest of the path goes on at the node with a digest. -/
  | descend (child : Hash) (path : List UInt8)
  /-- The path has no value. -/
  | absent
deriving DecidableEq

/-- The walk goes on at a reference unless it is empty. -/
def follow (child : Option Hash) (path : List UInt8) : Step :=
  match child with
  | some digest => .descend digest path
  | none => .absent

/-- What a node says about a path. -/
def step (node : TaggedNode) (path : List UInt8) : Step :=
  match node, path with
  | .branch children, [] => follow (children.getD (TaggedNode.branchWidth - 1) none) []
  | .branch children, nibble :: rest => follow (children.getD nibble.toNat none) rest
  | .extension key child, path =>
    if key.isPrefixOf path then follow child (path.drop key.length) else .absent
  | .leaf value, path => if path.isEmpty then .value value else .absent

/-- Walks down from the node with a digest along the nodes of a proof. -/
def walk (key : Bytes) : (depth : Nat) → Hash → List UInt8 → List Bytes → Except TrieError Bytes
  | depth, _, _, [] => .error (.missingNode depth)
  | depth, wanted, path, bytes :: proof =>
    if TaggedNode.digest bytes ≠ wanted then .error (.hashMismatch depth)
    else
      match TaggedNode.decode bytes with
      | .error fault => .error (.malformedNode depth fault)
      | .ok node =>
        match step node path with
        | .absent => .error (.keyNotInTrie key)
        | .value value => if proof.isEmpty then .ok value else .error (.unusedNodes proof.length)
        | .descend child rest => walk key (depth + 1) child rest proof

/-- The value that a proof shows for a key under a root. -/
def verify (root : Hash) (key : Bytes) (proof : List Bytes) (max : Nat) : Except TrieError Bytes :=
  if max < proof.length then .error (.tooDeep proof.length max)
  else walk key 0 root (Nibbles.ofBytes key) proof

/-! ## Proven values -/

/-- The byte string that a value holds behind its length, to its end. -/
def unwrap (value : Bytes) : Except TrieError Bytes :=
  match Cursor.takeVarBytes (Cursor.start value) with
  | (.error e, _) => .error (.malformedValue (.short e))
  | (.ok inner, c) => if c.isDone then .ok inner else .error (.malformedValue .trailing)

/-- The word that a value holds, filled up with zeros on the left. -/
def normalize (value : Bytes) : Except TrieError Hash := do
  let inner ← unwrap value
  if h : inner.length ≤ 32 then
    return ⟨List.replicate (32 - inner.length) 0 ++ inner, by simp; omega⟩
  else throw (.malformedValue (.tooLong inner.length))

/-- The storage root that an account's value holds, by itself or behind its length. -/
def storageRoot (value : Bytes) : Except TrieError Hash :=
  match FixedBytes.ofBytes? 32 value with
  | some root => .ok root
  | none => do
    let inner ← unwrap value
    match FixedBytes.ofBytes? 32 inner with
    | some root => return root
    | none => throw (.malformedValue (.storageRootLength inner.length))

end TaggedTrie

end BridgeKernel
