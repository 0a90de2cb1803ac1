import BridgeKernel.Hash.Keccak256
import BridgeKernel.Trie.Error
import BridgeKernel.Trie.Nibbles

/-!
# Proofs in Keccak tries

A node is a list of seventeen items, a branch, or of two, an extension or a leaf. A child stands in
its parent as a 32-byte digest, or as a whole node when it is shorter than a digest. A proof lists
the nodes on the path of a key that are referred to by digest, root first, and all of them must be
used.
-/

namespace BridgeKernel.Patricia

/-- How a node refers to a child. -/
inductive ChildRef where
  /-- By its digest; the node comes from the proof. -/
  | hashed (digest : Hash)
  /-- By its own bytes. -/
  | embedded (node : Bytes)
deriving DecidableEq

/-- The reference that an item holds, if it is not empty. -/
def childRef (item : Bytes) : Except Rlp.Error (Option ChildRef) :=
  if Rlp.isList item then .ok (some (.embedded item))
  else
    match Rlp.body item with
    | .error e => .error e
    | .ok [] => .ok none
    | .ok bytes =>
      match FixedBytes.ofBytes? 32 bytes with
      | some digest => .ok (some (.hashed digest))
      | none => .error (.custom "child reference is not 32 bytes")

/-- What a node says about a path. -/
inductive Step where
  /-- The path ends here with a value. -/
  | value (bytes : Bytes)
  /-- The rest of the path goes on at a child. -/
  | descend (child : ChildRef) (path : List UInt8)
  /-- The path has no value. -/
  | absent
deriving DecidableEq

/-- An item read in a node. -/
def read {α : Type} : Except Rlp.Error α → Except NodeFault α
  | .ok a => .ok a
  | .error e => .error (.rlp e)

/-- What a branch says: the slot of the next nibble, or the value slot at the end of the path. -/
def branchStep (node : Bytes) : List UInt8 → Except NodeFault Step
  | [] => do
    match ← read (Rlp.itemAt node 16 >>= Rlp.body) with
    | [] => return .absent
    | bytes => return .value bytes
  | nibble :: path => do
    match ← read (Rlp.itemAt node nibble.toNat >>= childRef) with
    | none => return .absent
    | some child => return .descend child path

/-- What an extension or a leaf with two items says. -/
def pairStep (pathItem target : Bytes) (path : List UInt8) : Except NodeFault Step := do
  match Nibbles.decodePath? (← read (Rlp.body pathItem)) with
  | none => throw .badPath
  | some (segment, leaf) =>
    if !segment.isPrefixOf path then return .absent
    let rest := path.drop segment.length
    if leaf then
      if rest.isEmpty then return .value (← read (Rlp.body target)) else return .absent
    else
      match ← read (childRef target) with
      | none => throw .extensionWithoutChild
      | some child => return .descend child rest

/-- What a node says about a path. -/
def step (node : Bytes) (path : List UInt8) : Except NodeFault Step := do
  match ← read (Rlp.items node) with
  | [pathItem, target] => pairStep pathItem target path
  | items => if items.length = 17 then branchStep node path else throw (.itemCount items.length)

/-- The node that is referred to, and the nodes of the proof after it. -/
def fetch (depth : Nat) : ChildRef → List Bytes → Except TrieError (Bytes × List Bytes)
  | .embedded node, proof => .ok (node, proof)
  | .hashed _, [] => .error (.missingNode depth)
  | .hashed digest, node :: proof =>
    if Keccak256.hash node = digest then .ok (node, proof) else .error (.hashMismatch depth)

/-- Walks down from a reference with at most `fuel` nodes. -/
def walk (key : Bytes) (max : Nat) : (fuel : Nat) → (depth : Nat) → ChildRef → List UInt8 →
    List Bytes → Except TrieError Bytes
  | 0, _, _, _, _ => .error (.tooDeep (max + 1) max)
  | fuel + 1, depth, next, path, proof => do
    let (node, proof) ← fetch depth next proof
    match step node path with
    | .error fault => .error (.malformedNode depth fault)
    | .ok .absent => .error (.keyNotInTrie key)
    | .ok (.value bytes) => if proof.isEmpty then .ok bytes else .error (.unusedNodes proof.length)
    | .ok (.descend child rest) => walk key max fuel (depth + 1) child rest proof

/-- The value that a proof shows for a key under a root. -/
def verify (root : Hash) (key : Bytes) (proof : List Bytes) (max : Nat) : Except TrieError Bytes :=
  if max < proof.length then .error (.tooDeep proof.length max)
  else walk key max max 0 (.hashed root) (Nibbles.ofBytes key) proof

end BridgeKernel.Patricia
