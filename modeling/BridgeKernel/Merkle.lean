import BridgeKernel.Hash.Sha256

/-!
# Merkle paths

A binary tree of SHA-256 digests in which the last node of an odd level is paired with itself. A
path gives the siblings from a leaf up to the root.
-/

namespace BridgeKernel.Merkle

/-- On which side of the running digest a sibling stands. -/
inductive Side where
  /-- Before it. -/
  | left
  /-- After it. -/
  | right
deriving DecidableEq, Repr

/-- A sibling on a path. -/
structure Sibling where
  /-- Its side. -/
  side : Side
  /-- Its digest. -/
  digest : Hash
deriving DecidableEq

/-- The digest of a pair of nodes. -/
def pair (left right : Hash) : Hash := Sha256.hash (left.toBytes ++ right.toBytes)

/-- The digest above a node and its sibling. -/
def climb (current : Hash) (sibling : Sibling) : Hash :=
  match sibling.side with
  | .left => pair sibling.digest current
  | .right => pair current sibling.digest

/-- Whether a path leads from a leaf to a root. -/
def includes (leaf : Hash) (path : List Sibling) (root : Hash) : Bool :=
  path.foldl climb leaf == root

/-- The level above a level. -/
def levelAbove : List Hash → List Hash
  | [] => []
  | [a] => [pair a a]
  | a :: b :: rest => pair a b :: levelAbove rest

/-- The last node left after going up, at most `fuel` levels. -/
def topOf : (fuel : Nat) → List Hash → Hash
  | _, [] => .zero 32
  | _, [root] => root
  | 0, first :: _ => first
  | fuel + 1, level => topOf fuel (levelAbove level)

/-- The root over leaves, zero when there are none. -/
def root (leaves : List Hash) : Hash := topOf leaves.length leaves

/-- The siblings of a position from a level upwards, at most `fuel` of them. -/
def siblings : (fuel : Nat) → List Hash → (position : Nat) → List Sibling
  | 0, _, _ => []
  | fuel + 1, level, position =>
    if level.length ≤ 1 then []
    else
      let own := level.getD position (.zero 32)
      let sibling : Sibling :=
        if position % 2 = 0 then ⟨.right, level.getD (position + 1) own⟩
        else ⟨.left, level.getD (position - 1) own⟩
      sibling :: siblings fuel (levelAbove level) (position / 2)

/-- The path of the leaf at a position, if there is such a leaf. -/
def path? (leaves : List Hash) (position : Nat) : Option (List Sibling) :=
  if position < leaves.length then some (siblings leaves.length leaves position) else none

end BridgeKernel.Merkle
