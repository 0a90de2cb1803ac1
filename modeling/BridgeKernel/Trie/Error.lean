import BridgeKernel.Failure
import BridgeKernel.Wire.Rlp
import BridgeKernel.Wire.VarBytes

/-!
# Refusals of trie proofs

What can be wrong with a node, with a proven value, and with a proof as a whole.
-/

namespace BridgeKernel

/-- What is wrong with a node. -/
inductive NodeFault where
  /-- Its list of items cannot be read. -/
  | rlp (cause : Rlp.Error)
  /-- Its path has an unknown flag or padding that is not zero. -/
  | badPath
  /-- An extension leads nowhere. -/
  | extensionWithoutChild
  /-- No node has this number of items. -/
  | itemCount (count : Nat)
  /-- Its bytes end too early. -/
  | short (cause : ShortRead)
  /-- A reference begins with an unknown tag. -/
  | unknownReference (tag : UInt8)
  /-- The node begins with an unknown tag. -/
  | unknownTag (tag : UInt8)
  /-- The key of an extension is empty or holds a byte above `0f`. -/
  | badKey
  /-- Bytes follow the node. -/
  | trailing
deriving DecidableEq, Repr

/-- A byte with its base mark and two digits. -/
def tagText (tag : UInt8) : String := "0x" ++ Bytes.toHex [tag]

/-- The wording of a fault in a node. -/
def NodeFault.message : NodeFault → String
  | .rlp cause => cause.message
  | .badPath => "bad hex-prefix path"
  | .extensionWithoutChild => "extension without child"
  | .itemCount count => toString count ++ "-item node"
  | .short cause => cause.message
  | .unknownReference tag => "unknown reference tag " ++ tagText tag
  | .unknownTag tag => "unknown node tag " ++ tagText tag
  | .badKey => "extension key is not a nibble run"
  | .trailing => "trailing bytes"

/-- What is wrong with a proven value. -/
inductive ValueFault where
  /-- Its bytes end too early. -/
  | short (cause : ShortRead)
  /-- Bytes follow the value. -/
  | trailing
  /-- It is longer than 32 bytes. -/
  | tooLong (length : Nat)
  /-- A storage root is not 32 bytes long. -/
  | storageRootLength (length : Nat)
deriving DecidableEq, Repr

/-- The wording of a fault in a value. -/
def ValueFault.message : ValueFault → String
  | .short cause => cause.message
  | .trailing => "trailing bytes"
  | .tooLong length => toString length ++ " bytes exceed a word"
  | .storageRootLength length => "storage root of " ++ toString length ++ " bytes"

/-- Why a proof was refused. -/
inductive TrieError where
  /-- More nodes than allowed. -/
  | tooDeep (depth max : Nat)
  /-- A node cannot be read. -/
  | malformedNode (depth : Nat) (fault : NodeFault)
  /-- The proof ends before the walk does. -/
  | missingNode (depth : Nat)
  /-- The walk ends before the proof does. -/
  | unusedNodes (count : Nat)
  /-- A node is not the one referred to. -/
  | hashMismatch (depth : Nat)
  /-- The trie has no value for the key. -/
  | keyNotInTrie (key : Bytes)
  /-- A proven value has the wrong form. -/
  | malformedValue (fault : ValueFault)
deriving DecidableEq, Repr

namespace TrieError

/-- The wording of a refusal. -/
def message : TrieError → String
  | .tooDeep depth max => "Proof too deep: " ++ toString depth ++ " nodes (max " ++ toString max ++
      ")"
  | .malformedNode depth fault => "Malformed trie node at depth " ++ toString depth ++ ": " ++
      fault.message
  | .missingNode depth => "Proof ends at depth " ++ toString depth ++ " before reaching the key"
  | .unusedNodes count => "Proof carries " ++ toString count ++ " unused nodes"
  | .hashMismatch depth => "Node hash mismatch at depth " ++ toString depth
  | .keyNotInTrie key => "Key " ++ key.toHex ++ " is not in the trie"
  | .malformedValue fault => "Malformed proven value: " ++ fault.message

/-- The kind of a refusal. -/
def kind : TrieError → FailureKind
  | .hashMismatch _ => .untrustedClaim
  | .keyNotInTrie _ => .untrustedClaim
  | _ => .malformedInput

instance : Refusal TrieError := ⟨kind, message⟩

end TrieError

end BridgeKernel
