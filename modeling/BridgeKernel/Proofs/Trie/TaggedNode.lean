import BridgeKernel.Proofs.Trie.Nibbles
import BridgeKernel.Proofs.Wire.VarBytes
import BridgeKernel.Trie.Tagged

/-!
# Nodes of tagged tries read back

A node whose parts can be stated is read back from its bytes to their end, and from all bytes that
differ from them only in how a length is spelled.
-/

namespace BridgeKernel.TaggedNode

/-- What the bytes of a node can state. -/
inductive Fits : TaggedNode → Prop
  /-- A branch has all its references. -/
  | branch {children : List (Option Hash)} (hwidth : children.length = branchWidth) :
    Fits (.branch children)
  /-- An extension has a run of nibbles that can be measured. -/
  | extension {key : List UInt8} {child : Option Hash} (hne : key ≠ []) (hlow : Nibbles.Low key)
    (hlength : key.length < UInt64.size) : Fits (.extension key child)
  /-- A leaf has a value that can be measured. -/
  | leaf {value : Bytes} (hlength : value.length < UInt64.size) : Fits (.leaf value)

/-- The spellings of a node: a length may be spelled longer than it has to be. -/
inductive Spells : Bytes → TaggedNode → Prop
  /-- A branch states no length. -/
  | branch {children : List (Option Hash)} (hwidth : children.length = branchWidth) :
    Spells (0x00 :: children.flatMap encodeRef) (.branch children)
  /-- An extension states the length of its run. -/
  | extension {key : List UInt8} {child : Option Hash} {stated : Bytes} (hne : key ≠ [])
    (hlow : Nibbles.Low key) (hlength : key.length < UInt64.size)
    (hstated : VarBytes.SpellsInt stated (UInt64.ofNat key.length)) :
    Spells (0x01 :: (stated ++ key ++ encodeRef child)) (.extension key child)
  /-- A leaf states the length of its value. -/
  | leaf {value stated : Bytes} (hlength : value.length < UInt64.size)
    (hstated : VarBytes.SpellsInt stated (UInt64.ofNat value.length)) :
    Spells (0x02 :: (stated ++ value)) (.leaf value)

/-- A node is written in one of its spellings. -/
theorem Fits.spells {node : TaggedNode} (h : node.Fits) : Spells node.encode node := by
  cases h with
  | branch hwidth => exact .branch hwidth
  | extension hne hlow hlength => exact .extension hne hlow hlength (VarBytes.spells_writeInt _)
  | leaf hlength => exact .leaf hlength (VarBytes.spells_writeInt _)

theorem Spells.fits {node : TaggedNode} {bytes : Bytes} (h : Spells bytes node) : node.Fits := by
  cases h with
  | branch hwidth => exact .branch hwidth
  | extension hne hlow hlength => exact .extension hne hlow hlength
  | leaf hlength => exact .leaf hlength

section Reading

variable {α : Type} {bytes : Bytes} {a : α}

theorem takes_lift {reading : Reading ShortRead α} (h : Takes reading bytes a) :
    Takes (lift reading) bytes a := by
  intro offset rest
  rw [lift, h offset rest]

/-- What begins with a tag takes the tag first. -/
theorem takes_tag {f : UInt8 → Reading NodeFault α} {tag : UInt8} (h : Takes (f tag) bytes a) :
    Takes (lift Cursor.takeByte >>= f) (tag :: bytes) a :=
  (takes_lift (Cursor.takes_byte tag)).bind h

end Reading

theorem takes_ref (child : Option Hash) : Takes takeRef (encodeRef child) child := by
  cases child with
  | none =>
    apply takes_tag
    exact .pure none
  | some digest =>
    apply takes_tag
    have htake := takes_lift (Cursor.takes_take digest.toBytes)
    rw [digest.length_toBytes] at htake
    have h := htake.map fun bytes => some (FixedBytes.ofPrefix 32 bytes)
    rwa [FixedBytes.ofPrefix_toBytes] at h

theorem takes_refs (children : List (Option Hash)) :
    Takes (takeRefs children.length) (children.flatMap encodeRef) children := by
  induction children with
  | nil => exact .pure []
  | cons child children ih => exact (takes_ref child).bind (ih.map fun rest => child :: rest)

/-- The check of a run of nibbles. -/
theorem key_accepted_iff (key : List UInt8) :
    (key.isEmpty || key.any (0x0f < ·)) = false ↔ key ≠ [] ∧ Nibbles.Low key := by
  simp only [Bool.or_eq_false_iff, List.isEmpty_eq_false_iff, List.any_eq_false,
    decide_eq_true_eq, UInt8.lt_iff_toNat_lt, Nibbles.Low]
  refine and_congr_right fun _ => forall₂_congr fun nibble _ => ?_
  simp
  omega

/-- A node is read from each of its spellings. -/
theorem takes_spelling {node : TaggedNode} {bytes : Bytes} (h : Spells bytes node) :
    Takes takeNode bytes node := by
  cases h with
  | branch hwidth =>
    apply takes_tag
    have hrefs := takes_refs ‹_›
    rw [hwidth] at hrefs
    exact hrefs.map TaggedNode.branch
  | @extension key child stated hne hlow hlength hstated =>
    apply takes_tag
    refine (takes_lift (Cursor.takes_spelledBytes hlength hstated)).bind ?_
    simp only [(key_accepted_iff key).mpr ⟨hne, hlow⟩, Bool.false_eq_true, if_false]
    exact (takes_ref child).map (TaggedNode.extension key)
  | leaf hlength hstated =>
    apply takes_tag
    exact (takes_lift (Cursor.takes_spelledBytes hlength hstated)).map TaggedNode.leaf

theorem decode_spelling {node : TaggedNode} {bytes : Bytes} (h : Spells bytes node) :
    decode bytes = .ok node := by
  have htake := takes_spelling h 0 []
  rw [List.append_nil] at htake
  rw [decode, Cursor.start, htake]
  rfl

/-- A node is read back from its bytes. -/
theorem decode_encode {node : TaggedNode} (h : node.Fits) : decode node.encode = .ok node :=
  decode_spelling h.spells

end BridgeKernel.TaggedNode
