import BridgeKernel.Proofs.Trie.TaggedNode
import BridgeKernel.Proofs.Wire.VarSpelling

/-!
# The bytes that are read as a node

Bytes are read as a node when they are one of its spellings and nothing follows. The spellings of a
node differ only in the length that an extension or a leaf states: the node is written in the one
whose length is spelled shortest.
-/

namespace BridgeKernel

/-- Bytes of the right length are kept. -/
theorem FixedBytes.toBytes_ofPrefix {n : Nat} {bytes : Bytes} (h : bytes.length = n) :
    (ofPrefix n bytes).toBytes = bytes := by
  subst h
  simp [ofPrefix]

namespace TaggedNode

open VarBytes

variable {c c' : Cursor}

/-! ## What was read -/

theorem lift_ok {α : Type} {reading : Reading ShortRead α} {a : α}
    (h : lift reading c = (.ok a, c')) : reading c = (.ok a, c') := by
  unfold lift at h
  split at h
  · next hreading =>
    cases h
    exact hreading
  · cases h

/-- A reference was read from its bytes. -/
theorem takeRef_ok {child : Option Hash} (h : takeRef c = (.ok child, c')) :
    c.Passed c' (encodeRef child) := by
  obtain ⟨tag, c₁, htag, h⟩ := Reading.bind_ok h
  have hpassed := Cursor.takeByte_ok (lift_ok htag)
  split at h
  · next hdigest =>
    subst hdigest
    obtain ⟨bytes, c₂, hbytes, hpure⟩ := Reading.bind_ok h
    obtain ⟨rfl, rfl⟩ := Reading.pure_ok hpure
    obtain ⟨hlength, hrest⟩ := Cursor.take_ok (lift_ok hbytes)
    rw [encodeRef, FixedBytes.toBytes_ofPrefix hlength]
    exact hpassed.trans hrest
  split at h
  · next hnone =>
    subst hnone
    obtain ⟨rfl, rfl⟩ := Reading.pure_ok h
    exact hpassed
  · cases h

/-- References were read from their bytes, as many as were asked for. -/
theorem takeRefs_ok {count : Nat} {children : List (Option Hash)}
    (h : takeRefs count c = (.ok children, c')) :
    children.length = count ∧ c.Passed c' (children.flatMap encodeRef) := by
  induction count generalizing c children with
  | zero =>
    obtain ⟨rfl, rfl⟩ := Reading.pure_ok h
    exact ⟨rfl, .refl c⟩
  | succ count ih =>
    obtain ⟨first, c₁, hfirst, h⟩ := Reading.bind_ok h
    obtain ⟨others, c₂, hothers, hpure⟩ := Reading.bind_ok h
    obtain ⟨rfl, rfl⟩ := Reading.pure_ok hpure
    obtain ⟨hlength, hrest⟩ := ih hothers
    exact ⟨congrArg (· + 1) hlength, (takeRef_ok hfirst).trans hrest⟩

/-- A node was read from one of its spellings. -/
theorem takeNode_ok {node : TaggedNode} (h : takeNode c = (.ok node, c')) :
    ∃ bytes, Spells bytes node ∧ c.Passed c' bytes := by
  obtain ⟨tag, c₁, htag, h⟩ := Reading.bind_ok h
  have hpassed := Cursor.takeByte_ok (lift_ok htag)
  split at h
  · next hbranch =>
    subst hbranch
    obtain ⟨children, c₂, hchildren, hpure⟩ := Reading.bind_ok h
    obtain ⟨rfl, rfl⟩ := Reading.pure_ok hpure
    obtain ⟨hwidth, hrest⟩ := takeRefs_ok hchildren
    exact ⟨_, .branch hwidth, hpassed.trans hrest⟩
  split at h
  · next hextension =>
    subst hextension
    obtain ⟨key, c₂, hkey, h⟩ := Reading.bind_ok h
    obtain ⟨hlength, stated, hstated, hpassedKey⟩ := Cursor.takeVarBytes_ok (lift_ok hkey)
    split at h
    · cases h
    · next hbad =>
      obtain ⟨child, c₃, hchild, hpure⟩ := Reading.bind_ok h
      obtain ⟨rfl, rfl⟩ := Reading.pure_ok hpure
      obtain ⟨hne, hlow⟩ := (key_accepted_iff key).mp (Bool.eq_false_iff.mpr hbad)
      have hrest := hpassedKey.trans (takeRef_ok hchild)
      exact ⟨_, .extension hne hlow hlength hstated, hpassed.trans hrest⟩
  split at h
  · next hleaf =>
    subst hleaf
    obtain ⟨value, c₂, hvalue, hpure⟩ := Reading.bind_ok h
    obtain ⟨rfl, rfl⟩ := Reading.pure_ok hpure
    obtain ⟨hlength, stated, hstated, hrest⟩ := Cursor.takeVarBytes_ok (lift_ok hvalue)
    exact ⟨_, .leaf hlength hstated, hpassed.trans hrest⟩
  · cases h

/-- Bytes that were decoded spell the node, and all of them were read. -/
theorem decode_ok {bytes : Bytes} {node : TaggedNode} (h : decode bytes = .ok node) :
    Spells bytes node ∧ takeNode (Cursor.start bytes) = (.ok node, ⟨bytes.length, []⟩) := by
  unfold decode at h
  split at h
  · cases h
  · next node' c htake =>
    split at h
    · next hdone =>
      cases h
      obtain ⟨front, hspells, hpassed⟩ := takeNode_ok htake
      obtain ⟨rfl, rfl⟩ := hpassed.of_done hdone
      exact ⟨hspells, htake⟩
    · cases h

/-- Bytes are read as a node exactly when they are one of its spellings. -/
theorem decode_ok_iff {bytes : Bytes} {node : TaggedNode} :
    decode bytes = .ok node ↔ Spells bytes node :=
  ⟨fun h => (decode_ok h).1, decode_spelling⟩

/-! ## Stated lengths -/

/-- Each length that the bytes of a node state is spelled as short as it can be. An extension and a
leaf state one length, behind their tag. -/
def LengthsShortest (bytes : Bytes) : Prop :=
  ∀ tag stated length rest, tag = 0x01 ∨ tag = 0x02 → bytes = tag :: (stated ++ rest) →
    SpellsInt stated length → ShortestInt stated length

/-- The length behind a tag is spelled shortest when it is spelled as it is written. -/
theorem lengthsShortest_iff {tag : UInt8} {stated rest : Bytes} {length : UInt64}
    (htag : tag = 0x01 ∨ tag = 0x02) (h : SpellsInt stated length) :
    LengthsShortest (tag :: (stated ++ rest)) ↔ stated = writeInt length := by
  rw [← shortestInt_iff]
  constructor
  · intro hshortest
    exact hshortest tag stated length rest htag rfl h
  · intro hshortest tag' stated' length' rest' _ heq h'
    obtain ⟨rfl, rfl⟩ := h.unique h' (List.cons.inj heq).2
    exact hshortest

namespace Spells

variable {bytes : Bytes} {node : TaggedNode}

/-- No spelling of a node is shorter than the written one. -/
theorem length_encode_le (h : Spells bytes node) : node.encode.length ≤ bytes.length := by
  cases h with
  | branch hwidth => exact Nat.le_refl _
  | extension hne hlow hlength hstated =>
    have hle := hstated.length_writeInt_le
    simp only [encode, write, List.length_cons, List.length_append]
    omega
  | leaf hlength hstated =>
    have hle := hstated.length_writeInt_le
    simp only [encode, write, List.length_cons, List.length_append]
    omega

/-- A spelling is the written one when its lengths are spelled shortest. -/
theorem encode_eq_iff (h : Spells bytes node) : node.encode = bytes ↔ LengthsShortest bytes := by
  cases h with
  | branch hwidth =>
    refine iff_of_true rfl ?_
    rintro tag stated length rest (rfl | rfl) heq <;> cases heq
  | extension hne hlow hlength hstated =>
    rw [List.append_assoc, lengthsShortest_iff (.inl rfl) hstated, encode, write, List.append_assoc,
      List.cons_inj_right, List.append_left_inj]
    exact eq_comm
  | leaf hlength hstated =>
    rw [lengthsShortest_iff (.inr rfl) hstated, encode, write, List.cons_inj_right,
      List.append_left_inj]
    exact eq_comm

end Spells

/-- Values of variable width are read back one after another to the end of their bytes. A node is
read back from its bytes. Bytes that are read as a node state it to their end, are no shorter than
the written node, and are the written node exactly when their lengths are spelled shortest. -/
theorem values_and_nodes_read_back :
    (∀ items : List VarItem, (∀ item ∈ items, item.Fits) →
      ∃ c, VarItem.takeAll (items.map VarItem.shape)
          (Cursor.start (items.flatMap VarItem.write)) = (.ok items, c) ∧ c.isDone = true) ∧
    (∀ node : TaggedNode, node.Fits → decode node.encode = .ok node) ∧
    ∀ bytes node, decode bytes = .ok node →
      node.Fits ∧ takeNode (Cursor.start bytes) = (.ok node, ⟨bytes.length, []⟩) ∧
        node.encode.length ≤ bytes.length ∧ (node.encode = bytes ↔ LengthsShortest bytes) := by
  refine ⟨?_, fun node => decode_encode, ?_⟩
  · intro items hfits
    have htake := VarItem.takes_all hfits 0 []
    rw [List.append_nil] at htake
    exact ⟨_, htake, rfl⟩
  · intro bytes node h
    obtain ⟨hspells, hall⟩ := decode_ok h
    exact ⟨hspells.fits, hall, hspells.length_encode_le, hspells.encode_eq_iff⟩

/-- A leaf whose length of one is spelled in three bytes is read, and written back in fewer. -/
theorem long_length_read :
    decode [0x02, 0xfd, 0x01, 0x00, 0x07] = .ok (.leaf [0x07]) ∧
      (TaggedNode.leaf [0x07]).encode ≠ [0x02, 0xfd, 0x01, 0x00, 0x07] ∧
      ¬ LengthsShortest [0x02, 0xfd, 0x01, 0x00, 0x07] ∧
      decode (TaggedNode.leaf [0x07]).encode = .ok (.leaf [0x07]) ∧
      ∃ c, VarItem.takeAll [.number, .bytes]
        (Cursor.start [0xfd, 0xfd, 0x00, 0x01, 0x07]) = (.ok [.number 0xfd, .bytes [0x07]], c) ∧
        c.isDone = true := by
  obtain ⟨hitems, hnodes, hbytes⟩ := values_and_nodes_read_back
  have hdecode : decode [0x02, 0xfd, 0x01, 0x00, 0x07] = .ok (.leaf [0x07]) := by decide +kernel
  have hdiffer : (TaggedNode.leaf [0x07]).encode ≠ [0x02, 0xfd, 0x01, 0x00, 0x07] := by decide
  obtain ⟨hfits, -, -, hshortest⟩ := hbytes _ _ hdecode
  refine ⟨hdecode, hdiffer, mt hshortest.mpr hdiffer, hnodes _ hfits, ?_⟩
  have hread : ∀ item ∈ [VarItem.number 0xfd, .bytes [0x07]], item.Fits := by
    simp [VarItem.Fits, UInt64.size]
  exact hitems _ hread

end TaggedNode

end BridgeKernel
