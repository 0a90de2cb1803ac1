import BridgeKernel.Proofs.Event
import BridgeKernel.Proofs.Header.Sealing
import BridgeKernel.Proofs.Trie.Binding

/-!
# Headers and events read back from their encodings

A header is read back from its fifteen items, field by field, whenever the encoding has a length that
can be announced, just as an event is from its seven. So encodings tell headers and events apart, and
the digest of a header stands for another one only if their encodings collide. Headers are told apart
at any length: all fields but extra-data are of bounded length.
-/

namespace BridgeKernel

namespace Header

variable {h h' : Header}

theorem fieldItems_spelled (h : Header) (extra : Bytes) :
    ∀ item ∈ h.fieldItems extra, ∃ bytes, item = Rlp.encodeBytes bytes := by
  simp only [fieldItems, List.forall_mem_cons]
  exact ⟨⟨_, rfl⟩, ⟨_, rfl⟩, ⟨_, rfl⟩, ⟨_, rfl⟩, ⟨_, rfl⟩, ⟨_, rfl⟩, ⟨_, rfl⟩, ⟨_, rfl⟩, ⟨_, rfl⟩,
    ⟨_, rfl⟩, ⟨_, rfl⟩, ⟨_, rfl⟩, ⟨_, rfl⟩, ⟨_, rfl⟩, ⟨_, rfl⟩, List.forall_mem_nil _⟩

theorem readFixed_encodeBytes {n : Nat} (hn : n < 256 ^ 8) (a : FixedBytes n) :
    readFixed n (Rlp.encodeBytes a.toBytes) = .ok a := by
  have hlength : a.toBytes.length < 256 ^ 8 := by rwa [a.length_toBytes]
  simp only [readFixed, Rlp.readBytes_encodeBytes hlength, bind, Except.bind,
    FixedBytes.ofBytes?_toBytes]
  rfl

theorem readWord_encodeNat (n : UInt64) : readWord (Rlp.encodeNat n.toNat) = .ok n := by
  have hwidth : n.toNat < 256 ^ 8 := n.toNat_lt
  have hlength : (Bytes.minimalBE n.toNat).length < 256 ^ 8 := by
    rw [Bytes.length_minimalBE]
    exact Nat.lt_of_le_of_lt (Bytes.minimalWidth_le hwidth) (by decide)
  have hread := (Rlp.readNat_ok_iff (by decide) (Rlp.whole_encodeBytes hlength)).mpr ⟨hwidth, rfl⟩
  simp only [readWord, Rlp.encodeNat, hread, bind, Except.bind, UInt64.ofNat_toNat]
  rfl

/-- A header is read from its items. -/
theorem ofItems_fieldItems (hextra : h.extra.length < 256 ^ 8) :
    ofItems (h.fieldItems h.extra) = .ok h := by
  simp only [fieldItems, ofItems, readFixed_encodeBytes (n := 32) (by decide),
    readFixed_encodeBytes (n := 20) (by decide), readFixed_encodeBytes (n := 256) (by decide),
    readFixed_encodeBytes (n := 8) (by decide), readWord_encodeNat,
    Rlp.readBytes_encodeBytes hextra, bind, Except.bind]
  rfl

/-- A header of a length that can be announced is read back. -/
theorem decode_encode (hfits : h.encode.length < 256 ^ 8) : decode h.encode = .ok h := by
  have hwhole := Rlp.whole_of_spelled (h.fieldItems_spelled h.extra) hfits
  have hitems := Rlp.items_encodeList hwhole (Rlp.length_flatten_lt hfits)
  have hextra : h.extra.length < 256 ^ 8 := by
    refine Rlp.length_lt_of_mem hfits ?_
    simp [fieldItems]
  rw [decode, encode, hitems]
  exact ofItems_fieldItems hextra

theorem encode_injective : Function.Injective encode := by
  intro h h' heq
  exact fieldItems_inj (Rlp.encodeList_inj heq)

/-- Headers are told apart by their digests, or their encodings collide. -/
theorem hash_inj (heq : h.hash = h'.hash) :
    h = h' ∨ Collision Keccak256.hash [h.encode, h'.encode] := by
  have hmem : h.encode ∈ [h.encode, h'.encode] := List.mem_cons_self
  have hmem' : h'.encode ∈ [h.encode, h'.encode] := List.mem_cons_of_mem _ List.mem_cons_self
  exact (eq_or_collision heq hmem hmem').imp_left fun hsame => encode_injective hsame

end Header

theorem Event.encode_inj_iff {e e' : Event} (h : e.encode.length < 256 ^ 8) :
    e.encode = e'.encode ↔ e = e' := by
  refine ⟨fun heq => ?_, congrArg Event.encode⟩
  have hdecode := Event.decode_encode (heq ▸ h : e'.encode.length < 256 ^ 8)
  rw [← heq, Event.decode_encode h] at hdecode
  exact Except.ok.inj hdecode

/-- Headers and events are read back from their encodings when the length of these takes at most
eight bytes. So encodings tell events apart, and they tell headers apart at any length; one digest
belongs to two headers only if their encodings collide. -/
theorem encodings_read_back :
    (∀ h : Header, h.encode.length < 256 ^ 8 → Header.decode h.encode = .ok h) ∧
      (∀ e : Event, e.encode.length < 256 ^ 8 → Event.decode e.encode = .ok e) ∧
      (∀ e e' : Event, e.encode.length < 256 ^ 8 → (e.encode = e'.encode ↔ e = e')) ∧
      (∀ h h' : Header, h.encode = h'.encode ↔ h = h') ∧
      ∀ h h' : Header, h.hash = h'.hash →
        h = h' ∨ Collision Keccak256.hash [h.encode, h'.encode] :=
  ⟨fun _ => Header.decode_encode, fun _ => Event.decode_encode, fun _ _ => Event.encode_inj_iff,
    fun _ _ => Header.encode_injective.eq_iff, fun _ _ => Header.hash_inj⟩

/-- A header at height 1 with nothing else filled in and a short event are read back. The header is
told apart from the one at height 0, unless their encodings collide also by its digest, and the
event from that for another chain. -/
theorem blank_child_read_back :
    let child := { Header.blank with number := 1 }
    let moved := { Event.brief with toChain := 8 }
    child.encode.length < 256 ^ 8 ∧ Event.brief.encode.length < 256 ^ 8 ∧
      Header.decode child.encode = .ok child ∧
      Event.decode Event.brief.encode = .ok Event.brief ∧
      Event.brief.encode ≠ moved.encode ∧ child.encode ≠ Header.blank.encode ∧
      (child.hash ≠ Header.blank.hash ∨
        Collision Keccak256.hash [child.encode, Header.blank.encode]) := by
  intro child moved
  have hheader : child.encode.length < 256 ^ 8 := by decide +kernel
  have hevent : Event.brief.encode.length < 256 ^ 8 := by decide
  have hchild : child ≠ Header.blank := by
    intro hsame
    exact absurd (congrArg Header.number hsame) (by decide)
  have hmoved : Event.brief ≠ moved := by decide
  obtain ⟨hreadHeader, hreadEvent, hevents, hheaders, hdigests⟩ := encodings_read_back
  refine ⟨hheader, hevent, hreadHeader child hheader, hreadEvent Event.brief hevent,
    (hevents Event.brief moved hevent).not.mpr hmoved, (hheaders child Header.blank).not.mpr hchild,
    ?_⟩
  by_cases hhash : child.hash = Header.blank.hash
  · exact .inr ((hdigests child Header.blank hhash).resolve_left hchild)
  · exact .inl hhash

end BridgeKernel
