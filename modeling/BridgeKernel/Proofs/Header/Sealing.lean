import BridgeKernel.Header.Basic
import BridgeKernel.Proofs.Wire.Rlp

/-!
# What a seal is for

The producer of a header signs the bytes of the header without its seal, behind the chain id. These
bytes tell chain and unsealed header apart from all others at any length of extra-data: the fields
in front of extra-data are read one after another, those behind it have one length, and what is left
is extra-data itself. Nor are they the bytes of a whole header, which begins with a digest where
these begin with a number.
-/

namespace BridgeKernel.Header

/-- The header without its seal. -/
def unsealed (h : Header) : Header := { h with extra := h.unsealedExtra }

variable {h h' : Header} {chain chain' : ChainId}

/-- The fields tell headers apart, whatever extra-data stands for their own. -/
theorem fieldItems_inj {extra extra' : Bytes}
    (heq : (h.fieldItems extra).flatten = (h'.fieldItems extra').flatten) :
    { h with extra := extra } = { h' with extra := extra' } := by
  simp only [fieldItems, List.flatten_cons, List.flatten_nil, List.append_nil] at heq
  obtain ⟨hparent, heq⟩ := Rlp.encodeFixed_append_inj (by decide) heq
  obtain ⟨huncles, heq⟩ := Rlp.encodeFixed_append_inj (by decide) heq
  obtain ⟨hcoinbase, heq⟩ := Rlp.encodeFixed_append_inj (by decide) heq
  obtain ⟨hstate, heq⟩ := Rlp.encodeFixed_append_inj (by decide) heq
  obtain ⟨htx, heq⟩ := Rlp.encodeFixed_append_inj (by decide) heq
  obtain ⟨hreceipts, heq⟩ := Rlp.encodeFixed_append_inj (by decide) heq
  obtain ⟨hbloom, heq⟩ := Rlp.encodeFixed_append_inj (by decide) heq
  obtain ⟨hdifficulty, heq⟩ := Rlp.encodeWord_append_inj heq
  obtain ⟨hnumber, heq⟩ := Rlp.encodeWord_append_inj heq
  obtain ⟨hlimit, heq⟩ := Rlp.encodeWord_append_inj heq
  obtain ⟨hused, heq⟩ := Rlp.encodeWord_append_inj heq
  obtain ⟨htime, heq⟩ := Rlp.encodeWord_append_inj heq
  -- extra-data may be too long to be read back, so it is cut off from the end
  have hbehind : (Rlp.encodeBytes h.mixDigest.toBytes ++ Rlp.encodeBytes h.nonce.toBytes).length =
      (Rlp.encodeBytes h'.mixDigest.toBytes ++ Rlp.encodeBytes h'.nonce.toBytes).length := by
    simp only [List.length_append, Rlp.length_encodeFixed (n := 32) (by decide),
      Rlp.length_encodeFixed (n := 8) (by decide)]
  obtain ⟨hextra, heq⟩ := List.append_inj' heq hbehind
  obtain ⟨hmix, heq⟩ := Rlp.encodeFixed_append_inj (by decide) heq
  have hnonce := FixedBytes.ext (Rlp.encodeBytes_injective heq)
  rw [hparent, huncles, hcoinbase, hstate, htx, hreceipts, hbloom, hdifficulty, hnumber, hlimit,
    hused, htime, Rlp.encodeBytes_injective hextra, hmix, hnonce]

/-- A chain and an unsealed header have bytes of their own. -/
theorem sealPreimage_eq_iff : h.sealPreimage chain = h'.sealPreimage chain' ↔
    chain = chain' ∧ h.unsealed = h'.unsealed := by
  constructor
  · intro heq
    have hitems := Rlp.encodeList_inj heq
    rw [List.flatten_cons, List.flatten_cons] at hitems
    obtain ⟨hchain, hfields⟩ := Rlp.encodeWord_append_inj hitems
    exact ⟨hchain, fieldItems_inj hfields⟩
  · rintro ⟨rfl, hsame⟩
    have hpreimage (x : Header) : x.sealPreimage chain =
        Rlp.encodeList (Rlp.encodeNat chain.toNat :: x.unsealed.fieldItems x.unsealed.extra) := rfl
    rw [hpreimage, hpreimage, hsame]

/-- The seal that is set does not matter without the seal. -/
theorem unsealed_setSeal (h : Header) (sealBytes : FixedBytes 65) :
    (h.setSeal sealBytes).unsealed = h.unsealed := by
  unfold setSeal
  split
  · have hcut : (h.unsealedExtra ++ sealBytes.toBytes).length - sealLength =
        h.unsealedExtra.length := by
      rw [List.length_append, sealBytes.length_toBytes, sealLength, Nat.add_sub_cancel]
    simp only [unsealed, unsealedExtra] at hcut ⊢
    rw [hcut, List.take_left]
  · rfl

/-- The bytes to be signed begin with a number, and those of a header with a digest. -/
theorem sealPreimage_ne_encode (h h' : Header) (chain : ChainId) :
    h.sealPreimage chain ≠ h'.encode := by
  intro heq
  have hitems := Rlp.encodeList_inj heq
  rw [fieldItems.eq_def h', List.flatten_cons, List.flatten_cons] at hitems
  have hwidth : (Bytes.minimalBE chain.toNat).length ≤ 8 := by
    rw [Bytes.length_minimalBE]
    exact Bytes.minimalWidth_le chain.toNat_lt
  have hdigest := h'.parentHash.length_toBytes
  obtain ⟨hfirst, -⟩ := Rlp.encodeBytes_append_inj (by omega) (by omega) hitems
  rw [hfirst, hdigest] at hwidth
  exact absurd hwidth (by decide)

/-- The bytes that a producer signs are the same for two chains and headers exactly when the chains
are the same and the headers agree in all but the last 65 bytes of extra-data. So they are left as
they are when the seal is set, and they are never the bytes of which a header's own digest is
taken. -/
theorem seal_binds_unsealed (h h' : Header) (chain chain' : ChainId) (sealBytes : FixedBytes 65) :
    (h.sealPreimage chain = h'.sealPreimage chain' ↔
        chain = chain' ∧ h.unsealed = h'.unsealed) ∧
      (h.setSeal sealBytes).sealPreimage chain = h.sealPreimage chain ∧
      (h.setSeal sealBytes).sealHash chain = h.sealHash chain ∧
      h.sealPreimage chain ≠ h'.encode := by
  have hset : (h.setSeal sealBytes).sealPreimage chain = h.sealPreimage chain :=
    sealPreimage_eq_iff.mpr ⟨rfl, h.unsealed_setSeal sealBytes⟩
  exact ⟨sealPreimage_eq_iff, hset, congrArg Keccak256.hash hset, sealPreimage_ne_encode h h' chain⟩

end BridgeKernel.Header
