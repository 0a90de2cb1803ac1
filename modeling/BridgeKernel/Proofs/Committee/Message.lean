import BridgeKernel.Proofs.Committee.Succession
import BridgeKernel.Proofs.Trie.Binding
import BridgeKernel.Proofs.Wire.Canonical

/-!
# The bytes of committee messages

A message is read back from its bytes, and it is read from no bytes but those that begin with its
own; what follows them is left alone. The part that is signed has bytes of its own for every version,
chain, height, root and successor, so two bodies have one digest only if their bytes collide.
-/

namespace BridgeKernel

open Record Wire

/-! ## Laws of the parts -/

instance : CanonicalRecord Committee where
  write_of_read h := by
    obtain ⟨height, _, hheight, h⟩ := bind_ok h
    obtain ⟨threshold, _, hthreshold, h⟩ := bind_ok h
    obtain ⟨keys, _, hkeys, h⟩ := bind_ok h
    obtain ⟨rfl, rfl⟩ := pure_ok h
    obtain ⟨-, rfl⟩ := CanonicalRecord.write_of_read hheight
    obtain ⟨-, rfl⟩ := CanonicalRecord.write_of_read hthreshold
    obtain ⟨hfits, rfl⟩ := CanonicalRecord.write_of_read hkeys
    refine ⟨hfits, ?_⟩
    simp only [write, List.append_assoc]

instance : LawfulRecord MessageBody where
  read_write b rest hf := by
    have hnext : fits b.nextCommittee = true := hf
    change (do
      let version ← read
      let chainId ← read
      let height ← read
      let stateRoot ← read
      let nextCommittee ← read
      return { version, chainId, height, stateRoot, nextCommittee } : Reader MessageBody)
      (write b.version ++ write b.chainId ++ write b.height ++ write b.stateRoot ++
        write b.nextCommittee ++ rest) = _
    simp only [List.append_assoc]
    rw [bind_read_write rfl, bind_read_write rfl, bind_read_write rfl, bind_read_write rfl,
      bind_read_write hnext]
    rfl

instance : CanonicalRecord MessageBody where
  write_of_read h := by
    obtain ⟨version, _, hversion, h⟩ := bind_ok h
    obtain ⟨chainId, _, hchain, h⟩ := bind_ok h
    obtain ⟨height, _, hheight, h⟩ := bind_ok h
    obtain ⟨stateRoot, _, hroot, h⟩ := bind_ok h
    obtain ⟨nextCommittee, _, hnext, h⟩ := bind_ok h
    obtain ⟨rfl, rfl⟩ := pure_ok h
    obtain ⟨-, rfl⟩ := CanonicalRecord.write_of_read hversion
    obtain ⟨-, rfl⟩ := CanonicalRecord.write_of_read hchain
    obtain ⟨-, rfl⟩ := CanonicalRecord.write_of_read hheight
    obtain ⟨-, rfl⟩ := CanonicalRecord.write_of_read hroot
    obtain ⟨hfits, rfl⟩ := CanonicalRecord.write_of_read hnext
    refine ⟨hfits, ?_⟩
    simp only [write, List.append_assoc]

instance : LawfulRecord WitnessEntry where
  read_write w rest hf := by
    have hsignature : fits w.signature = true := hf
    change (do
      let keyIndex ← read
      let signature ← read
      return { keyIndex, signature } : Reader WitnessEntry)
      (write w.keyIndex ++ write w.signature ++ rest) = _
    rw [List.append_assoc, bind_read_write rfl, bind_read_write hsignature]
    rfl

instance : CanonicalRecord WitnessEntry where
  write_of_read h := by
    obtain ⟨keyIndex, _, hindex, h⟩ := bind_ok h
    obtain ⟨signature, _, hsignature, h⟩ := bind_ok h
    obtain ⟨rfl, rfl⟩ := pure_ok h
    obtain ⟨-, rfl⟩ := CanonicalRecord.write_of_read hindex
    obtain ⟨hfits, rfl⟩ := CanonicalRecord.write_of_read hsignature
    refine ⟨hfits, ?_⟩
    simp only [write, List.append_assoc]

instance : LawfulRecord CommitteeMessage where
  read_write m rest hf := by
    obtain ⟨hbody, hwitness⟩ := Bool.and_eq_true_iff.mp hf
    change (do
      let body ← read
      let witness ← read
      return { body, witness } : Reader CommitteeMessage)
      (write m.body ++ write m.witness ++ rest) = _
    rw [List.append_assoc, bind_read_write hbody, bind_read_write hwitness]
    rfl

instance : CanonicalRecord CommitteeMessage where
  write_of_read h := by
    obtain ⟨body, _, hbody, h⟩ := bind_ok h
    obtain ⟨witness, _, hwitness, h⟩ := bind_ok h
    obtain ⟨rfl, rfl⟩ := pure_ok h
    obtain ⟨hfits, rfl⟩ := CanonicalRecord.write_of_read hbody
    obtain ⟨hfits', rfl⟩ := CanonicalRecord.write_of_read hwitness
    refine ⟨Bool.and_eq_true_iff.mpr ⟨hfits, hfits'⟩, ?_⟩
    simp only [write, List.append_assoc]

/-! ## What is signed -/

namespace MessageBody

variable {b b' : MessageBody}

theorem preimage_ok {bytes : Bytes} (h : b.preimage = .ok bytes) :
    fits b = true ∧ write b = bytes := by
  unfold preimage at h
  split at h
  · next hfits => exact ⟨hfits, Except.ok.inj h⟩
  · cases h

/-- Bodies are told apart by the bytes that are signed. -/
theorem preimage_inj {bytes : Bytes} (h : b.preimage = .ok bytes) (h' : b'.preimage = .ok bytes) :
    b = b' := by
  obtain ⟨hfits, hwrite⟩ := preimage_ok h
  obtain ⟨hfits', hwrite'⟩ := preimage_ok h'
  exact write_injective hfits hfits' (hwrite.trans hwrite'.symm)

/-- A digest is that of a body's bytes. -/
theorem preimage_of_digest {digest : Hash} (h : b.digest = .ok digest) :
    b.preimage = .ok (write b) ∧ Sha256.hash (write b) = digest := by
  cases hpreimage : b.preimage with
  | error e =>
    rw [MessageBody.digest, hpreimage] at h
    cases h
  | ok bytes =>
    obtain ⟨-, rfl⟩ := preimage_ok hpreimage
    exact ⟨rfl, (digest_ok h).symm⟩

/-- Bodies are told apart by their digests, or their bytes collide. -/
theorem digest_inj {digest : Hash} (h : b.digest = .ok digest) (h' : b'.digest = .ok digest) :
    b = b' ∨ Collision Sha256.hash [write b, write b'] := by
  obtain ⟨hpreimage, hdigest⟩ := preimage_of_digest h
  obtain ⟨hpreimage', hdigest'⟩ := preimage_of_digest h'
  have hmem : write b ∈ [write b, write b'] := List.mem_cons_self
  have hmem' : write b' ∈ [write b, write b'] := List.mem_cons_of_mem _ List.mem_cons_self
  refine (eq_or_collision (hdigest.trans hdigest'.symm) hmem hmem').imp_left fun hsame => ?_
  exact preimage_inj hpreimage (hsame ▸ hpreimage')

end MessageBody

namespace CommitteeMessage

variable {m : CommitteeMessage} {bytes : Bytes}

theorem encode_ok_iff : m.encode = .ok bytes ↔ fits m = true ∧ write m = bytes := by
  unfold encode
  split
  · next hfits => simp [hfits]
  · next hfits => simp [hfits]

/-- A message is read from exactly those bytes that begin with its own. -/
theorem decode_ok_iff :
    decode bytes = .ok m ↔ ∃ written, m.encode = .ok written ∧ written <+: bytes := by
  constructor
  · intro h
    unfold decode at h
    split at h
    · next found hfound =>
      cases h
      obtain ⟨hfits, hprefix⟩ := Record.decode_ok hfound
      exact ⟨write m, encode_ok_iff.mpr ⟨hfits, rfl⟩, hprefix⟩
    · cases h
  · rintro ⟨written, hwritten, rest, rfl⟩
    obtain ⟨hfits, rfl⟩ := encode_ok_iff.mp hwritten
    rw [decode, Record.decode, LawfulRecord.read_write m rest hfits]

/-- A message whose lengths can be stated has bytes from which it is read back. A message is read
from exactly those byte strings that begin with its bytes. Bodies with the same bytes to be signed
are the same in every field, down to each key of a successor, so one digest belongs to two bodies
only if their bytes collide. -/
theorem format_binding :
    (∀ m : CommitteeMessage, fits m = true →
        ∃ written, m.encode = .ok written ∧ decode written = .ok m) ∧
      (∀ bytes m, decode bytes = .ok m ↔ ∃ written, m.encode = .ok written ∧ written <+: bytes) ∧
      (∀ (b b' : MessageBody) (bytes : Bytes), b.preimage = .ok bytes → b'.preimage = .ok bytes →
        b = b') ∧
      ∀ (b b' : MessageBody) (digest : Hash), b.digest = .ok digest → b'.digest = .ok digest →
        b = b' ∨ Collision Sha256.hash [write b, write b'] := by
  refine ⟨fun m hfits => ?_, fun _ _ => decode_ok_iff, fun _ _ _ => MessageBody.preimage_inj,
    fun _ _ _ => MessageBody.digest_inj⟩
  have hwritten := encode_ok_iff.mpr ⟨hfits, rfl⟩
  exact ⟨write m, hwritten, decode_ok_iff.mpr ⟨write m, hwritten, List.prefix_refl _⟩⟩

/-- A message that names a successor with two keys and carries two signatures. -/
def succession : CommitteeMessage where
  body := { CommitteeStore.signedBody with nextCommittee := some CommitteeStore.twins }
  witness := [CommitteeStore.signedEntry 0, CommitteeStore.signedEntry 1]

/-- The message is read back, also with a byte behind it. Its body is told apart from the one that
names no successor, unless their bytes collide also by its digest. -/
theorem succession_read_back :
    fits succession = true ∧
      (∃ written, succession.encode = .ok written ∧ decode written = .ok succession) ∧
      decode (write succession ++ [0]) = .ok succession ∧
      succession.body.preimage = .ok (write succession.body) ∧
      CommitteeStore.signedBody.preimage ≠ .ok (write succession.body) ∧
      succession.body.digest = .ok (Sha256.hash (write succession.body)) ∧
      (CommitteeStore.signedBody.digest ≠ .ok (Sha256.hash (write succession.body)) ∨
        Collision Sha256.hash [write succession.body, write CommitteeStore.signedBody]) := by
  have hfits : fits succession = true := by decide
  have hother : succession.body ≠ CommitteeStore.signedBody := by decide
  obtain ⟨hread, hforms, hpreimages, hdigests⟩ := format_binding
  have htrailed := (hforms (write succession ++ [0]) succession).mpr
    ⟨write succession, encode_ok_iff.mpr ⟨hfits, rfl⟩, List.prefix_append _ _⟩
  refine ⟨hfits, hread succession hfits, htrailed, rfl, ?_, rfl, ?_⟩
  · intro hpreimage
    exact hother (hpreimages _ _ _ rfl hpreimage)
  · by_cases hdigest : CommitteeStore.signedBody.digest = .ok (Sha256.hash (write succession.body))
    · exact .inr ((hdigests _ _ _ rfl hdigest).resolve_left hother)
    · exact .inl hdigest

end CommitteeMessage

end BridgeKernel
