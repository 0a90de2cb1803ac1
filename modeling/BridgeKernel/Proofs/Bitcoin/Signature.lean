import BridgeKernel.Bitcoin.Signature
import BridgeKernel.Proofs.Wire.Lawful

/-!
# Accepted signatures are short

The integers of a signature are written without padding, and both are in range when the signature
fits its key. So an accepted signature has a bounded length, however long the lengths inside it are
written.
-/

namespace BridgeKernel

namespace Bitcoin.Der

/-- An integer without padding that counts as a nonzero number is hardly longer than the group
order. -/
theorem length_le_of_scalar {bytes : Bytes} (hscalar : scalar bytes ≠ 0)
    (hpadded : padded bytes = false) : bytes.length ≤ 33 := by
  have hvalue : Bytes.toNatBE bytes < 256 ^ 32 := by
    unfold scalar at hscalar
    split at hscalar
    · next hrange =>
      rw [Bool.and_eq_true, decide_eq_true_eq, decide_eq_true_eq] at hrange
      exact Nat.lt_trans hrange.2 (by decide)
    · exact absurd rfl hscalar
  match bytes with
  | [] => exact Nat.zero_le _
  | [_] => exact Nat.le_add_left 1 32
  | first :: second :: rest =>
    rw [Bytes.toNatBE_cons, Bytes.toNatBE_cons, List.length_cons] at hvalue
    have hnonzero : first.toNat ≠ 0 ∨ second.toNat ≠ 0 := by
      by_cases hfirst : first = 0
      · right
        intro hsecond
        have hsecond : second = 0 := UInt8.toNat_inj.mp hsecond
        rw [hfirst, hsecond] at hpadded
        cases hpadded
      · left
        intro hzero
        exact hfirst (UInt8.toNat_inj.mp hzero)
    have hpow : 256 ^ rest.length < 256 ^ 32 := by
      have hone := Nat.pow_le_pow_right (n := 256) (by omega) (Nat.le_succ rest.length)
      rcases hnonzero with hfirst | hsecond
      · have hmul := Nat.le_mul_of_pos_right (256 ^ (rest.length + 1)) (Nat.pos_of_ne_zero hfirst)
        omega
      · have hmul := Nat.le_mul_of_pos_right (256 ^ rest.length) (Nat.pos_of_ne_zero hsecond)
        omega
    have hlength := (Nat.pow_lt_pow_iff_right (by omega)).mp hpow
    rw [List.length_cons, List.length_cons]
    omega

/-- A length takes at most nine bytes. -/
theorem takeLength_length {bytes rest : Bytes} {length : Nat}
    (h : takeLength bytes = some (length, rest)) : bytes.length ≤ rest.length + 9 := by
  unfold takeLength at h
  split at h
  · cases h
  · next first tail =>
    split at h
    · cases h
      rw [List.length_cons]
      omega
    split at h
    · cases h
    dsimp only at h
    split at h
    · cases h
    · next hwidth =>
      split at h
      · cases h
      · obtain ⟨-, rfl⟩ := Prod.mk.inj (Option.some.inj h)
        simp only [Bool.or_eq_true, decide_eq_true_eq, not_or] at hwidth
        rw [List.length_cons, List.length_drop]
        omega

/-- An integer that counts as a nonzero number takes few bytes. -/
theorem takeInteger_length {bytes rest : Bytes} {n : Nat} (h : takeInteger bytes = some (n, rest))
    (hn : n ≠ 0) : bytes.length ≤ rest.length + 43 := by
  unfold takeInteger at h
  split at h
  · next tail =>
    obtain ⟨⟨length, body⟩, hlength, h⟩ := Option.bind_eq_some_iff.mp h
    have htail := takeLength_length hlength
    dsimp only at h
    split at h
    · cases h
    · next hfits =>
      cases h
      simp only [Bool.or_eq_true, decide_eq_true_eq, not_or, Bool.not_eq_true] at hfits
      have hshort := length_le_of_scalar hn hfits.2
      rw [List.length_take] at hshort
      rw [List.length_cons, List.length_drop]
      omega
  · cases h

/-- A signature of two nonzero numbers takes few bytes. -/
theorem signature?_length {bytes : Bytes} {sig : Ecdsa.Signature}
    (h : signature? bytes = some sig) (hr : sig.r ≠ 0) (hs : sig.s ≠ 0) : bytes.length ≤ 96 := by
  unfold signature? at h
  split at h
  · next tail =>
    obtain ⟨⟨length, body⟩, hlength, h⟩ := Option.bind_eq_some_iff.mp h
    have htail := takeLength_length hlength
    dsimp only at h
    split at h
    · cases h
    obtain ⟨⟨r, afterR⟩, hr', h⟩ := Option.bind_eq_some_iff.mp h
    obtain ⟨⟨s, afterS⟩, hs', h⟩ := Option.bind_eq_some_iff.mp h
    dsimp only at h hr' hs'
    split at h
    · next hempty =>
      cases h
      have hbody := takeInteger_length hr' hr
      have hrest := takeInteger_length hs' hs
      rw [List.isEmpty_iff.mp hempty, List.length_nil] at hrest
      rw [List.length_cons]
      omega
    · cases h
  · cases h

end Bitcoin.Der

namespace Bitcoin

/-- A signature that fits has two numbers in range. -/
theorem verifies_inRange {point : Secp256k1.Point} {digest : Hash} {sig : Ecdsa.Signature}
    (h : Ecdsa.verifies point digest sig = true) : sig.r ≠ 0 ∧ sig.s ≠ 0 := by
  unfold Ecdsa.verifies at h
  split at h
  · next hrange =>
    obtain ⟨hrange, -⟩ := Bool.and_eq_true_iff.mp hrange
    simp only [Ecdsa.Signature.inRange, Bool.and_eq_true, decide_eq_true_eq] at hrange
    omega
  · cases h

/-- A signature that a script accepts has few bytes. -/
theorem checkSignature_length {digest : Hash} {signature key : Bytes}
    (h : checkSignature digest signature key = .ok ()) : signature.length ≤ 97 := by
  unfold checkSignature at h
  split at h
  · cases h
  split at h
  · cases h
  split at h
  · cases h
  · next sig hsig =>
    split at h
    · cases h
    split at h
    · cases h
    split at h
    · next hverifies =>
      obtain ⟨hr, hs⟩ := verifies_inRange hverifies
      have hlength := Der.signature?_length hsig hr hs
      rw [List.length_dropLast] at hlength
      omega
    · cases h

end Bitcoin

end BridgeKernel
