import BridgeKernel.Trie.Nibbles
import Mathlib.Data.List.Induction

/-!
# Paths of nibbles read back

A byte is told from its two halves, so a byte string is told from its nibbles and packed from them
again. A path that is written behind its flag is read back with its leaf mark. Since the flag must
be a known one and padding must be zero, nothing else is read as this path.
-/

namespace BridgeKernel.Nibbles

/-- All of a path are halves of bytes. -/
def Low (path : List UInt8) : Prop := ∀ nibble ∈ path, nibble.toNat < 16

/-! ## Halves of bytes -/

/-- A half of a byte by the slot that it stands for. -/
theorem eq_ofNat_iff {nibble : UInt8} (slot : Fin 16) :
    nibble = UInt8.ofNat slot ↔ nibble.toNat = slot := by
  rw [← UInt8.toNat_inj, UInt8.toNat_ofNat', Nat.mod_eq_of_lt (by omega)]

theorem ofNat_inj {a b : Fin 16} : UInt8.ofNat a = UInt8.ofNat b ↔ a = b := by
  have ha : (UInt8.ofNat a).toNat = a := (eq_ofNat_iff a).mp rfl
  rw [eq_ofNat_iff, ha, Fin.val_inj]

theorem toNat_high (b : UInt8) : (b >>> 4).toNat = b.toNat / 16 := by
  simp [Nat.shiftRight_eq_div_pow]

theorem toNat_low (b : UInt8) : (b &&& 0x0f).toNat = b.toNat % 16 := by
  have hmask : (0x0f : UInt8).toNat = 2 ^ 4 - 1 := rfl
  rw [UInt8.toNat_and, hmask, Nat.and_two_pow_sub_one_eq_mod]

/-- A byte put together from its halves. -/
theorem toNat_joined {high low : UInt8} (hhigh : high.toNat < 16) (hlow : low.toNat < 16) :
    ((high <<< 4) ||| low).toNat = 16 * high.toNat + low.toNat := by
  have hshift : (high <<< 4).toNat = high.toNat <<< 4 := by
    rw [UInt8.toNat_shiftLeft, Nat.mod_eq_of_lt]
    · rfl
    · simp [Nat.shiftLeft_eq]
      omega
  rw [UInt8.toNat_or, hshift, ← Nat.shiftLeft_add_eq_or_of_lt hlow, Nat.shiftLeft_eq]
  omega

theorem high_joined {high low : UInt8} (hhigh : high.toNat < 16) (hlow : low.toNat < 16) :
    ((high <<< 4) ||| low) >>> 4 = high := by
  apply UInt8.toNat_inj.mp
  rw [toNat_high, toNat_joined hhigh hlow]
  omega

theorem low_joined {high low : UInt8} (hhigh : high.toNat < 16) (hlow : low.toNat < 16) :
    ((high <<< 4) ||| low) &&& 0x0f = low := by
  apply UInt8.toNat_inj.mp
  rw [toNat_low, toNat_joined hhigh hlow]
  omega

/-- A byte is put together from its own halves. -/
theorem joined_halves (b : UInt8) : ((b >>> 4) <<< 4) ||| (b &&& 0x0f) = b := by
  have hb := b.toNat_lt
  have hhigh := toNat_high b
  have hlow := toNat_low b
  apply UInt8.toNat_inj.mp
  rw [toNat_joined (by omega) (by omega)]
  omega

/-! ## Byte strings -/

@[simp] theorem ofBytes_nil : ofBytes [] = [] := rfl

@[simp] theorem ofBytes_cons (b : UInt8) (bytes : Bytes) :
    ofBytes (b :: bytes) = (b >>> 4) :: (b &&& 0x0f) :: ofBytes bytes := rfl

@[simp] theorem length_ofBytes (bytes : Bytes) : (ofBytes bytes).length = 2 * bytes.length := by
  induction bytes with
  | nil => rfl
  | cons b bytes ih => simp [ih]; omega

theorem low_ofBytes (bytes : Bytes) : Low (ofBytes bytes) := by
  induction bytes with
  | nil => simp [Low]
  | cons b bytes ih =>
    intro nibble hmem
    have hb := b.toNat_lt
    simp only [ofBytes_cons, List.mem_cons] at hmem
    rcases hmem with rfl | rfl | hmem
    · rw [toNat_high]
      omega
    · rw [toNat_low]
      omega
    · exact ih nibble hmem

/-- A byte string is packed from its nibbles. -/
theorem pack_ofBytes (bytes : Bytes) : pack (ofBytes bytes) = bytes := by
  induction bytes with
  | nil => rfl
  | cons b bytes ih => rw [ofBytes_cons, pack, joined_halves, ih]

/-- A byte string is told from its nibbles. -/
theorem ofBytes_injective : Function.Injective ofBytes :=
  Function.LeftInverse.injective pack_ofBytes

/-- An even number of nibbles is read back from the bytes into which they are packed. -/
theorem ofBytes_pack {path : List UInt8} (hlow : Low path) (heven : path.length % 2 = 0) :
    ofBytes (pack path) = path := by
  induction path using List.twoStepInduction with
  | nil => rfl
  | singleton nibble => simp at heven
  | cons_cons high low rest ih =>
    have hhigh := hlow high (by simp)
    have hsecond := hlow low (by simp)
    have hrest : ofBytes (pack rest) = rest := by
      apply ih
      · intro nibble hmem
        exact hlow nibble (by simp [hmem])
      · simp at heven
        omega
    simp [pack, high_joined hhigh hsecond, low_joined hhigh hsecond, hrest]

/-! ## Paths behind their flag -/

theorem flag_lt (odd leaf : Bool) : (flag odd leaf).toNat < 16 := by
  cases odd <;> cases leaf <;> decide

/-- A known flag is told from its parity and its leaf mark. -/
theorem flag_of_known {code : UInt8} (h : ¬ 3 < code) :
    flag (code % 2 = 1) (2 ≤ code) = code := by
  have hcode : code.toNat ≤ 3 := UInt8.le_iff_toNat_le.mp (UInt8.not_lt.mp h)
  have hcases : code = 0 ∨ code = 1 ∨ code = 2 ∨ code = 3 := by
    simp only [← UInt8.toNat_inj, UInt8.toNat_ofNat]
    omega
  rcases hcases with rfl | rfl | rfl | rfl <;> rfl

/-- The first of an odd number of nibbles shares a byte with the flag. -/
theorem encodePath_odd (first : UInt8) {rest : List UInt8} (h : rest.length % 2 = 0) (leaf : Bool) :
    encodePath (first :: rest) leaf = ((flag true leaf <<< 4) ||| first) :: pack rest := by
  have hodd : (first :: rest).length % 2 = 1 := by
    rw [List.length_cons]
    omega
  rw [encodePath, if_pos hodd]

/-- In front of an even number of nibbles the flag has a byte of its own. -/
theorem encodePath_even {path : List UInt8} (h : path.length % 2 = 0) (leaf : Bool) :
    encodePath path leaf = (flag false leaf <<< 4) :: pack path := by
  have heven : ¬ path.length % 2 = 1 := by omega
  rw [encodePath.eq_def, if_neg heven]

/-- A path that is written in a node is read back, with its leaf mark. -/
theorem decodePath?_encodePath {path : List UInt8} (hlow : Low path) (leaf : Bool) :
    decodePath? (encodePath path leaf) = some (path, leaf) := by
  by_cases heven : path.length % 2 = 0
  · rw [encodePath_even heven]
    simp only [decodePath?, ofBytes_pack hlow heven]
    cases leaf <;> rfl
  · cases path with
    | nil => exact absurd rfl heven
    | cons first rest =>
      have hfirst := hlow first List.mem_cons_self
      have hothers : Low rest := fun nibble hmem => hlow nibble (List.mem_cons_of_mem first hmem)
      have hrest : rest.length % 2 = 0 := by
        rw [List.length_cons] at heven
        omega
      have hhigh := high_joined (flag_lt true leaf) hfirst
      have hsecond := low_joined (flag_lt true leaf) hfirst
      rw [encodePath_odd first hrest]
      simp only [decodePath?, hhigh, hsecond, ofBytes_pack hothers hrest]
      cases leaf <;> rfl

/-- What is read as a path consists of nibbles, and is written as the bytes that were read. -/
theorem encodePath_of_decodePath? {bytes : Bytes} {path : List UInt8} {leaf : Bool}
    (h : decodePath? bytes = some (path, leaf)) : Low path ∧ encodePath path leaf = bytes := by
  cases bytes with
  | nil => cases h
  | cons first rest =>
    have heven : (ofBytes rest).length % 2 = 0 := by
      rw [length_ofBytes, Nat.mul_mod_right]
    have hjoined := joined_halves first
    simp only [decodePath?] at h
    split at h
    · cases h
    · next hknown =>
      have hflag := flag_of_known hknown
      split at h
      · next hodd =>
        cases h
        have hlow := toNat_low first
        rw [decide_eq_true hodd] at hflag
        refine ⟨List.forall_mem_cons.mpr ⟨by omega, low_ofBytes rest⟩, ?_⟩
        rw [encodePath_odd _ heven, pack_ofBytes, hflag, hjoined]
      · next hodd =>
        split at h
        · cases h
        · next hpad =>
          cases h
          rw [decide_eq_false hodd] at hflag
          -- the low half is padding, so the first byte is the flag alone
          rw [not_not.mp hpad, UInt8.or_zero] at hjoined
          refine ⟨low_ofBytes rest, ?_⟩
          rw [encodePath_even heven, pack_ofBytes, hflag, hjoined]

/-- Bytes are read as a path and a leaf mark exactly when the path consists of nibbles and they are
what is written for it under that mark. So every path of nibbles has one spelling that is accepted,
and nothing else has any. -/
theorem path_spelled_once (path : List UInt8) (leaf : Bool) :
    (∀ bytes, decodePath? bytes = some (path, leaf) ↔ Low path ∧ encodePath path leaf = bytes) ∧
      (Low path ↔ ∃! bytes, decodePath? bytes = some (path, leaf)) := by
  have hspelled (bytes : Bytes) :
      decodePath? bytes = some (path, leaf) ↔ Low path ∧ encodePath path leaf = bytes := by
    constructor
    · exact encodePath_of_decodePath?
    · rintro ⟨hlow, rfl⟩
      exact decodePath?_encodePath hlow leaf
  refine ⟨hspelled, ?_, ?_⟩
  · intro hlow
    refine ⟨encodePath path leaf, decodePath?_encodePath hlow leaf, fun bytes hread => ?_⟩
    exact ((hspelled bytes).mp hread).2.symm
  · rintro ⟨bytes, hread, -⟩
    exact ((hspelled bytes).mp hread).1

/-- Padding that is not zero would be a second spelling. -/
example : encodePath [1, 2] false = [0x00, 0x12] ∧ decodePath? [0x05, 0x12] = none := by decide

end BridgeKernel.Nibbles
