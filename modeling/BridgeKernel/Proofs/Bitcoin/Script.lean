import BridgeKernel.Bitcoin.Script
import BridgeKernel.Proofs.Wire.Canonical
import Mathlib.Data.List.Forall2

/-!
# The spellings of instructions

A script is read as a list of instructions exactly when it is made of spellings of them, one behind
the other. An opcode has one spelling. A push has one for each way to state its length: by the opcode
itself when the length is at most 75, and by one, two or four bytes behind an opcode of their own.
Writing uses the shortest one.
-/

namespace BridgeKernel.Script

/-- The forms in which a script states an instruction. -/
inductive Spells : Bytes → Instruction → Prop
  /-- A short push begins with its length. -/
  | direct {data : Bytes} (hlength : data.length ≤ 0x4b) :
    Spells (UInt8.ofNat data.length :: data) (.push data)
  /-- A push has an opcode that says how many bytes state its length. -/
  | counted {code : UInt8} {width : Nat} {data : Bytes} (hcode : pushLengthWidth? code = some width)
    (hlength : data.length < 256 ^ width) :
    Spells (code :: (Bytes.ofNatLE width data.length ++ data)) (.push data)
  /-- Any other opcode stands for itself. -/
  | op {code : UInt8} (hhigh : 0x4b < code) (hcode : pushLengthWidth? code = none) :
    Spells [code] (.op code)

theorem pushLengthWidth?_some_iff {code : UInt8} {width : Nat} :
    pushLengthWidth? code = some width ↔
      (code = 0x4c ∧ width = 1) ∨ (code = 0x4d ∧ width = 2) ∨ (code = 0x4e ∧ width = 4) := by
  unfold pushLengthWidth?
  constructor
  · intro h
    split at h
    · next hcode => exact .inl ⟨hcode, (Option.some.inj h).symm⟩
    split at h
    · next hcode => exact .inr (.inl ⟨hcode, (Option.some.inj h).symm⟩)
    split at h
    · next hcode => exact .inr (.inr ⟨hcode, (Option.some.inj h).symm⟩)
    · cases h
  · rintro (⟨rfl, rfl⟩ | ⟨rfl, rfl⟩ | ⟨rfl, rfl⟩) <;> rfl

theorem takePush_some_iff {count : Nat} {rest rest' : Bytes} {first : Instruction} :
    takePush count rest = some (first, rest') ↔
      ∃ data, data.length = count ∧ first = .push data ∧ rest = data ++ rest' := by
  unfold takePush
  constructor
  · intro h
    split at h
    · next hle =>
      cases h
      exact ⟨rest.take count, List.length_take_of_le hle, rfl, (List.take_append_drop _ _).symm⟩
    · cases h
  · rintro ⟨data, rfl, rfl, rfl⟩
    simp

/-- What is taken from the front is an instruction of which a spelling stands there. -/
theorem takeInstruction_some_iff {code : UInt8} {rest rest' : Bytes} {first : Instruction} :
    takeInstruction code rest = some (first, rest') ↔
      ∃ spelled, Spells spelled first ∧ code :: rest = spelled ++ rest' := by
  unfold takeInstruction
  constructor
  · intro h
    split at h
    · next hlow =>
      obtain ⟨data, hlength, rfl, rfl⟩ := takePush_some_iff.mp h
      have hcode : UInt8.ofNat data.length = code := by rw [hlength, UInt8.ofNat_toNat]
      refine ⟨_, .direct (hlength ▸ UInt8.le_iff_toNat_le.mp hlow), ?_⟩
      rw [hcode, List.cons_append]
    · next hhigh =>
      split at h
      · next hcode =>
        cases h
        exact ⟨[code], .op (UInt8.not_le.mp hhigh) hcode, rfl⟩
      · next width hcode =>
        split at h
        · next hle =>
          obtain ⟨data, hlength, rfl, hrest⟩ := takePush_some_iff.mp h
          have hwidth := List.length_take_of_le hle
          have hstated := Bytes.ofNatLE_toNatLE (rest.take width)
          rw [hwidth, ← hlength] at hstated
          have hlt := Bytes.toNatLE_lt (rest.take width)
          rw [hwidth, ← hlength] at hlt
          refine ⟨_, .counted hcode hlt, ?_⟩
          rw [hstated, List.cons_append, List.append_assoc, ← hrest, List.take_append_drop]
        · cases h
  · rintro ⟨spelled, hspells, heq⟩
    cases hspells with
    | @direct data hlength =>
      obtain ⟨rfl, rfl⟩ := List.cons.inj heq
      have hvalue : (UInt8.ofNat data.length).toNat = data.length :=
        UInt8.toNat_ofNat_of_lt' (Nat.lt_of_le_of_lt hlength (by decide))
      rw [if_pos (UInt8.le_iff_toNat_le.mpr (hvalue.symm ▸ hlength)), hvalue]
      exact takePush_some_iff.mpr ⟨data, rfl, rfl, rfl⟩
    | @counted _ width data hcode hlength =>
      obtain ⟨rfl, rfl⟩ := List.cons.inj heq
      have hhigh : ¬ code ≤ 0x4b := by
        rcases pushLengthWidth?_some_iff.mp hcode with ⟨rfl, -⟩ | ⟨rfl, -⟩ | ⟨rfl, -⟩ <;> decide
      have hwidth := Bytes.length_ofNatLE width data.length
      rw [if_neg hhigh, hcode]
      change (if width ≤ (Bytes.ofNatLE width data.length ++ data ++ rest').length then
        takePush (Bytes.toNatLE ((Bytes.ofNatLE width data.length ++ data ++ rest').take width))
          ((Bytes.ofNatLE width data.length ++ data ++ rest').drop width) else none) = _
      rw [List.append_assoc]
      rw [if_pos (by rw [List.length_append]; omega), List.take_left' hwidth,
        List.drop_left' hwidth, Bytes.toNatLE_ofNatLE, Nat.mod_eq_of_lt hlength]
      exact takePush_some_iff.mpr ⟨data, rfl, rfl, rfl⟩
    | op hhigh hcode =>
      obtain ⟨rfl, rfl⟩ := List.cons.inj heq
      rw [if_neg (UInt8.not_le.mpr hhigh), hcode]

theorem Spells.ne_nil {spelled : Bytes} {i : Instruction} (h : Spells spelled i) :
    spelled ≠ [] := by
  cases h <;> exact List.cons_ne_nil _ _

/-- A script is read within the limit as the instructions that its pieces spell. -/
theorem parse_some_iff {fuel : Nat} {script : Bytes} {found : List Instruction} :
    parse fuel script = some found ↔
      found.length ≤ fuel ∧
        ∃ pieces, List.Forall₂ Spells pieces found ∧ script = pieces.flatten := by
  induction fuel generalizing script found with
  | zero =>
    constructor
    · intro h
      cases script with
      | nil =>
        cases h
        exact ⟨Nat.le_refl _, [], .nil, rfl⟩
      | cons code rest => cases h
    · rintro ⟨hlength, pieces, hpieces, rfl⟩
      obtain rfl := List.length_eq_zero_iff.mp (Nat.le_zero.mp hlength)
      cases hpieces
      rfl
  | succ fuel ih =>
    constructor
    · intro h
      cases script with
      | nil =>
        cases h
        exact ⟨Nat.zero_le _, [], .nil, rfl⟩
      | cons code rest =>
        rw [parse] at h
        obtain ⟨⟨first, rest'⟩, hfirst, h⟩ := Option.bind_eq_some_iff.mp h
        obtain ⟨others, hothers, h⟩ := Option.bind_eq_some_iff.mp h
        cases h
        obtain ⟨spelled, hspells, heq⟩ := takeInstruction_some_iff.mp hfirst
        obtain ⟨hlength, pieces, hpieces, rfl⟩ := ih.mp hothers
        exact ⟨Nat.succ_le_succ hlength, spelled :: pieces, .cons hspells hpieces, heq⟩
    · rintro ⟨hlength, pieces, hpieces, rfl⟩
      cases hpieces with
      | nil => rfl
      | @cons spelled first pieces others hspells hpieces =>
        obtain ⟨code, rest, rfl⟩ := List.exists_cons_of_ne_nil hspells.ne_nil
        have hfirst : takeInstruction code (rest ++ pieces.flatten) = some (first, _) :=
          takeInstruction_some_iff.mpr ⟨_, hspells, rfl⟩
        have hothers := ih.mpr ⟨Nat.le_of_succ_le_succ hlength, pieces, hpieces, rfl⟩
        rw [List.flatten_cons, List.cons_append, parse, hfirst]
        simp [hothers]

/-- A script is read as the instructions that its pieces spell. -/
theorem instructions?_some_iff {script : Bytes} {found : List Instruction} :
    instructions? script = some found ↔
      ∃ pieces, List.Forall₂ Spells pieces found ∧ script = pieces.flatten := by
  rw [instructions?, parse_some_iff, and_iff_right_of_imp]
  rintro ⟨pieces, hpieces, rfl⟩
  rw [← hpieces.length_eq]
  induction hpieces with
  | nil => exact Nat.zero_le _
  | cons hspells _ ih =>
    have hpositive := List.length_pos_iff.mpr hspells.ne_nil
    rw [List.flatten_cons, List.length_append, List.length_cons]
    omega

/-! ## Numbers -/

/-- The opcode that puts a number from 1 to 16 on the stack. -/
def numberCode (n : Nat) : UInt8 := UInt8.ofNat (0x50 + n)

theorem smallNumber?_some_iff {code : UInt8} {n : Nat} :
    smallNumber? code = some n ↔ 1 ≤ n ∧ n ≤ 16 ∧ code = numberCode n := by
  unfold smallNumber? numberCode
  simp only [UInt8.le_iff_toNat_le]
  constructor
  · intro h
    split at h
    · next hrange =>
      obtain ⟨hlow, hhigh⟩ := hrange
      have hlow : 0x51 ≤ code.toNat := hlow
      have hhigh : code.toNat ≤ 0x60 := hhigh
      cases h
      refine ⟨by omega, by omega, ?_⟩
      rw [Nat.add_sub_cancel' (by omega), UInt8.ofNat_toNat]
    · cases h
  · rintro ⟨hone, hsixteen, rfl⟩
    have hvalue : (UInt8.ofNat (0x50 + n)).toNat = 0x50 + n :=
      UInt8.toNat_ofNat_of_lt' (show 0x50 + n < 256 by omega)
    rw [hvalue, Nat.add_sub_cancel_left]
    exact if_pos ⟨show 0x51 ≤ 0x50 + n by omega, show 0x50 + n ≤ 0x60 by omega⟩

/-- The opcode of a number stands for itself. -/
theorem spells_numberCode {n : Nat} (hone : 1 ≤ n) (hsixteen : n ≤ 16) :
    Spells [numberCode n] (.op (numberCode n)) := by
  have hvalue : (numberCode n).toNat = 0x50 + n :=
    UInt8.toNat_ofNat_of_lt' (show 0x50 + n < 256 by omega)
  refine .op (UInt8.lt_iff_toNat_lt.mpr (by rw [hvalue]; exact show 0x4b < 0x50 + n by omega)) ?_
  have hother (code : UInt8) (hlow : code.toNat ≤ 0x50) : numberCode n ≠ code := by
    rintro rfl
    omega
  rw [pushLengthWidth?, if_neg (hother 0x4c (by decide)), if_neg (hother 0x4d (by decide)),
    if_neg (hother 0x4e (by decide))]

/-! ## Lengths of pushes -/

theorem spells_op_iff {spelled : Bytes} {code : UInt8} :
    Spells spelled (.op code) ↔ spelled = [code] ∧ Spells [code] (.op code) := by
  constructor
  · rintro (_ | _ | ⟨hhigh, hcode⟩)
    exact ⟨rfl, .op hhigh hcode⟩
  · rintro ⟨rfl, h⟩
    exact h

/-- Five bytes at most stand before the data of a push. -/
theorem Spells.length_le {spelled data : Bytes} (h : Spells spelled (.push data)) :
    spelled.length ≤ data.length + 5 := by
  cases h with
  | direct hlength =>
    rw [List.length_cons]
    omega
  | @counted code width _ hcode hlength =>
    rw [List.length_cons, List.length_append, Bytes.length_ofNatLE]
    rcases pushLengthWidth?_some_iff.mp hcode with ⟨-, rfl⟩ | ⟨-, rfl⟩ | ⟨-, rfl⟩ <;> omega

/-- Writing a push spells it. -/
theorem spells_push {data : Bytes} (hlength : data.length < 256 ^ 4) :
    Spells (push data) (.push data) := by
  rw [push]
  split
  · exact .direct (by omega)
  split
  · exact .counted (pushLengthWidth?_some_iff.mpr (.inl ⟨rfl, rfl⟩)) (by omega)
  split
  · exact .counted (pushLengthWidth?_some_iff.mpr (.inr (.inl ⟨rfl, rfl⟩))) (by omega)
  · exact .counted (pushLengthWidth?_some_iff.mpr (.inr (.inr ⟨rfl, rfl⟩))) hlength

/-- Writing a push is the one shortest way to spell it. -/
theorem Spells.push_shortest {spelled data : Bytes} (h : Spells spelled (.push data)) :
    (push data).length ≤ spelled.length ∧
      (spelled.length = (push data).length ↔ spelled = push data) := by
  cases h with
  | direct hlength =>
    rw [push, if_pos (by omega)]
    exact ⟨Nat.le_refl _, fun _ => rfl, fun _ => rfl⟩
  | @counted code width _ hcode hlength =>
    -- A wider count is longer, and one of the same width has the same opcode.
    rw [push]
    rcases pushLengthWidth?_some_iff.mp hcode with ⟨rfl, rfl⟩ | ⟨rfl, rfl⟩ | ⟨rfl, rfl⟩ <;>
      (split_ifs <;> grind [Bytes.length_ofNatLE])

end BridgeKernel.Script
