import BridgeKernel.Proofs.Wire.Canonical
import BridgeKernel.Wire.VarBytes

/-!
# Lengths of variable width read back

A reading takes certain bytes when it leaves exactly what follows them, wherever they stand.
Readings one after another take their bytes one after another, so what was written is read back part
by part.

A number is read from any of its spellings, one byte or a mark and the width that it announces, and
is written in one of them.
-/

namespace BridgeKernel

/-- A reading takes exactly these bytes, whatever follows them, and comes to a value. -/
def Takes {ε α : Type} (reading : Reading ε α) (bytes : Bytes) (a : α) : Prop :=
  ∀ offset rest,
    reading ⟨offset, bytes ++ rest⟩ = (.ok a, ⟨offset + bytes.length, rest⟩)

namespace Reading

variable {ε α β : Type}

theorem bind_run (x : Reading ε α) (f : α → Reading ε β) (c : Cursor) :
    (x >>= f) c = match x c with
      | (.ok a, c') => f a c'
      | (.error e, c') => (.error e, c') := by
  change (match x c with
    | (a, c') => (ExceptT.bindCont f a : StateM Cursor (Except ε β)) c') = _
  rcases x c with ⟨_ | _, c'⟩ <;> rfl

end Reading

namespace Takes

variable {ε α β : Type} {front back : Bytes} {a : α} {b : β}

protected theorem pure (a : α) : Takes (pure a : Reading ε α) [] a := by
  intro offset rest
  rfl

/-- Readings one after another take their bytes one after another. -/
protected theorem bind {x : Reading ε α} {f : α → Reading ε β} (hx : Takes x front a)
    (hf : Takes (f a) back b) : Takes (x >>= f) (front ++ back) b := by
  intro offset rest
  rw [List.append_assoc, Reading.bind_run, hx]
  simp [hf (offset + front.length) rest, Nat.add_assoc]

/-- A reading whose value is only rephrased takes what it took. -/
protected theorem map {x : Reading ε α} (hx : Takes x front a) (f : α → β) :
    Takes (do return f (← x)) front (f a) := by
  intro offset rest
  rw [Reading.bind_run, hx]
  rfl

end Takes

namespace Cursor

theorem takes_take (bytes : Bytes) : Takes (take bytes.length) bytes bytes := by
  intro offset rest
  simp [take]

theorem takes_byte (b : UInt8) : Takes takeByte [b] b := by
  intro offset rest
  have htake := takes_take [b] offset rest
  rw [takeByte, Reading.bind_run]
  simp only [List.length_singleton] at htake
  rw [htake]
  rfl

/-- A reading that begins with a byte takes the byte first. -/
theorem takes_byte_bind {α : Type} {f : UInt8 → Reading ShortRead α} {b : UInt8} {back : Bytes}
    {a : α} (h : Takes (f b) back a) : Takes (takeByte >>= f) (b :: back) a :=
  (takes_byte b).bind h

end Cursor

/-! ## Spellings of a number -/

namespace VarBytes

/-- How many bytes a mark announces. -/
inductive Announces : UInt8 → Nat → Prop
  /-- A number of two bytes. -/
  | two : Announces 0xfd 2
  /-- A number of four bytes. -/
  | four : Announces 0xfe 4
  /-- A number of eight bytes. -/
  | eight : Announces 0xff 8

/-- The spellings of a number, short or not. -/
inductive SpellsInt : Bytes → UInt64 → Prop
  /-- A byte below the marks stands for itself. -/
  | byte {b : UInt8} (hlow : b < 0xfd) : SpellsInt [b] b.toUInt64
  /-- A mark, and as many little-endian bytes as it announces. -/
  | marked {mark : UInt8} {low : Bytes} (hmark : Announces mark low.length) :
    SpellsInt (mark :: low) (UInt64.ofNat (Bytes.toNatLE low))

theorem Announces.width_le {mark : UInt8} {width : Nat} (h : Announces mark width) : width ≤ 8 := by
  cases h <;> decide

/-- A number that its width can hold is spelled in that width. -/
theorem Announces.spells {mark : UInt8} {width : Nat} {n : UInt64} (h : Announces mark width)
    (hn : n.toNat < 256 ^ width) : SpellsInt (mark :: Bytes.ofNatLE width n.toNat) n := by
  have hlow : UInt64.ofNat (Bytes.toNatLE (Bytes.ofNatLE width n.toNat)) = n := by
    rw [Bytes.toNatLE_ofNatLE, Nat.mod_eq_of_lt hn, UInt64.ofNat_toNat]
  rw [← Bytes.length_ofNatLE width n.toNat] at h
  simpa only [hlow] using SpellsInt.marked h

/-- A number is written in one of its spellings. -/
theorem spells_writeInt (n : UInt64) : SpellsInt (writeInt n) n := by
  simp only [writeInt, UInt64.lt_iff_toNat_lt, UInt64.le_iff_toNat_le]
  split
  · next hsmall =>
    have hlow : n.toNat < 0xfd := hsmall
    have hbyte : (UInt8.ofNat n.toNat).toNat = n.toNat := by
      rw [UInt8.toNat_ofNat']
      omega
    have hvalue : (UInt8.ofNat n.toNat).toUInt64 = n := by
      apply UInt64.toNat_inj.mp
      rw [UInt8.toNat_toUInt64, hbyte]
    have hspells : SpellsInt [UInt8.ofNat n.toNat] (UInt8.ofNat n.toNat).toUInt64 := by
      refine .byte (UInt8.lt_iff_toNat_lt.mpr ?_)
      rw [hbyte]
      exact hlow
    rwa [hvalue] at hspells
  split
  · next hmedium => exact Announces.two.spells (Nat.lt_succ_of_le hmedium)
  split
  · next hlarge => exact Announces.four.spells (Nat.lt_succ_of_le hlarge)
  · exact Announces.eight.spells n.toNat_lt

end VarBytes

namespace Cursor

open VarBytes

/-- The bytes that a mark announces are read as their number. -/
theorem takes_number {width : Nat} {low : Bytes} (h : low.length = width) :
    Takes (do return UInt64.ofNat (Bytes.toNatLE (← take width))) low
      (UInt64.ofNat (Bytes.toNatLE low)) := by
  subst h
  exact (takes_take low).map fun bytes => UInt64.ofNat (Bytes.toNatLE bytes)

/-- A number is read from each of its spellings. -/
theorem takes_spelling {bytes : Bytes} {n : UInt64} (h : SpellsInt bytes n) :
    Takes takeVarInt bytes n := by
  cases h with
  | @byte b hlow =>
    have hne {mark : UInt8} (hmark : ¬ mark < 0xfd) : b ≠ mark := by
      rintro rfl
      exact hmark hlow
    apply takes_byte_bind
    rw [if_neg (hne (by decide)), if_neg (hne (by decide)), if_neg (hne (by decide))]
    exact .pure _
  | @marked mark low hmark =>
    generalize hwidth : low.length = width at hmark
    apply takes_byte_bind
    cases hmark with
    | two =>
      match low, hwidth with
      | [first, second], _ =>
        rw [if_pos rfl]
        apply takes_byte_bind
        apply takes_byte_bind
        exact .pure _
    | four =>
      rw [if_neg (by decide), if_pos rfl]
      exact takes_number hwidth
    | eight =>
      rw [if_neg (by decide), if_neg (by decide), if_pos rfl]
      exact takes_number hwidth

/-- A number of variable width is read back. -/
theorem takes_varInt (n : UInt64) : Takes takeVarInt (writeInt n) n :=
  takes_spelling (spells_writeInt n)

/-- A byte string is read behind each spelling of its length. -/
theorem takes_spelledBytes {stated bytes : Bytes} (hfits : bytes.length < UInt64.size)
    (h : SpellsInt stated (UInt64.ofNat bytes.length)) :
    Takes takeVarBytes (stated ++ bytes) bytes := by
  refine (takes_spelling h).bind ?_
  rw [UInt64.toNat_ofNat_of_lt' hfits]
  exact takes_take bytes

/-- A byte string behind its length is read back. -/
theorem takes_varBytes {bytes : Bytes} (h : bytes.length < UInt64.size) :
    Takes takeVarBytes (VarBytes.write bytes) bytes :=
  takes_spelledBytes h (spells_writeInt _)

end Cursor

/-- A byte string is no longer than it is behind its length. -/
theorem VarBytes.length_le_write (bytes : Bytes) : bytes.length ≤ (write bytes).length := by
  simp [write]

end BridgeKernel
