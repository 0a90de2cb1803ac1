import BridgeKernel.Proofs.Wire.VarBytes

/-!
# What was read was spelled

A reading that came to a value passed over some bytes, and these are a spelling of the value. No
spelling of a number begins with another spelling, so the bytes of a number are found in one way
only. The spelling in which a number is written is the only one that is as short as any.

Numbers and byte strings written one after another are read back one after another.
-/

namespace BridgeKernel

/-! ## Bytes passed over -/

/-- A cursor went forward over these bytes. -/
structure Cursor.Passed (c c' : Cursor) (bytes : Bytes) : Prop where
  /-- They stood in front of what is left. -/
  rest : c.rest = bytes ++ c'.rest
  /-- They have been counted. -/
  offset : c'.offset = c.offset + bytes.length

namespace Cursor.Passed

variable {c c' c'' : Cursor} {front back : Bytes}

protected theorem refl (c : Cursor) : Passed c c [] := ⟨rfl, rfl⟩

protected theorem trans (hfront : Passed c c' front) (hback : Passed c' c'' back) :
    Passed c c'' (front ++ back) where
  rest := by rw [hfront.rest, hback.rest, List.append_assoc]
  offset := by rw [hback.offset, hfront.offset, List.length_append, Nat.add_assoc]

/-- Bytes passed over from the start to the end are all bytes. -/
theorem of_done {bytes : Bytes} (h : Passed (start bytes) c front) (hdone : c.isDone = true) :
    front = bytes ∧ c = ⟨bytes.length, []⟩ := by
  have hempty : c.rest = [] := List.isEmpty_iff.mp hdone
  have hall : front = bytes := by
    have hrest := h.rest
    rw [hempty, List.append_nil] at hrest
    exact hrest.symm
  have hoffset : c.offset = bytes.length := by
    rw [h.offset, hall]
    exact Nat.zero_add _
  exact ⟨hall, by rw [← hempty, ← hoffset]⟩

end Cursor.Passed

namespace Reading

variable {ε α β : Type} {c c' : Cursor}

/-- A reading of several values that came to a result read its first part. -/
theorem bind_ok {x : Reading ε α} {f : α → Reading ε β} {b : β}
    (h : (x >>= f) c = (.ok b, c')) :
    ∃ a middle, x c = (.ok a, middle) ∧ f a middle = (.ok b, c') := by
  rw [bind_run] at h
  split at h
  · next a middle hx => exact ⟨a, middle, hx, h⟩
  · cases h

theorem pure_ok {a b : α} (h : (pure a : Reading ε α) c = (.ok b, c')) : a = b ∧ c = c' := by
  cases h
  exact ⟨rfl, rfl⟩

end Reading

namespace Cursor

open VarBytes

variable {c c' : Cursor}

theorem take_ok {count : Nat} {bytes : Bytes} (h : take count c = (.ok bytes, c')) :
    bytes.length = count ∧ Passed c c' bytes := by
  unfold take at h
  split at h
  · next hle =>
    cases h
    have hlength : (c.rest.take count).length = count := List.length_take_of_le hle
    refine ⟨hlength, (List.take_append_drop count c.rest).symm, ?_⟩
    rw [hlength]
  · cases h

theorem takeByte_ok {b : UInt8} (h : takeByte c = (.ok b, c')) : Passed c c' [b] := by
  obtain ⟨bytes, middle, htake, hpure⟩ := Reading.bind_ok h
  obtain ⟨rfl, rfl⟩ := Reading.pure_ok hpure
  obtain ⟨hlength, hpassed⟩ := take_ok htake
  obtain ⟨first, rfl⟩ := List.length_eq_one_iff.mp hlength
  exact hpassed

/-- The bytes that a mark announces were read with it as a spelling. -/
theorem number_ok {mark : UInt8} {width : Nat} {n : UInt64} (hmark : Announces mark width)
    (h : (do return UInt64.ofNat (Bytes.toNatLE (← take width)) : Reading ShortRead UInt64) c
      = (.ok n, c')) :
    ∃ low, SpellsInt (mark :: low) n ∧ Passed c c' low := by
  obtain ⟨low, middle, htake, hpure⟩ := Reading.bind_ok h
  obtain ⟨rfl, rfl⟩ := Reading.pure_ok hpure
  obtain ⟨rfl, hpassed⟩ := take_ok htake
  exact ⟨low, .marked hmark, hpassed⟩

/-- A number was read from a spelling. -/
theorem takeVarInt_ok {n : UInt64} (h : takeVarInt c = (.ok n, c')) :
    ∃ stated, SpellsInt stated n ∧ Passed c c' stated := by
  obtain ⟨mark, c₁, hbyte, h⟩ := Reading.bind_ok h
  have hpassed := takeByte_ok hbyte
  split at h
  · next hmark =>
    subst hmark
    obtain ⟨first, c₂, hfirst, h⟩ := Reading.bind_ok h
    obtain ⟨second, c₃, hsecond, hpure⟩ := Reading.bind_ok h
    obtain ⟨rfl, rfl⟩ := Reading.pure_ok hpure
    have hlow := (takeByte_ok hfirst).trans (takeByte_ok hsecond)
    exact ⟨_, .marked .two, hpassed.trans hlow⟩
  split at h
  · next hmark =>
    subst hmark
    obtain ⟨low, hspells, hlow⟩ := number_ok .four h
    exact ⟨_, hspells, hpassed.trans hlow⟩
  split at h
  · next hmark =>
    subst hmark
    obtain ⟨low, hspells, hlow⟩ := number_ok .eight h
    exact ⟨_, hspells, hpassed.trans hlow⟩
  · next htwo hfour height =>
    obtain ⟨rfl, rfl⟩ := Reading.pure_ok h
    have hlow : mark < 0xfd := by grind
    exact ⟨_, .byte hlow, hpassed⟩

/-- A byte string was read behind a spelling of its length. -/
theorem takeVarBytes_ok {bytes : Bytes} (h : takeVarBytes c = (.ok bytes, c')) :
    bytes.length < UInt64.size ∧
      ∃ stated, SpellsInt stated (UInt64.ofNat bytes.length) ∧ Passed c c' (stated ++ bytes) := by
  obtain ⟨n, middle, hint, htake⟩ := Reading.bind_ok h
  obtain ⟨stated, hspells, hstated⟩ := takeVarInt_ok hint
  obtain ⟨hlength, hbytes⟩ := take_ok htake
  rw [hlength, UInt64.ofNat_toNat]
  exact ⟨n.toNat_lt, stated, hspells, hstated.trans hbytes⟩

end Cursor

/-! ## The shortest spelling -/

namespace VarBytes

variable {bytes bytes' : Bytes} {n n' : UInt64}

/-- No spelling begins with another one. -/
theorem SpellsInt.unique (h : SpellsInt bytes n) (h' : SpellsInt bytes' n') {rest rest' : Bytes}
    (heq : bytes ++ rest = bytes' ++ rest') : bytes = bytes' ∧ n = n' := by
  have htake := Cursor.takes_spelling h 0 rest
  rw [heq, Cursor.takes_spelling h' 0 rest'] at htake
  obtain ⟨hvalue, hcursor⟩ := Prod.mk.inj htake
  have hlength : bytes'.length = bytes.length := by
    simpa only [Nat.zero_add] using (Cursor.mk.inj hcursor).1
  exact ⟨(List.append_inj heq hlength.symm).1, (Except.ok.inj hvalue).symm⟩

/-- The spellings of a number by their width. -/
theorem SpellsInt.by_width (h : SpellsInt bytes n) :
    n.toNat < 0xfd ∧ bytes = Bytes.ofNatLE 1 n.toNat ∨
      ∃ mark width, Announces mark width ∧ n.toNat < 256 ^ width ∧
        bytes = mark :: Bytes.ofNatLE width n.toNat := by
  cases h with
  | @byte b hlow =>
    refine .inl ⟨by simpa [UInt8.lt_iff_toNat_lt] using hlow, ?_⟩
    simpa [Bytes.toNatLE] using (Bytes.ofNatLE_toNatLE [b]).symm
  | @marked mark low hmark =>
    have hlow : Bytes.toNatLE low < 256 ^ low.length := Bytes.toNatLE_lt low
    have hvalue : (UInt64.ofNat (Bytes.toNatLE low)).toNat = Bytes.toNatLE low :=
      UInt64.toNat_ofNat_of_lt'
        (Nat.lt_of_lt_of_le hlow (Nat.pow_le_pow_right (by decide) hmark.width_le))
    refine .inr ⟨mark, low.length, hmark, ?_, ?_⟩
    · rwa [hvalue]
    · rw [hvalue, Bytes.ofNatLE_toNatLE]

/-- Two spellings of one number differ in length. -/
theorem SpellsInt.eq_of_length (h : SpellsInt bytes n) (h' : SpellsInt bytes' n)
    (hlength : bytes.length = bytes'.length) : bytes = bytes' := by
  obtain ⟨-, rfl⟩ | ⟨mark, width, hmark, -, rfl⟩ := h.by_width <;>
    obtain ⟨-, rfl⟩ | ⟨mark', width', hmark', -, rfl⟩ := h'.by_width
  · rfl
  · cases hmark' <;> simp at hlength
  · cases hmark <;> simp at hlength
  · simp only [List.length_cons, Bytes.length_ofNatLE, Nat.add_right_cancel_iff] at hlength
    subst hlength
    cases hmark <;> cases hmark' <;> rfl

theorem length_writeInt (n : UInt64) :
    (writeInt n).length =
      if n < 0xfd then 1 else if n ≤ 0xffff then 3 else if n ≤ 0xffffffff then 5 else 9 := by
  simp only [writeInt, apply_ite List.length, List.length_cons, Bytes.length_ofNatLE]

/-- A number is written in no more bytes than a width needs that can hold it. -/
theorem Announces.length_writeInt_le {mark : UInt8} {width : Nat} (h : Announces mark width)
    (hn : n.toNat < 256 ^ width) : (writeInt n).length ≤ width + 1 := by
  rw [length_writeInt]
  simp only [UInt64.lt_iff_toNat_lt, UInt64.le_iff_toNat_le, UInt64.toNat_ofNat]
  cases h <;> grind

/-- No spelling of a number is shorter than the written one. -/
theorem SpellsInt.length_writeInt_le (h : SpellsInt bytes n) :
    (writeInt n).length ≤ bytes.length := by
  obtain ⟨hsmall, rfl⟩ | ⟨mark, width, hmark, hn, rfl⟩ := h.by_width
  · apply Nat.le_of_eq
    rw [length_writeInt, if_pos (UInt64.lt_iff_toNat_lt.mpr hsmall), Bytes.length_ofNatLE]
  · rw [List.length_cons, Bytes.length_ofNatLE]
    exact hmark.length_writeInt_le hn

/-- A spelling of a number, and no spelling of it is shorter. -/
structure ShortestInt (bytes : Bytes) (n : UInt64) : Prop where
  /-- It spells the number. -/
  spells : SpellsInt bytes n
  /-- It is as short as each spelling. -/
  length_le : ∀ other, SpellsInt other n → bytes.length ≤ other.length

/-- The shortest spelling is the written one. -/
theorem shortestInt_iff : ShortestInt bytes n ↔ bytes = writeInt n := by
  constructor
  · intro h
    exact h.spells.eq_of_length (spells_writeInt n)
      (Nat.le_antisymm (h.length_le _ (spells_writeInt n)) h.spells.length_writeInt_le)
  · rintro rfl
    exact ⟨spells_writeInt n, fun _ => SpellsInt.length_writeInt_le⟩

end VarBytes

/-! ## Values one after another -/

/-- A value of variable width. -/
inductive VarItem where
  /-- A number. -/
  | number (n : UInt64)
  /-- A byte string behind its length. -/
  | bytes (content : Bytes)
deriving DecidableEq

namespace VarItem

/-- What a reader has to know of a value before it reads it. -/
inductive Shape where
  /-- A number comes. -/
  | number
  /-- A byte string behind its length comes. -/
  | bytes
deriving DecidableEq

/-- The shape of a value. -/
def shape : VarItem → Shape
  | .number _ => .number
  | .bytes _ => .bytes

/-- The bytes of a value. -/
def write : VarItem → Bytes
  | .number n => VarBytes.writeInt n
  | .bytes content => VarBytes.write content

/-- Reads a value. -/
def Shape.take : Shape → Reading ShortRead VarItem
  | .number => do return .number (← Cursor.takeVarInt)
  | .bytes => do return .bytes (← Cursor.takeVarBytes)

/-- Reads values one after another. -/
def takeAll : List Shape → Reading ShortRead (List VarItem)
  | [] => pure []
  | shape :: shapes => do
    let first ← shape.take
    let rest ← takeAll shapes
    return first :: rest

/-- A byte string has a length that can be stated. -/
def Fits : VarItem → Prop
  | .number _ => True
  | .bytes content => content.length < UInt64.size

theorem takes_item {item : VarItem} (h : item.Fits) : Takes item.shape.take item.write item := by
  cases item with
  | number n => exact (Cursor.takes_varInt n).map VarItem.number
  | bytes content => exact (Cursor.takes_varBytes h).map VarItem.bytes

/-- Values written one after another are read back. -/
theorem takes_all {items : List VarItem} (h : ∀ item ∈ items, item.Fits) :
    Takes (takeAll (items.map shape)) (items.flatMap write) items := by
  induction items with
  | nil => exact .pure []
  | cons item items ih =>
    obtain ⟨hitem, hitems⟩ := List.forall_mem_cons.mp h
    exact (takes_item hitem).bind ((ih hitems).map fun rest => item :: rest)

end VarItem

end BridgeKernel
