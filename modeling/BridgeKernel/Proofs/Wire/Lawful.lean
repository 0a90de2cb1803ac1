import BridgeKernel.Wire.Record
import Mathlib.Algebra.GroupWithZero.Nat

/-!
# Stored records read back

A stored record is read back exactly, whatever bytes follow it, provided that every length in it can
be stated. A written form therefore belongs to one value only. Each type of the format carries its
law as an instance, so that the law of a structure is assembled from those of its fields.
-/

namespace BridgeKernel

namespace Bytes

/-- Reading back the low bytes of a number keeps the number below their range. -/
theorem toNatLE_ofNatLE (width n : Nat) : toNatLE (ofNatLE width n) = n % 256 ^ width := by
  induction width generalizing n with
  | zero => simp [ofNatLE, toNatLE, Nat.mod_one]
  | succ width ih =>
    simp only [ofNatLE, toNatLE, ih, UInt8.toNat_ofNat', Nat.reducePow]
    rw [Nat.pow_succ', Nat.mod_mul]

theorem toNatBE_ofNatBE (width n : Nat) : toNatBE (ofNatBE width n) = n % 256 ^ width := by
  simp [toNatBE, ofNatBE, toNatLE_ofNatLE]

theorem toNatLE_append (front back : Bytes) :
    toNatLE (front ++ back) = toNatLE front + 256 ^ front.length * toNatLE back := by
  induction front with
  | nil => simp [toNatLE]
  | cons b front ih =>
    rw [List.cons_append, toNatLE, toNatLE, ih, List.length_cons, Nat.pow_succ']
    rw [Nat.mul_add, Nat.mul_assoc, Nat.add_assoc]

/-- The first byte of a big-endian number counts most. -/
theorem toNatBE_cons (b : UInt8) (rest : Bytes) :
    toNatBE (b :: rest) = toNatBE rest + 256 ^ rest.length * b.toNat := by
  rw [toNatBE, List.reverse_cons, toNatLE_append, List.length_reverse]
  simp [toNatBE, toNatLE]

end Bytes

namespace OrderedMap

variable {κ ν : Type} [Ord κ]

/-- A list of entries puts its last one into the map of the others. -/
theorem ofList_snoc [Std.TransOrd κ] (entries : List (κ × ν)) (e : κ × ν) :
    ofList (entries ++ [e]) = (ofList entries).insert e.1 e.2 := List.foldl_append

/-- An entry whose key lies above all others is put last. -/
theorem insertEntry_last [Std.TransOrd κ] {k : κ} {v : ν} {entries : List (κ × ν)}
    (h : ∀ e ∈ entries, compare e.1 k = .lt) : insertEntry k v entries = entries ++ [(k, v)] := by
  induction entries with
  | nil => rfl
  | cons head rest ih =>
    have hhead : compare k head.1 = .gt := Std.OrientedCmp.gt_of_lt (h head List.mem_cons_self)
    have hrest := ih fun e he => h e (List.mem_cons_of_mem head he)
    rw [insertEntry, hhead, hrest, List.cons_append]

/-- Entries in order are put one behind the other. -/
theorem foldl_insert_entries [Std.TransOrd κ] {later : List (κ × ν)} {m : OrderedMap κ ν}
    (h : (m.entries ++ later).Pairwise fun a b => compare a.1 b.1 = .lt) :
    (later.foldl (fun m e => m.insert e.1 e.2) m).entries = m.entries ++ later := by
  induction later generalizing m with
  | nil => exact (List.append_nil _).symm
  | cons e later ih =>
    have hbelow : ∀ a ∈ m.entries, compare a.1 e.1 = .lt :=
      fun a ha => (List.pairwise_append.mp h).2.2 a ha e List.mem_cons_self
    have hentries : (m.insert e.1 e.2).entries = m.entries ++ [e] := insertEntry_last hbelow
    rw [List.foldl_cons, ih (by rwa [hentries, List.append_assoc]), hentries, List.append_assoc]
    rfl

/-- The entries of a map make the map. -/
theorem ofList_entries [Std.TransOrd κ] (m : OrderedMap κ ν) : ofList m.entries = m := by
  have hentries : (ofList m.entries).entries = m.entries := foldl_insert_entries m.sorted
  rcases hm : ofList m.entries with ⟨entries, sorted⟩
  rw [hm] at hentries
  cases hentries
  rfl

end OrderedMap

namespace Wire

variable {ε γ δ : Type}

/-- A reader of several values runs its first part and then the others on what is left. -/
theorem bind_read (take : StateT Bytes (Except ε) γ) (next : γ → StateT Bytes (Except ε) δ)
    (bytes : Bytes) :
    (take >>= next) bytes =
      match take bytes with
      | .ok (a, rest) => next a rest
      | .error e => .error e := by
  change Except.bind (take bytes) _ = _
  cases take bytes with
  | error e => rfl
  | ok result => rfl

/-- Once its first part has read a value, a reader goes on with the rest. -/
theorem bind_of_ok {take : StateT Bytes (Except ε) γ} {next : γ → StateT Bytes (Except ε) δ}
    {bytes rest : Bytes} {a : γ} (h : take bytes = .ok (a, rest)) :
    (take >>= next) bytes = next a rest := by
  rw [bind_read, h]

end Wire

/-- A type whose stored form is read back exactly. -/
class LawfulRecord (α : Type) [Record α] : Prop where
  /-- Reading takes the value from the front and leaves what follows it. -/
  read_write : ∀ (a : α) (rest : Bytes), Record.fits a = true →
    Record.read (Record.write a ++ rest) = .ok (a, rest)

namespace Record

open Wire

variable {α β : Type} [Record α] [Record β]

/-- Bytes of the wanted number are taken whole. -/
theorem takeBytes_append (error : Error) (front rest : Bytes) :
    takeBytes error front.length (front ++ rest) = .ok (front, rest) := by
  simp [takeBytes]

/-- A number in its full width is read back below the range of the width. -/
theorem takeNat_ofNatLE {width n : Nat} (hn : n < 256 ^ width) (rest : Bytes) :
    takeNat width (Bytes.ofNatLE width n ++ rest) = .ok (n, rest) := by
  have ht := takeBytes_append .endOfBytes (Bytes.ofNatLE width n) rest
  rw [Bytes.length_ofNatLE] at ht
  rw [takeNat, bind_of_ok ht]
  change Except.ok (Bytes.toNatLE (Bytes.ofNatLE width n), rest) = _
  rw [Bytes.toNatLE_ofNatLE, Nat.mod_eq_of_lt hn]

/-- A value that is spelled as a number in its full width is read back. -/
theorem takeNat_pure {γ : Type} {width n : Nat} (hn : n < 256 ^ width) (make : Nat → γ)
    (rest : Bytes) :
    (takeNat width >>= fun k => pure (make k)) (Bytes.ofNatLE width n ++ rest) =
      .ok (make n, rest) := by
  rw [bind_of_ok (takeNat_ofNatLE hn rest)]
  rfl

/-- A length that can be stated is read back. -/
theorem takeNat_lengthBytes {n : Nat} (hn : n < lengthLimit) (rest : Bytes) :
    takeNat 8 (lengthBytes n ++ rest) = .ok (n, rest) := takeNat_ofNatLE hn rest

/-- Values written one after another are read back one after another. -/
theorem takeMany_flatMap_write [LawfulRecord α] {xs : List α} (hx : ∀ x ∈ xs, fits x = true)
    (rest : Bytes) :
    takeMany (read (α := α)) xs.length (xs.flatMap write ++ rest) = .ok (xs, rest) := by
  induction xs with
  | nil => rfl
  | cons x xs ih =>
    have hhead := LawfulRecord.read_write x (xs.flatMap write ++ rest)
      (hx x List.mem_cons_self)
    have htail := ih fun y hy => hx y (List.mem_cons_of_mem _ hy)
    rw [List.flatMap_cons, List.append_assoc, List.length_cons, takeMany, bind_of_ok hhead,
      bind_of_ok htail]
    rfl

/-- A reader of several values takes the first of them from the front. -/
theorem bind_read_write [LawfulRecord α] {γ : Type} {a : α} (h : fits a = true)
    (next : α → Reader γ) (rest : Bytes) : (read >>= next) (write a ++ rest) = next a rest :=
  bind_of_ok (LawfulRecord.read_write a rest h)

@[simp] theorem fits_fixedBytes {n : Nat} (a : FixedBytes n) : fits a = true := rfl

@[simp] theorem fits_word (n : UInt64) : fits n = true := rfl

theorem fits_list_iff {xs : List α} :
    fits xs = true ↔ xs.length < lengthLimit ∧ ∀ x ∈ xs, fits x = true := by
  change (decide _ && xs.all fits) = true ↔ _
  rw [Bool.and_eq_true, decide_eq_true_eq, List.all_eq_true]

theorem fits_bytes_iff {bytes : Bytes} : fits bytes = true ↔ bytes.length < lengthLimit :=
  fits_list_iff.trans (and_iff_left fun _ _ => rfl)

instance : LawfulRecord UInt8 where
  read_write n rest _ := by
    have hread := takeNat_pure (show n.toNat < 256 ^ 1 from n.toNat_lt) UInt8.ofNat rest
    rw [UInt8.ofNat_toNat] at hread
    have hwrite : write n = Bytes.ofNatLE 1 n.toNat := by simp [write, Bytes.ofNatLE]
    rw [hwrite]
    exact hread

instance : LawfulRecord UInt32 where
  read_write n rest _ := by
    have hread := takeNat_pure (show n.toNat < 256 ^ 4 from n.toNat_lt) UInt32.ofNat rest
    rw [UInt32.ofNat_toNat] at hread
    exact hread

instance : LawfulRecord UInt64 where
  read_write n rest _ := by
    have hread := takeNat_pure (show n.toNat < 256 ^ 8 from n.toNat_lt) UInt64.ofNat rest
    rw [UInt64.ofNat_toNat] at hread
    exact hread

instance : LawfulRecord (BitVec 128) where
  read_write n rest _ := by
    have hread := takeNat_pure (show n.toNat < 256 ^ 16 from n.isLt) (BitVec.ofNat 128) rest
    rw [BitVec.ofNat_toNat, BitVec.setWidth_eq] at hread
    exact hread

instance {n : Nat} : LawfulRecord (FixedBytes n) where
  read_write a rest _ := by
    change takeFixed n (a.toBytes ++ rest) = _
    have hl := a.length_toBytes
    simp only [takeFixed, List.length_append, hl, Nat.le_add_right, dite_true]
    congr 2
    · exact FixedBytes.ext (by simp [← hl])
    · simp [← hl]

instance [LawfulRecord α] : LawfulRecord (List α) where
  read_write xs rest h := by
    rw [fits_list_iff] at h
    change (takeNat 8 >>= takeMany read) (lengthBytes xs.length ++ xs.flatMap write ++ rest) = _
    rw [List.append_assoc, bind_of_ok (takeNat_lengthBytes h.1 _)]
    exact takeMany_flatMap_write h.2 rest

instance [LawfulRecord α] [LawfulRecord β] : LawfulRecord (α × β) where
  read_write p rest h := by
    simp only [fits, Bool.and_eq_true] at h
    change (read >>= fun a => read >>= fun b => pure (a, b)) (write p.1 ++ write p.2 ++ rest) = _
    rw [List.append_assoc, bind_read_write h.1, bind_read_write h.2]
    rfl

instance [LawfulRecord α] : LawfulRecord (Option α) where
  read_write a? rest h := by
    have htag (n : Nat) (hn : n < 256) (rest : Bytes) :
        takeNat 1 (UInt8.ofNat n :: rest) = .ok (n, rest) :=
      takeNat_ofNatLE (show n < 256 ^ 1 from hn) rest
    cases a? with
    | none =>
      change (takeNat 1 >>= _) (UInt8.ofNat 0 :: rest) = _
      rw [bind_of_ok (htag 0 (by omega) rest)]
      rfl
    | some a =>
      have ha : fits a = true := h
      change (takeNat 1 >>= _) (UInt8.ofNat 1 :: (write a ++ rest)) = _
      rw [bind_of_ok (htag 1 (by omega) _)]
      change (read >>= fun a => pure (some a)) (write a ++ rest) = _
      rw [bind_read_write ha]
      rfl

instance {κ ν : Type} [Ord κ] [Std.TransOrd κ] [Record κ] [Record ν] [LawfulRecord κ]
    [LawfulRecord ν] : LawfulRecord (OrderedMap κ ν) where
  read_write m rest h := by
    have hentries : fits m.entries = true := h
    change (read >>= fun entries => pure (OrderedMap.ofList entries)) (write m.entries ++ rest) = _
    rw [bind_read_write hentries]
    change Except.ok (OrderedMap.ofList m.entries, rest) = _
    rw [OrderedMap.ofList_entries]

instance : LawfulRecord String where
  read_write text rest h := by
    simp only [fits, decide_eq_true_eq] at h
    change (takeNat 8 >>= fun n => takeBytes .endOfText n >>= _) (lengthBytes _ ++ _ ++ rest) = _
    rw [List.append_assoc, bind_of_ok (takeNat_lengthBytes h _),
      bind_of_ok (takeBytes_append _ _ _), Utf8.decode, Utf8.decode?_encode]
    rfl

/-- The value at the front of a written form is the value written. -/
theorem decode_write [LawfulRecord α] {a : α} (h : fits a = true) :
    decode (write a) = .ok a := by
  have hr := LawfulRecord.read_write a [] h
  rw [List.append_nil] at hr
  rw [decode, hr]

/-- Two values with one written form are equal. -/
theorem write_injective [LawfulRecord α] {a b : α} (ha : fits a = true) (hb : fits b = true)
    (h : write a = write b) : a = b := by
  have hd := decode_write ha
  rw [h, decode_write hb] at hd
  exact (Except.ok.inj hd).symm

end Record

end BridgeKernel
