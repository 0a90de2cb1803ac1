import BridgeKernel.Proofs.Wire.Rlp

/-!
# Lists of items read back

An item that ends where it says is taken whole from whatever follows it, so the items of a written
list are read back one after another, or the one at a position by skipping those before it.
-/

namespace BridgeKernel.Rlp

/-- An item is taken whole from whatever follows it. -/
def Whole (item : Bytes) : Prop := ∀ rest, split (item ++ rest) = .ok (item, rest)

theorem body_encodeBytes_self {bytes : Bytes} (h : bytes.length < 256 ^ 8) :
    body (encodeBytes bytes) = .ok bytes := by
  simpa using body_encodeBytes h []

theorem whole_encodeBytes {bytes : Bytes} (h : bytes.length < 256 ^ 8) :
    Whole (encodeBytes bytes) := split_encodeBytes h

theorem whole_encodeList {items : List Bytes} (h : items.flatten.length < 256 ^ 8) :
    Whole (encodeList items) := by
  obtain ⟨head, heq, hannounces⟩ := exists_encodeList_eq h
  intro rest
  rw [heq]
  exact hannounces.split rest

theorem Whole.ne_nil {item : Bytes} (h : Whole item) : item ≠ [] := by
  rintro rfl
  have hsplit := h []
  simp [split, extent, announcedExtent] at hsplit

/-! ## Kinds of items -/

/-- The first byte of a header tells lists from byte strings. -/
theorem isList_header {base n : Nat} (hbase : IsBase base) (hn : n < 256 ^ 8) (rest : Bytes) :
    isList (header base n ++ rest) = decide (base = 0xc0) := by
  have hwidth := Bytes.minimalWidth_le hn
  have hlist (first : UInt8) (tail : Bytes) :
      isList (first :: tail) = decide (192 ≤ first.toNat) := by
    simp [isList, UInt8.le_iff_toNat_le]
  unfold header
  split
  · rw [List.singleton_append, hlist, UInt8.toNat_ofNat']
    rcases hbase with rfl | rfl <;> simp <;> omega
  · rw [List.cons_append, hlist, UInt8.toNat_ofNat']
    rcases hbase with rfl | rfl <;> simp <;> omega

theorem isList_encodeBytes {bytes : Bytes} (h : bytes.length < 256 ^ 8) (rest : Bytes) :
    isList (encodeBytes bytes ++ rest) = false := by
  unfold encodeBytes
  split
  · next b =>
    split
    · next hlow =>
      rw [UInt8.lt_iff_toNat_lt] at hlow
      simp [isList, UInt8.lt_iff_toNat_lt]
      simp at hlow
      omega
    · rw [List.append_assoc, isList_header (.inl rfl) (by decide)]
      rfl
  · rw [List.append_assoc, isList_header (.inl rfl) h]
    rfl

theorem isList_encodeList {items : List Bytes} (h : items.flatten.length < 256 ^ 8) :
    isList (encodeList items) = true := by
  rw [encodeList, isList_header (.inr rfl) h]
  rfl

/-! ## Lengths -/

/-- A byte string is no longer than its item. -/
theorem length_le_encodeBytes (bytes : Bytes) : bytes.length ≤ (encodeBytes bytes).length := by
  unfold encodeBytes
  split
  · split <;> simp
  · simp

/-- The items of a list that can be measured can be measured. -/
theorem length_flatten_lt {items : List Bytes} {bound : Nat}
    (h : (encodeList items).length < bound) : items.flatten.length < bound := by
  rw [encodeList, List.length_append] at h
  omega

/-- A byte string in a list that can be measured can be measured. -/
theorem length_lt_of_mem {items : List Bytes} {bytes : Bytes} {bound : Nat}
    (h : (encodeList items).length < bound) (hmem : encodeBytes bytes ∈ items) :
    bytes.length < bound := by
  have hlist := length_flatten_lt h
  have hitem := (List.sublist_flatten_of_mem hmem).length_le
  have hbytes := length_le_encodeBytes bytes
  omega

/-! ## Items one after another -/

section

variable {items : List Bytes}

theorem length_le_flatten (hwhole : ∀ item ∈ items, Whole item) :
    items.length ≤ items.flatten.length := by
  induction items with
  | nil => simp
  | cons item items ih =>
    obtain ⟨hitem, hrest⟩ := List.forall_mem_cons.mp hwhole
    have hpositive := List.length_pos_iff.mpr hitem.ne_nil
    have hle := ih hrest
    rw [List.flatten_cons, List.length_append, List.length_cons]
    omega

theorem itemRun_flatten (hwhole : ∀ item ∈ items, Whole item) {fuel : Nat}
    (hfuel : items.length ≤ fuel) : itemRun fuel items.flatten = items := by
  induction items generalizing fuel with
  | nil => cases fuel <;> rfl
  | cons item items ih =>
    cases fuel with
    | zero => simp at hfuel
    | succ fuel =>
      obtain ⟨hitem, hrest⟩ := List.forall_mem_cons.mp hwhole
      have hrun := ih hrest (Nat.le_of_succ_le_succ hfuel)
      rw [List.flatten_cons, itemRun, hitem]
      simp [hrun]

theorem skip_flatten (hwhole : ∀ item ∈ items, Whole item) (position : Nat)
    (h : position ≤ items.length) :
    skip position items.flatten = .ok (items.drop position).flatten := by
  induction items generalizing position with
  | nil =>
    obtain rfl : position = 0 := Nat.le_zero.mp h
    rfl
  | cons item items ih =>
    cases position with
    | zero => rfl
    | succ position =>
      obtain ⟨hitem, hrest⟩ := List.forall_mem_cons.mp hwhole
      rw [List.flatten_cons, skip, hitem]
      exact ih hrest position (Nat.le_of_succ_le_succ h)

/-- The items of a written list are read back. -/
theorem items_encodeList (hwhole : ∀ item ∈ items, Whole item)
    (hfits : items.flatten.length < 256 ^ 8) : Rlp.items (encodeList items) = .ok items := by
  obtain ⟨head, heq, hannounces⟩ := exists_encodeList_eq hfits
  have hextent := hannounces.extent []
  rw [List.append_nil] at hextent
  rw [Rlp.items, isList_encodeList hfits, heq, hextent]
  simp only [Bool.not_true, Bool.false_eq_true, if_false, List.drop_left, List.take_length]
  cases items with
  | nil => rfl
  | cons item rest =>
    obtain ⟨hitem, hrest⟩ := List.forall_mem_cons.mp hwhole
    have hrun : itemRun (head ++ (item :: rest).flatten).length rest.flatten = rest := by
      apply itemRun_flatten hrest
      have hle := length_le_flatten hwhole
      rw [List.length_append]
      rw [List.length_cons] at hle
      omega
    rw [List.flatten_cons] at hrun ⊢
    simp only [hitem rest.flatten]
    rw [← List.drop_drop, List.drop_left, List.drop_left]
    simpa using hrun

/-- The item at a position of a written list is read back. -/
theorem itemAt_encodeList (hwhole : ∀ item ∈ items, Whole item)
    (hfits : items.flatten.length < 256 ^ 8) {position : Nat} (h : position < items.length) :
    itemAt (encodeList items) position = .ok items[position] := by
  have hbody := body_encodeList hfits []
  rw [List.append_nil] at hbody
  have hskip := skip_flatten hwhole position (Nat.le_of_lt h)
  have hitem := hwhole items[position] (List.getElem_mem h) (items.drop (position + 1)).flatten
  rw [List.drop_eq_getElem_cons h, List.flatten_cons] at hskip
  simp only [itemAt, isList_encodeList hfits, hbody, bind, Except.bind, hskip, hitem]
  rfl

end

end BridgeKernel.Rlp
