import BridgeKernel.Proofs.Wire.Canonical
import BridgeKernel.Proofs.Wire.RlpList

/-!
# The spellings that reading accepts

An item has one spelling: a single low byte, or the shortest header for its body and the body. So
what is split off from the front of bytes is a whole item, and what is read from an item as a byte
string or a number is written as that item again.

Lists leave room. The items found in bytes stand behind a list header one after another, but of the
payload that the header announces only two things are asked: that it holds the first item, and that
the bytes hold it. Reading goes on past its end, and ends at the first bytes that are no whole item.
-/

namespace BridgeKernel

namespace Bytes

theorem ofNatBE_toNatBE (bytes : Bytes) : ofNatBE bytes.length (toNatBE bytes) = bytes := by
  have hreverse := ofNatLE_toNatLE bytes.reverse
  rw [List.length_reverse] at hreverse
  rw [ofNatBE, toNatBE, hreverse, List.reverse_reverse]

/-- Bytes without a leading zero are the shortest form of the number that they spell. -/
theorem minimalBE_toNatBE {bytes : Bytes} (h : bytes.head? ≠ some 0) :
    minimalBE (toNatBE bytes) = bytes := by
  have hwidth : minimalWidth (toNatBE bytes) = bytes.length := by
    apply Nat.le_antisymm (minimalWidth_le (toNatBE_lt bytes))
    cases bytes with
    | nil => exact Nat.zero_le _
    | cons b rest =>
      have hb : b.toNat ≠ 0 := fun hzero => h (congrArg some (UInt8.toNat_inj.mp hzero))
      have hlow : 256 ^ rest.length ≤ toNatBE (b :: rest) := by
        rw [toNatBE_cons]
        exact Nat.le_add_left_of_le (Nat.le_mul_of_pos_right _ (Nat.pos_of_ne_zero hb))
      exact (Nat.pow_lt_pow_iff_right (by decide)).mp
        (Nat.lt_of_le_of_lt hlow (lt_pow_minimalWidth _))
  rw [minimalBE, hwidth, ofNatBE_toNatBE]

end Bytes

namespace Rlp

/-! ## Items -/

/-- The shapes of an item. -/
inductive IsItem : Bytes → Prop
  /-- A low byte stands for itself. -/
  | low {b : UInt8} (hlow : b < 0x80) : IsItem [b]
  /-- A body stands behind its header. -/
  | behind {base : Nat} {body : Bytes} (hbase : IsBase base) (hfits : body.length < 256 ^ 8) :
    IsItem (header base body.length ++ body)

/-- A header for a length of more than one byte. -/
theorem header_long {base n width : Nat} (hlong : 55 < n) (hwidth : Bytes.minimalWidth n = width) :
    header base n = UInt8.ofNat (base + 55 + width) :: Bytes.minimalBE n := by
  rw [header, if_neg (by omega), hwidth]

/-- A length of several bytes is read only from its shortest form. -/
theorem longExtent_ok {width : Nat} {rest : Bytes} {x : Extent}
    (h : longExtent width rest = .ok x) :
    ∃ n tail, 55 < n ∧ Bytes.minimalWidth n = width ∧ rest = Bytes.minimalBE n ++ tail ∧
      x = ⟨1 + width, n⟩ := by
  unfold longExtent at h
  split at h
  · cases h
  · next b others =>
    split at h
    · cases h
    · next hb =>
      split at h
      · cases h
      · next henough =>
        dsimp only at h
        split at h
        · cases h
        · next hlong =>
          cases h
          have hfirst : ((b :: others).take width).head? ≠ some 0 := by
            cases width with
            | zero => simp
            | succ width => simpa using hb
          have hshortest := Bytes.minimalBE_toNatBE hfirst
          refine ⟨_, (b :: others).drop width, Nat.lt_of_not_le hlong, ?_, ?_, rfl⟩
          · rw [← Bytes.length_minimalBE, hshortest]
            exact List.length_take_of_le (Nat.le_of_not_lt henough)
          · rw [hshortest, List.take_append_drop]

/-- The first bytes announce a low byte, or stand for the shortest header of a length. -/
theorem announcedExtent_ok {bytes : Bytes} {x : Extent} (h : announcedExtent bytes = .ok x) :
    (∃ b rest, b < 0x80 ∧ bytes = b :: rest ∧ x = ⟨0, 1⟩) ∨
      ∃ base n rest, IsBase base ∧ n < 256 ^ 8 ∧ bytes = header base n ++ rest ∧
        x = ⟨(header base n).length, n⟩ := by
  cases bytes with
  | nil => cases h
  | cons first rest =>
    have hfirst : first.toNat < 256 := first.toNat_lt
    have hbyte {k : Nat} (hk : k = first.toNat) : UInt8.ofNat k = first := by
      rw [hk, UInt8.ofNat_toNat]
    -- a length below 56 stands in the first byte itself
    have hshort {base n : Nat} (hbase : IsBase base) (hn : n ≤ 55) (hk : base + n = first.toNat)
        (hx : x = ⟨1, n⟩) : ∃ base n rest', IsBase base ∧ n < 256 ^ 8 ∧
          first :: rest = header base n ++ rest' ∧ x = ⟨(header base n).length, n⟩ := by
      have hheader : header base n = [first] := by rw [header, if_pos hn, hbyte hk]
      exact ⟨base, n, rest, hbase, by omega, by rw [hheader]; rfl, by rw [hheader]; exact hx⟩
    have hlong {base width : Nat} (hbase : IsBase base) (hk : base + 55 + width = first.toNat)
        (hwidth : width ≤ 8) (hx : longExtent width rest = .ok x) :
        ∃ base n rest', IsBase base ∧ n < 256 ^ 8 ∧
          first :: rest = header base n ++ rest' ∧ x = ⟨(header base n).length, n⟩ := by
      obtain ⟨n, tail, hn, hminimal, rfl, rfl⟩ := longExtent_ok hx
      have hheader : header base n = first :: Bytes.minimalBE n := by
        rw [header_long hn hminimal, hbyte hk]
      refine ⟨base, n, tail, hbase, ?_, by rw [hheader]; rfl, ?_⟩
      · exact Nat.lt_of_lt_of_le (Bytes.lt_pow_minimalWidth n)
          (Nat.pow_le_pow_right (by decide) (hminimal ▸ hwidth))
      · rw [hheader, List.length_cons, Bytes.length_minimalBE, hminimal, Nat.add_comm]
    rw [announcedExtent_cons] at h
    split at h
    · next hlow =>
      exact .inl ⟨first, rest, UInt8.lt_iff_toNat_lt.mpr hlow, rfl, (Except.ok.inj h).symm⟩
    split at h
    · exact .inr (hshort (.inl rfl) (by omega) (by omega) (Except.ok.inj h).symm)
    split at h
    · exact .inr (hlong (.inl rfl) (by omega) (by omega) h)
    split at h
    · exact .inr (hshort (.inr rfl) (by omega) (by omega) (Except.ok.inj h).symm)
    · exact .inr (hlong (.inr rfl) (by omega) (by omega) h)

theorem extent_ok {bytes : Bytes} {x : Extent} (h : extent bytes = .ok x) :
    announcedExtent bytes = .ok x ∧ x.total ≤ bytes.length := by
  unfold extent at h
  split at h
  · cases h
  · next found hfound =>
    split at h
    · next hle =>
      cases h
      exact ⟨hfound, hle⟩
    · cases h

/-- What is split off is an item, and the rest follows it. -/
theorem isItem_of_split {bytes item rest : Bytes} (h : split bytes = .ok (item, rest)) :
    IsItem item ∧ bytes = item ++ rest := by
  unfold split at h
  split at h
  · cases h
  · next x hx =>
    cases h
    obtain ⟨hannounced, hle⟩ := extent_ok hx
    refine ⟨?_, (List.take_append_drop _ _).symm⟩
    rcases announcedExtent_ok hannounced with
      ⟨b, rest, hlow, rfl, rfl⟩ | ⟨base, n, rest, hbase, hn, rfl, rfl⟩
    · exact .low hlow
    · have hbody : (rest.take n).length = n := by
        rw [List.length_append] at hle
        exact List.length_take_of_le (Nat.le_of_add_le_add_left hle)
      have hitem : IsItem (header base (rest.take n).length ++ rest.take n) :=
        .behind hbase (hbody.symm ▸ hn)
      rwa [hbody, ← List.take_length_add_append] at hitem

theorem IsItem.whole {item : Bytes} (h : IsItem item) : Whole item := by
  cases h with
  | @low b hlow =>
    have hself : encodeBytes [b] = [b] := if_pos hlow
    rw [← hself]
    exact whole_encodeBytes (show 1 < 256 ^ 8 by decide)
  | behind hbase hfits => exact (announces_header hbase hfits).split

theorem Whole.isItem {item : Bytes} (h : Whole item) : IsItem item := (isItem_of_split (h [])).1

/-- What is split off is a whole item at the front. -/
theorem split_ok_iff {bytes item rest : Bytes} :
    split bytes = .ok (item, rest) ↔ Whole item ∧ bytes = item ++ rest := by
  constructor
  · intro h
    obtain ⟨hitem, hbytes⟩ := isItem_of_split h
    exact ⟨hitem.whole, hbytes⟩
  · rintro ⟨hwhole, rfl⟩
    exact hwhole rest

/-! ## Lengths -/

/-- A header for a length of at most eight bytes takes at most nine. -/
theorem length_header_le {base n : Nat} (h : n < 256 ^ 8) : (header base n).length ≤ 9 := by
  have hwidth := Bytes.minimalWidth_le h
  unfold header
  split
  · simp
  · rw [List.length_cons, Bytes.length_minimalBE]
    omega

theorem Whole.length_le {item : Bytes} (h : Whole item) : item.length ≤ 256 ^ 8 + 8 := by
  cases h.isItem with
  | low hlow => exact show 1 ≤ 256 ^ 8 + 8 by decide
  | @behind base body hbase hfits =>
    have hheader : (header base body.length).length ≤ 9 := length_header_le hfits
    rw [List.length_append]
    omega

/-- The item of a byte string is whole exactly when the length takes at most eight bytes. -/
theorem whole_encodeBytes_iff {bytes : Bytes} :
    Whole (encodeBytes bytes) ↔ bytes.length < 256 ^ 8 := by
  refine ⟨fun h => ?_, whole_encodeBytes⟩
  have hle := h.length_le
  rcases encodeBytes_cases bytes with ⟨b, -, rfl, -⟩ | heq
  · exact show 1 < 256 ^ 8 by decide
  · rw [heq, List.length_append] at hle
    refine Nat.lt_of_not_le fun hlong => ?_
    have hheader := length_header_mono 0x80 hlong
    have hten : (header 0x80 (256 ^ 8)).length = 10 := by decide
    omega

/-- A list whose length takes nine bytes has no header of a list. -/
theorem length_lt_of_isList {items : List Bytes} (hlist : isList (encodeList items) = true)
    (hlength : items.flatten.length < 256 ^ 9) : items.flatten.length < 256 ^ 8 := by
  refine Nat.lt_of_not_le fun hlong => ?_
  have hwidth : Bytes.minimalWidth items.flatten.length = 9 :=
    Nat.le_antisymm (Bytes.minimalWidth_le hlength)
      (Bytes.minimalWidth_mono hlong)
  rw [encodeList, header_long (by omega) hwidth] at hlist
  -- the byte for a width of nine wraps around to zero
  have hzero : (0xc0 : UInt8) ≤ UInt8.ofNat (0xc0 + 55 + 9) := of_decide_eq_true hlist
  exact absurd hzero (by decide)

theorem length_flatten_le {items : List Bytes} (hwhole : ∀ item ∈ items, Whole item) :
    items.flatten.length ≤ items.length * (256 ^ 8 + 8) := by
  induction items with
  | nil => exact Nat.zero_le _
  | cons item items ih =>
    obtain ⟨hitem, hothers⟩ := List.forall_mem_cons.mp hwhole
    have hle := hitem.length_le
    have hrest := ih hothers
    rw [List.flatten_cons, List.length_append, List.length_cons, Nat.succ_mul]
    omega

/-! ## Byte strings and numbers -/

/-- A byte string is read from its item. -/
theorem readBytes_encodeBytes {bytes : Bytes} (h : bytes.length < 256 ^ 8) :
    readBytes (encodeBytes bytes) = .ok bytes := by
  have hlist := isList_encodeBytes h []
  have hbody := body_encodeBytes_self h
  rw [List.append_nil] at hlist
  unfold readBytes
  split
  · next hnil => exact absurd hnil (whole_encodeBytes h).ne_nil
  · next b heq =>
    -- an item of these two bytes is that of the second one
    obtain rfl : bytes = [b] := by
      rw [heq] at hbody
      exact (Except.ok.inj hbody).symm
    split
    · next hlow =>
      rw [encodeBytes, if_pos hlow] at heq
      cases heq
    · rfl
  · rw [hlist]
    exact hbody

/-- A byte string is read from no item but its own. -/
theorem readBytes_ok {item bytes : Bytes} (hitem : Whole item) (h : readBytes item = .ok bytes) :
    bytes.length < 256 ^ 8 ∧ item = encodeBytes bytes := by
  unfold readBytes at h
  split at h
  · cases h
  · next b =>
    split at h
    · cases h
    · next hhigh =>
      cases h
      exact ⟨show 1 < 256 ^ 8 by decide, (if_neg hhigh).symm⟩
  · next hother =>
    split at h
    · cases h
    · next hlist =>
      cases hitem.isItem with
      | @low b hlow =>
        have hself : encodeBytes [b] = [b] := if_pos hlow
        have hone : [b].length < 256 ^ 8 := show 1 < 256 ^ 8 by decide
        rw [← hself, body_encodeBytes_self hone] at h
        cases h
        exact ⟨hone, hself.symm⟩
      | @behind base body hbase hfits =>
        rw [isList_header hbase hfits] at hlist
        obtain rfl : base = 0x80 := hbase.resolve_right fun hbase => hlist (decide_eq_true hbase)
        have hbody := (announces_header hbase hfits).body_eq []
        rw [List.append_nil, h] at hbody
        cases hbody
        refine ⟨hfits, ?_⟩
        rcases encodeBytes_cases bytes with ⟨b, hlow, rfl, -⟩ | heq
        · exact absurd rfl (hother b)
        · exact heq.symm

/-- A number of a limited width is read from its item and from no other. -/
theorem readNat_ok_iff {width n : Nat} {item : Bytes} (hwidth : width < 256 ^ 8)
    (hitem : Whole item) :
    readNat width item = .ok n ↔ n < 256 ^ width ∧ item = encodeNat n := by
  unfold readNat
  constructor
  · intro h
    split at h
    · cases h
    · next digits hdigits =>
      obtain ⟨-, rfl⟩ := readBytes_ok hitem hdigits
      split at h
      · cases h
      · next hlength =>
        split at h
        · cases h
        · next hfirst =>
          cases h
          refine ⟨Nat.lt_of_lt_of_le (Bytes.toNatBE_lt digits) ?_, ?_⟩
          · exact Nat.pow_le_pow_right (by decide) (Nat.le_of_not_lt hlength)
          · rw [encodeNat, Bytes.minimalBE_toNatBE hfirst]
  · rintro ⟨hn, rfl⟩
    have hlength := Bytes.minimalWidth_le hn
    have hfirst : (Bytes.minimalBE n).head? ≠ some 0 := by
      by_cases hzero : n = 0
      · subst hzero
        decide
      · obtain ⟨b, rest, hbytes, hb⟩ := Bytes.exists_minimalBE_cons hzero
        rw [hbytes]
        exact fun hhead => hb (Option.some.inj hhead)
    rw [encodeNat, readBytes_encodeBytes (by rw [Bytes.length_minimalBE]; omega)]
    dsimp only
    rw [Bytes.length_minimalBE, if_neg (by omega), if_neg hfirst, Bytes.toNatBE_minimalBE]

/-! ## Lists -/

/-- No whole item stands at the front. -/
def Broken (bytes : Bytes) : Prop := ∀ item, Whole item → ¬ item <+: bytes

theorem broken_iff {bytes : Bytes} : Broken bytes ↔ ∃ e, split bytes = .error e := by
  constructor
  · intro hbroken
    rcases hsplit : split bytes with e | ⟨item, rest⟩
    · exact ⟨e, rfl⟩
    · obtain ⟨hwhole, rfl⟩ := split_ok_iff.mp hsplit
      exact absurd (List.prefix_append item rest) (hbroken item hwhole)
  · rintro ⟨e, he⟩ item hwhole ⟨rest, rfl⟩
    cases he.symm.trans (hwhole rest)

theorem broken_nil : Broken [] := broken_iff.mpr ⟨_, rfl⟩

variable {items : List Bytes} {bytes rest : Bytes}

/-- Whole items one after another are found up to bytes that are none. -/
theorem itemRun_append (hwhole : ∀ item ∈ items, Whole item) (hrest : Broken rest) {fuel : Nat}
    (hfuel : items.length ≤ fuel) : itemRun fuel (items.flatten ++ rest) = items := by
  induction items generalizing fuel with
  | nil =>
    obtain ⟨e, he⟩ := broken_iff.mp hrest
    cases fuel with
    | zero => rfl
    | succ fuel => rw [List.flatten_nil, List.nil_append, itemRun, he]
  | cons item items ih =>
    cases fuel with
    | zero => simp at hfuel
    | succ fuel =>
      obtain ⟨hitem, hothers⟩ := List.forall_mem_cons.mp hwhole
      rw [List.flatten_cons, List.append_assoc, itemRun, hitem]
      exact congrArg (item :: ·) (ih hothers (Nat.le_of_succ_le_succ hfuel))

/-- The items that are found are whole and stand one after another, up to bytes that are none. -/
theorem itemRun_eq {fuel : Nat} (hfuel : bytes.length ≤ fuel) :
    (∀ item ∈ itemRun fuel bytes, Whole item) ∧
      ∃ rest, bytes = (itemRun fuel bytes).flatten ++ rest ∧ Broken rest := by
  induction fuel generalizing bytes with
  | zero =>
    obtain rfl := List.length_eq_zero_iff.mp (Nat.le_zero.mp hfuel)
    exact ⟨List.forall_mem_nil _, [], rfl, broken_nil⟩
  | succ fuel ih =>
    rw [itemRun]
    split
    · next e he => exact ⟨List.forall_mem_nil _, bytes, rfl, broken_iff.mpr ⟨e, he⟩⟩
    · next item rest hsplit =>
      obtain ⟨hitem, rfl⟩ := split_ok_iff.mp hsplit
      have hpositive := List.length_pos_iff.mpr hitem.ne_nil
      rw [List.length_append] at hfuel
      obtain ⟨hothers, rest', hrest, hbroken⟩ := ih (show rest.length ≤ fuel by omega)
      refine ⟨List.forall_mem_cons.mpr ⟨hitem, hothers⟩, rest', ?_, hbroken⟩
      rw [List.flatten_cons, List.append_assoc, ← hrest]

/-- Bytes in which items are found: behind a list header, with the payload that it announces and
what is left over at the end. -/
structure Lists (items : List Bytes) (announced : Nat) (rest bytes : Bytes) : Prop where
  /-- Header, items and rest make up the bytes. -/
  bytes_eq : bytes = header 0xc0 announced ++ (items.flatten ++ rest)
  /-- The header has room for the length of the payload. -/
  measured : announced < 256 ^ 8
  /-- The items are whole. -/
  whole : ∀ item ∈ items, Whole item
  /-- The payload holds the first item. -/
  first_le : ∀ item ∈ items.head?, item.length ≤ announced
  /-- The bytes hold the payload. -/
  announced_le : announced ≤ (items.flatten ++ rest).length
  /-- The rest begins with no item. -/
  broken : Broken rest

/-- Bytes that begin with a list begin with the header of its payload and hold the payload. -/
theorem exists_header_of_isList {x : Extent} (hlist : isList bytes = true)
    (hx : extent bytes = .ok x) :
    ∃ n payload, n < 256 ^ 8 ∧ n ≤ payload.length ∧ bytes = header 0xc0 n ++ payload := by
  obtain ⟨hannounced, hle⟩ := extent_ok hx
  rcases announcedExtent_ok hannounced with
    ⟨b, rest, hlow, rfl, rfl⟩ | ⟨base, n, payload, hbase, hn, rfl, rfl⟩
  · have hlow : b.toNat < 128 := UInt8.lt_iff_toNat_lt.mp hlow
    have hhigh : 192 ≤ b.toNat := UInt8.le_iff_toNat_le.mp (of_decide_eq_true hlist)
    omega
  · rw [isList_header hbase hn] at hlist
    obtain rfl : base = 0xc0 := of_decide_eq_true hlist
    rw [List.length_append] at hle
    exact ⟨n, payload, hn, Nat.le_of_add_le_add_left hle, rfl⟩

/-- The items behind a list header: the first is looked for in the payload, and the others are
looked for behind it in all that there is. -/
theorem items_header {n : Nat} {payload : Bytes} (hn : n < 256 ^ 8) (hle : n ≤ payload.length) :
    Rlp.items (header 0xc0 n ++ payload) =
      match split (payload.take n) with
      | .error _ => .ok []
      | .ok (first, _) =>
        .ok (first ::
          itemRun (header 0xc0 n ++ payload).length (payload.drop first.length)) := by
  have hextent : extent (header 0xc0 n ++ payload) = .ok ⟨(header 0xc0 n).length, n⟩ := by
    rw [extent, announcedExtent_header (.inr rfl) hn]
    refine if_pos ?_
    rw [List.length_append]
    exact Nat.add_le_add_left hle _
  rw [Rlp.items, isList_header (.inr rfl) hn, hextent]
  cases hsplit : split (payload.take n) <;>
    simp only [decide_true, Bool.not_true, Bool.false_eq_true, if_false, List.drop_left,
      ← List.drop_drop, hsplit]

/-- The items of bytes are those that are listed in them. -/
theorem items_cons_ok_iff {first : Bytes} {others : List Bytes} :
    Rlp.items bytes = .ok (first :: others) ↔
      ∃ announced rest, Lists (first :: others) announced rest bytes := by
  constructor
  · intro h
    obtain ⟨n, payload, hn, hle, rfl⟩ : ∃ n payload, n < 256 ^ 8 ∧ n ≤ payload.length ∧
        bytes = header 0xc0 n ++ payload := by
      unfold Rlp.items at h
      split at h
      · cases h
      · next hlist =>
        split at h
        · cases h
        · next x hx => exact exists_header_of_isList (by simpa using hlist) hx
    rw [items_header hn hle] at h
    split at h
    · cases h
    · next item after hsplit =>
      cases h
      obtain ⟨hitem, htake⟩ := split_ok_iff.mp hsplit
      have hbegins : first <+: payload.take n := htake ▸ List.prefix_append first after
      have hfirst := hbegins.length_le
      rw [List.length_take] at hfirst
      have hpayload : first ++ payload.drop first.length = payload :=
        List.prefix_iff_eq_append.mp (hbegins.trans (List.take_prefix n payload))
      have hroom : (payload.drop first.length).length ≤ (header 0xc0 n ++ payload).length := by
        rw [List.length_append, List.length_drop]
        omega
      obtain ⟨hothers, rest, hrest, hbroken⟩ := itemRun_eq hroom
      generalize itemRun _ _ = others at hothers hrest ⊢
      have hall : payload = (first :: others).flatten ++ rest := by
        rw [List.flatten_cons, List.append_assoc, ← hrest, hpayload]
      refine ⟨n, rest, congrArg (header 0xc0 n ++ ·) hall, hn,
        List.forall_mem_cons.mpr ⟨hitem, hothers⟩, ?_, hall ▸ hle, hbroken⟩
      rintro _ ⟨⟩
      omega
  · rintro ⟨n, rest, rfl, hn, hwhole, hfirst, hle, hbroken⟩
    obtain ⟨hitem, hothers⟩ := List.forall_mem_cons.mp hwhole
    have hfirst := hfirst first rfl
    have hfuel := length_le_flatten hothers
    rw [List.flatten_cons, List.append_assoc] at hle ⊢
    rw [items_header hn hle, List.take_append, List.take_of_length_le hfirst, hitem]
    dsimp only
    rw [List.drop_left, itemRun_append hothers hbroken]
    rw [List.length_append, List.length_append, List.length_append]
    omega

/-- In a list that can be measured every item of a byte string is whole. -/
theorem whole_of_spelled (hspelled : ∀ item ∈ items, ∃ bytes, item = encodeBytes bytes)
    (h : (encodeList items).length < 256 ^ 8) : ∀ item ∈ items, Whole item := by
  intro item hmem
  obtain ⟨bytes, rfl⟩ := hspelled item hmem
  exact whole_encodeBytes (length_lt_of_mem h hmem)

/-- The items of a written list are listed in it. -/
theorem lists_encodeList (hwhole : ∀ item ∈ items, Whole item)
    (h : items.flatten.length < 256 ^ 8) :
    Lists items items.flatten.length [] (encodeList items) where
  bytes_eq := by rw [List.append_nil, encodeList]
  measured := h
  whole := hwhole
  first_le item hitem := (List.sublist_flatten_of_mem (List.mem_of_mem_head? hitem)).length_le
  announced_le := Nat.le_of_eq (congrArg List.length (List.append_nil _).symm)
  broken := broken_nil

/-- Bytes in which items are listed are the written list exactly when the header announces the items
and nothing follows them. -/
theorem Lists.eq_encodeList_iff {announced : Nat} (h : Lists items announced rest bytes)
    (hfew : items.length < 255) :
    bytes = encodeList items ↔ announced = items.flatten.length ∧ rest = [] := by
  have hlist : isList bytes = true := by
    rw [h.bytes_eq]
    exact isList_header (.inr rfl) h.measured _
  constructor
  · intro heq
    have hlength : items.flatten.length < 256 ^ 8 := by
      apply length_lt_of_isList (heq ▸ hlist)
      have hle := length_flatten_le h.whole
      have hmul := Nat.mul_le_mul_right (256 ^ 8 + 8) (Nat.le_of_lt hfew)
      omega
    have hextent := announcedExtent_header (.inr rfl) h.measured (items.flatten ++ rest)
    have hextent' := announcedExtent_header (.inr rfl) hlength items.flatten
    rw [h.bytes_eq, encodeList] at heq
    rw [heq, hextent'] at hextent
    injection hextent with hextent
    injection hextent with _ hannounced
    rw [← hannounced] at heq
    exact ⟨hannounced.symm, List.append_right_eq_self.mp (List.append_cancel_left heq)⟩
  · rintro ⟨rfl, rfl⟩
    rw [h.bytes_eq, List.append_nil, encodeList]

end Rlp

end BridgeKernel
