import BridgeKernel.Proofs.Checks
import BridgeKernel.Proofs.Wire.Lawful
import BridgeKernel.Wire.Rlp

/-!
# Items with length prefixes read back

An item says where it ends, so it is told apart from whatever follows it, and its body is read back.
This holds for bodies whose length takes at most eight bytes, the most that a header has room for.
Whole items are told apart by their bodies at any length.
-/

namespace BridgeKernel

/-! ## Numbers without leading zeros -/

namespace Bytes

theorem toNatBE_lt (bytes : Bytes) : toNatBE bytes < 256 ^ bytes.length := by
  induction bytes with
  | nil => decide
  | cons b rest ih =>
    have hb : b.toNat + 1 ≤ 256 := b.toNat_lt
    have hmul := Nat.mul_le_mul_left (256 ^ rest.length) hb
    rw [toNatBE_cons, List.length_cons, Nat.pow_succ]
    rw [Nat.mul_add, Nat.mul_one] at hmul
    omega

/-- The shortest form of a number has room for it. -/
theorem lt_pow_minimalWidth (n : Nat) : n < 256 ^ minimalWidth n := by
  unfold minimalWidth
  split
  · next hzero => rw [hzero]; decide
  · have hpow : 256 ^ (n.log2 / 8 + 1) = 2 ^ (8 * (n.log2 / 8 + 1)) := Nat.pow_mul 2 8 _ |>.symm
    rw [hpow]
    exact Nat.lt_of_lt_of_le Nat.lt_log2_self (Nat.pow_le_pow_right (by decide) (by omega))

/-- A shorter form has none. -/
theorem pow_le_of_minimalWidth {n width : Nat} (h : minimalWidth n = width + 1) :
    256 ^ width ≤ n := by
  unfold minimalWidth at h
  split at h
  · cases h
  · next hne =>
    have hpow : 256 ^ width = 2 ^ (8 * width) := Nat.pow_mul 2 8 _ |>.symm
    rw [hpow]
    exact Nat.le_trans (Nat.pow_le_pow_right (by decide) (by omega)) (Nat.log2_self_le hne)

theorem minimalWidth_le {n width : Nat} (h : n < 256 ^ width) : minimalWidth n ≤ width := by
  cases hw : minimalWidth n with
  | zero => exact Nat.zero_le _
  | succ w =>
    have hle := pow_le_of_minimalWidth hw
    exact (Nat.pow_lt_pow_iff_right (by decide)).mp (Nat.lt_of_le_of_lt hle h)

/-- A smaller number has no longer form. -/
theorem minimalWidth_mono {m n : Nat} (h : m ≤ n) : minimalWidth m ≤ minimalWidth n :=
  minimalWidth_le (Nat.lt_of_le_of_lt h (lt_pow_minimalWidth n))

@[simp] theorem length_minimalBE (n : Nat) : (minimalBE n).length = minimalWidth n :=
  length_ofNatBE _ _

@[simp] theorem toNatBE_minimalBE (n : Nat) : toNatBE (minimalBE n) = n := by
  rw [minimalBE, toNatBE_ofNatBE, Nat.mod_eq_of_lt (lt_pow_minimalWidth n)]

theorem minimalBE_injective : Function.Injective minimalBE := by
  intro a b h
  rw [← toNatBE_minimalBE a, h, toNatBE_minimalBE]

/-- The shortest form of a positive number begins with a byte that counts. -/
theorem exists_minimalBE_cons {n : Nat} (h : n ≠ 0) :
    ∃ b rest, minimalBE n = b :: rest ∧ b ≠ 0 := by
  have hlength := length_minimalBE n
  cases hbytes : minimalBE n with
  | nil =>
    have hvalue := toNatBE_minimalBE n
    rw [hbytes] at hvalue
    exact absurd hvalue.symm h
  | cons b rest =>
    refine ⟨b, rest, rfl, fun hzero => ?_⟩
    have hvalue := toNatBE_minimalBE n
    rw [hbytes, List.length_cons] at hlength
    rw [hbytes, hzero, toNatBE_cons] at hvalue
    have hlow : n < 256 ^ rest.length := by
      rw [← hvalue]
      exact toNatBE_lt rest
    exact Nat.not_le.mpr hlow (pow_le_of_minimalWidth hlength.symm)

end Bytes

namespace Rlp

/-! ## Headers -/

/-- The kinds of items, by the base of their headers. -/
def IsBase (base : Nat) : Prop := base = 0x80 ∨ base = 0xc0

/-- A header together with its body, whatever follows, has the announced extent. -/
def Announces (head body : Bytes) : Prop :=
  ∀ rest, announcedExtent (head ++ (body ++ rest)) = .ok ⟨head.length, body.length⟩

/-- A length that takes more than one byte is read back. -/
theorem longExtent_minimalBE {n : Nat} (h : 55 < n) (rest : Bytes) :
    longExtent (Bytes.minimalWidth n) (Bytes.minimalBE n ++ rest) =
      .ok ⟨1 + Bytes.minimalWidth n, n⟩ := by
  obtain ⟨b, tail, hbytes, hb⟩ := Bytes.exists_minimalBE_cons (by omega : n ≠ 0)
  have htake : (Bytes.minimalBE n ++ rest).take (Bytes.minimalWidth n) = Bytes.minimalBE n := by
    rw [← Bytes.length_minimalBE, List.take_left]
  have hlong : ¬ (Bytes.minimalBE n ++ rest).length < Bytes.minimalWidth n := by
    rw [List.length_append, Bytes.length_minimalBE]
    omega
  have hcons : Bytes.minimalBE n ++ rest = b :: (tail ++ rest) := by rw [hbytes, List.cons_append]
  rw [hcons] at htake hlong
  rw [hcons, longExtent, if_neg hb, if_neg hlong, htake, Bytes.toNatBE_minimalBE]
  exact if_neg (by omega)

/-- The extent announced by a first byte, by the value of the byte. -/
theorem announcedExtent_cons (first : UInt8) (rest : Bytes) :
    announcedExtent (first :: rest) =
      if first.toNat < 128 then .ok ⟨0, 1⟩
      else if first.toNat < 184 then .ok ⟨1, first.toNat - 128⟩
      else if first.toNat < 192 then longExtent (first.toNat - 183) rest
      else if first.toNat < 248 then .ok ⟨1, first.toNat - 192⟩
      else longExtent (first.toNat - 247) rest := by
  simp only [announcedExtent, UInt8.lt_iff_toNat_lt]
  rfl

/-- A header announces a length that takes at most eight bytes. -/
theorem announcedExtent_header {base : Nat} (hbase : IsBase base) {n : Nat} (hn : n < 256 ^ 8)
    (rest : Bytes) :
    announcedExtent (header base n ++ rest) = .ok ⟨(header base n).length, n⟩ := by
  unfold header
  split
  · next hshort =>
    rw [List.singleton_append, announcedExtent_cons, UInt8.toNat_ofNat', List.length_singleton]
    rcases hbase with rfl | rfl
    · have hfirst : (0x80 + n) % 2 ^ 8 = 128 + n := by omega
      rw [hfirst, if_neg (by omega), if_pos (by omega), Nat.add_sub_cancel_left]
    · have hfirst : (0xc0 + n) % 2 ^ 8 = 192 + n := by omega
      rw [hfirst, if_neg (by omega), if_neg (by omega), if_neg (by omega), if_pos (by omega),
        Nat.add_sub_cancel_left]
  · next hlong =>
    have hwidth := Bytes.minimalWidth_le hn
    have hpositive : Bytes.minimalWidth n ≠ 0 := by
      intro hzero
      have hlt := Bytes.lt_pow_minimalWidth n
      rw [hzero] at hlt
      omega
    rw [List.cons_append, announcedExtent_cons, UInt8.toNat_ofNat', List.length_cons,
      Bytes.length_minimalBE, Nat.add_comm (Bytes.minimalWidth n) 1]
    rcases hbase with rfl | rfl
    · have hfirst : (0x80 + 55 + Bytes.minimalWidth n) % 2 ^ 8 = 183 + Bytes.minimalWidth n := by
        omega
      rw [hfirst, if_neg (by omega), if_neg (by omega), if_pos (by omega),
        Nat.add_sub_cancel_left, longExtent_minimalBE (by omega)]
    · have hfirst : (0xc0 + 55 + Bytes.minimalWidth n) % 2 ^ 8 = 247 + Bytes.minimalWidth n := by
        omega
      rw [hfirst, if_neg (by omega), if_neg (by omega), if_neg (by omega), if_neg (by omega),
        Nat.add_sub_cancel_left, longExtent_minimalBE (by omega)]

theorem announces_header {base : Nat} (hbase : IsBase base) {body : Bytes}
    (h : body.length < 256 ^ 8) : Announces (header base body.length) body :=
  fun rest => announcedExtent_header hbase h (body ++ rest)

/-- A byte string is written as itself behind a header, which is empty for a single low byte. -/
theorem exists_encodeBytes_eq {bytes : Bytes} (h : bytes.length < 256 ^ 8) :
    ∃ head, encodeBytes bytes = head ++ bytes ∧ Announces head bytes := by
  have hheader := announces_header (.inl rfl) h
  unfold encodeBytes
  split
  · next b =>
    split
    · next hlow =>
      refine ⟨[], rfl, fun rest => ?_⟩
      rw [List.nil_append, List.singleton_append, announcedExtent_cons]
      exact if_pos (UInt8.lt_iff_toNat_lt.mp hlow)
    · exact ⟨header 0x80 1, rfl, hheader⟩
  · exact ⟨header 0x80 bytes.length, rfl, hheader⟩

theorem exists_encodeList_eq {items : List Bytes} (h : items.flatten.length < 256 ^ 8) :
    ∃ head, encodeList items = head ++ items.flatten ∧ Announces head items.flatten :=
  ⟨header 0xc0 items.flatten.length, rfl, announces_header (.inr rfl) h⟩

/-! ## Items and what follows them -/

namespace Announces

variable {head body : Bytes}

theorem extent (h : Announces head body) (rest : Bytes) :
    extent (head ++ body ++ rest) = .ok ⟨head.length, body.length⟩ := by
  rw [List.append_assoc, Rlp.extent, h rest]
  refine if_pos ?_
  change head.length + body.length ≤ _
  rw [List.length_append, List.length_append]
  omega

/-- An item is split from what follows it. -/
theorem split (h : Announces head body) (rest : Bytes) :
    split (head ++ body ++ rest) = .ok (head ++ body, rest) := by
  rw [Rlp.split, h.extent]
  have htotal : (⟨head.length, body.length⟩ : Extent).total = (head ++ body).length :=
    List.length_append.symm
  simp only [htotal, List.take_left, List.drop_left]

/-- The body of an item is read back. -/
theorem body_eq (h : Announces head body) (rest : Bytes) :
    Rlp.body (head ++ body ++ rest) = .ok body := by
  rw [Rlp.body, h.extent]
  simp only [List.append_assoc, List.drop_left, List.take_left]

end Announces

theorem split_encodeBytes {bytes : Bytes} (h : bytes.length < 256 ^ 8) (rest : Bytes) :
    split (encodeBytes bytes ++ rest) = .ok (encodeBytes bytes, rest) := by
  obtain ⟨head, heq, hannounces⟩ := exists_encodeBytes_eq h
  rw [heq]
  exact hannounces.split rest

theorem body_encodeBytes {bytes : Bytes} (h : bytes.length < 256 ^ 8) (rest : Bytes) :
    body (encodeBytes bytes ++ rest) = .ok bytes := by
  obtain ⟨head, heq, hannounces⟩ := exists_encodeBytes_eq h
  rw [heq]
  exact hannounces.body_eq rest

theorem body_encodeList {items : List Bytes} (h : items.flatten.length < 256 ^ 8) (rest : Bytes) :
    body (encodeList items ++ rest) = .ok items.flatten := by
  obtain ⟨head, heq, hannounces⟩ := exists_encodeList_eq h
  rw [heq]
  exact hannounces.body_eq rest

/-- Byte strings are told apart by their items, whatever follows these. -/
theorem encodeBytes_append_inj {a b x y : Bytes} (ha : a.length < 256 ^ 8)
    (hb : b.length < 256 ^ 8) (h : encodeBytes a ++ x = encodeBytes b ++ y) : a = b ∧ x = y := by
  have hbody := body_encodeBytes ha x
  have hsplit := split_encodeBytes ha x
  rw [h, body_encodeBytes hb] at hbody
  rw [h, split_encodeBytes hb] at hsplit
  exact ⟨(Except.ok.inj hbody).symm, (congrArg Prod.snd (Except.ok.inj hsplit)).symm⟩

/-! ## Whole items -/

/-- A longer body has no shorter header. -/
theorem length_header_mono (base : Nat) {m n : Nat} (h : m ≤ n) :
    (header base m).length ≤ (header base n).length := by
  have hlength (k : Nat) :
      (header base k).length = if k ≤ 55 then 1 else 1 + Bytes.minimalWidth k := by
    unfold header
    split <;> simp [Nat.add_comm]
  have hwidth := Bytes.minimalWidth_mono h
  rw [hlength, hlength]
  split <;> split <;> omega

/-- Bodies of any length are told apart behind their headers: a longer one makes a longer item. -/
theorem header_append_inj {base : Nat} {a b : Bytes}
    (h : header base a.length ++ a = header base b.length ++ b) : a = b := by
  have htotal := congrArg List.length h
  rw [List.length_append, List.length_append] at htotal
  have hlength : a.length = b.length := by
    rcases Nat.lt_trichotomy a.length b.length with hless | heq | hmore
    · have hheader := length_header_mono base (Nat.le_of_lt hless)
      omega
    · exact heq
    · have hheader := length_header_mono base (Nat.le_of_lt hmore)
      omega
  rw [hlength] at h
  exact List.append_cancel_left h

/-- A single low byte stands for itself, and every other byte string stands behind a header. -/
theorem encodeBytes_cases (bytes : Bytes) :
    (∃ b, b < 0x80 ∧ bytes = [b] ∧ encodeBytes bytes = [b]) ∨
      encodeBytes bytes = header 0x80 bytes.length ++ bytes := by
  unfold encodeBytes
  split
  · next b =>
    split
    · next hlow => exact .inl ⟨b, hlow, rfl, rfl⟩
    · exact .inr rfl
  · exact .inr rfl

/-- What stands behind a header is no single low byte. -/
theorem header_append_ne_low {b : UInt8} (hb : b < 0x80) (bytes : Bytes) :
    header 0x80 bytes.length ++ bytes ≠ [b] := by
  intro h
  have hone : 1 ≤ (header 0x80 bytes.length).length := length_header_mono 0x80 (Nat.zero_le _)
  have htotal := congrArg List.length h
  rw [List.length_append, List.length_singleton] at htotal
  obtain rfl : bytes = [] := List.length_eq_zero_iff.mp (by omega)
  obtain rfl : 0x80 = b := List.head_eq_of_cons_eq h
  exact absurd hb (by decide)

/-- Byte strings of any length are told apart by their items. -/
theorem encodeBytes_injective : Function.Injective encodeBytes := by
  intro a b h
  rcases encodeBytes_cases a with ⟨x, hx, rfl, ha⟩ | ha <;>
    rcases encodeBytes_cases b with ⟨y, hy, rfl, hb⟩ | hb <;> rw [ha, hb] at h
  · exact h
  · exact absurd h.symm (header_append_ne_low hx b)
  · exact absurd h (header_append_ne_low hy a)
  · exact header_append_inj h

/-- Lists of any length are told apart by the items in them, one after another. -/
theorem encodeList_inj {xs ys : List Bytes} (h : encodeList xs = encodeList ys) :
    xs.flatten = ys.flatten := header_append_inj h

/-! ## Numbers -/

/-- Numbers of a limited width are told apart by their items, whatever follows these. -/
theorem encodeNat_append_inj {m n width : Nat} {x y : Bytes} (hwidth : width < 256 ^ 8)
    (hm : m < 256 ^ width) (hn : n < 256 ^ width) (h : encodeNat m ++ x = encodeNat n ++ y) :
    m = n ∧ x = y := by
  have hroom {k : Nat} (hk : k < 256 ^ width) : (Bytes.minimalBE k).length < 256 ^ 8 := by
    rw [Bytes.length_minimalBE]
    exact Nat.lt_of_le_of_lt (Bytes.minimalWidth_le hk) hwidth
  obtain ⟨hbytes, hrest⟩ := encodeBytes_append_inj (hroom hm) (hroom hn) h
  exact ⟨Bytes.minimalBE_injective hbytes, hrest⟩

theorem encodeWord_append_inj {a b : UInt64} {x y : Bytes}
    (h : encodeNat a.toNat ++ x = encodeNat b.toNat ++ y) : a = b ∧ x = y := by
  have hroom (n : UInt64) : n.toNat < 256 ^ 8 := n.toNat_lt
  obtain ⟨hvalue, hrest⟩ := encodeNat_append_inj (by decide) (hroom a) (hroom b) h
  exact ⟨UInt64.toNat_inj.mp hvalue, hrest⟩

/-! ## Byte strings of one length -/

theorem encodeFixed_append_inj {n : Nat} (hn : n < 256 ^ 8) {a b : FixedBytes n} {x y : Bytes}
    (h : encodeBytes a.toBytes ++ x = encodeBytes b.toBytes ++ y) : a = b ∧ x = y := by
  have hroom (c : FixedBytes n) : c.toBytes.length < 256 ^ 8 := by rwa [c.length_toBytes]
  obtain ⟨hbytes, hrest⟩ := encodeBytes_append_inj (hroom a) (hroom b) h
  exact ⟨FixedBytes.ext hbytes, hrest⟩

/-- The length of an item follows from that of the byte string, but for single bytes. -/
theorem length_encodeFixed {n : Nat} (hn : n ≠ 1) (a : FixedBytes n) :
    (encodeBytes a.toBytes).length = (header 0x80 n).length + n := by
  rcases encodeBytes_cases a.toBytes with ⟨b, -, hsingle, -⟩ | hheader
  · exact absurd (a.length_toBytes.symm.trans (congrArg List.length hsingle)) hn
  · rw [hheader, List.length_append, a.length_toBytes]

end Rlp

end BridgeKernel
