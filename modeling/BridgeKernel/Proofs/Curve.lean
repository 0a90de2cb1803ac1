import BridgeKernel.Curve.Ecdsa
import Mathlib.Data.List.Dedup
import Mathlib.Data.List.Perm.Subperm

/-!
# Keys and the points that they spell

A key is kept in the bytes that it was read from, and a point with an even second coordinate has two
spellings, with tag 2 and with the compact tag 5. Reading the compact tag as 2 gives each point one
spelling, so that points can be told apart by bytes.
-/

namespace BridgeKernel

namespace Bytes

/-- Numbers of one width are written differently when they are different. -/
theorem toNatLE_inj {a b : Bytes} (hlength : a.length = b.length)
    (h : toNatLE a = toNatLE b) : a = b := by
  induction a generalizing b with
  | nil => exact (List.eq_nil_of_length_eq_zero hlength.symm).symm
  | cons x a ih =>
    match b, hlength with
    | y :: b, hlength =>
      rw [toNatLE, toNatLE] at h
      have hx := x.toNat_lt
      have hy := y.toNat_lt
      have hfirst : x = y := UInt8.toNat_inj.mp (by omega)
      have hrest : toNatLE a = toNatLE b := by omega
      rw [hfirst, ih (Nat.succ.inj hlength) hrest]

theorem toNatBE_inj {a b : Bytes} (hlength : a.length = b.length)
    (h : toNatBE a = toNatBE b) : a = b := by
  refine List.reverse_inj.mp (toNatLE_inj ?_ h)
  rw [List.length_reverse, List.length_reverse, hlength]

end Bytes

/-- A list without repetition is no longer than one with its elements has different ones. -/
theorem length_le_length_dedup {α : Type} [DecidableEq α] {part whole : List α}
    (hnodup : part.Nodup) (hsubset : part ⊆ whole) : part.length ≤ whole.dedup.length :=
  (List.subperm_of_subset hnodup fun _ ha => List.mem_dedup.mpr (hsubset ha)).length_le

namespace Secp256k1

theorem powMod_lt {m : Nat} (hm : 1 < m) (base exponent : Nat) : powMod m base exponent < m := by
  have hfold : ∀ (steps : List Bool) (acc : Nat), acc < m →
      steps.foldl (fun acc bit =>
        let square := acc * acc % m; if bit then square * base % m else square) acc < m := by
    intro steps
    induction steps with
    | nil => exact fun _ hacc => hacc
    | cons bit steps ih =>
      intro acc _
      refine ih _ ?_
      cases bit <;> exact Nat.mod_lt _ (by omega)
  exact hfold _ 1 hm

/-- The difference from the field order has the other parity. -/
theorem parity_sub {root : Nat} (h : root < fieldOrder) :
    ((fieldOrder - root) % 2 == 1) = !(root % 2 == 1) := by
  have hodd : fieldOrder % 2 = 1 := by decide
  rcases Nat.mod_two_eq_zero_or_one root with hroot | hroot
  · have hother : (fieldOrder - root) % 2 = 1 := by omega
    rw [hroot, hother]
    rfl
  · have hother : (fieldOrder - root) % 2 = 0 := by omega
    rw [hroot, hother]
    rfl

/-- A lifted point has the first coordinate and the parity that were asked for. -/
theorem lift?_eq_some {x : Nat} {odd : Bool} {p : Point} (h : lift? x odd = some p) :
    ∃ y, p = .affine x y ∧ (y % 2 == 1) = odd := by
  unfold lift? at h
  split at h
  · dsimp only at h
    split at h
    · refine ⟨_, (Option.some.inj h).symm, ?_⟩
      have hroot : powMod fieldOrder (curveRhs x) ((fieldOrder + 1) / 4) < fieldOrder :=
        powMod_lt (by decide) _ _
      generalize powMod fieldOrder (curveRhs x) ((fieldOrder + 1) / 4) = root at hroot
      cases hparity : (root % 2 == 1) == odd with
      | true => exact eq_of_beq hparity
      | false =>
        change ((fieldOrder - root) % 2 == 1) = odd
        rw [parity_sub hroot]
        cases odd <;> simpa using hparity
    · cases h
  · cases h

theorem lift?_inj {x x' : Nat} {odd odd' : Bool} {p : Point} (h : lift? x odd = some p)
    (h' : lift? x' odd' = some p) : x = x' ∧ odd = odd' := by
  obtain ⟨y, rfl, rfl⟩ := lift?_eq_some h
  obtain ⟨y', hp, rfl⟩ := lift?_eq_some h'
  cases hp
  exact ⟨rfl, rfl⟩

end Secp256k1

namespace PublicKey

open Secp256k1

/-- The bytes of a key with the compact tag read as tag 2. -/
def canonical (key : PublicKey) : Bytes :=
  match key.bytes.toBytes with
  | 5 :: x => 2 :: x
  | other => other

/-- The canonical bytes of a key give the coordinate and the parity that its point is lifted from. -/
theorem canonical_spells (key : PublicKey) : ∃ x odd,
    key.canonical = (if odd then 3 else 2) :: x ∧ x.length = 32 ∧
      lift? (Bytes.toNatBE x) odd = some key.point := by
  have hpoint : decodeCompressed? key.bytes = some key.point := (Option.some_get key.readable).symm
  have hlength := key.bytes.length_toBytes
  unfold decodeCompressed? at hpoint
  split at hpoint
  · next x htag =>
    rw [htag] at hlength
    exact ⟨x, false, by rw [canonical, htag]; rfl, Nat.succ.inj hlength, hpoint⟩
  · next x htag =>
    rw [htag] at hlength
    exact ⟨x, true, by rw [canonical, htag]; rfl, Nat.succ.inj hlength, hpoint⟩
  · next x htag =>
    rw [htag] at hlength
    exact ⟨x, false, by rw [canonical, htag]; rfl, Nat.succ.inj hlength, hpoint⟩
  · cases hpoint

/-- Keys spell one point exactly when their canonical bytes are the same. -/
theorem point_eq_iff {a b : PublicKey} : a.point = b.point ↔ a.canonical = b.canonical := by
  obtain ⟨x, odd, hbytes, hlength, hlift⟩ := a.canonical_spells
  obtain ⟨x', odd', hbytes', hlength', hlift'⟩ := b.canonical_spells
  constructor
  · intro h
    rw [h] at hlift
    obtain ⟨hx, rfl⟩ := lift?_inj hlift hlift'
    rw [hbytes, hbytes', Bytes.toNatBE_inj (hlength.trans hlength'.symm) hx]
  · intro h
    rw [hbytes, hbytes', List.cons.injEq] at h
    obtain ⟨htag, rfl⟩ := h
    obtain rfl : odd = odd' := by
      cases odd <;> cases odd' <;> first | rfl | cases htag
    exact Option.some.inj (hlift.symm.trans hlift')

/-- Whether a key is spelled with the compact tag. -/
def isCompact (key : PublicKey) : Bool := key.bytes.toBytes.head? == some 5

/-- The bytes of a key, given by its canonical ones and its tag. -/
theorem bytes_eq (key : PublicKey) : key.bytes.toBytes =
    if key.isCompact then 5 :: key.canonical.tail else key.canonical := by
  split
  · next hcompact =>
    obtain ⟨x, hx⟩ := List.head?_eq_some_iff.mp (eq_of_beq hcompact)
    rw [canonical, hx]
    rfl
  · next hother =>
    unfold canonical
    split
    · next x htag =>
      rw [isCompact, htag] at hother
      exact absurd rfl hother
    · rfl

/-- Keys that are both spelled with the compact tag, or both without, are the same when their
canonical bytes are. -/
theorem eq_of_canonical {a b : PublicKey} (hkind : a.isCompact = b.isCompact)
    (h : a.canonical = b.canonical) : a = b := by
  have hbytes : a.bytes = b.bytes := by
    refine FixedBytes.ext ?_
    rw [a.bytes_eq, b.bytes_eq, hkind, h]
  obtain ⟨bytes, _⟩ := a
  obtain ⟨bytes', _⟩ := b
  obtain rfl : bytes = bytes' := hbytes
  rfl

theorem ofBytes_ok {bytes : Bytes} {key : PublicKey} (h : ofBytes bytes = .ok key) :
    key.bytes.toBytes = bytes := by
  unfold ofBytes at h
  split at h
  · cases h
  · next b hb =>
    split at h
    · cases h
      exact FixedBytes.ofBytes?_eq_some_iff.mp hb
    · cases h

/-! ## Many keys -/

/-- Different keys that do not mix the compact tag with the others differ in canonical bytes. -/
theorem length_le_of_canonical {keys part : List PublicKey} (hpart : part.Sublist keys)
    (hnodup : keys.Nodup)
    (hinj : ∀ a ∈ part, ∀ b ∈ part, a.canonical = b.canonical → a = b) :
    part.length ≤ (keys.map canonical).dedup.length := by
  have hdifferent : (part.map canonical).Nodup :=
    List.Nodup.map_on hinj (hpart.nodup hnodup)
  have hle := length_le_length_dedup hdifferent (hpart.map canonical).subset
  rwa [List.length_map] at hle

/-- Canonical bytes are shared by two keys at most, one of them with the compact tag. -/
theorem length_le_two_mul {keys : List PublicKey} (hnodup : keys.Nodup) :
    keys.length ≤ 2 * (keys.map canonical).dedup.length := by
  have hpart (p : PublicKey → Bool)
      (hp : ∀ a b, p a = true → p b = true → a.isCompact = b.isCompact) :
      (keys.filter p).length ≤ (keys.map canonical).dedup.length :=
    length_le_of_canonical List.filter_sublist hnodup fun a ha b hb =>
      eq_of_canonical (hp a b (List.mem_filter.mp ha).2 (List.mem_filter.mp hb).2)
  have hcompact := hpart (·.isCompact) fun a b ha hb => ha.trans hb.symm
  have hother := hpart (!·.isCompact) fun a b ha hb => Bool.not_inj (ha.trans hb.symm)
  have hsplit := List.length_eq_length_filter_add (l := keys) (·.isCompact)
  omega

end PublicKey

end BridgeKernel
