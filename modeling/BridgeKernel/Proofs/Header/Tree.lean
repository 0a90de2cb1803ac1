import BridgeKernel.Proofs.Header.Sync

/-!
# The tree of trusted headers

Below every trusted header but the genesis stands its parent, one height lower, and difficulties add
up along the way. Heights stay below the largest word, so neither heights nor weights ever wrap.
Storing a verified header extends the tree and changes nothing in it.
-/

namespace BridgeKernel

/-- A height that has a successor. -/
def Header.Low (h : Header) : Prop := h.number.toNat + 1 < 2 ^ 64

namespace ChainMemory

/-- The headers of a chain form a tree on its genesis. -/
structure Tree (m : ChainMemory) (record : GenesisRecord) : Prop where
  /-- Headers are kept under their digests. -/
  named : ∀ {hash H}, m.header? hash = some H → H.hash = hash
  /-- The genesis is there. -/
  root : ∃ G, m.header? record.hash = some G ∧ G.number = record.number
  /-- Every other header has a parent, whose weight it adds to. -/
  parent : ∀ {hash H}, m.header? hash = some H → hash ≠ record.hash →
    ∃ P, m.header? H.parentHash = some P ∧ P.number.toNat + 1 = H.number.toNat ∧
      H.weight.toNat = P.weight.toNat + H.header.difficulty.toNat
  /-- No header is below the genesis. -/
  above : ∀ {hash H}, m.header? hash = some H → record.number.toNat ≤ H.number.toNat
  /-- Every height has a successor. -/
  low : ∀ {hash H}, m.header? hash = some H → H.header.Low
  /-- Weights grow by at most two for each height. -/
  light : ∀ {hash H}, m.header? hash = some H → H.weight.toNat ≤ 2 ^ 64 + 2 * H.number.toNat

/-- A memory in which the chain has not begun. -/
structure Blank (m : ChainMemory) : Prop where
  /-- There is no genesis. -/
  genesis : m.genesis? = none
  /-- There are no headers. -/
  header : ∀ hash, m.header? hash = none
  /-- There are no markers. -/
  canonical : ∀ level, m.canonical? level = none

/-- The weight of a child does not wrap. -/
theorem weight_add {P : TrustedHeader} {d : UInt64}
    (hlight : P.weight.toNat ≤ 2 ^ 64 + 2 * P.number.toNat) (hd : d.toNat ≤ 2) :
    (P.weight + BitVec.ofNat 128 d.toNat).toNat = P.weight.toNat + d.toNat := by
  have hp := P.number.toNat_lt
  rw [BitVec.toNat_add, BitVec.toNat_ofNat]
  omega

namespace Tree

variable {m : ChainMemory} {record : GenesisRecord} {T P : TrustedHeader}

/-- The tree depends on the headers only. -/
theorem congr {m' : ChainMemory} (hm : m'.header? = m.header?) (h : m.Tree record) :
    m'.Tree record := by
  obtain ⟨hnamed, hroot, hparent, habove, hlow, hlight⟩ := h
  refine ⟨?_, ?_, ?_, ?_, ?_, ?_⟩
  all_goals
    rw [hm]
    assumption

/-- A child of a trusted header extends the tree. -/
theorem setHeader (h : m.Tree record) (fresh : m.header? T.hash = none)
    (hstored : m.header? T.parentHash = some P) (hnumber : P.number.toNat + 1 = T.number.toNat)
    (hlow : T.header.Low) (hd : T.header.difficulty.toNat ≤ 2)
    (hweight : T.weight = P.weight + BitVec.ofNat 128 T.header.difficulty.toNat) :
    (m.setHeader T).Tree record := by
  have hadd : T.weight.toNat = P.weight.toNat + T.header.difficulty.toNat := by
    rw [hweight, weight_add (h.light hstored) hd]
  have cases {hash : Hash} {H : TrustedHeader} (hH : (m.setHeader T).header? hash = some H) :
      hash = T.hash ∧ H = T ∨ m.header? hash = some H := by
    rw [setHeader_header?] at hH
    split at hH
    · next he => exact .inl ⟨he, (Option.some.inj hH).symm⟩
    · exact .inr hH
  refine ⟨fun hH => ?_, ?_, fun hH hne => ?_, fun hH => ?_, fun hH => ?_, fun hH => ?_⟩
  · rcases cases hH with ⟨rfl, rfl⟩ | hH
    · rfl
    · exact h.named hH
  · obtain ⟨G, hG, hn⟩ := h.root
    exact ⟨G, setHeader_of_some fresh hG, hn⟩
  · rcases cases hH with ⟨rfl, rfl⟩ | hH
    · exact ⟨P, setHeader_of_some fresh hstored, hnumber, hadd⟩
    · obtain ⟨Q, hQ, hn, hw⟩ := h.parent hH hne
      exact ⟨Q, setHeader_of_some fresh hQ, hn, hw⟩
  · rcases cases hH with ⟨rfl, rfl⟩ | hH
    · have hp := h.above hstored
      omega
    · exact h.above hH
  · rcases cases hH with ⟨rfl, rfl⟩ | hH
    · exact hlow
    · exact h.low hH
  · rcases cases hH with ⟨rfl, rfl⟩ | hH
    · have hp := h.light hstored
      omega
    · exact h.light hH

/-- A header at the height of the genesis is the genesis. -/
theorem hash_eq_of_number {hash : Hash} {H : TrustedHeader} (h : m.Tree record)
    (hH : m.header? hash = some H) (hn : H.number = record.number) : hash = record.hash := by
  by_contra hne
  obtain ⟨P, hP, hnumber, -⟩ := h.parent hH hne
  have hp := h.above hP
  rw [hn] at hnumber
  omega

/-- A header on a blank memory is a tree by itself. -/
theorem of_blank (h : m.Blank) (hash : T.hash = record.hash) (hn : T.number = record.number)
    (hlow : T.header.Low) (hlight : T.weight.toNat ≤ 2 ^ 64) : (m.setHeader T).Tree record := by
  have only {hash : Hash} {H : TrustedHeader} (hH : (m.setHeader T).header? hash = some H) :
      hash = T.hash ∧ H = T := by
    rw [setHeader_header?] at hH
    split at hH
    · next he => exact ⟨he, (Option.some.inj hH).symm⟩
    · exact nomatch (h.header _).symm.trans hH
  refine ⟨fun hH => ?_, ⟨T, ?_, hn⟩, fun hH hne => ?_, fun hH => ?_, fun hH => ?_, fun hH => ?_⟩
  · obtain ⟨rfl, rfl⟩ := only hH
    rfl
  · rw [setHeader_header?, if_pos hash.symm]
  · obtain ⟨rfl, rfl⟩ := only hH
    exact absurd hash hne
  · obtain ⟨rfl, rfl⟩ := only hH
    exact Nat.le_of_eq (congrArg UInt64.toNat hn).symm
  · obtain ⟨rfl, rfl⟩ := only hH
    exact hlow
  · obtain ⟨rfl, rfl⟩ := only hH
    omega

end Tree

end ChainMemory

end BridgeKernel
