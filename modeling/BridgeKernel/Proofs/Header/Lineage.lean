import BridgeKernel.Proofs.Header.ExtraData
import BridgeKernel.Proofs.Header.Tree

/-!
# The line of ancestors of a header

From every trusted header a line of ancestors goes down to the genesis. The walks that verify a new
header follow the line of its parent: one collects the validator sets that are announced on it, and
the other looks at the signers of its first headers. So an accepted header keeps the rules with
regard to its own ancestors, and as nothing on the line is ever written again, it always will.
-/

namespace BridgeKernel

open Transition

namespace ChainMemory

variable {m m' : ChainMemory} {record : GenesisRecord} {H : TrustedHeader}
  {line : List TrustedHeader}

/-! ## Lines -/

/-- A header and its ancestors, nearest first, down to the genesis. -/
inductive Lineage (m : ChainMemory) (record : GenesisRecord) :
    TrustedHeader → List TrustedHeader → Prop
  | root {G : TrustedHeader} (stored : m.header? record.hash = some G)
    (hash : G.hash = record.hash) : Lineage m record G [G]
  | child {H P : TrustedHeader} {line : List TrustedHeader} (stored : m.header? H.hash = some H)
    (other : H.hash ≠ record.hash) (parent : m.header? H.parentHash = some P)
    (number : P.number.toNat + 1 = H.number.toNat) (below : Lineage m record P line) :
    Lineage m record H (H :: line)

/-- In a tree every header has its line. -/
theorem Tree.lineage {hash : Hash} (ht : m.Tree record) (hH : m.header? hash = some H) :
    ∃ line, m.Lineage record H line := by
  generalize hn : H.number.toNat = n
  induction n using Nat.strongRecOn generalizing hash H with
  | ind n ih =>
    have hname := ht.named hH
    by_cases hroot : hash = record.hash
    · rw [hroot] at hH hname
      exact ⟨[H], .root hH hname⟩
    · obtain ⟨P, hP, hnumber, -⟩ := ht.parent hH hroot
      obtain ⟨line, hline⟩ := ih P.number.toNat (by omega) hP rfl
      rw [← hname] at hH hroot
      exact ⟨H :: line, .child hH hroot hP hnumber hline⟩

namespace Lineage

theorem ne_nil (h : m.Lineage record H line) : line ≠ [] := by
  cases h with
  | root => exact List.cons_ne_nil _ _
  | child => exact List.cons_ne_nil _ _

/-- Every header of a line is stored. -/
theorem stored_of_mem (h : m.Lineage record H line) {A : TrustedHeader} (hA : A ∈ line) :
    ∃ hash, m.header? hash = some A := by
  induction h with
  | root stored =>
    rw [List.mem_singleton.mp hA]
    exact ⟨_, stored⟩
  | child stored _ _ _ _ ih =>
    rcases List.mem_cons.mp hA with rfl | hA
    · exact ⟨_, stored⟩
    · exact ih hA

/-- The first header of a line is its highest. -/
theorem number_le (h : m.Lineage record H line) {A : TrustedHeader} (hA : A ∈ line) :
    A.number.toNat ≤ H.number.toNat := by
  induction h with
  | root =>
    obtain rfl := List.mem_singleton.mp hA
    exact Nat.le_refl _
  | child _ _ _ number _ ih =>
    rcases List.mem_cons.mp hA with rfl | hA
    · exact Nat.le_refl _
    · have hbelow := ih hA
      omega

/-- A line has no more headers than there are heights up to its first one. -/
theorem length_le (h : m.Lineage record H line) : line.length ≤ H.number.toNat + 1 := by
  induction h with
  | root => exact Nat.succ_le_succ (Nat.zero_le _)
  | child _ _ _ number _ ih =>
    rw [List.length_cons]
    omega

end Lineage

/-! ## Sets that a line announces -/

/-- The validator set that a header announces, at a boundary. -/
def announced? (config : HeaderSyncConfig) (H : TrustedHeader) : Option ValidatorEpoch :=
  if config.isBoundary H.number then some ⟨H.number, H.header.validators?.getD []⟩ else none

/-- The sets that a line announces, latest first. Those of the genesis are known from governance. -/
def announced (config : HeaderSyncConfig) (g : GenesisEpochs) (line : List TrustedHeader) :
    List ValidatorEpoch :=
  line.dropLast.filterMap (announced? config) ++ [g.current, g.prior]

theorem announced_cons (config : HeaderSyncConfig) (g : GenesisEpochs) (H : TrustedHeader)
    (h : line ≠ []) : announced config g (H :: line) =
      (announced? config H).toList ++ announced config g line := by
  rw [announced, List.dropLast_cons_of_ne_nil h, List.filterMap_cons]
  cases announced? config H <;> rfl

end ChainMemory

namespace ChainView

open ChainMemory

variable {chain : ChainId} {s t u : State} {config : HeaderSyncConfig} {g : GenesisEpochs}
  {record : GenesisRecord} {target : UInt64} {newer? : Option ValidatorEpoch}
  {cursor : TrustedHeader} {line : List TrustedHeader}

/-- Above the genesis a visit adds what the header announces, and ends with the second set. -/
theorem visit_ok {visited : EpochPair ⊕ Option ValidatorEpoch} (hne : cursor.hash ≠ g.hash)
    (h : visit config g target newer? cursor = .ok visited) :
    (∃ newer older, visited = .inl ⟨older, newer⟩ ∧
      newer?.toList ++ (announced? config cursor).toList = [newer, older]) ∨
    ∃ found, visited = .inr found ∧
      newer?.toList ++ (announced? config cursor).toList = found.toList := by
  unfold visit at h
  rw [if_neg hne] at h
  unfold announced?
  split at h
  · next hboundary =>
    rw [if_pos hboundary]
    split at h
    · cases h
    · cases h
    · next validators _ hvalidators =>
      rw [hvalidators]
      cases newer? with
      | none =>
        cases h
        exact .inr ⟨_, rfl, rfl⟩
      | some newer =>
        cases h
        exact .inl ⟨_, _, rfl, rfl⟩
  · next hboundary =>
    cases h
    rw [if_neg hboundary]
    exact .inr ⟨newer?, rfl, List.append_nil _⟩

/-- The search finds the two sets that were announced last. -/
theorem findEpochs_ok {m : ChainMemory} (hl : m.Lineage record cursor line)
    (hg : g.hash = record.hash) (hm : t.memory chain = m) {fuel : Nat} {pair : EpochPair}
    (h : (ofStore chain s).findEpochs config g target fuel newer? cursor t = (.ok pair, u)) :
    ∃ rest, newer?.toList ++ announced config g line = pair.newer :: pair.older :: rest := by
  induction hl generalizing fuel newer? t with
  | root stored hash =>
    cases fuel with
    | zero => exact (throw_ok h).elim
    | succ fuel =>
      obtain ⟨visited, v, hcheck, h⟩ := bind_ok h
      obtain ⟨hvisit, rfl⟩ := ofExcept_ok hcheck
      unfold visit at hvisit
      rw [if_pos (hash.trans hg.symm)] at hvisit
      cases newer? with
      | none =>
        cases hvisit
        obtain ⟨rfl, -⟩ := pure_ok h
        exact ⟨[], rfl⟩
      | some newer =>
        cases hvisit
        obtain ⟨rfl, -⟩ := pure_ok h
        exact ⟨[g.prior], rfl⟩
  | @child H P line stored other parent number below ih =>
    cases fuel with
    | zero => exact (throw_ok h).elim
    | succ fuel =>
      obtain ⟨visited, v, hcheck, h⟩ := bind_ok h
      obtain ⟨hvisit, rfl⟩ := ofExcept_ok hcheck
      have hne : H.hash ≠ g.hash := by rwa [hg]
      rw [announced_cons config g H below.ne_nil, ← List.append_assoc]
      rcases visit_ok hne hvisit with ⟨newer, older, rfl, hfound⟩ | ⟨found, rfl, hfound⟩
      · obtain ⟨rfl, -⟩ := pure_ok h
        rw [hfound]
        exact ⟨_, rfl⟩
      · obtain ⟨parent?, w, hload, h⟩ := bind_ok h
        obtain ⟨rfl, hw⟩ := header?_ok hload
        rw [hm, parent] at h
        rw [hfound]
        exact ih ((hw.memory_eq chain).trans hm) h

/-- A walk that goes past a header is out of the window, or the header is another signer's and the
walk goes past its parent. -/
theorem walkRecent_succ_ok {number window : UInt64} {signer : Address} {fuel : Nat}
    (h : (ofStore chain s).walkRecent number signer window (fuel + 1) cursor t = (.ok (), u)) :
    window < number - cursor.number ∨ cursor.signer ≠ signer ∧
      ∀ parent, (t.memory chain).header? cursor.parentHash = some parent → ∃ v, t.Untouched v ∧
        (ofStore chain s).walkRecent number signer window fuel parent v = (.ok (), u) := by
  unfold walkRecent at h
  split at h
  · next hwindow => exact .inl hwindow
  · obtain ⟨hsigner, h⟩ := guard_ok h
    refine .inr ⟨hsigner, fun parent hparent => ?_⟩
    obtain ⟨parent?, v, hload, h⟩ := bind_ok h
    obtain ⟨rfl, hv⟩ := header?_ok hload
    rw [hparent] at h
    exact ⟨v, hv, h⟩

/-- The walk has seen all headers of the line within the window, and none of the signer. -/
theorem walkRecent_ok {m : ChainMemory} {number window : UInt64} {signer : Address}
    (hl : m.Lineage record cursor line) (hm : t.memory chain = m) {fuel : Nat}
    (hfuel : line.length ≤ fuel) (hn : cursor.number.toNat ≤ number.toNat)
    (h : (ofStore chain s).walkRecent number signer window fuel cursor t = (.ok (), u)) :
    ∀ A ∈ line, number.toNat - A.number.toNat ≤ window.toNat → A.signer ≠ signer := by
  induction hl generalizing fuel t with
  | @root G stored hash =>
    intro A hA hwindow
    obtain rfl := List.mem_singleton.mp hA
    cases fuel with
    | zero => exact absurd hfuel (Nat.not_succ_le_zero 0)
    | succ fuel =>
      rcases walkRecent_succ_ok h with hout | ⟨hother, -⟩
      · have hsub := UInt64.toNat_sub_of_le _ _ (UInt64.le_iff_toNat_le.mpr hn)
        rw [UInt64.lt_iff_toNat_lt, hsub] at hout
        omega
      · exact hother
  | @child H P line stored other parent below hline ih =>
    intro A hA hwindow
    cases fuel with
    | zero => exact absurd hfuel (Nat.not_succ_le_zero _)
    | succ fuel =>
      rcases walkRecent_succ_ok h with hout | ⟨hother, hrest⟩
      · have hsub := UInt64.toNat_sub_of_le _ _ (UInt64.le_iff_toNat_le.mpr hn)
        have hbelow := (Lineage.child stored other parent below hline).number_le hA
        rw [UInt64.lt_iff_toNat_lt, hsub] at hout
        omega
      · rcases List.mem_cons.mp hA with rfl | hA
        · exact hother
        · obtain ⟨v, hv, hwalk⟩ := hrest P (by rwa [hm])
          have hlength : line.length ≤ fuel := Nat.le_of_succ_le_succ hfuel
          exact ih ((hv.memory_eq chain).trans hm) hlength (by omega) hwalk A hA hwindow

end ChainView

/-! ## Sizes of sets -/

/-- Every set that a line announces has a size that is a word. -/
theorem State.WellFormed.size_lt {s : State} {chain : ChainId} {config : HeaderSyncConfig}
    {record : GenesisRecord} {g : GenesisEpochs} {H : TrustedHeader} {line : List TrustedHeader}
    (hs : s.WellFormed) (hg : (s.memory chain).Began record g)
    (hl : (s.memory chain).Lineage record H line) {e : ValidatorEpoch}
    (he : e ∈ ChainMemory.announced config g line) : e.size < 2 ^ 64 := by
  have hepoch {e : ValidatorEpoch} (hf : Record.fits e = true) : e.size < 2 ^ 64 :=
    of_decide_eq_true (Bool.and_eq_true_iff.mp hf).1
  rcases List.mem_append.mp he with he | he
  · obtain ⟨A, hA, hannounced⟩ := List.mem_filterMap.mp he
    obtain ⟨hash, hstored⟩ := hl.stored_of_mem (List.dropLast_subset line hA)
    have hf : Record.fits A.header.extra = true := hs.header_fits hstored
    have hlength : A.header.extra.length < 2 ^ 64 :=
      of_decide_eq_true (Bool.and_eq_true_iff.mp hf).1
    unfold ChainMemory.announced? at hannounced
    split at hannounced
    · cases hannounced
      exact Nat.lt_of_le_of_lt A.header.length_validators_le hlength
    · cases hannounced
  · rcases List.mem_cons.mp he with rfl | he
    · exact hepoch (hs.epoch_fits hg.current)
    · rw [List.mem_singleton.mp he]
      exact hepoch (hs.epoch_fits hg.prior)

end BridgeKernel
