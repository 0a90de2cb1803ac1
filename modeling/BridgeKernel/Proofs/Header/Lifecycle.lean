import BridgeKernel.Proofs.Header.Reports
import BridgeKernel.Proofs.Store.Calm

/-!
# How far a chain has come

A chain waits for its genesis, has its genesis alone, or has other headers besides, and the status
tells which, though it looks at the canonical height only. For every header above the genesis is
heavier than it, and the tip is heaviest, so the tip stands above the genesis as soon as any other
header is stored, on the canonical chain or beside it. What is stored stays, so a chain never falls
back.
-/

namespace BridgeKernel

open Transition

/-- The place of a status among those that a chain goes through. -/
def LightClientStatus.rank : LightClientStatus → Nat
  | .uninitialized => 0
  | .genesisSet => 1
  | .synced => 2

theorem LightClientStatus.rank_injective : Function.Injective rank := by
  intro a b h
  cases a <;> cases b <;> cases h <;> rfl

namespace ChainMemory

/-- How far a chain has come, by the headers that are stored. -/
def AtStage (m : ChainMemory) : LightClientStatus → Prop
  | .uninitialized => m.genesis? = none
  | .genesisSet => ∃ record, m.genesis? = some record ∧
    ∀ hash, (m.header? hash).isSome = true ↔ hash = record.hash
  | .synced => ∃ record, m.genesis? = some record ∧
    ∃ hash, (m.header? hash).isSome = true ∧ hash ≠ record.hash

/-- How far a chain has come, by its genesis and its canonical height. -/
def status (m : ChainMemory) : LightClientStatus :=
  match m.genesis?, m.height? with
  | none, _ => .uninitialized
  | some _, none => .genesisSet
  | some record, some level => if record.number < level then .synced else .genesisSet

variable {m m' : ChainMemory} {record : GenesisRecord} {tip G H : TrustedHeader} {hash : Hash}
  {stage stage' : LightClientStatus}

namespace AtStage

/-- A chain that holds no less since it has begun is no less far. -/
theorem rank_le (h : m.AtStage stage) (h' : m'.AtStage stage')
    (hm : ∀ record, m.genesis? = some record → m.Extends m') : stage.rank ≤ stage'.rank := by
  cases stage with
  | uninitialized => exact Nat.zero_le _
  | genesisSet =>
    obtain ⟨record, hbegun, -⟩ := h
    cases stage' with
    | uninitialized => exact nomatch h'.symm.trans ((hm record hbegun).genesis hbegun)
    | genesisSet => exact Nat.le_refl _
    | synced => exact Nat.le_succ _
  | synced =>
    obtain ⟨record, hbegun, hash, hstored, hne⟩ := h
    cases stage' with
    | uninitialized => exact nomatch h'.symm.trans ((hm record hbegun).genesis hbegun)
    | genesisSet =>
      obtain ⟨record', hbegun', honly⟩ := h'
      cases ((hm record hbegun).genesis hbegun).symm.trans hbegun'
      obtain ⟨H, hH⟩ := Option.isSome_iff_exists.mp hstored
      exact absurd ((honly hash).mp (Option.isSome_iff_exists.mpr ⟨H, (hm record hbegun).header hH⟩)) hne
    | synced => exact Nat.le_refl _

/-- A chain is at one stage. -/
theorem unique (h : m.AtStage stage) (h' : m.AtStage stage') : stage = stage' := by
  have hle := h.rank_le h' fun _ _ => .refl m
  have hge := h'.rank_le h fun _ _ => .refl m
  exact LightClientStatus.rank_injective (Nat.le_antisymm hle hge)

end AtStage

/-- Every header above the genesis is heavier than it. -/
theorem Tree.genesis_lighter (ht : m.Tree record) (hbegun : m.genesis? = some record)
    (hrising : m.Rising) (hG : m.header? record.hash = some G) (hH : m.header? hash = some H)
    (hne : hash ≠ record.hash) : G.weight.toNat < H.weight.toNat := by
  induction hn : H.number.toNat using Nat.strongRecOn generalizing hash H with
  | ind n ih =>
    have hpositive := hrising record hbegun hash H hH hne
    obtain ⟨P, hP, hnumber, hweight⟩ := ht.parent hH hne
    by_cases hfirst : H.parentHash = record.hash
    · rw [hfirst, hG] at hP
      cases hP
      omega
    · have hlight := ih P.number.toNat (by omega) hP hfirst rfl
      omega

/-- The canonical height is above the genesis exactly when another header is stored. -/
theorem Canonical.number_lt_iff (hc : m.Canonical record tip) (ht : m.Tree record)
    (hbegun : m.genesis? = some record) (hrising : m.Rising) :
    record.number < tip.number ↔ ∃ hash, (m.header? hash).isSome = true ∧ hash ≠ record.hash := by
  constructor
  · intro habove
    refine ⟨tip.hash, Option.isSome_iff_exists.mpr ⟨tip, hc.spine.stored⟩, fun hfirst => ?_⟩
    obtain ⟨G, hG, hnumber⟩ := ht.root
    rw [← hfirst, hc.spine.stored] at hG
    cases hG
    exact absurd (hnumber ▸ habove) (UInt64.lt_irrefl _)
  · rintro ⟨hash, hstored, hne⟩
    obtain ⟨H, hH⟩ := Option.isSome_iff_exists.mp hstored
    obtain ⟨G, hG, -⟩ := ht.root
    have hlight := ht.genesis_lighter hbegun hrising hG hH hne
    have hheaviest := hc.heaviest hH
    have hlow := ht.above hc.spine.stored
    -- at the height of the genesis the tip would be the genesis, which another header outweighs
    have hother : tip.number ≠ record.number := by
      intro hnumber
      have hfirst := ht.hash_eq_of_number hc.spine.stored hnumber
      have hG' := hc.spine.stored
      rw [hfirst, hG] at hG'
      cases hG'
      omega
    have hapart : tip.number.toNat ≠ record.number.toNat := fun e => hother (UInt64.toNat_inj.mp e)
    exact UInt64.lt_iff_toNat_lt.mpr (by omega)

/-- The canonical height tells the stage of a chain. -/
theorem Sound.atStage (h : m.Sound) (hrising : m.Rising) : m.AtStage m.status := by
  cases h with
  | blank hblank =>
    rw [status, hblank.genesis]
    exact hblank.genesis
  | @begun record tip hbegun htree hcanonical =>
    have habove := hcanonical.number_lt_iff htree hbegun hrising
    rw [status, hbegun, hcanonical.height]
    by_cases hother : record.number < tip.number
    · simp only [hother, if_true]
      exact ⟨record, hbegun, habove.mp hother⟩
    · simp only [hother, if_false]
      refine ⟨record, hbegun, fun hash => ⟨fun hstored => ?_, ?_⟩⟩
      · by_contra hne
        exact hother (habove.mpr ⟨hash, hstored, hne⟩)
      · rintro rfl
        obtain ⟨G, hG, -⟩ := htree.root
        exact Option.isSome_iff_exists.mpr ⟨G, hG⟩

end ChainMemory

namespace LightClient

variable {chain : ChainId} {s t : State}

/-- The answer is given by what is remembered. -/
theorem status_ok {found : LightClientStatus} (h : status chain s = (.ok found, t)) :
    found = (s.memory chain).status := by
  have hgenesis : (s.memory chain).genesis? = s.lookup (.genesis chain) := rfl
  have hheight : (s.memory chain).height? = s.lookup (.height chain) := rfl
  obtain ⟨record?, u, hload, h⟩ := bind_ok h
  obtain ⟨rfl, hu⟩ := State.load?_ok (mapError_ok hload)
  rw [ChainMemory.status, hgenesis, hheight]
  cases hrecord : (s.lookup (.genesis chain) : Option GenesisRecord) with
  | none =>
    rw [hrecord] at h
    exact (pure_ok h).1
  | some record =>
    rw [hrecord] at h
    obtain ⟨level?, v, hload, h⟩ := bind_ok h
    obtain ⟨rfl, -⟩ := State.load?_ok (mapError_ok hload)
    rw [hu.lookup_eq] at h
    cases hlevel : (s.lookup (.height chain) : Option UInt64) with
    | none =>
      rw [hlevel] at h
      exact (pure_ok h).1
    | some level =>
      rw [hlevel] at h
      exact (pure_ok h).1

/-- A store that does not fail gives an answer. -/
theorem status_answer (hs : s.Reliable) (chain : ChainId) :
    (status chain s).1 = .ok (s.memory chain).status := by
  have hanswers : ∃ found u, status chain s = (.ok found, u) := by
    obtain ⟨u, hrecord, hu⟩ := hs.load? (RecordKey.genesis_holds chain)
    unfold status genesis?
    rw [run_bind (run_mapError hrecord _)]
    cases (s.lookup (.genesis chain) : Option GenesisRecord) with
    | none => exact ⟨_, _, rfl⟩
    | some record =>
      obtain ⟨v, hlevel, -⟩ := (hs.untouched hu).load? (RecordKey.height_holds chain)
      dsimp only
      unfold height?
      rw [run_bind (run_mapError hlevel _)]
      cases (u.lookup (.height chain) : Option UInt64) with
      | none => exact ⟨_, _, rfl⟩
      | some level => exact ⟨_, _, rfl⟩
  obtain ⟨found, u, hrun⟩ := hanswers
  rw [hrun, status_ok hrun]

end LightClient

end BridgeKernel
