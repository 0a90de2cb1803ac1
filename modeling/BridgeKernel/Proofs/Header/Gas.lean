import BridgeKernel.Proofs.Header.Epochs
import BridgeKernel.Proofs.Header.Progress

/-!
# Gas limits that leave room for a child

The gas limit of a child is closer to its parent's than a bound, which is a fraction of the parent's
limit. A bound of zero keeps every child out. The limits of stored headers are in the absolute range,
so the bound is positive when the divisor is not above the lowest limit. The settings may have a
larger divisor, and then a chain whose genesis has a limit below the divisor stays at its genesis.
-/

namespace BridgeKernel

open Transition LightClient

/-- The settings that are accepted. -/
theorem HeaderSyncConfig.validate_ok_iff {config : HeaderSyncConfig} :
    config.validate = .ok () ↔
      config.epochLength ≠ 0 ∧ config.gasLimitBoundDivisor ≠ 0 ∧ config.maxBatchSize ≠ 0 := by
  simp only [validate, Except.unless_ok_iff, and_true]

namespace Header

/-- The gas limit of a child moves by less than this. -/
def gasBound (h : Header) (config : HeaderSyncConfig) : UInt64 :=
  h.gasLimit / config.gasLimitBoundDivisor

/-- There is a gas limit in the allowed range with which every header of the next height that is late
enough and uses no more gas passes beside this one. -/
def OpenToChild (h : Header) (config : HeaderSyncConfig) : Prop :=
  ∃ gasLimit, minGasLimit ≤ gasLimit ∧ gasLimit ≤ maxGasLimit ∧
    ∀ child : Header, child.number = h.number + 1 →
      saturatingAdd h.time config.blockPeriod ≤ child.time → child.gasLimit = gasLimit →
      child.gasUsed ≤ gasLimit → child.checkAgainstParent h config = .ok ()

variable {h child : Header} {config : HeaderSyncConfig}

theorem gasDelta_self (a : UInt64) : gasDelta a a = 0 := by
  rw [gasDelta, if_neg (UInt64.lt_irrefl a), UInt64.sub_self]

/-- The bound is positive when the limit is not below the divisor. -/
theorem gasBound_pos_iff (hdivisor : config.gasLimitBoundDivisor ≠ 0) :
    0 < h.gasBound config ↔ config.gasLimitBoundDivisor ≤ h.gasLimit := by
  have hpositive : 0 < config.gasLimitBoundDivisor.toNat :=
    Nat.pos_of_ne_zero fun hzero => hdivisor (UInt64.toNat_inj.mp hzero)
  rw [gasBound, UInt64.lt_iff_toNat_lt, UInt64.le_iff_toNat_le, UInt64.toNat_div]
  exact Nat.div_pos_iff.trans (and_iff_right hpositive)

/-- A header that has a child has a positive bound. -/
theorem Follows.gasBound_pos (hfollows : child.Follows h config) : 0 < h.gasBound config := by
  have hdelta := UInt64.lt_iff_toNat_lt.mp hfollows.delta
  exact UInt64.lt_iff_toNat_lt.mpr (Nat.lt_of_le_of_lt (Nat.zero_le _) hdelta)

/-- Nothing passes beside a header with a bound of zero. -/
theorem gasBound_pos_of_check (hpassed : child.checkAgainstParent h config = .ok ()) :
    0 < h.gasBound config :=
  (checkAgainstParent_ok_iff.mp hpassed).gasBound_pos

/-- A child passes beside a header with gas in range when the bound is positive: with the same limit,
which is as close as can be. -/
theorem GasHolds.openToChild_iff (hgas : h.GasHolds) :
    h.OpenToChild config ↔ 0 < h.gasBound config := by
  constructor
  · rintro ⟨gasLimit, -, -, hpasses⟩
    let child : Header :=
      { h with
        number := h.number + 1
        time := saturatingAdd h.time config.blockPeriod
        gasLimit
        gasUsed := 0 }
    exact gasBound_pos_of_check (hpasses child rfl (UInt64.le_refl _) rfl UInt64.zero_le)
  · intro hbound
    refine ⟨h.gasLimit, hgas.low, hgas.high, fun child hnumber htime hlimit hused => ?_⟩
    refine checkAgainstParent_ok_iff.mpr ⟨hnumber, htime, ?_, ?_⟩
    · exact ⟨hlimit ▸ hgas.low, hlimit ▸ hgas.high, hlimit ▸ hused⟩
    · rw [hlimit, gasDelta_self]
      exact hbound

end Header

namespace ChainMemory

/-- The gas of every stored header is in range. -/
def InGasRange (m : ChainMemory) : Prop := ∀ hash H, m.header? hash = some H → H.header.GasHolds

/-- A genesis with a gas limit below the divisor is all that is stored. -/
structure ClosedBelow (m : ChainMemory) (divisor : UInt64) : Prop where
  /-- Nothing is stored before the chain begins. -/
  unbegun : m.genesis? = none → ∀ hash, m.header? hash = none
  /-- The genesis is stored. -/
  root : ∀ record, m.genesis? = some record → ∃ G, m.header? record.hash = some G
  /-- Other headers are stored only if the limit of the genesis is not below the divisor. -/
  alone : ∀ record G, m.genesis? = some record → m.header? record.hash = some G →
    G.header.gasLimit < divisor → ∀ hash H, m.header? hash = some H → hash = record.hash

/-- A header added where there was none is all that is stored. -/
theorem eq_of_setHeader_header? {m : ChainMemory} {T H : TrustedHeader} {hash : Hash}
    (hnone : ∀ hash, m.header? hash = none) (hH : (m.setHeader T).header? hash = some H) :
    hash = T.hash := by
  rw [setHeader_header?] at hH
  split at hH
  · next hhash => exact hhash
  · exact nomatch (hnone hash).symm.trans hH

end ChainMemory

namespace LightClient

open ChainMemory

variable {P : Header → Prop} {config : HeaderSyncConfig} {chain : ChainId} {s t : State}

/-- Both ways in which a header is stored check its gas. -/
theorem Step.inGasRange (h : Step P config chain s t) (hs : (s.memory chain).InGasRange) :
    (t.memory chain).InGasRange := by
  have hadd {T : TrustedHeader} (hT : T.header.GasHolds) :
      ((s.memory chain).setHeader T).InGasRange := by
    intro hash H hH
    rw [setHeader_header?] at hH
    split at hH
    · rw [← Option.some.inj hH]
      exact hT
    · exact hs hash H hH
  cases h with
  | quiet hu =>
    rw [hu.memory_eq]
    exact hs
  | began _ _ place begins =>
    rw [begins.changed.memory_eq,
      memory_genesisChanges begins.fits begins.fitsPrior begins.fitsCurrent]
    exact hadd place.gas
  | grew _ _ _ verified _ _ fits changed =>
    rw [changed.memory_eq, memory_headerChanges fits]
    intro hash H hH
    rw [move_header?] at hH
    exact hadd verified.follows.gas hash H hH

/-- No header comes above a genesis with a limit below the divisor. -/
theorem Step.closedBelow (h : Step P config chain s t)
    (hs : (s.memory chain).ClosedBelow config.gasLimitBoundDivisor) :
    (t.memory chain).ClosedBelow config.gasLimitBoundDivisor := by
  cases h with
  | quiet hu =>
    rw [hu.memory_eq]
    exact hs
  | @began header _ _ _ fresh _ begins =>
    have hnone : (s.memory chain).genesis? = none := State.lookup_of_raw?_none fresh
    rw [begins.changed.memory_eq,
      memory_genesisChanges begins.fits begins.fitsPrior begins.fitsCurrent]
    refine ⟨nofun, ?_, ?_⟩
    · rintro _ ⟨⟩
      exact ⟨trustedGenesis header, Function.update_self _ _ _⟩
    · rintro _ _ ⟨⟩ - - hash H hH
      exact eq_of_setHeader_header? (m := s.memory chain) (hs.unbegun hnone) hH
  | @grew record _ trusted _ _ _ update? _ begun fresh verified _ _ fits changed =>
    rw [changed.memory_eq, memory_headerChanges fits]
    obtain ⟨G, hG⟩ := hs.root record begun.genesis
    have hfresh : (s.memory chain).header? trusted.hash = none := State.lookup_of_raw?_none fresh
    have hG' : (((s.memory chain).setHeader trusted).move update?).header? record.hash = some G := by
      rw [move_header?]
      exact setHeader_of_some hfresh hG
    have hgenesis : (((s.memory chain).setHeader trusted).move update?).genesis? = some record := by
      rw [move_genesis?]
      exact begun.genesis
    refine ⟨fun hnone => (nomatch hnone.symm.trans hgenesis), fun record' hrecord => ?_,
      fun record' G' hrecord hstored hclosed => ?_⟩
    · cases hgenesis.symm.trans hrecord
      exact ⟨G, hG'⟩
    · cases hgenesis.symm.trans hrecord
      cases hG'.symm.trans hstored
      -- the genesis would be the parent of the new header, and leaves no room for it
      have hparent := hs.alone record G begun.genesis hG hclosed _ _ verified.stored
      have hstored := verified.stored
      rw [hparent, hG, Option.some.injEq] at hstored
      have hbound := verified.follows.gasBound_pos
      rw [← hstored, Header.gasBound, UInt64.lt_iff_toNat_lt, UInt64.toNat_div,
        Nat.div_eq_of_lt (UInt64.lt_iff_toNat_lt.mp hclosed)] at hbound
      exact absurd hbound (Nat.lt_irrefl 0)

/-- A chain begins with a proper header that fits, if the store does not fail. -/
theorem setGenesis_succeeds {header : Header} {validators prior : List Address} (hs : s.Calm)
    (fresh : s.raw? (.genesis chain) = none) (place : BeginsAt config header validators)
    (fits : Record.fits (trustedGenesis header) = true)
    (fitsPrior : Record.fits (priorEpoch (genesisRecord config header) validators prior) = true)
    (fitsCurrent : Record.fits (⟨header.number, validators⟩ : ValidatorEpoch) = true) :
    (setGenesis config chain header prior).Succeeds s := by
  obtain ⟨u, hhas⟩ := hs.has (.genesis chain)
  have hu := (State.has_ok hhas).2
  have hasked := run_mapError hhas HeaderError.storage
  rw [fresh] at hasked
  have hplace : ¬ ((!config.isBoundary header.number || header.number < config.epochLength) =
      true) := by
    simp [place.boundary, place.deep]
  have hextra := Header.checkExtra_ok_iff.mpr place.extra
  have hgas := Header.checkGas_ok_iff.mpr place.gas
  unfold setGenesis
  refine .bind ⟨_, u, hasked⟩ fun found u' hrun => ?_
  cases hasked.symm.trans hrun
  refine .guard Bool.false_ne_true ?_
  refine .guard hplace ?_
  refine .bind (.ofExcept hextra _) fun _ v hrun => ?_
  obtain ⟨-, rfl⟩ := ofExcept_ok hrun
  refine .bind (.ofExcept hgas _) fun _ v hrun => ?_
  obtain ⟨-, rfl⟩ := ofExcept_ok hrun
  rw [place.listed]
  refine .mapError ?_ _
  refine State.writeAbout_then fits fun _ => ?_
  refine State.writeAbout_then rfl fun _ => ?_
  refine State.writeAbout_then rfl fun _ => ?_
  refine State.writeAbout_then rfl fun _ => ?_
  refine State.writeAbout_then fitsPrior fun _ => ?_
  refine State.writeAbout_then fitsCurrent fun _ => ?_
  exact (hs.untouched hu).commit_succeeds _

end LightClient

end BridgeKernel
