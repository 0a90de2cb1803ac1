import BridgeKernel.Header.Epochs
import BridgeKernel.Proofs.Checks
import Mathlib.Algebra.GroupWithZero.Nat
import Mathlib.Data.List.Basic

/-!
# What the header rules accept

Each check of a header accepts exactly the headers with a property that can be stated without the
order in which things are looked at. Sums and differences that stay within a word's range are those
of natural numbers there.
-/

namespace BridgeKernel

/-! ## Words -/

/-- A sum that stays at the largest word is the smaller of the sum and that word. -/
theorem saturatingAdd_toNat (a b : UInt64) :
    (saturatingAdd a b).toNat = min (a.toNat + b.toNat) (2 ^ 64 - 1) := by
  have ha := a.toNat_lt
  have hb := b.toNat_lt
  have hmax : maxWord.toNat = 2 ^ 64 - 1 := rfl
  have hsub : (maxWord - a).toNat = 2 ^ 64 - 1 - a.toNat := by
    rw [UInt64.toNat_sub_of_le _ _ (UInt64.le_iff_toNat_le.mpr (by omega)), hmax]
  unfold saturatingAdd
  split
  · next h =>
    rw [UInt64.lt_iff_toNat_lt, hsub] at h
    omega
  · next h =>
    rw [UInt64.lt_iff_toNat_lt, hsub] at h
    rw [UInt64.toNat_add]
    omega

/-- A difference that stays at zero is that of natural numbers. -/
theorem saturatingSub_toNat (a b : UInt64) : (saturatingSub a b).toNat = a.toNat - b.toNat := by
  unfold saturatingSub
  split
  · next h =>
    rw [UInt64.lt_iff_toNat_lt] at h
    simp only [UInt64.toNat_zero]
    omega
  · next h =>
    rw [UInt64.lt_iff_toNat_lt] at h
    rw [UInt64.toNat_sub_of_le _ _ (UInt64.le_iff_toNat_le.mpr (by omega))]

/-- Below the largest word a successor is that of natural numbers. -/
theorem toNat_succ {a : UInt64} (h : a.toNat + 1 < 2 ^ 64) : (a + 1).toNat = a.toNat + 1 := by
  rw [UInt64.toNat_add]
  exact Nat.mod_eq_of_lt h

namespace Header

/-! ## A header by itself -/

/-- The layout of extra-data at a boundary or away from one. -/
structure ExtraLayout (h : Header) (boundary : Bool) : Prop where
  /-- There is room for a vanity and a seal. -/
  room : vanityLength + sealLength ≤ h.extra.length
  /-- A boundary lists whole addresses, at least one. -/
  listed : boundary = true →
    h.validatorBytes ≠ [] ∧ validatorLength ∣ h.validatorBytes.length
  /-- Other headers list none. -/
  unlisted : boundary = false → h.validatorBytes = []

theorem checkExtra_ok_iff {h : Header} {boundary : Bool} :
    h.checkExtra boundary = .ok () ↔ h.ExtraLayout boundary := by
  simp only [checkExtra, Except.unless_ok_iff]
  constructor
  · rintro ⟨-, hseal, hrest⟩
    have hroom : vanityLength + sealLength ≤ h.extra.length := by simpa [hasSeal] using hseal
    cases boundary with
    | false =>
      simp only [Bool.false_eq_true, if_false, Except.unless_ok_iff] at hrest
      exact ⟨hroom, nofun, fun _ => by simpa using hrest.1⟩
    | true =>
      simp only [if_true, Except.unless_ok_iff] at hrest
      obtain ⟨hsome, hwhole, -⟩ := hrest
      refine ⟨hroom, fun _ => ⟨by simpa using hsome, ?_⟩, nofun⟩
      exact Nat.dvd_of_mod_eq_zero (not_not.mp hwhole)
  · rintro ⟨hroom, hlisted, hunlisted⟩
    refine ⟨by omega, by simpa [hasSeal] using hroom, ?_⟩
    cases boundary with
    | false => simp [hunlisted rfl]
    | true =>
      obtain ⟨hsome, hwhole⟩ := hlisted rfl
      simp [hsome, Nat.mod_eq_zero_of_dvd hwhole]

/-- What a header must satisfy whatever its parent is. -/
structure FieldsHold (h : Header) (config : HeaderSyncConfig) : Prop where
  /-- Extra-data has the layout for the height. -/
  extra : h.ExtraLayout (config.isBoundary h.number)
  /-- The mix digest is zero. -/
  mixDigest : h.mixDigest = .zero 32
  /-- There are no uncles. -/
  uncleHash : h.uncleHash = emptyUncleHash
  /-- The difficulty is one of the two. -/
  difficulty : h.difficulty = inTurnDifficulty ∨ h.difficulty = outOfTurnDifficulty

theorem checkFields_ok_iff {h : Header} {config : HeaderSyncConfig} {now : UInt64} :
    h.checkFields config now = .ok () ↔
      h.time ≤ saturatingAdd now config.maxFutureDrift ∧ h.FieldsHold config := by
  unfold checkFields
  simp only [Except.guard_ok_iff, Except.andThen_ok_iff, Except.last_ok_iff, checkExtra_ok_iff,
    UInt64.not_lt, not_and_or, not_not]
  constructor
  · rintro ⟨htime, hextra, hmix, huncles, hdifficulty⟩
    exact ⟨htime, hextra, hmix, huncles, hdifficulty⟩
  · rintro ⟨htime, hextra, hmix, huncles, hdifficulty⟩
    exact ⟨htime, hextra, hmix, huncles, hdifficulty⟩

/-- The gas limit is in range and covers the gas used. -/
structure GasHolds (h : Header) : Prop where
  /-- The limit is not too low. -/
  low : minGasLimit ≤ h.gasLimit
  /-- The limit is not too high. -/
  high : h.gasLimit ≤ maxGasLimit
  /-- No more gas is used than the limit allows. -/
  used : h.gasUsed ≤ h.gasLimit

theorem checkGas_ok_iff {h : Header} : h.checkGas = .ok () ↔ h.GasHolds := by
  simp only [checkGas, Except.unless_ok_iff, not_or, UInt64.not_lt]
  constructor
  · rintro ⟨⟨hlow, hhigh⟩, hused, -⟩
    exact ⟨hlow, hhigh, hused⟩
  · rintro ⟨hlow, hhigh, hused⟩
    exact ⟨⟨hlow, hhigh⟩, hused, trivial⟩

/-! ## A header and its parent -/

/-- What a header must satisfy beside its parent. -/
structure Follows (h parent : Header) (config : HeaderSyncConfig) : Prop where
  /-- It has the next height. -/
  number : h.number = parent.number + 1
  /-- It is late enough. -/
  time : saturatingAdd parent.time config.blockPeriod ≤ h.time
  /-- Its gas is in range. -/
  gas : h.GasHolds
  /-- Its gas limit is close to the parent's. -/
  delta : gasDelta h.gasLimit parent.gasLimit < parent.gasLimit / config.gasLimitBoundDivisor

theorem checkAgainstParent_ok_iff {h parent : Header} {config : HeaderSyncConfig} :
    h.checkAgainstParent parent config = .ok () ↔ h.Follows parent config := by
  unfold checkAgainstParent
  simp only [Except.guard_ok_iff, Except.andThen_ok_iff, Except.last_ok_iff, checkGas_ok_iff,
    UInt64.not_lt, UInt64.not_le, not_not]
  constructor
  · rintro ⟨hnumber, htime, hgas, hdelta⟩
    exact ⟨hnumber, htime, hgas, hdelta⟩
  · rintro ⟨hnumber, htime, hgas, hdelta⟩
    exact ⟨hnumber, htime, hgas, hdelta⟩

/-! ## Seal and turn -/

/-- The address that is declared as producer and has sealed a header on a chain. -/
def SealedBy (h : Header) (chain : ChainId) (signer : Address) : Prop :=
  signer = h.coinbase ∧
    ∃ sealBytes, h.seal? = some sealBytes ∧ recoverSigner (h.sealHash chain) sealBytes = .ok signer

theorem checkSeal_ok_iff {h : Header} {chain : ChainId} {signer : Address} :
    h.checkSeal chain = .ok signer ↔ h.SealedBy chain signer := by
  unfold checkSeal SealedBy
  cases hseal : h.seal? with
  | none => simp
  | some sealBytes =>
    cases hrecover : recoverSigner (h.sealHash chain) sealBytes with
    | error cause => simp [hrecover]
    | ok found =>
      simp only [Option.some.injEq, exists_eq_left', hrecover, Except.ok.injEq]
      by_cases hf : found = h.coinbase
      · simp only [hf, ne_eq, not_true_eq_false, if_false, Except.ok.injEq]
        exact ⟨fun hs => ⟨hs.symm, hs⟩, fun hs => hs.2⟩
      · simp only [ne_eq, hf, not_false_eq_true, if_true, reduceCtorEq, false_iff, not_and]
        rintro rfl rfl
        exact hf rfl

end Header

namespace ValidatorEpoch

/-- A signer's difficulty says whether the height is its turn in a set. -/
def InTurn (epoch : ValidatorEpoch) (number : UInt64) (signer : Address) (difficulty : UInt64) :
    Prop :=
  ∃ index, epoch.index? signer = some index ∧
    difficulty = if index = number.toNat % epoch.size then Header.inTurnDifficulty
      else Header.outOfTurnDifficulty

theorem checkTurn_ok_iff {epoch : ValidatorEpoch} {number : UInt64} {signer : Address}
    {difficulty : UInt64} :
    epoch.checkTurn number signer difficulty = .ok () ↔
      epoch.InTurn number signer difficulty := by
  unfold checkTurn InTurn
  cases hindex : epoch.index? signer with
  | none => simp
  | some index =>
    simp only [Option.some.injEq, exists_eq_left', decide_eq_true_eq]
    split <;> simp_all

end ValidatorEpoch

end BridgeKernel
