import BridgeKernel.Header.Basic
import BridgeKernel.Header.Error

/-!
# Rules for a header

The checks of a header by itself, against its parent, and of its seal. Each says the first thing
that is wrong.
-/

namespace BridgeKernel

/-- The largest word. -/
def maxWord : UInt64 := 0xffffffffffffffff

/-- A sum that stays at the largest word instead of wrapping. -/
def saturatingAdd (a b : UInt64) : UInt64 := if maxWord - a < b then maxWord else a + b

/-- A difference that stays at zero. -/
def saturatingSub (a b : UInt64) : UInt64 := if a < b then 0 else a - b

/-- Settings of the light clients. -/
structure HeaderSyncConfig where
  /-- Headers in a validator epoch. -/
  epochLength : UInt64
  /-- Seconds by which a header may be ahead of the host. -/
  maxFutureDrift : UInt64
  /-- Least number of seconds between a header and its parent. -/
  blockPeriod : UInt64
  /-- The gas limit moves by less than this fraction of the parent's. -/
  gasLimitBoundDivisor : UInt64
  /-- Headers that one call may bring. -/
  maxBatchSize : Nat
deriving DecidableEq, Repr

namespace HeaderSyncConfig

/-- The settings used unless others are given. -/
def standard : HeaderSyncConfig := ⟨200, 15, 3, 256, 500⟩

/-- Short epochs and one-second blocks for trials. -/
def trial : HeaderSyncConfig := ⟨8, 15, 1, 256, 64⟩

/-- Whether a height begins a validator epoch. -/
def isBoundary (c : HeaderSyncConfig) (number : UInt64) : Bool :=
  c.epochLength != 0 && number % c.epochLength == 0

/-- Says what is wrong with the settings. -/
def validate (c : HeaderSyncConfig) : Except String Unit :=
  if c.epochLength = 0 then .error "epoch_length must be positive"
  else if c.gasLimitBoundDivisor = 0 then .error "gas_limit_bound_divisor must be positive"
  else if c.maxBatchSize = 0 then .error "max_batch_size must be positive"
  else .ok ()

end HeaderSyncConfig

namespace Header

/-- The lowest gas limit. -/
def minGasLimit : UInt64 := 5000

/-- The highest gas limit. -/
def maxGasLimit : UInt64 := 0x7fffffffffffffff

/-- Checks the layout of extra-data: a boundary lists at least one validator, and other headers
list none. -/
def checkExtra (h : Header) (boundary : Bool) : Except HeaderError Unit :=
  if h.extra.length < vanityLength then .error (.malformedExtra h.number .missingVanity)
  else if !h.hasSeal then .error (.malformedExtra h.number .missingSeal)
  else if boundary then
    if h.validatorBytes.isEmpty then
      .error (.malformedExtra h.number .boundaryWithoutValidators)
    else if h.validatorBytes.length % validatorLength ≠ 0 then
      .error (.malformedExtra h.number .partialValidator)
    else .ok ()
  else if !h.validatorBytes.isEmpty then .error (.malformedExtra h.number .validatorsOffBoundary)
  else .ok ()

/-- Checks what needs no parent. -/
def checkFields (h : Header) (config : HeaderSyncConfig) (now : UInt64) :
    Except HeaderError Unit := do
  if saturatingAdd now config.maxFutureDrift < h.time then
    throw (.futureBlock h.number h.time now config.maxFutureDrift)
  h.checkExtra (config.isBoundary h.number)
  if h.mixDigest ≠ .zero 32 then throw (.invalidMixDigest h.number)
  if h.uncleHash ≠ emptyUncleHash then throw (.invalidUncleHash h.number)
  if h.difficulty ≠ inTurnDifficulty ∧ h.difficulty ≠ outOfTurnDifficulty then
    throw (.invalidDifficulty h.number h.difficulty)

/-- Checks the range of the gas limit and the gas used. -/
def checkGas (h : Header) : Except HeaderError Unit :=
  if h.gasLimit < minGasLimit ∨ maxGasLimit < h.gasLimit then
    .error (.gasLimitOutOfBounds h.number h.gasLimit)
  else if h.gasLimit < h.gasUsed then
    .error (.gasUsedExceedsLimit h.number h.gasUsed h.gasLimit)
  else .ok ()

/-- The distance between two gas limits. -/
def gasDelta (a b : UInt64) : UInt64 := if a < b then b - a else a - b

/-- Checks height, time and gas against the parent. -/
def checkAgainstParent (h parent : Header) (config : HeaderSyncConfig) :
    Except HeaderError Unit := do
  if h.number ≠ parent.number + 1 then throw (.invalidNumber h.number parent.number)
  if h.time < saturatingAdd parent.time config.blockPeriod then
    throw (.invalidTimestamp h.number h.time parent.time)
  h.checkGas
  let delta := gasDelta h.gasLimit parent.gasLimit
  let bound := parent.gasLimit / config.gasLimitBoundDivisor
  if bound ≤ delta then throw (.gasLimitDelta h.number delta bound)

/-- The address that sealed the header, which must be the declared producer. -/
def checkSeal (h : Header) (chain : ChainId) : Except HeaderError Address :=
  match h.seal? with
  | none => .error (.malformedExtra h.number .missingSeal)
  | some sealBytes =>
    match recoverSigner (h.sealHash chain) sealBytes with
    | .error cause => .error (.invalidSeal h.number cause)
    | .ok signer =>
      if signer ≠ h.coinbase then .error (.signerMismatch h.number h.coinbase signer)
      else .ok signer

end Header

end BridgeKernel
