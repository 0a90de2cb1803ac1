import BridgeKernel.Header.Rules
import BridgeKernel.Header.Trusted
import BridgeKernel.Vote.Epoch

/-!
# Governing validator sets

Two generations of validators are live at any height: those announced at the latest epoch boundary
below it and those announced at the boundary before. The older ones keep producing until half of
them have had a turn after the newer boundary.
-/

namespace BridgeKernel

/-- Where the walk over ancestors ends, with the sets known from governance. -/
structure GenesisEpochs where
  /-- Digest of the genesis header. -/
  hash : Hash
  /-- The set announced by the genesis header. -/
  current : ValidatorEpoch
  /-- The set before it. -/
  prior : ValidatorEpoch

/-- The two live validator sets at a height. -/
structure EpochPair where
  /-- From the boundary before the latest. -/
  older : ValidatorEpoch
  /-- From the latest boundary. -/
  newer : ValidatorEpoch
deriving DecidableEq

/-- The set that must produce the header at a height. -/
def EpochPair.authoritative (pair : EpochPair) (number : UInt64) : ValidatorEpoch :=
  if (saturatingSub number pair.newer.startHeight).toNat ≤ pair.older.size / 2 then pair.older
  else pair.newer

namespace ChainView

/-- What a header adds to the search for the two sets, given the newer one if it is known already:
either both sets, or what is known of them when the search goes on at the parent. -/
def visit (config : HeaderSyncConfig) (genesis : GenesisEpochs) (target : UInt64)
    (newer? : Option ValidatorEpoch) (cursor : TrustedHeader) :
    Except HeaderError (EpochPair ⊕ Option ValidatorEpoch) :=
  if cursor.hash = genesis.hash then
    match newer? with
    | some newer => .ok (.inl ⟨genesis.current, newer⟩)
    | none => .ok (.inl ⟨genesis.prior, genesis.current⟩)
  else if config.isBoundary cursor.number then
    match cursor.header.validators? with
    | none => .error (.epochNotFound target)
    | some [] => .error (.epochNotFound target)
    | some validators =>
      match newer? with
      | some newer => .ok (.inl ⟨⟨cursor.number, validators⟩, newer⟩)
      | none => .ok (.inr (some ⟨cursor.number, validators⟩))
  else .ok (.inr newer?)

/-- Searches a header and its ancestors for the two sets, with at most `fuel` headers visited. -/
def findEpochs (view : ChainView) (config : HeaderSyncConfig) (genesis : GenesisEpochs)
    (target : UInt64) : (fuel : Nat) → Option ValidatorEpoch → TrustedHeader →
    Transition HeaderError EpochPair
  | 0, _, _ => throw (.epochNotFound target)
  | fuel + 1, newer?, cursor => do
    match ← Transition.ofExcept id (visit config genesis target newer? cursor) with
    | .inl pair => return pair
    | .inr found =>
      match ← view.header? cursor.parentHash with
      | none => throw (.epochNotFound target)
      | some parent => findEpochs view config genesis target fuel found parent

/-- The two most recent validator sets announced by a header or its ancestors. Each of the two is
met before all headers of the view have been visited, or never. -/
def resolveEpochs (view : ChainView) (config : HeaderSyncConfig) (genesis : GenesisEpochs)
    (parent : TrustedHeader) : Transition HeaderError EpochPair :=
  view.findEpochs config genesis (parent.number + 1)
    (parent.number.toNat + 2 * (view.size + 1)) none parent

/-- Refuses a signer that produced the given header or one of its ancestors within the window. -/
def walkRecent (view : ChainView) (number : UInt64) (signer : Address) (window : UInt64) :
    (fuel : Nat) → TrustedHeader → Transition HeaderError Unit
  | 0, _ => pure ()
  | fuel + 1, ancestor => do
    if window < number - ancestor.number then return
    if ancestor.signer = signer then throw (.recentlySigned number signer ancestor.number)
    match ← view.header? ancestor.parentHash with
    | none => return
    | some parent => walkRecent view number signer window fuel parent

/-- Refuses a signer that produced one of the `window` headers below the next one. -/
def checkRecentSigners (view : ChainView) (parent : TrustedHeader) (signer : Address)
    (window : UInt64) : Transition HeaderError Unit :=
  view.walkRecent (parent.number + 1) signer window (parent.number.toNat + view.size + 1) parent

end ChainView

/-- Requires the difficulty to say whether the signer is in turn. -/
def ValidatorEpoch.checkTurn (epoch : ValidatorEpoch) (number : UInt64) (signer : Address)
    (difficulty : UInt64) : Except HeaderError Unit :=
  match epoch.index? signer with
  | none => .error (.unauthorizedSigner number signer)
  | some index =>
    let inTurn := decide (index = number.toNat % epoch.size)
    let wanted := if inTurn then Header.inTurnDifficulty else Header.outOfTurnDifficulty
    if difficulty = wanted then .ok ()
    else .error (.wrongDifficultyForTurn number difficulty inTurn)

end BridgeKernel
