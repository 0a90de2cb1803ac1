import BridgeKernel.Bridge.Config
import BridgeKernel.Toml.Document

/-!
# Settings of the bridge as text

Settings are written as a tree of tables. A name that is missing takes its standard value, and one
that is unknown is passed over. A group of settings may also be written as a list in the order of
its names.
-/

namespace BridgeKernel

namespace Toml

/-- A word. -/
def Node.word? : Node → Option UInt64
  | .integer n => if 0 ≤ n ∧ n < UInt64.size then some (UInt64.ofNat n.toNat) else none
  | _ => none

/-- A count. -/
def Node.count? (node : Node) : Option Nat := node.word?.map UInt64.toNat

/-- A text. -/
def Node.text? : Node → Option String
  | .text value => some value
  | _ => none

/-- One of several names: the name itself, or a table that holds nothing but the name. -/
def Node.choice? : Node → Option String
  | .text value => some value
  | .table _ [(name, .table _ [])] => some name
  | .table _ [(name, .array [])] => some name
  | _ => none

/-- The settings of a group with given names. A moment says nothing about any of them. -/
def Node.group? (names : List String) : Node → Option Entries
  | .table _ entries => some entries
  | .array items => some (names.zip items)
  | .tables elements => some (names.zip (elements.map (.table .opened)))
  | .moment _ => some []
  | _ => none

/-- The members of a list. -/
def Node.members? : Node → Option (List Node)
  | .array items => some items
  | .tables elements => some (elements.map (.table .opened))
  | _ => none

/-- The setting with a name, or its standard value when it is missing. -/
def Entries.setting? {α : Type} (entries : Entries) (name : String) (read : Node → Option α)
    (standard : α) : Option α :=
  match entries.find? name with
  | some node => read node
  | none => some standard

end Toml

open Toml

/-- The settings of the light clients that a node describes. -/
def HeaderSyncConfig.ofNode? (node : Node) : Option HeaderSyncConfig := do
  let group ← node.group? ["epoch_length", "max_future_drift_secs", "block_period_secs",
    "gas_limit_bound_divisor", "max_batch_size"]
  return {
    epochLength := ← group.setting? "epoch_length" Node.word? standard.epochLength
    maxFutureDrift := ← group.setting? "max_future_drift_secs" Node.word? standard.maxFutureDrift
    blockPeriod := ← group.setting? "block_period_secs" Node.word? standard.blockPeriod
    gasLimitBoundDivisor := ← group.setting? "gas_limit_bound_divisor" Node.word?
      standard.gasLimitBoundDivisor
    maxBatchSize := ← group.setting? "max_batch_size" Node.count? standard.maxBatchSize }

/-- The limits of the vote engine that a node describes. -/
def VoteConfig.ofNode? (node : Node) : Option VoteConfig := do
  let group ← node.group? ["max_message_len"]
  return { maxMessageLen := ← group.setting? "max_message_len" Node.count? standard.maxMessageLen }

/-- The limits of the claim verifiers that a node describes. -/
def ProofConfig.ofNode? (node : Node) : Option ProofConfig := do
  let group ← node.group? ["max_proof_depth", "max_merkle_path", "max_payload_len"]
  return {
    maxProofDepth := ← group.setting? "max_proof_depth" Node.count? standard.maxProofDepth
    maxMerklePath := ← group.setting? "max_merkle_path" Node.count? standard.maxMerklePath
    maxPayloadLen := ← group.setting? "max_payload_len" Node.count? standard.maxPayloadLen }

/-- The settings of custody that a node describes. -/
def CustodyConfig.ofNode? (node : Node) : Option CustodyConfig := do
  let group ← node.group? ["dust_limit_sat", "script_kind", "max_inputs"]
  return {
    dustLimit := ← group.setting? "dust_limit_sat" Node.word? standard.dustLimit
    lockKind := ← group.setting? "script_kind" (·.choice?.bind Script.LockKind.ofLabel?)
      standard.lockKind
    maxInputs := ← group.setting? "max_inputs" Node.count? standard.maxInputs }

/-- The route that a node describes; both of its settings must be there. -/
def Route.ofNode? (node : Node) : Option Route := do
  let group ← node.group? ["router", "verifier"]
  return {
    router := ← (← group.find? "router").word?
    kind := ← ClaimKind.ofLabel? (← (← group.find? "verifier").choice?) }

namespace BridgeConfig

/-- The settings that a tree describes. -/
def ofEntries? (entries : Entries) : Option BridgeConfig := do
  return {
    localChain := ← entries.setting? "local_chain_id" Node.word? standard.localChain
    moduleAddress := ← entries.setting? "module_address" Node.text? standard.moduleAddress
    routes := ← entries.setting? "routes" (fun node => do (← node.members?).mapM Route.ofNode?)
      standard.routes
    headerSync := ← entries.setting? "header_sync" HeaderSyncConfig.ofNode? standard.headerSync
    vote := ← entries.setting? "vote" VoteConfig.ofNode? standard.vote
    proof := ← entries.setting? "proof" ProofConfig.ofNode? standard.proof
    custody := ← entries.setting? "custody" CustodyConfig.ofNode? standard.custody }

/-- Why a settings text was refused. -/
inductive TextError where
  /-- The text is no tree, or a setting has a value of the wrong sort. -/
  | unreadable
  /-- The settings are unusable. -/
  | unusable (complaint : String)
deriving DecidableEq, Repr

/-- The settings that a text describes. -/
def ofText (text : String) : Except TextError BridgeConfig := do
  match parse text >>= ofEntries? with
  | none => throw .unreadable
  | some config =>
    config.validate.mapError .unusable
    return config

end BridgeConfig

end BridgeKernel
