import BridgeKernel.Bridge.Route
import BridgeKernel.Claim.Error
import BridgeKernel.Custody.Basic
import BridgeKernel.Header.Rules
import BridgeKernel.Vote.Engine

/-!
# Settings of the bridge

Built once and handed to every call; nothing reads settings from elsewhere.
-/

namespace BridgeKernel

/-- The settings of the whole bridge. -/
structure BridgeConfig where
  /-- The chain that events must be addressed to. -/
  localChain : ChainId
  /-- The address under which all keys of the bridge lie. -/
  moduleAddress : String
  /-- How router tags are bound to kinds of claim. -/
  routes : List Route
  /-- Settings of the light clients. -/
  headerSync : HeaderSyncConfig
  /-- Limits of the vote engine. -/
  vote : VoteConfig
  /-- Limits of the claim verifiers. -/
  proof : ProofConfig
  /-- Settings of custody. -/
  custody : CustodyConfig
deriving DecidableEq, Repr

namespace BridgeConfig

/-- The settings used unless others are given. -/
def standard : BridgeConfig where
  localChain := 0
  moduleAddress := "xc-bridge"
  routes := Route.standard
  headerSync := .standard
  vote := .standard
  proof := .standard
  custody := .standard

/-- Settings with small limits for trials. -/
def trial : BridgeConfig where
  localChain := 7
  moduleAddress := "xc"
  routes := Route.standard
  headerSync := .trial
  vote := .trial
  proof := .trial
  custody := .trial

/-- A complaint about a part, under the name of the part. -/
def within (part : String) (check : Except String Unit) : Except String Unit :=
  check.mapError fun complaint => part ++ ": " ++ complaint

/-- Says what is wrong with the settings. -/
def validate (c : BridgeConfig) : Except String Unit := do
  if c.moduleAddress.isEmpty then throw "module_address must not be empty"
  match Route.firstRepeated? [] c.routes with
  | some router => throw ("router " ++ toString router ++ " is bound twice")
  | none => pure ()
  within "header_sync" c.headerSync.validate
  within "vote" c.vote.validate
  within "proof" c.proof.validate
  within "custody" c.custody.validate

/-- The kinds of claim by router tag. -/
def routeTable (c : BridgeConfig) : RouteTable := Route.table c.routes

/-- The state of an empty store under the bridge's address. -/
def initialState (c : BridgeConfig) : State := .initial (Utf8.encode c.moduleAddress)

end BridgeConfig

end BridgeKernel
