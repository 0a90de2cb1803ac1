/-!
# Settings of the log

A host takes them from its environment variables. A variable that is set counts even when it is
empty; a flag that is no flag counts as its default.
-/

namespace BridgeKernel

/-- How a host writes its log. -/
structure LogSettings where
  /-- Name under which the service appears. -/
  serviceName : String
  /-- Filter by level. -/
  level : String
  /-- Whether lines go to the console. -/
  console : Bool
  /-- Whether lines are JSON. -/
  json : Bool
deriving DecidableEq, Repr

namespace LogSettings

/-- The environment: the text of each variable that is set. -/
abbrev Environment := String → Option String

/-- A flag in words, in either case. -/
def flag? (text : String) : Option Bool :=
  let word := text.map Char.toLower
  if word = "true" ∨ word = "1" ∨ word = "yes" then some true
  else if word = "false" ∨ word = "0" ∨ word = "no" then some false
  else none

/-- The settings that an environment asks for. Lines are JSON inside a container. -/
def ofEnvironment (environment : Environment) : LogSettings :=
  let contained := (environment "KUBERNETES_SERVICE_HOST").isSome ||
    (environment "DOCKER_CONTAINER").isSome
  { serviceName := (environment "XC_SERVICE_NAME").getD "xc-bridge"
    level := ((environment "XC_LOG_LEVEL").or (environment "RUST_LOG")).getD "info"
    console := ((environment "XC_CONSOLE_OUTPUT").bind flag?).getD true
    json := match environment "XC_JSON_LOGS" with
      | some text => (flag? text).getD false
      | none => contained }

/-- The settings of one part of the bridge, which has a service name of its own. -/
def forPart (environment : Environment) (number name : String) : LogSettings :=
  { ofEnvironment environment with serviceName := "xc-" ++ number ++ "-" ++ name }

end LogSettings

end BridgeKernel
