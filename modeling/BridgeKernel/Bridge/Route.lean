import BridgeKernel.Event
import BridgeKernel.OrderedMap

/-!
# Routes

The router tag of a side chain decides which kind of claim can prove an event on it.
-/

namespace BridgeKernel

/-- The kinds of claim. -/
inductive ClaimKind where
  /-- Proven by a contract's storage under a synced header. -/
  | evm
  /-- Proven in a tagged trie under a root signed by a committee. -/
  | taggedTrie
  /-- Proven by a path to a root signed by a committee. -/
  | signedRoot
  /-- Attested by the local validators. -/
  | relay
deriving DecidableEq, Repr

namespace ClaimKind

/-- All kinds, in the order of their names. -/
def all : List ClaimKind := [.taggedTrie, .evm, .relay, .signedRoot]

/-- The stable name of a kind. -/
def label : ClaimKind → String
  | .evm => "evm"
  | .taggedTrie => "alt_mpt"
  | .signedRoot => "signature"
  | .relay => "relay"

/-- The kind with a given name. -/
def ofLabel? (text : String) : Option ClaimKind := all.find? (·.label == text)

end ClaimKind

/-- Binds a router tag to a kind of claim. -/
structure Route where
  /-- The tag. -/
  router : UInt64
  /-- The kind that proves events on chains with the tag. -/
  kind : ClaimKind
deriving DecidableEq, Repr

/-- The kinds of claim by router tag. -/
abbrev RouteTable := OrderedMap UInt64 ClaimKind

namespace Route

/-- The routes used unless others are given. -/
def standard : List Route := [⟨1, .relay⟩, ⟨2, .evm⟩, ⟨3, .signedRoot⟩, ⟨4, .taggedTrie⟩]

/-- The table of some routes. -/
def table (routes : List Route) : RouteTable :=
  OrderedMap.ofList (routes.map fun route => (route.router, route.kind))

/-- The first tag that was bound before, by earlier routes or by the given tags. -/
def firstRepeated? (bound : List UInt64) : List Route → Option UInt64
  | [] => none
  | route :: rest =>
    if bound.contains route.router then some route.router
    else firstRepeated? (route.router :: bound) rest

end Route

end BridgeKernel
