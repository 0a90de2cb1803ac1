import BridgeKernel.Failure
import BridgeKernel.Text.Utf8
import BridgeKernel.Wire.Rlp

/-!
# Events and instructions

An event is what a foreign chain commits to: a list of seven items. An instruction is an event bound
to the chain on which it was proven, ready to be carried out locally.
-/

namespace BridgeKernel

/-- The number that the bridge gives to a registered chain. -/
abbrev ChainId := UInt64

/-- The local block in which a transition takes place. -/
structure BlockContext where
  /-- Height of the block. -/
  height : UInt64
  /-- Unix time of the block in seconds. -/
  timestamp : UInt64
deriving DecidableEq, Repr

/-- The registration of a foreign chain. -/
structure SideChain where
  /-- Number of the chain. -/
  chainId : ChainId
  /-- Display name. -/
  name : String
  /-- Tag that selects how its claims are verified. -/
  router : UInt64
  /-- The contract whose state or events are proven. -/
  contract : Bytes
  /-- Canonical headers that must bury a proven height. -/
  blocksToWait : UInt64
deriving DecidableEq

/-- The body of an event on a foreign chain. -/
structure Event where
  /-- Digest of the transaction that emitted it. -/
  txHash : Bytes
  /-- Token by which the source chain tells its events apart. -/
  crossChainId : Bytes
  /-- The emitting contract. -/
  fromContract : Bytes
  /-- The chain that it is addressed to. -/
  toChain : ChainId
  /-- The contract that it is addressed to. -/
  toContract : Bytes
  /-- The method to call there. -/
  method : Bytes
  /-- The arguments of the call. -/
  args : Bytes
deriving DecidableEq

/-- Why an event was refused. -/
inductive EventError where
  /-- The bytes are not a list of the seven items. -/
  | decode (cause : Rlp.Error)
  /-- The cross-chain id is empty. -/
  | emptyCrossChainId
  /-- The method is empty or no text. -/
  | invalidMethod
deriving DecidableEq

namespace EventError

/-- The wording of a refusal. -/
def message : EventError → String
  | .decode cause => "Payload decode failed: " ++ cause.message
  | .emptyCrossChainId => "Payload has an empty cross-chain id"
  | .invalidMethod => "Payload method is empty or not utf-8"

/-- Every refused event is malformed input. -/
def kind (_ : EventError) : FailureKind := .malformedInput

instance : Refusal EventError := ⟨kind, message⟩

end EventError

/-- An admitted claim. -/
structure Instruction where
  /-- Digest of the transaction that emitted the event. -/
  txHash : Bytes
  /-- Token under which the claim is remembered. -/
  crossChainId : Bytes
  /-- The chain on which the event was proven. -/
  sourceChain : ChainId
  /-- The emitting contract. -/
  sourceContract : Bytes
  /-- The chain that carries the instruction out. -/
  destChain : ChainId
  /-- The contract to call. -/
  destContract : Bytes
  /-- The method to call. -/
  method : String
  /-- The arguments of the call. -/
  args : Bytes
deriving DecidableEq

namespace Event

/-- The bytes whose digest the source chain commits to. -/
def encode (e : Event) : Bytes :=
  Rlp.encodeList [Rlp.encodeBytes e.txHash, Rlp.encodeBytes e.crossChainId,
    Rlp.encodeBytes e.fromContract, Rlp.encodeNat e.toChain.toNat, Rlp.encodeBytes e.toContract,
    Rlp.encodeBytes e.method, Rlp.encodeBytes e.args]

/-- The event that seven items spell, read in order. -/
def ofItems : List Bytes → Except Rlp.Error Event
  | [txHash, crossChainId, fromContract, toChain, toContract, method, args] => do
    return {
      txHash := ← Rlp.readBytes txHash
      crossChainId := ← Rlp.readBytes crossChainId
      fromContract := ← Rlp.readBytes fromContract
      toChain := UInt64.ofNat (← Rlp.readNat 8 toChain)
      toContract := ← Rlp.readBytes toContract
      method := ← Rlp.readBytes method
      args := ← Rlp.readBytes args }
  | _ => .error .incorrectListLen

/-- The event at the front of a byte string. -/
def decode (bytes : Bytes) : Except EventError Event :=
  match Rlp.items bytes >>= ofItems with
  | .ok e => .ok e
  | .error cause => .error (.decode cause)

/-- The event bound to the chain on which it was proven. -/
def toInstruction (e : Event) (source : ChainId) : Except EventError Instruction :=
  if e.crossChainId.isEmpty then .error .emptyCrossChainId
  else
    match Utf8.decode? e.method with
    | none => .error .invalidMethod
    | some method =>
      if e.method.isEmpty then .error .invalidMethod
      else .ok {
        txHash := e.txHash
        crossChainId := e.crossChainId
        sourceChain := source
        sourceContract := e.fromContract
        destChain := e.toChain
        destContract := e.toContract
        method := method
        args := e.args }

end Event

end BridgeKernel
