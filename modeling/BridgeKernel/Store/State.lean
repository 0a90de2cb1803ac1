import BridgeKernel.Failure
import BridgeKernel.Store.Key
import BridgeKernel.Wire.Record

/-!
# The state of the bridge

The host lends the bridge an ordered store of byte strings. Any operation on it may fail, and one
that fails has no effect; a schedule says which operations fail, so that a law about all patterns of
failure quantifies over schedules. On top of the raw operations stand the typed ones, which encode
and decode records.
-/

namespace BridgeKernel

/-- The operations that the host offers. -/
inductive StoreOp where
  /-- Reading one value. -/
  | get
  /-- Writing one value. -/
  | put
  /-- Removing one value. -/
  | delete
  /-- Applying several writes at once. -/
  | batch
  /-- Asking whether a key has a value. -/
  | exists
  /-- Listing the pairs under a common beginning of their keys. -/
  | scan
deriving DecidableEq, Repr

/-- The name of an operation. -/
def StoreOp.label : StoreOp → String
  | .get => "get"
  | .put => "put"
  | .delete => "delete"
  | .batch => "batch"
  | .exists => "exists"
  | .scan => "scan"

/-- A failure of the host's store. -/
inductive StoreFault where
  /-- Reading or writing failed. -/
  | io (text : String)
  /-- The store is damaged. -/
  | corruption (text : String)
deriving DecidableEq, Repr

/-- The wording of a store failure. -/
def StoreFault.message : StoreFault → String
  | .io text => "KV store I/O error: " ++ text
  | .corruption text => "KV store corruption: " ++ text

/-- One write of a batch. -/
inductive Write where
  /-- Sets the value of a key. -/
  | put (key value : Bytes)
  /-- Removes the value of a key. -/
  | delete (key : Bytes)
deriving DecidableEq

/-- The key that a write touches. -/
def Write.key : Write → Bytes
  | .put key _ => key
  | .delete key => key

/-- The contents of the store. -/
abbrev Contents := OrderedMap Bytes Bytes

namespace Contents

/-- The contents after one write. -/
def apply (records : Contents) : Write → Contents
  | .put key value => records.insert key value
  | .delete key => records.erase key

/-- The contents after the writes of a batch, in order. -/
def applyAll (records : Contents) (writes : List Write) : Contents := writes.foldl apply records

/-- The pairs whose key begins with the given bytes: the listing starts at these bytes and stops at
the first key that does not match. -/
def scan (records : Contents) (start : Bytes) : List (Bytes × Bytes) :=
  (records.entries.dropWhile fun e => compare e.1 start == .lt).takeWhile
    fun e => start.isPrefixOf e.1

end Contents

/-- The bridge's view of its host. -/
structure State where
  /-- The address under which all keys of the bridge lie. -/
  module : Bytes
  /-- The contents of the store. -/
  records : Contents
  /-- The failure, if any, of the operation with a given number. -/
  faults : Nat → StoreOp → Option StoreFault
  /-- The number of the next operation. -/
  clock : Nat

/-- The state of an empty store without failures. -/
def State.initial (module : Bytes) : State := ⟨module, .empty, fun _ _ => none, 0⟩

/-- A step that reads and changes the state and may be refused; what it did before it was refused
stays done. -/
abbrev Transition (ε α : Type) := ExceptT ε (StateM State) α

namespace Transition

variable {ε ε' α : Type}

/-- The same step with its refusals seen as those of a larger step. -/
def mapError (f : ε → ε') (step : Transition ε α) : Transition ε' α := fun s =>
  match step s with
  | (.ok a, s') => (.ok a, s')
  | (.error e, s') => (.error (f e), s')

/-- A step that touches nothing. -/
def ofExcept (f : ε → ε') : Except ε α → Transition ε' α
  | .ok a => pure a
  | .error e => throw (f e)

end Transition

namespace Store

/-- Carries out one operation of the host, unless it is scheduled to fail. -/
def perform {α : Type} (op : StoreOp) (effect : Contents → α × Contents) :
    Transition StoreFault α := fun s =>
  match s.faults s.clock op with
  | some fault => (.error fault, { s with clock := s.clock + 1 })
  | none =>
    let result := effect s.records
    (.ok result.1, { s with clock := s.clock + 1, records := result.2 })

/-- The value of a key. -/
def get (key : Bytes) : Transition StoreFault (Option Bytes) :=
  perform .get fun records => (records.find? key, records)

/-- Sets the value of a key. -/
def put (key value : Bytes) : Transition StoreFault Unit :=
  perform .put fun records => ((), records.insert key value)

/-- Removes the value of a key. -/
def delete (key : Bytes) : Transition StoreFault Unit :=
  perform .delete fun records => ((), records.erase key)

/-- Applies several writes in order, all or none. -/
def batch (writes : List Write) : Transition StoreFault Unit :=
  perform .batch fun records => ((), records.applyAll writes)

/-- Whether a key has a value. -/
def hasKey (key : Bytes) : Transition StoreFault Bool :=
  perform .exists fun records => (records.contains key, records)

/-- The pairs whose key begins with the given bytes, in ascending key order. -/
def scan (start : Bytes) : Transition StoreFault (List (Bytes × Bytes)) :=
  perform .scan fun records => (records.scan start, records)

end Store

/-- A failure of the typed operations. -/
inductive StorageError where
  /-- The store failed. -/
  | database (fault : StoreFault)
  /-- A value is too large to be stored. -/
  | encode (key : Bytes)
  /-- Stored bytes are no record of the wanted type. -/
  | decode (key : Bytes) (cause : Record.Error)
deriving DecidableEq

namespace StorageError

/-- The wording of a storage failure. -/
def message : StorageError → String
  | .database fault => "Database error: " ++ fault.message
  | .encode key => "Failed to encode record at key " ++ key.toHex ++
      ": the size limit has been reached"
  | .decode key cause => "Failed to decode record at key " ++ key.toHex ++ ": " ++ cause.message

/-- All of them are storage failures. -/
def kind (_ : StorageError) : FailureKind := .storage

instance : Refusal StorageError := ⟨kind, message⟩

end StorageError

namespace State

variable {α : Type} [Record α]

/-- The record that bytes found under a key spell. -/
def decodeAt (key bytes : Bytes) : Except StorageError α :=
  match Record.decode bytes with
  | .ok a => .ok a
  | .error cause => .error (.decode key cause)

/-- The record under a key. -/
def get? (key : Bytes) : Transition StorageError (Option α) := do
  match ← (Store.get key).mapError .database with
  | none => return none
  | some bytes => return some (← Transition.ofExcept id (decodeAt key bytes))

/-- Whether there is a record under a key. -/
def contains (key : Bytes) : Transition StorageError Bool := (Store.hasKey key).mapError .database

/-- The write that stores a record, unless the record is too large. -/
def writeOf (key : Bytes) (value : α) : Except StorageError Write :=
  if Record.fits value then .ok (.put key (Record.write value)) else .error (.encode key)

/-- Stores a record under a key. -/
def put (key : Bytes) (value : α) : Transition StorageError Unit := do
  if Record.fits value then (Store.put key (Record.write value)).mapError .database
  else throw (.encode key)

/-- Removes the record under a key. -/
def delete (key : Bytes) : Transition StorageError Unit := (Store.delete key).mapError .database

/-- Applies a batch at once; an empty one does not reach the store. -/
def commit (writes : List Write) : Transition StorageError Unit :=
  if writes.isEmpty then pure () else (Store.batch writes).mapError .database

/-- The records whose key begins with the given bytes, in ascending key order. -/
def scan (start : Bytes) : Transition StorageError (List (Bytes × α)) := do
  let pairs ← (Store.scan start).mapError .database
  Transition.ofExcept id (pairs.mapM fun e => do return (e.1, ← decodeAt e.1 e.2))

/-! ## Records by what they are about -/

/-- The key bytes of a record of this bridge. -/
def keyOf (key : RecordKey) : Transition StorageError Bytes := do return key.toBytes (← get).module

/-- The record about something. -/
def load? (key : RecordKey) : Transition StorageError (Option α) := do get? (← keyOf key)

/-- Whether there is a record about something. -/
def has (key : RecordKey) : Transition StorageError Bool := do contains (← keyOf key)

/-- Stores the record about something. -/
def store (key : RecordKey) (value : α) : Transition StorageError Unit := do put (← keyOf key) value

/-- The write that stores the record about something. -/
def writeAbout (key : RecordKey) (value : α) : Transition StorageError Write := do
  Transition.ofExcept id (writeOf (← keyOf key) value)

/-- The write that removes the record about something. -/
def deleteAbout (key : RecordKey) : Transition StorageError Write := do
  return .delete (← keyOf key)

end State

end BridgeKernel
