import BridgeKernel.Header.LightClient
import BridgeKernel.Proofs.Store.Calm
import BridgeKernel.Proofs.Store.Changes
import Mathlib.Logic.Function.Basic

/-!
# What the light client remembers of a chain

The records of the light client read back, so a state can be seen as what it remembers of each
chain: the headers by digest, the canonical digests by height, the canonical height, where the chain
began, and the validator sets known from governance.
-/

namespace BridgeKernel

open Record Wire

/-! ## Records read back -/

theorem Header.readBloom_append (bloom : FixedBytes 256) (rest : Bytes) :
    readBloom (lengthBytes 256 ++ (bloom.toBytes ++ rest)) = .ok (bloom, rest) := by
  have hl := takeNat_lengthBytes (show 256 < lengthLimit by decide) (bloom.toBytes ++ rest)
  have ht := takeBytes_append .endOfText bloom.toBytes rest
  rw [bloom.length_toBytes] at ht
  rw [readBloom, bind_of_ok hl, bind_of_ok ht, FixedBytes.ofBytes?_toBytes]
  rfl

instance : LawfulRecord Header where
  read_write h rest hf := by
    have hextra : fits h.extra = true := hf
    change (do
      let parentHash ← read
      let uncleHash ← read
      let coinbase ← read
      let stateRoot ← read
      let txRoot ← read
      let receiptRoot ← read
      let bloom ← Header.readBloom
      let difficulty ← read
      let number ← read
      let gasLimit ← read
      let gasUsed ← read
      let time ← read
      let extra ← read
      let mixDigest ← read
      let nonce ← read
      return { parentHash, uncleHash, coinbase, stateRoot, txRoot, receiptRoot, bloom, difficulty,
               number, gasLimit, gasUsed, time, extra, mixDigest, nonce } : Reader Header)
      (write h.parentHash ++ write h.uncleHash ++ write h.coinbase ++ write h.stateRoot ++
        write h.txRoot ++ write h.receiptRoot ++ (lengthBytes 256 ++ h.bloom.toBytes) ++
        write h.difficulty ++ write h.number ++ write h.gasLimit ++ write h.gasUsed ++
        write h.time ++ write h.extra ++ write h.mixDigest ++ write h.nonce ++ rest) = _
    simp only [List.append_assoc, bind_read_write, bind_of_ok (Header.readBloom_append _ _),
      fits_fixedBytes, fits_word, hextra]
    rfl

instance : LawfulRecord TrustedHeader where
  read_write t rest hf := by
    have hheader : fits t.header = true := hf
    change (do
      let hash ← read
      let header ← read
      let signer ← read
      let weight ← read
      return { hash, header, signer, weight } : Reader TrustedHeader)
      (write t.hash ++ write t.header ++ write t.signer ++ write t.weight ++ rest) = _
    simp only [List.append_assoc]
    rw [bind_read_write rfl, bind_read_write hheader, bind_read_write rfl, bind_read_write rfl]
    rfl

instance : LawfulRecord GenesisRecord where
  read_write g rest _ := by
    change (do
      let hash ← read
      let number ← read
      let priorEpochStart ← read
      return { hash, number, priorEpochStart } : Reader GenesisRecord)
      (write g.hash ++ write g.number ++ write g.priorEpochStart ++ rest) = _
    simp only [List.append_assoc]
    rw [bind_read_write rfl, bind_read_write rfl, bind_read_write rfl]
    rfl

instance : LawfulRecord ValidatorEpoch where
  read_write e rest hf := by
    have hvalidators : fits e.validators = true := hf
    change (do
      let start ← read
      let validators ← read
      return ⟨start, validators⟩ : Reader ValidatorEpoch)
      (write e.startHeight ++ write e.validators ++ rest) = _
    rw [List.append_assoc, bind_read_write rfl, bind_read_write hvalidators]
    rfl

/-! ## The memory of a chain -/

/-- What the light client remembers of one chain. -/
@[ext]
structure ChainMemory where
  /-- The trusted header with a digest. -/
  header? : Hash → Option TrustedHeader
  /-- The canonical digest at a height. -/
  canonical? : UInt64 → Option Hash
  /-- The canonical height. -/
  height? : Option UInt64
  /-- Where the chain began. -/
  genesis? : Option GenesisRecord
  /-- The validator set from governance that begins at a height. -/
  epoch? : UInt64 → Option ValidatorEpoch

namespace ChainMemory

/-- The memory with a header added. -/
def setHeader (m : ChainMemory) (trusted : TrustedHeader) : ChainMemory :=
  { m with header? := Function.update m.header? trusted.hash (some trusted) }

/-- The memory with the canonical digest of a height set or cleared. -/
def setMark (m : ChainMemory) (level : UInt64) (hash? : Option Hash) : ChainMemory :=
  { m with canonical? := Function.update m.canonical? level hash? }

/-- The memory with the canonical height set. -/
def setHeight (m : ChainMemory) (level : UInt64) : ChainMemory := { m with height? := some level }

/-- The memory with a beginning. -/
def setGenesis (m : ChainMemory) (record : GenesisRecord) : ChainMemory :=
  { m with genesis? := some record }

/-- The memory with a validator set added under a height. -/
def setEpoch (m : ChainMemory) (start : UInt64) (epoch : ValidatorEpoch) : ChainMemory :=
  { m with epoch? := Function.update m.epoch? start (some epoch) }

/-- The markers after some are cleared and then others set, in order. -/
def remark (marks : UInt64 → Option Hash) (clear : List UInt64) (assign : List (UInt64 × Hash)) :
    UInt64 → Option Hash :=
  assign.foldl (fun marks entry => Function.update marks entry.1 (some entry.2))
    (clear.foldl (fun marks level => Function.update marks level none) marks)

/-- The memory after the canonical markers have moved. -/
def move (m : ChainMemory) : Option CanonicalUpdate → ChainMemory
  | none => m
  | some update =>
    { m with
      canonical? := remark m.canonical? update.clear update.assign
      height? := some update.newHeight }

@[simp] theorem move_header? (m : ChainMemory) (update? : Option CanonicalUpdate) :
    (m.move update?).header? = m.header? := by cases update? <;> rfl

@[simp] theorem move_genesis? (m : ChainMemory) (update? : Option CanonicalUpdate) :
    (m.move update?).genesis? = m.genesis? := by cases update? <;> rfl

@[simp] theorem move_epoch? (m : ChainMemory) (update? : Option CanonicalUpdate) :
    (m.move update?).epoch? = m.epoch? := by cases update? <;> rfl

@[simp] theorem setHeader_header? (m : ChainMemory) (T : TrustedHeader) (hash : Hash) :
    (m.setHeader T).header? hash = if hash = T.hash then some T else m.header? hash :=
  Function.update_apply _ _ _ _

theorem setHeader_of_some {m : ChainMemory} {T H : TrustedHeader} {hash : Hash}
    (fresh : m.header? T.hash = none) (h : m.header? hash = some H) :
    (m.setHeader T).header? hash = some H := by
  rw [setHeader_header?, if_neg]
  · exact h
  · rintro rfl
    exact nomatch fresh.symm.trans h

/-- What one memory holds of headers, a beginning and validator sets, another holds as well. -/
structure Extends (m m' : ChainMemory) : Prop where
  header : ∀ {hash H}, m.header? hash = some H → m'.header? hash = some H
  genesis : ∀ {record}, m.genesis? = some record → m'.genesis? = some record
  epoch : ∀ {start e}, m.epoch? start = some e → m'.epoch? start = some e

namespace Extends

variable {m m' : ChainMemory}

theorem refl (m : ChainMemory) : m.Extends m := ⟨id, id, id⟩

theorem trans {m'' : ChainMemory} (h : m.Extends m') (h' : m'.Extends m'') : m.Extends m'' :=
  ⟨fun hH => h'.header (h.header hH), fun hr => h'.genesis (h.genesis hr),
    fun he => h'.epoch (h.epoch he)⟩

/-- A new header extends a memory, whatever markers move with it. -/
theorem setHeader {T : TrustedHeader} (fresh : m.header? T.hash = none)
    (update? : Option CanonicalUpdate) : m.Extends ((m.setHeader T).move update?) := by
  refine ⟨fun hH => ?_, fun hr => ?_, fun he => ?_⟩
  · rw [move_header?]
    exact setHeader_of_some fresh hH
  · rwa [move_genesis?]
  · rwa [move_epoch?]

end Extends

end ChainMemory

/-- What a state remembers of a chain. -/
def State.memory (s : State) (chain : ChainId) : ChainMemory where
  header? hash := s.lookup (.header chain hash)
  canonical? level := s.lookup (.canonical chain level)
  height? := s.lookup (.height chain)
  genesis? := s.lookup (.genesis chain)
  epoch? start := s.lookup (.epoch chain start)

/-- A record of the memory of a chain. -/
def RecordKey.Remembers (chain : ChainId) : RecordKey → Prop
  | .header c _ | .canonical c _ | .height c | .genesis c | .epoch c _ => c = chain
  | _ => False

namespace State

variable {s t : State} {chain : ChainId}

theorem Untouched.memory_eq (h : s.Untouched t) (chain : ChainId) :
    t.memory chain = s.memory chain := by
  obtain ⟨n, rfl⟩ := h
  rfl

theorem Changed.memory_eq {changes : List Change} (h : s.Changed changes t) (chain : ChainId) :
    t.memory chain = (s.changeAll changes).memory chain := Untouched.memory_eq h chain

/-- Writing other records leaves the memory of a chain as it is. -/
theorem Writes.memory_eq {P : RecordKey → Prop} (h : s.Writes P t)
    (hP : ∀ key, P key → ¬ key.Remembers chain) : t.memory chain = s.memory chain := by
  have same (key : RecordKey) (hkey : key.Remembers chain) : t.raw? key = s.raw? key :=
    h.raw?_eq fun hp => hP key hp hkey
  simp only [memory, lookup_congr (same (.header chain _) rfl),
    lookup_congr (same (.canonical chain _) rfl), lookup_congr (same (.height chain) rfl),
    lookup_congr (same (.genesis chain) rfl), lookup_congr (same (.epoch chain _) rfl)]

/-- In a store in form there is a canonical digest wherever there are bytes for one. -/
theorem WellFormed.canonical_isSome (hs : s.WellFormed) (chain : ChainId) (level : UInt64) :
    (s.raw? (.canonical chain level)).isSome = ((s.memory chain).canonical? level).isSome :=
  hs.lookup_isSome (RecordKey.canonical_holds chain level)

/-- In a store in form there is a header wherever there are bytes for one. -/
theorem WellFormed.header_isSome (hs : s.WellFormed) (chain : ChainId) (hash : Hash) :
    (s.raw? (.header chain hash)).isSome = ((s.memory chain).header? hash).isSome :=
  hs.lookup_isSome (RecordKey.header_holds chain hash)

/-- In a store in form every stored header fits. -/
theorem WellFormed.header_fits (hs : s.WellFormed) {hash : Hash} {H : TrustedHeader}
    (h : (s.memory chain).header? hash = some H) : fits H = true :=
  hs.lookup_fits (RecordKey.header_holds chain hash) h

/-- In a store in form every stored validator set fits. -/
theorem WellFormed.epoch_fits (hs : s.WellFormed) {start : UInt64} {e : ValidatorEpoch}
    (h : (s.memory chain).epoch? start = some e) : fits e = true :=
  hs.lookup_fits (RecordKey.epoch_holds chain start) h

/-! ## Changes of the memory -/

theorem memory_change_header {trusted : TrustedHeader} (hf : fits trusted = true) :
    (s.change (.store (.header chain trusted.hash) trusted)).memory chain =
      (s.memory chain).setHeader trusted := by
  ext1
  case header? =>
    funext hash
    by_cases h : hash = trusted.hash
    · subst h
      simp [memory, ChainMemory.setHeader, lookup_change_store hf]
    · simp [memory, ChainMemory.setHeader, h, lookup_change_of_ne, Change.store]
  all_goals simp [memory, ChainMemory.setHeader, lookup_change_of_ne, Change.store]

theorem memory_change_mark (level : UInt64) (hash : Hash) :
    (s.change (.store (.canonical chain level) hash)).memory chain =
      (s.memory chain).setMark level (some hash) := by
  ext1
  case canonical? =>
    funext level'
    by_cases h : level' = level
    · subst h
      simp [memory, ChainMemory.setMark, lookup_change_store]
    · simp [memory, ChainMemory.setMark, h, lookup_change_of_ne, Change.store]
  all_goals simp [memory, ChainMemory.setMark, lookup_change_of_ne, Change.store]

theorem memory_change_clear (level : UInt64) :
    (s.change (.remove (.canonical chain level))).memory chain =
      (s.memory chain).setMark level none := by
  ext1
  case canonical? =>
    funext level'
    by_cases h : level' = level
    · subst h
      simp [memory, ChainMemory.setMark, lookup_change_remove]
    · simp [memory, ChainMemory.setMark, h, lookup_change_of_ne, Change.remove]
  all_goals simp [memory, ChainMemory.setMark, lookup_change_of_ne, Change.remove]

theorem memory_change_height (level : UInt64) :
    (s.change (.store (.height chain) level)).memory chain = (s.memory chain).setHeight level := by
  ext1
  case height? => exact lookup_change_store rfl
  all_goals simp [memory, ChainMemory.setHeight, lookup_change_of_ne, Change.store]

theorem memory_change_genesis (record : GenesisRecord) :
    (s.change (.store (.genesis chain) record)).memory chain =
      (s.memory chain).setGenesis record := by
  ext1
  case genesis? => exact lookup_change_store rfl
  all_goals simp [memory, ChainMemory.setGenesis, lookup_change_of_ne, Change.store]

theorem memory_change_epoch {start : UInt64} {epoch : ValidatorEpoch} (hf : fits epoch = true) :
    (s.change (.store (.epoch chain start) epoch)).memory chain =
      (s.memory chain).setEpoch start epoch := by
  ext1
  case epoch? =>
    funext start'
    by_cases h : start' = start
    · subst h
      simp [memory, ChainMemory.setEpoch, lookup_change_store hf]
    · simp [memory, ChainMemory.setEpoch, h, lookup_change_of_ne, Change.store]
  all_goals simp [memory, ChainMemory.setEpoch, lookup_change_of_ne, Change.store]

end State

/-! ## Queries -/

namespace LightClient

open Transition

theorem genesis?_reading (chain : ChainId) : (genesis? chain).Reading :=
  .mapError (State.load?_reading _) _

theorem height?_reading (chain : ChainId) : (height? chain).Reading :=
  .mapError (State.load?_reading _) _

theorem header?_reading (chain : ChainId) (hash : Hash) : (header? chain hash).Reading :=
  .mapError (State.load?_reading _) _

theorem canonicalHash?_reading (chain : ChainId) (level : UInt64) :
    (canonicalHash? chain level).Reading :=
  .mapError (State.load?_reading _) _

theorem epoch?_reading (chain : ChainId) (start : UInt64) : (epoch? chain start).Reading :=
  .mapError (State.load?_reading _) _

theorem canonicalHeader?_reading (chain : ChainId) (level : UInt64) :
    (canonicalHeader? chain level).Reading := by
  refine .bind (canonicalHash?_reading chain level) fun found => ?_
  cases found with
  | none => exact .pure _
  | some hash => exact header?_reading chain hash

end LightClient

end BridgeKernel
