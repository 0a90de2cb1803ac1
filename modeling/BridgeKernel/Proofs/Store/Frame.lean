import BridgeKernel.Committee.Basic
import BridgeKernel.Custody.Basic
import BridgeKernel.Header.Trusted
import BridgeKernel.Proofs.Store.Changes
import BridgeKernel.Replay
import BridgeKernel.Vote.Engine

/-!
# What a step may write

Each kind of record has one stored form. A step keeps within a set of records when it leaves all
other bytes of the store alone and what it leaves under the keys of the set has the form of their
kind. Keeping within a set is inherited by steps made of steps, so a store that begins empty holds
nothing but records in the form of their kinds.
-/

namespace BridgeKernel

/-- The stored forms of a record by its kind. -/
inductive RecordKey.Form : RecordKey → Bytes → Prop
  /-- A trusted header. -/
  | header {chain hash} (a : TrustedHeader) (h : Record.fits a = true) :
    Form (.header chain hash) (Record.write a)
  /-- A canonical digest. -/
  | canonical {chain level} (a : Hash) : Form (.canonical chain level) (Record.write a)
  /-- A canonical height. -/
  | height {chain} (a : UInt64) : Form (.height chain) (Record.write a)
  /-- The beginning of a chain. -/
  | genesis {chain} (a : GenesisRecord) : Form (.genesis chain) (Record.write a)
  /-- A validator set. -/
  | epoch {chain start} (a : ValidatorEpoch) (h : Record.fits a = true) :
    Form (.epoch chain start) (Record.write a)
  /-- The votes for a message. -/
  | vote {hash} (a : VoteRecord) (h : Record.fits a = true) : Form (.vote hash) (Record.write a)
  /-- The mark of an applied id. -/
  | applied {chain id} (a : ReplayMarker) : Form (.applied chain id) (Record.write a)
  /-- A committee. -/
  | committee {chain} (a : Committee) (h : Record.fits a = true) :
    Form (.committee chain) (Record.write a)
  /-- A custody script. -/
  | redeem {chain key} (a : RedeemRecord) (h : Record.fits a = true) :
    Form (.redeem chain key) (Record.write a)
  /-- Spendable outputs. -/
  | utxo {chain key} (a : List Utxo) (h : Record.fits a = true) :
    Form (.utxo chain key) (Record.write a)
  /-- Spent outputs. -/
  | stxo {chain key} (a : List Utxo) (h : Record.fits a = true) :
    Form (.stxo chain key) (Record.write a)
  /-- A payment. -/
  | draft {chain txid} (a : SpendDraft) (h : Record.fits a = true) :
    Form (.draft chain txid) (Record.write a)
  /-- Collected signatures. -/
  | multisig {txid} (a : SignatureCollection) (h : Record.fits a = true) :
    Form (.multisig txid) (Record.write a)

namespace State

/-- One state comes from another by writing records of a set, each in the form of its kind. -/
structure Writes (P : RecordKey → Prop) (s t : State) : Prop where
  /-- The address stays. -/
  module_eq : t.module = s.module
  /-- The schedule of failures stays. -/
  faults_eq : t.faults = s.faults
  /-- Bytes of the store either stay or are those of a record of the set. -/
  records : ∀ bytes, t.records.find? bytes = s.records.find? bytes ∨
    ∃ key, P key ∧ key.toBytes s.module = bytes ∧
      ∀ value, t.records.find? bytes = some value → key.Form value

/-- Everything in the store is a record in the form of its kind. -/
def WellFormed (s : State) : Prop :=
  ∀ bytes value, s.records.find? bytes = some value →
    ∃ key : RecordKey, key.toBytes s.module = bytes ∧ key.Form value

namespace Writes

variable {P Q : RecordKey → Prop} {s t u : State}

theorem refl (s : State) : s.Writes P s := ⟨rfl, rfl, fun _ => .inl rfl⟩

theorem of_untouched (h : s.Untouched t) : s.Writes P t := by
  obtain ⟨n, rfl⟩ := h
  exact ⟨rfl, rfl, fun _ => .inl rfl⟩

theorem trans (h : s.Writes P t) (h' : t.Writes P u) : s.Writes P u := by
  refine ⟨h'.module_eq.trans h.module_eq, h'.faults_eq.trans h.faults_eq, fun bytes => ?_⟩
  rcases h'.records bytes with hsame | ⟨key, hP, hk, hform⟩
  · rw [hsame]
    exact h.records bytes
  · exact .inr ⟨key, hP, h.module_eq ▸ hk, hform⟩

theorem mono (h : s.Writes P t) (hPQ : ∀ key, P key → Q key) : s.Writes Q t :=
  ⟨h.module_eq, h.faults_eq, fun bytes =>
    (h.records bytes).imp id fun ⟨key, hP, hk, hform⟩ => ⟨key, hPQ key hP, hk, hform⟩⟩

/-- Records outside the set stay as they are. -/
theorem raw?_eq (h : s.Writes P t) {key : RecordKey} (hkey : ¬ P key) :
    t.raw? key = s.raw? key := by
  rw [raw?, h.module_eq]
  rcases h.records (key.toBytes s.module) with hsame | ⟨key', hP, hk, -⟩
  · exact hsame
  · exact absurd (RecordKey.toBytes_injective _ hk ▸ hP) hkey

theorem lookup_eq {α : Type} [Record α] (h : s.Writes P t) {key : RecordKey} (hkey : ¬ P key) :
    t.lookup (α := α) key = s.lookup key := lookup_congr (h.raw?_eq hkey)

/-- Writing records keeps the store in form. -/
theorem wellFormed (h : s.Writes P t) (hs : s.WellFormed) : t.WellFormed := by
  intro bytes value hv
  rw [h.module_eq]
  rcases h.records bytes with hsame | ⟨key, -, hk, hform⟩
  · exact hs bytes value (hsame ▸ hv)
  · exact ⟨key, hk, hform value hv⟩

end Writes

/-- A record of a store in form has the form of its kind. -/
theorem WellFormed.form {s : State} (hs : s.WellFormed) {key : RecordKey} {value : Bytes}
    (h : s.raw? key = some value) : key.Form value := by
  obtain ⟨key', hk, hform⟩ := hs _ value h
  exact RecordKey.toBytes_injective _ hk ▸ hform

end State

/-- A kind of record has the stored forms of a type. -/
def RecordKey.Holds (α : Type) [Record α] (key : RecordKey) : Prop :=
  ∀ value, key.Form value → ∃ a : α, Record.fits a = true ∧ value = Record.write a

namespace RecordKey

theorem header_holds (chain : ChainId) (hash : Hash) :
    (header chain hash).Holds TrustedHeader := by
  rintro _ ⟨⟩
  exact ⟨_, ‹_›, rfl⟩

theorem canonical_holds (chain : ChainId) (level : UInt64) :
    (canonical chain level).Holds Hash := by
  rintro _ ⟨⟩
  exact ⟨_, rfl, rfl⟩

theorem height_holds (chain : ChainId) : (height chain).Holds UInt64 := by
  rintro _ ⟨⟩
  exact ⟨_, rfl, rfl⟩

theorem genesis_holds (chain : ChainId) : (genesis chain).Holds GenesisRecord := by
  rintro _ ⟨⟩
  exact ⟨_, rfl, rfl⟩

theorem epoch_holds (chain : ChainId) (start : UInt64) :
    (epoch chain start).Holds ValidatorEpoch := by
  rintro _ ⟨⟩
  exact ⟨_, ‹_›, rfl⟩

theorem vote_holds (hash : Hash) : (vote hash).Holds VoteRecord := by
  rintro _ ⟨⟩
  exact ⟨_, ‹_›, rfl⟩

theorem applied_holds (chain : ChainId) (id : Bytes) :
    (applied chain id).Holds ReplayMarker := by
  rintro _ ⟨⟩
  exact ⟨_, rfl, rfl⟩

theorem committee_holds (chain : ChainId) : (committee chain).Holds Committee := by
  rintro _ ⟨⟩
  exact ⟨_, ‹_›, rfl⟩

theorem redeem_holds (chain : ChainId) (key : String) :
    (redeem chain key).Holds RedeemRecord := by
  rintro _ ⟨⟩
  exact ⟨_, ‹_›, rfl⟩

theorem utxo_holds (chain : ChainId) (key : String) : (utxo chain key).Holds (List Utxo) := by
  rintro _ ⟨⟩
  exact ⟨_, ‹_›, rfl⟩

theorem stxo_holds (chain : ChainId) (key : String) : (stxo chain key).Holds (List Utxo) := by
  rintro _ ⟨⟩
  exact ⟨_, ‹_›, rfl⟩

end RecordKey

namespace State.WellFormed

variable {α : Type} [Record α] [LawfulRecord α] {s : State} {key : RecordKey}

/-- In a store in form there is a record wherever there are bytes for one. -/
theorem lookup_isSome (hs : s.WellFormed) (hkey : key.Holds α) :
    (s.raw? key).isSome = (s.lookup (α := α) key).isSome := by
  cases hraw : s.raw? key with
  | none =>
    rw [lookup_of_raw?_none hraw]
    rfl
  | some value =>
    obtain ⟨a, hfits, rfl⟩ := hkey value (hs.form hraw)
    rw [lookup_of_raw?_some hraw hfits]
    rfl

/-- In a store in form every record fits. -/
theorem lookup_fits (hs : s.WellFormed) (hkey : key.Holds α) {a : α} (h : s.lookup key = some a) :
    Record.fits a = true := by
  cases hraw : s.raw? key with
  | none => exact nomatch (lookup_of_raw?_none hraw).symm.trans h
  | some value =>
    obtain ⟨b, hfits, rfl⟩ := hkey value (hs.form hraw)
    rw [lookup_of_raw?_some hraw hfits] at h
    cases h
    exact hfits

end State.WellFormed

/-- A change of a record of a set that leaves it in its form. -/
def Change.Within (P : RecordKey → Prop) (c : Change) : Prop :=
  P c.key ∧ ∀ value, c.value? = some value → c.key.Form value

namespace Change.Within

variable {P : RecordKey → Prop} {key : RecordKey}

theorem store {α : Type} [Record α] {a : α} (hP : P key) (hform : key.Form (Record.write a)) :
    (Change.store key a).Within P := ⟨hP, fun _ hv => Option.some.inj hv ▸ hform⟩

theorem remove (hP : P key) : (Change.remove key).Within P := ⟨hP, fun _ hv => nomatch hv⟩

end Change.Within

namespace State

variable {P : RecordKey → Prop} {s t : State}

theorem Writes.change {c : Change} (h : c.Within P) : s.Writes P (s.change c) := by
  refine ⟨rfl, rfl, fun bytes => ?_⟩
  have hfind := Contents.find?_apply s.records (c.toWrite s.module) bytes
  rw [Change.toWrite_key, Change.toWrite_value?] at hfind
  by_cases hk : bytes = c.key.toBytes s.module
  · rw [if_pos hk] at hfind
    exact .inr ⟨c.key, h.1, hk.symm, fun value hv => h.2 value (hfind.symm.trans hv)⟩
  · rw [if_neg hk] at hfind
    exact .inl hfind

/-- Changes within a set write records of the set. -/
theorem Changed.writes {changes : List Change} (h : s.Changed changes t)
    (hc : ∀ c ∈ changes, c.Within P) : s.Writes P t := by
  refine Writes.trans ?_ (.of_untouched h)
  clear h
  induction changes generalizing s with
  | nil => exact .refl s
  | cons c changes ih =>
    have hhead := Writes.change (s := s) (hc c List.mem_cons_self)
    exact hhead.trans (ih fun d hd => hc d (List.mem_cons_of_mem _ hd))

theorem Changed.writes_one {c : Change} (h : s.Changed [c] t) (hc : c.Within P) :
    s.Writes P t :=
  h.writes (List.forall_mem_singleton.mpr hc)

end State

namespace Transition

variable {ε ε' α β : Type} {P : RecordKey → Prop}

/-- A step that writes records of a set only. -/
def Within (P : RecordKey → Prop) (x : Transition ε α) : Prop := ∀ s : State, s.Writes P (x s).2

theorem ReadOnly.within {x : Transition ε α} (hx : x.ReadOnly) : x.Within P :=
  fun s => .of_untouched (hx s)

namespace Within

/-- The second part of a step needs to keep within the set only as far as the first leads to it. -/
theorem bind_of_ok {x : Transition ε α} {f : α → Transition ε β} (hx : x.Within P)
    (hf : ∀ s a t, x s = (.ok a, t) → t.Writes P (f a t).2) : (x >>= f).Within P := by
  intro s
  have hs := hx s
  rw [bind_run]
  rcases hr : x s with ⟨e | a, u⟩
  · simpa [hr] using hs
  · rw [hr] at hs
    exact hs.trans (hf s a u hr)

protected theorem bind {x : Transition ε α} {f : α → Transition ε β} (hx : x.Within P)
    (hf : ∀ a, (f a).Within P) : (x >>= f).Within P :=
  hx.bind_of_ok fun _ a t _ => hf a t

/-- A step that begins by reading keeps within the set when what follows does. -/
protected theorem read {x : Transition ε α} {f : α → Transition ε β} (hx : x.ReadOnly)
    (hf : ∀ a, (f a).Within P) : (x >>= f).Within P := hx.within.bind hf

protected theorem guard {c : Prop} [Decidable c] {e : ε} {k : Unit → Transition ε β}
    (h : (k ()).Within P) : (if c then throw e >>= k else k () : Transition ε β).Within P := by
  split
  · exact fun s => .refl s
  · exact h

protected theorem mapError {x : Transition ε α} (hx : x.Within P) (f : ε → ε') :
    (x.mapError f).Within P := by
  intro s
  rw [mapError_snd]
  exact hx s

/-- A step that has no effect when refused keeps within a set when it does so otherwise. -/
theorem of_atomic {x : Transition ε α} (hx : x.Atomic)
    (hok : ∀ s a t, x s = (.ok a, t) → s.Writes P t) : x.Within P := by
  intro s
  rcases hr : x s with ⟨e | a, t⟩
  · exact .of_untouched (hx _ _ _ hr)
  · exact hok s a t hr

end Within

end Transition

namespace State

variable {α : Type} [Record α] {P : RecordKey → Prop} {key : RecordKey}

/-- Storing a record in its form keeps within every set that has it. -/
theorem store_within {a : α} (hP : P key)
    (hform : Record.fits a = true → key.Form (Record.write a)) : (store key a).Within P := by
  intro s
  rcases hr : store key a s with ⟨e | x, t⟩
  · exact .of_untouched (store_atomic key a _ _ _ hr)
  · obtain ⟨hf, hchanged⟩ := store_changed hr
    exact hchanged.writes_one (.store hP (hform hf))

end State

end BridgeKernel
