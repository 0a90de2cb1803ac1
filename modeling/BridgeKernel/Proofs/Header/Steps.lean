import BridgeKernel.Proofs.Header.Records
import BridgeKernel.Proofs.Header.Rules

/-!
# What the light client does to a chain

Every call on a chain is a sequence of steps. A step leaves the records alone, or begins the chain,
or stores one verified header together with the markers that it moves; the last two are single
batches, so a failure never leaves half of one.
-/

namespace BridgeKernel

open Transition

/-! ## Reading through the view of a chain -/

namespace ChainView

variable {chain : ChainId} {s t u : State}

theorem ofStore_eq (chain : ChainId) (h : s.Untouched t) : ofStore chain t = ofStore chain s := by
  rw [ofStore, h.records_eq, ofStore]

theorem header?_reading (chain : ChainId) (s : State) (hash : Hash) :
    ((ofStore chain s).header? hash).Reading := .mapError (State.load?_reading _) _

theorem canonical?_reading (chain : ChainId) (s : State) (level : UInt64) :
    ((ofStore chain s).canonical? level).Reading := .mapError (State.load?_reading _) _

theorem header?_ok {hash : Hash} {found : Option TrustedHeader}
    (h : (ofStore chain s).header? hash t = (.ok found, u)) :
    found = (t.memory chain).header? hash ∧ t.Untouched u := State.load?_ok (mapError_ok h)

theorem canonical?_ok {level : UInt64} {found : Option Hash}
    (h : (ofStore chain s).canonical? level t = (.ok found, u)) :
    found = (t.memory chain).canonical? level ∧ t.Untouched u := State.load?_ok (mapError_ok h)

variable (s : State) (chain : ChainId)

theorem findEpochs_reading (config : HeaderSyncConfig) (genesis : GenesisEpochs)
    (target : UInt64) (fuel : Nat) (newer? : Option ValidatorEpoch) (cursor : TrustedHeader) :
    ((ofStore chain s).findEpochs config genesis target fuel newer? cursor).Reading := by
  induction fuel generalizing newer? cursor with
  | zero => exact .throw _
  | succ fuel ih =>
    refine .bind (.ofExcept _ _) fun visited => ?_
    rcases visited with pair | found
    · exact .pure _
    · refine .bind (header?_reading chain s _) fun parent? => ?_
      cases parent? with
      | none => exact .throw _
      | some parent => exact ih found parent

theorem walkRecent_reading (number : UInt64) (signer : Address) (window : UInt64) (fuel : Nat)
    (ancestor : TrustedHeader) :
    ((ofStore chain s).walkRecent number signer window fuel ancestor).Reading := by
  induction fuel generalizing ancestor with
  | zero => exact .pure _
  | succ fuel ih =>
    unfold walkRecent
    split
    · exact .pure _
    · refine .guard ?_
      refine .bind (header?_reading chain s _) fun parent? => ?_
      cases parent? with
      | none => exact .pure _
      | some parent => exact ih parent

theorem relabel_reading (level : Nat) (hash : Hash) :
    ((ofStore chain s).relabel level hash).Reading := by
  induction level generalizing hash with
  | zero => exact .pure _
  | succ level ih =>
    refine .bind (canonical?_reading chain s _) fun marked? => ?_
    split
    · exact .pure _
    · refine .bind (header?_reading chain s _) fun ancestor? => ?_
      cases ancestor? with
      | none => exact .throw _
      | some ancestor => exact .bind (ih _) fun _ => .pure _

theorem planUpdate_reading (new tip : TrustedHeader) :
    ((ofStore chain s).planUpdate new tip).Reading := by
  unfold planUpdate
  split
  · exact .pure _
  · exact .bind (relabel_reading s chain _ _) fun _ => .pure _

end ChainView

/-! ## The plan of a new tip -/

/-- The markers to set below a level for a digest: none from the first ancestor on that is marked
already. -/
inductive ChainMemory.Relabels (m : ChainMemory) : Nat → Hash → List (UInt64 × Hash) → Prop
  /-- There is no level below. -/
  | bottom (hash : Hash) : Relabels m 0 hash []
  /-- The digest is marked at its level. -/
  | marked {level : Nat} {hash : Hash}
    (h : m.canonical? (UInt64.ofNat level) = some hash) : Relabels m (level + 1) hash []
  /-- The digest gets its mark, and its parent is looked at. -/
  | unmarked {level : Nat} {hash : Hash} {ancestor : TrustedHeader} {below : List (UInt64 × Hash)}
    (h : m.canonical? (UInt64.ofNat level) ≠ some hash) (stored : m.header? hash = some ancestor)
    (rest : Relabels m level ancestor.parentHash below) :
    Relabels m (level + 1) hash ((UInt64.ofNat level, hash) :: below)

/-- How the markers change for a new header beside a tip. -/
inductive ChainMemory.Plans (m : ChainMemory) (new tip : TrustedHeader) :
    Option CanonicalUpdate → Prop
  /-- A header that does not outweigh the tip moves no marker. -/
  | stay (h : new.weight ≤ tip.weight) : Plans m new tip none
  /-- A header that outweighs it becomes the tip. -/
  | move {below : List (UInt64 × Hash)} (h : tip.weight < new.weight)
    (relabels : m.Relabels new.number.toNat new.parentHash below) :
    Plans m new tip (some {
      clear := heightsFrom (new.number + 1) tip.number
      assign := (new.number, new.hash) :: below
      newHeight := new.number })

namespace ChainView

variable {chain : ChainId} {s t u : State}

theorem relabel_ok {level : Nat} {hash : Hash} {labels : List (UInt64 × Hash)}
    (h : (ofStore chain s).relabel level hash t = (.ok labels, u)) :
    (t.memory chain).Relabels level hash labels := by
  induction level generalizing hash labels t u with
  | zero =>
    obtain ⟨rfl, -⟩ := pure_ok h
    exact .bottom hash
  | succ level ih =>
    obtain ⟨marked?, v, hmark, h⟩ := bind_ok h
    obtain ⟨rfl, hv⟩ := canonical?_ok hmark
    split at h
    · next hm =>
      obtain ⟨rfl, -⟩ := pure_ok h
      exact .marked hm
    · next hm =>
      obtain ⟨ancestor?, w, hload, h⟩ := bind_ok h
      obtain ⟨rfl, hw⟩ := header?_ok hload
      rw [hv.memory_eq] at h
      cases hstored : (t.memory chain).header? hash with
      | none =>
        rw [hstored] at h
        exact (throw_ok h).elim
      | some ancestor =>
        rw [hstored] at h
        obtain ⟨below, x, hbelow, h⟩ := bind_ok h
        obtain ⟨rfl, -⟩ := pure_ok h
        have hrest := ih hbelow
        rw [(hv.trans hw).memory_eq] at hrest
        exact .unmarked hm hstored hrest

theorem planUpdate_ok {new tip : TrustedHeader} {update? : Option CanonicalUpdate}
    (h : (ofStore chain s).planUpdate new tip t = (.ok update?, u)) :
    (t.memory chain).Plans new tip update? := by
  unfold planUpdate at h
  split at h
  · next hw =>
    obtain ⟨rfl, -⟩ := pure_ok h
    exact .stay hw
  · next hw =>
    obtain ⟨below, v, hrelabel, h⟩ := bind_ok h
    obtain ⟨rfl, -⟩ := pure_ok h
    exact .move (BitVec.not_le.mp hw) (relabel_ok hrelabel)

end ChainView

/-! ## Batches -/

namespace LightClient

variable {chain : ChainId} {s t u : State}

/-- The changes that move the canonical markers. -/
def updateChanges (chain : ChainId) (update : CanonicalUpdate) : List Change :=
  (update.clear.map fun level => .remove (.canonical chain level)) ++
    (update.assign.map fun entry => .store (.canonical chain entry.1) entry.2) ++
    [.store (.height chain) update.newHeight]

theorem updateWrites_reading (chain : ChainId) (update : CanonicalUpdate) :
    (updateWrites chain update).Reading := by
  refine .bind (.mapM (fun _ => State.deleteAbout_reading _) _) fun _ => ?_
  refine .bind (.mapM (fun _ => State.writeAbout_reading _ _) _) fun _ => ?_
  exact .bind (State.writeAbout_reading _ _) fun _ => .pure _

theorem updateWrites_ok {update : CanonicalUpdate} {writes : List Write}
    (h : updateWrites chain update s = (.ok writes, t)) :
    s = t ∧ writes = (updateChanges chain update).map (Change.toWrite s.module) := by
  obtain ⟨cleared, u, hclear, h⟩ := bind_ok h
  obtain ⟨rfl, rfl⟩ := mapM_ok (fun _ _ _ hw => State.deleteAbout_change hw) hclear
  obtain ⟨assigned, u, hassign, h⟩ := bind_ok h
  obtain ⟨rfl, rfl⟩ := mapM_ok
    (fun _ _ _ hw => (State.writeAbout_change hw).imp id And.right) hassign
  obtain ⟨-, h⟩ := State.writeAbout_bind h
  obtain ⟨rfl, rfl⟩ := pure_ok h
  refine ⟨rfl, ?_⟩
  simp only [updateChanges, List.map_append, List.map_map, List.map_cons, List.map_nil]
  rfl

/-- The changes that store a verified header and move the markers as planned. -/
def headerChanges (chain : ChainId) (trusted : TrustedHeader) (update? : Option CanonicalUpdate) :
    List Change :=
  .store (.header chain trusted.hash) trusted ::
    match update? with
    | none => []
    | some update => updateChanges chain update

/-- The header with which a chain begins, as it is trusted. -/
def trustedGenesis (header : Header) : TrustedHeader :=
  ⟨header.hash, header, header.coinbase, BitVec.ofNat 128 header.difficulty.toNat⟩

/-- The record of the beginning of a chain. -/
def genesisRecord (config : HeaderSyncConfig) (header : Header) : GenesisRecord :=
  ⟨header.hash, header.number, header.number - config.epochLength⟩

/-- The validators before those announced by the genesis header. -/
def priorEpoch (record : GenesisRecord) (validators prior : List Address) : ValidatorEpoch :=
  ⟨record.priorEpochStart, if prior.isEmpty then validators else prior⟩

/-- The changes that begin a chain. -/
def genesisChanges (chain : ChainId) (trusted : TrustedHeader) (record : GenesisRecord)
    (prior current : ValidatorEpoch) : List Change :=
  [.store (.header chain trusted.hash) trusted,
    .store (.canonical chain trusted.number) trusted.hash, .store (.height chain) trusted.number,
    .store (.genesis chain) record, .store (.epoch chain record.priorEpochStart) prior,
    .store (.epoch chain trusted.number) current]

/-- What a chain remembers once it has begun. -/
theorem memory_genesisChanges {trusted : TrustedHeader} {record : GenesisRecord}
    {prior current : ValidatorEpoch} (hf : Record.fits trusted = true)
    (hprior : Record.fits prior = true) (hcurrent : Record.fits current = true) :
    (s.changeAll (genesisChanges chain trusted record prior current)).memory chain =
      ((((((s.memory chain).setHeader trusted).setMark trusted.number trusted.hash).setHeight
        trusted.number).setGenesis record).setEpoch record.priorEpochStart prior).setEpoch
        trusted.number current := by
  simp only [genesisChanges, State.changeAll_cons, State.changeAll_nil]
  rw [State.memory_change_epoch hcurrent, State.memory_change_epoch hprior,
    State.memory_change_genesis, State.memory_change_height, State.memory_change_mark,
    State.memory_change_header hf]

/-- Removing markers clears them. -/
theorem memory_clearAll (levels : List UInt64) :
    (s.changeAll (levels.map fun level => .remove (.canonical chain level))).memory chain =
      { s.memory chain with
        canonical? := ChainMemory.remark (s.memory chain).canonical? levels [] } := by
  induction levels generalizing s with
  | nil => rfl
  | cons level levels ih =>
    rw [List.map_cons, State.changeAll_cons, ih, State.memory_change_clear]
    rfl

/-- Storing markers sets them. -/
theorem memory_markAll (entries : List (UInt64 × Hash)) :
    (s.changeAll (entries.map fun e => .store (.canonical chain e.1) e.2)).memory chain =
      { s.memory chain with
        canonical? := ChainMemory.remark (s.memory chain).canonical? [] entries } := by
  induction entries generalizing s with
  | nil => rfl
  | cons e entries ih =>
    rw [List.map_cons, State.changeAll_cons, ih, State.memory_change_mark]
    rfl

/-- What a chain remembers after a header has been stored. -/
theorem memory_headerChanges {trusted : TrustedHeader} {update? : Option CanonicalUpdate}
    (hf : Record.fits trusted = true) :
    (s.changeAll (headerChanges chain trusted update?)).memory chain =
      ((s.memory chain).setHeader trusted).move update? := by
  cases update? with
  | none => exact State.memory_change_header hf
  | some update =>
    simp only [headerChanges, updateChanges, State.changeAll_append, State.changeAll_cons,
      State.changeAll_nil]
    rw [State.memory_change_height, memory_markAll, memory_clearAll,
      State.memory_change_header hf]
    rfl

/-- What must hold of a header with which a chain begins. -/
structure BeginsAt (config : HeaderSyncConfig) (header : Header) (validators : List Address) :
    Prop where
  /-- The header is at a boundary. -/
  boundary : config.isBoundary header.number = true
  /-- There is a whole epoch below it. -/
  deep : config.epochLength ≤ header.number
  /-- Its extra-data lists validators. -/
  extra : header.ExtraLayout true
  /-- Its gas is in range. -/
  gas : header.GasHolds
  /-- These are the listed validators. -/
  listed : header.validators? = some validators

/-- The batch with which a chain begins. -/
structure Begins (config : HeaderSyncConfig) (chain : ChainId) (header : Header)
    (validators prior : List Address) (s t : State) : Prop where
  /-- The header can be stored. -/
  fits : Record.fits (trustedGenesis header) = true
  /-- The earlier validators can be stored. -/
  fitsPrior : Record.fits (priorEpoch (genesisRecord config header) validators prior) = true
  /-- The announced validators can be stored. -/
  fitsCurrent : Record.fits (⟨header.number, validators⟩ : ValidatorEpoch) = true
  /-- All is stored at once. -/
  changed : s.Changed (genesisChanges chain (trustedGenesis header) (genesisRecord config header)
    (priorEpoch (genesisRecord config header) validators prior) ⟨header.number, validators⟩) t

/-- A chain that was begun had no beginning, and was begun in one batch. -/
theorem setGenesis_ok {config : HeaderSyncConfig} {header : Header} {prior : List Address}
    {x : Unit} (h : setGenesis config chain header prior s = (.ok x, t)) :
    s.raw? (.genesis chain) = none ∧ ∃ validators, BeginsAt config header validators ∧
      Begins config chain header validators prior s t := by
  obtain ⟨found, u, hhas, h⟩ := bind_ok h
  obtain ⟨rfl, hu⟩ := State.has_ok (mapError_ok hhas)
  obtain ⟨hnone, h⟩ := guard_ok h
  obtain ⟨hplace, h⟩ := guard_ok h
  obtain ⟨_, v, hcheck, h⟩ := bind_ok h
  obtain ⟨hextra, rfl⟩ := ofExcept_ok hcheck
  obtain ⟨_, w, hcheck, h⟩ := bind_ok h
  obtain ⟨hgas, rfl⟩ := ofExcept_ok hcheck
  cases hlisted : header.validators? with
  | none =>
    rw [hlisted] at h
    exact (throw_ok h).elim
  | some validators =>
    rw [hlisted] at h
    obtain ⟨hf₁, h⟩ := State.writeAbout_bind (mapError_ok h)
    obtain ⟨-, h⟩ := State.writeAbout_bind h
    obtain ⟨-, h⟩ := State.writeAbout_bind h
    obtain ⟨-, h⟩ := State.writeAbout_bind h
    obtain ⟨hf₅, h⟩ := State.writeAbout_bind h
    obtain ⟨hf₆, h⟩ := State.writeAbout_bind h
    simp only [Bool.or_eq_true, Bool.not_eq_true', decide_eq_true_eq, not_or, Bool.not_eq_false,
      UInt64.not_lt] at hplace
    have hfresh : s.raw? (.genesis chain) = none := by simpa using hnone
    have hextra := Header.checkExtra_ok_iff.mp hextra
    have hgas := Header.checkGas_ok_iff.mp hgas
    have hchanged : s.Changed (genesisChanges chain (trustedGenesis header)
        (genesisRecord config header) (priorEpoch (genesisRecord config header) validators prior)
        ⟨header.number, validators⟩) t := hu.changed (State.commit_changed h)
    exact ⟨hfresh, validators, ⟨hplace.1, hplace.2, hextra, hgas, hlisted⟩,
      hf₁, hf₅, hf₆, hchanged⟩

/-- A chain that was not begun is left as it was. -/
theorem setGenesis_atomic (config : HeaderSyncConfig) (chain : ChainId) (header : Header)
    (prior : List Address) : (setGenesis config chain header prior).Atomic := by
  refine .read (.mapError (State.has_readOnly _) _) fun found => ?_
  refine .guard ?_
  refine .guard ?_
  refine .read (.ofExcept _ _) fun _ => ?_
  refine .read (.ofExcept _ _) fun _ => ?_
  cases header.validators? with
  | none => exact (ReadOnly.throw _).atomic
  | some validators =>
    refine .mapError ?_ _
    refine .read (State.writeAbout_readOnly _ _) fun _ => ?_
    refine .read (State.writeAbout_readOnly _ _) fun _ => ?_
    refine .read (State.writeAbout_readOnly _ _) fun _ => ?_
    refine .read (State.writeAbout_readOnly _ _) fun _ => ?_
    refine .read (State.writeAbout_readOnly _ _) fun _ => ?_
    refine .read (State.writeAbout_readOnly _ _) fun _ => ?_
    exact State.commit_atomic _

end LightClient

/-! ## What steps start from -/

/-- A chain has begun, with the sets known from governance. -/
structure ChainMemory.Began (m : ChainMemory) (record : GenesisRecord) (g : GenesisEpochs) :
    Prop where
  /-- Where it began. -/
  genesis : m.genesis? = some record
  /-- The digest at which walks end. -/
  hash : g.hash = record.hash
  /-- The set that the genesis header announced. -/
  current : m.epoch? record.number = some g.current
  /-- The set before it. -/
  prior : m.epoch? record.priorEpochStart = some g.prior

theorem ChainMemory.Began.extends {m m' : ChainMemory} {record : GenesisRecord} {g : GenesisEpochs}
    (hg : m.Began record g) (h : m.Extends m') : m'.Began record g :=
  ⟨h.genesis hg.genesis, hg.hash, h.epoch hg.current, h.epoch hg.prior⟩

/-- The header at the canonical height. -/
def ChainMemory.Tip (m : ChainMemory) (tip : TrustedHeader) : Prop :=
  ∃ level hash, m.height? = some level ∧ m.canonical? level = some hash ∧
    m.header? hash = some tip

namespace LightClient

variable {chain : ChainId} {s t u : State}

theorem genesisEpochs_reading (chain : ChainId) : (genesisEpochs chain).Reading := by
  refine .bind (genesis?_reading chain) fun record? => ?_
  cases record? with
  | none => exact .throw _
  | some record =>
    refine .bind (epoch?_reading chain _) fun current? => ?_
    cases current? with
    | none => exact .throw _
    | some current =>
      refine .bind (epoch?_reading chain _) fun prior? => ?_
      cases prior? with
      | none => exact .throw _
      | some prior => exact .pure _

theorem genesisEpochs_ok {g : GenesisEpochs} (h : genesisEpochs chain s = (.ok g, t)) :
    ∃ record, (s.memory chain).Began record g := by
  obtain ⟨record?, u, hload, h⟩ := bind_ok h
  obtain ⟨hrecord, hu⟩ := State.load?_ok (mapError_ok hload)
  cases record? with
  | none => exact (throw_ok h).elim
  | some record =>
    obtain ⟨current?, v, hload, h⟩ := bind_ok h
    obtain ⟨hcurrent, hv⟩ := State.load?_ok (mapError_ok hload)
    cases current? with
    | none => exact (throw_ok h).elim
    | some current =>
      obtain ⟨prior?, w, hload, h⟩ := bind_ok h
      obtain ⟨hprior, -⟩ := State.load?_ok (mapError_ok hload)
      cases prior? with
      | none => exact (throw_ok h).elim
      | some prior =>
        obtain ⟨rfl, -⟩ := pure_ok h
        rw [hu.lookup_eq] at hcurrent
        rw [(hu.trans hv).lookup_eq] at hprior
        exact ⟨record, hrecord.symm, rfl, hcurrent.symm, hprior.symm⟩

theorem canonicalTip_reading (chain : ChainId) : (canonicalTip chain).Reading := by
  refine .bind (height?_reading chain) fun level? => ?_
  cases level? with
  | none => exact .throw _
  | some level =>
    refine .bind (canonicalHeader?_reading chain level) fun tip? => ?_
    cases tip? with
    | none => exact .throw _
    | some tip => exact .pure _

theorem canonicalTip_ok {tip : TrustedHeader} (h : canonicalTip chain s = (.ok tip, t)) :
    (s.memory chain).Tip tip := by
  obtain ⟨level?, u, hload, h⟩ := bind_ok h
  obtain ⟨hlevel, hu⟩ := State.load?_ok (mapError_ok hload)
  cases level? with
  | none => exact (throw_ok h).elim
  | some level =>
    obtain ⟨tip?, v, htip, h⟩ := bind_ok h
    cases tip? with
    | none => exact (throw_ok h).elim
    | some found =>
      obtain ⟨rfl, -⟩ := pure_ok h
      obtain ⟨hash?, w, hload, htip⟩ := bind_ok htip
      obtain ⟨hhash, hw⟩ := State.load?_ok (mapError_ok hload)
      cases hash? with
      | none => exact nomatch (pure_ok htip).1
      | some hash =>
        obtain ⟨hheader, -⟩ := State.load?_ok (mapError_ok htip)
        rw [hu.lookup_eq] at hhash
        rw [(hu.trans hw).lookup_eq] at hheader
        exact ⟨level, hash, hlevel.symm, hhash.symm, hheader.symm⟩

/-- A verified header, with its parent and the validator sets that were found for it. -/
structure Verified (config : HeaderSyncConfig) (chain : ChainId) (g : GenesisEpochs) (s : State)
    (trusted parent : TrustedHeader) (pair : EpochPair) : Prop where
  /-- It is known by its own digest. -/
  hash : trusted.hash = trusted.header.hash
  /-- Its fields are right. -/
  fields : trusted.header.FieldsHold config
  /-- Its parent is stored. -/
  stored : (s.memory chain).header? trusted.parentHash = some parent
  /-- It may follow its parent. -/
  follows : trusted.header.Follows parent.header config
  /-- Its signer has sealed it. -/
  sealed : trusted.header.SealedBy chain trusted.signer
  /-- These are the sets that the parent and its ancestors announce. -/
  resolved : ∃ u v, s.Untouched u ∧
    (ChainView.ofStore chain s).resolveEpochs config g parent u = (.ok pair, v)
  /-- The signer is in the governing set. -/
  member : (pair.authoritative trusted.number).contains trusted.signer = true
  /-- The signer has not signed within the window. -/
  rested : ∃ u v, s.Untouched u ∧ (ChainView.ofStore chain s).checkRecentSigners parent
    trusted.signer (UInt64.ofNat ((pair.authoritative trusted.number).size / 2)) u = (.ok (), v)
  /-- The difficulty is that of the signer's turn. -/
  turn : (pair.authoritative trusted.number).InTurn trusted.number trusted.signer
    trusted.header.difficulty
  /-- The difficulty is added to the parent's weight. -/
  weight : trusted.weight = parent.weight + BitVec.ofNat 128 trusted.header.difficulty.toNat

theorem Verified.of_untouched {config : HeaderSyncConfig} {g : GenesisEpochs}
    {trusted parent : TrustedHeader} {pair : EpochPair} (hu : s.Untouched u)
    (h : Verified config chain g u trusted parent pair) :
    Verified config chain g s trusted parent pair := by
  obtain ⟨hhash, hfields, hstored, hfollows, hsealed, ⟨v, w, hv, hresolved⟩, hmember,
    ⟨v', w', hv', hrested⟩, hturn, hweight⟩ := h
  rw [hu.memory_eq] at hstored
  rw [ChainView.ofStore_eq chain hu] at hresolved hrested
  exact ⟨hhash, hfields, hstored, hfollows, hsealed, ⟨v, w, hu.trans hv, hresolved⟩, hmember,
    ⟨v', w', hu.trans hv', hrested⟩, hturn, hweight⟩

theorem verifyHeader_reading (config : HeaderSyncConfig) (ctx : BlockContext) (chain : ChainId)
    (g : GenesisEpochs) (header : Header) :
    (verifyHeader config ctx chain g header).Reading := by
  refine .get (fun _ => rfl) fun s => ?_
  refine .bind (.ofExcept _ _) fun _ => ?_
  refine .bind (ChainView.header?_reading chain s _) fun parent? => ?_
  cases parent? with
  | none => exact .throw _
  | some parent =>
    refine .bind (.ofExcept _ _) fun _ => ?_
    refine .bind (.ofExcept _ _) fun signer => ?_
    refine .bind (ChainView.findEpochs_reading s chain _ _ _ _ _ _) fun pair => ?_
    refine .guard ?_
    refine .bind (ChainView.walkRecent_reading s chain _ _ _ _ _) fun _ => ?_
    exact .bind (.ofExcept _ _) fun _ => .pure _

theorem verifyHeader_ok {config : HeaderSyncConfig} {ctx : BlockContext} {g : GenesisEpochs}
    {header : Header} {trusted : TrustedHeader}
    (h : verifyHeader config ctx chain g header s = (.ok trusted, t)) :
    trusted.header = header ∧
      ∃ parent pair, Verified config chain g s trusted parent pair := by
  obtain ⟨s', u, hget, h⟩ := bind_ok h
  obtain ⟨rfl, rfl⟩ := get_ok hget
  obtain ⟨_, u, hcheck, h⟩ := bind_ok h
  obtain ⟨hfields, rfl⟩ := ofExcept_ok hcheck
  obtain ⟨parent?, u, hload, h⟩ := bind_ok h
  obtain ⟨hparent, hu⟩ := ChainView.header?_ok hload
  cases parent? with
  | none => exact (throw_ok h).elim
  | some parent =>
    obtain ⟨_, v, hcheck, h⟩ := bind_ok h
    obtain ⟨hfollows, rfl⟩ := ofExcept_ok hcheck
    obtain ⟨signer, v, hcheck, h⟩ := bind_ok h
    obtain ⟨hsealed, rfl⟩ := ofExcept_ok hcheck
    obtain ⟨pair, v, hpair, h⟩ := bind_ok h
    have hv := hu.trans ((ChainView.findEpochs_reading _ _ _ _ _ _ _ _).untouched hpair)
    obtain ⟨hmember, h⟩ := guard_ok h
    obtain ⟨_, w, hrested, h⟩ := bind_ok h
    obtain ⟨_, x, hcheck, h⟩ := bind_ok h
    obtain ⟨hturn, rfl⟩ := ofExcept_ok hcheck
    obtain ⟨rfl, -⟩ := pure_ok h
    rw [Bool.not_eq_true', Bool.not_eq_false] at hmember
    have hfields := (Header.checkFields_ok_iff.mp hfields).2
    have hfollows := Header.checkAgainstParent_ok_iff.mp hfollows
    have hsealed := Header.checkSeal_ok_iff.mp hsealed
    have hturn := ValidatorEpoch.checkTurn_ok_iff.mp hturn
    exact ⟨rfl, parent, pair, rfl, hfields, hparent.symm, hfollows, hsealed, ⟨u, v, hu, hpair⟩,
      hmember, ⟨v, w, hv, hrested⟩, hturn, rfl⟩

end LightClient

end BridgeKernel
