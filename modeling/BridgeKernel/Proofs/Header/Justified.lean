import BridgeKernel.Proofs.Header.Canonical
import BridgeKernel.Proofs.Header.Lineage

/-!
# Accepted headers are justified by their ancestors

A header that the light client stores keeps every rule with regard to the headers below it and the
validator sets that they announce. Steps only ever add records of headers, and none of a beginning
or a validator set once a chain has begun, so a header that is justified stays so.
-/

namespace BridgeKernel

open Transition

namespace ChainMemory

variable {m m' : ChainMemory} {config : HeaderSyncConfig} {chain : ChainId}
  {record : GenesisRecord} {g : GenesisEpochs} {H : TrustedHeader} {line : List TrustedHeader}
  {pair : EpochPair}

/-- A larger memory has the same lines. -/
theorem Lineage.extends (hl : m.Lineage record H line) (h : m.Extends m') :
    m'.Lineage record H line := by
  induction hl with
  | root stored hash => exact .root (h.header stored) hash
  | child stored other parent number _ ih =>
    exact .child (h.header stored) other (h.header parent) number ih

/-- The sets from governance are those that are stored. -/
theorem Began.unique {g' : GenesisEpochs} (h : m.Began record g) (h' : m.Began record g') :
    g = g' := by
  obtain ⟨hash, current, prior⟩ := g
  obtain ⟨hash', current', prior'⟩ := g'
  obtain rfl : hash = hash' := h.hash.trans h'.hash.symm
  obtain rfl : current = current' := Option.some.inj (h.current.symm.trans h'.current)
  obtain rfl : prior = prior' := Option.some.inj (h.prior.symm.trans h'.prior)
  rfl

/-! ## Justified headers -/

/-- A header keeps the rules with regard to its line of ancestors and the two sets that were last
announced there. -/
structure Justified (m : ChainMemory) (config : HeaderSyncConfig) (chain : ChainId)
    (record : GenesisRecord) (g : GenesisEpochs) (H : TrustedHeader) (line : List TrustedHeader)
    (pair : EpochPair) : Prop where
  /-- Its parent is stored one lower, heads the line, and is followed as time and gas require. -/
  parent : ∃ P, m.header? H.parentHash = some P ∧ P.number.toNat + 1 = H.number.toNat ∧
    m.Lineage record P line ∧ H.header.Follows P.header config
  /-- Its extra-data, mix digest, uncles and difficulty are right. -/
  fields : H.header.FieldsHold config
  /-- The stored signer is the declared producer and has sealed the header. -/
  sealed : H.header.SealedBy chain H.signer
  /-- The two sets are the latest ones announced on the line. -/
  announced : ∃ rest, announced config g line = pair.newer :: pair.older :: rest
  /-- The signer is in the set that governs its height. -/
  member : H.signer ∈ (pair.authoritative H.number).validators
  /-- The difficulty is that of the signer's turn in the set. -/
  turn : (pair.authoritative H.number).InTurn H.number H.signer H.header.difficulty
  /-- The signer produced no ancestor within half the size of the set. -/
  rested : ∀ A ∈ line, H.number.toNat - A.number.toNat ≤ (pair.authoritative H.number).size / 2 →
    A.signer ≠ H.signer

/-- In a larger memory a header is justified by the same line and sets. -/
theorem Justified.extends (h : m.Justified config chain record g H line pair)
    (hm : m.Extends m') : m'.Justified config chain record g H line pair := by
  obtain ⟨P, hP, hnumber, hline, hfollows⟩ := h.parent
  exact { h with parent := ⟨P, hm.header hP, hnumber, hline.extends hm, hfollows⟩ }

/-- A chain that has begun has its sets from governance, and all other headers are justified. -/
def AllJustified (m : ChainMemory) (config : HeaderSyncConfig) (chain : ChainId) : Prop :=
  ∀ record, m.genesis? = some record → ∃ g, m.Began record g ∧
    ∀ hash H, m.header? hash = some H → hash ≠ record.hash →
      ∃ line pair, m.Justified config chain record g H line pair

/-- All headers of a chain but its genesis have a property. -/
def AllAbove (m : ChainMemory) (Q : TrustedHeader → Prop) : Prop :=
  ∀ record, m.genesis? = some record → ∀ hash H, m.header? hash = some H → hash ≠ record.hash → Q H

end ChainMemory

/-- The governing set is one of the two. -/
theorem EpochPair.authoritative_mem (pair : EpochPair) (number : UInt64)
    (rest : List ValidatorEpoch) :
    pair.authoritative number ∈ pair.newer :: pair.older :: rest := by
  unfold authoritative
  split
  · exact List.mem_cons_of_mem _ List.mem_cons_self
  · exact List.mem_cons_self

namespace LightClient

open ChainMemory

variable {config : HeaderSyncConfig} {chain : ChainId} {s t : State}

/-! ## Steps -/

/-- A verified header is justified by the line of its parent. -/
theorem Verified.justified {g : GenesisEpochs} {record : GenesisRecord}
    {trusted parent : TrustedHeader} {pair : EpochPair} (hs : s.WellFormed)
    (ht : (s.memory chain).Tree record) (hg : (s.memory chain).Began record g)
    (h : Verified config chain g s trusted parent pair) :
    ∃ line, (s.memory chain).Justified config chain record g trusted line pair := by
  obtain ⟨line, hline⟩ := ht.lineage h.stored
  have hnext : (parent.number + 1).toNat = parent.number.toNat + 1 :=
    toNat_succ (ht.low h.stored)
  have hnumber : trusted.number = parent.number + 1 := h.follows.number
  obtain ⟨u, v, hu, hresolved⟩ := h.resolved
  obtain ⟨rest, hannounced⟩ := ChainView.findEpochs_ok hline hg.hash (hu.memory_eq chain) hresolved
  rw [Option.toList_none, List.nil_append] at hannounced
  refine ⟨line, ⟨parent, h.stored, ?_, hline, h.follows⟩, h.fields, h.sealed, ⟨rest, hannounced⟩,
    List.contains_iff_mem.mp h.member, h.turn, ?_⟩
  · rw [hnumber, hnext]
  · obtain ⟨u, v, hu, hrested⟩ := h.rested
    have hgoverns : pair.authoritative trusted.number ∈ announced config g line := by
      rw [hannounced]
      exact pair.authoritative_mem trusted.number rest
    have hsize : (pair.authoritative trusted.number).size < 2 ^ 64 := hs.size_lt hg hline hgoverns
    have hwindow : (UInt64.ofNat ((pair.authoritative trusted.number).size / 2)).toNat =
        (pair.authoritative trusted.number).size / 2 := by
      rw [UInt64.toNat_ofNat', Nat.mod_eq_of_lt]
      omega
    have hfuel := hline.length_le
    intro A hA hin
    refine ChainView.walkRecent_ok hline (hu.memory_eq chain) ?_ ?_ hrested A hA ?_
    · omega
    · omega
    · rwa [hwindow, ← hnumber]

/-- The beginning of a chain is no boundary before itself. -/
theorem BeginsAt.prior_ne {header : Header} {validators : List Address}
    (h : BeginsAt config header validators) :
    (genesisRecord config header).priorEpochStart ≠ header.number := by
  intro he
  have hboundary := h.boundary
  simp only [HeaderSyncConfig.isBoundary, Bool.and_eq_true, bne_iff_ne] at hboundary
  have hsub := UInt64.toNat_sub_of_le _ _ h.deep
  have hdeep := UInt64.le_iff_toNat_le.mp h.deep
  have hpositive : config.epochLength.toNat ≠ 0 :=
    fun hz => hboundary.1 (UInt64.toNat_inj.mp hz)
  change header.number - config.epochLength = header.number at he
  rw [he] at hsub
  omega

/-- A chain begins with the announced validators and those before them. -/
theorem Begins.began {header : Header} {validators prior : List Address}
    (h : Begins config chain header validators prior s t)
    (place : BeginsAt config header validators) :
    (t.memory chain).Began (genesisRecord config header) ⟨header.hash, ⟨header.number, validators⟩,
      priorEpoch (genesisRecord config header) validators prior⟩ := by
  rw [h.changed.memory_eq, memory_genesisChanges h.fits h.fitsPrior h.fitsCurrent]
  refine ⟨rfl, rfl, Function.update_self _ _ _, ?_⟩
  exact (Function.update_of_ne place.prior_ne _ _).trans (Function.update_self _ _ _)

/-- A chain that begins has no header but its genesis. -/
theorem Begins.only {header : Header} {validators prior : List Address}
    (h : Begins config chain header validators prior s t) (hblank : (s.memory chain).Blank)
    {hash : Hash} {H : TrustedHeader} (hH : (t.memory chain).header? hash = some H) :
    hash = header.hash ∧ H = trustedGenesis header := by
  rw [h.changed.memory_eq, memory_genesisChanges h.fits h.fitsPrior h.fitsCurrent] at hH
  change ((s.memory chain).setHeader (trustedGenesis header)).header? hash = some H at hH
  rw [setHeader_header?] at hH
  split at hH
  · next he => exact ⟨he, (Option.some.inj hH).symm⟩
  · exact nomatch (hblank.header hash).symm.trans hH

/-- A step leaves no chain with a genesis and without its sets from governance. -/
theorem Step.began_of_genesis {P : Header → Prop} (h : Step P config chain s t)
    (hs : ∀ record, (s.memory chain).genesis? = some record →
      ∃ g, (s.memory chain).Began record g)
    (record : GenesisRecord) (ht : (t.memory chain).genesis? = some record) :
    ∃ g, (t.memory chain).Began record g := by
  cases h with
  | quiet h =>
    rw [h.memory_eq] at ht ⊢
    exact hs record ht
  | began hP fresh place begins =>
    have hbegun := begins.began place
    cases hbegun.genesis.symm.trans ht
    exact ⟨_, hbegun⟩
  | grew hP hbegun fresh verified atTip plans fits changed =>
    have hstep : Step P config chain s t := .grew hP hbegun fresh verified atTip plans fits changed
    have hbegun' := hbegun.extends (hstep.extends hbegun.genesis)
    cases hbegun'.genesis.symm.trans ht
    exact ⟨_, hbegun'⟩

/-- A step keeps all headers justified. -/
theorem Step.allJustified (h : Step Header.Low config chain s t) (hform : s.WellFormed)
    (hs : (s.memory chain).Sound) (hj : (s.memory chain).AllJustified config chain) :
    (t.memory chain).AllJustified config chain := by
  cases h with
  | quiet h => rwa [h.memory_eq]
  | @began header validators prior hlow fresh place begins =>
    cases hs with
    | begun genesis => exact nomatch genesis.symm.trans (State.lookup_of_raw?_none fresh)
    | blank hblank =>
      have hbegun := begins.began place
      intro record hrecord
      obtain rfl : genesisRecord config header = record :=
        Option.some.inj (hbegun.genesis.symm.trans hrecord)
      exact ⟨_, hbegun, fun hash H hH hne => absurd (begins.only hblank hH).1 hne⟩
  | @grew record g trusted parent tip pair update? hlow hbegun fresh verified atTip plans fits
      changed =>
    cases hs with
    | blank hblank => exact nomatch hblank.genesis.symm.trans hbegun.genesis
    | @begun record' _ genesis tree =>
      obtain rfl : record' = record := Option.some.inj (genesis.symm.trans hbegun.genesis)
      have hextends : (s.memory chain).Extends
          (((s.memory chain).setHeader trusted).move update?) :=
        .setHeader (State.lookup_of_raw?_none fresh) _
      rw [changed.memory_eq, memory_headerChanges fits]
      intro record hrecord
      obtain rfl : record' = record :=
        Option.some.inj ((hextends.genesis hbegun.genesis).symm.trans hrecord)
      refine ⟨g, hbegun.extends hextends, fun hash H hH hne => ?_⟩
      rw [move_header?, setHeader_header?] at hH
      split at hH
      · cases hH
        obtain ⟨line, hnew⟩ := verified.justified hform tree hbegun
        exact ⟨line, pair, hnew.extends hextends⟩
      · obtain ⟨g', hbegun', hall⟩ := hj record' hbegun.genesis
        obtain rfl := hbegun.unique hbegun'
        obtain ⟨line, pair', hold⟩ := hall hash H hH hne
        exact ⟨line, pair', hold.extends hextends⟩

/-- What holds of every header that a step verifies is kept for all headers above the genesis. -/
theorem Step.allAbove {P : Header → Prop} {Q : TrustedHeader → Prop} (h : Step P config chain s t)
    (hs : (s.memory chain).Sound)
    (hQ : ∀ g trusted parent pair, Verified config chain g s trusted parent pair → Q trusted)
    (hall : (s.memory chain).AllAbove Q) : (t.memory chain).AllAbove Q := by
  cases h with
  | quiet h => rwa [h.memory_eq]
  | @began header validators prior _ fresh place begins =>
    cases hs with
    | begun genesis => exact nomatch genesis.symm.trans (State.lookup_of_raw?_none fresh)
    | blank hblank =>
      have hbegun := begins.began place
      intro record hrecord hash H hH hne
      obtain rfl : genesisRecord config header = record :=
        Option.some.inj (hbegun.genesis.symm.trans hrecord)
      exact absurd (begins.only hblank hH).1 hne
  | @grew record g trusted parent tip pair update? _ hbegun fresh verified atTip plans fits
      changed =>
    have hextends : (s.memory chain).Extends
        (((s.memory chain).setHeader trusted).move update?) :=
      .setHeader (State.lookup_of_raw?_none fresh) _
    rw [changed.memory_eq, memory_headerChanges fits]
    intro record' hrecord hash H hH hne
    obtain rfl : record = record' :=
      Option.some.inj ((hextends.genesis hbegun.genesis).symm.trans hrecord)
    rw [move_header?, setHeader_header?] at hH
    split at hH
    · cases hH
      exact hQ g trusted parent pair verified
    · exact hall record hbegun.genesis hash H hH hne

end LightClient

end BridgeKernel
