import BridgeKernel.Proofs.Header.Sync
import Mathlib.Data.Finset.Card

/-!
# Headers gained by a batch

A batch stores its headers one by one, so that wherever it is broken off the headers before stay
stored. What a batch adds to the headers of its chain is therefore told apart from what it reports:
the report comes at the end, and then names as many headers as were gained.
-/

namespace BridgeKernel

open Transition

namespace ChainMemory

variable {m m' m'' : ChainMemory} {new new' : Finset Hash}

/-- One memory holds the headers of another and some new ones, and began where it began. -/
structure Gains (new : Finset Hash) (m m' : ChainMemory) : Prop where
  /-- The new headers were not stored. -/
  fresh : ∀ hash ∈ new, m.header? hash = none
  /-- They are stored. -/
  stored : ∀ hash ∈ new, m'.header? hash ≠ none
  /-- The others are as they were. -/
  others : ∀ hash ∉ new, m'.header? hash = m.header? hash
  /-- The beginning is where it was. -/
  genesis : m'.genesis? = m.genesis?

namespace Gains

theorem refl (m : ChainMemory) : Gains ∅ m m where
  fresh := by simp
  stored := by simp
  others _ _ := rfl
  genesis := rfl

/-- What was gained first is not gained again. -/
theorem disjoint (h : Gains new m m') (h' : Gains new' m' m'') : Disjoint new new' := by
  rw [Finset.disjoint_left]
  intro hash hnew hnew'
  exact h.stored hash hnew (h'.fresh hash hnew')

theorem trans (h : Gains new m m') (h' : Gains new' m' m'') : Gains (new ∪ new') m m'' where
  fresh hash hmem := by
    by_cases hnew : hash ∈ new
    · exact h.fresh hash hnew
    · have hnew' := (Finset.mem_union.mp hmem).resolve_left hnew
      exact (h.others hash hnew).symm.trans (h'.fresh hash hnew')
  stored hash hmem := by
    by_cases hnew' : hash ∈ new'
    · exact h'.stored hash hnew'
    · have hnew := (Finset.mem_union.mp hmem).resolve_right hnew'
      rw [h'.others hash hnew']
      exact h.stored hash hnew
  others hash hmem := by
    rw [Finset.mem_union, not_or] at hmem
    exact (h'.others hash hmem.2).trans (h.others hash hmem.1)
  genesis := h'.genesis.trans h.genesis

/-- Storing a header that is not stored gains it, whatever markers move with it. -/
theorem setHeader {T : TrustedHeader} (fresh : m.header? T.hash = none)
    (update? : Option CanonicalUpdate) : Gains {T.hash} m ((m.setHeader T).move update?) where
  fresh hash hmem := by rwa [Finset.mem_singleton.mp hmem]
  stored hash hmem := by simp [Finset.mem_singleton.mp hmem]
  others hash hmem := by
    rw [move_header?, setHeader_header?, if_neg (Finset.notMem_singleton.mp hmem)]
  genesis := by
    rw [move_genesis?]
    rfl

/-- The headers gained are those that are stored after and were not stored before. -/
theorem eq_filter (h : Gains new m m') {hashes : Finset Hash} (hsub : new ⊆ hashes) :
    new = hashes.filter fun hash => m.header? hash = none ∧ m'.header? hash ≠ none := by
  ext hash
  rw [Finset.mem_filter]
  constructor
  · intro hnew
    exact ⟨hsub hnew, h.fresh hash hnew, h.stored hash hnew⟩
  · rintro ⟨-, hfresh, hstored⟩
    by_contra hnew
    exact hstored ((h.others hash hnew).trans hfresh)

end Gains

end ChainMemory

namespace LightClient

open ChainMemory

/-- Taking in a header gains it when it is accepted, and gains nothing otherwise. -/
theorem submit_gains (config : HeaderSyncConfig) (ctx : BlockContext) (chain : ChainId)
    (g : GenesisEpochs) (header : Header) (s : State) :
    ∃ new ⊆ ({header.hash} : Finset Hash),
      Gains new (s.memory chain) ((submit config ctx chain g header s).2.memory chain) ∧
      ((∃ reorg, (submit config ctx chain g header s).1 = .ok (.accepted reorg) ∧ new.card = 1) ∨
        (∀ reorg, (submit config ctx chain g header s).1 ≠ .ok (.accepted reorg)) ∧ new = ∅) := by
  have hasks := isStored_reading chain header
  have hreads := verifyHeader_reading config ctx chain g header
  have hquiet {r : Except HeaderError HeaderFate} {t : State} (hu : s.Untouched t)
      (hr : ∀ reorg, r ≠ .ok (.accepted reorg)) :
      ∃ new ⊆ ({header.hash} : Finset Hash), Gains new (s.memory chain) (t.memory chain) ∧
        ((∃ reorg, r = .ok (.accepted reorg) ∧ new.card = 1) ∨
          (∀ reorg, r ≠ .ok (.accepted reorg)) ∧ new = ∅) := by
    refine ⟨∅, Finset.empty_subset _, ?_, .inr ⟨hr, rfl⟩⟩
    rw [hu.memory_eq]
    exact .refl _
  rcases hr : submit config ctx chain g header s with ⟨r, t⟩
  rw [submit_eq] at hr
  cases takeIn_iff.mp hr with
  | unanswered asked | known asked => exact hquiet (hasks.untouched asked) nofun
  | rejected asked refused =>
    exact hquiet ((hasks.untouched asked).trans (hreads.untouched refused)) nofun
  | failed asked verified stored =>
    obtain ⟨hv, -⟩ := verified_of_new asked verified
    exact hquiet (hv.trans (storeHeader_atomic chain _ _ _ _ stored)) nofun
  | @accepted u v t trusted reorg asked verified stored =>
    obtain ⟨hv, rfl, hfresh, parent, pair, hverified⟩ := verified_of_new asked verified
    obtain ⟨tip, update?, -, -, hfits, hchanged⟩ := storeHeader_ok stored
    have hnone : (v.memory chain).header? trusted.hash = none := by
      rw [hv.memory_eq]
      exact State.lookup_of_raw?_none hfresh
    refine ⟨{trusted.hash}, ?_, ?_, .inl ⟨reorg, rfl, Finset.card_singleton _⟩⟩
    · rw [hverified.hash]
    · rw [hchanged.memory_eq, memory_headerChanges hfits, ← hv.memory_eq]
      exact .setHeader hnone update?

/-- The digests of headers. -/
def hashes (headers : List Header) : Finset Hash := (headers.map Header.hash).toFinset

theorem hashes_cons (header : Header) (rest : List Header) :
    hashes (header :: rest) = {header.hash} ∪ hashes rest := by
  rw [hashes, List.map_cons, List.toFinset_cons]
  rfl

/-- Taking in headers gains some of them, and when the report comes it names as many more accepted
ones. -/
theorem submitAll_gains (config : HeaderSyncConfig) (ctx : BlockContext) (chain : ChainId)
    (g : GenesisEpochs) (headers : List Header) (report : SyncReport) (s : State) :
    ∃ new ⊆ hashes headers,
      Gains new (s.memory chain)
        ((submitAll config ctx chain g headers report s).2.memory chain) ∧
      ∀ outcome, (submitAll config ctx chain g headers report s).1 = .ok outcome →
        outcome.report.accepted = report.accepted + new.card := by
  induction headers generalizing s report with
  | nil =>
    refine ⟨∅, Finset.empty_subset _, .refl _, fun outcome houtcome => ?_⟩
    cases houtcome
    rfl
  | cons header rest ih =>
    obtain ⟨first, hfirst, hgains, hfate⟩ := submit_gains config ctx chain g header s
    rw [hashes_cons]
    rcases hone : submit config ctx chain g header s with ⟨e | fate, t⟩ <;>
      rw [hone] at hgains hfate
    · rw [submitAll_break hone]
      exact ⟨first, hfirst.trans Finset.subset_union_left, hgains, nofun⟩
    have hcount : (report.count fate).accepted = report.accepted + first.card := by
      obtain ⟨reorg, haccepted, hcard⟩ | ⟨hother, hnone⟩ := hfate
      · cases haccepted
        rw [hcard]
        rfl
      · rw [hnone]
        cases fate with
        | accepted reorg => exact absurd rfl (hother reorg)
        | known | rejected => rfl
    cases hstop : fate.refusal? with
    | some cause =>
      rw [submitAll_stop hone hstop]
      refine ⟨first, hfirst.trans Finset.subset_union_left, hgains, fun outcome houtcome => ?_⟩
      cases houtcome
      cases fate with
      | rejected cause => exact hcount
      | known | accepted => cases hstop
    | none =>
      -- the rest goes on from what the first header left, with what it added to the report
      obtain ⟨later, hlater, hgains', houtcome⟩ := ih (report.count fate) t
      rw [submitAll_go hone hstop]
      refine ⟨first ∪ later, Finset.union_subset_union hfirst hlater, hgains.trans hgains',
        fun outcome ho => ?_⟩
      rw [houtcome outcome ho, hcount,
        Finset.card_union_of_disjoint (hgains.disjoint hgains'), add_assoc]

/-- A batch gains some of its headers, and when it is not broken off it reports as many accepted
ones. -/
theorem syncBatch_gains (config : HeaderSyncConfig) (ctx : BlockContext) (chain : ChainId)
    (headers : List Header) (s : State) :
    ∃ new ⊆ hashes headers,
      Gains new (s.memory chain) ((syncBatch config ctx chain headers s).2.memory chain) ∧
      ∀ outcome, (syncBatch config ctx chain headers s).1 = .ok outcome →
        outcome.report.accepted = new.card := by
  have hquiet {r : Except HeaderError BatchOutcome} {t : State} (hu : s.Untouched t)
      (e : HeaderError) (hr : r = .error e) :
      ∃ new ⊆ hashes headers, Gains new (s.memory chain) (t.memory chain) ∧
        ∀ outcome, r = .ok outcome → outcome.report.accepted = new.card := by
    refine ⟨∅, Finset.empty_subset _, ?_, fun outcome ho => nomatch hr.symm.trans ho⟩
    rw [hu.memory_eq]
    exact .refl _
  by_cases hsize : headers.length ≤ config.maxBatchSize
  case neg =>
    rw [syncBatch_of_lt ctx chain (Nat.lt_of_not_le hsize)]
    exact hquiet (.refl s) _ rfl
  rw [syncBatch_of_le ctx chain hsize, bind_run]
  rcases hg : genesisEpochs chain s with ⟨e | g, u⟩
  · have hu := (genesisEpochs_reading chain).readOnly s
    rw [hg] at hu
    exact hquiet hu e rfl
  have hu := (genesisEpochs_reading chain).untouched hg
  obtain ⟨new, hnew, hgains, haccepted⟩ :=
    submitAll_gains config ctx chain g headers ⟨0, 0, 0, 0⟩ u
  rw [hu.memory_eq] at hgains
  dsimp only
  rw [bind_run]
  rcases hall : submitAll config ctx chain g headers ⟨0, 0, 0, 0⟩ u with ⟨e | outcome, v⟩ <;>
    rw [hall] at hgains haccepted
  · exact ⟨new, hnew, hgains, nofun⟩
  refine ⟨new, hnew, ?_, fun outcome' houtcome => ?_⟩
  · rw [(finish_readOnly chain outcome v).memory_eq]
    exact hgains
  · change (finish chain outcome v).1 = .ok outcome' at houtcome
    have hreport := (finish_ok (Prod.ext houtcome rfl)).2.1
    rw [hreport, haccepted outcome rfl]
    exact Nat.zero_add _

/-- The headers of a batch that are stored in one state and were not stored in another. -/
def gained (chain : ChainId) (headers : List Header) (s t : State) : Finset Hash :=
  (hashes headers).filter fun hash =>
    (s.memory chain).header? hash = none ∧ (t.memory chain).header? hash ≠ none

/-- How many headers a batch leaves stored when it is broken off, and none when it is not: its
report then counts them. -/
def unreported (config : HeaderSyncConfig) (ctx : BlockContext) (chain : ChainId)
    (headers : List Header) (s : State) : Nat :=
  match syncBatch config ctx chain headers s with
  | (.ok _, _) => 0
  | (.error _, t) => (gained chain headers s t).card

end LightClient

end BridgeKernel
