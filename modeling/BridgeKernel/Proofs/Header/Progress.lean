import BridgeKernel.Proofs.Header.Canonical
import BridgeKernel.Proofs.Header.Verdict

/-!
# What keeps a header out

On a store that does not fail nothing keeps a header out but its verdict and its size. The sets from
governance and the tip are found, the walk from a new tip comes to a marked header at the genesis at
the latest, and the batch is written. So what one header brings is decided by what is remembered of
its chain.
-/

namespace BridgeKernel

open Transition

/-! ## Steps that come to a result -/

namespace Transition

variable {ε ε' α β γ : Type} {s : State}

/-- A step comes to a result. -/
def Succeeds (x : Transition ε α) (s : State) : Prop := ∃ a t, x s = (.ok a, t)

namespace Succeeds

protected theorem pure (a : α) : Succeeds (pure a : Transition ε α) s := ⟨a, s, rfl⟩

protected theorem get : Succeeds (get : Transition ε State) s := ⟨s, s, rfl⟩

protected theorem bind {x : Transition ε α} {f : α → Transition ε β} (hx : x.Succeeds s)
    (hf : ∀ a t, x s = (.ok a, t) → (f a).Succeeds t) : (x >>= f).Succeeds s := by
  obtain ⟨a, t, hrun⟩ := hx
  obtain ⟨b, u, hrest⟩ := hf a t hrun
  exact ⟨b, u, (run_bind hrun f).trans hrest⟩

protected theorem mapError {x : Transition ε α} (hx : x.Succeeds s) (f : ε → ε') :
    (x.mapError f).Succeeds s := by
  obtain ⟨a, t, hrun⟩ := hx
  exact ⟨a, t, run_mapError hrun f⟩

protected theorem guard {c : Prop} [Decidable c] {e : ε} {k : Unit → Transition ε β} (hc : ¬ c)
    (hk : (k ()).Succeeds s) : (if c then throw e >>= k else k () : Transition ε β).Succeeds s := by
  rw [if_neg hc]
  exact hk

protected theorem ofExcept {r : Except ε α} {a : α} (h : r = .ok a) (f : ε → ε') :
    (ofExcept f r).Succeeds s := by
  rw [h]
  exact ⟨a, s, rfl⟩

protected theorem mapM {f : γ → Transition ε α} (hf : ∀ c t, (f c).Succeeds t) (cs : List γ) :
    (cs.mapM f).Succeeds s := by
  induction cs generalizing s with
  | nil => exact .pure _
  | cons c cs ih =>
    rw [List.mapM_cons]
    exact .bind (hf c s) fun _ _ _ => .bind ih fun _ _ _ => .pure _

end Succeeds

end Transition

namespace State

variable {α : Type} [Record α] {s : State}

theorem writeAbout_succeeds (key : RecordKey) {a : α} (hf : Record.fits a = true) (s : State) :
    (writeAbout key a).Succeeds s := by
  have hrun : writeAbout key a s = ofExcept id (writeOf (key.toBytes s.module) a) s := rfl
  rw [Succeeds, hrun, writeOf, if_pos hf]
  exact ⟨_, _, rfl⟩

/-- A step that prepares a record that fits, and goes on where it is. -/
theorem writeAbout_then {β : Type} {key : RecordKey} {a : α} {f : Write → Transition StorageError β}
    (hf : Record.fits a = true) (hk : ∀ w, (f w).Succeeds s) :
    (writeAbout key a >>= f).Succeeds s := by
  refine .bind (writeAbout_succeeds key hf s) fun w t hrun => ?_
  obtain ⟨rfl, -⟩ := writeAbout_ok hrun
  exact hk w

theorem deleteAbout_succeeds (key : RecordKey) (s : State) : (deleteAbout key).Succeeds s :=
  ⟨_, _, rfl⟩

theorem Calm.commit_succeeds (hs : s.Calm) (writes : List Write) : (commit writes).Succeeds s := by
  unfold commit
  split
  · exact .pure _
  · exact .mapError ⟨_, _, Store.perform_of_calm hs _ _⟩ _

end State

/-! ## Markers for a new tip -/

namespace ChainView

variable {chain : ChainId} {s t : State} {record : GenesisRecord} {tip : TrustedHeader}

/-- A store that does not fail finds the marker that is remembered. -/
theorem canonical?_answer (s : State) (ht : t.Reliable) (chain : ChainId) (level : UInt64) :
    ∃ u, (ofStore chain s).canonical? level t = (.ok ((t.memory chain).canonical? level), u) ∧
      t.Untouched u := by
  obtain ⟨u, hload, hu⟩ := ht.load? (RecordKey.canonical_holds chain level)
  exact ⟨u, run_mapError hload _, hu⟩

/-- The walk from a stored header comes to one that is marked. -/
theorem relabel_succeeds {hash : Hash} {A : TrustedHeader} {level : Nat} (ht : t.Reliable)
    (htree : (t.memory chain).Tree record) (hc : (t.memory chain).Canonical record tip)
    (hA : (t.memory chain).header? hash = some A) (hlevel : A.number.toNat + 1 = level) :
    ((ofStore chain s).relabel level hash).Succeeds t := by
  induction level generalizing t hash A with
  | zero => exact .pure _
  | succ level ih =>
    have hnumber : UInt64.ofNat level = A.number := by
      rw [← Nat.succ.inj hlevel, UInt64.ofNat_toNat]
    unfold relabel
    obtain ⟨u, hmarked, hu⟩ := canonical?_answer s ht chain (UInt64.ofNat level)
    refine .bind ⟨_, u, hmarked⟩ fun marked? u' hrun => ?_
    cases hmarked.symm.trans hrun
    split
    · exact .pure _
    · next hmark =>
      rw [hnumber] at hmark
      obtain ⟨P, hP, hbelow, -⟩ :=
        htree.parent hA (ChainMemory.Relabels.ne_root htree hc hA hmark)
      obtain ⟨v, hfound, hv⟩ := header?_answer s (ht.untouched hu) chain hash
      refine .bind ⟨_, v, hfound⟩ fun ancestor? v' hrun => ?_
      cases hfound.symm.trans hrun
      have huv := hu.trans hv
      rw [hu.memory_eq, hA]
      have hrest : ((ofStore chain s).relabel level A.parentHash).Succeeds v := by
        rw [← huv.memory_eq] at htree hc hP
        exact ih (ht.untouched huv) htree hc hP (by omega)
      exact .bind hrest fun _ _ _ => .pure _

theorem planUpdate_succeeds {T P : TrustedHeader} (ht : t.Reliable)
    (htree : (t.memory chain).Tree record) (hc : (t.memory chain).Canonical record tip)
    (hP : (t.memory chain).header? T.parentHash = some P)
    (hnumber : P.number.toNat + 1 = T.number.toNat) (old : TrustedHeader) :
    ((ofStore chain s).planUpdate T old).Succeeds t := by
  unfold planUpdate
  split
  · exact .pure _
  · exact .bind (relabel_succeeds ht htree hc hP hnumber) fun _ _ _ => .pure _

end ChainView

/-! ## Storing a header -/

namespace LightClient

variable {chain : ChainId} {s : State} {record : GenesisRecord} {tip : TrustedHeader}

/-- The sets known from governance are found. -/
theorem genesisEpochs_answer {g : GenesisEpochs} (hs : s.Reliable)
    (hg : (s.memory chain).Began record g) : ∃ t, genesisEpochs chain s = (.ok g, t) := by
  obtain ⟨u, hrecord, hu⟩ := hs.load? (RecordKey.genesis_holds chain)
  obtain ⟨v, hcurrent, hv⟩ :=
    (hs.untouched hu).load? (RecordKey.epoch_holds chain record.number)
  obtain ⟨w, hprior, -⟩ := (hs.untouched (hu.trans hv)).load?
    (RecordKey.epoch_holds chain record.priorEpochStart)
  have hrecord' : s.lookup (.genesis chain) = some record := hg.genesis
  have hcurrent' : s.lookup (.epoch chain record.number) = some g.current := hg.current
  have hprior' : s.lookup (.epoch chain record.priorEpochStart) = some g.prior := hg.prior
  rw [hrecord'] at hrecord
  rw [hu.lookup_eq, hcurrent'] at hcurrent
  rw [(hu.trans hv).lookup_eq, hprior'] at hprior
  refine ⟨w, ?_⟩
  unfold genesisEpochs genesis? epoch?
  rw [run_bind (run_mapError hrecord _)]
  dsimp only
  rw [run_bind (run_mapError hcurrent _)]
  dsimp only
  rw [run_bind (run_mapError hprior _), ← hg.hash]
  rfl

/-- The tip is found. -/
theorem canonicalTip_succeeds (hs : s.Reliable) (htip : (s.memory chain).Tip tip) :
    (canonicalTip chain).Succeeds s := by
  obtain ⟨level, hash, hlevel, hhash, hheader⟩ := htip
  obtain ⟨u, hheight, hu⟩ := hs.load? (RecordKey.height_holds chain)
  obtain ⟨v, hmark, hv⟩ := (hs.untouched hu).load? (RecordKey.canonical_holds chain level)
  obtain ⟨w, hfound, -⟩ := (hs.untouched (hu.trans hv)).load? (RecordKey.header_holds chain hash)
  have hlevel' : s.lookup (.height chain) = some level := hlevel
  have hhash' : s.lookup (.canonical chain level) = some hash := hhash
  have hheader' : s.lookup (.header chain hash) = some tip := hheader
  rw [hlevel'] at hheight
  rw [hu.lookup_eq, hhash'] at hmark
  rw [(hu.trans hv).lookup_eq, hheader'] at hfound
  refine ⟨tip, w, ?_⟩
  have hcanonical : canonicalHeader? chain level u = (.ok (some tip), w) := by
    unfold canonicalHeader? canonicalHash?
    rw [run_bind (run_mapError hmark _)]
    exact run_mapError hfound _
  unfold canonicalTip height?
  rw [run_bind (run_mapError hheight _)]
  dsimp only
  rw [run_bind hcanonical]
  rfl

theorem updateWrites_succeeds (chain : ChainId) (update : CanonicalUpdate) (s : State) :
    (updateWrites chain update).Succeeds s := by
  refine .bind (.mapM (fun level => State.deleteAbout_succeeds _) _) fun _ t _ => ?_
  refine .bind (.mapM (fun entry => State.writeAbout_succeeds _ rfl) _) fun _ u _ => ?_
  exact .bind (State.writeAbout_succeeds _ rfl u) fun _ _ _ => .pure _

/-- A header that fits is stored above its parent. -/
theorem storeHeader_succeeds {T P : TrustedHeader} (hs : s.Reliable)
    (htree : (s.memory chain).Tree record) (hc : (s.memory chain).Canonical record tip)
    (hP : (s.memory chain).header? T.parentHash = some P)
    (hnumber : P.number.toNat + 1 = T.number.toNat) (hfits : Record.fits T = true) :
    (storeHeader chain T).Succeeds s := by
  refine .bind (canonicalTip_succeeds hs hc.atTip) fun old u hold => ?_
  have hu := (canonicalTip_reading chain).untouched hold
  refine .bind (.mapError (State.writeAbout_succeeds _ hfits u) _) fun write u' hwrite => ?_
  obtain ⟨rfl, -⟩ := State.writeAbout_ok (mapError_ok hwrite)
  refine .bind .get fun s' u' hget => ?_
  obtain ⟨rfl, rfl⟩ := get_ok hget
  rw [← hu.memory_eq] at htree hc hP
  refine .bind (ChainView.planUpdate_succeeds (hs.untouched hu) htree hc hP hnumber old)
    fun update? v hplan => ?_
  have hv := hu.trans ((ChainView.planUpdate_reading _ _ _ _).untouched hplan)
  cases update? with
  | none =>
    refine .bind (.pure _) fun writes w hwrites => ?_
    obtain ⟨-, rfl⟩ := pure_ok hwrites
    exact .bind (.mapError ((hs.untouched hv).calm.commit_succeeds _) _) fun _ _ _ => .pure _
  | some update =>
    refine .bind (.mapError (updateWrites_succeeds chain update v) _) fun writes w hwrites => ?_
    obtain ⟨rfl, -⟩ := updateWrites_ok (mapError_ok hwrites)
    exact .bind (.mapError ((hs.untouched hv).calm.commit_succeeds _) _) fun _ _ _ => .pure _

/-- A header that fits is taken in or refused. -/
theorem submit_succeeds {header : Header} (config : HeaderSyncConfig) (ctx : BlockContext)
    (g : GenesisEpochs) (hs : s.Reliable) (htree : (s.memory chain).Tree record)
    (hc : (s.memory chain).Canonical record tip) (hfits : Record.fits header = true) :
    (submit config ctx chain g header).Succeeds s := by
  rcases hr : submit config ctx chain g header s with ⟨e | fate, t⟩
  case ok => exact ⟨fate, t, hr⟩
  rw [submit_eq] at hr
  cases takeIn_iff.mp hr with
  | unanswered asked =>
    obtain ⟨u, hhas⟩ := hs.calm.has (.header chain header.hash)
    cases asked.symm.trans (run_mapError hhas _)
  | failed asked verified stored =>
    obtain ⟨hv, rfl, -, P, pair, hverified⟩ := verified_of_new asked verified
    have hnumber := (congrArg UInt64.toNat hverified.follows.number).trans
      (toNat_succ (htree.low hverified.stored))
    have hparent := hverified.stored
    rw [← hv.memory_eq] at htree hc hparent
    obtain ⟨reorg, w, hrun⟩ :=
      storeHeader_succeeds (hs.untouched hv) htree hc hparent hnumber.symm hfits
    cases stored.symm.trans hrun

end LightClient

/-! ## What one header brings -/

/-- The terms on which the headers of a chain are judged. -/
structure HeaderTerms where
  /-- The settings of the light client. -/
  config : HeaderSyncConfig
  /-- The local time. -/
  now : UInt64
  /-- The chain. -/
  chain : ChainId
  /-- The sets known from governance. -/
  genesis : GenesisEpochs

namespace ChainMemory

/-- The verdict on a header on given terms. -/
abbrev judge (m : ChainMemory) (terms : HeaderTerms) (size : Nat) (header : Header) :
    Except HeaderError TrustedHeader :=
  m.verdict terms.config terms.now terms.chain terms.genesis size header

/-- A header that is not stored yet would be, by a call of its own. -/
structure Accepts (m : ChainMemory) (terms : HeaderTerms) (header : Header) (T : TrustedHeader) :
    Prop where
  /-- A call may bring a header. -/
  room : 0 < terms.config.maxBatchSize
  /-- The verdict is to trust it. -/
  verdict : ∃ size, m.AtMost size ∧ m.judge terms size header = .ok T
  /-- It can be stored. -/
  fits : Record.fits T = true

/-- What is remembered after a header came by a call of its own. -/
inductive Receives (m : ChainMemory) (terms : HeaderTerms) (header : Header) : ChainMemory → Prop
  /-- It was stored already. -/
  | known (stored : (m.header? header.hash).isSome = true) : Receives m terms header m
  /-- It is not accepted. -/
  | refused (fresh : m.header? header.hash = none) (h : ∀ T, ¬ m.Accepts terms header T) :
    Receives m terms header m
  /-- It is stored, and markers move. -/
  | grew {T : TrustedHeader} {update? : Option CanonicalUpdate}
    (fresh : m.header? header.hash = none) (accepted : m.Accepts terms header T) :
    Receives m terms header ((m.setHeader T).move update?)

namespace Accepts

variable {m m' : ChainMemory} {terms : HeaderTerms} {header : Header} {T T' : TrustedHeader}

/-- Any bound on the number of headers gives the verdict on an accepted header. -/
theorem judge_eq {size : Nat} (h : m.Accepts terms header T) (hm : m.AtMost size) :
    m.judge terms size header = .ok T := by
  obtain ⟨size', hm', hverdict⟩ := h.verdict
  exact (verdict_congr (.refl m _) hm' hm terms.now terms.chain).trans hverdict

/-- An accepted header is trusted under its digest, and its parent is stored. -/
theorem judged (h : m.Accepts terms header T) :
    T.header = header ∧ T.hash = header.hash ∧ ∃ P, m.header? header.parentHash = some P := by
  obtain ⟨_, -, hverdict⟩ := h.verdict
  exact verdict_ok hverdict

/-- A header is accepted in one way. -/
theorem unique (h : m.Accepts terms header T) (h' : m.Accepts terms header T') : T = T' := by
  obtain ⟨size, hm, hverdict⟩ := h.verdict
  exact Except.ok.inj (hverdict.symm.trans (h'.judge_eq hm))

end Accepts

/-- Memories with the same ancestors of a header accept it alike. -/
theorem accepts_congr {m m' : ChainMemory} {terms : HeaderTerms} {header : Header}
    {T : TrustedHeader} {size size' : Nat} (same : m.SameAncestry m' header.parentHash)
    (hm : m.AtMost size) (hm' : m'.AtMost size') :
    m'.Accepts terms header T ↔ m.Accepts terms header T := by
  have hverdict : m'.judge terms size' header = m.judge terms size header :=
    verdict_congr same hm hm' terms.now terms.chain
  constructor
  · exact fun h => ⟨h.room, ⟨size, hm, hverdict ▸ h.judge_eq hm'⟩, h.fits⟩
  · exact fun h => ⟨h.room, ⟨size', hm', hverdict ▸ h.judge_eq hm⟩, h.fits⟩

end ChainMemory

namespace LightClient

variable {s t : State} {record : GenesisRecord} {tip : TrustedHeader}

/-- A header taken in on a store that does not fail brings what is decided by what is remembered. -/
theorem submit_receives {terms : HeaderTerms} (header : Header) (height : UInt64) (hs : s.Reliable)
    (htree : (s.memory terms.chain).Tree record) (hc : (s.memory terms.chain).Canonical record tip)
    (hroom : 0 < terms.config.maxBatchSize) :
    (s.memory terms.chain).Receives terms header
      ((submit terms.config ⟨height, terms.now⟩ terms.chain terms.genesis header s).2.memory
        terms.chain) := by
  have hasks := isStored_reading terms.chain header
  have hreads := verifyHeader_reading terms.config ⟨height, terms.now⟩ terms.chain terms.genesis
    header
  have hsize := s.memory_atMost terms.chain
  have hjudges {u : State} (hu : s.Untouched u) :
      (verifyHeader terms.config ⟨height, terms.now⟩ terms.chain terms.genesis header u).1 =
        (s.memory terms.chain).judge terms s.records.size header := by
    have hanswer := verifyHeader_answer (hs.untouched hu) terms.config ⟨height, terms.now⟩
      terms.chain terms.genesis header
    rwa [hu.memory_eq, hu.records_eq] at hanswer
  have hfound {found : Bool} {u : State} (h : isStored terms.chain header s = (.ok found, u)) :
      found = ((s.memory terms.chain).header? header.hash).isSome := by
    rw [(State.has_ok (mapError_ok h)).1, hs.form.header_isSome]
  have hnone {u : State} (h : isStored terms.chain header s = (.ok false, u)) :
      (s.memory terms.chain).header? header.hash = none :=
    Option.isNone_iff_eq_none.mp (Option.isSome_eq_false_iff.mp (hfound h).symm)
  rcases hr : submit terms.config ⟨height, terms.now⟩ terms.chain terms.genesis header s with ⟨r, t⟩
  rw [submit_eq] at hr
  cases takeIn_iff.mp hr with
  | unanswered asked =>
    obtain ⟨u, hhas⟩ := hs.calm.has (.header terms.chain header.hash)
    cases asked.symm.trans (run_mapError hhas _)
  | known asked =>
    rw [(hasks.untouched asked).memory_eq]
    exact .known (hfound asked).symm
  | rejected asked refused =>
    have hu := hasks.untouched asked
    rw [(hu.trans (hreads.untouched refused)).memory_eq]
    refine .refused (hnone asked) fun T haccepts => ?_
    cases (haccepts.judge_eq hsize).symm.trans ((hjudges hu).symm.trans (congrArg Prod.fst refused))
  | @failed u v _ T e asked verified stored =>
    have hverdict := (hjudges (hasks.untouched asked)).symm.trans (congrArg Prod.fst verified)
    obtain ⟨hv, rfl, -⟩ := verified_of_new asked verified
    rw [(hv.trans (storeHeader_atomic _ _ _ _ _ stored)).memory_eq]
    refine .refused (hnone asked) fun T' haccepts => ?_
    cases (haccepts.judge_eq hsize).symm.trans hverdict
    -- a header that fits is not refused by the store
    obtain ⟨fate, w, hrun⟩ := submit_succeeds terms.config ⟨height, terms.now⟩ terms.genesis hs htree
      hc haccepts.fits
    rw [submit_eq, hr] at hrun
    cases hrun
  | @accepted u v _ T reorg asked verified stored =>
    have hverdict := (hjudges (hasks.untouched asked)).symm.trans (congrArg Prod.fst verified)
    obtain ⟨hv, rfl, -⟩ := verified_of_new asked verified
    obtain ⟨_, update?, -, -, hfits, hchanged⟩ := storeHeader_ok stored
    rw [hchanged.memory_eq, memory_headerChanges hfits, hv.memory_eq]
    exact .grew (hnone asked) ⟨hroom, ⟨_, hsize, hverdict⟩, hfits⟩

/-- A call with one header ends where taking it in does. -/
theorem syncBatch_singleton {config : HeaderSyncConfig} {ctx : BlockContext} {chain : ChainId}
    {g : GenesisEpochs} {u : State} (hgenesis : genesisEpochs chain s = (.ok g, u))
    (hroom : 0 < config.maxBatchSize) (header : Header) :
    (submit config ctx chain g header u).2.Untouched
      (syncBatch config ctx chain [header] s).2 := by
  have hsize : [header].length ≤ config.maxBatchSize := hroom
  rw [syncBatch_of_le ctx chain hsize, run_bind hgenesis, submitAll, bind_run, bind_run]
  rcases submit config ctx chain g header u with ⟨e | fate, t⟩
  · exact .refl _
  · cases fate <;> exact finish_readOnly chain _ t

/-- A call with one header brings what is decided by what is remembered. -/
theorem syncBatch_receives (terms : HeaderTerms) (header : Header) (height : UInt64)
    (hs : s.Reliable) (htree : (s.memory terms.chain).Tree record)
    (hc : (s.memory terms.chain).Canonical record tip)
    (hg : (s.memory terms.chain).Began record terms.genesis) :
    (s.memory terms.chain).Receives terms header
      ((syncBatch terms.config ⟨height, terms.now⟩ terms.chain [header] s).2.memory
        terms.chain) := by
  by_cases hroom : 0 < terms.config.maxBatchSize
  · obtain ⟨u, hgenesis⟩ := genesisEpochs_answer hs hg
    have hu := (genesisEpochs_reading _).untouched hgenesis
    rw [← hu.memory_eq] at htree hc
    have hsubmit := submit_receives header height (hs.untouched hu) htree hc hroom
    rw [(syncBatch_singleton hgenesis hroom header).memory_eq, ← hu.memory_eq]
    exact hsubmit
  · have hsize : terms.config.maxBatchSize < [header].length :=
      Nat.lt_succ_of_le (Nat.not_lt.mp hroom)
    have hrefused : (syncBatch terms.config ⟨height, terms.now⟩ terms.chain [header] s).2 = s := by
      rw [syncBatch_of_lt _ _ hsize]
      rfl
    rw [hrefused]
    cases hstored : (s.memory terms.chain).header? header.hash with
    | none => exact .refused hstored fun T h => hroom h.room
    | some H => exact .known (by rw [hstored]; rfl)

end LightClient

end BridgeKernel
