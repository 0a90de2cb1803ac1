import BridgeKernel.Proofs.Header.Sync
import BridgeKernel.Proofs.Header.Verdict
import BridgeKernel.Proofs.Store.Twins

/-!
# What the light client of a chain reads

Every query and every call about the headers of a chain reads records of the memory of that chain
only. Verifying a header is the one step that looks at the store as a whole, when it bounds its walks
by the number of all records, and this bound never shows in a verdict.
-/

namespace BridgeKernel

open Transition

variable {P : RecordKey → Prop} {chain : ChainId}

theorem State.Agree.memory_eq {s t : State} (h : s.Agree P t)
    (hP : ∀ key, key.Remembers chain → P key) : t.memory chain = s.memory chain := by
  have same (key : RecordKey) (hkey : key.Remembers chain) : t.raw? key = s.raw? key :=
    h.raw?_eq (hP key hkey)
  simp only [State.memory, State.lookup_congr (same (.header chain _) rfl),
    State.lookup_congr (same (.canonical chain _) rfl),
    State.lookup_congr (same (.height chain) rfl), State.lookup_congr (same (.genesis chain) rfl),
    State.lookup_congr (same (.epoch chain _) rfl)]

namespace ChainView

/-- How many records a store has does not matter for the relabelling of markers. -/
theorem relabel_ofStore (chain : ChainId) (s t : State) (level : Nat) (hash : Hash) :
    (ofStore chain s).relabel level hash = (ofStore chain t).relabel level hash := by
  induction level generalizing hash with
  | zero => rfl
  | succ level ih =>
    unfold relabel
    simp only [ih]
    rfl

theorem planUpdate_ofStore (chain : ChainId) (s t : State) (new tip : TrustedHeader) :
    (ofStore chain s).planUpdate new tip = (ofStore chain t).planUpdate new tip := by
  unfold planUpdate
  rw [relabel_ofStore chain s t]

end ChainView

namespace LightClient

variable (hP : ∀ key, RecordKey.Remembers chain key → P key)
include hP

/-! ## Queries -/

theorem genesis?_local : (genesis? chain).Local P :=
  .mapError (State.load?_local (hP (.genesis chain) rfl)) _

theorem height?_local : (height? chain).Local P :=
  .mapError (State.load?_local (hP (.height chain) rfl)) _

theorem header?_local (hash : Hash) : (header? chain hash).Local P :=
  .mapError (State.load?_local (hP (.header chain hash) rfl)) _

theorem canonicalHash?_local (level : UInt64) : (canonicalHash? chain level).Local P :=
  .mapError (State.load?_local (hP (.canonical chain level) rfl)) _

theorem epoch?_local (start : UInt64) : (epoch? chain start).Local P :=
  .mapError (State.load?_local (hP (.epoch chain start) rfl)) _

theorem canonicalHeader?_local (level : UInt64) : (canonicalHeader? chain level).Local P := by
  refine .bind (canonicalHash?_local hP level) fun found => ?_
  cases found with
  | none => exact .pure _
  | some hash => exact header?_local hP hash

theorem isCanonical_local (hash : Hash) : (isCanonical chain hash).Local P := by
  refine .bind (header?_local hP hash) fun found => ?_
  cases found with
  | none => exact .pure _
  | some trusted => exact .bind (canonicalHash?_local hP _) fun _ => .pure _

theorem status_local : (status chain).Local P := by
  refine .bind (genesis?_local hP) fun record? => ?_
  cases record? with
  | none => exact .pure _
  | some record =>
    refine .bind (height?_local hP) fun level? => ?_
    cases level? with
    | none => exact .pure _
    | some level => exact .pure _

/-! ## Beginning a chain -/

theorem setGenesis_local (config : HeaderSyncConfig) (header : Header) (prior : List Address) :
    (setGenesis config chain header prior).Local P := by
  refine .bind (.mapError (State.has_local (hP (.genesis chain) rfl)) _) fun found => ?_
  refine .guard ?_
  refine .guard ?_
  refine .bind (.ofExcept _ _) fun _ => ?_
  refine .bind (.ofExcept _ _) fun _ => ?_
  cases header.validators? with
  | none => exact .throw _
  | some validators =>
    refine .mapError ?_ _
    refine .bind (State.writeAbout_local _) fun _ => ?_
    refine .bind (State.writeAbout_local _) fun _ => ?_
    refine .bind (State.writeAbout_local _) fun _ => ?_
    refine .bind (State.writeAbout_local _) fun _ => ?_
    refine .bind (State.writeAbout_local _) fun _ => ?_
    refine .bind (State.writeAbout_local _) fun _ => ?_
    exact State.commit_local _

theorem setGenesis_uniform (config : HeaderSyncConfig) (header : Header) (prior : List Address) :
    (setGenesis config chain header prior).Uniform P :=
  (setGenesis_local hP config header prior).uniform fun s =>
    (setGenesis_step (P := fun _ => True) config prior trivial s).writes

theorem genesisEpochs_local : (genesisEpochs chain).Local P := by
  refine .bind (genesis?_local hP) fun record? => ?_
  cases record? with
  | none => exact .throw _
  | some record =>
    refine .bind (epoch?_local hP _) fun current? => ?_
    cases current? with
    | none => exact .throw _
    | some current =>
      refine .bind (epoch?_local hP _) fun prior? => ?_
      cases prior? with
      | none => exact .throw _
      | some prior => exact .pure _

/-! ## Storing a header -/

theorem canonicalTip_local : (canonicalTip chain).Local P := by
  refine .bind (height?_local hP) fun level? => ?_
  cases level? with
  | none => exact .throw _
  | some level =>
    refine .bind (canonicalHeader?_local hP level) fun tip? => ?_
    cases tip? with
    | none => exact .throw _
    | some tip => exact .pure _

theorem planUpdate_local (s : State) (new tip : TrustedHeader) :
    ((ChainView.ofStore chain s).planUpdate new tip).Local P := by
  have hrelabel (level : Nat) (hash : Hash) :
      ((ChainView.ofStore chain s).relabel level hash).Local P := by
    induction level generalizing hash with
    | zero => exact .pure _
    | succ level ih =>
      refine .bind (canonicalHash?_local hP _) fun marked? => ?_
      split
      · exact .pure _
      · refine .bind (header?_local hP hash) fun ancestor? => ?_
        cases ancestor? with
        | none => exact .throw _
        | some ancestor => exact .bind (ih _) fun _ => .pure _
  unfold ChainView.planUpdate
  split
  · exact .pure _
  · exact .bind (hrelabel _ _) fun _ => .pure _

omit hP in
theorem updateWrites_local (update : CanonicalUpdate) : (updateWrites chain update).Local P := by
  refine .bind (.mapM (fun _ => State.deleteAbout_local) _) fun _ => ?_
  refine .bind (.mapM (fun _ => State.writeAbout_local _) _) fun _ => ?_
  exact .bind (State.writeAbout_local _) fun _ => .pure _

theorem storeHeader_local (trusted : TrustedHeader) : (storeHeader chain trusted).Local P := by
  refine .bind (canonicalTip_local hP) fun tip => ?_
  refine .bind (.mapError (State.writeAbout_local _) _) fun write => ?_
  refine .get (fun s t => ?_) fun s => ?_
  · rw [ChainView.planUpdate_ofStore chain s t]
  refine .bind (planUpdate_local hP s trusted tip) fun update? => ?_
  cases update? with
  | none =>
    refine .bind (.pure _) fun _ => ?_
    exact .bind (.mapError (State.commit_local _) _) fun _ => .pure _
  | some update =>
    refine .bind (.mapError (updateWrites_local update) _) fun _ => ?_
    exact .bind (.mapError (State.commit_local _) _) fun _ => .pure _

omit hP in
theorem storeHeader_within (chain : ChainId) (trusted : TrustedHeader) :
    (storeHeader chain trusted).Within (RecordKey.Remembers chain) := by
  refine .of_atomic (storeHeader_atomic chain trusted) fun s reorg t h => ?_
  obtain ⟨tip, update?, -, -, hfits, hchanged⟩ := storeHeader_ok h
  exact hchanged.writes (headerChanges_within hfits)

/-! ## Taking in headers -/

/-- Twins judge a header alike, though they may hold different numbers of records. -/
theorem verifyHeader_uniform (config : HeaderSyncConfig) (ctx : BlockContext) (g : GenesisEpochs)
    (header : Header) : (verifyHeader config ctx chain g header).Uniform P := by
  refine (verifyHeader_reading config ctx chain g header).readOnly.uniform fun s t h => ?_
  have hmemory := h.agree.memory_eq hP
  have hsize := t.memory_atMost chain
  rw [hmemory] at hsize
  rw [verifyHeader_answer h.first, verifyHeader_answer h.second, hmemory]
  exact ChainMemory.verdict_congr (.refl _ _) (s.memory_atMost chain) hsize ctx.timestamp chain

omit hP in
/-- Taking in a header is uniform when its parts are. -/
theorem takeIn_uniform {known : Transition HeaderError Bool}
    {verify : Transition HeaderError TrustedHeader}
    {store : TrustedHeader → Transition HeaderError Bool} (hknown : known.Uniform P)
    (hverify : verify.Uniform P) (hstore : ∀ trusted, (store trusted).Uniform P) :
    (takeIn known verify store).Uniform P := by
  have hattempt : (attempt verify).Uniform P := by
    intro s t h
    obtain ⟨hanswer, htwins⟩ := hverify s t h
    exact ⟨congrArg Except.ok hanswer, htwins⟩
  refine .bind hknown fun _ found _ _ => ?_
  cases found with
  | true => exact .pure _
  | false =>
    refine .bind hattempt fun _ judged _ _ => ?_
    cases judged with
    | error cause => exact .pure _
    | ok trusted => exact .bind (hstore trusted) fun _ _ _ _ => .pure _

theorem submit_uniform (config : HeaderSyncConfig) (ctx : BlockContext) (g : GenesisEpochs)
    (header : Header) : (submit config ctx chain g header).Uniform P := by
  have hknown : (State.has (.header chain header.hash)).Uniform P :=
    (State.has_local (hP (.header chain header.hash) rfl)).uniform_of_readOnly
      (State.has_readOnly _)
  rw [submit_eq]
  refine takeIn_uniform (.mapError hknown _) (verifyHeader_uniform hP config ctx g header)
    fun trusted => ?_
  exact (storeHeader_local hP trusted).uniform (storeHeader_within chain trusted)

theorem submitAll_uniform (config : HeaderSyncConfig) (ctx : BlockContext) (g : GenesisEpochs)
    (headers : List Header) (report : SyncReport) :
    (submitAll config ctx chain g headers report).Uniform P := by
  induction headers generalizing report with
  | nil => exact .pure _
  | cons header rest ih =>
    refine .bind (submit_uniform hP config ctx g header) fun _ fate _ _ => ?_
    cases fate with
    | known => exact ih _
    | rejected cause => exact .pure _
    | accepted reorg => exact ih _

theorem syncBatch_uniform (config : HeaderSyncConfig) (ctx : BlockContext)
    (headers : List Header) : (syncBatch config ctx chain headers).Uniform P := by
  by_cases hsize : headers.length ≤ config.maxBatchSize
  case neg =>
    rw [syncBatch_of_lt ctx chain (Nat.lt_of_not_le hsize)]
    exact .throw _
  rw [syncBatch_of_le ctx chain hsize]
  have hbegun := (genesisEpochs_local hP).uniform_of_readOnly
    (genesisEpochs_reading chain).readOnly
  refine .bind hbegun fun _ g _ _ => ?_
  refine .bind (submitAll_uniform hP config ctx g headers _) fun _ outcome _ _ => ?_
  have hheight := (height?_local hP).uniform_of_readOnly (height?_reading chain).readOnly
  refine .bind hheight fun _ level? _ _ => ?_
  cases level? with
  | none => exact .throw _
  | some level => exact .pure _

end LightClient

end BridgeKernel
