import BridgeKernel.Proofs.Bridge.Run

/-!
# Events are admitted once

The mark of an id is set by the call that admits the id and by nothing else: a proposal marks last
of all, and no other call writes marks. Whoever proposes an id again, whatever proves it, finds the
mark. So the marks of a run are told by its history, and an id occurs there at most once.
-/

namespace BridgeKernel

/-- The admission that a call brought, with the block in which it took place. -/
def BridgeEntry.admission? : BridgeEntry → Option (BlockContext × Instruction)
  | ⟨⟨_, .propose ctx _ _ _ _⟩, .ok (some i)⟩ => some (ctx, i)
  | _ => none

/-- The height at which a call admitted an id of a chain, if it did. -/
def BridgeEntry.admittedAt? (chain : ChainId) (id : Bytes) (e : BridgeEntry) : Option UInt64 :=
  match e.admission? with
  | some (ctx, i) => if i.sourceChain = chain ∧ i.crossChainId = id then some ctx.height else none
  | none => none

/-- The mark of an id of a chain. -/
def State.mark? (s : State) (chain : ChainId) (id : Bytes) : Option ReplayMarker :=
  s.lookup (.applied chain id)

/-- In a store in form there is a mark wherever there are bytes for one. -/
theorem State.WellFormed.mark_isSome {s : State} (hs : s.WellFormed) (chain : ChainId)
    (id : Bytes) : (s.raw? (.applied chain id)).isSome = (s.mark? chain id).isSome :=
  hs.lookup_isSome (RecordKey.applied_holds chain id)

variable {chain : ChainId} {id : Bytes}

/-- An answered call and the marks around it: either it admitted the id, which had no mark, and set
the mark, or it left the mark as it was. -/
def BridgeEntry.Marks (chain : ChainId) (id : Bytes) (e : BridgeEntry) (s t : State) : Prop :=
  (∃ height, e.admittedAt? chain id = some height ∧ s.mark? chain id = none ∧
    t.mark? chain id = some ⟨height⟩) ∨
  (e.admittedAt? chain id = none ∧ t.mark? chain id = s.mark? chain id)

/-- A call that admits nothing and writes other records leaves the mark as it was. -/
theorem BridgeEntry.Marks.quiet {P : RecordKey → Prop} {e : BridgeEntry} {s t : State}
    (hnone : e.admittedAt? chain id = none) (hwrites : s.Writes P t)
    (hkey : ¬ P (.applied chain id)) : BridgeEntry.Marks chain id e s t := by
  right
  constructor
  · exact hnone
  · exact hwrites.lookup_eq hkey

theorem Proposed.marks {config : BridgeConfig} {ctx : BlockContext} {sideChain? : SideChainLookup}
    {epochAt : EpochLookup} {source : ChainId} {claim : DepositClaim} {s t : State}
    {r : Except BridgeError (Option Instruction)} (h : Proposed RecordKey.IsVote ctx s r t) :
    BridgeEntry.Marks chain id ⟨⟨config, .propose ctx sideChain? epochAt source claim⟩, r⟩ s t := by
  have hvote (c : ChainId) (x : Bytes) : ¬ RecordKey.IsVote (.applied c x) := by
    rintro ⟨hash, he⟩
    cases he
  cases h with
  | @admitted u _ i before mark =>
    obtain ⟨hnone, hset, hmark⟩ := Replay.markApplied_ok mark
    have hsame (c : ChainId) (x : Bytes) : u.mark? c x = s.mark? c x :=
      before.lookup_eq (hvote c x)
    by_cases hi : i.sourceChain = chain ∧ i.crossChainId = id
    · obtain ⟨rfl, rfl⟩ := hi
      left
      have hbefore : s.mark? i.sourceChain i.crossChainId = none :=
        (hsame _ _).symm.trans hnone
      exact ⟨ctx.height, if_pos ⟨rfl, rfl⟩, hbefore, hset⟩
    · right
      have hother : t.mark? chain id = u.mark? chain id := by
        apply hmark.lookup_eq
        intro he
        cases he
        exact hi ⟨rfl, rfl⟩
      exact ⟨if_neg hi, hother.trans (hsame chain id)⟩
  | other none writes =>
    refine .quiet ?_ writes (hvote chain id)
    rcases r with e | (_ | i)
    · rfl
    · rfl
    · exact absurd rfl (none i)

/-- Every call either admits or leaves the mark alone. -/
theorem BridgeRequest.perform_marks (request : BridgeRequest) (bridge : Bridge) (chain : ChainId)
    (id : Bytes) :
    BridgeEntry.Marks chain id ⟨request, (request.perform bridge).1⟩ bridge.state
      (request.perform bridge).2.state := by
  have hwrites := request.perform_writes bridge
  obtain ⟨config, op⟩ := request
  cases op with
  | propose ctx sideChain? epochAt source claim =>
    exact (Bridge.propose_proposed config ctx sideChain? epochAt source claim bridge).marks
  | isApplied => exact .quiet rfl hwrites fun h => h
  | syncGenesis | syncBatch | syncHeaders => exact .quiet rfl hwrites fun h => h
  | installCommittee | rotateCommittee =>
    apply BridgeEntry.Marks.quiet rfl hwrites
    intro h
    cases h
  | registerRedeem | recordDeposit | createDraft | addSignature => exact .quiet rfl hwrites fun h => h

namespace Bridge

/-- The heights at which a run admitted an id of a chain. -/
def admissions (chain : ChainId) (id : Bytes) (requests : List BridgeRequest) (bridge : Bridge) :
    List UInt64 :=
  (history requests bridge).filterMap (BridgeEntry.admittedAt? chain id)

theorem admissions_cons (request : BridgeRequest) (requests : List BridgeRequest)
    (bridge : Bridge) :
    admissions chain id (request :: requests) bridge =
      (BridgeEntry.admittedAt? chain id ⟨request, (request.perform bridge).1⟩).toList ++
        admissions chain id requests (request.perform bridge).2 := by
  rw [admissions, history, run, List.filterMap_cons]
  cases BridgeEntry.admittedAt? chain id ⟨request, (request.perform bridge).1⟩ <;> rfl

/-- A mark that is set stays, and its id is not admitted any more. -/
theorem run_marked {marker : ReplayMarker} {bridge : Bridge} (requests : List BridgeRequest)
    (h : bridge.state.mark? chain id = some marker) :
    admissions chain id requests bridge = [] ∧
      (after requests bridge).mark? chain id = some marker := by
  induction requests generalizing bridge with
  | nil => exact ⟨rfl, h⟩
  | cons request requests ih =>
    rcases request.perform_marks bridge chain id with ⟨height, -, hnone, -⟩ | ⟨hquiet, hsame⟩
    · exact nomatch h.symm.trans hnone
    · obtain ⟨hlater, hmark⟩ := ih (hsame.trans h)
      refine ⟨?_, hmark⟩
      rw [admissions_cons, hquiet, hlater]
      rfl

/-- An id without a mark is admitted at most once, and then has the mark of that admission. -/
theorem run_unmarked {bridge : Bridge} (requests : List BridgeRequest)
    (h : bridge.state.mark? chain id = none) :
    (admissions chain id requests bridge).length ≤ 1 ∧
      (after requests bridge).mark? chain id =
        (admissions chain id requests bridge).head?.map ReplayMarker.mk := by
  induction requests generalizing bridge with
  | nil => exact ⟨Nat.zero_le 1, h⟩
  | cons request requests ih =>
    rw [admissions_cons]
    rcases request.perform_marks bridge chain id with ⟨height, hadmits, -, hset⟩ | ⟨hquiet, hsame⟩
    · obtain ⟨hlater, hmark⟩ := run_marked requests hset
      rw [hadmits, hlater]
      exact ⟨Nat.le_refl 1, hmark⟩
    · rw [hquiet]
      exact ih (hsame.trans h)

/-- Over every run from an empty store an id of a chain is admitted at most once, its mark is there
exactly when it has been admitted, and the mark keeps the height of the admission for ever. -/
theorem admitted_at_most_once (module : Bytes) (faults : Nat → StoreOp → Option StoreFault)
    (requests : List BridgeRequest) (chain : ChainId) (id : Bytes) :
    (admissions chain id requests (empty module faults)).length ≤ 1 ∧
    (((after requests (empty module faults)).raw? (.applied chain id)).isSome = true ↔
      ∃ height, height ∈ admissions chain id requests (empty module faults)) ∧
    ∀ height ∈ admissions chain id requests (empty module faults), ∀ later,
      (after (requests ++ later) (empty module faults)).mark? chain id = some ⟨height⟩ := by
  have hstart : (empty module faults).state.mark? chain id = none := rfl
  obtain ⟨honce, hmark⟩ := run_unmarked requests hstart
  have hform := wellFormed_after requests module faults
  refine ⟨honce, ?_, ?_⟩
  · rw [hform.mark_isSome, hmark]
    cases admissions chain id requests (empty module faults) with
    | nil => simp
    | cons height rest => simp
  · intro height hheight later
    have hnow : (after requests (empty module faults)).mark? chain id = some ⟨height⟩ := by
      rw [hmark]
      match admissions chain id requests (empty module faults), honce, hheight with
      | [_], _, hheight => rw [List.mem_singleton.mp hheight]; rfl
    rw [after_append]
    exact (run_marked later hnow).2

end Bridge

end BridgeKernel
