import BridgeKernel.Proofs.Bridge.Refusal
import Mathlib.Data.Set.Card

/-!
# Counts and what is stored

The bridge draws its counts from the answers of its calls, far from where the store is written. So a
count is compared with the things that it is about call by call: how many more of them are stored,
and how much more is counted. Over a run both add up. What was counted again, and what was stored
and not counted, adds up beside them.
-/

namespace BridgeKernel

namespace Bridge

variable {γ : Type} {count : Counters → Nat} {kept : State → Set γ} {repeated missed : Nat}
  {b c d : Bridge}

/-- A bridge on an empty store, under a schedule of failures, that has counted before. -/
def opened (module : Bytes) (faults : Nat → StoreOp → Option StoreFault) (counters : Counters) :
    Bridge := ⟨(empty module faults).state, counters⟩

/-- How a count and the things that it is about move from one bridge to another: the count grows by
the things stored on the way, but for some that were counted again and some that were not. -/
def Accounts (count : Counters → Nat) (kept : State → Set γ) (repeated missed : Nat)
    (b c : Bridge) : Prop :=
  ∃ n : Nat, (kept c.state).encard = (kept b.state).encard + n ∧
    count c.counters + missed = count b.counters + n + repeated

namespace Accounts

/-- Nothing is stored. -/
theorem quiet (hkept : kept c.state = kept b.state)
    (hcount : count c.counters = count b.counters + repeated) :
    Accounts count kept repeated 0 b c := by
  refine ⟨0, ?_, ?_⟩
  · rw [hkept, Nat.cast_zero, add_zero]
  · rw [hcount, Nat.add_zero, Nat.add_zero]

/-- One thing is stored. -/
theorem stored {a : γ} (hkept : kept c.state = insert a (kept b.state)) (hnew : a ∉ kept b.state)
    (hcount : count c.counters + missed = count b.counters + 1) :
    Accounts count kept 0 missed b c := by
  refine ⟨1, ?_, hcount⟩
  rw [hkept, Set.encard_insert_of_notMem hnew, Nat.cast_one]

theorem trans {repeated' missed' : Nat} (h : Accounts count kept repeated missed b c)
    (h' : Accounts count kept repeated' missed' c d) :
    Accounts count kept (repeated + repeated') (missed + missed') b d := by
  obtain ⟨n, hkept, hcount⟩ := h
  obtain ⟨m, hkept', hcount'⟩ := h'
  refine ⟨n + m, ?_, by omega⟩
  rw [hkept', hkept, Nat.cast_add, add_assoc]

end Accounts

/-- A number for each call, added up over a run. -/
def totalOver (f : BridgeRequest → Bridge → Nat) : List BridgeRequest → Bridge → Nat
  | [], _ => 0
  | request :: rest, bridge => f request bridge + totalOver f rest (request.perform bridge).2

@[simp] theorem totalOver_zero (requests : List BridgeRequest) (bridge : Bridge) :
    totalOver (fun _ _ => 0) requests bridge = 0 := by
  induction requests generalizing bridge with
  | nil => rfl
  | cons request requests ih => rw [totalOver, ih]

section Run

variable {I : State → Prop} {repeated missed : BridgeRequest → Bridge → Nat}
  (hkeep : ∀ (request : BridgeRequest) (b : Bridge), I b.state → I (request.perform b).2.state)
  (hcall : ∀ (request : BridgeRequest) (b : Bridge), I b.state →
    Accounts count kept (repeated request b) (missed request b) b (request.perform b).2)
include hkeep hcall

/-- A run accounts for what its calls account for. -/
theorem run_accounts (requests : List BridgeRequest) {bridge : Bridge} (h : I bridge.state) :
    Accounts count kept (totalOver repeated requests bridge) (totalOver missed requests bridge)
      bridge (run requests bridge).2 := by
  induction requests generalizing bridge with
  | nil => exact .quiet rfl rfl
  | cons request requests ih =>
    have hfirst := hcall request bridge h
    exact hfirst.trans (ih (hkeep request bridge h))

/-- From a store without such things on, what a run counted tells how many there are in the end. -/
theorem run_counts (requests : List BridgeRequest) {bridge : Bridge} (h : I bridge.state)
    (hnone : kept bridge.state = ∅) :
    ∃ n : Nat, (kept (after requests bridge)).encard = n ∧
      count (run requests bridge).2.counters + totalOver missed requests bridge =
        count bridge.counters + n + totalOver repeated requests bridge := by
  obtain ⟨n, hkept, hcount⟩ := run_accounts hkeep hcall requests h
  rw [hnone, Set.encard_empty, zero_add] at hkept
  exact ⟨n, hkept, hcount⟩

end Run

end Bridge

/-! ## What a call counts -/

namespace Counters

variable (c : Counters) (kind : ClaimKind)

@[simp] theorem afterClaim_headers (r : Except BridgeError (Option Instruction)) :
    (c.afterClaim kind r).headers = c.headers := by
  unfold afterClaim
  split <;> [rfl; rfl; split <;> rfl]

@[simp] theorem afterClaim_finalized (r : Except BridgeError (Option Instruction)) :
    (c.afterClaim kind r).finalized = c.finalized := by
  unfold afterClaim
  split <;> [rfl; rfl; split <;> rfl]

/-- A refused claim leaves the admissions and the votes as they are. -/
@[simp] theorem afterClaim_error (e : BridgeError) :
    (c.afterClaim kind (.error e)).admitted = c.admitted ∧
      (c.afterClaim kind (.error e)).votes = c.votes := by
  unfold afterClaim
  dsimp only
  split <;> exact ⟨rfl, rfl⟩

@[simp] theorem afterBatch_admitted (r : Except BridgeError BatchOutcome) :
    (c.afterBatch r).admitted = c.admitted := by cases r <;> rfl

@[simp] theorem afterBatch_votes (r : Except BridgeError BatchOutcome) :
    (c.afterBatch r).votes = c.votes := by cases r <;> rfl

@[simp] theorem afterBatch_finalized (r : Except BridgeError BatchOutcome) :
    (c.afterBatch r).finalized = c.finalized := by cases r <;> rfl

@[simp] theorem afterSigning_admitted (r : Except BridgeError SigningOutcome) :
    (c.afterSigning r).admitted = c.admitted := by unfold afterSigning; split <;> rfl

@[simp] theorem afterSigning_votes (r : Except BridgeError SigningOutcome) :
    (c.afterSigning r).votes = c.votes := by unfold afterSigning; split <;> rfl

@[simp] theorem afterSigning_headers (r : Except BridgeError SigningOutcome) :
    (c.afterSigning r).headers = c.headers := by unfold afterSigning; split <;> rfl

end Counters

namespace Bridge

/-- A proposal is refused before its claim is looked at and leaves the bridge as it is, or is
answered as its claim is, for the chain under which it is registered, and counted from this
answer. -/
theorem propose_answer (config : BridgeConfig) (ctx : BlockContext) (sideChain? : SideChainLookup)
    (epochAt : EpochLookup) (chain : ChainId) (claim : DepositClaim) (bridge : Bridge) :
    (∃ e, (∀ cause, e ≠ .claim cause) ∧
      propose config ctx sideChain? epochAt chain claim bridge = (.error e, bridge)) ∨
    ∃ source answer t, sideChain? chain = some source ∧
      claim.propose config ctx source epochAt bridge.state = (answer, t) ∧
      propose config ctx sideChain? epochAt chain claim bridge =
        (answer.mapError .claim,
          ⟨t, bridge.counters.afterClaim claim.kind (answer.mapError .claim)⟩) := by
  unfold propose
  cases sideChain? chain with
  | none => exact .inl ⟨.unknownSideChain chain, nofun, rfl⟩
  | some source =>
    dsimp only
    cases hbound : config.kindFor source with
    | error cause =>
      rw [BridgeConfig.kindFor_error hbound]
      exact .inl ⟨.unrouted source.chainId source.router, nofun, rfl⟩
    | ok kind =>
      by_cases hkind : claim.kind = kind
      · subst hkind
        have hrun : claim.proposeAs claim.kind config ctx source epochAt =
            (claim.propose config ctx source epochAt).mapError .claim := if_pos rfl
        refine .inr ⟨source, (claim.propose config ctx source epochAt bridge.state).1,
          (claim.propose config ctx source epochAt bridge.state).2, rfl, rfl, ?_⟩
        dsimp only
        rw [hrun, counting, Transition.mapError_run]
      · have hrun : claim.proposeAs kind config ctx source epochAt =
            throw (.claimMismatch source.chainId kind claim.kind) := if_neg hkind
        refine .inl ⟨.claimMismatch source.chainId kind claim.kind, nofun, ?_⟩
        dsimp only
        rw [hrun]
        rfl

/-- A count that claims do not move is not moved by a proposal. -/
theorem propose_count {count : Counters → Nat}
    (hclaim : ∀ c kind r, count (Counters.afterClaim c kind r) = count c) (config : BridgeConfig)
    (ctx : BlockContext) (sideChain? : SideChainLookup) (epochAt : EpochLookup) (chain : ChainId)
    (claim : DepositClaim) (bridge : Bridge) :
    count (propose config ctx sideChain? epochAt chain claim bridge).2.counters =
      count bridge.counters := by
  rcases propose_answer config ctx sideChain? epochAt chain claim bridge with
    ⟨e, -, hrefused⟩ | ⟨source, answer, t, -, -, hanswer⟩
  · rw [hrefused]
  · rw [hanswer]
    exact hclaim _ _ _

/-- A call that goes on without touching the bridge leaves that of its first part. -/
theorem bind_bridge {α β : Type} {x : BridgeCall α} {f : α → BridgeCall β}
    (hf : ∀ a b, (f a b).2 = b) (bridge : Bridge) : ((x >>= f) bridge).2 = (x bridge).2 := by
  change (ExceptT.bindCont f (x bridge).1 (x bridge).2).2 = _
  rcases x bridge with ⟨e | a, b⟩
  · rfl
  · exact hf a b

/-- A batch is counted from its report. -/
theorem syncBatch_counters (config : BridgeConfig) (ctx : BlockContext) (chain : ChainId)
    (headers : List Header) (bridge : Bridge) :
    (syncBatch config ctx chain headers bridge).2.counters = bridge.counters.afterBatch
      ((LightClient.syncBatch config.headerSync ctx chain headers bridge.state).1.mapError
        .header) := by
  rw [syncBatch, counting, Transition.mapError_run]

/-- A batch that may not be refused counts as one that may. -/
theorem syncHeaders_bridge (config : BridgeConfig) (ctx : BlockContext) (chain : ChainId)
    (headers : List Header) (bridge : Bridge) :
    (syncHeaders config ctx chain headers bridge).2 =
      (syncBatch config ctx chain headers bridge).2 := by
  refine bind_bridge (fun outcome b => ?_) bridge
  rcases LightClient.strictReport outcome with e | report
  · rfl
  · rfl

end Bridge

end BridgeKernel
