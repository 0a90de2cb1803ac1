import BridgeKernel.Proofs.Bridge.Counting
import BridgeKernel.Proofs.Bridge.RelayRun

/-!
# Counted votes

An attestation counts as a vote when it is answered, with an instruction or with nothing. Such an
answer does not tell a vote that was stored from one that its validator has given before, and an
attestation whose event the replay ledger refuses is not answered though its vote stays stored. So
the votes counted on a run are those stored in the end, but for the repeated ones that were counted
again and the refused ones that were not counted.
-/

namespace BridgeKernel

namespace State

variable {s t : State}

/-- The stored votes: under each digest, those who have signed. -/
def storedVotes (s : State) : Set (Hash × Address) := {v | s.votedAt? v.1 v.2 ≠ none}

/-- Where the same records of votes are kept, the same votes are stored. -/
theorem storedVotes_congr (h : ∀ hash, t.votes? hash = s.votes? hash) :
    t.storedVotes = s.storedVotes := by
  unfold storedVotes votedAt?
  simp only [h]

end State

/-! ## Attestations -/

namespace RelayClaim

variable {claim : RelayClaim} {ctx : BlockContext} {source : ChainId} {epochAt : EpochLookup}
  {epoch : ValidatorEpoch} {record : VoteRecord} {s t : State}

/-- The vote that an attestation stores: the digest of its event, and its validator. -/
def vote (claim : RelayClaim) (source : ChainId) : Hash × Address :=
  (Sha256.hash (voteMessage source claim.payload), claim.signer)

/-- A counted attestation adds its vote to those stored, which it was not among. -/
theorem Counted.storedVotes (h : claim.Counted ctx source epochAt epoch record s t) :
    claim.vote source ∉ s.storedVotes ∧
      t.storedVotes = insert (claim.vote source) s.storedVotes := by
  constructor
  · exact not_not_intro h.casts.votedAt?_signer
  · ext ⟨hash, signer⟩
    change t.votedAt? hash signer ≠ none ↔ (hash, signer) = claim.vote source ∨ _
    by_cases hhash : hash = Sha256.hash (voteMessage source claim.payload)
    · subst hhash
      rw [h.casts.votedAt?_eq]
      by_cases hsigner : signer = claim.signer
      · subst hsigner
        simp [vote]
      · have hne : (Sha256.hash (voteMessage source claim.payload), signer) ≠
            claim.vote source := fun heq => hsigner (congrArg Prod.snd heq)
        rw [if_neg hsigner, or_iff_right hne]
        exact Iff.rfl
    · have hne : (hash, signer) ≠ claim.vote source := fun heq => hhash (congrArg Prod.fst heq)
      rw [State.votedAt?, h.casts.votes?_of_ne hhash, or_iff_right hne]
      exact Iff.rfl

end RelayClaim

/-- A proven claim is not answered with nothing. -/
theorem DepositClaim.propose_ne_none {config : BridgeConfig} {ctx : BlockContext}
    {source : SideChain} {epochAt : EpochLookup} {claim : DepositClaim} {s t : State}
    (hkind : claim.kind ≠ .relay) : claim.propose config ctx source epochAt s ≠ (.ok none, t) := by
  have hadmits {x : Transition ClaimError Instruction} :
      (do
        let instruction ← x
        return some (← Claim.markAdmitted ctx instruction) :
        Transition ClaimError (Option Instruction)) s ≠ (.ok none, t) := by
    intro h
    obtain ⟨instruction, u, -, h⟩ := Transition.bind_ok h
    obtain ⟨admitted, v, -, h⟩ := Transition.bind_ok h
    exact nomatch (Transition.pure_ok h).1
  cases claim with
  | evm | taggedTrie | signedRoot => exact hadmits
  | relay => exact absurd rfl hkind

/-! ## Calls -/

/-- How many votes an answered call counts that were stored before it: an attestation that is
answered with nothing counts as a vote again when its validator has voted. -/
def BridgeEntry.repeatedVotes (s : State) : BridgeEntry → Nat
  | ⟨⟨_, .propose _ sideChain? _ chain (.relay claim)⟩, .ok none⟩ =>
    match sideChain? chain with
    | some source =>
      if (s.votedAt? (claim.vote source.chainId).1 claim.signer).isSome then 1 else 0
    | none => 0
  | _ => 0

/-- How many votes an answered call leaves stored and does not count: that of an attestation whose
event the replay ledger refused. -/
def BridgeEntry.missedVotes : BridgeEntry → Nat
  | ⟨⟨_, .propose _ _ _ _ (.relay _)⟩, .error (.claim (.replay _))⟩ => 1
  | _ => 0

namespace BridgeRequest

/-- How many votes a call counts that were stored before it. -/
def repeatedVotes (request : BridgeRequest) (bridge : Bridge) : Nat :=
  BridgeEntry.repeatedVotes bridge.state ⟨request, (request.perform bridge).1⟩

/-- How many votes a call leaves stored and does not count. -/
def missedVotes (request : BridgeRequest) (bridge : Bridge) : Nat :=
  BridgeEntry.missedVotes ⟨request, (request.perform bridge).1⟩

end BridgeRequest

namespace Bridge

variable (config : BridgeConfig) (ctx : BlockContext) (sideChain? : SideChainLookup)
  (epochAt : EpochLookup) (chain : ChainId) (bridge : Bridge)

/-- An attestation accounts for its vote, unless it repeats one or is refused by the ledger. -/
theorem propose_votes_accounts (claim : RelayClaim) :
    Accounts (·.votes) State.storedVotes
      (BridgeEntry.repeatedVotes bridge.state
        ⟨⟨config, .propose ctx sideChain? epochAt chain (.relay claim)⟩,
          (propose config ctx sideChain? epochAt chain (.relay claim) bridge).1⟩)
      (BridgeEntry.missedVotes
        ⟨⟨config, .propose ctx sideChain? epochAt chain (.relay claim)⟩,
          (propose config ctx sideChain? epochAt chain (.relay claim) bridge).1⟩)
      bridge (propose config ctx sideChain? epochAt chain (.relay claim) bridge).2 := by
  rcases propose_answer config ctx sideChain? epochAt chain (.relay claim) bridge with
    ⟨e, hother, hrefused⟩ | ⟨source, answer, t, hsource, hclaim, hanswer⟩
  · rw [hrefused]
    cases e with
    | claim cause => exact absurd rfl (hother cause)
    | _ => exact .quiet rfl rfl
  · have hcomes := claim.comes config.proof config.vote config.localChain ctx source epochAt
      bridge.state
    have hrun : claim.propose config.proof config.vote config.localChain ctx source epochAt
        bridge.state = (answer, t) := hclaim
    rw [hrun] at hcomes
    rw [hanswer]
    have hvoted : BridgeEntry.repeatedVotes bridge.state
        ⟨⟨config, .propose ctx sideChain? epochAt chain (.relay claim)⟩, .ok none⟩ =
          if (bridge.state.votedAt? (claim.vote source.chainId).1 claim.signer).isSome then 1
          else 0 := by
      rw [BridgeEntry.repeatedVotes, hsource]
    cases hcomes with
    | refused e other unchanged =>
      have hsame : t.storedVotes = bridge.state.storedVotes :=
        State.storedVotes_congr fun hash => unchanged.lookup_eq (.vote hash)
      have hvotes := (bridge.counters.afterClaim_error .relay (.claim e)).2
      cases e with
      | replay cause => exact absurd rfl (other cause)
      | _ => exact .quiet hsame hvotes
    | repeated governs member voted unchanged =>
      have hcounted : Accounts (·.votes) State.storedVotes 1 0 bridge
          ⟨t, bridge.counters.afterClaim .relay (.ok none)⟩ :=
        .quiet (State.storedVotes_congr fun hash => unchanged.lookup_eq (.vote hash)) rfl
      rwa [← hvoted.trans (if_pos (Option.isSome_iff_ne_none.mpr voted))] at hcounted
    | pending counted =>
      obtain ⟨hnew, hinsert⟩ := counted.storedVotes
      have hcounted : Accounts (·.votes) State.storedVotes 0 0 bridge
          ⟨t, bridge.counters.afterClaim .relay (.ok none)⟩ := .stored hinsert hnew rfl
      have hfirst : ¬ (bridge.state.votedAt? (claim.vote source.chainId).1
          claim.signer).isSome = true :=
        fun hsome => hnew (Option.isSome_iff_ne_none.mp hsome)
      exact (hvoted.trans (if_neg hfirst)).symm ▸ hcounted
    | admitted counted full mark =>
      obtain ⟨hnew, hinsert⟩ := counted.storedVotes
      have hmark := State.storedVotes_congr (RelayClaim.votes?_of_mark mark)
      exact .stored (hmark.trans hinsert) hnew rfl
    | unmarked counted full cause unchanged =>
      obtain ⟨hnew, hinsert⟩ := counted.storedVotes
      have hsame := State.storedVotes_congr fun hash => unchanged.lookup_eq (.vote hash)
      have hvotes := (bridge.counters.afterClaim_error .relay (.claim (.replay cause))).2
      exact .stored (hsame.trans hinsert) hnew (congrArg (· + 1) hvotes)

/-- A proven claim stores no vote and counts none. -/
theorem propose_votes_quiet {claim : DepositClaim} (hkind : claim.kind ≠ .relay) :
    Accounts (·.votes) State.storedVotes 0 0 bridge
      (propose config ctx sideChain? epochAt chain claim bridge).2 := by
  refine .quiet (State.storedVotes_congr fun hash =>
    propose_votes?_eq config ctx sideChain? epochAt chain bridge hkind hash) ?_
  rcases propose_answer config ctx sideChain? epochAt chain claim bridge with
    ⟨e, -, hrefused⟩ | ⟨source, answer, t, -, hclaim, hanswer⟩
  · rw [hrefused]
    rfl
  · rw [hanswer]
    rcases answer with e | (_ | i)
    · exact (bridge.counters.afterClaim_error _ _).2
    · exact absurd hclaim (DepositClaim.propose_ne_none hkind)
    · exact if_neg hkind

end Bridge

/-- A call accounts for the votes that it stores, but for those that it repeats or misses. -/
theorem BridgeRequest.perform_votes_accounts (request : BridgeRequest) (bridge : Bridge) :
    Bridge.Accounts (·.votes) State.storedVotes (request.repeatedVotes bridge)
      (request.missedVotes bridge) bridge (request.perform bridge).2 := by
  have hwrites := request.perform_writes bridge
  -- A call that is no proposal writes no votes.
  have hquiet (hkey : ∀ hash, ¬ request.op.Touches (.vote hash))
      (hcount : (request.perform bridge).2.counters.votes = bridge.counters.votes) :
      Bridge.Accounts (·.votes) State.storedVotes 0 0 bridge (request.perform bridge).2 :=
    .quiet (State.storedVotes_congr fun hash => hwrites.lookup_eq (hkey hash)) hcount
  obtain ⟨config, op⟩ := request
  cases op with
  | propose ctx sideChain? epochAt chain claim =>
    cases claim with
    | relay claim =>
      exact Bridge.propose_votes_accounts config ctx sideChain? epochAt chain bridge claim
    | evm | taggedTrie | signedRoot =>
      exact Bridge.propose_votes_quiet config ctx sideChain? epochAt chain bridge nofun
  | syncBatch ctx chain headers =>
    exact hquiet (fun hash h => h) (bridge.counters.afterBatch_votes _)
  | syncHeaders ctx chain headers =>
    refine hquiet (fun hash h => h) ?_
    change (Bridge.syncHeaders config ctx chain headers bridge).2.counters.votes = _
    rw [Bridge.syncHeaders_bridge]
    exact bridge.counters.afterBatch_votes _
  | addSignature chain signer txid signatures =>
    exact hquiet (fun hash h => h) (bridge.counters.afterSigning_votes _)
  | installCommittee | rotateCommittee => exact hquiet (fun hash => nofun) rfl
  | isApplied | syncGenesis | registerRedeem | recordDeposit | createDraft =>
    exact hquiet (fun hash h => h) rfl

namespace Bridge

/-- What a run from an empty store counted and stored of votes. -/
theorem votes_accounted (module : Bytes) (faults : Nat → StoreOp → Option StoreFault)
    (counters : Counters) (requests : List BridgeRequest) :
    ∃ n : Nat, (after requests (opened module faults counters)).storedVotes.encard = n ∧
      (run requests (opened module faults counters)).2.counters.votes +
          totalOver BridgeRequest.missedVotes requests (opened module faults counters) =
        counters.votes + n +
          totalOver BridgeRequest.repeatedVotes requests (opened module faults counters) :=
  run_counts (I := fun _ => True) (fun _ _ _ => trivial)
    (fun request b _ => request.perform_votes_accounts b) requests trivial
    (Set.eq_empty_of_forall_notMem fun _ hv => hv rfl)

/-- Over every run from an empty store, whatever its operations do, the votes counted on the way and
those that were stored without being counted are as many as the votes that are stored in the end and
those that were counted again. So the count is that of the store exactly when as many votes were
counted again as were not counted. -/
theorem votes_counted_iff (module : Bytes) (faults : Nat → StoreOp → Option StoreFault)
    (counters : Counters) (requests : List BridgeRequest) :
    let start := opened module faults counters
    let counted := (run requests start).2.counters.votes
    let stored := (after requests start).storedVotes
    let repeated := totalOver BridgeRequest.repeatedVotes requests start
    let missed := totalOver BridgeRequest.missedVotes requests start
    (counted + missed : ENat) = counters.votes + stored.encard + repeated ∧
      ((counted : ENat) = counters.votes + stored.encard ↔ repeated = missed) := by
  intro start counted stored repeated missed
  obtain ⟨n, hstored, hcount⟩ := votes_accounted module faults counters requests
  change stored.encard = n at hstored
  change counted + missed = counters.votes + n + repeated at hcount
  rw [hstored]
  constructor
  · exact_mod_cast hcount
  · norm_cast
    omega

/-- A validator attests the same event twice: two votes are counted, and one is stored. -/
theorem attested_twice_counted_twice :
    (run [numberedRequest 1 100, numberedRequest 1 100]
        (opened [] (fun _ _ => none) .zero)).2.counters.votes = 2 ∧
      (after [numberedRequest 1 100, numberedRequest 1 100]
        (opened [] (fun _ _ => none) .zero)).storedVotes.encard = 1 := by
  have hrun : (run [numberedRequest 1 100, numberedRequest 1 100]
        (opened [] (fun _ _ => none) .zero)).2.counters.votes = 2 ∧
      totalOver BridgeRequest.missedVotes [numberedRequest 1 100, numberedRequest 1 100]
        (opened [] (fun _ _ => none) .zero) = 0 ∧
      totalOver BridgeRequest.repeatedVotes [numberedRequest 1 100, numberedRequest 1 100]
        (opened [] (fun _ _ => none) .zero) = 1 := by
    decide +kernel
  obtain ⟨hcounted, hmissed, hrepeated⟩ := hrun
  obtain ⟨n, hstored, hcount⟩ := votes_accounted [] (fun _ _ => none) .zero
    [numberedRequest 1 100, numberedRequest 1 100]
  rw [hcounted, hmissed, hrepeated] at hcount
  change 2 + 0 = 0 + n + 1 at hcount
  refine ⟨hcounted, ?_⟩
  rw [hstored, show n = 1 by omega, Nat.cast_one]

/-- The call that brings the only validator's attestation of an event with the id 42. -/
def attestRequest (last : UInt8) : BridgeRequest :=
  ⟨.trial, .propose ⟨100, 0⟩ (fun _ => some attestedChain) (fun _ => some ⟨0, [soleValidator]⟩) 1
    (attestation soleValidator last)⟩

-- The second event is refused for its id, and its vote stays.
example :
    (run [attestRequest 1, attestRequest 2]
        (opened [] (fun _ _ => none) .zero)).2.counters.votes = 1 ∧
      totalOver BridgeRequest.missedVotes [attestRequest 1, attestRequest 2]
        (opened [] (fun _ _ => none) .zero) = 1 := by
  decide +kernel

end Bridge

end BridgeKernel
