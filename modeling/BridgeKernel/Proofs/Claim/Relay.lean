import BridgeKernel.Proofs.Claim.Proposal
import BridgeKernel.Proofs.Vote.Ballots

/-!
# What an attestation comes to

An attestation is refused without a trace, or repeats one that its validator has given before, or is
counted. The one that completes the quorum has its event marked. Where the ledger refuses the mark
the attestation is refused, and yet it stays counted.
-/

namespace BridgeKernel

open Transition

variable {ctx : BlockContext} {config : ProofConfig} {localChain : ChainId} {source : SideChain}
  {epochAt : EpochLookup} {s t : State}

namespace Claim

/-- Binding an event does not ask the ledger. -/
theorem bind_error_ne_replay {chain : ChainId} {payload : Bytes} {e : ClaimError}
    (h : bind config localChain chain payload = .error e) (cause : ReplayError) :
    e ≠ .replay cause := by
  rintro rfl
  unfold bind at h
  cases hlength : checkLength config payload with
  | error e =>
    rw [hlength] at h
    cases h
    unfold checkLength at hlength
    split at hlength <;> cases hlength
  | ok _ =>
    rw [hlength] at h
    cases hdecode : Event.decode payload with
    | error e =>
      rw [hdecode] at h
      cases h
    | ok event =>
      rw [hdecode] at h
      change (if event.toChain ≠ localChain then _ else _ : Except ClaimError Instruction) = _ at h
      split at h
      · cases h
      · change ((event.toInstruction chain).mapError ClaimError.event) = _ at h
        cases hbound : event.toInstruction chain with
        | error e =>
          rw [hbound] at h
          cases h
        | ok instruction =>
          rw [hbound] at h
          cases h

end Claim

namespace RelayClaim

/-- An attestation that was counted: its validator is in the set in force, and its vote for the very
event is now among the votes. -/
structure Counted (claim : RelayClaim) (ctx : BlockContext) (source : ChainId)
    (epochAt : EpochLookup) (epoch : ValidatorEpoch) (record : VoteRecord) (s t : State) :
    Prop where
  /-- The set in force. -/
  governs : epochAt ctx.height = some epoch
  /-- The validator is in it. -/
  member : claim.signer ∈ epoch.validators
  /-- The votes so far are for the event. -/
  message : record.message = voteMessage source claim.payload
  /-- The vote is added to them. -/
  casts : Vote.Casts ctx epoch.quorumSize claim.signer (voteMessage source claim.payload) record s t

/-- What an attestation may come to. -/
inductive Comes (claim : RelayClaim) (ctx : BlockContext) (source : ChainId)
    (epochAt : EpochLookup) (s : State) : Except ClaimError (Option Instruction) → State → Prop
  /-- It is refused, not by the ledger. -/
  | refused {t : State} (e : ClaimError) (other : ∀ cause, e ≠ .replay cause)
    (unchanged : s.Untouched t) : Comes claim ctx source epochAt s (.error e) t
  /-- The validator has attested the event before. -/
  | repeated {t : State} {epoch : ValidatorEpoch} (governs : epochAt ctx.height = some epoch)
    (member : claim.signer ∈ epoch.validators)
    (voted : s.votedAt? (Sha256.hash (voteMessage source claim.payload)) claim.signer ≠ none)
    (unchanged : s.Untouched t) : Comes claim ctx source epochAt s (.ok none) t
  /-- It is counted and does not complete the quorum. -/
  | pending {t : State} {epoch : ValidatorEpoch} {record : VoteRecord}
    (counted : claim.Counted ctx source epochAt epoch record s t)
    (short : record.reachedBy claim.signer ctx.height epoch.quorumSize = false) :
    Comes claim ctx source epochAt s (.ok none) t
  /-- It completes the quorum, and its event is marked. -/
  | admitted {u t : State} {epoch : ValidatorEpoch} {record : VoteRecord} {i : Instruction}
    (counted : claim.Counted ctx source epochAt epoch record s u)
    (full : record.reachedBy claim.signer ctx.height epoch.quorumSize = true)
    (mark : Replay.markApplied ctx i.sourceChain i.crossChainId u = (.ok (), t)) :
    Comes claim ctx source epochAt s (.ok (some i)) t
  /-- It completes the quorum, and the ledger refuses its event. -/
  | unmarked {u t : State} {epoch : ValidatorEpoch} {record : VoteRecord}
    (counted : claim.Counted ctx source epochAt epoch record s u)
    (full : record.reachedBy claim.signer ctx.height epoch.quorumSize = true)
    (cause : ReplayError) (unchanged : u.Untouched t) :
    Comes claim ctx source epochAt s (.error (.replay cause)) t

variable {claim : RelayClaim} {votes : VoteConfig}

/-- A vote of an attestation repeats another, or is counted. -/
theorem vote_cases {chain : ChainId} {reached : Bool}
    (h : Vote.castInForce votes ctx epochAt claim.signer (voteMessage chain claim.payload) s =
      (.ok reached, t)) :
    (reached = false ∧ s.Untouched t ∧ (∃ epoch, epochAt ctx.height = some epoch ∧
        claim.signer ∈ epoch.validators) ∧
      s.votedAt? (Sha256.hash (voteMessage chain claim.payload)) claim.signer ≠ none) ∨
    ∃ epoch record, claim.Counted ctx chain epochAt epoch record s t ∧
      reached = record.reachedBy claim.signer ctx.height epoch.quorumSize := by
  obtain ⟨epoch, hepoch, hcast⟩ := Vote.castInForce_ok h
  obtain ⟨hcontains, -, -, hmessage⟩ := Vote.cast_checked hcast
  have hmember : claim.signer ∈ epoch.validators := List.contains_iff_mem.mp hcontains
  rcases Vote.cast_ok hcast with ⟨hreached, hu, hsigned⟩ | ⟨record, hcasts, hreached⟩
  · exact .inl ⟨hreached, hu, ⟨epoch, hepoch, hmember⟩, State.votedAt?_of_hasSigned hsigned⟩
  · rw [← hcasts.found] at hmessage
    exact .inr ⟨epoch, record, ⟨hepoch, hmember, hmessage, hcasts⟩, hreached⟩

theorem comes (claim : RelayClaim) (config : ProofConfig) (votes : VoteConfig)
    (localChain : ChainId) (ctx : BlockContext) (source : SideChain) (epochAt : EpochLookup)
    (s : State) :
    claim.Comes ctx source.chainId epochAt s
      (claim.propose config votes localChain ctx source epochAt s).1
      (claim.propose config votes localChain ctx source epochAt s).2 := by
  rcases h : claim.propose config votes localChain ctx source epochAt s with ⟨e | answer, t⟩
  · rcases bind_error h with hbind | ⟨instruction, u, hbind, hrest⟩
    · obtain ⟨rfl, cause, hbound, rfl⟩ := ofExcept_error hbind
      exact .refused _ (Claim.bind_error_ne_replay hbound) (.refl s)
    obtain ⟨-, rfl⟩ := ofExcept_ok hbind
    rcases bind_error hrest with hvote | ⟨reached, u, hvote, hrest⟩
    · obtain ⟨cause, hcast, rfl⟩ := mapError_error hvote
      exact .refused _ nofun (Vote.castInForce_atomic _ _ _ _ _ _ _ _ hcast)
    rcases vote_cases (mapError_ok hvote) with
      ⟨rfl, -⟩ | ⟨epoch, record, hcounted, hreached⟩
    · cases hrest
    cases reached with
    | false => cases hrest
    | true =>
      rcases bind_error hrest with hmark | ⟨_, _, -, hpure⟩
      · obtain ⟨hu, cause, rfl⟩ := Claim.markAdmitted_error hmark
        exact .unmarked hcounted hreached.symm cause hu
      · cases hpure
  · obtain ⟨instruction, u, hbind, hrest⟩ := bind_ok h
    obtain ⟨-, rfl⟩ := ofExcept_ok hbind
    obtain ⟨reached, u, hvote, hrest⟩ := bind_ok hrest
    rcases vote_cases (mapError_ok hvote) with
      ⟨rfl, hu, ⟨epoch, hepoch, hmember⟩, hvoted⟩ | ⟨epoch, record, hcounted, hreached⟩
    · obtain ⟨rfl, rfl⟩ := pure_ok hrest
      exact .repeated hepoch hmember hvoted hu
    cases reached with
    | false =>
      obtain ⟨rfl, rfl⟩ := pure_ok hrest
      exact .pending hcounted hreached.symm
    | true =>
      obtain ⟨admitted, v, hmark, hpure⟩ := bind_ok hrest
      obtain ⟨rfl, rfl⟩ := pure_ok hpure
      obtain ⟨rfl, hledger⟩ := Claim.markAdmitted_ok hmark
      exact .admitted hcounted hreached.symm hledger

end RelayClaim

end BridgeKernel
