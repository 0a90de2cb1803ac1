import BridgeKernel.Bridge.Deposit
import BridgeKernel.Proofs.Header.Records
import BridgeKernel.Proofs.Replay
import BridgeKernel.Proofs.Vote

/-!
# What a proposal does to the store

Verifying a claim only reads, and casting a vote writes the record of votes only. So a proposal that
admits an instruction has set its mark as the last thing it did, and any other proposal leaves all
records but votes alone.
-/

namespace BridgeKernel

open Transition

variable {P : RecordKey → Prop} {ctx : BlockContext}

/-! ## Verification only reads -/

namespace CommitteeStore

theorem verified_readOnly (chain : ChainId) (bytes : Bytes) : (verified chain bytes).ReadOnly := by
  refine .bind (.mapError (State.load?_readOnly _) _) fun found => ?_
  cases found with
  | none => exact .throw _
  | some committee =>
    exact .bind (.ofExcept _ _) fun _ => .bind (.ofExcept _ _) fun _ => .pure _

theorem verifyMessage_readOnly (chain : ChainId) (bytes : Bytes) :
    (verifyMessage chain bytes).ReadOnly :=
  .bind (verified_readOnly chain bytes) fun _ => .pure _

end CommitteeStore

theorem EvmClaim.anchor_readOnly (source : SideChain) (height : UInt64) :
    (anchor source height).ReadOnly := by
  refine .bind (.mapError (LightClient.canonicalHeader?_reading _ _).readOnly _) fun found => ?_
  cases found with
  | none => exact .throw _
  | some trusted =>
    refine .bind (.mapError (LightClient.height?_reading _).readOnly _) fun tip? => ?_
    refine .guard ?_
    refine .guard ?_
    exact .pure _

variable (config : ProofConfig) (localChain : ChainId) (source : SideChain)

theorem EvmClaim.verify_readOnly (claim : EvmClaim) :
    (claim.verify config localChain source).ReadOnly := by
  refine .bind (.ofExcept _ _) fun _ => ?_
  refine .guard ?_
  refine .bind (anchor_readOnly source claim.height) fun stateRoot => ?_
  exact .bind (.ofExcept _ _) fun _ => .ofExcept _ _

theorem TaggedTrieClaim.verify_readOnly (claim : TaggedTrieClaim) :
    (claim.verify config localChain source).ReadOnly := by
  refine .bind (.ofExcept _ _) fun _ => ?_
  refine .guard ?_
  refine .bind (.mapError (CommitteeStore.verifyMessage_readOnly _ _) _) fun body => ?_
  refine .guard ?_
  exact .bind (.ofExcept _ _) fun _ => .ofExcept _ _

theorem SignedRootClaim.verify_readOnly (claim : SignedRootClaim) :
    (claim.verify config localChain source).ReadOnly := by
  unfold verify
  refine .guard ?_
  refine .bind (.ofExcept _ _) fun _ => ?_
  refine .bind (.mapError (CommitteeStore.verifyMessage_readOnly _ _) _) fun body => ?_
  refine .guard ?_
  refine .guard ?_
  exact .ofExcept _ _

/-! ## Marking an event -/

namespace Claim

variable {s t : State}

/-- Marking an event is refused by the ledger, and leaves no trace then. -/
theorem markAdmitted_error {instruction : Instruction} {e : ClaimError}
    (h : markAdmitted ctx instruction s = (.error e, t)) :
    s.Untouched t ∧ ∃ cause, e = .replay cause := by
  unfold markAdmitted at h
  rcases bind_error h with hmark | ⟨_, u, -, hpure⟩
  · obtain ⟨cause, hledger, rfl⟩ := mapError_error hmark
    exact ⟨Replay.markApplied_atomic _ _ _ _ _ _ hledger, cause, rfl⟩
  · cases hpure

theorem markAdmitted_atomic (ctx : BlockContext) (instruction : Instruction) :
    (markAdmitted ctx instruction).Atomic :=
  fun _ _ _ h => (markAdmitted_error h).1

/-- A marked event is handed on as it is. -/
theorem markAdmitted_ok {instruction admitted : Instruction}
    (h : markAdmitted ctx instruction s = (.ok admitted, t)) : admitted = instruction ∧
      Replay.markApplied ctx instruction.sourceChain instruction.crossChainId s = (.ok (), t) := by
  obtain ⟨_, u, hmark, h⟩ := bind_ok h
  obtain ⟨rfl, rfl⟩ := pure_ok h
  exact ⟨rfl, mapError_ok hmark⟩

end Claim

/-! ## Proposals -/

/-- How a proposal may come out of a state, when what precedes admission writes records of a set
only. -/
inductive Proposed {ε : Type} (P : RecordKey → Prop) (ctx : BlockContext) (s : State) :
    Except ε (Option Instruction) → State → Prop
  /-- The instruction is marked last of all. -/
  | admitted {u t : State} {i : Instruction} (before : s.Writes P u)
    (mark : Replay.markApplied ctx i.sourceChain i.crossChainId u = (.ok (), t)) :
    Proposed P ctx s (.ok (some i)) t
  /-- Nothing is marked. -/
  | other {t : State} {r : Except ε (Option Instruction)}
    (none : ∀ i, r ≠ .ok (some i)) (writes : s.Writes P t) : Proposed P ctx s r t

variable {ε ε' : Type}

/-- Besides the records of the set a proposal writes at most a mark. -/
theorem Proposed.writes {s t : State} {r : Except ε (Option Instruction)}
    (h : Proposed P ctx s r t) :
    s.Writes (fun key => P key ∨ ∃ chain id, key = .applied chain id) t := by
  cases h with
  | admitted before mark =>
    obtain ⟨-, -, hmark⟩ := Replay.markApplied_ok mark
    refine State.Writes.trans (before.mono ?_) (hmark.mono ?_)
    · exact fun key hkey => .inl hkey
    · exact fun key hkey => .inr ⟨_, _, hkey⟩
  | other _ writes => exact writes.mono fun key hkey => .inl hkey

/-- A proposal of a kind that writes records of a set before it admits. -/
def Transition.Proposes (P : RecordKey → Prop) (ctx : BlockContext)
    (x : Transition ε (Option Instruction)) : Prop :=
  ∀ s, Proposed P ctx s (x s).1 (x s).2

namespace Transition.Proposes

theorem of_within {x : Transition ε (Option Instruction)} (hx : x.Within P)
    (hnone : ∀ s i, (x s).1 ≠ .ok (some i)) : x.Proposes P ctx :=
  fun s => .other (hnone s) (hx s)

protected theorem bind {α : Type} {x : Transition ε α}
    {f : α → Transition ε (Option Instruction)} (hx : x.Within P)
    (hf : ∀ a, (f a).Proposes P ctx) : (x >>= f).Proposes P ctx := by
  intro s
  have hs := hx s
  rw [bind_run]
  rcases hr : x s with ⟨e | a, u⟩
  · rw [hr] at hs
    exact .other (fun i hi => nomatch hi) hs
  · rw [hr] at hs
    have hu := hf a u
    simp only
    generalize (f a u).1 = r, (f a u).2 = t at hu
    cases hu with
    | admitted before mark => exact .admitted (hs.trans before) mark
    | other none writes => exact .other none (hs.trans writes)

protected theorem mapError {x : Transition ε (Option Instruction)} (hx : x.Proposes P ctx)
    (f : ε → ε') : (x.mapError f).Proposes P ctx := by
  intro s
  have hs := hx s
  rcases hr : x s with ⟨e | a, t⟩
  · rw [hr] at hs
    have hrun : x.mapError f s = (.error (f e), t) := by simp only [Transition.mapError, hr]
    rw [hrun]
    cases hs with
    | other _ writes => exact .other (fun i hi => nomatch hi) writes
  · rw [hr] at hs
    have hrun : x.mapError f s = (.ok a, t) := by simp only [Transition.mapError, hr]
    rw [hrun]
    cases hs with
    | admitted before mark => exact .admitted before mark
    | other none writes => exact .other (fun i hi => none i (by rw [Except.ok.inj hi])) writes

/-- Marking an instruction and handing it on admits it. -/
theorem mark (i : Instruction) :
    (do return some (← Claim.markAdmitted ctx i) : Transition ClaimError _).Proposes P ctx := by
  intro s
  rcases hr : Replay.markApplied ctx i.sourceChain i.crossChainId s with ⟨e | x, t⟩
  · have hrun : (do return some (← Claim.markAdmitted ctx i) :
        Transition ClaimError (Option Instruction)) s = (.error (.replay e), t) := by
      simp only [Claim.markAdmitted, bind_run, mapError, hr]
    rw [hrun]
    have hu := Replay.markApplied_atomic _ _ _ _ _ _ hr
    exact .other (fun i hi => nomatch hi) (.of_untouched hu)
  · have hrun : (do return some (← Claim.markAdmitted ctx i) :
        Transition ClaimError (Option Instruction)) s = (.ok (some i), t) := by
      simp only [Claim.markAdmitted, bind_run, mapError, hr]
      rfl
    rw [hrun]
    exact .admitted (.refl s) hr

end Transition.Proposes

/-- An attestation is recorded, and the one that completes a quorum admits its event. -/
theorem RelayClaim.propose_proposes (claim : RelayClaim) (votes : VoteConfig)
    (epochAt : EpochLookup) :
    (claim.propose config votes localChain ctx source epochAt).Proposes RecordKey.IsVote ctx := by
  refine .bind (ReadOnly.ofExcept _ _).within fun i => ?_
  have hvotes : (Vote.castInForce votes ctx epochAt claim.signer
      (voteMessage source.chainId claim.payload)).Within RecordKey.IsVote :=
    fun s => (Vote.castInForce_within votes epochAt _ _ s).mono fun _ hkey => ⟨_, hkey⟩
  refine .bind (.mapError hvotes _) fun reached => ?_
  cases reached with
  | false => exact .of_within (ReadOnly.pure _).within fun _ _ hi => nomatch hi
  | true => exact .mark i

/-- A proven claim writes nothing before its instruction is marked. -/
theorem DepositClaim.propose_proven (bridge : BridgeConfig) (epochAt : EpochLookup)
    {claim : DepositClaim} (hkind : claim.kind ≠ .relay) :
    (claim.propose bridge ctx source epochAt).Proposes P ctx := by
  cases claim with
  | evm claim => exact .bind (claim.verify_readOnly _ _ _).within .mark
  | taggedTrie claim => exact .bind (claim.verify_readOnly _ _ _).within .mark
  | signedRoot claim => exact .bind (claim.verify_readOnly _ _ _).within .mark
  | relay claim => exact absurd rfl hkind

/-- Every claim is proposed in one of two ways: its instruction is marked last of all, or nothing
but votes is written. -/
theorem DepositClaim.propose_proposes (bridge : BridgeConfig) (epochAt : EpochLookup)
    (claim : DepositClaim) :
    (claim.propose bridge ctx source epochAt).Proposes RecordKey.IsVote ctx := by
  cases claim with
  | relay claim => exact claim.propose_proposes _ _ source _ epochAt
  | evm | taggedTrie | signedRoot => exact propose_proven source bridge epochAt nofun

end BridgeKernel
