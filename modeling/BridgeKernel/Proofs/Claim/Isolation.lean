import BridgeKernel.Proofs.Bridge.RelayRun
import BridgeKernel.Proofs.Claim.Evm
import BridgeKernel.Proofs.Header.Isolation

/-!
# What claims about a chain read and write

A proposal for a chain reads the chain's own records and, for an attestation, the votes for the very
message that is attested, and it writes marks of the chain and those votes only. The records of
other chains never matter for it. Votes lie under digests of messages, without a chain, so chains
stay apart there only as long as their messages have different digests.
-/

namespace BridgeKernel

open Transition

/-- The records that serve a chain beside its custody: its own ones, and the votes for the messages
with one of some digests. -/
def RecordKey.Serves (chain : ChainId) (digests : Hash → Prop) : RecordKey → Prop
  | .header c _ | .canonical c _ | .height c | .genesis c | .epoch c _ | .applied c _
  | .committee c => c = chain
  | .vote hash => digests hash
  | _ => False

theorem RecordKey.Remembers.serves (chain : ChainId) (digests : Hash → Prop) :
    ∀ key : RecordKey, key.Remembers chain → key.Serves chain digests
  | .header .., h | .canonical .., h | .height _, h | .genesis _, h | .epoch .., h => h

theorem RecordKey.serves_committee (chain : ChainId) (digests : Hash → Prop) :
    (committee chain).Serves chain digests := rfl

theorem RecordKey.serves_applied (chain : ChainId) (digests : Hash → Prop) (id : Bytes) :
    (applied chain id).Serves chain digests := rfl

namespace Transition

variable {ε α β : Type} {Q : α → Prop}

/-- Every result of a step has a property. -/
def Yields (Q : α → Prop) (x : Transition ε α) : Prop := ∀ s a t, x s = (.ok a, t) → Q a

namespace Yields

protected theorem bind {x : Transition ε β} {f : β → Transition ε α}
    (hf : ∀ b, (f b).Yields Q) : (x >>= f).Yields Q := by
  intro s a t h
  obtain ⟨b, u, -, h⟩ := bind_ok h
  exact hf b u a t h

protected theorem guard {c : Prop} [Decidable c] {e : ε} {k : Unit → Transition ε α}
    (h : (k ()).Yields Q) : (if c then throw e >>= k else k () : Transition ε α).Yields Q :=
  fun s a t hrun => h s a t (guard_ok hrun).2

protected theorem ofExcept {r : Except ε α} (h : ∀ a, r = .ok a → Q a) :
    (ofExcept id r).Yields Q :=
  fun _ a _ hrun => h a (ofExcept_ok hrun).1

end Yields

end Transition

variable {chain : ChainId} {digests : Hash → Prop}

/-! ## Committees -/

namespace CommitteeStore

theorem current?_local : (current? chain).Local (RecordKey.Serves chain digests) :=
  .mapError (State.load?_local (RecordKey.serves_committee chain digests)) _

theorem verified_local (bytes : Bytes) :
    (verified chain bytes).Local (RecordKey.Serves chain digests) := by
  refine .bind current?_local fun found => ?_
  cases found with
  | none => exact .throw _
  | some committee =>
    exact .bind (.ofExcept _ _) fun _ => .bind (.ofExcept _ _) fun _ => .pure _

theorem verifyMessage_local (bytes : Bytes) :
    (verifyMessage chain bytes).Local (RecordKey.Serves chain digests) :=
  .bind (verified_local bytes) fun _ => .pure _

theorem install_local (committee : Committee) :
    (install chain committee).Local (RecordKey.Serves chain digests) := by
  refine .bind (.mapError (State.has_local (RecordKey.serves_committee chain digests)) _)
    fun found => ?_
  refine .guard ?_
  refine .bind (.ofExcept _ _) fun _ => ?_
  exact .mapError (State.store_local _) _

theorem rotate_local (bytes : Bytes) :
    (rotate chain bytes).Local (RecordKey.Serves chain digests) := by
  refine .bind (verified_local bytes) fun found => ?_
  refine .bind (.ofExcept _ _) fun next => ?_
  exact .bind (.mapError (State.store_local _) _) fun _ => .pure _

end CommitteeStore

/-! ## Marks -/

namespace Replay

theorem marker?_local (id : Bytes) :
    (marker? chain id).Local (RecordKey.Serves chain digests) :=
  .mapError (State.load?_local (RecordKey.serves_applied chain digests id)) _

theorem isApplied_local (id : Bytes) :
    (isApplied chain id).Local (RecordKey.Serves chain digests) :=
  .bind (marker?_local id) fun _ => .pure _

theorem markApplied_local (ctx : BlockContext) (id : Bytes) :
    (markApplied ctx chain id).Local (RecordKey.Serves chain digests) := by
  unfold markApplied
  refine .guard ?_
  refine .bind (marker?_local id) fun found => ?_
  cases found with
  | some marker => exact .throw _
  | none => exact .mapError (State.store_local _) _

theorem markApplied_within (ctx : BlockContext) (chain : ChainId) (id : Bytes) :
    (markApplied ctx chain id).Within (· = .applied chain id) :=
  .of_atomic (markApplied_atomic ctx chain id) fun _ _ _ h => (markApplied_ok h).2.2

end Replay

/-! ## Votes -/

namespace Vote

variable {message : Bytes} (hmessage : digests (Sha256.hash message))
include hmessage

theorem recordFor_local : (recordFor message).Local (RecordKey.Serves chain digests) := by
  have hserves : (RecordKey.vote (Sha256.hash message)).Serves chain digests := hmessage
  refine .bind (.mapError (State.load?_local hserves) _) fun found => ?_
  cases found with
  | none => exact .pure _
  | some r =>
    change (if r.message = message then _ else _ : Transition VoteError VoteRecord).Local _
    split
    · exact .pure _
    · exact .throw _

theorem castInForce_local (votes : VoteConfig) (ctx : BlockContext) (epochAt : EpochLookup)
    (signer : Address) : (castInForce votes ctx epochAt signer message).Local
      (RecordKey.Serves chain digests) := by
  unfold castInForce
  cases epochAt ctx.height with
  | none => exact .throw _
  | some epoch =>
    refine .guard ?_
    refine .guard ?_
    refine .guard ?_
    refine .bind (recordFor_local hmessage) fun record => ?_
    split
    · exact .pure _
    · exact .bind (.mapError (State.store_local _) _) fun _ => .pure _

end Vote

/-! ## Verifying claims -/

section

variable {source : SideChain} (hsource : source.chainId = chain)
include hsource

theorem EvmClaim.verify_local (claim : EvmClaim) (config : ProofConfig) (localChain : ChainId) :
    (claim.verify config localChain source).Local (RecordKey.Serves chain digests) := by
  subst hsource
  have hanchor : (anchor source claim.height).Local
      (RecordKey.Serves source.chainId digests) := by
    have hserves := RecordKey.Remembers.serves source.chainId digests
    have hheader := LightClient.canonicalHeader?_local hserves claim.height
    have hheight := LightClient.height?_local hserves
    refine .bind (.mapError hheader _) fun found => ?_
    cases found with
    | none => exact .throw _
    | some trusted =>
      refine .bind (.mapError hheight _) fun tip? => ?_
      refine .guard ?_
      refine .guard ?_
      exact .pure _
  refine .bind (.ofExcept _ _) fun _ => ?_
  refine .guard ?_
  refine .bind hanchor fun stateRoot => ?_
  exact .bind (.ofExcept _ _) fun _ => .ofExcept _ _

theorem TaggedTrieClaim.verify_local (claim : TaggedTrieClaim) (config : ProofConfig)
    (localChain : ChainId) :
    (claim.verify config localChain source).Local (RecordKey.Serves chain digests) := by
  subst hsource
  refine .bind (.ofExcept _ _) fun _ => ?_
  refine .guard ?_
  refine .bind (.mapError (CommitteeStore.verifyMessage_local _) _) fun body => ?_
  refine .guard ?_
  exact .bind (.ofExcept _ _) fun _ => .ofExcept _ _

theorem SignedRootClaim.verify_local (claim : SignedRootClaim) (config : ProofConfig)
    (localChain : ChainId) :
    (claim.verify config localChain source).Local (RecordKey.Serves chain digests) := by
  subst hsource
  unfold verify
  refine .guard ?_
  refine .bind (.ofExcept _ _) fun _ => ?_
  refine .bind (.mapError (CommitteeStore.verifyMessage_local _) _) fun body => ?_
  refine .guard ?_
  refine .guard ?_
  exact .ofExcept _ _

end

/-! ## Instructions of a chain -/

section

variable (config : ProofConfig) (localChain : ChainId) (source : SideChain)

theorem EvmClaim.verify_source (claim : EvmClaim) :
    (claim.verify config localChain source).Yields (·.sourceChain = source.chainId) :=
  .bind fun _ => .guard <| .bind fun _ => .bind fun _ => .ofExcept fun _ => Claim.bind_source

theorem TaggedTrieClaim.verify_source (claim : TaggedTrieClaim) :
    (claim.verify config localChain source).Yields (·.sourceChain = source.chainId) :=
  .bind fun _ => .guard <| .bind fun _ => .guard <| .bind fun _ =>
    .ofExcept fun _ => Claim.bind_source

theorem SignedRootClaim.verify_source (claim : SignedRootClaim) :
    (claim.verify config localChain source).Yields (·.sourceChain = source.chainId) := by
  unfold verify
  exact .guard <| .bind fun _ => .bind fun _ => .guard <| .guard <|
    .ofExcept fun _ => Claim.bind_source

end

namespace Claim

variable {ctx : BlockContext} {i : Instruction}

/-- Admitting an instruction writes a mark of its chain. -/
theorem admit_within (hi : i.sourceChain = chain) :
    (do return some (← markAdmitted ctx i) : Transition ClaimError (Option Instruction)).Within
      fun key => ∃ id, key = .applied chain id := by
  have hmark : (Replay.markApplied ctx i.sourceChain i.crossChainId).Within
      fun key => ∃ id, key = .applied chain id := by
    subst hi
    exact fun s => (Replay.markApplied_within _ _ _ s).mono fun key hkey => ⟨_, hkey⟩
  refine .bind (.bind (.mapError hmark _) fun _ => ?_) fun _ => ?_
  · exact (ReadOnly.pure _).within
  · exact (ReadOnly.pure _).within

/-- Twins admit an instruction of their chain alike. -/
theorem admit_uniform (hi : i.sourceChain = chain) :
    (do return some (← markAdmitted ctx i) : Transition ClaimError (Option Instruction)).Uniform
      (RecordKey.Serves chain digests) := by
  refine Local.uniform ?_ (admit_within hi)
  subst hi
  exact .bind (.bind (.mapError (Replay.markApplied_local _ _) _) fun _ => .pure _) fun _ =>
    .pure _

end Claim

/-! ## Proposals -/

namespace DepositClaim

/-- The message that a claim has its validator vote for, if it is an attestation. -/
def voteMessage? (source : SideChain) : DepositClaim → Option Bytes
  | .relay claim => some (RelayClaim.voteMessage source.chainId claim.payload)
  | _ => none

/-- The records that a proposal of a claim writes: marks of its chain and the votes for its
message. -/
def Writes (source : SideChain) (claim : DepositClaim) (key : RecordKey) : Prop :=
  (∃ id, key = .applied source.chainId id) ∨
    ∃ message, claim.voteMessage? source = some message ∧ key = .vote (Sha256.hash message)

variable (config : BridgeConfig) (ctx : BlockContext) (source : SideChain)
  (epochAt : EpochLookup) (claim : DepositClaim)

theorem propose_within : (claim.propose config ctx source epochAt).Within
    (claim.Writes source) := by
  have proven {x : Transition ClaimError Instruction} (hx : x.ReadOnly)
      (hyields : x.Yields (·.sourceChain = source.chainId)) :
      (do return some (← Claim.markAdmitted ctx (← x)) :
        Transition ClaimError (Option Instruction)).Within (claim.Writes source) := by
    refine Within.bind_of_ok hx.within fun s i t hi => ?_
    exact (Claim.admit_within (hyields s i t hi) t).mono fun key hkey => .inl hkey
  cases claim with
  | evm claim => exact proven (claim.verify_readOnly _ _ _) (claim.verify_source _ _ _)
  | taggedTrie claim => exact proven (claim.verify_readOnly _ _ _) (claim.verify_source _ _ _)
  | signedRoot claim => exact proven (claim.verify_readOnly _ _ _) (claim.verify_source _ _ _)
  | relay claim =>
    refine Within.bind_of_ok (ReadOnly.ofExcept _ _).within fun s i t hbind => ?_
    have hsource := Claim.bind_source (ofExcept_ok hbind).1
    have hcast : (Vote.castInForce config.vote ctx epochAt claim.signer
        (RelayClaim.voteMessage source.chainId claim.payload)).Within
        (DepositClaim.Writes source (.relay claim)) :=
      fun s => (Vote.castInForce_within config.vote epochAt claim.signer _ s).mono
        fun key hkey => .inr ⟨_, rfl, hkey⟩
    refine Within.bind (.mapError hcast _) (fun reached => ?_) t
    cases reached with
    | false => exact (ReadOnly.pure _).within
    | true => exact fun s => (Claim.admit_within hsource s).mono fun key hkey => .inl hkey

/-- Twins for a chain answer a proposal for the chain alike, when they agree on the votes for its
message. -/
theorem propose_uniform (hsource : source.chainId = chain)
    (hdigests : ∀ message, claim.voteMessage? source = some message →
      digests (Sha256.hash message)) :
    (claim.propose config ctx source epochAt).Uniform (RecordKey.Serves chain digests) := by
  subst hsource
  have proven {x : Transition ClaimError Instruction}
      (hx : x.Local (RecordKey.Serves source.chainId digests)) (hreads : x.ReadOnly)
      (hyields : x.Yields (·.sourceChain = source.chainId)) :
      (do return some (← Claim.markAdmitted ctx (← x)) :
        Transition ClaimError (Option Instruction)).Uniform
        (RecordKey.Serves source.chainId digests) :=
    .bind (hx.uniform_of_readOnly hreads) fun s i t hi => Claim.admit_uniform (hyields s i t hi)
  cases claim with
  | evm claim =>
    exact proven (claim.verify_local rfl _ _) (claim.verify_readOnly _ _ _)
      (claim.verify_source _ _ _)
  | taggedTrie claim =>
    exact proven (claim.verify_local rfl _ _) (claim.verify_readOnly _ _ _)
      (claim.verify_source _ _ _)
  | signedRoot claim =>
    exact proven (claim.verify_local rfl _ _) (claim.verify_readOnly _ _ _)
      (claim.verify_source _ _ _)
  | relay claim =>
    refine .bind (.ofExcept _ _) fun s i t hbind => ?_
    have hsource := Claim.bind_source (ofExcept_ok hbind).1
    have hcast : (Vote.castInForce config.vote ctx epochAt claim.signer
        (RelayClaim.voteMessage source.chainId claim.payload)).Uniform
        (RecordKey.Serves source.chainId digests) :=
      (Vote.castInForce_local (hdigests _ rfl) config.vote ctx epochAt claim.signer).uniform
        (Vote.castInForce_within config.vote epochAt claim.signer _)
    refine .bind (.mapError hcast _) fun _ reached _ _ => ?_
    cases reached with
    | false => exact .pure _
    | true => exact Claim.admit_uniform hsource

end DepositClaim

end BridgeKernel
