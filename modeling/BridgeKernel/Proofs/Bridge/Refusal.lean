import BridgeKernel.Proofs.Bridge.Run
import BridgeKernel.Proofs.Claim.Relay

/-!
# Refused proposals

A proof is verified before anything is written, and marking an event is the only write, so a refused
proof leaves no trace. An attestation is stored before its event is marked. Where the replay ledger
then refuses the event, the vote stays.
-/

namespace BridgeKernel

open Transition

variable {ctx : BlockContext} {config : ProofConfig} {localChain : ChainId} {source : SideChain}
  {epochAt : EpochLookup} {s t : State}

/-- The vote that an attestation casts, and what it found. -/
def RelayClaim.Voted (claim : RelayClaim) (ctx : BlockContext) (source : SideChain)
    (s t : State) : Prop :=
  ∃ quorum record, Vote.Casts ctx quorum claim.signer
    (voteMessage source.chainId claim.payload) record s t

/-- A refused attestation leaves no trace, unless the ledger refused its event: then the vote is
stored. -/
theorem RelayClaim.propose_error {claim : RelayClaim} {votes : VoteConfig} {e : ClaimError}
    (h : claim.propose config votes localChain ctx source epochAt s = (.error e, t)) :
    (s.Untouched t ∧ ∀ cause, e ≠ .replay cause) ∨
      (∃ u, claim.Voted ctx source s u ∧ u.Untouched t) ∧ ∃ cause, e = .replay cause := by
  have hcomes := claim.comes config votes localChain ctx source epochAt s
  rw [h] at hcomes
  cases hcomes with
  | refused _ other unchanged => exact .inl ⟨unchanged, other⟩
  | unmarked counted _ cause unchanged =>
    exact .inr ⟨⟨_, ⟨_, _, counted.casts⟩, unchanged⟩, cause, rfl⟩

/-- A stored vote changes the record of its message and no other. -/
theorem RelayClaim.Voted.changes {claim : RelayClaim} {u : State}
    (h : claim.Voted ctx source s u) (hu : u.Untouched t) :
    t.records ≠ s.records ∧
      s.Writes (· = .vote (Sha256.hash (voteMessage source.chainId claim.payload))) t := by
  obtain ⟨quorum, record, hcasts⟩ := h
  have hwrites : s.Writes (· = .vote (Sha256.hash (voteMessage source.chainId claim.payload))) u :=
    hcasts.changed.writes_one (.store rfl (.vote _ hcasts.fits))
  refine ⟨fun hsame => hcasts.raw?_ne ?_, hwrites.trans (.of_untouched hu)⟩
  rw [State.raw?, State.raw?, hwrites.module_eq, ← hu.records_eq, hsame]

/-- A refused proof leaves no trace. -/
theorem DepositClaim.propose_atomic (bridge : BridgeConfig) (claim : DepositClaim)
    (hkind : claim.kind ≠ .relay) : (claim.propose bridge ctx source epochAt).Atomic := by
  have hadmits (x : Transition ClaimError Instruction) (hx : x.ReadOnly) :
      (do
        let instruction ← x
        return some (← Claim.markAdmitted ctx instruction) :
        Transition ClaimError (Option Instruction)).Atomic :=
    .read hx fun instruction => .andThen (Claim.markAdmitted_atomic ctx instruction) _
  cases claim with
  | evm claim => exact hadmits _ (claim.verify_readOnly _ _ _)
  | taggedTrie claim => exact hadmits _ (claim.verify_readOnly _ _ _)
  | signedRoot claim => exact hadmits _ (claim.verify_readOnly _ _ _)
  | relay claim => exact absurd rfl hkind

/-- A refused claim and the records around it: they stayed, or the claim is an attestation whose
event was refused by the ledger, and its vote was stored. -/
theorem DepositClaim.proposeAs_error {bridge : BridgeConfig} {kind : ClaimKind}
    {claim : DepositClaim} {e : BridgeError}
    (h : claim.proposeAs kind bridge ctx source epochAt s = (.error e, t)) :
    (s.Untouched t ∧ ¬ (claim.kind = .relay ∧ ∃ cause, e = .claim (.replay cause))) ∨
      ∃ attestation cause u, claim = .relay attestation ∧ e = .claim (.replay cause) ∧
        attestation.Voted ctx source s u ∧ u.Untouched t := by
  unfold proposeAs at h
  split at h
  · obtain ⟨cause, hclaim, rfl⟩ := mapError_error h
    by_cases hkind : claim.kind = .relay
    · cases claim with
      | relay attestation =>
        rcases attestation.propose_error hclaim with ⟨hu, hother⟩ | ⟨⟨u, hvoted, hu⟩, cause, rfl⟩
        · refine .inl ⟨hu, ?_⟩
          rintro ⟨-, replay, hreplay⟩
          exact hother replay (BridgeError.claim.inj hreplay)
        · exact .inr ⟨attestation, cause, u, rfl, rfl, hvoted, hu⟩
      | evm | taggedTrie | signedRoot => cases hkind
    · refine .inl ⟨claim.propose_atomic bridge hkind _ _ _ hclaim, ?_⟩
      exact fun hrelay => hkind hrelay.1
  · cases h
    refine .inl ⟨.refl s, ?_⟩
    rintro ⟨-, cause, hcause⟩
    cases hcause

/-- A chain without a bound kind of claim is refused as such. -/
theorem BridgeConfig.kindFor_error {config : BridgeConfig} {e : BridgeError}
    (h : config.kindFor source = .error e) : e = .unrouted source.chainId source.router := by
  unfold kindFor at h
  split at h
  · cases h
  · cases h
    rfl

namespace Bridge

/-- A refused proposal leaves all records as they were, except when it is an attestation whose event
the replay ledger refuses. Then the deciding vote has been stored, and stays; no other record is
touched. -/
theorem refused_proposal_records_iff (config : BridgeConfig) (ctx : BlockContext)
    (sideChain? : SideChainLookup) (epochAt : EpochLookup) (chain : ChainId)
    (claim : DepositClaim) (bridge bridge' : Bridge) (e : BridgeError)
    (h : propose config ctx sideChain? epochAt chain claim bridge = (.error e, bridge')) :
    (bridge'.state.records = bridge.state.records ↔
      ¬ (claim.kind = .relay ∧ ∃ cause, e = .claim (.replay cause))) ∧
    bridge.state.Writes (fun key => ∃ source attestation, sideChain? chain = some source ∧
      claim = .relay attestation ∧ key = .vote (Sha256.hash
        (RelayClaim.voteMessage source.chainId attestation.payload))) bridge'.state := by
  unfold propose at h
  cases hsource : sideChain? chain with
  | none =>
    rw [hsource] at h
    cases h
    refine ⟨⟨fun _ => ?_, fun _ => rfl⟩, .refl _⟩
    rintro ⟨-, cause, hcause⟩
    cases hcause
  | some source =>
    rw [hsource] at h
    dsimp only at h
    cases hkind : config.kindFor source with
    | error cause =>
      rw [hkind] at h
      cases h
      refine ⟨⟨fun _ => ?_, fun _ => rfl⟩, .refl _⟩
      rintro ⟨-, replay, hreplay⟩
      rw [BridgeConfig.kindFor_error hkind] at hreplay
      cases hreplay
    | ok kind =>
      rw [hkind] at h
      have hclaim : claim.proposeAs kind config ctx source epochAt bridge.state =
          (.error e, bridge'.state) := by
        obtain ⟨hresult, hbridge⟩ := Prod.mk.inj h
        exact Prod.ext hresult (congrArg Bridge.state hbridge)
      rcases claim.proposeAs_error hclaim with ⟨hu, hnot⟩ | ⟨a, cause, u, rfl, rfl, hvoted, hu⟩
      · exact ⟨⟨fun _ => hnot, fun _ => hu.records_eq⟩, .of_untouched hu⟩
      · obtain ⟨hchanged, hwrites⟩ := hvoted.changes hu
        refine ⟨⟨fun hsame => absurd hsame hchanged, fun hnot => ?_⟩, ?_⟩
        · exact absurd ⟨rfl, cause, rfl⟩ hnot
        · exact hwrites.mono fun key hkey => ⟨source, a, rfl, rfl, hkey⟩

/-! ## An id attested twice -/

/-- A chain whose events are attested. -/
def attestedChain : SideChain := ⟨1, "r", 1, [], 0⟩

/-- The only validator. -/
def soleValidator : Address := .ofNatBE 20 0x0101010101010101010101010101010101010101

/-- An attestation of an event with the id 42 and the given last byte. -/
def attestation (signer : Address) (last : UInt8) : DepositClaim :=
  .relay ⟨signer, Bytes.ofNatBE 8 0xc881aa428007206d ++ [last]⟩

/-- Proposes an attestation. -/
def attest (signer : Address) (last : UInt8) : BridgeCall (Option Instruction) :=
  propose .trial ⟨100, 0⟩ (fun _ => some attestedChain) (fun _ => some ⟨0, [soleValidator]⟩) 1
    (attestation signer last)

/-- The bridge after an event with the id 42 was admitted. -/
def onceAttested : Bridge := (attest soleValidator 1 (empty [] fun _ _ => none)).2

/-- Another event with the same id is refused, and the store holds one record more afterwards. -/
theorem attested_again_recorded :
    (attest soleValidator 2 onceAttested).1 =
        .error (.claim (.replay (.alreadyApplied 1 [0x42] 100))) ∧
      (attest soleValidator 2 onceAttested).2.state.records.size =
        onceAttested.state.records.size + 1 := by
  decide +kernel

/-- A stranger's attestation is refused and leaves nothing behind. -/
theorem stranger_not_recorded :
    attest (.zero 20) 2 onceAttested =
        (.error (.claim (.vote (.invalidAuthority (.zero 20)))),
          (attest (.zero 20) 2 onceAttested).2) ∧
      (attest (.zero 20) 2 onceAttested).2.state.records = onceAttested.state.records := by
  have hanswer : (attest (.zero 20) 2 onceAttested).1 =
      .error (.claim (.vote (.invalidAuthority (.zero 20)))) := by
    decide +kernel
  have hrefused : attest (.zero 20) 2 onceAttested =
      (.error (.claim (.vote (.invalidAuthority (.zero 20)))),
        (attest (.zero 20) 2 onceAttested).2) := Prod.ext hanswer rfl
  refine ⟨hrefused, ?_⟩
  refine (refused_proposal_records_iff .trial ⟨100, 0⟩ (fun _ => some attestedChain)
    (fun _ => some ⟨0, [soleValidator]⟩) 1 (attestation (.zero 20) 2) onceAttested
    (attest (.zero 20) 2 onceAttested).2 _ hrefused).1.mpr ?_
  rintro ⟨-, cause, hcause⟩
  cases hcause

end Bridge

end BridgeKernel
