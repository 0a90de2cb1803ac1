import BridgeKernel.Proofs.Bridge.Refusal
import BridgeKernel.Proofs.Checks
import BridgeKernel.Proofs.Vote.Quorum
import Mathlib.Data.List.Dedup
import Mathlib.Data.List.Induction

/-!
# Backing of attested events

Whether a validator may attest is decided when it does so, by the set that governs the height of its
attestation. The votes for an event are counted across sets. So the validators behind an admitted
event are as many as the set in force asks for, each entitled at its own height, and they are all in
the set in force exactly when none of them has left it.
-/

namespace BridgeKernel

/-! ## Attestations of an event -/

/-- An attestation that was not refused. -/
structure Attestation where
  /-- The validator. -/
  signer : Address
  /-- The height of the attestation. -/
  height : UInt64
  /-- The set that governed that height. -/
  inForce : Option ValidatorEpoch

namespace Attestation

/-- The validator is in the set that governed the height of its attestation. -/
def Entitled (a : Attestation) : Prop :=
  ∃ epoch, a.inForce = some epoch ∧ a.signer ∈ epoch.validators

/-- The different validators behind attestations. -/
def voters (attestations : List Attestation) : List Address :=
  (attestations.map signer).dedup

/-- Those of them who are in a set. -/
def backers (epoch : ValidatorEpoch) (attestations : List Attestation) : List Address :=
  (voters attestations).filter epoch.contains

variable {attestations : List Attestation} {a : Attestation}

theorem mem_voters {signer : Address} :
    signer ∈ voters attestations ↔ ∃ a ∈ attestations, a.signer = signer := by
  rw [voters, List.mem_dedup, List.mem_map]

theorem mem_voters_snoc {signer : Address} :
    signer ∈ voters (attestations ++ [a]) ↔ signer ∈ voters attestations ∨ signer = a.signer := by
  rw [voters, List.mem_dedup, List.map_append, List.mem_append, List.map_singleton,
    List.mem_singleton, voters, List.mem_dedup]

theorem voters_snoc_perm (attestations : List Attestation) (a : Attestation) :
    (voters (attestations ++ [a])).Perm (a.signer :: attestations.map Attestation.signer).dedup := by
  rw [voters, List.map_append, List.map_singleton]
  exact (List.perm_append_singleton _ _).dedup

/-- A validator that attests again is no further one. -/
theorem length_voters_snoc_of_mem (h : a.signer ∈ voters attestations) :
    (voters (attestations ++ [a])).length = (voters attestations).length := by
  rw [(voters_snoc_perm attestations a).length_eq, List.dedup_cons_of_mem (List.mem_dedup.mp h)]
  rfl

theorem length_voters_snoc_of_not_mem (h : a.signer ∉ voters attestations) :
    (voters (attestations ++ [a])).length = (voters attestations).length + 1 := by
  rw [(voters_snoc_perm attestations a).length_eq,
    List.dedup_cons_of_notMem (fun hmem => h (List.mem_dedup.mpr hmem))]
  rfl

/-- All voters are in a set exactly when as many of them are. -/
theorem length_voters_le_backers_iff (epoch : ValidatorEpoch) (attestations : List Attestation) :
    (voters attestations).length ≤ (backers epoch attestations).length ↔
      ∀ a ∈ attestations, a.signer ∈ epoch.validators := by
  have hle : (backers epoch attestations).length ≤ (voters attestations).length :=
    List.length_filter_le _ _
  have hall : (backers epoch attestations).length = (voters attestations).length ↔
      ∀ signer ∈ voters attestations, epoch.contains signer = true :=
    List.length_filter_eq_length_iff
  constructor
  · intro h a ha
    have hcontains := hall.mp (Nat.le_antisymm hle h) a.signer (mem_voters.mpr ⟨a, ha, rfl⟩)
    exact List.contains_iff_mem.mp hcontains
  · intro h
    refine Nat.le_of_eq (hall.mpr fun signer hsigner => ?_).symm
    obtain ⟨a, ha, rfl⟩ := mem_voters.mp hsigner
    exact List.contains_iff_mem.mpr (h a ha)

end Attestation

/-- What an attestation says, once it is not refused. -/
def RelayClaim.attestation (claim : RelayClaim) (ctx : BlockContext) (epochAt : EpochLookup) :
    Attestation := ⟨claim.signer, ctx.height, epochAt ctx.height⟩

/-- The attestation of an event of a chain that a call brought, if it did. -/
def BridgeEntry.attestation? (source : ChainId) (payload : Bytes) :
    BridgeEntry → Option Attestation
  | ⟨⟨_, .propose ctx sideChain? epochAt chain (.relay claim)⟩, answer⟩ =>
    if (sideChain? chain).map SideChain.chainId = some source ∧ claim.payload = payload then
      answer.toOption.map fun _ => claim.attestation ctx epochAt
    else none
  | _ => none

theorem BridgeEntry.attestation?_propose {config : BridgeConfig} {ctx : BlockContext}
    {sideChain? : SideChainLookup} {epochAt : EpochLookup} {chain : ChainId} {claim : RelayClaim}
    {source : ChainId} {payload : Bytes} (answer : Except BridgeError (Option Instruction)) :
    attestation? source payload
        ⟨⟨config, .propose ctx sideChain? epochAt chain (.relay claim)⟩, answer⟩ =
      if (sideChain? chain).map SideChain.chainId = some source ∧ claim.payload = payload then
        answer.toOption.map fun _ => claim.attestation ctx epochAt
      else none := rfl

/-- What validators vote for tells the chain and the event. -/
theorem RelayClaim.voteMessage_inj {source source' : ChainId} {payload payload' : Bytes}
    (h : voteMessage source payload = voteMessage source' payload') :
    source = source' ∧ payload = payload' :=
  KeySegment.number_append_inj h

/-! ## The votes for an event -/

/-- No quorum has been reached for a message, and no other message stands under its digest. -/
def State.Open (message : Bytes) (s : State) : Prop :=
  ∀ record, s.votes? (Sha256.hash message) = some record →
    record.message = message ∧ record.quorumReachedHeight = none

theorem State.Open.congr {message : Bytes} {s t : State} (h : t.Open message)
    (same : t.votes? (Sha256.hash message) = s.votes? (Sha256.hash message)) : s.Open message := by
  rwa [Open, ← same]

namespace Vote.Casts

variable {ctx : BlockContext} {quorum : Nat} {signer : Address} {message : Bytes}
  {record : VoteRecord} {s t : State} (h : Casts ctx quorum signer message record s t)
include h

/-- Votes to which one is added are open when they are for the message and have reached no quorum. -/
theorem open_before (own : record.message = message) (first : record.quorumReachedHeight = none) :
    s.Open message := by
  intro r hr
  have hfound : record = r := by
    rw [h.found]
    exact congrArg (Option.getD · _) hr
  rw [← hfound]
  exact ⟨own, first⟩

/-- They stay open unless the added vote reaches the quorum. -/
theorem open_after {message' : Bytes} (hhash : Sha256.hash message' = Sha256.hash message)
    (hopen : t.Open message') :
    record.message = message' ∧ record.quorumReachedHeight = none ∧
      record.reachedBy signer ctx.height quorum = false := by
  have hcast := hopen (record.cast signer ctx.height quorum) (by rw [hhash]; exact h.votes?_eq)
  rw [VoteRecord.cast_message, VoteRecord.cast_quorumReachedHeight] at hcast
  obtain ⟨hmessage, hnone⟩ := hcast
  split at hnone
  · cases hnone
  · next hshort => exact ⟨hmessage, hnone, Bool.not_eq_true _ ▸ hshort⟩

end Vote.Casts

/-- The votes for a message around a call, with the attestation that the call brought. -/
inductive TallyStep (message : Bytes) (s t : State) : Option Attestation → Prop
  /-- They stay as they were. -/
  | kept (same : t.votes? (Sha256.hash message) = s.votes? (Sha256.hash message)) :
    TallyStep message s t none
  /-- A validator repeats its vote. -/
  | repeated {a : Attestation} (entitled : a.Entitled)
    (voted : s.votedAt? (Sha256.hash message) a.signer ≠ none)
    (same : t.votes? (Sha256.hash message) = s.votes? (Sha256.hash message)) :
    TallyStep message s t (some a)
  /-- One vote more is counted. -/
  | counted {a : Attestation} {ctx : BlockContext} {quorum : Nat} {record : VoteRecord} {u : State}
    (entitled : a.Entitled) (own : record.message = message)
    (casts : Vote.Casts ctx quorum a.signer message record s u)
    (same : t.votes? (Sha256.hash message) = u.votes? (Sha256.hash message)) :
    TallyStep message s t (some a)
  /-- They are not open any more. -/
  | closed (closed : ¬ t.Open message) : TallyStep message s t none

theorem TallyStep.entitled {message : Bytes} {s t : State} {a? : Option Attestation}
    (h : TallyStep message s t a?) : ∀ a ∈ a?.toList, a.Entitled := by
  cases h with
  | kept | closed => exact nofun
  | repeated entitled | counted entitled =>
    intro a ha
    rwa [List.mem_singleton.mp ha]

/-- The voters of a message are those who have attested it. -/
structure Tallies (message : Bytes) (attestations : List Attestation) (s : State) : Prop where
  /-- Who has voted has attested. -/
  voted_iff : ∀ signer, s.votedAt? (Sha256.hash message) signer ≠ none ↔
    signer ∈ Attestation.voters attestations
  /-- They are as many. -/
  count_eq : s.voteCount (Sha256.hash message) = (Attestation.voters attestations).length

namespace Tallies

open Attestation

variable {message : Bytes} {attestations : List Attestation} {a : Attestation} {s t : State}

theorem congr (h : Tallies message attestations s)
    (same : t.votes? (Sha256.hash message) = s.votes? (Sha256.hash message)) :
    Tallies message attestations t := by
  constructor
  · intro signer
    rw [State.votedAt?, same]
    exact h.voted_iff signer
  · rw [State.voteCount, same]
    exact h.count_eq

theorem repeated (h : Tallies message attestations s)
    (voted : s.votedAt? (Sha256.hash message) a.signer ≠ none) :
    Tallies message (attestations ++ [a]) s := by
  have hmem : a.signer ∈ voters attestations := (h.voted_iff a.signer).mp voted
  constructor
  · intro signer
    rw [mem_voters_snoc, h.voted_iff]
    exact ⟨.inl, fun hsigner => hsigner.elim id fun heq => heq ▸ hmem⟩
  · rw [length_voters_snoc_of_mem hmem]
    exact h.count_eq

variable {ctx : BlockContext} {quorum : Nat} {record : VoteRecord}

/-- A validator whose vote is counted has not attested before. -/
theorem not_mem_voters (h : Tallies message attestations s)
    (casts : Vote.Casts ctx quorum a.signer message record s t) :
    a.signer ∉ voters attestations :=
  fun hmem => (h.voted_iff a.signer).mpr hmem casts.votedAt?_signer

theorem counted (h : Tallies message attestations s)
    (casts : Vote.Casts ctx quorum a.signer message record s t) :
    Tallies message (attestations ++ [a]) t := by
  constructor
  · intro signer
    rw [mem_voters_snoc, casts.votedAt?_eq, ← h.voted_iff]
    split
    · next heq => simp [heq]
    · next hne => simp [hne]
  · rw [casts.voteCount_eq, h.count_eq, length_voters_snoc_of_not_mem (h.not_mem_voters casts)]

/-- What a call does to open votes it does to the attestations. -/
theorem step {a? : Option Attestation} (h : s.Open message → Tallies message attestations s)
    (hstep : TallyStep message s t a?) (hopen : t.Open message) :
    Tallies message (attestations ++ a?.toList) t := by
  cases hstep with
  | kept same =>
    rw [Option.toList_none, List.append_nil]
    exact (h (hopen.congr same)).congr same
  | repeated _ voted same => exact ((h (hopen.congr same)).repeated voted).congr same
  | counted _ own casts same =>
    obtain ⟨-, hfirst, -⟩ := casts.open_after rfl (hopen.congr same)
    exact ((h (casts.open_before own hfirst)).counted casts).congr same
  | closed closed => exact absurd hopen closed

end Tallies

/-! ## Calls -/

namespace RelayClaim

variable {claim : RelayClaim} {ctx : BlockContext} {chain : ChainId} {epochAt : EpochLookup}
  {s t u : State} {r : Except ClaimError (Option Instruction)} {message : Bytes}
  {epoch : ValidatorEpoch} {record : VoteRecord}

theorem Counted.entitled (h : claim.Counted ctx chain epochAt epoch record s t) :
    (claim.attestation ctx epochAt).Entitled := ⟨epoch, h.governs, h.member⟩

/-- Marking leaves votes alone. -/
theorem votes?_of_mark {id : Bytes} (h : Replay.markApplied ctx chain id s = (.ok (), t))
    (hash : Hash) : t.votes? hash = s.votes? hash := by
  obtain ⟨-, -, hwrites⟩ := Replay.markApplied_ok h
  exact hwrites.lookup_eq nofun

/-- An attestation that is not refused adds its validator to the votes for its event. -/
theorem Comes.tally (h : claim.Comes ctx chain epochAt s r t) :
    TallyStep (voteMessage chain claim.payload) s t
      (r.toOption.map fun _ => claim.attestation ctx epochAt) := by
  cases h with
  | refused _ _ unchanged => exact .kept (unchanged.lookup_eq _)
  | repeated governs member voted unchanged =>
    exact .repeated ⟨_, governs, member⟩ voted (unchanged.lookup_eq _)
  | pending counted => exact .counted counted.entitled counted.message counted.casts rfl
  | admitted counted _ mark =>
    exact .counted counted.entitled counted.message counted.casts (votes?_of_mark mark _)
  | unmarked counted full _ unchanged =>
    -- The vote has reached the quorum, so no further one for this event can admit it.
    refine .closed fun hopen => ?_
    obtain ⟨-, -, hshort⟩ := counted.casts.open_after rfl (hopen.congr (unchanged.lookup_eq _))
    rw [full] at hshort
    cases hshort

/-- A counted attestation leaves the votes for another message alone, or stands under its digest. -/
theorem Counted.tally_of_ne (h : claim.Counted ctx chain epochAt epoch record s u)
    (same : t.votes? (Sha256.hash message) = u.votes? (Sha256.hash message))
    (hne : voteMessage chain claim.payload ≠ message) : TallyStep message s t none := by
  by_cases hhash : Sha256.hash message = Sha256.hash (voteMessage chain claim.payload)
  · -- The record under the common digest is of the counted event, so it is not of the message.
    refine .closed fun hopen => hne ?_
    obtain ⟨hmessage, -⟩ := h.casts.open_after hhash (hopen.congr same)
    exact h.message.symm.trans hmessage
  · exact .kept (same.trans (h.casts.votes?_of_ne hhash))

theorem Comes.tally_of_ne (h : claim.Comes ctx chain epochAt s r t)
    (hne : voteMessage chain claim.payload ≠ message) : TallyStep message s t none := by
  cases h with
  | refused _ _ unchanged | repeated _ _ _ unchanged => exact .kept (unchanged.lookup_eq _)
  | pending counted => exact counted.tally_of_ne rfl hne
  | admitted counted _ mark => exact counted.tally_of_ne (votes?_of_mark mark _) hne
  | unmarked counted _ _ unchanged => exact counted.tally_of_ne (unchanged.lookup_eq _) hne

end RelayClaim

namespace Bridge

variable (config : BridgeConfig) (ctx : BlockContext) (sideChain? : SideChainLookup)
  (epochAt : EpochLookup) (chain : ChainId) (bridge : Bridge)

/-- An attestation through the bridge adds its validator to the votes for its event, and to none
else. -/
theorem propose_tally (claim : RelayClaim) (source : ChainId) (payload : Bytes) :
    TallyStep (RelayClaim.voteMessage source payload) bridge.state
      (propose config ctx sideChain? epochAt chain (.relay claim) bridge).2.state
      (BridgeEntry.attestation? source payload
        ⟨⟨config, .propose ctx sideChain? epochAt chain (.relay claim)⟩,
          (propose config ctx sideChain? epochAt chain (.relay claim) bridge).1⟩) := by
  rw [BridgeEntry.attestation?_propose]
  rcases propose_cases config ctx sideChain? epochAt chain (.relay claim) bridge with
    ⟨⟨e, hrefused⟩, hstate⟩ | ⟨registered, hsource, hclaim⟩
  · rw [hrefused, hstate]
    change TallyStep _ _ _ (if _ then none else none)
    rw [ite_self]
    exact .kept rfl
  · have hcomes := claim.comes config.proof config.vote config.localChain ctx registered epochAt
      bridge.state
    rw [Transition.mapError_run] at hclaim
    obtain ⟨hanswer, hstate⟩ := Prod.mk.inj hclaim
    rw [hanswer, hstate, hsource, Except.toOption_mapError]
    by_cases hown : registered.chainId = source ∧ claim.payload = payload
    · obtain ⟨rfl, rfl⟩ := hown
      rw [if_pos ⟨rfl, rfl⟩]
      exact hcomes.tally
    · rw [if_neg fun h => hown ⟨Option.some.inj h.1, h.2⟩]
      exact hcomes.tally_of_ne fun heq => hown (RelayClaim.voteMessage_inj heq)

/-- A claim with a proof leaves votes alone. -/
theorem propose_votes?_eq {claim : DepositClaim} (hkind : claim.kind ≠ .relay) (hash : Hash) :
    (propose config ctx sideChain? epochAt chain claim bridge).2.state.votes? hash =
      bridge.state.votes? hash := by
  rcases propose_cases config ctx sideChain? epochAt chain claim bridge with
    ⟨-, hstate⟩ | ⟨source, -, hclaim⟩
  · rw [hstate]
  · have hproven : (claim.propose config ctx source epochAt).Proposes (fun _ => False) ctx :=
      claim.propose_proven source config epochAt hkind
    rw [Transition.mapError_run] at hclaim
    rw [(Prod.mk.inj hclaim).2]
    refine (hproven bridge.state).writes.lookup_eq ?_
    rintro (h | ⟨_, _, h⟩)
    · exact h
    · cases h

end Bridge

/-- What a call does to the votes for an event of a chain. -/
theorem BridgeRequest.perform_tally (request : BridgeRequest) (bridge : Bridge) (source : ChainId)
    (payload : Bytes) :
    TallyStep (RelayClaim.voteMessage source payload) bridge.state
      (request.perform bridge).2.state
      (BridgeEntry.attestation? source payload ⟨request, (request.perform bridge).1⟩) := by
  have hwrites := request.perform_writes bridge
  obtain ⟨config, op⟩ := request
  cases op with
  | propose ctx sideChain? epochAt chain claim =>
    cases claim with
    | relay claim => exact Bridge.propose_tally config ctx sideChain? epochAt chain bridge claim _ _
    | evm | taggedTrie | signedRoot =>
      refine .kept (Bridge.propose_votes?_eq config ctx sideChain? epochAt chain bridge ?_ _)
      exact nofun
  | installCommittee | rotateCommittee => exact .kept (hwrites.lookup_eq nofun)
  | isApplied | syncGenesis | syncBatch | syncHeaders | registerRedeem | recordDeposit
  | createDraft | addSignature => exact .kept (hwrites.lookup_eq fun h => h)

/-! ## Runs -/

/-- How attestations of an event back it under the set in force, when the last of them admits it. -/
structure BackedUnder (epoch : ValidatorEpoch) (signer : Address)
    (attestations : List Attestation) : Prop where
  /-- The different validators behind it are as many as the set's quorum. -/
  full : (Attestation.voters attestations).length = epoch.quorumSize
  /-- Each was in the set that governed the height of its attestation. -/
  entitled : ∀ a ∈ attestations, a.Entitled
  /-- The last is the admitting validator's, which is in the set in force. -/
  decided : ∃ a, attestations.getLast? = some a ∧ a.signer = signer ∧ a.inForce = some epoch ∧
    signer ∈ epoch.validators
  /-- As many members of the set in force are behind it as make a quorum exactly when none of the
  validators has left the set. -/
  quorum_iff : epoch.quorumSize ≤ (Attestation.backers epoch attestations).length ↔
    ∀ a ∈ attestations, a.signer ∈ epoch.validators

namespace Bridge

/-- The attestations of an event of a chain that a run brought, in order. -/
def attestations (source : ChainId) (payload : Bytes) (requests : List BridgeRequest)
    (bridge : Bridge) : List Attestation :=
  (history requests bridge).filterMap (BridgeEntry.attestation? source payload)

/-- The votes for an event around a call that is made after others. -/
theorem tallyStep_after (requests : List BridgeRequest) (request : BridgeRequest)
    (bridge : Bridge) (source : ChainId) (payload : Bytes) :
    TallyStep (RelayClaim.voteMessage source payload) (after requests bridge)
      (after (requests ++ [request]) bridge)
      ((entryAfter requests request bridge).attestation? source payload) := by
  rw [after_append]
  exact request.perform_tally (run requests bridge).2 source payload

/-- Each attestation of a run is by a validator that was entitled to it, and as long as the votes
for an event are open they are the attestations. -/
theorem attestations_tally (module : Bytes) (faults : Nat → StoreOp → Option StoreFault)
    (requests : List BridgeRequest) (source : ChainId) (payload : Bytes) :
    (∀ a ∈ attestations source payload requests (empty module faults), a.Entitled) ∧
    ((after requests (empty module faults)).Open (RelayClaim.voteMessage source payload) →
      Tallies (RelayClaim.voteMessage source payload)
        (attestations source payload requests (empty module faults))
        (after requests (empty module faults))) := by
  induction requests using List.reverseRecOn with
  | nil => exact ⟨nofun, fun _ => ⟨fun signer => ⟨fun h => absurd rfl h, nofun⟩, rfl⟩⟩
  | append_singleton front request ih =>
    -- Votes that are open after a call were open before it, and were the attestations then.
    obtain ⟨hentitled, htallies⟩ := ih
    have hstep := tallyStep_after front request (empty module faults) source payload
    rw [attestations, filterMap_history_snoc]
    exact ⟨List.forall_mem_append.mpr ⟨hentitled, hstep.entitled⟩, Tallies.step htallies hstep⟩

/-- The attestation that admits an event is counted and completes the quorum of the set in force. -/
theorem propose_completes {config : BridgeConfig} {ctx : BlockContext}
    {sideChain? : SideChainLookup} {epochAt : EpochLookup} {chain : ChainId} {claim : RelayClaim}
    {bridge : Bridge} {i : Instruction}
    (h : (propose config ctx sideChain? epochAt chain (.relay claim) bridge).1 = .ok (some i)) :
    ∃ source epoch record u, sideChain? chain = some source ∧
      claim.Counted ctx source.chainId epochAt epoch record bridge.state u ∧
      record.reachedBy claim.signer ctx.height epoch.quorumSize = true := by
  rcases propose_cases config ctx sideChain? epochAt chain (.relay claim) bridge with
    ⟨⟨e, hrefused⟩, -⟩ | ⟨source, hsource, hclaim⟩
  · rw [hrefused] at h
    cases h
  · rw [h] at hclaim
    have hadmits : claim.propose config.proof config.vote config.localChain ctx source epochAt
      bridge.state = _ := Transition.mapError_ok hclaim.symm
    have hcomes := claim.comes config.proof config.vote config.localChain ctx source epochAt
      bridge.state
    rw [hadmits] at hcomes
    cases hcomes with
    | admitted counted full _ => exact ⟨source, _, _, _, hsource, counted, full⟩

/-- An attestation that is not refused is one more of its event. -/
theorem attestations_snoc {config : BridgeConfig} {ctx : BlockContext}
    {sideChain? : SideChainLookup} {epochAt : EpochLookup} {chain : ChainId} {claim : RelayClaim}
    {requests : List BridgeRequest} {bridge : Bridge} {answer : Option Instruction}
    {source : SideChain} (hsource : sideChain? chain = some source)
    (h : (propose config ctx sideChain? epochAt chain (.relay claim)
      (run requests bridge).2).1 = .ok answer) :
    attestations source.chainId claim.payload
        (requests ++ [⟨config, .propose ctx sideChain? epochAt chain (.relay claim)⟩]) bridge =
      attestations source.chainId claim.payload requests bridge ++
        [claim.attestation ctx epochAt] := by
  have hentry : (entryAfter requests
      ⟨config, .propose ctx sideChain? epochAt chain (.relay claim)⟩ bridge).attestation?
        source.chainId claim.payload = some (claim.attestation ctx epochAt) := by
    refine (BridgeEntry.attestation?_propose (propose config ctx sideChain? epochAt chain
      (.relay claim) (run requests bridge).2).1).trans ?_
    rw [h, if_pos ⟨congrArg _ hsource, rfl⟩]
    rfl
  rw [attestations, filterMap_history_snoc, hentry]
  rfl

/-- Attested events are backed. Over every run, under whatever sets and failures of the store,
whenever an attestation admits its event, as many different validators have attested this very event
of its chain as make a quorum of the set in force, each while it was in the set that governed the
height of its attestation, and the admitting one is in the set in force. A quorum of its members is
behind the event exactly when none of these validators has left the set. -/
theorem attested_event_backed (module : Bytes) (faults : Nat → StoreOp → Option StoreFault)
    (requests : List BridgeRequest) (config : BridgeConfig) (ctx : BlockContext)
    (sideChain? : SideChainLookup) (epochAt : EpochLookup) (chain : ChainId) (claim : RelayClaim)
    (i : Instruction)
    (h : (propose config ctx sideChain? epochAt chain (.relay claim)
      (run requests (empty module faults)).2).1 = .ok (some i)) :
    ∃ source epoch, sideChain? chain = some source ∧ epochAt ctx.height = some epoch ∧
      BackedUnder epoch claim.signer (attestations source.chainId claim.payload
        (requests ++ [⟨config, .propose ctx sideChain? epochAt chain (.relay claim)⟩])
        (empty module faults)) := by
  obtain ⟨source, epoch, record, u, hsource, hcounted, hreached⟩ := propose_completes h
  obtain ⟨hentitled, htallies⟩ := attestations_tally module faults requests source.chainId
    claim.payload
  obtain ⟨hnumber, hfirst⟩ := (VoteRecord.reachedBy_iff hcounted.casts.new).mp hreached
  have htally := htallies (hcounted.casts.open_before hcounted.message hfirst)
  have hcount := hcounted.casts.voteCount_eq_signerCount.symm.trans htally.count_eq
  refine ⟨source, epoch, hsource, hcounted.governs, ?_⟩
  rw [attestations_snoc hsource h]
  have hfull : (Attestation.voters (attestations source.chainId claim.payload requests
      (empty module faults) ++ [claim.attestation ctx epochAt])).length = epoch.quorumSize := by
    rw [Attestation.length_voters_snoc_of_not_mem (htally.not_mem_voters hcounted.casts)]
    omega
  constructor
  case full => exact hfull
  case entitled =>
    exact List.forall_mem_append.mpr ⟨hentitled, List.forall_mem_singleton.mpr hcounted.entitled⟩
  case decided => exact ⟨_, List.getLast?_concat, rfl, hcounted.governs, hcounted.member⟩
  case quorum_iff =>
    rw [← hfull]
    exact Attestation.length_voters_le_backers_iff epoch _

/-! ### A set replaced between two attestations -/

/-- Four validators with numbers from the given one on, whose quorum is three. -/
def fourFrom (start : UInt64) (n : Nat) : ValidatorEpoch :=
  ⟨start, (List.range 4).map fun k => Vote.numberedVoter (n + k)⟩

/-- All four validators are replaced. -/
def replacedSets : EpochSource := .announce (.announce .empty (fourFrom 0 1)) (fourFrom 200 5)

/-- The attestation of one event by a validator with a number. -/
def numberedClaim (n : Nat) : RelayClaim :=
  ⟨Vote.numberedVoter n, Bytes.ofNatBE 9 0xc881aa428007206d01⟩

/-- The call that brings it. -/
def numberedRequest (n : Nat) (height : UInt64) : BridgeRequest :=
  ⟨.trial, .propose ⟨height, 0⟩ (fun _ => some attestedChain) replacedSets.atHeight? 1
    (.relay (numberedClaim n))⟩

/-- What the event asks for. -/
def attestedInstruction : Instruction := ⟨[0xaa], [0x42], 1, [], 7, [0x20], "m", [1]⟩

theorem newcomer_admits :
    (propose .trial ⟨200, 0⟩ (fun _ => some attestedChain) replacedSets.atHeight? 1
      (.relay (numberedClaim 5)) (run [numberedRequest 1 100, numberedRequest 2 150]
        (empty [] fun _ _ => none)).2).1 = .ok (some attestedInstruction) := by
  decide +kernel

/-- Two of the first set and one of the second admit an event, and fewer members of the set in force
than its quorum have attested it. -/
theorem newcomer_admits_without_quorum :
    (propose .trial ⟨200, 0⟩ (fun _ => some attestedChain) replacedSets.atHeight? 1
        (.relay (numberedClaim 5)) (run [numberedRequest 1 100, numberedRequest 2 150]
          (empty [] fun _ _ => none)).2).1 = .ok (some attestedInstruction) ∧
      replacedSets.atHeight? 200 = some (fourFrom 200 5) ∧
      ¬ (fourFrom 200 5).quorumSize ≤ (Attestation.backers (fourFrom 200 5)
        (attestations 1 (numberedClaim 5).payload
          [numberedRequest 1 100, numberedRequest 2 150, numberedRequest 5 200]
          (empty [] fun _ _ => none))).length :=
  ⟨newcomer_admits, by decide +kernel, by decide +kernel⟩

/-- The three are as many as the quorum, each of the set of its time. -/
theorem newcomer_backed :
    (propose .trial ⟨200, 0⟩ (fun _ => some attestedChain) replacedSets.atHeight? 1
        (.relay (numberedClaim 5)) (run [numberedRequest 1 100, numberedRequest 2 150]
          (empty [] fun _ _ => none)).2).1 = .ok (some attestedInstruction) ∧
      BackedUnder (fourFrom 200 5) (numberedClaim 5).signer
        (attestations attestedChain.chainId (numberedClaim 5).payload
          ([numberedRequest 1 100, numberedRequest 2 150] ++ [numberedRequest 5 200])
          (empty [] fun _ _ => none)) := by
  have hset : replacedSets.atHeight? 200 = some (fourFrom 200 5) := by decide +kernel
  obtain ⟨source, epoch, hsource, hepoch, hbacked⟩ :=
    attested_event_backed [] (fun _ _ => none) [numberedRequest 1 100, numberedRequest 2 150] .trial
      ⟨200, 0⟩ (fun _ => some attestedChain) replacedSets.atHeight? 1 (numberedClaim 5)
      attestedInstruction newcomer_admits
  obtain rfl := Option.some.inj hsource
  obtain rfl := Option.some.inj (hset.symm.trans hepoch)
  exact ⟨newcomer_admits, hbacked⟩

end Bridge

end BridgeKernel
