import BridgeKernel.Proofs.Bridge.CustodyIsolation
import BridgeKernel.Proofs.Bridge.HeaderRun
import BridgeKernel.Proofs.Claim.Isolation

/-!
# Chains do not interfere

Whatever happens to other chains, the calls and queries about a chain are answered as if it had not
happened. Custody is left out, where signatures are kept without a chain. The bridge runs twice, the
second time without the calls that name other chains, and the two stores stay twins for the records
that serve the chain.
-/

namespace BridgeKernel

/-- The chain that a call names. -/
def BridgeOp.chain : BridgeOp → ChainId
  | .propose _ _ _ chain _ | .isApplied chain _ | .syncGenesis chain _ _ | .syncBatch _ chain _
  | .syncHeaders _ chain _ | .installCommittee chain _ | .rotateCommittee chain _
  | .registerRedeem chain _ | .recordDeposit chain _ _ | .createDraft chain _ _ _
  | .addSignature chain _ _ _ => chain

/-- A proposed chain is registered under its own id, or not at all. -/
def BridgeOp.Registered : BridgeOp → Prop
  | .propose _ sideChain? _ chain _ =>
    ∀ source, sideChain? chain = some source → source.chainId = chain
  | _ => True

/-- The message that a call has a validator vote for, if it brings an attestation. -/
def BridgeOp.voteMessage? : BridgeOp → Option Bytes
  | .propose _ sideChain? _ chain claim => (sideChain? chain).bind fun source =>
    claim.voteMessage? source
  | _ => none

/-- A message that a call has voted for begins with the chain that the call names. -/
theorem BridgeOp.Registered.voteMessage {op : BridgeOp} (h : op.Registered) {message : Bytes}
    (hmessage : op.voteMessage? = some message) :
    ∃ payload, message = RelayClaim.voteMessage op.chain payload := by
  cases op with
  | propose ctx sideChain? epochAt chain claim =>
    obtain ⟨source, hsource, hvote⟩ := Option.bind_eq_some_iff.mp hmessage
    cases claim with
    | relay claim =>
      cases hvote
      exact ⟨claim.payload, by rw [h source hsource]; rfl⟩
    | _ => cases hvote
  | _ => cases hmessage

/-! ## Queries -/

/-- A query about a chain. -/
inductive ChainQuery where
  /-- Whether an id was admitted. -/
  | isApplied (id : Bytes)
  /-- The mark of an id. -/
  | marker (id : Bytes)
  /-- Where the light client began. -/
  | genesis
  /-- How far the light client has come. -/
  | status
  /-- The canonical height. -/
  | height
  /-- The stored header with a digest. -/
  | header (hash : Hash)
  /-- The canonical digest at a height. -/
  | canonicalHash (level : UInt64)
  /-- The canonical header at a height. -/
  | canonicalHeader (level : UInt64)
  /-- Whether the header with a digest is canonical. -/
  | isCanonical (hash : Hash)
  /-- The validator set from governance that begins at a height. -/
  | epoch (start : UInt64)
  /-- The committee. -/
  | committee
  /-- The body of a message that the committee has signed. -/
  | message (bytes : Bytes)
  /-- The instruction that a claim with a proof carries, for a registration of the chain. -/
  | verify (config : BridgeConfig) (source : SideChain) (claim : DepositClaim)

/-- What a query brings when it is not refused. -/
def ChainQuery.Answer : ChainQuery → Type
  | .isApplied _ => Bool
  | .marker _ => Option ReplayMarker
  | .genesis => Option GenesisRecord
  | .status => LightClientStatus
  | .height => Option UInt64
  | .header _ => Option TrustedHeader
  | .canonicalHash _ => Option Hash
  | .canonicalHeader _ => Option TrustedHeader
  | .isCanonical _ => Bool
  | .epoch _ => Option ValidatorEpoch
  | .committee => Option Committee
  | .message _ => MessageBody
  | .verify .. => Option Instruction

/-- Asks a query about a chain. -/
def ChainQuery.ask (chain : ChainId) : (query : ChainQuery) → Transition BridgeError query.Answer
  | .isApplied id => (Replay.isApplied chain id).mapError .replay
  | .marker id => (Replay.marker? chain id).mapError .replay
  | .genesis => (LightClient.genesis? chain).mapError .header
  | .status => (LightClient.status chain).mapError .header
  | .height => (LightClient.height? chain).mapError .header
  | .header hash => (LightClient.header? chain hash).mapError .header
  | .canonicalHash level => (LightClient.canonicalHash? chain level).mapError .header
  | .canonicalHeader level => (LightClient.canonicalHeader? chain level).mapError .header
  | .isCanonical hash => (LightClient.isCanonical chain hash).mapError .header
  | .epoch start => (LightClient.epoch? chain start).mapError .header
  | .committee => (CommitteeStore.current? chain).mapError .committee
  | .message bytes => (CommitteeStore.verifyMessage chain bytes).mapError .committee
  | .verify config source claim =>
    match claim.verify? config { source with chainId := chain } with
    | none => pure none
    | some verified => verified.mapError .claim >>= fun instruction => pure (some instruction)

variable {chain : ChainId} {digests : Hash → Prop}

/-- A query about a chain reads records that serve the chain. -/
theorem ChainQuery.ask_local (query : ChainQuery) :
    (query.ask chain).Local (RecordKey.Serves chain digests) := by
  have hP := RecordKey.Remembers.serves chain digests
  cases query with
  | isApplied id => exact .mapError (Replay.isApplied_local id) _
  | marker id => exact .mapError (Replay.marker?_local id) _
  | genesis => exact .mapError (LightClient.genesis?_local hP) _
  | status => exact .mapError (LightClient.status_local hP) _
  | height => exact .mapError (LightClient.height?_local hP) _
  | header hash => exact .mapError (LightClient.header?_local hP hash) _
  | canonicalHash level => exact .mapError (LightClient.canonicalHash?_local hP level) _
  | canonicalHeader level => exact .mapError (LightClient.canonicalHeader?_local hP level) _
  | isCanonical hash => exact .mapError (LightClient.isCanonical_local hP hash) _
  | epoch start => exact .mapError (LightClient.epoch?_local hP start) _
  | committee => exact .mapError CommitteeStore.current?_local _
  | message bytes => exact .mapError (CommitteeStore.verifyMessage_local bytes) _
  | verify config source claim =>
    have hsource : { source with chainId := chain }.chainId = chain := rfl
    cases claim with
    | evm claim => exact .bind (.mapError (claim.verify_local hsource _ _) _) fun _ => .pure _
    | taggedTrie claim =>
      exact .bind (.mapError (claim.verify_local hsource _ _) _) fun _ => .pure _
    | signedRoot claim =>
      exact .bind (.mapError (claim.verify_local hsource _ _) _) fun _ => .pure _
    | relay claim => exact .pure _

/-! ## Two runs -/

namespace Bridge

open Transition

/-- A transition that is uniform is answered alike as a call. -/
theorem counting_twins {α : Type} {P : RecordKey → Prop} {x : Transition BridgeError α}
    (hx : x.Uniform P) (count : Counters → Except BridgeError α → Counters) {b b' : Bridge}
    (h : b.state.Twins P b'.state) :
    (counting count x b').1 = (counting count x b).1 ∧
      (counting count x b).2.state.Twins P (counting count x b').2.state :=
  hx _ _ h

/-- A call that goes on without looking at the state answers as its first part decides. -/
theorem bind_answer {α β : Type} {x : BridgeCall α} {f : α → BridgeCall β}
    {k : α → Except BridgeError β} (hf : ∀ a b, (f a b).1 = k a) (bridge : Bridge) :
    ((x >>= f) bridge).1 = (x bridge).1.bind k := by
  change (ExceptT.bindCont f (x bridge).1 (x bridge).2).1 = _
  rcases x bridge with ⟨e | a, b⟩
  · rfl
  · exact hf a b

/-- A batch whose refusals count against the call is answered as a batch is. -/
theorem syncHeaders_answer (config : BridgeConfig) (ctx : BlockContext) (c : ChainId)
    (headers : List Header) (bridge : Bridge) :
    (syncHeaders config ctx c headers bridge).1 =
      (syncBatch config ctx c headers bridge).1.bind fun outcome =>
        (LightClient.strictReport outcome).mapError .header := by
  refine bind_answer (fun outcome b => ?_) bridge
  rcases LightClient.strictReport outcome with e | report
  · rfl
  · rfl

section Calls

variable {P : RecordKey → Prop} {b b' : Bridge} (config : BridgeConfig) (ctx : BlockContext)

/-- A claim is proposed alike on twins for its chain and the votes of its message. -/
theorem propose_twins {sideChain? : SideChainLookup} (epochAt : EpochLookup) {claim : DepositClaim}
    (hregistered : ∀ source, sideChain? chain = some source → source.chainId = chain)
    (hdigests : ∀ source message, sideChain? chain = some source →
      claim.voteMessage? source = some message → digests (Sha256.hash message))
    (h : b.state.Twins (RecordKey.Serves chain digests) b'.state) :
    (propose config ctx sideChain? epochAt chain claim b').1 =
        (propose config ctx sideChain? epochAt chain claim b).1 ∧
      (propose config ctx sideChain? epochAt chain claim b).2.state.Twins
        (RecordKey.Serves chain digests)
        (propose config ctx sideChain? epochAt chain claim b').2.state := by
  unfold propose
  cases hsource : sideChain? chain with
  | none => exact ⟨rfl, h⟩
  | some source =>
    dsimp only
    cases config.kindFor source with
    | error cause => exact ⟨rfl, h⟩
    | ok kind =>
      refine counting_twins ?_ _ h
      unfold DepositClaim.proposeAs
      split
      · exact .mapError (claim.propose_uniform config ctx source epochAt
          (hregistered source hsource) fun message => hdigests source message hsource) _
      · exact .throw _

/-- A batch whose refusals count against the call is taken in alike on twins for its chain. -/
theorem syncHeaders_twins (hP : ∀ key, RecordKey.Remembers chain key → P key)
    (headers : List Header) (h : b.state.Twins P b'.state) :
    (syncHeaders config ctx chain headers b').1 = (syncHeaders config ctx chain headers b).1 ∧
      (syncHeaders config ctx chain headers b).2.state.Twins P
        (syncHeaders config ctx chain headers b').2.state := by
  obtain ⟨hanswer, htwins⟩ := counting_twins
    (.mapError (LightClient.syncBatch_uniform hP config.headerSync ctx headers) BridgeError.header)
    (·.afterBatch ·) h
  rw [syncHeaders_answer, syncHeaders_answer, syncHeaders_state, syncHeaders_state]
  exact ⟨congrArg (Except.bind · _) hanswer, htwins⟩

end Calls

end Bridge

namespace BridgeRequest

variable {request : BridgeRequest} {b b' : Bridge}

/-- A call that names a chain answers alike on twins for the chain. -/
theorem perform_twins (hchain : request.op.chain = chain)
    (hcustody : request.op.custodyChain? = none) (hregistered : request.op.Registered)
    (hdigests : ∀ message, request.op.voteMessage? = some message →
      digests (Sha256.hash message))
    (h : b.state.Twins (RecordKey.Serves chain digests) b'.state) :
    (request.perform b').1 = (request.perform b).1 ∧
      (request.perform b).2.state.Twins (RecordKey.Serves chain digests)
        (request.perform b').2.state := by
  have hP := RecordKey.Remembers.serves chain digests
  obtain ⟨config, op⟩ := request
  cases op with
  | propose ctx sideChain? epochAt c claim =>
    obtain rfl : c = chain := hchain
    exact Bridge.propose_twins config ctx epochAt hregistered (fun source message hsource hmessage =>
      hdigests message (Option.bind_eq_some_iff.mpr ⟨source, hsource, hmessage⟩)) h
  | isApplied c id =>
    obtain rfl : c = chain := hchain
    exact Bridge.counting_twins (.mapError ((Replay.isApplied_local id).uniform_of_readOnly
      (Replay.isApplied_readOnly c id)) _) _ h
  | syncGenesis c header prior =>
    obtain rfl : c = chain := hchain
    exact Bridge.counting_twins
      (.mapError (LightClient.setGenesis_uniform hP config.headerSync header prior) _) _ h
  | syncBatch ctx c headers =>
    obtain rfl : c = chain := hchain
    exact Bridge.counting_twins
      (.mapError (LightClient.syncBatch_uniform hP config.headerSync ctx headers) _) _ h
  | syncHeaders ctx c headers =>
    obtain rfl : c = chain := hchain
    exact Bridge.syncHeaders_twins config ctx hP headers h
  | installCommittee c committee =>
    obtain rfl : c = chain := hchain
    exact Bridge.counting_twins (.mapError ((CommitteeStore.install_local committee).uniform
      (CommitteeStore.install_within c committee)) _) _ h
  | rotateCommittee c message =>
    obtain rfl : c = chain := hchain
    exact Bridge.counting_twins (.mapError ((CommitteeStore.rotate_local message).uniform
      (CommitteeStore.rotate_within c message)) _) _ h
  | _ => cases hcustody

/-- A call about custody writes nothing that serves a chain otherwise. -/
theorem custody_spares_chain {c : ChainId} (hcustody : request.op.custodyChain? = some c)
    (chain : ChainId) (digests : Hash → Prop) (b : Bridge) :
    ∃ Q, b.state.Writes Q (request.perform b).2.state ∧
      ∀ key, Q key → ¬ key.Serves chain digests := by
  refine ⟨_, request.perform_writes b, ?_⟩
  obtain ⟨config, op⟩ := request
  cases op with
  | registerRedeem | recordDeposit | createDraft | addSignature =>
    intro key hkey hserves
    cases key with
    | redeem | utxo | stxo | draft | multisig => exact hserves
    | _ => exact hkey
  | _ => cases hcustody

/-- A call that names another chain writes nothing that serves a chain beside its custody. -/
theorem other_spares_chain (hother : request.op.chain ≠ chain)
    (hregistered : request.op.Registered)
    (hdigests : ∀ message, request.op.voteMessage? = some message →
      ¬ digests (Sha256.hash message)) (b : Bridge) :
    ∃ Q, b.state.Writes Q (request.perform b).2.state ∧
      ∀ key, Q key → ¬ key.Serves chain digests := by
  cases hcustody : request.op.custodyChain? with
  | some c => exact custody_spares_chain hcustody chain digests b
  | none =>
    obtain ⟨config, op⟩ := request
    cases op with
    | propose ctx sideChain? epochAt c claim =>
      rcases Bridge.propose_cases config ctx sideChain? epochAt c claim b with
        ⟨-, hstate⟩ | ⟨source, hsource, hclaim⟩
      · refine ⟨fun _ => False, ?_, fun _ hkey => hkey.elim⟩
        change b.state.Writes _ (Bridge.propose config ctx sideChain? epochAt c claim b).2.state
        rw [hstate]
        exact .refl _
      · refine ⟨claim.Writes source, ?_, ?_⟩
        · change b.state.Writes _ (Bridge.propose config ctx sideChain? epochAt c claim b).2.state
          rw [Transition.mapError_run] at hclaim
          rw [(Prod.mk.inj hclaim).2]
          exact claim.propose_within config ctx source epochAt b.state
        · rintro key (⟨id, rfl⟩ | ⟨message, hmessage, rfl⟩) hserves
          · exact hother ((hregistered source hsource).symm.trans hserves)
          · exact hdigests message
              (Option.bind_eq_some_iff.mpr ⟨source, hsource, hmessage⟩) hserves
    | isApplied c id =>
      exact ⟨_, perform_writes ⟨config, .isApplied c id⟩ b, fun _ hkey => hkey.elim⟩
    | syncGenesis | syncBatch | syncHeaders =>
      refine ⟨_, perform_writes ⟨config, _⟩ b, fun key hkey hserves => ?_⟩
      cases key with
      | header | canonical | height | genesis | epoch => exact hother (hkey.symm.trans hserves)
      | _ => exact hkey
    | installCommittee | rotateCommittee =>
      refine ⟨_, perform_writes ⟨config, _⟩ b, ?_⟩
      rintro key rfl hserves
      exact hother hserves
    | _ => cases hcustody

end BridgeRequest

namespace Bridge

/-- The messages that calls have validators vote for. -/
def voteMessages (requests : List BridgeRequest) : List Bytes :=
  requests.filterMap fun request => request.op.voteMessage?

/-- The calls that name a chain. -/
def onlyNaming (chain : ChainId) (requests : List BridgeRequest) : List BridgeRequest :=
  requests.filter fun request => request.op.chain == chain

/-- The calls that name a chain and are not about custody, with their answers. -/
def chainHistory (chain : ChainId) (requests : List BridgeRequest) (bridge : Bridge) :
    List BridgeEntry :=
  (history requests bridge).filter fun e =>
    e.request.op.chain == chain && e.request.op.custodyChain?.isNone

theorem chainHistory_cons (request : BridgeRequest) (requests : List BridgeRequest)
    (bridge : Bridge) :
    chainHistory chain (request :: requests) bridge =
      (if request.op.chain == chain && request.op.custodyChain?.isNone then
        [⟨request, (request.perform bridge).1⟩] else []) ++
        chainHistory chain requests (request.perform bridge).2 := by
  rw [chainHistory, history, run, List.filter_cons]
  split <;> rfl

/-- From twins for a chain, a run and what is left of it without the calls that name other chains
answer the calls about the chain alike, and end in twins. -/
theorem run_twins {requests : List BridgeRequest} {b b' : Bridge}
    (htwins : b.state.Twins (RecordKey.Serves chain digests) b'.state)
    (hregistered : ∀ request ∈ requests, request.op.Registered)
    (hdigests : ∀ request ∈ requests, ∀ message, request.op.voteMessage? = some message →
      (digests (Sha256.hash message) ↔ request.op.chain = chain)) :
    chainHistory chain requests b = chainHistory chain (onlyNaming chain requests) b' ∧
      (after requests b).Twins (RecordKey.Serves chain digests)
        (after (onlyNaming chain requests) b') := by
  induction requests generalizing b b' with
  | nil => exact ⟨rfl, htwins⟩
  | cons request requests ih =>
    have hown := hregistered request List.mem_cons_self
    have hmessages := hdigests request List.mem_cons_self
    have hregistered := fun r hr => hregistered r (List.mem_cons_of_mem request hr)
    have hdigests := fun r hr => hdigests r (List.mem_cons_of_mem request hr)
    by_cases hchain : request.op.chain = chain
    · have hkeep : onlyNaming chain (request :: requests) =
          request :: onlyNaming chain requests := by
        simp [onlyNaming, hchain]
      rw [hkeep, chainHistory_cons, chainHistory_cons]
      cases hcustody : request.op.custodyChain? with
      | none =>
        obtain ⟨hanswer, htwins'⟩ := BridgeRequest.perform_twins hchain hcustody hown
          (fun message hmessage => (hmessages message hmessage).mpr hchain) htwins
        obtain ⟨hlater, hend⟩ := ih htwins' hregistered hdigests
        rw [hanswer, hlater]
        exact ⟨rfl, hend⟩
      | some c =>
        -- the call is made in both runs, and touches what serves the chain in neither
        obtain ⟨Q, hwrites, hspared⟩ :=
          BridgeRequest.custody_spares_chain hcustody chain digests b
        obtain ⟨Q', hwrites', hspared'⟩ :=
          BridgeRequest.custody_spares_chain hcustody chain digests b'
        have htwins' := htwins.writes_both hwrites hspared hwrites' hspared'
        obtain ⟨hlater, hend⟩ := ih htwins' hregistered hdigests
        simp only [Option.isNone_some, Bool.and_false, Bool.false_eq_true, if_false]
        rw [hlater]
        exact ⟨rfl, hend⟩
    · have hdrop : onlyNaming chain (request :: requests) = onlyNaming chain requests := by
        simp [onlyNaming, hchain]
      obtain ⟨Q, hwrites, hspared⟩ := BridgeRequest.other_spares_chain hchain hown
        (fun message hmessage hd => hchain ((hmessages message hmessage).mp hd)) b
      obtain ⟨hlater, hend⟩ := ih (htwins.writes hwrites hspared) hregistered hdigests
      rw [hdrop, chainHistory_cons, hlater]
      simp only [beq_iff_eq, hchain, Bool.and_eq_true, false_and, if_false]
      exact ⟨rfl, hend⟩

/-- Chains do not interfere outside custody. Over every run without failures of the store, in which
chains are registered under their own ids and no two different vote messages have one digest, the
calls that name a chain are answered as in the run without the calls that name other chains, and so
is every query about the chain, at every point. -/
theorem chains_isolated (module : Bytes) (chain : ChainId) (requests : List BridgeRequest)
    (hregistered : ∀ request ∈ requests, request.op.Registered)
    (hdigests : ∀ message ∈ voteMessages requests, ∀ message' ∈ voteMessages requests,
      Sha256.hash message = Sha256.hash message' → message = message') :
    chainHistory chain requests (steady module fun _ => none) =
        chainHistory chain (onlyNaming chain requests) (steady module fun _ => none) ∧
      ∀ front back, requests = front ++ back → ∀ query : ChainQuery,
        (query.ask chain (after front (steady module fun _ => none))).1 =
          (query.ask chain (after (onlyNaming chain front) (steady module fun _ => none))).1 := by
  -- the votes that serve the chain are those for the messages of calls that name it
  have hown (request : BridgeRequest) (hrequest : request ∈ requests) (message : Bytes)
      (hmessage : request.op.voteMessage? = some message) :
      (∃ r ∈ requests, r.op.chain = chain ∧ ∃ m, r.op.voteMessage? = some m ∧
        Sha256.hash m = Sha256.hash message) ↔ request.op.chain = chain := by
    constructor
    · rintro ⟨r, hr, rfl, m, hm, hhash⟩
      obtain rfl := hdigests m (List.mem_filterMap.mpr ⟨r, hr, hm⟩) message
        (List.mem_filterMap.mpr ⟨request, hrequest, hmessage⟩) hhash
      obtain ⟨payload, hpayload⟩ := (hregistered r hr).voteMessage hm
      obtain ⟨payload', hpayload'⟩ := (hregistered request hrequest).voteMessage hmessage
      exact (RelayClaim.voteMessage_inj (hpayload'.symm.trans hpayload)).1
    · intro hchain
      exact ⟨request, hrequest, hchain, message, hmessage, rfl⟩
  have htwins : (steady module fun _ => none).state.Twins (RecordKey.Serves chain fun hash =>
      ∃ r ∈ requests, r.op.chain = chain ∧ ∃ m, r.op.voteMessage? = some m ∧ Sha256.hash m = hash)
      (steady module fun _ => none).state := .empty _ module 0
  constructor
  · exact (run_twins htwins hregistered hown).1
  · rintro front back rfl query
    have hfront := run_twins htwins
      (fun request hr => hregistered request (List.mem_append_left back hr))
      fun request hr => hown request (List.mem_append_left back hr)
    exact (query.ask_local _ _ hfront.2.agree).1.symm

/-! ## One event on two chains -/

/-- Every chain is registered as one whose events are attested. -/
def allAttested : SideChainLookup := fun chain => some ⟨chain, "r", 1, [], 0⟩

/-- The only validator attests one event for a chain. -/
def attestFor (chain : ChainId) : BridgeRequest :=
  ⟨.trial, .propose ⟨100, 0⟩ allAttested (fun _ => some ⟨0, [soleValidator]⟩) chain
    (attestation soleValidator 1)⟩

/-- Two chains receive one event, and one of them the headers of the short chain. -/
def mixedRequests : List BridgeRequest :=
  [attestFor 1, ⟨.trial, .syncGenesis 2 shortGenesis []⟩, attestFor 2,
    ⟨.trial, .syncBatch ⟨5, 500⟩ 2 [shortChild]⟩, attestFor 2]

/-- Chain 2 does not notice that chain 1 has admitted the event. -/
theorem mixed_chains_isolated :
    (∀ request ∈ mixedRequests, request.op.Registered) ∧
    (∀ message ∈ voteMessages mixedRequests, ∀ message' ∈ voteMessages mixedRequests,
      Sha256.hash message = Sha256.hash message' → message = message') ∧
    chainHistory 2 mixedRequests (steady [] fun _ => none) =
      chainHistory 2 (onlyNaming 2 mixedRequests) (steady [] fun _ => none) ∧
    ∀ query : ChainQuery, (query.ask 2 (after mixedRequests (steady [] fun _ => none))).1 =
      (query.ask 2 (after (onlyNaming 2 mixedRequests) (steady [] fun _ => none))).1 := by
  have hregistered : ∀ request ∈ mixedRequests, request.op.Registered := by
    simp [mixedRequests, attestFor, BridgeOp.Registered, allAttested]
  have hdigests : ∀ message ∈ voteMessages mixedRequests, ∀ message' ∈ voteMessages mixedRequests,
      Sha256.hash message = Sha256.hash message' → message = message' := by
    decide +kernel
  obtain ⟨hhistory, hqueries⟩ := chains_isolated [] 2 mixedRequests hregistered hdigests
  exact ⟨hregistered, hdigests, hhistory, hqueries mixedRequests [] (List.append_nil _).symm⟩

end Bridge

end BridgeKernel
