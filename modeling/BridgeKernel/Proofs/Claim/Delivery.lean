import BridgeKernel.Proofs.Bridge.Admission
import BridgeKernel.Proofs.Bridge.RelayRun
import BridgeKernel.Proofs.Claim.Evm
import BridgeKernel.Proofs.Vote.Answers

/-!
# Deliveries of attestations

Under one validator set and on a store that does not fail, an attestation is refused when it comes
from a stranger, and otherwise repeats another or is counted. The one that completes the quorum
finds no mark of its event and sets it, as long as the votes and the mark are accounted for by the
attestations before it.
-/

namespace BridgeKernel

open Record Transition

/-! ## Steps that are not refused -/

/-- On a store that never fails an id without a mark is marked. -/
theorem Replay.markApplied_answers (ctx : BlockContext) {chain : ChainId} {id : Bytes} {s : State}
    (hs : s.Calm) (hform : s.WellFormed) (hid : id ≠ []) (hnone : s.mark? chain id = none) :
    ∃ t, markApplied ctx chain id s = (.ok (), t) := by
  obtain ⟨u, hload⟩ := hs.load? hform (RecordKey.applied_holds chain id)
  have hread : marker? chain id s = (.ok none, u) := by
    rw [← hnone]
    exact run_mapError hload _
  have hcalm := hs.untouched ((marker?_readOnly chain id).untouched hread)
  have hfits : fits (⟨ctx.height⟩ : ReplayMarker) = true := rfl
  obtain ⟨t, hstore⟩ := hcalm.store (.applied chain id) hfits
  have hnonempty : ¬ id.isEmpty = true := by rwa [List.isEmpty_iff]
  refine ⟨t, ?_⟩
  unfold markApplied
  refine (run_guard hnonempty).trans ?_
  exact (run_bind hread _).trans (run_mapError hstore _)

/-- An instruction has an id. -/
theorem Event.toInstruction_id {e : Event} {source : ChainId} {i : Instruction}
    (h : e.toInstruction source = .ok i) : i.crossChainId ≠ [] := by
  unfold toInstruction at h
  split at h
  · cases h
  next hid =>
  rw [List.isEmpty_iff] at hid
  split at h
  · cases h
  split at h
  · cases h
  · cases h
    exact hid

/-! ## Deliveries -/

/-- An attestation of an event of a source chain. -/
structure Submission where
  /-- The chain. -/
  source : SideChain
  /-- The validator and the event. -/
  claim : RelayClaim

/-- What the validator votes for. -/
def Submission.message (c : Submission) : Bytes :=
  RelayClaim.voteMessage c.source.chainId c.claim.payload

/-- The digest under which the vote is kept. -/
def Submission.digest (c : Submission) : Hash := Sha256.hash c.message

theorem Submission.message_ne_nil (c : Submission) : c.message ≠ [] := by
  intro h
  have hlength := congrArg List.length h
  rw [message, RelayClaim.voteMessage, List.length_append, Bytes.length_ofNatBE] at hlength
  simp at hlength

/-- An attestation with the block in which it comes in. -/
structure Delivery where
  /-- The block. -/
  ctx : BlockContext
  /-- The attestation. -/
  submission : Submission

/-- Under what attestations are taken in. -/
structure RelayTerms where
  /-- Limits of the claim verifiers. -/
  proof : ProofConfig
  /-- Limits of the vote engine. -/
  votes : VoteConfig
  /-- The chain that events must be addressed to. -/
  localChain : ChainId
  /-- Where the validator sets are looked up. -/
  epochAt : EpochLookup

namespace RelayTerms

variable (terms : RelayTerms)

/-- The instruction to which an attested event binds, if it does. -/
def instruction? (c : Submission) : Option Instruction :=
  (Claim.bind terms.proof terms.localChain c.source.chainId c.claim.payload).toOption

/-- Takes in an attestation. -/
def propose (d : Delivery) : Transition ClaimError (Option Instruction) :=
  d.submission.claim.propose terms.proof terms.votes terms.localChain d.ctx d.submission.source
    terms.epochAt

/-- The state after attestations. -/
def after (ds : List Delivery) (s : State) : State := ds.foldl (fun s d => (terms.propose d s).2) s

/-- The instructions that attestations admit, in order. -/
def admitted : List Delivery → State → List Instruction
  | [], _ => []
  | d :: rest, s =>
    (terms.propose d s).1.toOption.join.toList ++ admitted rest (terms.propose d s).2

/-- The different members of a set among those who submit an event that binds to an instruction. -/
def supporters (epoch : ValidatorEpoch) (i : Instruction) (collection : List Submission) :
    List Address :=
  ((collection.filter fun c => terms.instruction? c = some i).map (·.claim.signer)).dedup.filter
    epoch.contains

/-- Attestations that can be taken in together: all are of events for the local chain and of no
excessive length, those with one id of one chain are of one event, and no two messages share a
digest. -/
structure Compatible (collection : List Submission) : Prop where
  /-- Each event binds to the local chain. -/
  bound : ∀ c ∈ collection, terms.instruction? c ≠ none
  /-- One id of one chain stands for one event. -/
  agree : ∀ c ∈ collection, ∀ c' ∈ collection, ∀ i i', terms.instruction? c = some i →
    terms.instruction? c' = some i' → i.sourceChain = i'.sourceChain →
    i.crossChainId = i'.crossChainId → c.claim.payload = c'.claim.payload
  /-- Different messages have different digests. -/
  apart : ∀ c ∈ collection, ∀ c' ∈ collection, c.digest = c'.digest → c.message = c'.message
  /-- Each message can be voted for. -/
  short : ∀ c ∈ collection, c.message.length ≤ terms.votes.maxMessageLen
  /-- Each message can be stored. -/
  stated : ∀ c ∈ collection, c.message.length < lengthLimit

variable {terms}

theorem after_snoc (ds : List Delivery) (d : Delivery) (s : State) :
    terms.after (ds ++ [d]) s = (terms.propose d (terms.after ds s)).2 := by
  rw [after, List.foldl_append]
  rfl

theorem admitted_snoc (ds : List Delivery) (d : Delivery) (s : State) :
    terms.admitted (ds ++ [d]) s = terms.admitted ds s ++
      (terms.propose d (terms.after ds s)).1.toOption.join.toList := by
  induction ds generalizing s with
  | nil => simp [admitted, after]
  | cons e ds ih =>
    rw [List.cons_append, admitted, ih, admitted, List.append_assoc]
    rfl

theorem instruction?_eq_some {c : Submission} {i : Instruction} :
    terms.instruction? c = some i ↔
      Claim.bind terms.proof terms.localChain c.source.chainId c.claim.payload = .ok i := by
  rw [instruction?]
  cases Claim.bind terms.proof terms.localChain c.source.chainId c.claim.payload <;>
    simp [Except.toOption]

theorem instruction?_source {c : Submission} {i : Instruction}
    (h : terms.instruction? c = some i) : i.sourceChain = c.source.chainId :=
  Claim.bind_source (instruction?_eq_some.mp h)

theorem instruction?_id {c : Submission} {i : Instruction}
    (h : terms.instruction? c = some i) : i.crossChainId ≠ [] := by
  obtain ⟨event, -, -, hevent⟩ := Claim.bind_ok (instruction?_eq_some.mp h)
  exact Event.toInstruction_id hevent

/-- Attestations with one message are of one event. -/
theorem instruction?_congr {c c' : Submission} (h : c.message = c'.message) :
    terms.instruction? c = terms.instruction? c' := by
  obtain ⟨hsource, hpayload⟩ := RelayClaim.voteMessage_inj h
  rw [instruction?, hsource, hpayload, instruction?]

namespace Compatible

variable {collection : List Submission} (h : terms.Compatible collection) {c c' : Submission}
include h

/-- Events with one id of one chain have one message. -/
theorem message_eq (hc : c ∈ collection) (hc' : c' ∈ collection) {i i' : Instruction}
    (hi : terms.instruction? c = some i) (hi' : terms.instruction? c' = some i')
    (hsource : i.sourceChain = i'.sourceChain) (hid : i.crossChainId = i'.crossChainId) :
    c.message = c'.message := by
  have hpayload := h.agree c hc c' hc' i i' hi hi' hsource hid
  have hchain : c.source.chainId = c'.source.chainId := by
    rw [← instruction?_source hi, ← instruction?_source hi', hsource]
  rw [Submission.message, Submission.message, hchain, hpayload]

end Compatible

/-! ## Who has attested a message -/

variable (terms) (epoch : ValidatorEpoch)

/-- The attestations of a message by members of a set. -/
def attestations (message : Bytes) (ds : List Delivery) : List Attestation :=
  ds.filterMap fun d =>
    if d.submission.message = message ∧ d.submission.claim.signer ∈ epoch.validators then
      some (d.submission.claim.attestation d.ctx terms.epochAt)
    else none

/-- The different members of a set that have attested a message. -/
def voters (message : Bytes) (ds : List Delivery) : List Address :=
  Attestation.voters (terms.attestations epoch message ds)

variable {terms} {epoch} {message : Bytes} {ds : List Delivery} {d : Delivery}

theorem mem_voters {signer : Address} : signer ∈ terms.voters epoch message ds ↔
    ∃ d ∈ ds, d.submission.message = message ∧ d.submission.claim.signer = signer ∧
      signer ∈ epoch.validators := by
  rw [voters, Attestation.mem_voters]
  constructor
  · rintro ⟨a, ha, rfl⟩
    obtain ⟨d, hd, hattests⟩ := List.mem_filterMap.mp ha
    split at hattests
    · next h =>
      cases hattests
      exact ⟨d, hd, h.1, rfl, h.2⟩
    · cases hattests
  · rintro ⟨d, hd, hmessage, rfl, hmember⟩
    exact ⟨_, List.mem_filterMap.mpr ⟨d, hd, if_pos ⟨hmessage, hmember⟩⟩, rfl⟩

theorem voters_nodup : (terms.voters epoch message ds).Nodup := List.nodup_dedup _

/-- A member that has not attested a message leaves room among the voters for itself. -/
theorem length_voters_lt {signer : Address} (hmember : signer ∈ epoch.validators)
    (hnew : signer ∉ terms.voters epoch message ds) :
    (terms.voters epoch message ds).length < epoch.size := by
  have hsubset : signer :: terms.voters epoch message ds ⊆ epoch.validators := by
    intro a ha
    rcases List.mem_cons.mp ha with rfl | ha
    · exact hmember
    · obtain ⟨-, -, -, -, hmember⟩ := mem_voters.mp ha
      exact hmember
  have hnodup := List.nodup_cons.mpr ⟨hnew, voters_nodup⟩
  exact (List.subperm_of_subset hnodup hsubset).length_le

theorem attestations_snoc_other (terms : RelayTerms) (ds : List Delivery)
    (h : ¬ (d.submission.message = message ∧ d.submission.claim.signer ∈ epoch.validators)) :
    terms.attestations epoch message (ds ++ [d]) = terms.attestations epoch message ds := by
  rw [attestations, List.filterMap_append, List.filterMap_cons, if_neg h]
  exact List.append_nil _

theorem attestations_snoc_own (terms : RelayTerms) (ds : List Delivery)
    (h : d.submission.message = message ∧ d.submission.claim.signer ∈ epoch.validators) :
    terms.attestations epoch message (ds ++ [d]) = terms.attestations epoch message ds ++
      [d.submission.claim.attestation d.ctx terms.epochAt] := by
  rw [attestations, List.filterMap_append, List.filterMap_cons, if_pos h]
  rfl

/-! ## What one delivery does -/

/-- What an attestation comes to under one validator set, when the store does not fail. -/
inductive Comes (terms : RelayTerms) (epoch : ValidatorEpoch) (d : Delivery) (s : State) :
    Except ClaimError (Option Instruction) → State → Prop
  /-- Its validator is not in the set, and it is refused. -/
  | stranger {e : ClaimError} {t : State} (outside : d.submission.claim.signer ∉ epoch.validators)
    (unchanged : s.Untouched t) : Comes terms epoch d s (.error e) t
  /-- Its validator has attested the event before. -/
  | repeated {t : State} (member : d.submission.claim.signer ∈ epoch.validators)
    (voted : s.votedAt? d.submission.digest d.submission.claim.signer ≠ none)
    (unchanged : s.Untouched t) : Comes terms epoch d s (.ok none) t
  /-- It is counted and does not complete the quorum. -/
  | pending {t : State} {record : VoteRecord}
    (member : d.submission.claim.signer ∈ epoch.validators)
    (own : record.message = d.submission.message)
    (casts : Vote.Casts d.ctx epoch.quorumSize d.submission.claim.signer d.submission.message
      record s t)
    (short : record.reachedBy d.submission.claim.signer d.ctx.height epoch.quorumSize = false) :
    Comes terms epoch d s (.ok none) t
  /-- It completes the quorum, and the event is marked. -/
  | admitted {u t : State} {record : VoteRecord} {i : Instruction}
    (member : d.submission.claim.signer ∈ epoch.validators)
    (own : record.message = d.submission.message)
    (casts : Vote.Casts d.ctx epoch.quorumSize d.submission.claim.signer d.submission.message
      record s u)
    (full : record.reachedBy d.submission.claim.signer d.ctx.height epoch.quorumSize = true)
    (carried : terms.instruction? d.submission = some i)
    (mark : Replay.markApplied d.ctx i.sourceChain i.crossChainId u = (.ok (), t)) :
    Comes terms epoch d s (.ok (some i)) t

/-- The votes for an event and its mark are accounted for by deliveries. -/
structure Accounted (terms : RelayTerms) (epoch : ValidatorEpoch) (ds : List Delivery)
    (c : Submission) (s : State) : Prop where
  /-- The votes under the digest of the event are for the event. -/
  own : ∀ r, s.votes? c.digest = some r → r.message = c.message
  /-- They are those of the members that have attested it. -/
  tallies : Tallies c.message (terms.attestations epoch c.message ds) s
  /-- They have reached a quorum when they make one. -/
  final_iff : s.quorumHeight? c.digest ≠ none ↔
    epoch.quorumSize ≤ (terms.voters epoch c.message ds).length
  /-- The event is marked then, and only then. -/
  marked_iff : ∀ i, terms.instruction? c = some i →
    (s.mark? i.sourceChain i.crossChainId ≠ none ↔
      epoch.quorumSize ≤ (terms.voters epoch c.message ds).length)

variable {s t : State}

/-- Before anything is delivered nothing is kept. -/
theorem Accounted.initial (hset : epoch.validators ≠ []) (c : Submission) (module : Bytes) :
    terms.Accounted epoch [] c (.initial module) := by
  have hquorum := ValidatorEpoch.quorumSize_pos hset
  have hnone : ¬ epoch.quorumSize ≤ (terms.voters epoch c.message []).length :=
    Nat.not_le.mpr hquorum
  constructor
  case own => exact nofun
  case tallies => exact ⟨fun signer => ⟨fun h => absurd rfl h, nofun⟩, rfl⟩
  case final_iff => exact iff_of_false (fun h => h rfl) hnone
  case marked_iff => exact fun i _ => iff_of_false (fun h => h rfl) hnone

/-- The votes to which a vote is added are as many as the voters. -/
theorem Accounted.count_eq (h : terms.Accounted epoch ds d.submission s) {r : VoteRecord}
    (hr : r = (s.votes? d.submission.digest).getD (.start d.submission.message)) :
    r.signerCount = (terms.voters epoch d.submission.message ds).length := by
  have hcount : s.voteCount d.submission.digest = _ := h.tallies.count_eq
  rw [voters, ← hcount, State.voteCount, hr]
  cases s.votes? d.submission.digest <;> rfl

/-- The vote of a member that has not voted yet can be stored. -/
theorem Accounted.fits (h : terms.Accounted epoch ds d.submission s) (hepoch : fits epoch = true)
    (hstated : d.submission.message.length < lengthLimit)
    (hmember : d.submission.claim.signer ∈ epoch.validators) {r : VoteRecord}
    (hr : r = (s.votes? d.submission.digest).getD (.start d.submission.message))
    (hnew : r.hasSigned d.submission.claim.signer = false) :
    fits (r.cast d.submission.claim.signer d.ctx.height epoch.quorumSize) = true := by
  have hsize : epoch.size < lengthLimit := of_decide_eq_true (Bool.and_eq_true_iff.mp hepoch).1
  have hvoter : d.submission.claim.signer ∉ terms.voters epoch d.submission.message ds := by
    intro hmem
    have hvoted := (h.tallies.voted_iff d.submission.claim.signer).mpr hmem
    have hfind := VoteRecord.find?_eq_none_of_new hnew
    apply hvoted
    rw [State.votedAt?]
    change (s.votes? d.submission.digest).bind _ = none
    cases hfound : s.votes? d.submission.digest with
    | none => rfl
    | some found =>
      rw [hfound, Option.getD_some] at hr
      rw [Option.bind_some, ← hr, hfind]
  have hroom := length_voters_lt hmember hvoter
  have hcount := h.count_eq hr
  have hmessage : r.message = d.submission.message := by
    rw [hr]
    cases hfound : s.votes? d.submission.digest with
    | none => rfl
    | some found => exact h.own found hfound
  rw [VoteRecord.fits_iff, VoteRecord.cast_message, VoteRecord.cast_signers,
    VoteRecord.signerCount_insert hnew, hmessage, hcount]
  exact ⟨hstated, by omega⟩

/-- An attestation of a member is not refused. -/
theorem propose_answers (hs : s.Calm) (hform : s.WellFormed)
    (h : terms.Accounted epoch ds d.submission s) (hepoch : fits epoch = true)
    (governs : terms.epochAt d.ctx.height = some epoch)
    (bound : terms.instruction? d.submission ≠ none)
    (short : d.submission.message.length ≤ terms.votes.maxMessageLen)
    (stated : d.submission.message.length < lengthLimit)
    (hmember : d.submission.claim.signer ∈ epoch.validators) :
    ∃ answer t, terms.propose d s = (.ok answer, t) := by
  obtain ⟨i, hi⟩ := Option.ne_none_iff_exists'.mp bound
  have hquorum := ValidatorEpoch.quorumSize_pos (List.ne_nil_of_mem hmember)
  obtain ⟨reached, u, hcast⟩ := Vote.cast_answers terms.votes d.ctx hs hform
    d.submission.message_ne_nil short hquorum epoch.quorumSize_le_size hmember h.own
    fun r hr hnew => h.fits hepoch stated hmember hr hnew
  have hvote : Vote.castInForce terms.votes d.ctx terms.epochAt d.submission.claim.signer
      d.submission.message s = (.ok reached, u) := by
    unfold Vote.castInForce
    rw [governs]
    exact hcast
  have hbind : Transition.ofExcept id (Claim.bind terms.proof terms.localChain
      d.submission.source.chainId d.submission.claim.payload) s = (.ok i, s) := by
    rw [instruction?_eq_some.mp hi]
    rfl
  have hrun : terms.propose d s =
      (if reached then do return some (← Claim.markAdmitted d.ctx i) else pure none :
        Transition ClaimError (Option Instruction)) u :=
    (run_bind hbind _).trans (run_bind (run_mapError hvote _) _)
  rw [hrun]
  cases reached with
  | false => exact ⟨_, _, rfl⟩
  | true =>
    rcases Vote.cast_ok hcast with ⟨hfalse, -⟩ | ⟨record, hcasts, hreached⟩
    · cases hfalse
    have hwrites : s.Writes (· = .vote d.submission.digest) u :=
      hcasts.changed.writes_one (.store rfl (.vote _ hcasts.fits))
    -- the votes were short of the quorum before, so there is no mark yet
    have hnone : u.mark? i.sourceChain i.crossChainId = none := by
      have hshort := (hcasts.reachedBy_iff.mp hreached.symm).1
      have hcount : s.voteCount d.submission.digest = _ := h.tallies.count_eq
      change s.voteCount d.submission.digest + 1 = _ at hshort
      have hunmarked := mt (h.marked_iff i hi).mp (by rw [voters]; omega)
      have hsame : u.mark? i.sourceChain i.crossChainId =
          s.mark? i.sourceChain i.crossChainId := hwrites.lookup_eq nofun
      rw [hsame]
      exact not_not.mp hunmarked
    obtain ⟨t, hmark⟩ := Replay.markApplied_answers d.ctx (hs.writes hwrites)
      (hwrites.wellFormed hform) (instruction?_id hi) hnone
    have hmarked : Claim.markAdmitted d.ctx i u = (.ok i, t) := run_bind (run_mapError hmark _) _
    exact ⟨_, t, run_bind hmarked _⟩

/-- An attestation that admits an instruction admits that of its event. -/
theorem propose_carried {i : Instruction} (h : terms.propose d s = (.ok (some i), t)) :
    terms.instruction? d.submission = some i := by
  obtain ⟨instruction, u, hbind, h⟩ := bind_ok h
  obtain ⟨reached, v, -, h⟩ := bind_ok h
  cases reached with
  | false => cases h
  | true =>
    obtain ⟨admitted, w, hmark, h⟩ := bind_ok h
    obtain ⟨hsome, -⟩ := pure_ok h
    obtain ⟨rfl, -⟩ := Claim.markAdmitted_ok hmark
    rw [Option.some.inj hsome]
    exact instruction?_eq_some.mpr (ofExcept_ok hbind).1

theorem comes (hs : s.Calm) (hform : s.WellFormed) (h : terms.Accounted epoch ds d.submission s)
    (hepoch : fits epoch = true) (governs : terms.epochAt d.ctx.height = some epoch)
    (bound : terms.instruction? d.submission ≠ none)
    (short : d.submission.message.length ≤ terms.votes.maxMessageLen)
    (stated : d.submission.message.length < lengthLimit) :
    Comes terms epoch d s (terms.propose d s).1 (terms.propose d s).2 := by
  have hcomes := d.submission.claim.comes terms.proof terms.votes terms.localChain d.ctx
    d.submission.source terms.epochAt s
  change RelayClaim.Comes _ _ _ _ _ (terms.propose d s).1 (terms.propose d s).2 at hcomes
  have hanswers := propose_answers hs hform h hepoch governs bound short stated
  have hset {e : ValidatorEpoch} (he : terms.epochAt d.ctx.height = some e) : e = epoch :=
    Option.some.inj (he.symm.trans governs)
  rcases hrun : terms.propose d s with ⟨r, t⟩
  rw [hrun] at hcomes
  cases hcomes with
  | refused e other unchanged =>
    refine .stranger (fun hmember => ?_) unchanged
    obtain ⟨answer, u, hok⟩ := hanswers hmember
    exact nomatch (Prod.mk.inj (hrun.symm.trans hok)).1
  | repeated he member voted unchanged =>
    obtain rfl := hset he
    exact .repeated member voted unchanged
  | pending counted notFull =>
    obtain rfl := hset counted.governs
    exact .pending counted.member counted.message counted.casts notFull
  | admitted counted full mark =>
    obtain rfl := hset counted.governs
    exact .admitted counted.member counted.message counted.casts full (propose_carried hrun) mark
  | unmarked counted full cause unchanged =>
    obtain rfl := hset counted.governs
    obtain ⟨answer, u, hok⟩ := hanswers counted.member
    exact nomatch (Prod.mk.inj (hrun.symm.trans hok)).1

end RelayTerms

end BridgeKernel
