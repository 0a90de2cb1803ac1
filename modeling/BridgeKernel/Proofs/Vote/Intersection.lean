import BridgeKernel.Proofs.Vote.Answers
import BridgeKernel.Proofs.Vote.Quorum
import Mathlib.Data.Finset.Card

/-!
# Quorums under one set meet

Along a run of ballots under one set, a message that reaches a quorum has been voted for by as many
different members as make a quorum. The members behind two messages are among the places of one set,
so more than the tolerated number stand behind both. The other way round, no quorum waits for the
tolerated number: on a store that does not fail, the votes of all other members are enough, whatever
else is cast between them.
-/

namespace BridgeKernel

open Record Transition

/-! ## The votes that a quorum leaves out -/

namespace ValidatorEpoch

/-- The number of members that may be faulty. -/
def tolerated (epoch : ValidatorEpoch) : Nat := (epoch.size - 1) / 3

/-- A quorum and the tolerated number make up the set. -/
theorem quorumSize_add_tolerated (epoch : ValidatorEpoch) :
    epoch.quorumSize + epoch.tolerated = epoch.size := by
  unfold quorumSize tolerated
  split <;> omega

/-- Two quorums of members share more than the tolerated number. -/
theorem tolerated_lt_card_inter {epoch : ValidatorEpoch} {first second : Finset Address}
    (hset : epoch.validators ≠ []) (hfirst : first ⊆ epoch.validators.toFinset)
    (hsecond : second ⊆ epoch.validators.toFinset) (hle : epoch.quorumSize ≤ first.card)
    (hle' : epoch.quorumSize ≤ second.card) : epoch.tolerated < (first ∩ second).card := by
  have hunion : (first ∪ second).card ≤ epoch.size :=
    (Finset.card_le_card (Finset.union_subset hfirst hsecond)).trans
      epoch.validators.toFinset_card_le
  have hmeet := Finset.card_union_add_card_inter first second
  have hquorum := epoch.quorumSize_add_tolerated
  have hsize : 0 < epoch.size := List.length_pos_iff.mpr hset
  have htolerated : epoch.tolerated = (epoch.size - 1) / 3 := rfl
  omega

/-- All members but the tolerated number make a quorum when no place is given twice. -/
theorem quorumSize_le_card_sdiff {epoch : ValidatorEpoch} (hdistinct : epoch.validators.Nodup)
    {silent : Finset Address} (hsilent : silent.card ≤ epoch.tolerated) :
    epoch.quorumSize ≤ (epoch.validators.toFinset \ silent).card := by
  have hsize : epoch.validators.toFinset.card = epoch.size :=
    List.toFinset_card_of_nodup hdistinct
  have hleft := Finset.le_card_sdiff silent epoch.validators.toFinset
  have hquorum := epoch.quorumSize_add_tolerated
  omega

end ValidatorEpoch

/-! ## The voters under a digest -/

namespace State

/-- Those who have voted under a digest. -/
def voters (s : State) (hash : Hash) : Finset Address :=
  (s.votes? hash).elim ∅ fun record => (record.signers.entries.map Prod.fst).toFinset

variable {s : State} {hash : Hash} {signer : Address}

theorem mem_voters : signer ∈ s.voters hash ↔ s.votedAt? hash signer ≠ none := by
  rw [voters, votedAt?]
  cases s.votes? hash with
  | none => simp
  | some record =>
    simp only [Option.elim_some, Option.bind_some, List.mem_toFinset, List.mem_map, ne_eq,
      Option.ne_none_iff_exists']
    constructor
    · rintro ⟨entry, hentry, rfl⟩
      exact ⟨entry.2, record.signers.mem_entries_iff.mp hentry⟩
    · rintro ⟨height, hheight⟩
      exact ⟨(signer, height), record.signers.mem_entries_iff.mpr hheight, rfl⟩

theorem card_voters (s : State) (hash : Hash) : (s.voters hash).card = s.voteCount hash := by
  rw [voters, voteCount]
  cases s.votes? hash with
  | none => rfl
  | some record =>
    rw [Option.elim_some, Option.elim_some, List.toFinset_card_of_nodup record.signers.keys_nodup,
      List.length_map]
    rfl

/-- No votes are kept under any digest. -/
def Voteless (s : State) : Prop := ∀ hash, s.votes? hash = none

namespace Voteless

variable (h : s.Voteless)
include h

theorem votedAt? (hash : Hash) (signer : Address) : s.votedAt? hash signer = none := by
  rw [State.votedAt?, h hash]
  rfl

theorem voteCount (hash : Hash) : s.voteCount hash = 0 := by
  rw [State.voteCount, h hash]
  rfl

theorem quorumHeight? (hash : Hash) : s.quorumHeight? hash = none := by
  rw [State.quorumHeight?, h hash]
  rfl

end Voteless

end State

/-! ## Ballots under one set -/

namespace Ballot

variable {b : Ballot} {epoch : ValidatorEpoch} {s t : State} {reached : Bool}

/-- The ballot is cast under the set in force, and that is this one. -/
def GovernedBy (epoch : ValidatorEpoch) (b : Ballot) : Prop :=
  ∃ epochAt, b.electorate = .inForce epochAt ∧ epochAt b.ctx.height = some epoch

namespace GovernedBy

variable (h : b.GovernedBy epoch)
include h

theorem cast_eq : b.cast = Vote.cast b.config b.ctx epoch epoch.quorumSize b.signer b.message := by
  obtain ⟨config, ctx, electorate, signer, message⟩ := b
  obtain ⟨epochAt, rfl, hepoch⟩ := h
  change Vote.castInForce config ctx epochAt signer message = _
  unfold Vote.castInForce
  dsimp only at hepoch
  rw [hepoch]

theorem quorum?_eq : b.quorum? = some epoch.quorumSize := by
  obtain ⟨epochAt, helectorate, hepoch⟩ := h
  rw [quorum?, helectorate, Electorate.quorum?, hepoch]
  rfl

/-- Only members vote. -/
theorem signer_mem (hok : b.cast s = (.ok reached, t)) : b.signer ∈ epoch.validators := by
  rw [h.cast_eq] at hok
  obtain ⟨hmember, -⟩ := Vote.cast_checked hok
  exact List.contains_iff_mem.mp hmember

end GovernedBy

/-- A ballot writes a record of votes. -/
theorem cast_within (b : Ballot) : b.cast.Within RecordKey.IsVote := by
  obtain ⟨config, ctx, electorate, signer, message⟩ := b
  cases electorate with
  | given epoch quorum =>
    exact fun s => (Vote.cast_within config epoch quorum signer message s).mono
      fun _ hkey => ⟨_, hkey⟩
  | inForce epochAt =>
    exact fun s => (Vote.castInForce_within config epochAt signer message s).mono
      fun _ hkey => ⟨_, hkey⟩

/-- The votes under the digest of an accepted ballot are for its message. -/
theorem votedMessage?_of_ok (h : b.cast s = (.ok reached, t)) :
    t.votedMessage? b.digest = some b.message := by
  obtain ⟨epoch, quorum, -, h⟩ := cast_ok h
  obtain ⟨-, -, -, hmessage⟩ := Vote.cast_checked h
  change ((s.votes? b.digest).getD _).message = _ at hmessage
  rcases Vote.cast_ok h with ⟨-, hu, hsigned⟩ | ⟨record, hcasts, -⟩
  · have hvoted := State.votedAt?_of_hasSigned hsigned
    change (s.votes? b.digest).bind _ ≠ none at hvoted
    rw [State.votedMessage?, State.votes?, hu.lookup_eq]
    cases hfound : s.votes? b.digest with
    | none =>
      rw [hfound] at hvoted
      exact absurd rfl hvoted
    | some record =>
      rw [hfound] at hmessage
      change (s.votes? b.digest).map _ = _
      rw [hfound]
      exact congrArg some hmessage
  · have hfound : record = (s.votes? b.digest).getD _ := hcasts.found
    rw [← hfound] at hmessage
    have hvotes : t.votes? b.digest = _ := hcasts.votes?_eq
    rw [State.votedMessage?, hvotes, Option.map_some, VoteRecord.cast_message, hmessage]

/-- The signer of an accepted ballot has voted afterwards. -/
theorem votedAt?_of_ok (h : b.cast s = (.ok reached, t)) :
    t.votedAt? b.digest b.signer ≠ none := by
  have haffects := (b.affects b.digest s).votedAt?_eq b.signer
  rw [h] at haffects
  have haccepted : BallotEntry.acceptedAt? b.digest b.signer ⟨b, .ok reached⟩ =
      some b.ctx.height := if_pos ⟨rfl, rfl⟩
  rw [haffects, haccepted]
  cases s.votedAt? b.digest b.signer <;> nofun

end Ballot

namespace Vote

variable {epoch : ValidatorEpoch} {ballots : List Ballot} {message : Bytes} {signer : Address}
  {hash : Hash} {s : State}

/-! ## What a run shows -/

/-- An entry of a run is a ballot with the answer that it got after those before it. -/
theorem exists_of_mem_run {e : BallotEntry} (h : e ∈ (run ballots s).1) :
    ∃ front back, ballots = front ++ e.ballot :: back ∧
      e.answer = (e.ballot.cast (after front s)).1 := by
  induction ballots generalizing s with
  | nil => cases h
  | cons b ballots ih =>
    rw [run, List.mem_cons] at h
    rcases h with rfl | h
    · exact ⟨[], ballots, rfl, rfl⟩
    · obtain ⟨front, back, rfl, hanswer⟩ := ih h
      exact ⟨b :: front, back, rfl, hanswer⟩

/-- A ballot of a run has an entry with the answer that it gets after those before it. -/
theorem mem_run (front : List Ballot) (b : Ballot) (back : List Ballot) (s : State) :
    (⟨b, (b.cast (after front s)).1⟩ : BallotEntry) ∈ (run (front ++ b :: back) s).1 := by
  induction front generalizing s with
  | nil => exact List.mem_cons_self
  | cons c front ih => exact List.mem_cons_of_mem _ (ih (c.cast s).2)

/-- A message reaches a quorum in a run. -/
def Reaches (ballots : List Ballot) (s : State) (message : Bytes) : Prop :=
  ∃ e ∈ (run ballots s).1, e.ballot.message = message ∧ e.answer = .ok true

/-- A signer votes for a message in a run. -/
def VotesFor (ballots : List Ballot) (s : State) (signer : Address) (message : Bytes) : Prop :=
  ∃ e ∈ (run ballots s).1, e.ballot.signer = signer ∧ e.ballot.message = message ∧
    ∃ reached, e.answer = .ok reached

/-- The votes under the digest of a message that was voted for are for that message. -/
theorem VotesFor.votedMessage? (h : VotesFor ballots s signer message) :
    (after ballots s).votedMessage? (Sha256.hash message) = some message := by
  obtain ⟨e, he, rfl, rfl, reached, hok⟩ := h
  obtain ⟨front, back, rfl, hanswer⟩ := exists_of_mem_run he
  rw [after_append]
  exact votedMessage?_after back (Ballot.votedMessage?_of_ok (Prod.ext (hanswer ▸ hok) rfl))

theorem VotesFor.signer_mem (h : VotesFor ballots s signer message)
    (hgoverned : ∀ b ∈ ballots, b.GovernedBy epoch) : signer ∈ epoch.validators := by
  obtain ⟨e, he, rfl, rfl, reached, hok⟩ := h
  obtain ⟨front, back, rfl, hanswer⟩ := exists_of_mem_run he
  exact (hgoverned e.ballot (by simp)).signer_mem (Prod.ext (hanswer ▸ hok) rfl)

/-- Who is among the voters after a run without earlier votes has voted in the run. -/
theorem exists_votesFor (hs : s.Voteless) (h : signer ∈ (after ballots s).voters hash) :
    ∃ message, Sha256.hash message = hash ∧ VotesFor ballots s signer message := by
  have hvoted := State.mem_voters.mp h
  rw [votedAt?_after, hs.votedAt?, Option.none_or, ne_eq, List.head?_eq_none_iff] at hvoted
  obtain ⟨height, hheight⟩ := List.exists_mem_of_ne_nil _ hvoted
  obtain ⟨e, he, haccepted⟩ := List.mem_filterMap.mp hheight
  unfold BallotEntry.acceptedAt? at haccepted
  split at haccepted
  · next reached hok =>
    split at haccepted
    · next here => exact ⟨e.ballot.message, here.1, e, he, here.2, rfl, reached, hok⟩
    · cases haccepted
  · cases haccepted

/-- The voters under the digest of a message that was voted for have voted for it. -/
theorem VotesFor.of_mem_voters {other : Address} (hs : s.Voteless)
    (h : VotesFor ballots s other message)
    (hmem : signer ∈ (after ballots s).voters (Sha256.hash message)) :
    VotesFor ballots s signer message := by
  obtain ⟨message', hhash, hvotes⟩ := exists_votesFor hs hmem
  have hthis := hvotes.votedMessage?
  rw [hhash, h.votedMessage?] at hthis
  rwa [← Option.some.inj hthis] at hvotes

/-! ## Runs under one set -/

section Governed

variable (hs : s.Voteless) (hgoverned : ∀ b ∈ ballots, b.GovernedBy epoch)
include hs hgoverned

/-- All voters are members. -/
theorem voters_subset (hash : Hash) :
    (after ballots s).voters hash ⊆ epoch.validators.toFinset := by
  intro a ha
  obtain ⟨message, -, hvotes⟩ := exists_votesFor hs ha
  exact List.mem_toFinset.mpr (hvotes.signer_mem hgoverned)

omit hs in
/-- All ballots are cast under the quorum of the set. -/
theorem one_quorum : ∀ b ∈ ballots, b.digest = hash → ∀ q ∈ b.quorum?, q = epoch.quorumSize := by
  intro b hb _ q hq
  rw [(hgoverned b hb).quorum?_eq] at hq
  exact (Option.some.inj hq).symm

/-- A message that reaches a quorum has as many voters, and all of them have voted for it. -/
theorem Reaches.voters (h : Reaches ballots s message) :
    epoch.quorumSize ≤ ((after ballots s).voters (Sha256.hash message)).card ∧
      ∀ a ∈ (after ballots s).voters (Sha256.hash message), VotesFor ballots s a message := by
  obtain ⟨e, he, rfl, hok⟩ := h
  have hvotes : VotesFor ballots s e.ballot.signer e.ballot.message :=
    ⟨e, he, rfl, rfl, true, hok⟩
  have hreached : e.reachedAt? e.ballot.digest = some e.ballot.ctx.height := by
    rw [BallotEntry.reachedAt?, hok]
    exact if_pos rfl
  have hfired : firings e.ballot.digest ballots s ≠ [] :=
    List.ne_nil_of_mem (List.mem_filterMap.mpr ⟨e, he, hreached⟩)
  have hfinal : (after ballots s).quorumHeight? e.ballot.digest ≠ none := by
    rw [quorumHeight?_after, hs.quorumHeight?, Option.none_or, ne_eq, List.head?_eq_none_iff]
    exact hfired
  rw [State.card_voters]
  exact ⟨quorum_le_of_final (one_quorum hgoverned) (hs.quorumHeight? _) hfinal,
    fun a ha => hvotes.of_mem_voters hs ha⟩

/-- Two messages that reach a quorum have more than the tolerated number of voters in common. -/
theorem Reaches.common_voters {message' : Bytes} (h : Reaches ballots s message)
    (h' : Reaches ballots s message') :
    ∃ voters : Finset Address, epoch.tolerated < voters.card ∧ ∀ a ∈ voters,
      a ∈ epoch.validators ∧ VotesFor ballots s a message ∧ VotesFor ballots s a message' := by
  obtain ⟨hle, hvotes⟩ := h.voters hs hgoverned
  obtain ⟨hle', hvotes'⟩ := h'.voters hs hgoverned
  have hset : epoch.validators ≠ [] := by
    obtain ⟨e, he, -, hok⟩ := h
    exact List.ne_nil_of_mem
      (VotesFor.signer_mem ⟨e, he, rfl, rfl, true, hok⟩ hgoverned)
  refine ⟨_, ValidatorEpoch.tolerated_lt_card_inter hset (voters_subset hs hgoverned _)
    (voters_subset hs hgoverned _) hle hle', fun a ha => ?_⟩
  obtain ⟨hfirst, hsecond⟩ := Finset.mem_inter.mp ha
  exact ⟨(hvotes a hfirst).signer_mem hgoverned, hvotes a hfirst, hvotes' a hsecond⟩

/-! ## Enough votes -/

/-- Where there are as many votes as make a quorum, some ballot has reached it. -/
theorem exists_reaches (hset : epoch.validators ≠ [])
    (hle : epoch.quorumSize ≤ (after ballots s).voteCount hash) :
    ∃ message, Sha256.hash message = hash ∧ Reaches ballots s message := by
  have hpositive := ValidatorEpoch.quorumSize_pos hset
  rw [voteCount_after, hs.voteCount, Nat.zero_add] at hle
  have hbound : epoch.quorumSize - 1 < (quorums hash ballots s).length := by omega
  obtain ⟨-, b, hb, -, hquorum⟩ := mem_quorums (List.getElem_mem hbound)
  have hown : (quorums hash ballots s)[epoch.quorumSize - 1] = epoch.quorumSize :=
    Option.some.inj (hquorum.symm.trans (hgoverned b hb).quorum?_eq)
  have hfinal : (after ballots s).quorumHeight? hash ≠ none := by
    refine (quorumHeight?_ne_none_iff hash ballots s).mpr (.inr ⟨epoch.quorumSize - 1, ?_⟩)
    rw [hs.voteCount, List.getElem?_eq_getElem hbound, hown]
    congr 1
    omega
  rw [quorumHeight?_after, hs.quorumHeight?, Option.none_or, ne_eq,
    List.head?_eq_none_iff] at hfinal
  obtain ⟨height, hheight⟩ := List.exists_mem_of_ne_nil _ hfinal
  obtain ⟨e, he, hreached⟩ := List.mem_filterMap.mp hheight
  unfold BallotEntry.reachedAt? at hreached
  split at hreached
  · next hok =>
    split at hreached
    · next hhash => exact ⟨e.ballot.message, hhash, e, he, rfl, hok⟩
    · cases hreached
  · cases hreached

end Governed

/-! ## Votes that are not refused -/

/-- Ballots leave a store reliable. -/
theorem reliable_after (hs : s.Reliable) (ballots : List Ballot) : (after ballots s).Reliable := by
  induction ballots generalizing s with
  | nil => exact hs
  | cons b ballots ih => exact ih (hs.writes (b.cast_within s))

/-- Where all ballots under a digest are for one message, so are the votes. -/
theorem message_eq_of_votes? (hstart : ∀ r, s.votes? hash = some r → r.message = message)
    (hown : ∀ b ∈ ballots, b.digest = hash → b.message = message) :
    ∀ r, (after ballots s).votes? hash = some r → r.message = message := by
  induction ballots generalizing s with
  | nil => exact hstart
  | cons b ballots ih =>
    obtain ⟨hfirst, hrest⟩ := List.forall_mem_cons.mp hown
    refine ih ?_ hrest
    cases b.affects hash s with
    | nothing same quiet known => rwa [same]
    | counted here under positive hmessage casts answer =>
      subst here
      have hvotes : (b.cast s).2.votes? b.digest = _ := casts.votes?_eq
      rw [hvotes]
      rintro r ⟨⟩
      rw [VoteRecord.cast_message, hmessage]
      exact hfirst rfl

/-- What the run of ballots needs so that a member's vote for a message is not refused. -/
structure Open (epoch : ValidatorEpoch) (message : Bytes) (ballots : List Ballot) (s : State) :
    Prop where
  /-- The store does not fail. -/
  reliable : s.Reliable
  /-- No votes are kept yet. -/
  voteless : s.Voteless
  /-- The members can be stored. -/
  members : epoch.size < lengthLimit
  /-- The message has an extent. -/
  nonempty : message ≠ []
  /-- The message can be stored. -/
  stated : message.length < lengthLimit
  /-- All ballots are cast under the set. -/
  governed : ∀ b ∈ ballots, b.GovernedBy epoch
  /-- The ballots under the digest of the message are for the message. -/
  own : ∀ b ∈ ballots, b.digest = Sha256.hash message → b.message = message

namespace Open

/-- The conditions hold of the first ballots of a run. -/
theorem front {front back : List Ballot} (h : Open epoch message (front ++ back) s) :
    Open epoch message front s :=
  { h with
    governed := fun b hb => h.governed b (List.mem_append_left back hb)
    own := fun b hb => h.own b (List.mem_append_left back hb) }

/-- The votes under the digest of the message are for the message. -/
theorem message_eq (h : Open epoch message ballots s) :
    ∀ r, (after ballots s).votes? (Sha256.hash message) = some r → r.message = message :=
  message_eq_of_votes? (fun _ hr => nomatch (h.voteless _).symm.trans hr) h.own

/-- The vote of a member that has not voted yet can be stored. -/
theorem fits (h : Open epoch message ballots s) (height : UInt64) (quorum : Nat)
    (hmember : signer ∈ epoch.validators) {r : VoteRecord}
    (hr : r = ((after ballots s).votes? (Sha256.hash message)).getD (.start message))
    (hnew : r.hasSigned signer = false) :
    Record.fits (r.cast signer height quorum) = true := by
  have hmessage : r.message = message := by
    rw [hr]
    cases hfound : (after ballots s).votes? (Sha256.hash message) with
    | none => rfl
    | some found => exact h.message_eq found hfound
  have hcount : r.signerCount = ((after ballots s).voters (Sha256.hash message)).card := by
    rw [State.card_voters, State.voteCount, hr]
    cases (after ballots s).votes? (Sha256.hash message) <;> rfl
  have hvoter : signer ∉ (after ballots s).voters (Sha256.hash message) := by
    rw [State.mem_voters, not_not, State.votedAt?]
    have hfind := VoteRecord.find?_eq_none_of_new hnew
    cases hfound : (after ballots s).votes? (Sha256.hash message) with
    | none => rfl
    | some found =>
      rw [hfound, Option.getD_some] at hr
      rw [Option.bind_some, ← hr, hfind]
  have hroom : r.signerCount + 1 ≤ epoch.size := by
    rw [hcount, ← Finset.card_insert_of_notMem hvoter]
    have hsubset := Finset.insert_subset (List.mem_toFinset.mpr hmember)
      (voters_subset h.voteless h.governed (Sha256.hash message))
    exact (Finset.card_le_card hsubset).trans epoch.validators.toFinset_card_le
  have hmembers := h.members
  rw [VoteRecord.fits_iff, VoteRecord.cast_message, VoteRecord.cast_signers,
    VoteRecord.signerCount_insert hnew, hmessage]
  exact ⟨h.stated, by omega⟩

/-- A member whose vote for the message is cast in a run has voted for it at the end. -/
theorem mem_voters (h : Open epoch message ballots s) {b : Ballot} (hb : b ∈ ballots)
    (hmessage : b.message = message) (hshort : message.length ≤ b.config.maxMessageLen)
    (hmember : b.signer ∈ epoch.validators) :
    b.signer ∈ (after ballots s).voters (Sha256.hash message) := by
  obtain ⟨front, back, rfl⟩ := List.append_of_mem hb
  have hfront := h.front
  have hstore := reliable_after h.reliable front
  obtain ⟨reached, t, hcast⟩ := cast_answers b.config b.ctx hstore.calm hstore.form h.nonempty
    hshort (ValidatorEpoch.quorumSize_pos (List.ne_nil_of_mem hmember)) epoch.quorumSize_le_size
    hmember hfront.message_eq fun r => hfront.fits b.ctx.height epoch.quorumSize hmember
  rw [← hmessage, ← (h.governed b hb).cast_eq] at hcast
  have hvoted := Ballot.votedAt?_of_ok hcast
  subst hmessage
  rw [State.mem_voters, after_append, after_cons, hcast, votedAt?_after]
  cases hheight : t.votedAt? (Sha256.hash b.message) b.signer with
  | none => exact absurd hheight hvoted
  | some height => nofun

/-- Where all members but a tolerated number vote for a message, it reaches a quorum. -/
theorem reaches (h : Open epoch message ballots s) (hset : epoch.validators ≠ [])
    (hdistinct : epoch.validators.Nodup) {silent : Finset Address}
    (hsilent : silent.card ≤ epoch.tolerated)
    (hvotes : ∀ a ∈ epoch.validators, a ∉ silent → ∃ b ∈ ballots, b.signer = a ∧
      b.message = message ∧ message.length ≤ b.config.maxMessageLen) :
    Reaches ballots s message := by
  have hvoters : epoch.validators.toFinset \ silent ⊆
      (after ballots s).voters (Sha256.hash message) := by
    intro a ha
    obtain ⟨hmember, hspeaks⟩ := Finset.mem_sdiff.mp ha
    obtain ⟨b, hb, rfl, hmessage, hshort⟩ := hvotes a (List.mem_toFinset.mp hmember) hspeaks
    exact h.mem_voters hb hmessage hshort (List.mem_toFinset.mp hmember)
  have hle : epoch.quorumSize ≤ (after ballots s).voteCount (Sha256.hash message) := by
    rw [← State.card_voters]
    exact (ValidatorEpoch.quorumSize_le_card_sdiff hdistinct hsilent).trans
      (Finset.card_le_card hvoters)
  obtain ⟨message', hhash, e, he, rfl, hok⟩ := exists_reaches h.voteless h.governed hset hle
  obtain ⟨front, back, rfl, -⟩ := exists_of_mem_run he
  exact ⟨e, he, h.own e.ballot (by simp) hhash, hok⟩

end Open

/-! ## Safety and progress of quorums -/

/-- The votes of all members but some for a message, one after another. -/
def rollCall (config : VoteConfig) (ctx : BlockContext) (epochAt : UInt64 → Option ValidatorEpoch)
    (message : Bytes) (voters : List Address) : List Ballot :=
  voters.map fun voter => ⟨config, ctx, .inForce epochAt, voter, message⟩

/-- Quorums under one set meet, and can be reached without the tolerated number. Over every run of
ballots under one set, in whatever order and with whatever failures of the store, two messages that
both reach a quorum have more than the tolerated number of different members behind both. Where the
members are different and the store does not fail, the members outside any tolerated number bring
any fitting message to a quorum by voting for it alone, in whatever order. They also do so in every
run under the set in which they vote for it, whatever else is cast between, as long as no other
message with its digest is voted for. -/
theorem quorums_meet (epoch : ValidatorEpoch) (s : State) (hs : s.Voteless) :
    (∀ ballots, (∀ b ∈ ballots, b.GovernedBy epoch) → ∀ message message',
      Reaches ballots s message → Reaches ballots s message' →
        ∃ voters : Finset Address, epoch.tolerated < voters.card ∧ ∀ a ∈ voters,
          a ∈ epoch.validators ∧ VotesFor ballots s a message ∧ VotesFor ballots s a message') ∧
    (epoch.validators ≠ [] → epoch.validators.Nodup → epoch.size < lengthLimit → s.Reliable →
      ∀ silent : Finset Address, silent.card ≤ epoch.tolerated →
      ∀ message, message ≠ [] → message.length < lengthLimit →
        (∀ config ctx epochAt, epochAt ctx.height = some epoch →
          message.length ≤ config.maxMessageLen →
          ∀ voters, (∀ a, a ∈ voters ↔ a ∈ epoch.validators ∧ a ∉ silent) →
            Reaches (rollCall config ctx epochAt message voters) s message) ∧
        ∀ ballots, (∀ b ∈ ballots, b.GovernedBy epoch) →
          (∀ b ∈ ballots, b.digest = Sha256.hash message → b.message = message) →
          (∀ a ∈ epoch.validators, a ∉ silent → ∃ b ∈ ballots, b.signer = a ∧
            b.message = message ∧ message.length ≤ b.config.maxMessageLen) →
          Reaches ballots s message) := by
  constructor
  · intro ballots hgoverned message message' h h'
    exact h.common_voters hs hgoverned h'
  · intro hset hdistinct hmembers hreliable silent hsilent message hnonempty hstated
    have hall : ∀ ballots, (∀ b ∈ ballots, b.GovernedBy epoch) →
        (∀ b ∈ ballots, b.digest = Sha256.hash message → b.message = message) →
        (∀ a ∈ epoch.validators, a ∉ silent → ∃ b ∈ ballots, b.signer = a ∧
          b.message = message ∧ message.length ≤ b.config.maxMessageLen) →
        Reaches ballots s message := fun ballots hgoverned hown hvotes =>
      Open.reaches ⟨hreliable, hs, hmembers, hnonempty, hstated, hgoverned, hown⟩ hset hdistinct
        hsilent hvotes
    refine ⟨fun config ctx epochAt hepoch hshort voters hvoters => hall _ ?_ ?_ ?_, hall⟩
    · intro b hb
      obtain ⟨voter, -, rfl⟩ := List.mem_map.mp hb
      exact ⟨epochAt, rfl, hepoch⟩
    · intro b hb _
      obtain ⟨voter, -, rfl⟩ := List.mem_map.mp hb
      rfl
    · intro a hmember hspeaks
      exact ⟨_, List.mem_map.mpr ⟨a, (hvoters a).mpr ⟨hmember, hspeaks⟩, rfl⟩, rfl, rfl, hshort⟩

/-- The votes of some of four members. -/
def fourMembersVote (message : Bytes) (voters : List Nat) : List Ballot :=
  rollCall .trial ⟨5, 0⟩ (fun _ => some (largeSet 0)) message (voters.map numberedVoter)

/-- The first three of four members bring one message to a quorum and the last three another, so two
stand behind both. One member is tolerated, and the first three were enough without the last. -/
theorem quorums_of_four_meet :
    (∃ voters : Finset Address, 1 < voters.card ∧ ∀ a ∈ voters,
      VotesFor (fourMembersVote [0x6d] [1, 2, 3] ++ fourMembersVote [0x6e] [2, 3, 4])
        (fresh [] fun _ _ => none) a [0x6d] ∧
      VotesFor (fourMembersVote [0x6d] [1, 2, 3] ++ fourMembersVote [0x6e] [2, 3, 4])
        (fresh [] fun _ _ => none) a [0x6e]) ∧
    Reaches (fourMembersVote [0x6d] [1, 2, 3]) (fresh [] fun _ _ => none) [0x6d] := by
  obtain ⟨hmeet, hprogress⟩ := quorums_meet (largeSet 0) (fresh [] fun _ _ => none) fun _ => rfl
  constructor
  · have hgoverned : ∀ b ∈ fourMembersVote [0x6d] [1, 2, 3] ++ fourMembersVote [0x6e] [2, 3, 4],
        b.GovernedBy (largeSet 0) := by
      intro b hb
      obtain ⟨voter, -, rfl⟩ | ⟨voter, -, rfl⟩ :=
        (List.mem_append.mp hb).imp List.mem_map.mp List.mem_map.mp
      all_goals exact ⟨_, rfl, rfl⟩
    have hfirst : Reaches (fourMembersVote [0x6d] [1, 2, 3] ++ fourMembersVote [0x6e] [2, 3, 4])
        (fresh [] fun _ _ => none) [0x6d] :=
      ⟨_, mem_run (fourMembersVote [0x6d] [1, 2]) _ (fourMembersVote [0x6e] [2, 3, 4]) _, rfl,
        by decide +kernel⟩
    have hsecond : Reaches (fourMembersVote [0x6d] [1, 2, 3] ++ fourMembersVote [0x6e] [2, 3, 4])
        (fresh [] fun _ _ => none) [0x6e] :=
      ⟨_, mem_run (fourMembersVote [0x6d] [1, 2, 3] ++ fourMembersVote [0x6e] [2, 3]) _ [] _, rfl,
        by decide +kernel⟩
    obtain ⟨voters, hmany, hvoters⟩ := hmeet _ hgoverned _ _ hfirst hsecond
    exact ⟨voters, hmany, fun a ha => (hvoters a ha).2⟩
  · have hreliable : (fresh [] fun _ _ => none).Reliable := ⟨fun _ _ => rfl, nofun⟩
    obtain ⟨hrollCall, -⟩ := hprogress (List.cons_ne_nil _ _) (by decide) (by decide) hreliable
      {numberedVoter 4} (by decide) [0x6d] (List.cons_ne_nil _ _) (by decide)
    refine hrollCall .trial ⟨5, 0⟩ (fun _ => some (largeSet 0)) rfl (by decide) _ fun a => ?_
    simp only [largeSet, List.map_cons, List.map_nil, List.mem_cons, List.not_mem_nil, or_false,
      Finset.mem_singleton]
    constructor
    · rintro (rfl | rfl | rfl) <;> decide
    · rintro ⟨rfl | rfl | rfl | rfl, hspeaks⟩
      · exact .inl rfl
      · exact .inr (.inl rfl)
      · exact .inr (.inr rfl)
      · exact absurd rfl hspeaks

end Vote

end BridgeKernel
