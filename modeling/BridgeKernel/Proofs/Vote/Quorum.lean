import BridgeKernel.Proofs.Vote.Ballots

/-!
# Quorums are reached once

Along a run the votes under a digest only grow, and the height of their quorum is noted by one
ballot at most. Which ballot that is depends on the quorums under which the counted ballots were
cast: it is the first whose number among them is its own quorum. Under one quorum that is the
ballot which makes the number full. Where the quorum shrinks between two votes, the votes may step
over it, and then no later vote makes up for that.
-/

namespace BridgeKernel.Vote

variable {hash : Hash} {signer : Address} {s : State}

/-! ## Along a run -/

/-- What every ballot either keeps or, where there is nothing yet, sets from its entry, is after a
run what it was before, or else what the first entry gives that gives anything. -/
theorem or_head?_after {β : Type} (view : State → Option β) (f : BallotEntry → Option β)
    (hstep : ∀ b s, view (b.cast s).2 = (view s).or (f ⟨b, (b.cast s).1⟩))
    (ballots : List Ballot) (s : State) :
    view (after ballots s) = (view s).or ((run ballots s).1.filterMap f).head? := by
  induction ballots generalizing s with
  | nil => exact (Option.or_none).symm
  | cons b ballots ih =>
    rw [after_cons, ih, hstep, filterMap_run_cons, List.head?_append, Option.head?_toList,
      Option.or_assoc]

/-- A voter keeps the height of its first accepted ballot. -/
theorem votedAt?_after (hash : Hash) (signer : Address) (ballots : List Ballot) (s : State) :
    (after ballots s).votedAt? hash signer =
      (s.votedAt? hash signer).or (acceptances hash signer ballots s).head? :=
  or_head?_after (State.votedAt? · hash signer) _ (fun b s => (b.affects hash s).votedAt?_eq signer)
    ballots s

/-- The height of the quorum is that of the first ballot that reached one. -/
theorem quorumHeight?_after (hash : Hash) (ballots : List Ballot) (s : State) :
    (after ballots s).quorumHeight? hash =
      (s.quorumHeight? hash).or (firings hash ballots s).head? :=
  or_head?_after (State.quorumHeight? · hash) _ (fun b s => (b.affects hash s).quorumHeight?_eq)
    ballots s

/-- Once a quorum has been reached no ballot reaches one. -/
theorem firings_of_final {ballots : List Ballot} (hfinal : s.quorumHeight? hash ≠ none) :
    firings hash ballots s = [] := by
  induction ballots generalizing s with
  | nil => rfl
  | cons b ballots ih =>
    have haffects := b.affects hash s
    have hquiet := haffects.reachedAt?_of_final hfinal
    have hstill : (b.cast s).2.quorumHeight? hash ≠ none := by
      rwa [haffects.quorumHeight?_eq, hquiet, Option.or_none]
    rw [firings_cons, hquiet, ih hstill]
    rfl

/-- A quorum is reached at most once. -/
theorem length_firings_le (hash : Hash) (ballots : List Ballot) (s : State) :
    (firings hash ballots s).length ≤ 1 := by
  induction ballots generalizing s with
  | nil => exact Nat.zero_le 1
  | cons b ballots ih =>
    rw [firings_cons]
    cases hreached : BallotEntry.reachedAt? hash ⟨b, (b.cast s).1⟩ with
    | none => exact ih _
    | some height =>
      have hfinal : (b.cast s).2.quorumHeight? hash ≠ none := by
        rw [(b.affects hash s).quorumHeight?_eq, hreached]
        cases s.quorumHeight? hash <;> nofun
      rw [firings_of_final hfinal]
      exact Nat.le_refl 1

/-- The message stays. -/
theorem votedMessage?_after {message : Bytes} (ballots : List Ballot)
    (h : s.votedMessage? hash = some message) :
    (after ballots s).votedMessage? hash = some message := by
  induction ballots generalizing s with
  | nil => exact h
  | cons b ballots ih => exact ih ((b.affects hash s).votedMessage?_of_some h)

/-- Every counted ballot is one more vote. -/
theorem voteCount_after (hash : Hash) (ballots : List Ballot) (s : State) :
    (after ballots s).voteCount hash = s.voteCount hash + (quorums hash ballots s).length := by
  induction ballots generalizing s with
  | nil => rfl
  | cons b ballots ih =>
    rw [after_cons, ih, quorums, List.length_append]
    rcases b.tallied_or hash s with ⟨hsame, -, hidle⟩ | ⟨rfl, quorum, htallied⟩
    · rw [if_neg hidle, State.voteCount, hsame]
      rw [List.length_nil, Nat.zero_add]
      rfl
    · rw [if_pos ⟨rfl, htallied.counts⟩, htallied.under, htallied.count]
      rw [Option.toList_some, List.length_singleton, Nat.add_assoc]

/-- The quorums of counted ballots are those of ballots under the digest, and none is zero. -/
theorem mem_quorums {ballots : List Ballot} {quorum : Nat} (h : quorum ∈ quorums hash ballots s) :
    0 < quorum ∧ ∃ b ∈ ballots, b.digest = hash ∧ b.quorum? = some quorum := by
  induction ballots generalizing s with
  | nil => cases h
  | cons b ballots ih =>
    rw [quorums, List.mem_append] at h
    rcases h with h | h
    · rcases b.tallied_or hash s with ⟨-, -, hidle⟩ | ⟨rfl, own, htallied⟩
      · rw [if_neg hidle] at h
        cases h
      · rw [if_pos ⟨rfl, htallied.counts⟩, htallied.under, Option.toList_some,
          List.mem_singleton] at h
        subst h
        exact ⟨htallied.positive, b, List.mem_cons_self, rfl, htallied.under⟩
    · obtain ⟨hpositive, b', hmem, hthis⟩ := ih h
      exact ⟨hpositive, b', List.mem_cons_of_mem b hmem, hthis⟩

/-- A quorum has been reached exactly when the number of some counted ballot was its own quorum. -/
theorem quorumHeight?_ne_none_iff (hash : Hash) (ballots : List Ballot) (s : State) :
    (after ballots s).quorumHeight? hash ≠ none ↔ s.quorumHeight? hash ≠ none ∨
      ∃ k, (quorums hash ballots s)[k]? = some (s.voteCount hash + k + 1) := by
  induction ballots generalizing s with
  | nil => simp [after, run, quorums]
  | cons b ballots ih =>
    rw [after_cons, ih, quorums]
    rcases b.tallied_or hash s with ⟨hsame, -, hidle⟩ | ⟨rfl, quorum, htallied⟩
    · rw [if_neg hidle, List.nil_append, State.quorumHeight?, State.voteCount, hsame]
      rfl
    · rw [if_pos ⟨rfl, htallied.counts⟩, htallied.under, htallied.count, htallied.final,
        Option.toList_some, List.singleton_append, or_assoc]
      refine or_congr_right ⟨?_, ?_⟩
      · rintro (hcount | ⟨k, hk⟩)
        · exact ⟨0, congrArg some hcount.symm⟩
        · refine ⟨k + 1, ?_⟩
          rw [List.getElem?_cons_succ, hk]
          congr 1
          omega
      · rintro ⟨k, hk⟩
        cases k with
        | zero => exact .inl (Option.some.inj hk).symm
        | succ k =>
          refine .inr ⟨k, ?_⟩
          rw [List.getElem?_cons_succ] at hk
          rw [hk]
          congr 1
          omega

/-! ## One firing -/

/-- How the votes under a digest come along a run, and how a quorum is reached among them. -/
structure FiresOnce (hash : Hash) (ballots : List Ballot) (s : State) : Prop where
  /-- At most one ballot reaches a quorum. -/
  once : (firings hash ballots s).length ≤ 1
  /-- The height of the quorum is that of this ballot. -/
  height : (after ballots s).quorumHeight? hash = (firings hash ballots s).head?
  /-- It stays whatever is cast later. -/
  height_kept : ∀ later height, (after ballots s).quorumHeight? hash = some height →
    (after (ballots ++ later) s).quorumHeight? hash = some height
  /-- The message stays. -/
  message_kept : ∀ later message, (after ballots s).votedMessage? hash = some message →
    (after (ballots ++ later) s).votedMessage? hash = some message
  /-- A signer has voted at the height of its first accepted ballot. -/
  first_vote : ∀ signer,
    (after ballots s).votedAt? hash signer = (acceptances hash signer ballots s).head?
  /-- Who has voted stays, with its height. -/
  vote_kept : ∀ later signer height, (after ballots s).votedAt? hash signer = some height →
    (after (ballots ++ later) s).votedAt? hash signer = some height
  /-- A next ballot that is refused, or whose signer has voted, changes no record. -/
  idle : ∀ b : Ballot, (∀ reached, (b.cast (after ballots s)).1 ≠ .ok reached) ∨
      (after ballots s).votedAt? b.digest b.signer ≠ none →
    (b.cast (after ballots s)).2.records = (after ballots s).records
  /-- Where all ballots are cast under one quorum, the next one reaches it exactly when it makes the
  number of signers full. -/
  one_quorum : ∀ quorum, (∀ b ∈ ballots, b.digest = hash → ∀ q ∈ b.quorum?, q = quorum) →
    ∀ b : Ballot, b.digest = hash → (∀ q ∈ b.quorum?, q = quorum) →
      ((b.cast (after ballots s)).1 = .ok true ↔ (after ballots s).voteCount hash + 1 = quorum ∧
        (after (ballots ++ [b]) s).voteCount hash = quorum)

/-- A ballot that is refused or repeated changes no record. -/
theorem records_of_idle {b : Ballot} (h : (∀ reached, (b.cast s).1 ≠ .ok reached) ∨
    s.votedAt? b.digest b.signer ≠ none) : (b.cast s).2.records = s.records := by
  have hcomes := b.comes s
  generalize (b.cast s).1 = answer at hcomes h
  generalize (b.cast s).2 = t at hcomes
  cases hcomes with
  | refused e hu => exact hu.records_eq
  | repeated hvoted hu => exact hu.records_eq
  | counted hunder hpositive hmessage hcasts =>
    rcases h with hrefused | hvoted
    · exact absurd rfl (hrefused _)
    · exact absurd hcasts.votedAt?_signer hvoted

/-- Under one quorum no quorum is reached before there are as many votes. -/
theorem quorum_le_of_final {ballots : List Ballot} {quorum : Nat}
    (hone : ∀ b ∈ ballots, b.digest = hash → ∀ q ∈ b.quorum?, q = quorum)
    (hstart : s.quorumHeight? hash = none)
    (hfinal : (after ballots s).quorumHeight? hash ≠ none) :
    quorum ≤ (after ballots s).voteCount hash := by
  rcases (quorumHeight?_ne_none_iff hash ballots s).mp hfinal with hbefore | ⟨k, hk⟩
  · exact absurd hstart hbefore
  · obtain ⟨-, b, hb, hhash, hquorum⟩ := mem_quorums (List.mem_of_getElem? hk)
    have hown := hone b hb hhash _ hquorum
    have hlength := (List.getElem?_eq_some_iff.mp hk).1
    rw [voteCount_after]
    omega

/-- Under one quorum a ballot reaches it exactly when it makes the number of signers full. -/
theorem reaches_iff {ballots : List Ballot} {quorum : Nat}
    (hone : ∀ b ∈ ballots, b.digest = hash → ∀ q ∈ b.quorum?, q = quorum)
    (hstart : s.quorumHeight? hash = none) {b : Ballot} (hhash : b.digest = hash)
    (hown : ∀ q ∈ b.quorum?, q = quorum) :
    (b.cast (after ballots s)).1 = .ok true ↔ (after ballots s).voteCount hash + 1 = quorum ∧
      (after (ballots ++ [b]) s).voteCount hash = quorum := by
  rw [after_snoc]
  rcases b.tallied_or hash (after ballots s) with ⟨hsame, hquiet, -⟩ | ⟨rfl, own, htallied⟩
  · refine ⟨fun h => absurd h (hquiet hhash), fun ⟨hbefore, hafter⟩ => ?_⟩
    rw [State.voteCount, hsame] at hafter
    rw [State.voteCount] at hbefore
    omega
  · obtain rfl := hown own htallied.under
    rw [htallied.reaches, htallied.count]
    constructor
    · rintro ⟨hfull, -⟩
      exact ⟨hfull, hfull⟩
    · rintro ⟨hfull, -⟩
      refine ⟨hfull, ?_⟩
      by_contra hfinal
      have hle := quorum_le_of_final hone hstart hfinal
      omega

/-- One firing for each message. Over every run of ballots, for whatever messages and under whatever
sets, quorums and failures of the store, at most one ballot reaches a quorum under a digest; its
height, the message and the votes stay, each at the height of the signer's first accepted ballot;
refused and repeated ballots change nothing; and under one quorum the ballot that reaches it is the
one that makes the number of signers full. -/
theorem quorum_fires_once (module : Bytes) (faults : Nat → StoreOp → Option StoreFault)
    (hash : Hash) (ballots : List Ballot) : FiresOnce hash ballots (fresh module faults) where
  once := length_firings_le hash ballots _
  height := quorumHeight?_after hash ballots _
  height_kept later height hheight := by
    rw [after_append, quorumHeight?_after, hheight]
    rfl
  message_kept later message hmessage := by
    rw [after_append]
    exact votedMessage?_after later hmessage
  first_vote signer := votedAt?_after hash signer ballots _
  vote_kept later signer height hvoted := by
    rw [after_append, votedAt?_after, hvoted]
    rfl
  idle _ h := records_of_idle h
  one_quorum _ hone _ hhash hown := reaches_iff hone rfl hhash hown

/-! ## Votes that stepped over their quorum -/

/-- Every counted ballot that finds enough votes for its quorum has one at or before it whose number
was its own quorum. -/
def Met (quorums : List Nat) : Prop :=
  ∀ n quorum, quorums[n]? = some quorum → quorum ≤ n + 1 → ∃ k ≤ n, quorums[k]? = some (k + 1)

/-- Quorums that do not shrink are met: their numbers go up by one, so they cannot overtake. -/
theorem met_of_pairwise {quorums : List Nat} (hpositive : ∀ quorum ∈ quorums, 0 < quorum)
    (h : quorums.Pairwise (· ≤ ·)) : Met quorums := by
  intro n
  induction n with
  | zero =>
    intro quorum hquorum hle
    have hone := hpositive quorum (List.mem_of_getElem? hquorum)
    exact ⟨0, Nat.le_refl 0, by rw [hquorum]; congr 1; omega⟩
  | succ n ih =>
    intro quorum hquorum hle
    by_cases hfull : quorum = n + 2
    · exact ⟨n + 1, Nat.le_refl _, hfull ▸ hquorum⟩
    · obtain ⟨hlength, hlast⟩ := List.getElem?_eq_some_iff.mp hquorum
      have hearlier : quorums[n]? = some quorums[n] := List.getElem?_eq_getElem _
      have hshrinks : quorums[n] ≤ quorum := by
        rw [← hlast]
        exact List.pairwise_iff_getElem.mp h n (n + 1) _ hlength (Nat.lt_succ_self n)
      obtain ⟨k, hk, hmet⟩ := ih _ hearlier (by omega)
      exact ⟨k, by omega, hmet⟩

/-- Each counted ballot of a run and its place among them. -/
theorem exists_of_quorums {ballots : List Ballot} {n quorum : Nat}
    (h : (quorums hash ballots s)[n]? = some quorum) :
    ∃ front b back, ballots = front ++ b :: back ∧ b.digest = hash ∧
      b.Tallied quorum (after front s) ∧ (quorums hash front s).length = n := by
  induction ballots generalizing s n with
  | nil => cases h
  | cons b ballots ih =>
    rw [quorums] at h
    rcases b.tallied_or hash s with ⟨-, -, hidle⟩ | ⟨rfl, own, htallied⟩
    · rw [if_neg hidle, List.nil_append] at h
      obtain ⟨front, b', back, rfl, hhash, hthis, hlength⟩ := ih h
      refine ⟨b :: front, b', back, rfl, hhash, hthis, ?_⟩
      rw [quorums, if_neg hidle, List.nil_append, hlength]
    · rw [if_pos ⟨rfl, htallied.counts⟩, htallied.under, Option.toList_some,
        List.singleton_append] at h
      cases n with
      | zero =>
        obtain rfl := Option.some.inj h
        exact ⟨[], b, ballots, rfl, rfl, htallied, rfl⟩
      | succ n =>
        obtain ⟨front, b', back, rfl, hhash, hthis, hlength⟩ := ih h
        refine ⟨b :: front, b', back, rfl, hhash, hthis, ?_⟩
        rw [quorums, if_pos ⟨rfl, htallied.counts⟩, htallied.under, Option.toList_some,
          List.singleton_append, List.length_cons, hlength]

/-- A tallied ballot leaves a quorum reached exactly when a counted ballot so far, itself included,
was cast under its own number. -/
theorem final_iff_met {front back : List Ballot} {b : Ballot} {quorum : Nat}
    (htallied : b.Tallied quorum (after front s)) (hcount : s.voteCount b.digest = 0)
    (hstart : s.quorumHeight? b.digest = none) :
    (b.cast (after front s)).2.quorumHeight? b.digest ≠ none ↔
      ∃ k ≤ (quorums b.digest front s).length,
        (quorums b.digest (front ++ b :: back) s)[k]? = some (k + 1) := by
  have hown : quorums b.digest (front ++ [b]) s = quorums b.digest front s ++ [quorum] := by
    rw [quorums_append, quorums, if_pos ⟨rfl, htallied.counts⟩, htallied.under]
    rfl
  have hall : quorums b.digest (front ++ b :: back) s =
      quorums b.digest (front ++ [b]) s ++ quorums b.digest back (after (front ++ [b]) s) := by
    rw [← quorums_append, List.append_assoc, List.singleton_append]
  have hlength : (quorums b.digest (front ++ [b]) s).length =
      (quorums b.digest front s).length + 1 := by
    rw [hown, List.length_append, List.length_singleton]
  rw [← after_snoc, quorumHeight?_ne_none_iff, hcount, hall]
  simp only [hstart, ne_eq, not_true_eq_false, false_or, Nat.zero_add]
  constructor
  · rintro ⟨k, hk⟩
    have hbound := (List.getElem?_eq_some_iff.mp hk).1
    exact ⟨k, by omega, (List.getElem?_append_left hbound).trans hk⟩
  · rintro ⟨k, hbound, hk⟩
    exact ⟨k, (List.getElem?_append_left (by omega)).symm.trans hk⟩

/-- Without votes at the start, no ballot is stranded exactly when the quorums are met. -/
theorem no_strands_iff (ballots : List Ballot) (hcount : s.voteCount hash = 0)
    (hstart : s.quorumHeight? hash = none) :
    (∀ front b back, ballots = front ++ b :: back → b.digest = hash →
      ¬ b.Strands (after front s)) ↔ Met (quorums hash ballots s) := by
  constructor
  · intro hnone n quorum hquorum hle
    obtain ⟨front, b, back, rfl, rfl, htallied, rfl⟩ := exists_of_quorums hquorum
    have hfull : quorum ≤ (b.cast (after front s)).2.voteCount b.digest := by
      rw [htallied.count, voteCount_after, hcount]
      omega
    refine (final_iff_met htallied hcount hstart).mp fun hempty => ?_
    exact hnone front b back rfl rfl ⟨htallied.counts, ⟨quorum, htallied.under, hfull⟩, hempty⟩
  · rintro hmet front b back rfl rfl ⟨hcounts, ⟨quorum, hunder, hfull⟩, hempty⟩
    rcases b.tallied_or b.digest (after front s) with ⟨-, -, hidle⟩ | ⟨-, own, htallied⟩
    · exact hidle ⟨rfl, hcounts⟩
    · obtain rfl : own = quorum := Option.some.inj (htallied.under.symm.trans hunder)
      rw [htallied.count, voteCount_after, hcount] at hfull
      refine (final_iff_met htallied hcount hstart).mpr (hmet _ own ?_ (by omega)) hempty
      rw [quorums_append, quorums, if_pos ⟨rfl, htallied.counts⟩, htallied.under]
      rw [List.getElem?_append_right (Nat.le_refl _), Nat.sub_self]
      rfl

/-- Which votes are stranded. Over every run of ballots, with sets and quorums that change from one
ballot to the next, every counted ballot that leaves as many votes as its quorum takes finds a
quorum reached exactly when the quorums of the counted ballots are met: none finds enough votes
unless it, or one before it, was cast under its own number among them. Quorums that do not shrink
are always met. -/
theorem never_stranded_iff (module : Bytes) (faults : Nat → StoreOp → Option StoreFault)
    (hash : Hash) (ballots : List Ballot) :
    ((∀ front b back, ballots = front ++ b :: back → b.digest = hash →
        ¬ b.Strands (after front (fresh module faults))) ↔
      Met (quorums hash ballots (fresh module faults))) ∧
    ((quorums hash ballots (fresh module faults)).Pairwise (· ≤ ·) →
      ∀ front b back, ballots = front ++ b :: back → b.digest = hash →
        ¬ b.Strands (after front (fresh module faults))) := by
  have hiff : _ ↔ Met (quorums hash ballots (fresh module faults)) :=
    no_strands_iff ballots rfl rfl
  refine ⟨hiff, fun hgrow => hiff.mpr (met_of_pairwise (fun quorum hquorum => ?_) hgrow)⟩
  exact (mem_quorums hquorum).1

/-! ### Two sets, one after the other -/

/-- A voter by its number. -/
def numberedVoter (n : Nat) : Address := .ofNatBE 20 n

/-- Four validators, whose quorum is three. -/
def largeSet (start : UInt64) : ValidatorEpoch :=
  ⟨start, [numberedVoter 1, numberedVoter 2, numberedVoter 3, numberedVoter 4]⟩

/-- Two validators, whose quorum is two. -/
def smallSet (start : UInt64) : ValidatorEpoch := ⟨start, [numberedVoter 5, numberedVoter 6]⟩

/-- The small set follows the large one. -/
def shrinkingSets : EpochSource := .announce (.announce .empty (largeSet 0)) (smallSet 200)

/-- The large set follows the small one. -/
def growingSets : EpochSource := .announce (.announce .empty (smallSet 0)) (largeSet 200)

/-- A ballot for one message under the set in force. -/
def numberedBallot (sets : EpochSource) (n : Nat) (height : UInt64) : Ballot :=
  ⟨.trial, ⟨height, 0⟩, .inForce sets.atHeight?, numberedVoter n, [0x6d]⟩

/-- Two of four have voted when the set becomes small. The third vote is one more than the two that
are enough then, yet neither it nor the fourth finds a quorum reached. -/
theorem shrunk_quorum_strands :
    (numberedBallot shrinkingSets 5 200).Strands (after [numberedBallot shrinkingSets 1 100,
        numberedBallot shrinkingSets 2 100] (fresh [] fun _ _ => none)) ∧
      (numberedBallot shrinkingSets 6 200).Strands (after [numberedBallot shrinkingSets 1 100,
        numberedBallot shrinkingSets 2 100, numberedBallot shrinkingSets 5 200]
          (fresh [] fun _ _ => none)) := by
  decide +kernel

/-- Where the set becomes large instead, no vote is stranded. -/
theorem grown_quorum_met :
    quorums (Sha256.hash [0x6d]) [numberedBallot growingSets 5 100,
        numberedBallot growingSets 1 200, numberedBallot growingSets 2 200]
        (fresh [] fun _ _ => none) = [2, 3, 3] ∧
      ∀ front b back, [numberedBallot growingSets 5 100, numberedBallot growingSets 1 200,
          numberedBallot growingSets 2 200] = front ++ b :: back →
        b.digest = Sha256.hash [0x6d] → ¬ b.Strands (after front (fresh [] fun _ _ => none)) :=
  ⟨by decide +kernel, (never_stranded_iff _ _ _ _).2 (by decide +kernel)⟩

end BridgeKernel.Vote
