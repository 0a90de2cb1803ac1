import BridgeKernel.Proofs.Store.Scan
import BridgeKernel.Proofs.Vote

/-!
# Ballots

A ballot asks for one vote, under a set and a quorum of its own, so that the quorum may change from
one vote for a message to the next. A run casts ballots on a store under any schedule of failures.
What a ballot does to the votes under a digest is one of two things: nothing, or one more signer.
-/

namespace BridgeKernel

open Transition

/-! ## The votes under a digest -/

namespace State

/-- The votes kept under a digest. -/
def votes? (s : State) (hash : Hash) : Option VoteRecord := s.lookup (.vote hash)

/-- The height at which a signer has voted under a digest. -/
def votedAt? (s : State) (hash : Hash) (signer : Address) : Option UInt64 :=
  (s.votes? hash).bind fun record => record.signers.find? signer

/-- The number of votes under a digest. -/
def voteCount (s : State) (hash : Hash) : Nat := (s.votes? hash).elim 0 VoteRecord.signerCount

/-- The height at which the votes under a digest reached a quorum. -/
def quorumHeight? (s : State) (hash : Hash) : Option UInt64 :=
  (s.votes? hash).bind VoteRecord.quorumReachedHeight

/-- The message voted for under a digest. -/
def votedMessage? (s : State) (hash : Hash) : Option Bytes :=
  (s.votes? hash).map VoteRecord.message

/-- Who is among the signers of the votes has voted. -/
theorem votedAt?_of_hasSigned {s : State} {message : Bytes} {signer : Address}
    (h : ((s.lookup (.vote (Sha256.hash message))).getD (VoteRecord.start message)).hasSigned
      signer = true) : s.votedAt? (Sha256.hash message) signer ≠ none := by
  rw [votedAt?, votes?]
  cases hfound : s.lookup (α := VoteRecord) (.vote (Sha256.hash message)) with
  | none =>
    rw [hfound] at h
    cases h
  | some record =>
    rw [hfound] at h
    exact Option.isSome_iff_ne_none.mp h

end State

namespace VoteRecord

variable {r : VoteRecord} {signer : Address} {height : UInt64} {quorum : Nat}

theorem cast_message (r : VoteRecord) (signer : Address) (height : UInt64) (quorum : Nat) :
    (r.cast signer height quorum).message = r.message := by
  unfold cast
  split <;> rfl

theorem cast_quorumReachedHeight (r : VoteRecord) (signer : Address) (height : UInt64)
    (quorum : Nat) : (r.cast signer height quorum).quorumReachedHeight =
      if r.reachedBy signer height quorum then some height else r.quorumReachedHeight := by
  unfold cast
  split <;> rfl

theorem find?_eq_none_of_new (hnew : r.hasSigned signer = false) :
    r.signers.find? signer = none := by
  rw [hasSigned, OrderedMap.contains] at hnew
  exact Option.isSome_eq_false_iff.mp hnew |> Option.isNone_iff_eq_none.mp

/-- A new signer is one more. -/
theorem signerCount_insert (hnew : r.hasSigned signer = false) :
    (r.signers.insert signer height).size = r.signerCount + 1 :=
  OrderedMap.size_insert_of_new (find?_eq_none_of_new hnew) height

/-- The vote that reaches a quorum makes its number full, and is the first to do so. -/
theorem reachedBy_iff (hnew : r.hasSigned signer = false) :
    r.reachedBy signer height quorum = true ↔
      r.signerCount + 1 = quorum ∧ r.quorumReachedHeight = none := by
  have hcount : (r.addVote signer height).signerCount = r.signerCount + 1 :=
    signerCount_insert hnew
  rw [reachedBy, hcount, Bool.and_eq_true, Bool.and_eq_true, decide_eq_true_eq, decide_eq_true_eq,
    Option.isNone_iff_eq_none]
  constructor
  · rintro ⟨⟨hbelow, hfull⟩, hfirst⟩
    exact ⟨by omega, hfirst⟩
  · rintro ⟨hfull, hfirst⟩
    exact ⟨⟨by omega, by omega⟩, hfirst⟩

end VoteRecord

namespace Vote.Casts

variable {ctx : BlockContext} {quorum : Nat} {signer : Address} {message : Bytes}
  {record : VoteRecord} {s t : State} (h : Casts ctx quorum signer message record s t)
include h

/-! What was kept before a counted vote, seen from the record that the vote is added to. -/

theorem votedAt?_eq_find? (a : Address) :
    s.votedAt? (Sha256.hash message) a = record.signers.find? a := by
  rw [State.votedAt?, State.votes?, h.found]
  cases s.lookup (α := VoteRecord) (.vote (Sha256.hash message)) <;> rfl

theorem voteCount_eq_signerCount : s.voteCount (Sha256.hash message) = record.signerCount := by
  rw [State.voteCount, State.votes?, h.found]
  cases s.lookup (α := VoteRecord) (.vote (Sha256.hash message)) <;> rfl

theorem quorumHeight?_eq : s.quorumHeight? (Sha256.hash message) = record.quorumReachedHeight := by
  rw [State.quorumHeight?, State.votes?, h.found]
  cases s.lookup (α := VoteRecord) (.vote (Sha256.hash message)) <;> rfl

/-! What is kept after it. -/

theorem votes?_eq : t.votes? (Sha256.hash message) =
    some (record.cast signer ctx.height quorum) := h.lookup_eq

theorem votedAt?_signer : s.votedAt? (Sha256.hash message) signer = none := by
  rw [h.votedAt?_eq_find?]
  exact VoteRecord.find?_eq_none_of_new h.new

/-- A counted vote adds its signer with the height of the vote and keeps the others. -/
theorem votedAt?_eq (a : Address) : t.votedAt? (Sha256.hash message) a =
    if a = signer then some ctx.height else s.votedAt? (Sha256.hash message) a := by
  rw [h.votedAt?_eq_find?, State.votedAt?, h.votes?_eq, Option.bind_some,
    VoteRecord.cast_signers]
  split
  · next ha => rw [ha, OrderedMap.find?_insert_self]
  · next ha => rw [OrderedMap.find?_insert_of_ne _ _ ha]

theorem voteCount_eq :
    t.voteCount (Sha256.hash message) = s.voteCount (Sha256.hash message) + 1 := by
  rw [h.voteCount_eq_signerCount, State.voteCount, h.votes?_eq, Option.elim_some,
    VoteRecord.signerCount, VoteRecord.cast_signers]
  exact VoteRecord.signerCount_insert h.new

/-- A counted vote reaches the quorum when it makes its number full for the first time. -/
theorem reachedBy_iff : record.reachedBy signer ctx.height quorum = true ↔
    s.voteCount (Sha256.hash message) + 1 = quorum ∧
      s.quorumHeight? (Sha256.hash message) = none := by
  rw [h.voteCount_eq_signerCount, h.quorumHeight?_eq]
  exact VoteRecord.reachedBy_iff h.new

theorem quorumHeight?_after : t.quorumHeight? (Sha256.hash message) =
    if record.reachedBy signer ctx.height quorum then some ctx.height
    else s.quorumHeight? (Sha256.hash message) := by
  rw [h.quorumHeight?_eq, State.quorumHeight?, h.votes?_eq, Option.bind_some,
    VoteRecord.cast_quorumReachedHeight]

theorem votes?_of_ne {hash : Hash} (hne : hash ≠ Sha256.hash message) :
    t.votes? hash = s.votes? hash :=
  h.changed.lookup_of_ne (by simpa using hne)

end Vote.Casts

/-! ## Ballots -/

/-- Who may vote, and how many votes make a quorum. -/
inductive Electorate where
  /-- A set with a quorum chosen by the caller. -/
  | given (epoch : ValidatorEpoch) (quorum : Nat)
  /-- The set that governs the current height, with its own quorum. -/
  | inForce (epochAt : UInt64 → Option ValidatorEpoch)

/-- The quorum at a height, if a set governs it. -/
def Electorate.quorum? : Electorate → UInt64 → Option Nat
  | .given _ quorum, _ => some quorum
  | .inForce epochAt, height => (epochAt height).map ValidatorEpoch.quorumSize

/-- A call that casts a vote. -/
structure Ballot where
  /-- Limits of the vote engine. -/
  config : VoteConfig
  /-- The block in which the vote is cast. -/
  ctx : BlockContext
  /-- Who may vote. -/
  electorate : Electorate
  /-- The voter. -/
  signer : Address
  /-- The message voted for. -/
  message : Bytes

namespace Ballot

/-- The digest under which the vote is kept. -/
def digest (b : Ballot) : Hash := Sha256.hash b.message

/-- The quorum under which the vote is cast. -/
def quorum? (b : Ballot) : Option Nat := b.electorate.quorum? b.ctx.height

/-- Casts the vote. -/
def cast (b : Ballot) : Transition VoteError Bool :=
  match b.electorate with
  | .given epoch quorum => Vote.cast b.config b.ctx epoch quorum b.signer b.message
  | .inForce epochAt => Vote.castInForce b.config b.ctx epochAt b.signer b.message

/-- A vote that was not refused was cast under a set and its quorum. -/
theorem cast_ok {b : Ballot} {reached : Bool} {s t : State} (h : b.cast s = (.ok reached, t)) :
    ∃ epoch quorum, b.quorum? = some quorum ∧
      Vote.cast b.config b.ctx epoch quorum b.signer b.message s = (.ok reached, t) := by
  obtain ⟨config, ctx, electorate, signer, message⟩ := b
  cases electorate with
  | given epoch quorum => exact ⟨epoch, quorum, rfl, h⟩
  | inForce epochAt =>
    obtain ⟨epoch, hepoch, hcast⟩ := Vote.castInForce_ok h
    exact ⟨epoch, epoch.quorumSize, congrArg (Option.map _) hepoch, hcast⟩

/-- A refused ballot leaves no trace. -/
theorem cast_atomic (b : Ballot) : b.cast.Atomic := by
  obtain ⟨config, ctx, electorate, signer, message⟩ := b
  cases electorate with
  | given epoch quorum => exact Vote.cast_atomic config ctx epoch quorum signer message
  | inForce epochAt => exact Vote.castInForce_atomic config ctx epochAt signer message

/-- Whether a ballot puts its signer among those who have voted. -/
def Counts (b : Ballot) (s : State) : Prop :=
  s.votedAt? b.digest b.signer = none ∧
    (b.cast s).2.votedAt? b.digest b.signer ≠ none

instance (b : Ballot) (s : State) : Decidable (b.Counts s) := inferInstanceAs (Decidable (_ ∧ _))

/-- Whether a counted ballot leaves as many votes as its quorum takes, and yet no quorum reached. -/
def Strands (b : Ballot) (s : State) : Prop :=
  b.Counts s ∧ (∃ quorum ∈ b.quorum?, quorum ≤ (b.cast s).2.voteCount b.digest) ∧
    (b.cast s).2.quorumHeight? b.digest = none

instance (b : Ballot) (s : State) : Decidable (b.Strands s) := inferInstanceAs (Decidable (_ ∧ _))

/-- What a ballot may come to. -/
inductive Comes (b : Ballot) (s : State) : Except VoteError Bool → State → Prop
  /-- It is refused. -/
  | refused {t : State} (e : VoteError) (unchanged : s.Untouched t) : Comes b s (.error e) t
  /-- Its signer has voted before. -/
  | repeated {t : State} (voted : s.votedAt? b.digest b.signer ≠ none)
    (unchanged : s.Untouched t) : Comes b s (.ok false) t
  /-- It is counted. -/
  | counted {t : State} {quorum : Nat} {record : VoteRecord} (under : b.quorum? = some quorum)
    (positive : 0 < quorum) (message : record.message = b.message)
    (casts : Vote.Casts b.ctx quorum b.signer b.message record s t) :
    Comes b s (.ok (record.reachedBy b.signer b.ctx.height quorum)) t

theorem comes (b : Ballot) (s : State) : b.Comes s (b.cast s).1 (b.cast s).2 := by
  rcases h : b.cast s with ⟨e | reached, t⟩
  · exact .refused e (b.cast_atomic s t e h)
  · obtain ⟨epoch, quorum, hunder, h⟩ := cast_ok h
    obtain ⟨-, hpositive, -, hmessage⟩ := Vote.cast_checked h
    rcases Vote.cast_ok h with ⟨rfl, hu, hsigned⟩ | ⟨record, hcasts, rfl⟩
    · exact .repeated (State.votedAt?_of_hasSigned hsigned) hu
    · rw [← hcasts.found] at hmessage
      exact .counted hunder hpositive hmessage hcasts

end Ballot

/-! ## Runs -/

/-- A ballot with its answer. -/
structure BallotEntry where
  /-- The ballot. -/
  ballot : Ballot
  /-- Whether it reached a quorum, or why it was refused. -/
  answer : Except VoteError Bool

namespace BallotEntry

/-- The height at which a ballot reached a quorum under a digest, if it did. -/
def reachedAt? (hash : Hash) (e : BallotEntry) : Option UInt64 :=
  match e.answer with
  | .ok true => if e.ballot.digest = hash then some e.ballot.ctx.height else none
  | _ => none

/-- The height at which a ballot of a signer was accepted under a digest, if it was. -/
def acceptedAt? (hash : Hash) (signer : Address) (e : BallotEntry) : Option UInt64 :=
  match e.answer with
  | .ok _ =>
    if e.ballot.digest = hash ∧ e.ballot.signer = signer then some e.ballot.ctx.height else none
  | .error _ => none

end BallotEntry

namespace Vote

/-- A state with an empty store, under a schedule of failures. -/
def fresh (module : Bytes) (faults : Nat → StoreOp → Option StoreFault) : State :=
  ⟨module, .empty, faults, 0⟩

/-- Casts ballots one after another. -/
def run : List Ballot → State → List BallotEntry × State
  | [], s => ([], s)
  | b :: rest, s =>
    let done := b.cast s
    let later := run rest done.2
    (⟨b, done.1⟩ :: later.1, later.2)

/-- The state after ballots. -/
def after (ballots : List Ballot) (s : State) : State := (run ballots s).2

/-- The heights at which ballots reached a quorum under a digest. -/
def firings (hash : Hash) (ballots : List Ballot) (s : State) : List UInt64 :=
  (run ballots s).1.filterMap (BallotEntry.reachedAt? hash)

/-- The heights at which ballots of a signer were accepted under a digest. -/
def acceptances (hash : Hash) (signer : Address) (ballots : List Ballot) (s : State) :
    List UInt64 :=
  (run ballots s).1.filterMap (BallotEntry.acceptedAt? hash signer)

/-- The quorums under which ballots were counted under a digest, in the order of counting. -/
def quorums (hash : Hash) : List Ballot → State → List Nat
  | [], _ => []
  | b :: rest, s =>
    (if b.digest = hash ∧ b.Counts s then b.quorum?.toList else []) ++
      quorums hash rest (b.cast s).2

variable {hash : Hash} {signer : Address} {s : State}

@[simp] theorem after_cons (b : Ballot) (ballots : List Ballot) (s : State) :
    after (b :: ballots) s = after ballots (b.cast s).2 := rfl

theorem after_append (front back : List Ballot) (s : State) :
    after (front ++ back) s = after back (after front s) := by
  induction front generalizing s with
  | nil => rfl
  | cons b front ih => exact ih (b.cast s).2

theorem after_snoc (front : List Ballot) (b : Ballot) (s : State) :
    after (front ++ [b]) s = (b.cast (after front s)).2 := after_append front [b] s

theorem quorums_append (front back : List Ballot) (s : State) :
    quorums hash (front ++ back) s =
      quorums hash front s ++ quorums hash back (after front s) := by
  induction front generalizing s with
  | nil => rfl
  | cons b front ih => rw [List.cons_append, quorums, ih, quorums, List.append_assoc]; rfl

/-- What is gathered from the entries of a run begins with what the first entry gives. -/
theorem filterMap_run_cons {β : Type} (f : BallotEntry → Option β) (b : Ballot)
    (ballots : List Ballot) (s : State) : (run (b :: ballots) s).1.filterMap f =
      (f ⟨b, (b.cast s).1⟩).toList ++ (run ballots (b.cast s).2).1.filterMap f := by
  rw [run, List.filterMap_cons]
  cases f ⟨b, (b.cast s).1⟩ <;> rfl

theorem firings_cons (b : Ballot) (ballots : List Ballot) (s : State) :
    firings hash (b :: ballots) s =
      (BallotEntry.reachedAt? hash ⟨b, (b.cast s).1⟩).toList ++
        firings hash ballots (b.cast s).2 := filterMap_run_cons _ b ballots s

end Vote

/-- What a ballot with its answer does to the votes under a digest. -/
inductive BallotEntry.Affects (hash : Hash) (e : BallotEntry) (s t : State) : Prop
  /-- They stay, and if the ballot was accepted under the digest, its signer is among them. -/
  | nothing (same : t.votes? hash = s.votes? hash) (quiet : e.reachedAt? hash = none)
    (known : ∀ signer, e.acceptedAt? hash signer ≠ none → s.votedAt? hash signer ≠ none)
  /-- The ballot is counted among them. -/
  | counted {quorum : Nat} {record : VoteRecord} (here : e.ballot.digest = hash)
    (under : e.ballot.quorum? = some quorum) (positive : 0 < quorum)
    (message : record.message = e.ballot.message)
    (casts : Vote.Casts e.ballot.ctx quorum e.ballot.signer e.ballot.message record s t)
    (answer : e.answer = .ok (record.reachedBy e.ballot.signer e.ballot.ctx.height quorum))

namespace Ballot

variable {b : Ballot} {hash : Hash} {s t : State} {r : Except VoteError Bool}

/-- A ballot does nothing to the votes under other digests. -/
theorem Comes.affects_of_ne (h : b.Comes s r t) (hne : b.digest ≠ hash) :
    BallotEntry.Affects hash ⟨b, r⟩ s t := by
  have hsame : t.votes? hash = s.votes? hash := by
    cases h with
    | refused e hu => exact hu.lookup_eq _
    | repeated _ hu => exact hu.lookup_eq _
    | counted _ _ _ hcasts => exact hcasts.votes?_of_ne hne.symm
  refine .nothing hsame ?_ fun signer haccepted => absurd ?_ haccepted
  · rcases r with e | _ | _
    · rfl
    · rfl
    · exact if_neg hne
  · rcases r with e | reached
    · rfl
    · exact if_neg fun here => hne here.1

theorem Comes.affects (h : b.Comes s r t) (hash : Hash) :
    BallotEntry.Affects hash ⟨b, r⟩ s t := by
  by_cases hhash : b.digest = hash
  · cases h with
    | refused e hu => exact .nothing (hu.lookup_eq _) rfl fun _ haccepted => absurd rfl haccepted
    | repeated hvoted hu =>
      refine .nothing (hu.lookup_eq _) rfl fun signer haccepted => ?_
      by_cases here : b.digest = hash ∧ b.signer = signer
      · obtain ⟨rfl, rfl⟩ := here
        exact hvoted
      · exact absurd (if_neg here) haccepted
    | counted hunder hpositive hmessage hcasts =>
      exact .counted hhash hunder hpositive hmessage hcasts rfl
  · exact h.affects_of_ne hhash

/-- What casting a ballot does to the votes under a digest. -/
theorem affects (b : Ballot) (hash : Hash) (s : State) :
    BallotEntry.Affects hash ⟨b, (b.cast s).1⟩ s (b.cast s).2 := (b.comes s).affects hash

end Ballot

/-! ## What a ballot brings, step by step -/

namespace BallotEntry.Affects

variable {e : BallotEntry} {hash : Hash} {s t : State} (h : e.Affects hash s t)
include h

/-- A voter keeps the height of its first accepted ballot. -/
theorem votedAt?_eq (signer : Address) :
    t.votedAt? hash signer = (s.votedAt? hash signer).or (e.acceptedAt? hash signer) := by
  cases h with
  | nothing same quiet known =>
    rw [State.votedAt?, same]
    change s.votedAt? hash signer = _
    cases hvoted : s.votedAt? hash signer with
    | some height => rfl
    | none =>
      by_contra haccepted
      exact known signer (fun hnone => haccepted hnone.symm) hvoted
  | counted here under positive message casts answer =>
    subst here
    change t.votedAt? (Sha256.hash e.ballot.message) signer = _
    rw [casts.votedAt?_eq, acceptedAt?, answer]
    by_cases hsigner : signer = e.ballot.signer
    · subst hsigner
      have hnew : s.votedAt? e.ballot.digest e.ballot.signer = none := casts.votedAt?_signer
      rw [hnew, if_pos rfl]
      exact (if_pos ⟨rfl, rfl⟩).symm
    · rw [if_neg hsigner]
      dsimp only
      rw [if_neg fun here => hsigner here.2.symm, Option.or_none]
      rfl

/-- The height of the quorum is that of the ballot that reached it first. -/
theorem quorumHeight?_eq :
    t.quorumHeight? hash = (s.quorumHeight? hash).or (e.reachedAt? hash) := by
  cases h with
  | nothing same quiet known =>
    rw [quiet, Option.or_none, State.quorumHeight?, same]
    rfl
  | counted here under positive message casts answer =>
    subst here
    change t.quorumHeight? (Sha256.hash e.ballot.message) = _
    rw [casts.quorumHeight?_after, reachedAt?, answer]
    cases hreached : VoteRecord.reachedBy _ e.ballot.signer e.ballot.ctx.height _ with
    | false => exact (Option.or_none).symm
    | true =>
      have hfirst : s.quorumHeight? e.ballot.digest = none := (casts.reachedBy_iff.mp hreached).2
      rw [hfirst]
      exact (if_pos rfl).symm

/-- No ballot reaches a quorum once one has been reached. -/
theorem reachedAt?_of_final (hfinal : s.quorumHeight? hash ≠ none) :
    e.reachedAt? hash = none := by
  cases h with
  | nothing same quiet known => exact quiet
  | counted here under positive message casts answer =>
    subst here
    rw [reachedAt?, answer]
    cases hreached : VoteRecord.reachedBy _ e.ballot.signer e.ballot.ctx.height _ with
    | false => rfl
    | true => exact absurd (casts.reachedBy_iff.mp hreached).2 hfinal

/-- The message stays. -/
theorem votedMessage?_of_some {message : Bytes} (hmessage : s.votedMessage? hash = some message) :
    t.votedMessage? hash = some message := by
  cases h with
  | nothing same quiet known => rwa [State.votedMessage?, same]
  | counted here under positive hvoted casts answer =>
    subst here
    obtain ⟨record, hrecord, rfl⟩ := Option.map_eq_some_iff.mp hmessage
    have hfound := casts.found
    change _ = (s.votes? e.ballot.digest).getD _ at hfound
    rw [hrecord, Option.getD_some] at hfound
    change (t.votes? (Sha256.hash e.ballot.message)).map _ = _
    rw [casts.votes?_eq, Option.map_some, VoteRecord.cast_message, hfound]

end BallotEntry.Affects

namespace Ballot

variable {b : Ballot} {hash : Hash} {s : State}

/-- A counted ballot as it shows in the votes under its digest. -/
structure Tallied (b : Ballot) (quorum : Nat) (s : State) : Prop where
  /-- It is counted. -/
  counts : b.Counts s
  /-- Its quorum. -/
  under : b.quorum? = some quorum
  /-- A quorum takes at least one vote. -/
  positive : 0 < quorum
  /-- It is one more vote. -/
  count : (b.cast s).2.voteCount b.digest = s.voteCount b.digest + 1
  /-- It reaches the quorum when it makes its number full for the first time. -/
  reaches : (b.cast s).1 = .ok true ↔
    s.voteCount b.digest + 1 = quorum ∧ s.quorumHeight? b.digest = none
  /-- Afterwards a quorum has been reached if one had been, or if it makes its number full. -/
  final : (b.cast s).2.quorumHeight? b.digest ≠ none ↔
    s.quorumHeight? b.digest ≠ none ∨ s.voteCount b.digest + 1 = quorum

/-- A ballot that is not counted under a digest leaves the votes there alone; a counted one is
tallied. -/
theorem tallied_or (b : Ballot) (hash : Hash) (s : State) :
    ((b.cast s).2.votes? hash = s.votes? hash ∧ (b.digest = hash → (b.cast s).1 ≠ .ok true) ∧
        ¬ (b.digest = hash ∧ b.Counts s)) ∨
      b.digest = hash ∧ ∃ quorum, b.Tallied quorum s := by
  cases b.affects hash s with
  | nothing same quiet known =>
    refine .inl ⟨same, fun here hreached => ?_, fun ⟨here, hcounts⟩ => ?_⟩
    · rw [BallotEntry.reachedAt?] at quiet
      dsimp only at quiet
      rw [hreached] at quiet
      dsimp only at quiet
      rw [if_pos here] at quiet
      cases quiet
    · subst here
      refine hcounts.2 ?_
      rw [State.votedAt?, same]
      exact hcounts.1
  | @counted quorum record here under positive message casts answer =>
    subst here
    have hvoted : (b.cast s).2.votedAt? b.digest b.signer = some b.ctx.height :=
      (casts.votedAt?_eq b.signer).trans (if_pos rfl)
    have hreached : record.reachedBy b.signer b.ctx.height quorum = true ↔
        s.voteCount b.digest + 1 = quorum ∧ s.quorumHeight? b.digest = none := casts.reachedBy_iff
    refine .inr ⟨rfl, quorum, ⟨casts.votedAt?_signer, ?_⟩, under, positive, casts.voteCount_eq, ?_,
      ?_⟩
    · rw [hvoted]
      nofun
    · have hanswer : (b.cast s).1 = .ok (record.reachedBy b.signer b.ctx.height quorum) := answer
      rw [hanswer, Except.ok.injEq, hreached]
    · have hafter : (b.cast s).2.quorumHeight? b.digest = if record.reachedBy b.signer b.ctx.height
          quorum then some b.ctx.height else s.quorumHeight? b.digest := casts.quorumHeight?_after
      rw [hafter]
      by_cases hfull : record.reachedBy b.signer b.ctx.height quorum = true
      · rw [if_pos hfull]
        exact ⟨fun _ => .inr (hreached.mp hfull).1, nofun⟩
      · rw [if_neg hfull]
        refine ⟨.inl, ?_⟩
        rintro (hbefore | hcount)
        · exact hbefore
        · exact fun hnone => hfull (hreached.mpr ⟨hcount, hnone⟩)

end Ballot

end BridgeKernel
