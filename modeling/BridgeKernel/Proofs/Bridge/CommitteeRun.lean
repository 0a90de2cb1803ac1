import BridgeKernel.Proofs.Bridge.Run
import BridgeKernel.Proofs.Committee.Succession
import Mathlib.Data.List.Induction

/-!
# The line of committees of a chain

The accepted operations on a chain's committee stand in the history of a run. They make a line that
begins with the one that was installed and goes on with successors, each named by a message that the
committee before it has witnessed, and the record in the store is the last of the line. Heights grow
along the line, so a message that has been used names a height that is no longer ahead.
-/

namespace BridgeKernel

/-! ## Changes of a committee -/

/-- An accepted operation on a chain's committee. -/
inductive CommitteeChange where
  /-- The first committee was installed. -/
  | installed (committee : Committee)
  /-- A message named a successor. -/
  | succeeded (bytes : Bytes) (next : Committee)

/-- The committee in office after a change. -/
def CommitteeChange.committee : CommitteeChange → Committee
  | .installed committee => committee
  | .succeeded _ next => next

/-- A line of committees: the first was installed, and every other was named by a message that the
one before it had witnessed. -/
inductive CommitteeLine (chain : ChainId) : List CommitteeChange → Prop
  /-- No committee yet. -/
  | empty : CommitteeLine chain []
  /-- The first committee. -/
  | installed {committee : Committee} (usable : committee.Usable) :
    CommitteeLine chain [.installed committee]
  /-- One more committee. -/
  | succeeded {changes : List CommitteeChange} {before : CommitteeChange} {bytes : Bytes}
    {message : CommitteeMessage} {next : Committee} (line : CommitteeLine chain changes)
    (last : changes.getLast? = some before)
    (decoded : CommitteeMessage.decode bytes = .ok message)
    (succeeds : before.committee.Succeeds chain message next) :
    CommitteeLine chain (changes ++ [.succeeded bytes next])

namespace CommitteeLine

variable {chain : ChainId} {changes : List CommitteeChange}

/-- Every committee of a line is usable. -/
theorem usable (line : CommitteeLine chain changes) :
    ∀ change ∈ changes, change.committee.Usable := by
  induction line with
  | empty => exact nofun
  | installed usable => exact List.forall_mem_singleton.mpr usable
  | succeeded _ _ _ succeeds ih =>
    exact List.forall_mem_append.mpr ⟨ih, List.forall_mem_singleton.mpr succeeds.usable⟩

/-- Heights grow along a line. -/
theorem heights_lt (line : CommitteeLine chain changes) :
    changes.Pairwise fun a b => a.committee.height < b.committee.height := by
  induction line with
  | empty => exact .nil
  | installed => exact List.pairwise_singleton _ _
  | @succeeded changes before bytes message next _ last _ succeeds ih =>
    obtain ⟨earlier, rfl⟩ := List.getLast?_eq_some_iff.mp last
    have hnext : before.committee.height < next.height := succeeds.height_lt
    refine List.pairwise_append.mpr ⟨ih, List.pairwise_singleton _ _, fun a ha b hb => ?_⟩
    obtain rfl := List.mem_singleton.mp hb
    rcases List.mem_append.mp ha with ha | ha
    · have hbefore := (List.pairwise_append.mp ih).2.2 a ha before List.mem_cons_self
      exact UInt64.lt_trans hbefore hnext
    · rw [List.mem_singleton.mp ha]
      exact hnext

/-- The last committee of a line took over no earlier than any other. -/
theorem height_le_last (line : CommitteeLine chain changes) {change last : CommitteeChange}
    (hchange : change ∈ changes) (hlast : changes.getLast? = some last) :
    change.committee.height ≤ last.committee.height := by
  obtain ⟨earlier, rfl⟩ := List.getLast?_eq_some_iff.mp hlast
  rcases List.mem_append.mp hchange with hearlier | hself
  · have hlt := (List.pairwise_append.mp line.heights_lt).2.2 change hearlier last
      List.mem_cons_self
    exact UInt64.le_of_lt hlt
  · rw [List.mem_singleton.mp hself]
    exact UInt64.le_refl _

/-- A message that was used is for the chain and states the height of the committee it named. -/
theorem used (line : CommitteeLine chain changes) {bytes : Bytes} {next : Committee}
    (h : .succeeded bytes next ∈ changes) :
    ∃ message, CommitteeMessage.decode bytes = .ok message ∧ message.body.chainId = chain ∧
      message.body.height = next.height := by
  induction line with
  | empty => cases h
  | installed => cases List.mem_singleton.mp h
  | succeeded _ _ decoded succeeds ih =>
    rcases List.mem_append.mp h with h | h
    · exact ih h
    · cases List.mem_singleton.mp h
      exact ⟨_, decoded, succeeds.chain_eq, succeeds.height_eq.symm⟩

end CommitteeLine

/-- The change that a call made to a chain's committee, if it made one. -/
def BridgeEntry.committeeChange? (chain : ChainId) : BridgeEntry → Option CommitteeChange
  | ⟨⟨_, .installCommittee c committee⟩, .ok _⟩ =>
    if c = chain then some (.installed committee) else none
  | ⟨⟨_, .rotateCommittee c bytes⟩, .ok next⟩ =>
    if c = chain then some (.succeeded bytes next) else none
  | _ => none

/-- A refused call makes no change. -/
theorem BridgeEntry.committeeChange?_of_error {chain : ChainId} {e : BridgeEntry}
    {cause : BridgeError} (h : e.answer = .error cause) : e.committeeChange? chain = none := by
  obtain ⟨⟨config, op⟩, answer⟩ := e
  dsimp only at h
  subst h
  cases op <;> rfl

/-- Nor does a call that may not write the record. -/
theorem BridgeEntry.committeeChange?_of_not_touches {chain : ChainId} {e : BridgeEntry}
    (h : ¬ e.request.op.Touches (.committee chain)) : e.committeeChange? chain = none := by
  obtain ⟨⟨config, op⟩, answer⟩ := e
  cases op with
  | installCommittee c committee =>
    cases answer with
    | error cause => rfl
    | ok done => exact if_neg fun hc => h (congrArg RecordKey.committee hc.symm)
  | rotateCommittee c bytes =>
    cases answer with
    | error cause => rfl
    | ok next => exact if_neg fun hc => h (congrArg RecordKey.committee hc.symm)
  | _ => rfl

/-- The committee of a chain around a call, with the change that the call made. -/
inductive CommitteeStep (chain : ChainId) (s t : State) : Option CommitteeChange → Prop
  /-- The record stays as it was. -/
  | kept (same : t.raw? (.committee chain) = s.raw? (.committee chain)) :
    CommitteeStep chain s t none
  /-- There was no record, and the first committee was stored. -/
  | installed {committee : Committee} (before : s.raw? (.committee chain) = none)
    (usable : committee.Usable) (stored : t.lookup (.committee chain) = some committee) :
    CommitteeStep chain s t (some (.installed committee))
  /-- The successor of the committee in office was stored. -/
  | succeeded {bytes : Bytes} {current next : Committee} {message : CommitteeMessage}
    (before : s.lookup (.committee chain) = some current)
    (decoded : CommitteeMessage.decode bytes = .ok message)
    (succeeds : current.Succeeds chain message next)
    (stored : t.lookup (.committee chain) = some next) :
    CommitteeStep chain s t (some (.succeeded bytes next))

/-- A refused operation keeps the record, so it needs to be looked at only where it succeeds. -/
theorem CommitteeStep.of_atomic {α : Type} {x : Transition CommitteeError α} {chain : ChainId}
    {s : State} (change? : Except BridgeError α → Option CommitteeChange) (hx : x.Atomic)
    (herror : ∀ e, change? (.error e) = none)
    (hok : ∀ a t, x s = (.ok a, t) → CommitteeStep chain s t (change? (.ok a))) :
    CommitteeStep chain s (x.mapError BridgeError.committee s).2
      (change? (x.mapError BridgeError.committee s).1) := by
  rcases hr : x s with ⟨e | a, t⟩
  · have hu := hx s t e hr
    simp only [Transition.mapError, hr, herror]
    exact .kept (hu.raw?_eq _)
  · simp only [Transition.mapError, hr]
    exact hok a t hr

/-- Every call either makes a change that it answers for, or leaves the record as it was. -/
theorem BridgeRequest.perform_committee (request : BridgeRequest) (bridge : Bridge)
    (chain : ChainId) :
    CommitteeStep chain bridge.state (request.perform bridge).2.state
      (BridgeEntry.committeeChange? chain ⟨request, (request.perform bridge).1⟩) := by
  by_cases htouches : request.op.Touches (.committee chain)
  · obtain ⟨config, op⟩ := request
    cases op with
    | installCommittee c committee =>
      obtain rfl := RecordKey.committee.inj htouches
      refine CommitteeStep.of_atomic
        (fun answer => BridgeEntry.committeeChange? chain
          ⟨⟨config, .installCommittee chain committee⟩, answer⟩)
        (CommitteeStore.install_atomic chain committee) (fun _ => rfl) fun _ t h => ?_
      obtain ⟨hnone, husable, hstored⟩ := CommitteeStore.install_ok h
      rw [BridgeEntry.committeeChange?, if_pos rfl]
      exact .installed hnone husable hstored
    | rotateCommittee c bytes =>
      obtain rfl := RecordKey.committee.inj htouches
      refine CommitteeStep.of_atomic
        (fun answer => BridgeEntry.committeeChange? chain
          ⟨⟨config, .rotateCommittee chain bytes⟩, answer⟩)
        (CommitteeStore.rotate_atomic chain bytes) (fun _ => rfl) fun next t h => ?_
      obtain ⟨current, message, hcurrent, hdecode, hsucceeds, hstored⟩ :=
        CommitteeStore.rotate_ok h
      rw [BridgeEntry.committeeChange?, if_pos rfl]
      exact .succeeded hcurrent hdecode hsucceeds hstored
    | propose => rcases htouches with ⟨_, h⟩ | ⟨_, _, h⟩ <;> cases h
    | _ => exact htouches.elim
  · rw [BridgeEntry.committeeChange?_of_not_touches htouches]
    exact .kept ((request.perform_writes bridge).raw?_eq htouches)

/-- The message that a call used to replace a committee, if it did so. -/
def BridgeEntry.usedMessage? : BridgeEntry → Option Bytes
  | ⟨⟨_, .rotateCommittee _ bytes⟩, .ok _⟩ => some bytes
  | _ => none

/-- Whoever used a message made a change with it. -/
theorem BridgeEntry.exists_change_of_used {e : BridgeEntry} {bytes : Bytes}
    (h : e.usedMessage? = some bytes) :
    ∃ chain next, e.committeeChange? chain = some (.succeeded bytes next) := by
  obtain ⟨⟨config, op⟩, answer⟩ := e
  cases op with
  | rotateCommittee c message =>
    cases answer with
    | error cause => cases h
    | ok next =>
      cases h
      exact ⟨c, next, if_pos rfl⟩
  | _ => cases h

namespace Bridge

variable {chain : ChainId}

/-! ## Runs -/

/-- The changes that a run made to a chain's committee, in order. -/
def committeeChanges (chain : ChainId) (requests : List BridgeRequest) (bridge : Bridge) :
    List CommitteeChange :=
  (history requests bridge).filterMap (BridgeEntry.committeeChange? chain)

/-- The messages that replaced a committee, of whatever chain, in order. -/
def usedMessages (requests : List BridgeRequest) (bridge : Bridge) : List Bytes :=
  (history requests bridge).filterMap BridgeEntry.usedMessage?

/-- The committee of a chain around a call that is made after others. -/
theorem committeeStep_after (requests : List BridgeRequest) (request : BridgeRequest)
    (bridge : Bridge) (chain : ChainId) :
    CommitteeStep chain (after requests bridge) (after (requests ++ [request]) bridge)
      ((entryAfter requests request bridge).committeeChange? chain) := by
  rw [after_append]
  exact request.perform_committee (run requests bridge).2 chain

/-- The accepted operations on a chain's committee make a line, and the record is its last. -/
theorem committee_line (module : Bytes) (faults : Nat → StoreOp → Option StoreFault)
    (requests : List BridgeRequest) (chain : ChainId) :
    CommitteeLine chain (committeeChanges chain requests (empty module faults)) ∧
      (after requests (empty module faults)).lookup (.committee chain) =
        (committeeChanges chain requests (empty module faults)).getLast?.map
          CommitteeChange.committee := by
  induction requests using List.reverseRecOn with
  | nil => exact ⟨.empty, rfl⟩
  | append_singleton front request ih =>
    obtain ⟨line, hlast⟩ := ih
    have hstep := committeeStep_after front request (empty module faults) chain
    rw [committeeChanges, filterMap_history_snoc]
    rw [committeeChanges] at line hlast
    revert hstep
    generalize (entryAfter front request (empty module faults)).committeeChange? chain = change?
    intro hstep
    cases hstep with
    | kept same =>
      rw [Option.toList_none, List.append_nil, State.lookup_congr same]
      exact ⟨line, hlast⟩
    | installed before usable stored =>
      -- No record is there, so the line has not begun.
      rw [State.lookup_of_raw?_none before] at hlast
      have hnone := List.getLast?_eq_none_iff.mp (Option.map_eq_none_iff.mp hlast.symm)
      rw [hnone]
      exact ⟨.installed usable, stored⟩
    | succeeded before decoded succeeds stored =>
      rw [before] at hlast
      obtain ⟨change, hchange, rfl⟩ := Option.map_eq_some_iff.mp hlast.symm
      refine ⟨.succeeded line hchange decoded succeeds, ?_⟩
      rw [Option.toList_some, List.getLast?_concat]
      exact stored

/-- A message that was used replaced the committee of some chain. -/
theorem exists_change_of_mem_usedMessages {requests : List BridgeRequest} {bridge : Bridge}
    {bytes : Bytes} (h : bytes ∈ usedMessages requests bridge) :
    ∃ chain next, .succeeded bytes next ∈ committeeChanges chain requests bridge := by
  obtain ⟨e, he, hused⟩ := List.mem_filterMap.mp h
  obtain ⟨chain, next, hchange⟩ := BridgeEntry.exists_change_of_used hused
  exact ⟨chain, next, List.mem_filterMap.mpr ⟨e, he, hchange⟩⟩

/-- Two messages say different things. -/
def MessagesDiffer (bytes bytes' : Bytes) : Prop :=
  ∀ message message', CommitteeMessage.decode bytes = .ok message →
    CommitteeMessage.decode bytes' = .ok message' → message.body ≠ message'.body

/-- Whoever uses a message finds that it says something else than any message used before: it is
later than the committee of its chain, which is as late as any message used for the chain. -/
theorem messagesDiffer_of_used {module : Bytes} {faults : Nat → StoreOp → Option StoreFault}
    {requests : List BridgeRequest} {request : BridgeRequest} {bytes bytes' : Bytes}
    (hbytes : bytes ∈ usedMessages requests (empty module faults))
    (hbytes' : (entryAfter requests request (empty module faults)).usedMessage? = some bytes') :
    MessagesDiffer bytes bytes' := by
  intro message message' hdecode hdecode' hbody
  obtain ⟨chain, next, hchange⟩ := exists_change_of_mem_usedMessages hbytes
  obtain ⟨chain', next', hchange'⟩ := BridgeEntry.exists_change_of_used hbytes'
  obtain ⟨line, hlast⟩ := committee_line module faults requests chain
  obtain ⟨used, hused, hchain, hheight⟩ := line.used hchange
  obtain rfl := Except.ok.inj (hdecode.symm.trans hused)
  have hstep := committeeStep_after requests request (empty module faults) chain'
  rw [hchange'] at hstep
  cases hstep with
  | @succeeded _ current _ found before decoded succeeds stored =>
    obtain rfl := Except.ok.inj (hdecode'.symm.trans decoded)
    obtain rfl : chain' = chain := by rw [← succeeds.chain_eq, ← hbody, hchain]
    rw [before] at hlast
    obtain ⟨last, hmem, rfl⟩ := Option.map_eq_some_iff.mp hlast.symm
    have hle : next.height ≤ last.committee.height := line.height_le_last hchange hmem
    have hlater := succeeds.later
    rw [← hbody, hheight] at hlater
    exact UInt64.not_le.mpr hlater hle

/-- No two messages that were used say the same. -/
theorem usedMessages_differ (module : Bytes) (faults : Nat → StoreOp → Option StoreFault)
    (requests : List BridgeRequest) :
    (usedMessages requests (empty module faults)).Pairwise MessagesDiffer := by
  induction requests using List.reverseRecOn with
  | nil => exact .nil
  | append_singleton front request ih =>
    rw [usedMessages, filterMap_history_snoc]
    cases hused : (entryAfter front request (empty module faults)).usedMessage? with
    | none =>
      rw [Option.toList_none, List.append_nil]
      exact ih
    | some bytes' =>
      refine List.pairwise_append.mpr ⟨ih, List.pairwise_singleton _ _, fun bytes hbytes b hb => ?_⟩
      obtain rfl := List.mem_singleton.mp hb
      exact messagesDiffer_of_used hbytes hused

/-- No message was used twice. -/
theorem usedMessages_nodup (module : Bytes) (faults : Nat → StoreOp → Option StoreFault)
    (requests : List BridgeRequest) : (usedMessages requests (empty module faults)).Nodup := by
  have hdiffer := usedMessages_differ module faults requests
  refine hdiffer.imp_of_mem fun {bytes bytes'} hbytes _ hdiffers heq => ?_
  obtain ⟨chain, next, hchange⟩ := exists_change_of_mem_usedMessages hbytes
  obtain ⟨line, -⟩ := committee_line module faults requests chain
  obtain ⟨message, hdecode, -⟩ := line.used hchange
  exact hdiffers message message hdecode (heq ▸ hdecode) rfl

/-- What can be said of the committee of a chain after a run, and of one more call. -/
structure CommitteeSuccession (chain : ChainId) (requests : List BridgeRequest)
    (bridge : Bridge) : Prop where
  /-- The first committee was installed, and each other was named by a message for the chain that the
  one before it had witnessed, and took over at the message's height. -/
  line : CommitteeLine chain (committeeChanges chain requests bridge)
  /-- A record is there once a committee has been installed. -/
  present : ((after requests bridge).raw? (.committee chain)).isSome =
    !(committeeChanges chain requests bridge).isEmpty
  /-- The record is the last committee of the line. -/
  current : (after requests bridge).lookup (.committee chain) =
    (committeeChanges chain requests bridge).getLast?.map CommitteeChange.committee
  /-- Heights grow along the line. -/
  heights : (committeeChanges chain requests bridge).Pairwise
    fun a b => a.committee.height < b.committee.height
  /-- Every committee of the line passes the check of its keys. -/
  usable : ∀ change ∈ committeeChanges chain requests bridge,
    change.committee.Usable ∧ ∃ keys, change.committee.parseKeys = .ok keys
  /-- A call that is not an accepted operation on the committee leaves the record as it was. -/
  kept : ∀ request, (entryAfter requests request bridge).committeeChange? chain = none →
    (after (requests ++ [request]) bridge).raw? (.committee chain) =
      (after requests bridge).raw? (.committee chain)
  /-- So does every call that is refused. -/
  refused : ∀ request cause, (entryAfter requests request bridge).answer = .error cause →
    (after (requests ++ [request]) bridge).raw? (.committee chain) =
      (after requests bridge).raw? (.committee chain)
  /-- No message is used twice, on whatever chains and with whatever signatures. -/
  once : (usedMessages requests bridge).Nodup ∧
    (usedMessages requests bridge).Pairwise MessagesDiffer

/-- Over every run from an empty store the committee of a chain is installed once and then replaced
only by successors that the committee in office has witnessed, at growing heights; no message is used
twice, and a refused call changes nothing. -/
theorem committee_succession (module : Bytes) (faults : Nat → StoreOp → Option StoreFault)
    (requests : List BridgeRequest) (chain : ChainId) :
    CommitteeSuccession chain requests (empty module faults) := by
  obtain ⟨line, hlast⟩ := committee_line module faults requests chain
  have hform := wellFormed_after requests module faults
  have hkept (request : BridgeRequest)
      (hnone : (entryAfter requests request (empty module faults)).committeeChange? chain = none) :
      (after (requests ++ [request]) (empty module faults)).raw? (.committee chain) =
        (after requests (empty module faults)).raw? (.committee chain) := by
    have hstep := committeeStep_after requests request (empty module faults) chain
    rw [hnone] at hstep
    cases hstep with
    | kept same => exact same
  constructor
  case line => exact line
  case present =>
    rw [hform.lookup_isSome (RecordKey.committee_holds chain), hlast, Option.isSome_map]
    cases committeeChanges chain requests (empty module faults) with
    | nil => rfl
    | cons change changes => simp
  case current => exact hlast
  case heights => exact line.heights_lt
  case usable =>
    intro change hchange
    have husable := line.usable change hchange
    exact ⟨husable, Committee.usable_iff.mp husable⟩
  case kept => exact hkept
  case refused =>
    intro request cause herror
    exact hkept request (BridgeEntry.committeeChange?_of_error herror)
  case once =>
    exact ⟨usedMessages_nodup module faults requests, usedMessages_differ module faults requests⟩

/-! ### A handover -/

/-- A message in which the holder of the generator's secret names the holder of its double. -/
def handover : CommitteeMessage where
  body := ⟨1, 1, 5, .ofNatBE 32 9, some ⟨0, 1, [Bytes.ofNatBE 33
    0x02c6047f9441ed7d6d3045406e95c07cd85c778e4b8cef3ca7abac09b95c709ee5]⟩⟩
  witness := [⟨0, Bytes.ofNatBE 64 0x5cbdf0646e5db4eaa398f365f2ea7a0e3d419b7e0330e39ce92bddedcac4f9bc59fb4ff9d9081d5247c3e443c1aa1a33228a13bc96c88cec773479725a77880d⟩]

/-- The message replaces the first committee at its height, and is of no use afterwards. -/
example :
    let requests : List BridgeRequest :=
      [⟨.trial, .installCommittee 1 ⟨0, 1, [CommitteeStore.generatorKey 2]⟩⟩,
        ⟨.trial, .rotateCommittee 1 (Record.write handover)⟩,
        ⟨.trial, .rotateCommittee 1 (Record.write handover)⟩]
    (committeeChanges 1 requests (empty [] fun _ _ => none)).map (·.committee.height) = [0, 5] := by
  decide +kernel

end Bridge

end BridgeKernel
