import BridgeKernel.Proofs.Bridge.HeaderOrder
import BridgeKernel.Proofs.Header.Reports

/-!
# Reports after a run

Whatever has been called, the report of a batch counts the turns that its headers took: those that
were stored, those that were there, and those that made the canonical chain leave its tip.
-/

namespace BridgeKernel

open LightClient

namespace Bridge

/-- After every run the difficulties of headers above the genesis are not zero. -/
theorem rising_after {module : Bytes} {faults : Nat → StoreOp → Option StoreFault}
    {requests : List BridgeRequest}
    (hlow : ∀ request ∈ requests, ∀ header ∈ request.op.headers, header.Low) (chain : ChainId) :
    ((after requests (empty module faults)).memory chain).Rising :=
  allAbove_after hlow fun _ _ _ _ _ _ _ hverified => hverified.difficulty_pos

/-- After every run with headers below the largest height, a batch of such headers that comes to a
report has taken turns of its headers up to the refused one, each between the states before and
after its header was taken in. The report counts those in which a header was stored and those in
which it was stored before, and of the former it counts as reorganisations exactly those after which
the tip before is no longer canonical. The height that it tells is that of the tip. -/
theorem batch_report_counts (module : Bytes) (faults : Nat → StoreOp → Option StoreFault)
    (requests : List BridgeRequest)
    (hlow : ∀ request ∈ requests, ∀ header ∈ request.op.headers, header.Low) (chain : ChainId)
    (config : HeaderSyncConfig) (ctx : BlockContext) (headers : List Header)
    (hheaders : ∀ header ∈ headers, header.Low) (outcome : BatchOutcome) (t : State)
    (h : LightClient.syncBatch config ctx chain headers (after requests (empty module faults)) =
      (.ok outcome, t)) :
    ∃ record g turns tip,
      turns = batchTurns config ctx chain headers (after requests (empty module faults)) ∧
      ((after requests (empty module faults)).memory chain).Began record g ∧
      BatchTurns config ctx chain g headers (after requests (empty module faults)) t turns
        outcome.rejected ∧
      outcome.report.accepted = turns.countP (fun turn => !turn.known) ∧
      outcome.report.skipped = turns.countP Turn.known ∧
      outcome.report.accepted + outcome.report.skipped = turns.length ∧
      outcome.report.reorgs = turns.countP (fun turn => !turn.known && turn.abandons) ∧
      (t.memory chain).tip? = some tip ∧
      (t.memory chain).height? = some outcome.report.canonicalHeight ∧
      outcome.report.canonicalHeight = tip.number := by
  obtain ⟨record, g, turns, tip, hrun, hbegun, hturns, hcanonical, hreport⟩ :=
    syncBatch_turns (wellFormed_after requests module faults) (sound_after hlow chain)
      (rising_after hlow chain) hheaders h
  rw [hreport]
  exact ⟨record, g, turns, tip, hrun, hbegun, hturns, rfl, rfl, length_eq_counts turns, rfl,
    ChainMemory.tip?_eq_some_iff.mpr hcanonical.atTip, hcanonical.height, rfl⟩

/-- A batch that brings both branches of a fork, and a header of the lighter one twice. -/
def forkBatch : List Header := [shortChild, rivalChild, shortChild, rivalTop]

theorem forkBatch_outcome : (LightClient.syncBatch .trial ⟨5, 500⟩ 2 forkBatch
    (after (shortRequests.take 1) (empty [] fun _ _ => none))).1 = .ok ⟨⟨3, 1, 1, 10⟩, none⟩ := by
  decide +kernel

/-- Of the four turns of the fork one is that of a known header and one leaves the tip. -/
theorem fork_report_counts :
    (∀ request ∈ shortRequests.take 1, ∀ header ∈ request.op.headers, header.Low) ∧
      (∀ header ∈ forkBatch, header.Low) ∧
      ∃ t, LightClient.syncBatch .trial ⟨5, 500⟩ 2 forkBatch
          (after (shortRequests.take 1) (empty [] fun _ _ => none)) =
        (.ok ⟨⟨3, 1, 1, 10⟩, none⟩, t) ∧
      ∃ record g turns,
        turns = batchTurns .trial ⟨5, 500⟩ 2 forkBatch
          (after (shortRequests.take 1) (empty [] fun _ _ => none)) ∧
        ((after (shortRequests.take 1) (empty [] fun _ _ => none)).memory 2).Began record g ∧
        BatchTurns .trial ⟨5, 500⟩ 2 g forkBatch
          (after (shortRequests.take 1) (empty [] fun _ _ => none)) t turns none ∧
        turns.length = 4 ∧ turns.countP Turn.known = 1 ∧
        turns.countP (fun turn => !turn.known && turn.abandons) = 1 ∧
        (t.memory 2).height? = some 10 := by
  have hlow : ∀ request ∈ shortRequests.take 1, ∀ header ∈ request.op.headers, header.Low :=
    fun request hrequest => shortRequests_low request (List.mem_of_mem_take hrequest)
  have hheaders : ∀ header ∈ forkBatch, header.Low := by
    simp [forkBatch, Header.Low, shortChild, rivalChild, rivalTop]
  obtain ⟨t, hrun⟩ : ∃ t, LightClient.syncBatch .trial ⟨5, 500⟩ 2 forkBatch
      (after (shortRequests.take 1) (empty [] fun _ _ => none)) =
        (.ok ⟨⟨3, 1, 1, 10⟩, none⟩, t) := by
    rw [← forkBatch_outcome]
    exact ⟨_, Prod.mk.eta.symm⟩
  obtain ⟨record, g, turns, tip, hbatch, hbegun, hturns, haccepted, hskipped, hlength, hreorgs, -,
    hheight, -⟩ := batch_report_counts [] (fun _ _ => none) (shortRequests.take 1) hlow 2 .trial
      ⟨5, 500⟩ forkBatch hheaders _ t hrun
  exact ⟨hlow, hheaders, t, hrun, record, g, turns, hbatch, hbegun, hturns, hlength.symm,
    hskipped.symm, hreorgs.symm, hheight⟩

end Bridge

end BridgeKernel
