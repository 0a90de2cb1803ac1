import BridgeKernel.Proofs.Bridge.ReportRun
import BridgeKernel.Proofs.Header.Lifecycle

/-!
# The life of a light client

Whatever has been called, the status of a chain tells whether it waits for its genesis, has its
genesis alone or has other headers besides, and whatever is called later, it tells no earlier one.
-/

namespace BridgeKernel.Bridge

/-- After every run with headers below the largest height a chain is at the stage that its status
tells. -/
theorem atStage_after {module : Bytes} {faults : Nat → StoreOp → Option StoreFault}
    {requests : List BridgeRequest}
    (hlow : ∀ request ∈ requests, ∀ header ∈ request.op.headers, header.Low) (chain : ChainId) :
    ((after requests (empty module faults)).memory chain).AtStage
      ((after requests (empty module faults)).memory chain).status :=
  (sound_after hlow chain).atStage (rising_after hlow chain)

/-- The answer of a store that fails no more. -/
theorem status_after (module : Bytes) (faults : Nat → StoreOp → Option StoreFault)
    (requests : List BridgeRequest) (chain : ChainId) :
    (LightClient.status chain (after requests (empty module faults)).calmed).1 =
      .ok ((after requests (empty module faults)).memory chain).status :=
  LightClient.status_answer (calmed_reliable (wellFormed_after requests module faults)) chain

/-- After every run with headers below the largest height, a store that does not fail tells a status
of every chain: uninitialized exactly when the chain has no genesis, set exactly when the genesis is
its only stored header, and synced exactly when another header is stored, be it canonical or not.
After more such calls the status is the same or a later one. A store that may fail tells no other
status, if it tells one. -/
theorem status_never_falls_back (module : Bytes) (faults : Nat → StoreOp → Option StoreFault)
    (requests later : List BridgeRequest)
    (hlow : ∀ request ∈ requests ++ later, ∀ header ∈ request.op.headers, header.Low)
    (chain : ChainId) :
    ∃ status next,
      (LightClient.status chain (after requests (empty module faults)).calmed).1 = .ok status ∧
      (LightClient.status chain (after (requests ++ later) (empty module faults)).calmed).1 =
        .ok next ∧
      (∀ stage, status = stage ↔
        ((after requests (empty module faults)).memory chain).AtStage stage) ∧
      status.rank ≤ next.rank ∧
      ∀ found t, LightClient.status chain (after requests (empty module faults)) = (.ok found, t) →
        found = status := by
  have hnow : ((after requests (empty module faults)).memory chain).AtStage _ :=
    atStage_after (fun request hr => hlow request (List.mem_append_left later hr)) chain
  have hlater : ((after (requests ++ later) (empty module faults)).memory chain).AtStage _ :=
    atStage_after hlow chain
  have hform := wellFormed_after requests module faults
  refine ⟨_, _, status_after module faults requests chain,
    status_after module faults (requests ++ later) chain, fun stage => ⟨?_, hnow.unique⟩,
    hnow.rank_le hlater fun record hbegun => ?_, fun found t h => LightClient.status_ok h⟩
  · rintro rfl
    exact hnow
  · rw [after_append]
    exact extends_after hform hbegun later

theorem shortRequests_begun :
    (LightClient.status 2 (after (shortRequests.take 1) (empty [] fun _ _ => none)).calmed).1 =
      .ok .genesisSet := by
  decide +kernel

/-- The short chain has its genesis alone after the first call and is synced after the second. -/
theorem short_chain_proceeds :
    (∀ request ∈ shortRequests.take 1 ++ shortRequests.drop 1,
        ∀ header ∈ request.op.headers, header.Low) ∧
      (LightClient.status 2 (after (shortRequests.take 1) (empty [] fun _ _ => none)).calmed).1 =
        .ok .genesisSet ∧
      (LightClient.status 2 (after shortRequests (empty [] fun _ _ => none)).calmed).1 =
        .ok .synced ∧
      ((after (shortRequests.take 1) (empty [] fun _ _ => none)).memory 2).AtStage .genesisSet := by
  have hlow : ∀ request ∈ shortRequests.take 1 ++ shortRequests.drop 1,
      ∀ header ∈ request.op.headers, header.Low := shortRequests_low
  obtain ⟨status, next, hstatus, hnext, hstage, -, -⟩ :=
    status_never_falls_back [] (fun _ _ => none) (shortRequests.take 1) (shortRequests.drop 1) hlow 2
  obtain rfl : status = .genesisSet :=
    Except.ok.inj (hstatus.symm.trans shortRequests_begun)
  obtain ⟨hgenesis, hrest⟩ := Prod.mk.inj shortMemory_eq
  obtain ⟨-, hstored⟩ := Prod.mk.inj hrest
  have hsynced : shortMemory.AtStage .synced := by
    refine ⟨shortRecord, hgenesis, shortTrusted.hash, ?_, by decide⟩
    rw [hstored]
    rfl
  obtain rfl : next = .synced := by
    obtain ⟨_, _, hlast, -, hall, -, -⟩ := status_never_falls_back [] (fun _ _ => none)
      shortRequests [] (by simpa using shortRequests_low) 2
    rw [(hall .synced).mpr hsynced] at hlast
    exact Except.ok.inj (hnext.symm.trans hlast)
  exact ⟨hlow, hstatus, hnext, (hstage _).mp rfl⟩

end BridgeKernel.Bridge
