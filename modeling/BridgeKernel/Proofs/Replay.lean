import BridgeKernel.Proofs.Store.Frame

/-!
# Marks are set once

The ledger sets the mark of an id only where there is none. Whatever makes it refuse an id, it
leaves every mark as it was.
-/

namespace BridgeKernel

instance : LawfulRecord ReplayMarker where
  read_write marker rest _ := by
    change (Record.read >>= fun height => pure (⟨height⟩ : ReplayMarker))
      (Record.write marker.appliedAtHeight ++ rest) = _
    rw [Record.bind_read_write rfl]
    rfl

namespace Replay

open Transition

variable {ctx : BlockContext} {chain : ChainId} {id : Bytes} {s t : State}

theorem marker?_readOnly (chain : ChainId) (id : Bytes) : (marker? chain id).ReadOnly :=
  .mapError (State.load?_readOnly _) _

theorem isApplied_readOnly (chain : ChainId) (id : Bytes) : (isApplied chain id).ReadOnly :=
  .bind (marker?_readOnly chain id) fun _ => .pure _

/-- An id that came to be marked had no mark, and its mark now has the current height. -/
theorem markApplied_ok {x : Unit} (h : markApplied ctx chain id s = (.ok x, t)) :
    s.lookup (α := ReplayMarker) (.applied chain id) = none ∧
      t.lookup (.applied chain id) = some (⟨ctx.height⟩ : ReplayMarker) ∧
      s.Writes (· = .applied chain id) t := by
  unfold markApplied at h
  obtain ⟨-, h⟩ := guard_ok h
  obtain ⟨found, u, hload, h⟩ := bind_ok h
  obtain ⟨rfl, hu⟩ := State.load?_ok (mapError_ok hload)
  cases hs : s.lookup (α := ReplayMarker) (.applied chain id) with
  | some marker =>
    rw [hs] at h
    exact (throw_ok h).elim
  | none =>
    rw [hs] at h
    have hwrites := State.store_within (P := (· = .applied chain id)) rfl
      (fun _ => .applied (⟨ctx.height⟩ : ReplayMarker)) u
    have hstore := mapError_ok h
    rw [hstore] at hwrites
    obtain ⟨hf, rfl⟩ := State.store_ok hstore
    refine ⟨rfl, State.lookup_of_raw?_some ?_ hf, (State.Writes.of_untouched hu).trans hwrites⟩
    exact OrderedMap.find?_insert_self _ _ _

/-- An id that was refused leaves the store as it was. -/
theorem markApplied_atomic (ctx : BlockContext) (chain : ChainId) (id : Bytes) :
    (markApplied ctx chain id).Atomic := by
  unfold markApplied
  refine .guard ?_
  refine .read (marker?_readOnly chain id) fun found => ?_
  cases found with
  | some marker => exact (ReadOnly.throw _).atomic
  | none => exact .mapError (State.store_atomic _ _) _

end Replay

end BridgeKernel
