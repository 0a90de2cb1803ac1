import BridgeKernel.Proofs.Store.Calm
import BridgeKernel.Proofs.Vote.Ballots

/-!
# Votes on a store that never fails

A vote of a member for a fitting message is not refused there, as long as the votes under its digest
are for the same message and one more can be stored.
-/

namespace BridgeKernel

open Record Transition

theorem ValidatorEpoch.quorumSize_pos {epoch : ValidatorEpoch} (h : epoch.validators ≠ []) :
    0 < epoch.quorumSize := by
  have hsize : 0 < epoch.size := List.length_pos_iff.mpr h
  unfold quorumSize
  split <;> omega

theorem ValidatorEpoch.quorumSize_le_size (epoch : ValidatorEpoch) :
    epoch.quorumSize ≤ epoch.size := by
  unfold quorumSize
  split <;> omega

theorem VoteRecord.fits_iff (r : VoteRecord) :
    fits r = true ↔ r.message.length < lengthLimit ∧ r.signers.size < lengthLimit := by
  have hsigners : fits r.signers = true ↔ r.signers.size < lengthLimit :=
    fits_list_iff.trans (and_iff_left fun _ _ => rfl)
  change (fits r.message && fits r.signers) = true ↔ _
  rw [Bool.and_eq_true, fits_bytes_iff, hsigners]

namespace Vote

variable {votes : VoteConfig} {ctx : BlockContext} {epoch : ValidatorEpoch} {quorum : Nat}
  {signer : Address} {message : Bytes} {s : State}

/-- On a store that never fails the votes for a message are found, unless they are for another. -/
theorem recordFor_answers (hs : s.Calm) (hform : s.WellFormed)
    (hown : ∀ r, s.votes? (Sha256.hash message) = some r → r.message = message) :
    ∃ record t, recordFor message s = (.ok record, t) := by
  obtain ⟨t, hload⟩ := hs.load? hform (RecordKey.vote_holds (Sha256.hash message))
  have hread : record? (Sha256.hash message) s =
      (.ok (s.votes? (Sha256.hash message)), t) := run_mapError hload _
  unfold recordFor
  rw [run_bind hread]
  cases hfound : s.votes? (Sha256.hash message) with
  | none => exact ⟨_, _, rfl⟩
  | some r =>
    change ∃ record t', (if r.message = message then pure r else throw _ :
      Transition VoteError VoteRecord) t = (.ok record, t')
    rw [if_pos (hown r hfound)]
    exact ⟨_, _, rfl⟩

/-- On a store that never fails a vote of a member for a fitting message is not refused. -/
theorem cast_answers (votes : VoteConfig) (ctx : BlockContext) (hs : s.Calm)
    (hform : s.WellFormed) (hpositive : message ≠ [])
    (hlength : message.length ≤ votes.maxMessageLen) (hquorum : 0 < quorum)
    (hset : quorum ≤ epoch.size) (hmember : signer ∈ epoch.validators)
    (hown : ∀ r, s.votes? (Sha256.hash message) = some r → r.message = message)
    (hfits : ∀ r, r = (s.votes? (Sha256.hash message)).getD (.start message) →
      r.hasSigned signer = false → fits (r.cast signer ctx.height quorum) = true) :
    ∃ reached t, cast votes ctx epoch quorum signer message s = (.ok reached, t) := by
  obtain ⟨record, u, hrecord⟩ := recordFor_answers hs hform hown
  obtain ⟨hfound, -, hu⟩ := recordFor_ok hrecord
  have hmessage : ¬ (message.isEmpty || decide (votes.maxMessageLen < message.length)) = true := by
    simp [hpositive, hlength]
  have hvotes : ¬ (decide (quorum = 0) || decide (epoch.size < quorum)) = true := by
    simp [hset, Nat.pos_iff_ne_zero.mp hquorum]
  have hcontains : ¬ (!epoch.contains signer) = true := by
    simpa [ValidatorEpoch.contains] using hmember
  have hrun : cast votes ctx epoch quorum signer message s =
      (if record.hasSigned signer then pure false
      else do
        (State.store (.vote (Sha256.hash message))
          (record.cast signer ctx.height quorum)).mapError .storage
        return record.reachedBy signer ctx.height quorum : Transition VoteError Bool) u := by
    unfold cast
    refine (run_guard hmessage).trans ?_
    refine (run_guard hvotes).trans ?_
    refine (run_guard hcontains).trans ?_
    exact run_bind hrecord _
  rw [hrun]
  by_cases hsigned : record.hasSigned signer = true
  · rw [if_pos hsigned]
    exact ⟨_, _, rfl⟩
  · rw [if_neg hsigned]
    have hstored := hfits record hfound (Bool.not_eq_true _ ▸ hsigned)
    obtain ⟨t, hstore⟩ := (hs.untouched hu).store (.vote (Sha256.hash message)) hstored
    exact ⟨_, t, run_bind (run_mapError hstore _) _⟩

end Vote

end BridgeKernel
