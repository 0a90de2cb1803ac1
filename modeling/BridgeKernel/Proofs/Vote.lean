import BridgeKernel.Proofs.Store.Frame

/-!
# What a vote stores

A vote is refused without a trace, or was cast before by the same signer, or puts its signer into
the record of its message, which is then another record than before.
-/

namespace BridgeKernel

open Record Transition

/-- A record of votes. -/
def RecordKey.IsVote (key : RecordKey) : Prop := ∃ hash, key = .vote hash

instance : LawfulRecord VoteRecord where
  read_write r rest hf := by
    obtain ⟨hmessage, hsigners⟩ := Bool.and_eq_true_iff.mp hf
    have hheight : fits r.quorumReachedHeight = true := by
      cases r.quorumReachedHeight <;> rfl
    change (do
      let messageHash ← read
      let message ← read
      let signers ← read
      let quorumReachedHeight ← read
      return { messageHash, message, signers, quorumReachedHeight } : Reader VoteRecord)
      (write r.messageHash ++ write r.message ++ write r.signers ++ write r.quorumReachedHeight ++
        rest) = _
    simp only [List.append_assoc]
    rw [bind_read_write rfl, bind_read_write hmessage, bind_read_write hsigners,
      bind_read_write hheight]
    rfl

theorem VoteRecord.cast_signers (r : VoteRecord) (signer : Address) (height : UInt64)
    (quorum : Nat) : (r.cast signer height quorum).signers = r.signers.insert signer height := by
  unfold cast
  split <;> rfl

/-- Who has cast a vote has signed. -/
theorem VoteRecord.hasSigned_cast (r : VoteRecord) (signer : Address) (height : UInt64)
    (quorum : Nat) : (r.cast signer height quorum).hasSigned signer = true := by
  rw [hasSigned, cast_signers, OrderedMap.contains, OrderedMap.find?_insert_self]
  rfl

namespace Vote

variable {votes : VoteConfig} {ctx : BlockContext} {epoch : ValidatorEpoch} {quorum : Nat}
  {signer : Address} {message : Bytes} {s t : State}

theorem recordFor_readOnly (message : Bytes) : (recordFor message).ReadOnly := by
  refine .bind (.mapError (State.load?_readOnly _) _) fun found => ?_
  cases found with
  | none => exact .pure _
  | some r =>
    change (if r.message = message then _ else _ : Transition VoteError VoteRecord).ReadOnly
    split
    · exact .pure _
    · exact .throw _

/-- A vote is added to the record that is stored for its message, or to one without votes, and the
record holds the very message that is voted for. -/
theorem recordFor_ok {record : VoteRecord} (h : recordFor message s = (.ok record, t)) :
    record = (s.lookup (.vote (Sha256.hash message))).getD (.start message) ∧
      record.message = message ∧ s.Untouched t := by
  rw [← and_assoc]
  refine ⟨?_, (recordFor_readOnly message).untouched h⟩
  obtain ⟨found, u, hload, h⟩ := bind_ok h
  obtain ⟨rfl, -⟩ := State.load?_ok (mapError_ok hload)
  cases hfound : s.lookup (α := VoteRecord) (.vote (Sha256.hash message)) with
  | none =>
    rw [hfound] at h
    obtain ⟨rfl, -⟩ := pure_ok h
    exact ⟨rfl, rfl⟩
  | some r =>
    rw [hfound] at h
    change (if r.message = message then pure r else throw _ : Transition VoteError VoteRecord) u =
      _ at h
    split at h
    · next hmessage =>
      obtain ⟨rfl, -⟩ := pure_ok h
      exact ⟨rfl, hmessage⟩
    · exact (throw_ok h).elim

/-- What a vote that was counted has found. -/
structure Casts (ctx : BlockContext) (quorum : Nat) (signer : Address) (message : Bytes)
    (record : VoteRecord) (s t : State) : Prop where
  /-- The votes so far. -/
  found : record = (s.lookup (.vote (Sha256.hash message))).getD (.start message)
  /-- The signer is not among them. -/
  new : record.hasSigned signer = false
  /-- The votes can be stored. -/
  fits : Record.fits (record.cast signer ctx.height quorum) = true
  /-- The signer is among them afterwards. -/
  changed : s.Changed [.store (.vote (Sha256.hash message)) (record.cast signer ctx.height quorum)]
    t

/-- A vote that was not refused is a repetition, or is counted and may reach the quorum. -/
theorem cast_ok {reached : Bool}
    (h : cast votes ctx epoch quorum signer message s = (.ok reached, t)) :
    (reached = false ∧ s.Untouched t ∧ ((s.lookup (.vote (Sha256.hash message))).getD
        (VoteRecord.start message)).hasSigned signer = true) ∨
      ∃ record, Casts ctx quorum signer message record s t ∧
        reached = record.reachedBy signer ctx.height quorum := by
  unfold cast at h
  obtain ⟨-, h⟩ := guard_ok h
  obtain ⟨-, h⟩ := guard_ok h
  obtain ⟨-, h⟩ := guard_ok h
  obtain ⟨record, u, hrecord, h⟩ := bind_ok h
  obtain ⟨hfound, -, hu⟩ := recordFor_ok hrecord
  by_cases hsigned : record.hasSigned signer = true
  · rw [if_pos hsigned] at h
    obtain ⟨hreached, rfl⟩ := pure_ok h
    exact .inl ⟨hreached, hu, hfound ▸ hsigned⟩
  · rw [if_neg hsigned] at h
    obtain ⟨_, v, hstore, h⟩ := bind_ok h
    obtain ⟨hreached, rfl⟩ := pure_ok h
    obtain ⟨hfits, hchanged⟩ := State.store_changed (mapError_ok hstore)
    have hnew : record.hasSigned signer = false := Bool.not_eq_true _ ▸ hsigned
    exact .inr ⟨record, ⟨hfound, hnew, hfits, hu.changed hchanged⟩, hreached⟩

/-- What was checked of a vote that was not refused. -/
theorem cast_checked {reached : Bool}
    (h : cast votes ctx epoch quorum signer message s = (.ok reached, t)) :
    epoch.contains signer = true ∧ 0 < quorum ∧ quorum ≤ epoch.size ∧
      ((s.lookup (.vote (Sha256.hash message))).getD (VoteRecord.start message)).message =
        message := by
  unfold cast at h
  obtain ⟨-, h⟩ := guard_ok h
  obtain ⟨hquorum, h⟩ := guard_ok h
  obtain ⟨hmember, h⟩ := guard_ok h
  obtain ⟨record, u, hrecord, -⟩ := bind_ok h
  simp only [Bool.or_eq_true, decide_eq_true_eq, not_or] at hquorum
  rw [Bool.not_eq_true', Bool.not_eq_false] at hmember
  obtain ⟨rfl, hmessage, -⟩ := recordFor_ok hrecord
  exact ⟨hmember, by omega, by omega, hmessage⟩

/-- A refused vote leaves no trace. -/
theorem cast_atomic (votes : VoteConfig) (ctx : BlockContext) (epoch : ValidatorEpoch)
    (quorum : Nat) (signer : Address) (message : Bytes) :
    (cast votes ctx epoch quorum signer message).Atomic := by
  unfold cast
  refine .guard ?_
  refine .guard ?_
  refine .guard ?_
  refine .read (recordFor_readOnly message) fun record => ?_
  split
  · exact (ReadOnly.pure _).atomic
  · exact .andThen (.mapError (State.store_atomic _ _) _) _

theorem castInForce_atomic (votes : VoteConfig) (ctx : BlockContext)
    (epochAt : UInt64 → Option ValidatorEpoch) (signer : Address) (message : Bytes) :
    (castInForce votes ctx epochAt signer message).Atomic := by
  unfold castInForce
  split
  · exact (ReadOnly.throw _).atomic
  · exact cast_atomic votes ctx _ _ signer message

/-- A vote that was not refused was cast under the set in force and its quorum. -/
theorem castInForce_ok {epochAt : UInt64 → Option ValidatorEpoch} {reached : Bool}
    (h : castInForce votes ctx epochAt signer message s = (.ok reached, t)) :
    ∃ epoch, epochAt ctx.height = some epoch ∧
      cast votes ctx epoch epoch.quorumSize signer message s = (.ok reached, t) := by
  unfold castInForce at h
  cases hepoch : epochAt ctx.height with
  | none =>
    rw [hepoch] at h
    exact (throw_ok h).elim
  | some epoch =>
    rw [hepoch] at h
    exact ⟨epoch, rfl, h⟩

/-- A vote writes the record of votes for its message. -/
theorem cast_within (votes : VoteConfig) (epoch : ValidatorEpoch) (quorum : Nat)
    (signer : Address) (message : Bytes) :
    (cast votes ctx epoch quorum signer message).Within (· = .vote (Sha256.hash message)) := by
  refine .of_atomic (cast_atomic votes ctx epoch quorum signer message) fun s reached t h => ?_
  rcases cast_ok h with ⟨-, hu, -⟩ | ⟨record, hcasts, -⟩
  · exact .of_untouched hu
  · exact hcasts.changed.writes_one (.store rfl (.vote _ hcasts.fits))

theorem castInForce_within (votes : VoteConfig) (epochAt : UInt64 → Option ValidatorEpoch)
    (signer : Address) (message : Bytes) :
    (castInForce votes ctx epochAt signer message).Within (· = .vote (Sha256.hash message)) := by
  unfold castInForce
  split
  · exact (ReadOnly.throw _).within
  · exact cast_within votes _ _ signer message

namespace Casts

variable {record : VoteRecord}

/-- The counted vote is found afterwards. -/
theorem lookup_eq (h : Casts ctx quorum signer message record s t) :
    t.lookup (.vote (Sha256.hash message)) = some (record.cast signer ctx.height quorum) := by
  obtain ⟨n, rfl⟩ := h.changed
  exact State.lookup_change_store h.fits

/-- A counted vote shows in what is stored. -/
theorem raw?_ne (h : Casts ctx quorum signer message record s t) :
    t.raw? (.vote (Sha256.hash message)) ≠ s.raw? (.vote (Sha256.hash message)) := by
  intro hsame
  have hbefore : s.lookup (.vote (Sha256.hash message)) =
      some (record.cast signer ctx.height quorum) :=
    (State.lookup_congr hsame).symm.trans h.lookup_eq
  have hrecord : record = record.cast signer ctx.height quorum := by
    rw [← Option.getD_some (a := record.cast signer ctx.height quorum), ← hbefore]
    exact h.found
  have hsigned := record.hasSigned_cast signer ctx.height quorum
  rw [← hrecord, h.new] at hsigned
  cases hsigned

end Casts

end Vote

end BridgeKernel
