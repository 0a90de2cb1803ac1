import BridgeKernel.Proofs.Claim.Proposal
import BridgeKernel.Proofs.Committee
import BridgeKernel.Proofs.Store.Frame

/-!
# Installing and replacing a committee

A chain gets its first committee once, and any other from a message that the committee before it has
witnessed. What either operation asks for is said here as properties of committees and messages, and
an operation that is refused leaves no trace.
-/

namespace BridgeKernel

instance : LawfulRecord Committee where
  read_write c rest hf := by
    have hkeys : Record.fits c.publicKeys = true := hf
    change (do
      let height ← Record.read
      let threshold ← Record.read
      let publicKeys ← Record.read
      return { height, threshold, publicKeys } : Record.Reader Committee)
      (Record.write c.height ++ Record.write c.threshold ++ Record.write c.publicKeys ++ rest) = _
    simp only [List.append_assoc]
    rw [Record.bind_read_write rfl, Record.bind_read_write rfl, Record.bind_read_write hkeys]
    rfl

namespace Committee

/-! ## Usable committees -/

/-- What a committee must be to be installed. -/
structure Usable (c : Committee) : Prop where
  /-- There are keys. -/
  keys : c.publicKeys ≠ []
  /-- Somebody must sign. -/
  positive : 1 ≤ c.threshold.toNat
  /-- There are enough members to sign. -/
  reachable : c.threshold.toNat ≤ c.publicKeys.length
  /-- Every key can be read. -/
  readable : ∀ bytes ∈ c.publicKeys, ∃ key, PublicKey.ofBytes bytes = .ok key
  /-- No key stands twice. -/
  nodup : c.publicKeys.Nodup

/-- Keys that can be read, and that are different from each other and from those read before, are
read. -/
theorem readKeys_of_readable {raws : List Bytes} {known : List PublicKey}
    (hread : ∀ bytes ∈ raws, ∃ key, PublicKey.ofBytes bytes = .ok key) (hnodup : raws.Nodup)
    (hnew : ∀ key ∈ known, key.bytes.toBytes ∉ raws) : ∃ keys, readKeys raws known = .ok keys := by
  induction raws generalizing known with
  | nil => exact ⟨known, rfl⟩
  | cons bytes raws ih =>
    obtain ⟨hfirst, hrest⟩ := List.nodup_cons.mp hnodup
    obtain ⟨key, hkey⟩ := hread bytes List.mem_cons_self
    have hbytes : key.bytes.toBytes = bytes := PublicKey.ofBytes_ok hkey
    have hunknown : known.contains key = false := by
      rw [Bool.eq_false_iff]
      intro hmem
      apply hnew key (List.contains_iff_mem.mp hmem)
      rw [hbytes]
      exact List.mem_cons_self
    unfold readKeys
    simp only [hkey, hunknown]
    refine ih (fun b hb => hread b (List.mem_cons_of_mem _ hb)) hrest fun k hk => ?_
    rcases List.mem_append.mp hk with hk | hk
    · exact fun hmem => hnew k hk (List.mem_cons_of_mem _ hmem)
    · rw [List.mem_singleton.mp hk, hbytes]
      exact hfirst

/-- The check of a committee accepts exactly the usable ones. -/
theorem usable_iff {c : Committee} : c.Usable ↔ ∃ keys, c.parseKeys = .ok keys := by
  unfold parseKeys
  constructor
  · intro h
    have hkeys : ¬ c.publicKeys.isEmpty = true := fun he => h.keys (List.isEmpty_iff.mp he)
    have hthreshold : ¬ (c.threshold = 0 ∨ c.publicKeys.length < c.threshold.toNat) := by
      rintro (hzero | hmany)
      · have hpositive := h.positive
        rw [hzero] at hpositive
        exact absurd hpositive (by decide)
      · exact absurd h.reachable (Nat.not_le.mpr hmany)
    rw [if_neg hkeys, if_neg hthreshold]
    exact readKeys_of_readable h.readable h.nodup fun _ hk => nomatch hk
  · rintro ⟨keys, h⟩
    split at h
    · cases h
    next hkeys =>
    split at h
    · cases h
    next hthreshold =>
    obtain ⟨hnodup, _, rfl, hmore⟩ := readKeys_ok h List.nodup_nil
    obtain ⟨hpositive, hreachable⟩ := not_or.mp hthreshold
    refine ⟨fun he => hkeys (List.isEmpty_iff.mpr he), ?_, Nat.not_lt.mp hreachable,
      fun bytes hbytes => ?_, ?_⟩
    · have hne : c.threshold.toNat ≠ 0 := fun h0 => hpositive (UInt32.toNat_inj.mp h0)
      omega
    · have hmem := List.mem_map_of_mem (f := PublicKey.ofBytes) hbytes
      rw [hmore] at hmem
      obtain ⟨key, -, hkey⟩ := List.mem_map.mp hmem
      exact ⟨key, hkey.symm⟩
    · have hok : (keys.map (.ok : PublicKey → Except SignatureError PublicKey)).Nodup :=
        hnodup.map fun _ _ heq => Except.ok.inj heq
      rw [← hmore] at hok
      exact hok.of_map

/-! ## Successors -/

/-- A message makes a committee the successor of another one on a chain. -/
structure Succeeds (chain : ChainId) (c : Committee) (message : CommitteeMessage)
    (next : Committee) : Prop where
  /-- The message is for the chain. -/
  chain_eq : message.body.chainId = chain
  /-- The committee in office has witnessed it. -/
  witnessed : c.Witnessed message
  /-- It is later than the committee in office. -/
  later : c.height < message.body.height
  /-- It names the successor, who takes over at its height. -/
  named : ∃ named, message.body.nextCommittee = some named ∧
    next = { named with height := message.body.height }
  /-- The successor is usable. -/
  usable : next.Usable

theorem Succeeds.height_eq {chain : ChainId} {c next : Committee} {message : CommitteeMessage}
    (h : c.Succeeds chain message next) : next.height = message.body.height := by
  obtain ⟨named, -, rfl⟩ := h.named
  rfl

/-- A committee takes over at a later height than the one before it. -/
theorem Succeeds.height_lt {chain : ChainId} {c next : Committee} {message : CommitteeMessage}
    (h : c.Succeeds chain message next) : c.height < next.height := by
  rw [h.height_eq]
  exact h.later

end Committee

namespace CommitteeStore

variable {chain : ChainId} {s t : State}

theorem successor_ok {current next : Committee} {body : MessageBody}
    (h : successor current body = .ok next) :
    current.height < body.height ∧ next.Usable ∧
      ∃ named, body.nextCommittee = some named ∧ next = { named with height := body.height } := by
  unfold successor at h
  split at h
  · cases h
  next hlater =>
  split at h
  · cases h
  next named hnamed =>
  split at h
  · cases h
  next keys hkeys =>
  cases h
  -- The height of a committee plays no part in its check.
  exact ⟨UInt64.not_le.mp hlater, Committee.usable_iff.mpr ⟨keys, hkeys⟩, named, hnamed, rfl⟩

/-- A committee that was installed is the first of its chain, usable, and stored. -/
theorem install_ok {committee : Committee} {x : Unit}
    (h : install chain committee s = (.ok x, t)) :
    s.raw? (.committee chain) = none ∧ committee.Usable ∧
      t.lookup (.committee chain) = some committee := by
  obtain ⟨found, u, hfound, h⟩ := Transition.bind_ok h
  obtain ⟨rfl, hsame⟩ := State.has_ok (Transition.mapError_ok hfound)
  obtain ⟨hnone, h⟩ := Transition.guard_ok h
  obtain ⟨keys, v, hparsed, h⟩ := Transition.bind_ok h
  obtain ⟨hkeys, rfl⟩ := Transition.ofExcept_ok hparsed
  obtain ⟨hfits, hchanged⟩ := State.store_changed (Transition.mapError_ok h)
  exact ⟨Option.not_isSome_iff_eq_none.mp hnone, Committee.usable_iff.mpr ⟨keys, hkeys⟩,
    hchanged.lookup_store hfits⟩

/-- A committee that was replaced was succeeded by the one that is stored. -/
theorem rotate_ok {bytes : Bytes} {next : Committee} (h : rotate chain bytes s = (.ok next, t)) :
    ∃ (c : Committee) (message : CommitteeMessage), s.lookup (.committee chain) = some c ∧
      CommitteeMessage.decode bytes = .ok message ∧ c.Succeeds chain message next ∧
      t.lookup (.committee chain) = some next := by
  obtain ⟨⟨c, message⟩, u, hverified, h⟩ := Transition.bind_ok h
  obtain ⟨hlookup, hdecode, hchain, hwitnessed⟩ := verified_ok hverified
  obtain ⟨named, v, hnames, h⟩ := Transition.bind_ok h
  obtain ⟨hsuccessor, rfl⟩ := Transition.ofExcept_ok hnames
  obtain ⟨_, w, hstore, h⟩ := Transition.bind_ok h
  obtain ⟨rfl, rfl⟩ := Transition.pure_ok h
  obtain ⟨hlater, husable, hnamed⟩ := successor_ok hsuccessor
  obtain ⟨hfits, hchanged⟩ := State.store_changed (Transition.mapError_ok hstore)
  exact ⟨c, message, hlookup, hdecode, ⟨hchain, hwitnessed, hlater, hnamed, husable⟩,
    hchanged.lookup_store hfits⟩

/-! ## Refusals -/

open Transition

theorem install_atomic (chain : ChainId) (committee : Committee) :
    (install chain committee).Atomic := by
  refine .read (.mapError (State.has_readOnly _) _) fun found => ?_
  refine .guard ?_
  refine .read (.ofExcept _ _) fun _ => ?_
  exact .mapError (State.store_atomic _ _) _

theorem rotate_atomic (chain : ChainId) (bytes : Bytes) : (rotate chain bytes).Atomic := by
  refine .read (verified_readOnly chain bytes) fun found => ?_
  refine .read (.ofExcept _ _) fun next => ?_
  exact .andThen (.mapError (State.store_atomic _ _) _) fun _ => next

end CommitteeStore

end BridgeKernel
