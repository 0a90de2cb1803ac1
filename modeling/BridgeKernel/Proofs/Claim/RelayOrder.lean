import BridgeKernel.Proofs.Claim.Delivery

/-!
# The order of attestations

Under one validator set the votes for an event are the members of the set that have attested it, and
its mark is set once they make a quorum. Neither depends on the order in which attestations come in,
nor on those repeated or brought by strangers. So any two orders admit the same instructions.
-/

namespace BridgeKernel.RelayTerms

open Record Transition

variable {terms : RelayTerms} {epoch : ValidatorEpoch} {ds : List Delivery} {d : Delivery}
  {s t : State}

/-! ## Accounts after one more delivery -/

/-- A delivery that does not concern an event leaves its votes and its mark as they are accounted
for. -/
theorem Accounted.other {c : Submission} (h : terms.Accounted epoch ds c s)
    (hother : ¬ (d.submission.message = c.message ∧ d.submission.claim.signer ∈ epoch.validators))
    (hvotes : t.votes? c.digest = s.votes? c.digest)
    (hmark : ∀ i, terms.instruction? c = some i →
      t.mark? i.sourceChain i.crossChainId = s.mark? i.sourceChain i.crossChainId) :
    terms.Accounted epoch (ds ++ [d]) c t := by
  have hsame := attestations_snoc_other terms ds hother
  constructor
  case own =>
    rw [hvotes]
    exact h.own
  case tallies =>
    rw [hsame]
    exact h.tallies.congr hvotes
  case final_iff =>
    rw [State.quorumHeight?, hvotes, voters, hsame]
    exact h.final_iff
  case marked_iff =>
    intro i hi
    rw [hmark i hi, voters, hsame]
    exact h.marked_iff i hi

/-- A repeated attestation makes no further voter. -/
theorem Accounted.repeated {c : Submission} (h : terms.Accounted epoch ds c s)
    (hown : d.submission.message = c.message)
    (hmember : d.submission.claim.signer ∈ epoch.validators)
    (hvoted : s.votedAt? c.digest d.submission.claim.signer ≠ none) (hu : s.Untouched t) :
    terms.Accounted epoch (ds ++ [d]) c t := by
  have hsnoc := attestations_snoc_own terms ds ⟨hown, hmember⟩
  have hvotes : t.votes? c.digest = s.votes? c.digest := hu.lookup_eq _
  have hmem := (h.tallies.voted_iff d.submission.claim.signer).mp hvoted
  have hlength : (terms.voters epoch c.message (ds ++ [d])).length =
      (terms.voters epoch c.message ds).length := by
    rw [voters, hsnoc]
    exact Attestation.length_voters_snoc_of_mem hmem
  constructor
  case own =>
    rw [hvotes]
    exact h.own
  case tallies =>
    rw [hsnoc]
    exact (h.tallies.repeated (a := d.submission.claim.attestation d.ctx terms.epochAt)
      hvoted).congr hvotes
  case final_iff =>
    rw [State.quorumHeight?, hvotes, hlength]
    exact h.final_iff
  case marked_iff =>
    intro i hi
    have hmark : t.mark? i.sourceChain i.crossChainId = s.mark? i.sourceChain i.crossChainId :=
      hu.lookup_eq _
    rw [hmark, hlength]
    exact h.marked_iff i hi

/-- A counted attestation makes one voter more, and reaches the quorum when these are enough. -/
theorem Accounted.counted {c : Submission} {u : State} {record : VoteRecord}
    (h : terms.Accounted epoch ds c s) (hown : d.submission.message = c.message)
    (hmember : d.submission.claim.signer ∈ epoch.validators) (own : record.message = c.message)
    (casts : Vote.Casts d.ctx epoch.quorumSize d.submission.claim.signer c.message record s u)
    (hvotes : t.votes? c.digest = u.votes? c.digest)
    (hmark : ∀ i, terms.instruction? c = some i → (t.mark? i.sourceChain i.crossChainId ≠ none ↔
      record.reachedBy d.submission.claim.signer d.ctx.height epoch.quorumSize = true ∨
        s.mark? i.sourceChain i.crossChainId ≠ none)) :
    terms.Accounted epoch (ds ++ [d]) c t := by
  have hsnoc := attestations_snoc_own terms ds ⟨hown, hmember⟩
  have htallies := h.tallies.counted
    (a := d.submission.claim.attestation d.ctx terms.epochAt) casts
  have hlength : (terms.voters epoch c.message (ds ++ [d])).length =
      (terms.voters epoch c.message ds).length + 1 := by
    rw [voters, hsnoc]
    exact Attestation.length_voters_snoc_of_not_mem (h.tallies.not_mem_voters
      (a := d.submission.claim.attestation d.ctx terms.epochAt) casts)
  have hcount : s.voteCount (Sha256.hash c.message) =
      (terms.voters epoch c.message ds).length := h.tallies.count_eq
  have hfinal : s.quorumHeight? (Sha256.hash c.message) ≠ none ↔
      epoch.quorumSize ≤ (terms.voters epoch c.message ds).length := h.final_iff
  have hfull : record.reachedBy d.submission.claim.signer d.ctx.height epoch.quorumSize = true ∨
      epoch.quorumSize ≤ (terms.voters epoch c.message ds).length ↔
      epoch.quorumSize ≤ (terms.voters epoch c.message ds).length + 1 := by
    rw [casts.reachedBy_iff, hcount]
    by_cases hnone : s.quorumHeight? (Sha256.hash c.message) = none
    · have hshort := mt hfinal.mpr (not_not.mpr hnone)
      simp only [hnone, and_true]
      omega
    · have hpassed := hfinal.mp hnone
      simp only [hnone, and_false, false_or]
      omega
  constructor
  case own =>
    intro r hr
    rw [hvotes] at hr
    have hcast : some (record.cast d.submission.claim.signer d.ctx.height epoch.quorumSize) =
        some r := casts.votes?_eq.symm.trans hr
    rw [← Option.some.inj hcast, VoteRecord.cast_message, own]
  case tallies =>
    rw [hsnoc]
    exact htallies.congr hvotes
  case final_iff =>
    have hafter : t.quorumHeight? c.digest = u.quorumHeight? (Sha256.hash c.message) := by
      rw [State.quorumHeight?, hvotes]
      rfl
    rw [hafter, casts.quorumHeight?_after, hlength, ← hfull, ← hfinal]
    split
    · next hreached => simp [hreached]
    · next hshort => simp [hshort]
  case marked_iff =>
    intro i hi
    rw [hmark i hi, h.marked_iff i hi, hlength, hfull]

/-- Marking an event leaves the marks of other ids alone. -/
theorem mark?_of_mark_ne {ctx : BlockContext} {i j : Instruction}
    (h : Replay.markApplied ctx j.sourceChain j.crossChainId s = (.ok (), t))
    (hne : ¬ (i.sourceChain = j.sourceChain ∧ i.crossChainId = j.crossChainId)) :
    t.mark? i.sourceChain i.crossChainId = s.mark? i.sourceChain i.crossChainId := by
  obtain ⟨-, -, hwrites⟩ := Replay.markApplied_ok h
  refine hwrites.lookup_eq fun heq => hne ?_
  injection heq with hsource hid
  exact ⟨hsource, hid⟩

/-- A cast vote leaves the marks alone. -/
theorem mark?_of_casts {record : VoteRecord}
    (h : Vote.Casts d.ctx epoch.quorumSize d.submission.claim.signer d.submission.message record s t)
    (i : Instruction) :
    t.mark? i.sourceChain i.crossChainId = s.mark? i.sourceChain i.crossChainId :=
  h.changed.lookup_of_ne (by simp)

/-- A delivery keeps the accounts of every event of its collection. -/
theorem Accounted.step {collection : List Submission} {c : Submission}
    {r : Except ClaimError (Option Instruction)} (hcollection : terms.Compatible collection)
    (hc : c ∈ collection) (hd : d.submission ∈ collection) (h : terms.Accounted epoch ds c s)
    (hcomes : Comes terms epoch d s r t) : terms.Accounted epoch (ds ++ [d]) c t := by
  by_cases hown : d.submission.message = c.message
  case neg =>
    -- the delivery is of another message, which has another digest and another id
    have hother : ¬ (d.submission.message = c.message ∧
        d.submission.claim.signer ∈ epoch.validators) := fun both => hown both.1
    have hdigest : c.digest ≠ d.submission.digest :=
      fun heq => hown (hcollection.apart c hc d.submission hd heq).symm
    cases hcomes with
    | stranger _ unchanged | repeated _ _ unchanged =>
      exact h.other hother (unchanged.lookup_eq _) fun i _ => unchanged.lookup_eq _
    | pending _ _ casts _ =>
      exact h.other hother (casts.votes?_of_ne hdigest) fun i _ => mark?_of_casts casts i
    | admitted _ _ casts _ carried mark =>
      have hvotes := (RelayClaim.votes?_of_mark mark c.digest).trans (casts.votes?_of_ne hdigest)
      refine h.other hother hvotes fun i hi => ?_
      refine (mark?_of_mark_ne mark fun both => hown ?_).trans (mark?_of_casts casts i)
      exact (hcollection.message_eq hc hd hi carried both.1 both.2).symm
  case pos =>
    have hdigest : d.submission.digest = c.digest := congrArg Sha256.hash hown
    cases hcomes with
    | stranger outside unchanged =>
      exact h.other (fun both => outside both.2) (unchanged.lookup_eq _)
        fun i _ => unchanged.lookup_eq _
    | repeated member voted unchanged =>
      rw [hdigest] at voted
      exact h.repeated hown member voted unchanged
    | pending member own casts short =>
      have hsame := mark?_of_casts casts
      rw [hown] at own casts
      refine h.counted hown member own casts rfl fun i _ => ?_
      rw [hsame, short]
      simp
    | admitted member own casts full carried mark =>
      rw [instruction?_congr hown] at carried
      rw [hown] at own casts
      refine h.counted hown member own casts (RelayClaim.votes?_of_mark mark _) fun i hi => ?_
      obtain rfl := Option.some.inj (hi.symm.trans carried)
      obtain ⟨-, hset, -⟩ := Replay.markApplied_ok mark
      have hmarked : _ = some _ := hset
      simp [State.mark?, hmarked, full]

/-! ## Runs -/

/-- What deliveries of a collection have left behind. -/
structure Settled (terms : RelayTerms) (epoch : ValidatorEpoch) (collection : List Submission)
    (ds : List Delivery) (admitted : List Instruction) (s : State) : Prop where
  /-- The store does not fail. -/
  calm : s.Calm
  /-- The store is in form. -/
  form : s.WellFormed
  /-- Votes and marks are accounted for. -/
  accounted : ∀ c ∈ collection, terms.Accounted epoch ds c s
  /-- Votes are kept for what a member has attested only. -/
  attested : ∀ hash, s.votes? hash ≠ none →
    ∃ d ∈ ds, d.submission.digest = hash ∧ d.submission.claim.signer ∈ epoch.validators
  /-- No instruction is admitted twice. -/
  once : admitted.Nodup
  /-- Those are admitted that are marked. -/
  admitted_iff : ∀ i, i ∈ admitted ↔
    ∃ c ∈ collection, terms.instruction? c = some i ∧
      s.mark? i.sourceChain i.crossChainId ≠ none

theorem Settled.initial (hset : epoch.validators ≠ []) (collection : List Submission)
    (module : Bytes) : terms.Settled epoch collection [] [] (.initial module) := by
  constructor
  case calm => exact fun _ _ => rfl
  case form => exact nofun
  case accounted => exact fun c _ => .initial hset c module
  case attested => exact fun hash hkept => absurd rfl hkept
  case once => exact .nil
  case admitted_iff => exact fun i => iff_of_false nofun fun ⟨_, _, _, hmark⟩ => hmark rfl

/-- A delivery that marks nothing leaves the admitted instructions as they are told by the marks. -/
theorem Settled.quiet {collection : List Submission} {list : List Instruction}
    (h : terms.Settled epoch collection ds list s)
    (hmarks : ∀ i : Instruction,
      t.mark? i.sourceChain i.crossChainId = s.mark? i.sourceChain i.crossChainId) :
    ∀ i, i ∈ list ++ [] ↔ ∃ c ∈ collection, terms.instruction? c = some i ∧
      t.mark? i.sourceChain i.crossChainId ≠ none := by
  intro i
  rw [List.append_nil, hmarks]
  exact h.admitted_iff i

/-- Votes are kept for what a member has attested only, as long as a delivery brings votes for its
own message only. -/
theorem Settled.attests {collection : List Submission} {list : List Instruction}
    (h : terms.Settled epoch collection ds list s)
    (hold : ∀ hash, t.votes? hash ≠ none → s.votes? hash ≠ none ∨
      hash = d.submission.digest ∧ d.submission.claim.signer ∈ epoch.validators) :
    ∀ hash, t.votes? hash ≠ none → ∃ e ∈ ds ++ [d], e.submission.digest = hash ∧
      e.submission.claim.signer ∈ epoch.validators := by
  intro hash hvotes
  rcases hold hash hvotes with hbefore | ⟨rfl, hmember⟩
  · obtain ⟨e, he, hdigest⟩ := h.attested hash hbefore
    exact ⟨e, List.mem_append_left _ he, hdigest⟩
  · exact ⟨d, List.mem_append_right _ List.mem_cons_self, rfl, hmember⟩

/-- A member's cast vote brings votes for its own message only. -/
theorem votes?_of_casts {record : VoteRecord}
    (member : d.submission.claim.signer ∈ epoch.validators)
    (h : Vote.Casts d.ctx epoch.quorumSize d.submission.claim.signer d.submission.message record s t)
    (hash : Hash) (hvotes : t.votes? hash ≠ none) : s.votes? hash ≠ none ∨
      hash = d.submission.digest ∧ d.submission.claim.signer ∈ epoch.validators := by
  by_cases hhash : hash = d.submission.digest
  · exact .inr ⟨hhash, member⟩
  · rw [h.votes?_of_ne hhash] at hvotes
    exact .inl hvotes

/-- An instruction that finds no mark has not been admitted. -/
theorem Settled.not_mem {collection : List Submission} {list : List Instruction} {i : Instruction}
    (h : terms.Settled epoch collection ds list s)
    (hnone : s.mark? i.sourceChain i.crossChainId = none) : i ∉ list := by
  intro hi
  obtain ⟨-, -, -, hmarked⟩ := (h.admitted_iff i).mp hi
  exact hmarked hnone

/-- A delivery that marks its instruction adds it to the admitted ones that are told by the
marks. -/
theorem Settled.marked {collection : List Submission} {list : List Instruction} {u : State}
    {i : Instruction} (hcollection : terms.Compatible collection) (hd : d.submission ∈ collection)
    (h : terms.Settled epoch collection ds list s)
    (carried : terms.instruction? d.submission = some i)
    (hmarks : ∀ j : Instruction,
      u.mark? j.sourceChain j.crossChainId = s.mark? j.sourceChain j.crossChainId)
    (mark : Replay.markApplied d.ctx i.sourceChain i.crossChainId u = (.ok (), t)) :
    ∀ j, j ∈ list ++ [i] ↔ ∃ c ∈ collection, terms.instruction? c = some j ∧
      t.mark? j.sourceChain j.crossChainId ≠ none := by
  intro j
  rw [List.mem_append, h.admitted_iff, List.mem_singleton]
  by_cases hj : j = i
  · subst hj
    obtain ⟨-, hset, -⟩ := Replay.markApplied_ok mark
    have hmarked : t.mark? j.sourceChain j.crossChainId ≠ none := by
      rw [State.mark?, hset]
      exact Option.some_ne_none _
    exact iff_of_true (.inr rfl) ⟨d.submission, hd, carried, hmarked⟩
  · rw [or_iff_left hj]
    refine exists_congr fun c => and_congr_right fun hc => and_congr_right fun hcarried => ?_
    -- another instruction of the collection has another id
    rw [mark?_of_mark_ne mark fun both => hj ?_, hmarks]
    have hmessage := hcollection.message_eq hc hd hcarried carried both.1 both.2
    rw [instruction?_congr hmessage] at hcarried
    exact Option.some.inj (hcarried.symm.trans carried)

/-- What is left behind after one more delivery. -/
theorem Settled.step {collection : List Submission} {list : List Instruction}
    {r : Except ClaimError (Option Instruction)} (hcollection : terms.Compatible collection)
    (hd : d.submission ∈ collection) (h : terms.Settled epoch collection ds list s)
    (hcomes : Comes terms epoch d s r t) :
    terms.Settled epoch collection (ds ++ [d]) (list ++ r.toOption.join.toList) t := by
  have haccounted (c : Submission) (hc : c ∈ collection) :
      terms.Accounted epoch (ds ++ [d]) c t :=
    (h.accounted c hc).step hcollection hc hd hcomes
  have hquiet : (list ++ ([] : List Instruction)).Nodup := (List.append_nil list).symm ▸ h.once
  cases hcomes with
  | stranger _ unchanged | repeated _ _ unchanged =>
    have hwrites : s.Writes (fun _ => False) t := .of_untouched unchanged
    refine ⟨h.calm.writes hwrites, hwrites.wellFormed h.form, haccounted, h.attests ?_, hquiet,
      h.quiet fun i => unchanged.lookup_eq _⟩
    intro hash hvotes
    rw [State.votes?, unchanged.lookup_eq] at hvotes
    exact .inl hvotes
  | pending member own casts short =>
    have hwrites : s.Writes (· = .vote d.submission.digest) t :=
      casts.changed.writes_one (.store rfl (.vote _ casts.fits))
    exact ⟨h.calm.writes hwrites, hwrites.wellFormed h.form, haccounted,
      h.attests (votes?_of_casts member casts), hquiet, h.quiet (mark?_of_casts casts)⟩
  | @admitted u t record i member own casts full carried mark =>
    have hwrites : s.Writes (· = .vote d.submission.digest) u :=
      casts.changed.writes_one (.store rfl (.vote _ casts.fits))
    obtain ⟨hfresh, -, hmark⟩ := Replay.markApplied_ok mark
    have hnew : i ∉ list := h.not_mem ((mark?_of_casts casts i).symm.trans hfresh)
    refine ⟨(h.calm.writes hwrites).writes hmark, hmark.wellFormed (hwrites.wellFormed h.form),
      haccounted, h.attests ?_, ?_,
      h.marked hcollection hd carried (mark?_of_casts casts) mark⟩
    · intro hash hvotes
      rw [RelayClaim.votes?_of_mark mark] at hvotes
      exact votes?_of_casts member casts hash hvotes
    · refine List.nodup_append.mpr ⟨h.once, List.nodup_singleton i, fun a ha b hb => ?_⟩
      rw [List.mem_singleton.mp hb]
      rintro rfl
      exact hnew ha

theorem settled {collection : List Submission} (hset : epoch.validators ≠ [])
    (hepoch : fits epoch = true) (hcollection : terms.Compatible collection)
    (governs : ∀ d ∈ ds, terms.epochAt d.ctx.height = some epoch)
    (hds : ∀ d ∈ ds, d.submission ∈ collection) (module : Bytes) :
    terms.Settled epoch collection ds (terms.admitted ds (.initial module))
      (terms.after ds (.initial module)) := by
  induction ds using List.reverseRecOn with
  | nil => exact .initial hset collection module
  | append_singleton ds d ih =>
    have hbefore := ih (fun e he => governs e (List.mem_append_left _ he))
      (fun e he => hds e (List.mem_append_left _ he))
    have hmem : d ∈ ds ++ [d] := List.mem_append_right _ List.mem_cons_self
    have hd := hds d hmem
    rw [admitted_snoc, after_snoc]
    exact hbefore.step hcollection hd (comes hbefore.calm hbefore.form
      (hbefore.accounted d.submission hd) hepoch (governs d hmem) (hcollection.bound _ hd)
      (hcollection.short _ hd) (hcollection.stated _ hd))

/-! ## What is left behind, told by the collection -/

section

variable {collection : List Submission} {list : List Instruction}

/-- Who has voted under a digest is a member that has submitted a message with this digest. -/
theorem Settled.votedAt?_iff (h : terms.Settled epoch collection ds list s)
    (hds : ∀ d ∈ ds, d.submission ∈ collection) (hash : Hash) (signer : Address) :
    s.votedAt? hash signer ≠ none ↔ ∃ c ∈ ds.map Delivery.submission,
      c.digest = hash ∧ c.claim.signer = signer ∧ signer ∈ epoch.validators := by
  constructor
  · intro hvoted
    have hvotes : s.votes? hash ≠ none := by
      intro hnone
      rw [State.votedAt?, hnone] at hvoted
      exact hvoted rfl
    obtain ⟨d, hd, rfl, -⟩ := h.attested hash hvotes
    have hmem := ((h.accounted d.submission (hds d hd)).tallies.voted_iff signer).mp hvoted
    obtain ⟨e, he, hmessage, hsigner, hmember⟩ := mem_voters.mp hmem
    exact ⟨e.submission, List.mem_map_of_mem he, congrArg Sha256.hash hmessage, hsigner, hmember⟩
  · rintro ⟨c, hc, rfl, rfl, hmember⟩
    obtain ⟨d, hd, rfl⟩ := List.mem_map.mp hc
    refine ((h.accounted d.submission (hds d hd)).tallies.voted_iff _).mpr ?_
    exact mem_voters.mpr ⟨d, hd, rfl, rfl, hmember⟩

/-- The votes under a digest are for a message that a member has submitted. -/
theorem Settled.votedMessage?_iff (h : terms.Settled epoch collection ds list s)
    (hds : ∀ d ∈ ds, d.submission ∈ collection) (hash : Hash) (message : Bytes) :
    s.votedMessage? hash = some message ↔ ∃ c ∈ ds.map Delivery.submission,
      c.digest = hash ∧ c.message = message ∧ c.claim.signer ∈ epoch.validators := by
  constructor
  · intro hmessage
    obtain ⟨r, hr, rfl⟩ := Option.map_eq_some_iff.mp hmessage
    obtain ⟨d, hd, rfl, hmember⟩ := h.attested hash (by rw [hr]; exact nofun)
    have hown := (h.accounted d.submission (hds d hd)).own r hr
    exact ⟨d.submission, List.mem_map_of_mem hd, rfl, hown.symm, hmember⟩
  · rintro ⟨c, hc, rfl, rfl, hmember⟩
    obtain ⟨d, hd, rfl⟩ := List.mem_map.mp hc
    have hvoted := (h.votedAt?_iff hds d.submission.digest d.submission.claim.signer).mpr
      ⟨d.submission, hc, rfl, rfl, hmember⟩
    cases hr : s.votes? d.submission.digest with
    | none =>
      rw [State.votedAt?, hr] at hvoted
      exact absurd rfl hvoted
    | some r =>
      rw [State.votedMessage?, hr, Option.map_some]
      exact congrArg some ((h.accounted d.submission (hds d hd)).own r hr)

/-- The supporters of an instruction are the voters of its message. -/
theorem length_supporters (hcollection : terms.Compatible (ds.map Delivery.submission))
    {c : Submission} (hc : c ∈ ds.map Delivery.submission) {i : Instruction}
    (hi : terms.instruction? c = some i) :
    (terms.supporters epoch i (ds.map Delivery.submission)).length =
      (terms.voters epoch c.message ds).length := by
  have hnodup : (terms.supporters epoch i (ds.map Delivery.submission)).Nodup :=
    (List.nodup_dedup _).filter _
  refine ((List.perm_ext_iff_of_nodup hnodup voters_nodup).mpr fun signer => ?_).length_eq
  rw [mem_voters, supporters, List.mem_filter, List.mem_dedup, List.mem_map]
  constructor
  · rintro ⟨⟨c', hc', rfl⟩, hcontains⟩
    obtain ⟨hmem, hi'⟩ := List.mem_filter.mp hc'
    have hi' := of_decide_eq_true hi'
    obtain ⟨d, hd, rfl⟩ := List.mem_map.mp hmem
    have hmessage := hcollection.message_eq hmem hc hi' hi rfl rfl
    exact ⟨d, hd, hmessage, rfl, List.contains_iff_mem.mp hcontains⟩
  · rintro ⟨d, hd, hmessage, rfl, hmember⟩
    have hi' := (instruction?_congr hmessage).trans hi
    refine ⟨⟨d.submission, List.mem_filter.mpr ⟨List.mem_map_of_mem hd, ?_⟩, rfl⟩,
      List.contains_iff_mem.mpr hmember⟩
    exact decide_eq_true hi'

/-- The admitted instructions are those with a quorum of supporters. -/
theorem Settled.admitted_iff_supporters (hset : epoch.validators ≠ [])
    (hcollection : terms.Compatible (ds.map Delivery.submission))
    (h : terms.Settled epoch (ds.map Delivery.submission) ds list s) (i : Instruction) :
    i ∈ list ↔
      epoch.quorumSize ≤ (terms.supporters epoch i (ds.map Delivery.submission)).length := by
  rw [h.admitted_iff]
  constructor
  · rintro ⟨c, hc, hi, hmark⟩
    rw [length_supporters hcollection hc hi]
    exact ((h.accounted c hc).marked_iff i hi).mp hmark
  · intro hquorum
    have hpositive := ValidatorEpoch.quorumSize_pos hset
    obtain ⟨signer, hsigner⟩ := List.exists_mem_of_length_pos (Nat.lt_of_lt_of_le hpositive hquorum)
    obtain ⟨c, hmem, -⟩ := List.mem_map.mp (List.mem_dedup.mp (List.mem_filter.mp hsigner).1)
    obtain ⟨hc, hi⟩ := List.mem_filter.mp hmem
    have hi := of_decide_eq_true hi
    rw [length_supporters hcollection hc hi] at hquorum
    exact ⟨c, hc, hi, ((h.accounted c hc).marked_iff i hi).mpr hquorum⟩

end

/-- Attestations that can be taken in together stay so in another order. -/
theorem Compatible.perm {collection collection' : List Submission}
    (h : terms.Compatible collection) (same : collection.Perm collection') :
    terms.Compatible collection' where
  bound c hc := h.bound c (same.mem_iff.mpr hc)
  agree c hc c' hc' := h.agree c (same.mem_iff.mpr hc) c' (same.mem_iff.mpr hc')
  apart c hc c' hc' := h.apart c (same.mem_iff.mpr hc) c' (same.mem_iff.mpr hc')
  short c hc := h.short c (same.mem_iff.mpr hc)
  stated c hc := h.stated c (same.mem_iff.mpr hc)

/-- Reordered attestations have the same supporters. -/
theorem supporters_perm {collection collection' : List Submission}
    (same : collection.Perm collection') (i : Instruction) :
    (terms.supporters epoch i collection).Perm (terms.supporters epoch i collection') :=
  (((same.filter _).map _).dedup).filter _

/-- Under one validator set that is not empty, on an empty store that does not fail, any two orders
of the same attestations, in whatever blocks, admit the same instructions, each once, and leave
votes for the same messages by the same validators. An instruction is admitted exactly when as many
different members of the set as make a quorum have submitted it. -/
theorem admission_order_free (terms : RelayTerms) (epoch : ValidatorEpoch) (module : Bytes)
    (first second : List Delivery) (hset : epoch.validators ≠ []) (hepoch : fits epoch = true)
    (governs : ∀ d ∈ first ++ second, terms.epochAt d.ctx.height = some epoch)
    (hcollection : terms.Compatible (first.map Delivery.submission))
    (same : (first.map Delivery.submission).Perm (second.map Delivery.submission)) :
    (terms.admitted first (.initial module)).Nodup ∧
    (terms.admitted second (.initial module)).Nodup ∧
    (∀ i, i ∈ terms.admitted first (.initial module) ↔
      i ∈ terms.admitted second (.initial module)) ∧
    (∀ i, i ∈ terms.admitted first (.initial module) ↔
      epoch.quorumSize ≤ (terms.supporters epoch i (first.map Delivery.submission)).length) ∧
    ∀ hash, (terms.after first (.initial module)).votedMessage? hash =
        (terms.after second (.initial module)).votedMessage? hash ∧
      ∀ signer, (terms.after first (.initial module)).votedAt? hash signer ≠ none ↔
        (terms.after second (.initial module)).votedAt? hash signer ≠ none := by
  have hfirst := settled hset hepoch hcollection
    (fun d hd => governs d (List.mem_append_left _ hd))
    (fun d hd => List.mem_map_of_mem (f := Delivery.submission) hd) module
  have hsecond := settled hset hepoch (hcollection.perm same)
    (fun d hd => governs d (List.mem_append_right _ hd))
    (fun d hd => List.mem_map_of_mem (f := Delivery.submission) hd) module
  have hadmitted := hfirst.admitted_iff_supporters hset hcollection
  have hadmitted' := hsecond.admitted_iff_supporters hset (hcollection.perm same)
  refine ⟨hfirst.once, hsecond.once, fun i => ?_, hadmitted, fun hash => ⟨?_, fun signer => ?_⟩⟩
  · rw [hadmitted, hadmitted', (supporters_perm same i).length_eq]
  · apply Option.ext
    intro message
    rw [hfirst.votedMessage?_iff fun d hd => List.mem_map_of_mem hd,
      hsecond.votedMessage?_iff fun d hd => List.mem_map_of_mem hd]
    simp only [same.mem_iff]
  · rw [hfirst.votedAt?_iff fun d hd => List.mem_map_of_mem hd,
      hsecond.votedAt?_iff fun d hd => List.mem_map_of_mem hd]
    simp only [same.mem_iff]

/-! ### Two orders of one round -/

/-- Terms with one set of four validators. -/
def roundTerms : RelayTerms := ⟨.trial, .trial, 7, fun _ => some (Bridge.fourFrom 0 1)⟩

/-- The attestation of the event by a validator with a number, for a chain with an id. -/
def roundSubmission (chain : ChainId) (n : Nat) : Submission :=
  ⟨{ Bridge.attestedChain with chainId := chain }, Bridge.numberedClaim n⟩

/-- Three validators attest the event for chain 1, one of them twice, and one for chain 3; the ninth
is no member. -/
def round : List Submission :=
  [roundSubmission 1 1, roundSubmission 3 1, roundSubmission 1 2, roundSubmission 1 2,
    roundSubmission 1 9, roundSubmission 1 3]

/-- The round in its order, one attestation in a block. -/
def roundForth : List Delivery :=
  round.mapIdx fun k c => ⟨⟨UInt64.ofNat (100 + k), 0⟩, c⟩

/-- The round in the reverse order, in one block. -/
def roundBack : List Delivery := round.reverse.map fun c => ⟨⟨200, 0⟩, c⟩

theorem round_compatible : roundTerms.Compatible (roundForth.map Delivery.submission) where
  bound := by decide +kernel
  agree c hc c' hc' _ _ _ _ _ _ := by
    have hpayload : ∀ c ∈ roundForth.map Delivery.submission,
        c.claim.payload = (Bridge.numberedClaim 0).payload := by decide +kernel
    rw [hpayload c hc, hpayload c' hc']
  apart := by decide +kernel
  short := by decide +kernel
  stated := by decide +kernel

theorem roundForth_perm_back :
    (roundForth.map Delivery.submission).Perm (roundBack.map Delivery.submission) :=
  (List.reverse_perm _).symm

/-- Both orders admit the event of chain 1, and that only. -/
theorem round_admits :
    roundTerms.Compatible (roundForth.map Delivery.submission) ∧
      (roundForth.map Delivery.submission).Perm (roundBack.map Delivery.submission) ∧
      roundTerms.admitted roundForth (.initial []) = [Bridge.attestedInstruction] ∧
      (∀ i, i ∈ roundTerms.admitted roundBack (.initial []) ↔ i = Bridge.attestedInstruction) ∧
      (Bridge.fourFrom 0 1).quorumSize ≤ (roundTerms.supporters (Bridge.fourFrom 0 1)
        Bridge.attestedInstruction (roundForth.map Delivery.submission)).length := by
  have hforth : roundTerms.admitted roundForth (.initial []) = [Bridge.attestedInstruction] := by
    decide +kernel
  obtain ⟨-, -, hsame, hquorum, -⟩ := admission_order_free roundTerms (Bridge.fourFrom 0 1) []
    roundForth roundBack (by decide +kernel) (by decide +kernel) (fun _ _ => rfl)
    round_compatible roundForth_perm_back
  refine ⟨round_compatible, roundForth_perm_back, hforth, fun i => ?_, ?_⟩
  · rw [← hsame, hforth, List.mem_singleton]
  · rw [← hquorum, hforth]
    exact List.mem_cons_self

end BridgeKernel.RelayTerms
