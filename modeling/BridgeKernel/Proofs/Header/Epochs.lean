import BridgeKernel.Proofs.Header.Justified
import BridgeKernel.Proofs.Header.Verdict

/-!
# The live validator sets in closed form

Boundaries are the multiples of the epoch length, the genesis is at one of them, and every header at
a boundary lists validators. So the two sets that a search over ancestors finds for a header are
those listed at the last multiple up to its height and at the one before, or given by governance
where the genesis is the first of them. The search visits no header twice and never ends without the
two sets, unless the store fails.
-/

namespace BridgeKernel

open Transition LightClient

/-! ## Boundaries -/

theorem HeaderSyncConfig.isBoundary_iff {config : HeaderSyncConfig} {number : UInt64} :
    config.isBoundary number = true ↔
      config.epochLength ≠ 0 ∧ config.epochLength.toNat ∣ number.toNat := by
  rw [isBoundary, Bool.and_eq_true, bne_iff_ne, beq_iff_eq, ← UInt64.toNat_inj, UInt64.toNat_mod,
    Nat.dvd_iff_mod_eq_zero]
  exact Iff.rfl

/-- Only the length of an epoch decides where boundaries are. -/
theorem HeaderSyncConfig.isBoundary_congr {config config' : HeaderSyncConfig}
    (h : config'.epochLength = config.epochLength) (number : UInt64) :
    config'.isBoundary number = config.isBoundary number := by
  rw [isBoundary, h, isBoundary]

/-- The sets that a line announces are the same under settings with one length of epochs. -/
theorem ChainMemory.announced_congr {config config' : HeaderSyncConfig}
    (h : config'.epochLength = config.epochLength) (g : GenesisEpochs)
    (line : List TrustedHeader) : announced config' g line = announced config g line := by
  have hsame : announced? config' = announced? config := by
    funext H
    rw [announced?, HeaderSyncConfig.isBoundary_congr h, announced?]
  rw [announced, hsame, announced]

/-- The last multiple up to a number is that up to the number before, unless it is itself one, which
stands one length above. -/
theorem lastMultiple_succ (length n : Nat) :
    (¬ length ∣ n + 1 → length * ((n + 1) / length) = length * (n / length)) ∧
      (length ∣ n + 1 → length * ((n + 1) / length) = n + 1 ∧
        length * (n / length) + length = n + 1) := by
  constructor
  · intro hnot
    rw [Nat.succ_div, if_neg hnot, Nat.add_zero]
  · intro hdvd
    have hwhole := Nat.mul_div_cancel' hdvd
    refine ⟨hwhole, ?_⟩
    rw [Nat.succ_div, if_pos hdvd, Nat.mul_add, Nat.mul_one] at hwhole
    exact hwhole

/-! ## Where a chain began -/

/-- A chain was begun with a header and the validators before it, both given by governance. -/
structure ChainMemory.StartedBy (m : ChainMemory) (config : HeaderSyncConfig) (header : Header)
    (prior : List Address) (record : GenesisRecord) (g : GenesisEpochs) : Prop where
  /-- The header is one with which a chain may begin. -/
  place : BeginsAt config header g.current.validators
  /-- It is recorded as the genesis. -/
  record_eq : record = genesisRecord config header
  /-- The validators that it lists govern from its height on. -/
  current_start : g.current.startHeight = header.number
  /-- The given validators are those before them, or the listed ones when none are given. -/
  prior_eq : g.prior = priorEpoch record g.current.validators prior
  /-- It is stored. -/
  stored : m.header? record.hash = some (trustedGenesis header)
  /-- The sets are stored. -/
  began : m.Began record g

namespace ChainMemory

variable {m m' : ChainMemory} {config : HeaderSyncConfig} {record : GenesisRecord}
  {g : GenesisEpochs} {header : Header} {prior : List Address}

theorem StartedBy.extends (h : m.StartedBy config header prior record g) (hm : m.Extends m') :
    m'.StartedBy config header prior record g :=
  { h with stored := hm.header h.stored, began := h.began.extends hm }

namespace StartedBy

variable (h : m.StartedBy config header prior record g)
include h

theorem number_eq : header.number = record.number := by
  rw [h.record_eq]
  rfl

/-- The genesis is at a boundary. -/
theorem length_dvd : config.epochLength.toNat ∣ record.number.toNat := by
  rw [← h.number_eq]
  exact (HeaderSyncConfig.isBoundary_iff.mp h.place.boundary).2

/-- The set before the genesis began one length below it. -/
theorem prior_start :
    g.prior.startHeight.toNat + config.epochLength.toNat = record.number.toNat := by
  have hdeep := UInt64.le_iff_toNat_le.mp h.place.deep
  have hsub := UInt64.toNat_sub_of_le _ _ h.place.deep
  rw [← h.number_eq, h.prior_eq, h.record_eq]
  change (header.number - config.epochLength).toNat + config.epochLength.toNat = _
  omega

theorem current_ne_nil : g.current.validators ≠ [] := by
  obtain ⟨validators, hlisted, hsome⟩ := h.place.extra.exists_validators
  cases h.place.listed.symm.trans hlisted
  exact hsome

theorem prior_ne_nil : g.prior.validators ≠ [] := by
  rw [h.prior_eq, priorEpoch]
  dsimp only
  split
  · exact h.current_ne_nil
  · next hgiven => simpa using hgiven

end StartedBy

/-! ## Sets of a header -/

/-- All headers at boundaries, but the genesis, list validators. -/
def Listed (m : ChainMemory) (length : UInt64) : Prop :=
  m.AllAbove fun H => ∀ config : HeaderSyncConfig, config.epochLength = length →
    H.header.ExtraLayout (config.isBoundary H.number)

/-- The two sets that are live after a header, by the length of an epoch. -/
structure LiveAfter (length : UInt64) (record : GenesisRecord) (g : GenesisEpochs)
    (P : TrustedHeader) (line : List TrustedHeader) (pair : EpochPair) : Prop where
  /-- The newer one began at the last multiple of the length up to the header. -/
  newer_start : pair.newer.startHeight.toNat = length.toNat * (P.number.toNat / length.toNat)
  /-- The older one began one length before. -/
  older_start : pair.older.startHeight.toNat + length.toNat = pair.newer.startHeight.toNat
  /-- The header, or its ancestor at the height where the newer one began, lists that set. -/
  newer_listed : ∃ A ∈ line, A.number = pair.newer.startHeight ∧
    A.header.validators? = some pair.newer.validators
  /-- When the newer one is that of the genesis, the older one is the one before it. -/
  older_given : pair.newer.startHeight = record.number → pair.older = g.prior
  /-- Otherwise the ancestor at the height where the older one began lists it. -/
  older_listed : pair.newer.startHeight ≠ record.number → ∃ B ∈ line,
    B.number = pair.older.startHeight ∧ B.header.validators? = some pair.older.validators
  /-- The newer one has a validator. -/
  newer_ne_nil : pair.newer.validators ≠ []
  /-- The older one has a validator. -/
  older_ne_nil : pair.older.validators ≠ []

/-- The set that governs a height is not empty. -/
theorem LiveAfter.size_pos {length : UInt64} {P : TrustedHeader} {line : List TrustedHeader}
    {pair : EpochPair} (h : LiveAfter length record g P line pair) (number : UInt64) :
    0 < (pair.authoritative number).size := by
  unfold EpochPair.authoritative
  split
  · exact List.length_pos_iff.mpr h.older_ne_nil
  · exact List.length_pos_iff.mpr h.newer_ne_nil

variable {P H : TrustedHeader} {line : List TrustedHeader} {pair : EpochPair}

/-- Away from boundaries the same sets stay live. -/
theorem LiveAfter.keep {length : UInt64} (h : LiveAfter length record g P line pair)
    (hnumber : P.number.toNat + 1 = H.number.toNat) (hnot : ¬ length.toNat ∣ H.number.toNat) :
    LiveAfter length record g H (H :: line) pair := by
  rw [← hnumber] at hnot
  have hstart := (lastMultiple_succ length.toNat P.number.toNat).1 hnot
  refine { h with newer_start := ?_, newer_listed := ?_, older_listed := fun hne => ?_ }
  · rw [h.newer_start, ← hnumber, hstart]
  · obtain ⟨A, hA, hlisted⟩ := h.newer_listed
    exact ⟨A, List.mem_cons_of_mem H hA, hlisted⟩
  · obtain ⟨B, hB, hlisted⟩ := h.older_listed hne
    exact ⟨B, List.mem_cons_of_mem H hB, hlisted⟩

/-- At a boundary the newer set becomes the older one. -/
theorem LiveAfter.turn {length : UInt64} {validators : List Address}
    (h : LiveAfter length record g P line pair) (hnumber : P.number.toNat + 1 = H.number.toNat)
    (hdvd : length.toNat ∣ H.number.toNat) (hother : H.number ≠ record.number)
    (hlisted : H.header.validators? = some validators) (hsome : validators ≠ []) :
    LiveAfter length record g H (H :: line) ⟨pair.newer, ⟨H.number, validators⟩⟩ := by
  rw [← hnumber] at hdvd
  obtain ⟨hstart, hbefore⟩ := (lastMultiple_succ length.toNat P.number.toNat).2 hdvd
  refine ⟨?_, ?_, ?_, fun he => absurd he hother, fun _ => ?_, hsome, h.newer_ne_nil⟩
  · rw [← hnumber, hstart, hnumber]
  · rw [h.newer_start, hbefore, hnumber]
  · exact ⟨H, List.mem_cons_self, rfl, hlisted⟩
  · obtain ⟨A, hA, hfound⟩ := h.newer_listed
    exact ⟨A, List.mem_cons_of_mem H hA, hfound⟩

/-- The sets announced last on the line of a header are the live ones. -/
theorem Lineage.announced_live (hl : m.Lineage record P line) (ht : m.Tree record)
    (h : m.StartedBy config header prior record g) (hlisted : m.Listed config.epochLength) :
    ∃ pair rest, announced config g line = pair.newer :: pair.older :: rest ∧
      LiveAfter config.epochLength record g P line pair := by
  induction hl with
  | @root G stored hash =>
    obtain rfl : trustedGenesis header = G := Option.some.inj (h.stored.symm.trans stored)
    refine ⟨⟨g.prior, g.current⟩, [], rfl, ?_⟩
    refine ⟨?_, ?_, ?_, fun _ => rfl, fun hne => absurd (h.current_start.trans h.number_eq) hne,
      h.current_ne_nil, h.prior_ne_nil⟩
    · have hnumber : (trustedGenesis header).number = record.number := h.number_eq
      rw [h.current_start, hnumber, h.number_eq, Nat.mul_div_cancel' h.length_dvd]
    · rw [h.current_start, h.number_eq, h.prior_start]
    · exact ⟨_, List.mem_cons_self, h.current_start.symm, h.place.listed⟩
  | @child H P line stored other parent number below ih =>
    obtain ⟨pair, rest, hannounced, hlive⟩ := ih
    rw [announced_cons config g H below.ne_nil, hannounced]
    have hlayout := hlisted record h.began.genesis H.hash H stored other config rfl
    unfold announced?
    by_cases hboundary : config.isBoundary H.number = true
    · rw [hboundary] at hlayout
      obtain ⟨validators, hvalidators, hsome⟩ := hlayout.exists_validators
      obtain ⟨-, hdvd⟩ := HeaderSyncConfig.isBoundary_iff.mp hboundary
      have hnew : H.number ≠ record.number :=
        fun he => other (ht.hash_eq_of_number stored he)
      rw [if_pos hboundary, hvalidators]
      exact ⟨_, pair.older :: rest, rfl, hlive.turn number hdvd hnew hvalidators hsome⟩
    · rw [if_neg hboundary]
      have hpositive := (HeaderSyncConfig.isBoundary_iff.mp h.place.boundary).1
      rw [HeaderSyncConfig.isBoundary_iff, not_and] at hboundary
      exact ⟨pair, rest, rfl, hlive.keep number (hboundary hpositive)⟩

end ChainMemory

/-! ## The search -/

namespace ChainView

open ChainMemory

variable {m : ChainMemory} {config : HeaderSyncConfig} {g : GenesisEpochs}
  {record : GenesisRecord} {cursor : TrustedHeader} {line : List TrustedHeader}

/-- A header with the extra-data of its place is never one at which the search fails. -/
theorem visit_succeeds (target : UInt64) (newer? : Option ValidatorEpoch)
    (hlayout : cursor.hash ≠ g.hash →
      cursor.header.ExtraLayout (config.isBoundary cursor.number)) :
    ∃ visited, visit config g target newer? cursor = .ok visited := by
  unfold visit
  by_cases hroot : cursor.hash = g.hash
  · rw [if_pos hroot]
    cases newer? with
    | none => exact ⟨_, rfl⟩
    | some newer => exact ⟨_, rfl⟩
  · rw [if_neg hroot]
    specialize hlayout hroot
    by_cases hboundary : config.isBoundary cursor.number = true
    · rw [hboundary] at hlayout
      obtain ⟨validators, hlisted, hsome⟩ := hlayout.exists_validators
      rw [if_pos hboundary, hlisted]
      cases validators with
      | nil => exact absurd rfl hsome
      | cons first rest =>
        cases newer? with
        | none => exact ⟨_, rfl⟩
        | some newer => exact ⟨_, rfl⟩
    · rw [if_neg hboundary]
      exact ⟨_, rfl⟩

/-- Along a line the search finds the two sets that were announced last. -/
theorem search_lineage (target : UInt64) (newer? : Option ValidatorEpoch)
    (hl : m.Lineage record cursor line) (hg : m.Began record g)
    (hlisted : m.Listed config.epochLength) {budget : Nat} (hbudget : line.length ≤ budget) :
    ∃ pair rest, m.search config g target budget (newer?, cursor) = .ok pair ∧
      newer?.toList ++ announced config g line = pair.newer :: pair.older :: rest := by
  induction hl generalizing budget newer? with
  | root stored hash =>
    cases budget with
    | zero => exact absurd hbudget (Nat.not_succ_le_zero 0)
    | succ budget =>
      rw [search_succ]
      unfold visit
      rw [if_pos (hash.trans hg.hash.symm)]
      cases newer? with
      | none => exact ⟨_, [], rfl, rfl⟩
      | some newer => exact ⟨_, [g.prior], rfl, rfl⟩
  | @child H P line stored other parent number below ih =>
    cases budget with
    | zero => exact absurd hbudget (Nat.not_succ_le_zero _)
    | succ budget =>
      have hne : H.hash ≠ g.hash := by rwa [hg.hash]
      have hlayout := hlisted record hg.genesis H.hash H stored other config rfl
      obtain ⟨visited, hvisit⟩ := visit_succeeds target newer? fun _ => hlayout
      rw [search_succ, hvisit, announced_cons config g H below.ne_nil, ← List.append_assoc]
      rcases visit_ok hne hvisit with ⟨newer, older, rfl, hfound⟩ | ⟨found, rfl, hfound⟩
      · rw [hfound]
        exact ⟨_, _, rfl, rfl⟩
      · dsimp only
        rw [parent, hfound]
        exact ih found (Nat.le_of_succ_le_succ hbudget)

/-- The resolution of the sets for a stored header comes to the live ones, unless the store fails. -/
theorem resolveEpochs_live {chain : ChainId} {s u : State} {record : GenesisRecord}
    {g : GenesisEpochs} {config : HeaderSyncConfig} {P : TrustedHeader}
    {line : List TrustedHeader} {pair : EpochPair} {rest : List ValidatorEpoch}
    (hl : (s.memory chain).Lineage record P line) (hg : (s.memory chain).Began record g)
    (hlisted : (s.memory chain).Listed config.epochLength)
    (hpair : announced config g line = pair.newer :: pair.older :: rest) (hu : s.Untouched u) :
    (((ofStore chain s).resolveEpochs config g P u).1 = .ok pair ∨
      ∃ cause, ((ofStore chain s).resolveEpochs config g P u).1 = .error (.storage cause)) ∧
    (u.Reliable → ((ofStore chain s).resolveEpochs config g P u).1 = .ok pair) := by
  have hbudget : line.length ≤ P.number.toNat + 2 * (s.records.size + 1) := by
    have hlength := hl.length_le
    omega
  obtain ⟨found, later, hsearch, hfound⟩ :=
    search_lineage (P.number + 1) none hl hg hlisted hbudget
  rw [Option.toList_none, List.nil_append, hpair] at hfound
  obtain rfl : found = pair := by
    injection hfound with hnewer hmore
    injection hmore with holder
    rw [EpochPair.mk.injEq]
    exact ⟨holder.symm, hnewer.symm⟩
  unfold resolveEpochs
  constructor
  · have hanswer := findEpochs_answer_or chain s u config g (P.number + 1)
      (P.number.toNat + 2 * (s.records.size + 1)) none P
    rw [hu.memory_eq, hsearch] at hanswer
    exact hanswer.imp_right And.right
  · intro hreliable
    rw [findEpochs_answer hreliable, hu.memory_eq]
    exact hsearch

end ChainView

/-! ## Calls that begin a chain -/

namespace LightClient

open ChainMemory

variable {config : HeaderSyncConfig} {chain : ChainId} {s t : State}

/-- A chain that begins was begun with the given header and validators. -/
theorem Begins.startedBy {header : Header} {validators prior : List Address}
    (h : Begins config chain header validators prior s t)
    (place : BeginsAt config header validators) :
    (t.memory chain).StartedBy config header prior (genesisRecord config header)
      ⟨header.hash, ⟨header.number, validators⟩,
        priorEpoch (genesisRecord config header) validators prior⟩ := by
  refine ⟨place, rfl, rfl, rfl, ?_, h.began place⟩
  rw [h.changed.memory_eq, memory_genesisChanges h.fits h.fitsPrior h.fitsCurrent]
  change ((s.memory chain).setHeader (trustedGenesis header)).header? header.hash = _
  rw [setHeader_header?]
  exact if_pos rfl

/-- Headers of a chain that has not begun are not looked at. -/
theorem syncBatch_unbegun (ctx : BlockContext) (headers : List Header)
    (hnone : (s.memory chain).genesis? = none) :
    s.Untouched (syncBatch config ctx chain headers s).2 := by
  by_cases hsize : headers.length ≤ config.maxBatchSize
  case neg =>
    rw [syncBatch_of_lt ctx chain (Nat.lt_of_not_le hsize)]
    exact .refl s
  rw [syncBatch_of_le ctx chain hsize]
  refine bind_leads (R := State.Untouched) .trans ((genesisEpochs_reading chain).readOnly s) ?_
  intro g u hg
  obtain ⟨record, hbegun⟩ := genesisEpochs_ok hg
  exact nomatch hnone.symm.trans hbegun.genesis

end LightClient

end BridgeKernel
