import BridgeKernel.Proofs.Header.Justified

/-!
# What the report of a batch counts

Each header of a batch has its turn, between the states before and after it is taken in. One that is
stored already is skipped, and a new one is stored when it is verified. The canonical chain leaves
its tip when a heavier header comes that is not a child of the tip. That is told by a look at the
parent of the new header alone, as the tip is heaviest: it cannot be further down on the line of a
header, for the parent would outweigh it.
-/

namespace BridgeKernel

open Transition LightClient

namespace ChainMemory

variable {m m' : ChainMemory} {record : GenesisRecord} {tip T P H : TrustedHeader}

/-! ## Tips -/

/-- The header at the canonical height. -/
def tip? (m : ChainMemory) : Option TrustedHeader := do
  let level ← m.height?
  let hash ← m.canonical? level
  m.header? hash

theorem tip?_eq_some_iff : m.tip? = some tip ↔ m.Tip tip := by
  simp only [tip?, Tip, Option.bind_eq_bind, Option.bind_eq_some_iff, exists_and_left]

/-- A digest is that of a stored header that is canonical at its height. -/
def isCanonical (m : ChainMemory) (hash : Hash) : Bool :=
  (m.header? hash).any fun H => m.canonical? H.number = some hash

/-- That is what the light client answers. -/
theorem isCanonical_ok {chain : ChainId} {hash : Hash} {found : Bool} {s t : State}
    (h : LightClient.isCanonical chain hash s = (.ok found, t)) :
    found = (s.memory chain).isCanonical hash := by
  obtain ⟨header?, u, hload, h⟩ := bind_ok h
  obtain ⟨rfl, hu⟩ := State.load?_ok (mapError_ok hload)
  unfold isCanonical
  change _ = ((s.lookup (.header chain hash) : Option TrustedHeader)).any _
  cases hstored : (s.lookup (.header chain hash) : Option TrustedHeader) with
  | none =>
    rw [hstored] at h
    exact (pure_ok h).1
  | some H =>
    rw [hstored] at h
    obtain ⟨mark?, v, hload, h⟩ := bind_ok h
    obtain ⟨rfl, -⟩ := State.load?_ok (mapError_ok hload)
    rw [hu.lookup_eq] at h
    exact (pure_ok h).1

theorem isCanonical_of_header? (h : m.header? H.hash = some H) :
    m.isCanonical H.hash = true ↔ m.canonical? H.number = some H.hash := by
  rw [isCanonical, h, Option.any_some, decide_eq_true_iff]

/-- Every header above the genesis has a difficulty that is not zero. -/
def Rising (m : ChainMemory) : Prop := m.AllAbove fun H => 0 < H.header.difficulty.toNat

/-- A header above a stored one is not the genesis. -/
theorem Tree.ne_root (ht : m.Tree record) (hH : m.header? H.hash = some H)
    (hP : m.header? H.parentHash = some P) (hnumber : P.number.toNat + 1 = H.number.toNat) :
    H.hash ≠ record.hash := by
  intro he
  obtain ⟨G, hG, hn⟩ := ht.root
  rw [he, hG, Option.some.injEq] at hH
  have habove := ht.above hP
  rw [← hH, hn] at hnumber
  omega

/-- Below a marked header all markers are those of lighter ones. -/
theorem Marked.lighter {marks : UInt64 → Option Hash} {level : UInt64} {hash : Hash}
    (h : m.Marked record marks H) (ht : m.Tree record) (hbegun : m.genesis? = some record)
    (hrising : m.Rising) (hlow : record.number.toNat ≤ level.toNat)
    (hhigh : level.toNat < H.number.toNat) (hmark : marks level = some hash) :
    ∃ A, m.header? hash = some A ∧ A.weight.toNat < H.weight.toNat := by
  induction h with
  | root _ _ number => exact absurd (number ▸ hhigh) (Nat.not_lt_of_le hlow)
  | @child H P stored parent number mark below ih =>
    have hother := ht.ne_root stored parent number
    have hpositive := hrising record hbegun H.hash H stored hother
    obtain ⟨P', hP', -, hweight⟩ := ht.parent stored hother
    cases parent.symm.trans hP'
    by_cases hat : level = P.number
    · rw [hat, below.mark] at hmark
      cases hmark
      exact ⟨P, below.stored, by omega⟩
    · have hne : level.toNat ≠ P.number.toNat := fun e => hat (UInt64.toNat_inj.mp e)
      obtain ⟨A, hA, hlight⟩ := ih (by omega)
      exact ⟨A, hA, by omega⟩

/-- The parent of a new tip is marked below it. -/
theorem Canonical.parent_marked (h : m'.Canonical record T) (ht : m.Tree record)
    (hm : m.Extends m') (fresh : m.header? T.hash = none) (hP : m.header? T.parentHash = some P) :
    m'.Marked record m'.canonical? P ∧ P.number.toNat + 1 = T.number.toNat := by
  cases h.spine with
  | root _ hash =>
    obtain ⟨G, hG, -⟩ := ht.root
    rw [hash, hG] at fresh
    cases fresh
  | child _ parent number _ below =>
    obtain rfl := Option.some.inj ((hm.header hP).symm.trans parent)
    exact ⟨below, number⟩

/-- The old tip is left exactly when a new tip is not its child. -/
theorem Canonical.abandoned_iff (h : m.Canonical record tip) (h' : m'.Canonical record T)
    (ht : m.Tree record) (ht' : m'.Tree record) (hbegun : m'.genesis? = some record)
    (hrising : m'.Rising) (hm : m.Extends m') (fresh : m.header? T.hash = none)
    (hP : m.header? T.parentHash = some P) :
    m'.isCanonical tip.hash = false ↔ T.parentHash ≠ tip.hash := by
  obtain ⟨hmarked, hnumber⟩ := h'.parent_marked ht hm fresh hP
  rw [← Bool.not_eq_true, isCanonical_of_header? (hm.header h.spine.stored), not_iff_not]
  constructor
  · intro hmark
    have hname := ht.named hP
    obtain ⟨hlow, hhigh⟩ := h'.within hmark
    by_cases htop : tip.number = T.number
    · rw [htop, h'.spine.mark, Option.some.injEq] at hmark
      rw [hmark, h.spine.stored] at fresh
      cases fresh
    by_cases hat : tip.number = P.number
    · rw [hat, hmarked.mark, Option.some.injEq] at hmark
      rw [← hname, hmark]
    -- further down the old tip would be lighter than the parent, which it was heavier than
    · have hbelow : tip.number.toNat < P.number.toNat := by
        have hne : tip.number.toNat ≠ T.number.toNat := fun e => htop (UInt64.toNat_inj.mp e)
        have hne' : tip.number.toNat ≠ P.number.toNat := fun e => hat (UInt64.toNat_inj.mp e)
        omega
      obtain ⟨A, hA, hlight⟩ := hmarked.lighter ht' hbegun hrising hlow hbelow hmark
      obtain rfl := Option.some.inj ((hm.header h.spine.stored).symm.trans hA)
      exact absurd (h.heaviest hP) (Nat.not_le_of_lt hlight)
  · intro hchild
    rw [hchild, h.spine.stored, Option.some.injEq] at hP
    rw [hP]
    exact hmarked.mark

/-- Markers are moved for a header that is not a child of the tip exactly when the tip is left. -/
theorem Plans.abandons {update? : Option CanonicalUpdate} (h : m.Plans T tip update?)
    (hc : m.Canonical record tip) (ht : m.Tree record) (fresh : m.header? T.hash = none)
    (hP : m.header? T.parentHash = some P) (hnumber : P.number.toNat + 1 = T.number.toNat)
    (hlow : T.header.Low) (hm : m' = (m.setHeader T).move update?) (ht' : m'.Tree record)
    (hbegun : m'.genesis? = some record) (hrising : m'.Rising) :
    (update?.isSome && T.parentHash != tip.hash) = !m'.isCanonical tip.hash := by
  cases h with
  | stay hlight =>
    have hstays : m'.Canonical record tip := by
      rw [hm]
      exact hc.stay fresh hlight
    rw [(isCanonical_of_header? hstays.spine.stored).mpr hstays.spine.mark]
    rfl
  | move hheavy relabels =>
    have hmoves : m'.Canonical record T := by
      rw [hm]
      exact hc.move ht fresh hP hnumber hlow hheavy relabels
    have hextends : m.Extends m' := by
      rw [hm]
      exact .setHeader fresh _
    have hleaves := hc.abandoned_iff hmoves ht ht' hbegun hrising hextends fresh hP
    rw [Option.isSome_some, Bool.true_and, Bool.eq_iff_iff, bne_iff_ne, Bool.not_eq_true', hleaves]

end ChainMemory

namespace LightClient

open ChainMemory

/-! ## Turns -/

/-- A header of a batch, with what is remembered of its chain before and after its turn. -/
structure Turn where
  /-- The header. -/
  header : Header
  /-- What is remembered before. -/
  before : ChainMemory
  /-- What is remembered after. -/
  after : ChainMemory

namespace Turn

/-- The header was stored before its turn. -/
def known (turn : Turn) : Bool := (turn.before.header? turn.header.hash).isSome

/-- The canonical tip before the turn is no longer canonical after it. -/
def abandons (turn : Turn) : Bool :=
  turn.before.tip?.any fun tip => !turn.after.isCanonical tip.hash

/-- A turn with which a batch goes on. -/
inductive Taken : Turn → Prop
  /-- The header was stored, and nothing is changed. -/
  | skipped {header : Header} {m : ChainMemory} (stored : (m.header? header.hash).isSome = true) :
    Taken ⟨header, m, m⟩
  /-- The header was not stored beside the tip, and of all headers it alone is added. -/
  | accepted {header : Header} {m m' : ChainMemory} {tip T : TrustedHeader}
    (atTip : m.tip? = some tip) (fresh : m.header? header.hash = none) (same : T.header = header)
    (added : m'.header? = Function.update m.header? header.hash (some T)) :
    Taken ⟨header, m, m'⟩

end Turn

/-- Turns one after another, each from what the one before it left. -/
inductive Turns : ChainMemory → List Turn → ChainMemory → Prop
  /-- There is none. -/
  | nil (m : ChainMemory) : Turns m [] m
  /-- One is taken, and then the others. -/
  | cons {turn : Turn} {rest : List Turn} {m : ChainMemory} (taken : turn.Taken)
    (next : Turns turn.after rest m) : Turns turn.before (turn :: rest) m

/-- The turns that headers take from a state, up to the first header that is refused or at which the
store fails. What is remembered before and after a turn is what the states before and after the
header is taken in remember. -/
def turnsFrom (config : HeaderSyncConfig) (ctx : BlockContext) (chain : ChainId)
    (g : GenesisEpochs) : List Header → State → List Turn
  | [], _ => []
  | header :: rest, s =>
    match submit config ctx chain g header s with
    | (.error _, _) => []
    | (.ok fate, t) =>
      match fate.refusal? with
      | some _ => []
      | none => ⟨header, s.memory chain, t.memory chain⟩ :: turnsFrom config ctx chain g rest t

/-- The turns that the headers of a batch take. -/
def batchTurns (config : HeaderSyncConfig) (ctx : BlockContext) (chain : ChainId)
    (headers : List Header) (s : State) : List Turn :=
  match genesisEpochs chain s with
  | (.error _, _) => []
  | (.ok g, t) => turnsFrom config ctx chain g headers t

/-- A report that counts turns besides those that it has counted. -/
def tally (report : SyncReport) (turns : List Turn) : SyncReport :=
  { report with
    accepted := report.accepted + turns.countP fun turn => !turn.known
    skipped := report.skipped + turns.countP Turn.known
    reorgs := report.reorgs + turns.countP fun turn => !turn.known && turn.abandons }

variable {config : HeaderSyncConfig} {ctx : BlockContext} {chain : ChainId}
  {record : GenesisRecord} {g : GenesisEpochs} {header : Header} {s t u : State}

/-! ## The turn of one header -/

/-- A chain that has begun in a store in form, with its canonical chain and difficulties that are
not zero. -/
structure InOrder (s : State) (chain : ChainId) (record : GenesisRecord) (g : GenesisEpochs) :
    Prop where
  /-- The store is in form. -/
  form : s.WellFormed
  /-- The chain has begun. -/
  begun : (s.memory chain).Began record g
  /-- It has its canonical chain. -/
  sound : (s.memory chain).Sound
  /-- Difficulties are not zero. -/
  rising : (s.memory chain).Rising

/-- A verified header has a difficulty that is not zero. -/
theorem Verified.difficulty_pos {trusted parent : TrustedHeader} {pair : EpochPair}
    (h : Verified config chain g s trusted parent pair) :
    0 < trusted.header.difficulty.toNat := by
  rcases h.fields.difficulty with hd | hd
  · rw [hd]
    decide
  · rw [hd]
    decide

theorem Step.inOrder (h : Step Header.Low config chain s t) (hs : InOrder s chain record g) :
    InOrder t chain record g where
  form := h.writes.wellFormed hs.form
  begun := hs.begun.extends (h.extends hs.begun.genesis)
  sound := h.sound hs.sound
  rising := h.allAbove hs.sound (fun _ _ _ _ hverified => hverified.difficulty_pos) hs.rising

/-- What becomes of a header in its turn. -/
inductive Fares (config : HeaderSyncConfig) (ctx : BlockContext) (chain : ChainId)
    (g : GenesisEpochs) (header : Header) (s t : State) : HeaderFate → Prop
  /-- It is skipped. -/
  | known (taken : Turn.Taken ⟨header, s.memory chain, t.memory chain⟩)
    (old : Turn.known ⟨header, s.memory chain, t.memory chain⟩ = true) :
    Fares config ctx chain g header s t .known
  /-- It is stored, and the answer is whether the tip is left. -/
  | accepted (taken : Turn.Taken ⟨header, s.memory chain, t.memory chain⟩)
    (new : Turn.known ⟨header, s.memory chain, t.memory chain⟩ = false) :
    Fares config ctx chain g header s t
      (.accepted (Turn.abandons ⟨header, s.memory chain, t.memory chain⟩))
  /-- It is not stored and not verified, and nothing is changed. -/
  | rejected {u : State} {cause : HeaderError} (same : s.Untouched t)
    (new : (t.memory chain).header? header.hash = none) (before : u.Untouched t)
    (refused : (verifyHeader config ctx chain g header u).1 = .error cause) :
    Fares config ctx chain g header s t (.rejected cause)

/-- A verified header is added alone, and the answer is whether the old tip is left. -/
theorem storeHeader_abandons {trusted parent : TrustedHeader} {pair : EpochPair} {reorg : Bool}
    (hs : InOrder s chain record g) (ht : InOrder t chain record g)
    (fresh : (s.memory chain).header? trusted.hash = none) (hlow : trusted.header.Low)
    (hverified : Verified config chain g s trusted parent pair) (hu : s.Untouched u)
    (h : storeHeader chain trusted u = (.ok reorg, t)) :
    ∃ tip, (s.memory chain).tip? = some tip ∧
      (t.memory chain).header? =
        Function.update (s.memory chain).header? trusted.hash (some trusted) ∧
      reorg = !(t.memory chain).isCanonical tip.hash := by
  obtain ⟨tip, update?, rfl, hatTip, hplans, hfits, hchanged⟩ := storeHeader_answer h
  rw [hu.memory_eq] at hatTip hplans
  have hmemory : t.memory chain = ((s.memory chain).setHeader trusted).move update? := by
    rw [(hu.changed hchanged).memory_eq, memory_headerChanges hfits]
  obtain ⟨tip', htree, hcanonical⟩ := hs.sound.canonical hs.begun.genesis
  obtain ⟨-, htree', -⟩ := ht.sound.canonical ht.begun.genesis
  obtain rfl := hcanonical.tip_eq hatTip
  refine ⟨tip, tip?_eq_some_iff.mpr hatTip, ?_, ?_⟩
  · rw [hmemory, move_header?]
    rfl
  · exact hplans.abandons hcanonical htree fresh hverified.stored (hverified.number_succ htree)
      hlow hmemory htree' ht.begun.genesis ht.rising

/-- A header that is taken in fares as its turn tells, and the chain stays in order. -/
theorem submit_fares {fate : HeaderFate} (hs : InOrder s chain record g) (hlow : header.Low)
    (h : submit config ctx chain g header s = (.ok fate, t)) :
    InOrder t chain record g ∧ Fares config ctx chain g header s t fate := by
  have hstep := submit_step config ctx hlow hs.begun
  rw [h] at hstep
  have ht : InOrder t chain record g := hstep.inOrder hs
  refine ⟨ht, ?_⟩
  have hasks := isStored_reading chain header
  have hreads := verifyHeader_reading config ctx chain g header
  have hstored {found : Bool} {u : State} (asked : isStored chain header s = (.ok found, u)) :
      ((s.memory chain).header? header.hash).isSome = found := by
    rw [← hs.form.header_isSome]
    exact (State.has_ok (mapError_ok asked)).1.symm
  rw [submit_eq] at h
  cases takeIn_iff.mp h with
  | known asked =>
    have hsame := (hasks.untouched asked).memory_eq chain
    refine .known ?_ (hstored asked)
    rw [hsame]
    exact .skipped (hstored asked)
  | @rejected v _ cause asked refused =>
    have hv := hasks.untouched asked
    have hvt := hreads.untouched refused
    have hnew := hstored asked
    rw [← (hv.trans hvt).memory_eq, Option.isSome_eq_false_iff, Option.isNone_iff_eq_none] at hnew
    exact .rejected (hv.trans hvt) hnew hvt (congrArg Prod.fst refused)
  | @accepted v w _ trusted reorg asked verified stored =>
    obtain ⟨hw, rfl, hfresh, parent, pair, hverified⟩ := verified_of_new asked verified
    have hnew : (s.memory chain).header? trusted.hash = none := State.lookup_of_raw?_none hfresh
    obtain ⟨tip, htip, hadded, rfl⟩ := storeHeader_abandons hs ht hnew hlow hverified hw stored
    rw [hverified.hash] at hnew hadded
    have habandons : Turn.abandons ⟨trusted.header, s.memory chain, t.memory chain⟩ =
        !(t.memory chain).isCanonical tip.hash := by
      rw [Turn.abandons, htip, Option.any_some]
    rw [← habandons]
    refine .accepted (.accepted htip hnew rfl hadded) ?_
    rw [Turn.known, hnew]
    rfl

/-! ## The turns of a batch -/

section Turns

variable {fate : HeaderFate}

/-- No turn is taken by a refused header. -/
theorem turnsFrom_stop {cause : HeaderError}
    (h : submit config ctx chain g header s = (.ok fate, t)) (hstop : fate.refusal? = some cause)
    (rest : List Header) : turnsFrom config ctx chain g (header :: rest) s = [] := by
  simp only [turnsFrom, h, hstop]

/-- Any other one takes a turn between the states before and after it. -/
theorem turnsFrom_go (h : submit config ctx chain g header s = (.ok fate, t))
    (hgo : fate.refusal? = none) (rest : List Header) :
    turnsFrom config ctx chain g (header :: rest) s =
      ⟨header, s.memory chain, t.memory chain⟩ :: turnsFrom config ctx chain g rest t := by
  simp only [turnsFrom, h, hgo]

end Turns

theorem tally_known {turn : Turn} (report : SyncReport) (rest : List Turn)
    (h : turn.known = true) :
    tally report (turn :: rest) = tally { report with skipped := report.skipped + 1 } rest := by
  simp [tally, h, Nat.add_left_comm, Nat.add_comm]

theorem tally_new {turn : Turn} (report : SyncReport) (rest : List Turn)
    (h : turn.known = false) :
    tally report (turn :: rest) = tally
      { report with
        accepted := report.accepted + 1
        reorgs := report.reorgs + if turn.abandons then 1 else 0 } rest := by
  simp [tally, List.countP_cons, h, Nat.add_assoc, Nat.add_comm]

/-- Every turn is counted as that of a stored or of a known header. -/
theorem length_eq_counts (turns : List Turn) :
    turns.countP (fun turn => !turn.known) + turns.countP Turn.known = turns.length := by
  rw [Nat.add_comm, List.length_eq_countP_add_countP Turn.known]
  simp only [Bool.not_eq_true, Bool.decide_eq_false]

/-- The turns that a batch took of its headers, and why it took no more. -/
structure BatchTurns (config : HeaderSyncConfig) (ctx : BlockContext) (chain : ChainId)
    (g : GenesisEpochs) (headers : List Header) (s t : State) (turns : List Turn)
    (rejected : Option HeaderError) : Prop where
  /-- They lead from what was remembered to what is remembered. -/
  chained : Turns (s.memory chain) turns (t.memory chain)
  /-- They are those of the first headers. -/
  order : turns.map Turn.header = headers.take turns.length
  /-- They are those of all headers when none is refused. -/
  complete : rejected = none → turns.length = headers.length
  /-- Otherwise the header after them is not stored, and is refused for the reason told. -/
  refused : ∀ cause, rejected = some cause → ∃ header, headers[turns.length]? = some header ∧
    (t.memory chain).header? header.hash = none ∧ ∃ u : State, u.Untouched t ∧
      (verifyHeader config ctx chain g header u).1 = .error cause

namespace BatchTurns

variable {headers rest : List Header} {turns : List Turn} {rejected : Option HeaderError}

theorem cons (taken : Turn.Taken ⟨header, s.memory chain, u.memory chain⟩)
    (h : BatchTurns config ctx chain g rest u t turns rejected) :
    BatchTurns config ctx chain g (header :: rest) s t
      (⟨header, s.memory chain, u.memory chain⟩ :: turns) rejected where
  chained := .cons taken h.chained
  order := by rw [List.map_cons, h.order, List.length_cons, List.take_succ_cons]
  complete hnone := congrArg Nat.succ (h.complete hnone)
  refused := h.refused

/-- Reading before and after a batch does not matter for its turns. -/
theorem of_untouched {s' t' : State} (h : BatchTurns config ctx chain g headers s t turns rejected)
    (hs : s'.Untouched s) (ht : t.Untouched t') :
    BatchTurns config ctx chain g headers s' t' turns rejected where
  chained := by
    rw [← hs.memory_eq, ht.memory_eq]
    exact h.chained
  order := h.order
  complete := h.complete
  refused cause hcause := by
    obtain ⟨header, hat, hnew, u, hu, hrefused⟩ := h.refused cause hcause
    rw [← ht.memory_eq] at hnew
    exact ⟨header, hat, hnew, u, hu.trans ht, hrefused⟩

end BatchTurns

/-- A header that is not refused takes its turn, in which it is counted. -/
theorem Fares.taken {fate : HeaderFate} (h : Fares config ctx chain g header s t fate)
    (hgo : fate.refusal? = none) :
    Turn.Taken ⟨header, s.memory chain, t.memory chain⟩ ∧
      ∀ report rest, tally report (⟨header, s.memory chain, t.memory chain⟩ :: rest) =
        tally (report.count fate) rest := by
  cases h with
  | known taken old => exact ⟨taken, fun report rest => tally_known report rest old⟩
  | accepted taken new => exact ⟨taken, fun report rest => tally_new report rest new⟩
  | rejected => cases hgo

/-- With a refused header the turns come to an end. -/
theorem Fares.stops {fate : HeaderFate} {cause : HeaderError}
    (h : Fares config ctx chain g header s t fate) (hstop : fate.refusal? = some cause)
    (rest : List Header) : BatchTurns config ctx chain g (header :: rest) s t [] (some cause) := by
  cases h with
  | @rejected u _ same new before refused =>
    obtain rfl := Option.some.inj hstop
    refine ⟨?_, rfl, nofun, ?_⟩
    · rw [same.memory_eq]
      apply Turns.nil
    · intro told htold
      cases htold
      exact ⟨header, rfl, new, u, before, refused⟩
  | known | accepted => cases hstop

/-- Headers that are taken in one after another take their turns, and the report counts them. -/
theorem submitAll_turns {headers : List Header} {report : SyncReport} {outcome : BatchOutcome}
    (hs : InOrder s chain record g) (hlow : ∀ header ∈ headers, header.Low)
    (h : submitAll config ctx chain g headers report s = (.ok outcome, t)) :
    InOrder t chain record g ∧
      BatchTurns config ctx chain g headers s t (turnsFrom config ctx chain g headers s)
        outcome.rejected ∧
      outcome.report = tally report (turnsFrom config ctx chain g headers s) := by
  induction headers generalizing s report with
  | nil =>
    cases h
    exact ⟨hs, ⟨.nil _, rfl, fun _ => rfl, nofun⟩, rfl⟩
  | cons header rest ih =>
    rcases hone : submit config ctx chain g header s with ⟨e | fate, u⟩
    · rw [submitAll_break hone] at h
      cases h
    obtain ⟨hu, hfares⟩ := submit_fares hs (hlow header List.mem_cons_self) hone
    have hrest : ∀ header ∈ rest, header.Low := fun x hx => hlow x (List.mem_cons_of_mem header hx)
    cases hstop : fate.refusal? with
    | none =>
      obtain ⟨taken, hcount⟩ := hfares.taken hstop
      rw [submitAll_go hone hstop] at h
      rw [turnsFrom_go hone hstop]
      obtain ⟨ht, hturns, hreport⟩ := ih hu hrest h
      exact ⟨ht, hturns.cons taken, hreport.trans (hcount report _).symm⟩
    | some cause =>
      rw [submitAll_stop hone hstop] at h
      rw [turnsFrom_stop hone hstop]
      cases h
      exact ⟨hu, hfares.stops hstop rest, rfl⟩

/-- A batch that comes to a report counts the turns of its headers, and tells the height of the
canonical tip after them. -/
theorem syncBatch_turns {headers : List Header} {outcome : BatchOutcome}
    (hform : s.WellFormed) (hsound : (s.memory chain).Sound) (hrising : (s.memory chain).Rising)
    (hlow : ∀ header ∈ headers, header.Low)
    (h : syncBatch config ctx chain headers s = (.ok outcome, t)) :
    ∃ record g turns tip, turns = batchTurns config ctx chain headers s ∧
      (s.memory chain).Began record g ∧
      BatchTurns config ctx chain g headers s t turns outcome.rejected ∧
      (t.memory chain).Canonical record tip ∧
      outcome.report = ⟨turns.countP fun turn => !turn.known, turns.countP Turn.known,
        turns.countP fun turn => !turn.known && turn.abandons, tip.number⟩ := by
  by_cases hsize : headers.length ≤ config.maxBatchSize
  case neg =>
    rw [syncBatch_of_lt ctx chain (Nat.lt_of_not_le hsize)] at h
    exact (throw_ok h).elim
  rw [syncBatch_of_le ctx chain hsize] at h
  obtain ⟨g, u, hg, h⟩ := bind_ok h
  have hu := (genesisEpochs_reading chain).untouched hg
  obtain ⟨record, hbegun⟩ := genesisEpochs_ok hg
  have hs : InOrder s chain record g := ⟨hform, hbegun, hsound, hrising⟩
  have hquiet : Step Header.Low config chain s u := .quiet hu
  obtain ⟨found, v, hall, h⟩ := bind_ok h
  obtain ⟨hv, hturns, hreport⟩ := submitAll_turns (hquiet.inOrder hs) hlow hall
  have ht := (finish_readOnly chain found).untouched h
  obtain ⟨tip, -, hcanonical⟩ := hv.sound.canonical hv.begun.genesis
  obtain ⟨level, hlevel, rfl⟩ := finish_answer h
  obtain rfl : tip.number = level := Option.some.inj (hcanonical.height.symm.trans hlevel)
  have hbatch : turnsFrom config ctx chain g headers u = batchTurns config ctx chain headers s := by
    rw [batchTurns, hg]
  refine ⟨record, g, _, tip, hbatch, hbegun, hturns.of_untouched hu ht, ?_, ?_⟩
  · rw [ht.memory_eq]
    exact hcanonical
  · simp only [hreport, tally, Nat.zero_add]

end LightClient

end BridgeKernel
