import BridgeKernel.Proofs.Header.Tree

/-!
# The canonical chain

The markers of a chain name one header at each height from the genesis to the tip, each the parent
of the next, and none elsewhere; the tip is the heaviest header. When a heavier header comes, the
markers above it are cleared and its ancestors are marked down to the first one that is marked
already. That one is met at the genesis at the latest, and below it the markers were right before.
-/

namespace BridgeKernel

namespace ChainMemory

/-! ## Markers down to the genesis -/

/-- A header and all its ancestors are marked, down to the genesis. -/
inductive Marked (m : ChainMemory) (record : GenesisRecord) (marks : UInt64 → Option Hash) :
    TrustedHeader → Prop
  /-- The genesis is marked. -/
  | root {G : TrustedHeader} (stored : m.header? G.hash = some G) (hash : G.hash = record.hash)
    (number : G.number = record.number) (mark : marks G.number = some G.hash) :
    Marked m record marks G
  /-- A header above a marked one is marked. -/
  | child {H P : TrustedHeader} (stored : m.header? H.hash = some H)
    (parent : m.header? H.parentHash = some P) (number : P.number.toNat + 1 = H.number.toNat)
    (mark : marks H.number = some H.hash) (below : Marked m record marks P) :
    Marked m record marks H

namespace Marked

variable {m m' : ChainMemory} {record : GenesisRecord} {marks marks' : UInt64 → Option Hash}
  {H : TrustedHeader}

theorem stored (h : m.Marked record marks H) : m.header? H.hash = some H := by
  cases h with
  | root stored => exact stored
  | child stored => exact stored

theorem mark (h : m.Marked record marks H) : marks H.number = some H.hash := by
  cases h with
  | root _ _ _ mark => exact mark
  | child _ _ _ mark => exact mark

/-- Markers above a header do not matter for it, nor do headers beside its ancestors. -/
theorem transfer (h : m.Marked record marks H)
    (hheader : ∀ {hash A}, m.header? hash = some A → m'.header? hash = some A)
    (hmarks : ∀ level : UInt64, level.toNat ≤ H.number.toNat → marks' level = marks level) :
    m'.Marked record marks' H := by
  induction h with
  | root stored hash number mark =>
    exact .root (hheader stored) hash number ((hmarks _ (Nat.le_refl _)).trans mark)
  | child stored parent number mark _ ih =>
    refine .child (hheader stored) (hheader parent) number
      ((hmarks _ (Nat.le_refl _)).trans mark) (ih fun level hl => hmarks level ?_)
    omega

/-- At every height from the genesis to a marked header stands a marked header. -/
theorem at_level (h : m.Marked record marks H) {level : UInt64}
    (hlow : record.number.toNat ≤ level.toNat) (hhigh : level.toNat ≤ H.number.toNat) :
    ∃ A, A.number = level ∧ m.Marked record marks A := by
  induction h with
  | @root G stored hash number mark =>
    refine ⟨G, UInt64.toNat_inj.mp ?_, .root stored hash number mark⟩
    rw [number] at hhigh ⊢
    omega
  | @child H P stored parent number mark below ih =>
    by_cases htop : level = H.number
    · exact ⟨H, htop.symm, .child stored parent number mark below⟩
    · have hne : level.toNat ≠ H.number.toNat := fun e => htop (UInt64.toNat_inj.mp e)
      exact ih (by omega)

end Marked

/-- The markers of a chain whose tip is a given header. -/
structure Canonical (m : ChainMemory) (record : GenesisRecord) (tip : TrustedHeader) : Prop where
  /-- The canonical height is that of the tip. -/
  height : m.height? = some tip.number
  /-- The tip and its ancestors are marked. -/
  spine : m.Marked record m.canonical? tip
  /-- Nothing is marked elsewhere. -/
  within : ∀ {level hash}, m.canonical? level = some hash →
    record.number.toNat ≤ level.toNat ∧ level.toNat ≤ tip.number.toNat
  /-- No header is heavier than the tip. -/
  heaviest : ∀ {hash H}, m.header? hash = some H → H.weight.toNat ≤ tip.weight.toNat

namespace Canonical

variable {m : ChainMemory} {record : GenesisRecord} {tip : TrustedHeader}

/-- Some digest is marked at the heights from the genesis to the tip and at no others. -/
theorem isSome_iff (h : m.Canonical record tip) {level : UInt64} :
    (m.canonical? level).isSome = true ↔
      record.number.toNat ≤ level.toNat ∧ level.toNat ≤ tip.number.toNat := by
  constructor
  · intro hmark
    obtain ⟨hash, hmark⟩ := Option.isSome_iff_exists.mp hmark
    exact h.within hmark
  · rintro ⟨hlow, hhigh⟩
    obtain ⟨A, rfl, hA⟩ := h.spine.at_level hlow hhigh
    rw [hA.mark]
    rfl

theorem atTip (h : m.Canonical record tip) : m.Tip tip :=
  ⟨tip.number, tip.hash, h.height, h.spine.mark, h.spine.stored⟩

theorem tip_eq (h : m.Canonical record tip) {found : TrustedHeader} (ht : m.Tip found) :
    found = tip := by
  obtain ⟨level, hash, hlevel, hhash, hfound⟩ := ht
  cases hlevel.symm.trans h.height
  cases hhash.symm.trans h.spine.mark
  exact Option.some.inj (hfound.symm.trans h.spine.stored)

/-- A marked digest is that of a header whose ancestors are marked as well. -/
theorem marked (h : m.Canonical record tip) {level : UInt64} {hash : Hash}
    (hmark : m.canonical? level = some hash) :
    ∃ A, A.hash = hash ∧ A.number = level ∧ m.Marked record m.canonical? A := by
  obtain ⟨hlow, hhigh⟩ := h.within hmark
  obtain ⟨A, rfl, hA⟩ := h.spine.at_level hlow hhigh
  exact ⟨A, Option.some.inj (hA.mark.symm.trans hmark), rfl, hA⟩

/-- Below a marked header above the genesis its parent is marked. -/
theorem parent_mark {A : TrustedHeader} (h : m.Marked record m.canonical? A) (ht : m.Tree record)
    (ha : record.number.toNat < A.number.toNat) :
    m.canonical? (A.number - 1) = some A.parentHash := by
  cases h with
  | root _ _ number => exact absurd (congrArg UInt64.toNat number) (Nat.ne_of_gt ha)
  | @child _ P stored parent number mark below =>
    have hbelow : A.number - 1 = P.number := by
      have hone : (1 : UInt64) ≤ A.number := by
        rw [UInt64.le_iff_toNat_le, UInt64.toNat_one]
        omega
      apply UInt64.toNat_inj.mp
      rw [UInt64.toNat_sub_of_le _ _ hone, UInt64.toNat_one]
      omega
    rw [hbelow, below.mark, ht.named parent]

/-- The genesis is marked. -/
theorem root_mark (h : m.Canonical record tip) (ht : m.Tree record) :
    m.canonical? record.number = some record.hash := by
  obtain ⟨A, hn, hA⟩ := h.spine.at_level (Nat.le_refl _) (ht.above h.spine.stored)
  rw [← hn, hA.mark, ht.hash_eq_of_number hA.stored hn]

end Canonical

/-! ## Moving markers -/

/-- The heights above a low one are those of larger numbers. -/
theorem mem_heightsAbove_iff {low high level : UInt64} (h : low.toNat + 1 < 2 ^ 64) :
    level ∈ heightsFrom (low + 1) high ↔
      low.toNat < level.toNat ∧ level.toNat ≤ high.toNat := by
  rw [mem_heightsFrom, UInt64.le_iff_toNat_le, UInt64.le_iff_toNat_le, toNat_succ h]
  exact Iff.rfl

section

variable {marks : UInt64 → Option Hash} {clear : List UInt64} {assign : List (UInt64 × Hash)}
  {level : UInt64}

theorem remark_cons (l : UInt64) (hash : Hash) :
    remark marks clear ((l, hash) :: assign) =
      remark (Function.update (remark marks clear []) l (some hash)) [] assign := rfl

theorem remark_clear :
    remark marks clear [] level = if level ∈ clear then none else marks level := by
  induction clear generalizing marks with
  | nil => rfl
  | cons l clear ih =>
    change remark (Function.update marks l none) clear [] level = _
    rw [ih]
    by_cases hl : level = l
    · simp [hl]
    · simp [hl, Function.update_of_ne]

/-- A height that is not set keeps the marker that clearing leaves it. -/
theorem remark_of_not_assigned (h : ∀ e ∈ assign, e.1 ≠ level) :
    remark marks clear assign level = if level ∈ clear then none else marks level := by
  induction assign generalizing marks clear with
  | nil => exact remark_clear
  | cons e assign ih =>
    have he := h e List.mem_cons_self
    rw [remark_cons, ih fun d hd => h d (List.mem_cons_of_mem _ hd),
      Function.update_of_ne (Ne.symm he), if_neg List.not_mem_nil]
    exact remark_clear

/-- The highest height that is set has the digest that it was set to. -/
theorem remark_head {hash : Hash} (h : ∀ e ∈ assign, e.1.toNat < level.toNat) :
    remark marks clear ((level, hash) :: assign) level = some hash := by
  have hother : ∀ e ∈ assign, e.1 ≠ level := fun e he heq =>
    Nat.ne_of_lt (h e he) (congrArg UInt64.toNat heq)
  rw [remark_cons, remark_of_not_assigned hother]
  simp

/-- What is set at a height depends on the marker there only. -/
theorem remark_congr {marks' : UInt64 → Option Hash} (h : marks level = marks' level) :
    remark marks [] assign level = remark marks' [] assign level := by
  induction assign generalizing marks marks' with
  | nil => exact h
  | cons e assign ih =>
    rw [remark_cons, remark_cons]
    refine ih ?_
    by_cases he : level = e.1
    · simp [he]
    · rw [Function.update_of_ne he, Function.update_of_ne he]
      exact h

/-- Setting one height does not matter at a lower one. -/
theorem remark_tail {l : UInt64} {hash : Hash} (hl : level.toNat < l.toNat)
    (hclear : level ∉ clear) :
    remark marks clear ((l, hash) :: assign) level = remark marks [] assign level := by
  have hother : level ≠ l := fun heq => Nat.ne_of_lt hl (congrArg UInt64.toNat heq)
  rw [remark_cons]
  refine remark_congr ?_
  rw [Function.update_of_ne hother, remark_clear, if_neg hclear]

end

namespace Relabels

variable {m : ChainMemory} {record : GenesisRecord} {tip A : TrustedHeader} {level : Nat}
  {hash : Hash} {labels : List (UInt64 × Hash)}

/-- A header that is not marked at its height is not the genesis. -/
theorem ne_root (ht : m.Tree record) (hc : m.Canonical record tip)
    (hA : m.header? hash = some A) (h : m.canonical? A.number ≠ some hash) :
    hash ≠ record.hash := by
  rintro rfl
  obtain ⟨G, hG, hn⟩ := ht.root
  cases hG.symm.trans hA
  exact h (hn ▸ hc.root_mark ht)

/-- Markers are set below the level, and not below the genesis. -/
theorem entries (h : m.Relabels level hash labels) (ht : m.Tree record)
    (hc : m.Canonical record tip) (hA : m.header? hash = some A)
    (hlevel : A.number.toNat + 1 = level) :
    ∀ e ∈ labels, e.1.toNat < level ∧ record.number.toNat ≤ e.1.toNat := by
  induction h generalizing A with
  | bottom => simp
  | marked => simp
  | @unmarked level hash ancestor below hmark stored rest ih =>
    obtain rfl : A = ancestor := Option.some.inj (hA.symm.trans stored)
    have hnumber : UInt64.ofNat level = A.number := by
      rw [← Nat.succ.inj hlevel, UInt64.ofNat_toNat]
    rw [hnumber] at hmark ⊢
    obtain ⟨P, hP, hn, -⟩ := ht.parent hA (ne_root ht hc hA hmark)
    intro e he
    rcases List.mem_cons.mp he with rfl | he
    · exact ⟨by dsimp only; omega, ht.above hA⟩
    · have hbelow := ih hP (by omega) e he
      exact ⟨by omega, hbelow.2⟩

/-- Where markers were set as planned, a header and all its ancestors are marked. -/
theorem spine (h : m.Relabels level hash labels) (ht : m.Tree record)
    (hc : m.Canonical record tip) (hA : m.header? hash = some A)
    (hlevel : A.number.toNat + 1 = level) {marks : UInt64 → Option Hash}
    (hmarks : ∀ l : UInt64, l.toNat < level → marks l = remark m.canonical? [] labels l) :
    m.Marked record marks A := by
  induction h generalizing A with
  | bottom => omega
  | @marked level hash hmark =>
    rw [← Nat.succ.inj hlevel, UInt64.ofNat_toNat] at hmark
    obtain ⟨B, rfl, -, hB⟩ := hc.marked hmark
    obtain rfl : A = B := Option.some.inj (hA.symm.trans hB.stored)
    exact hB.transfer id fun l hl => hmarks l (by omega)
  | @unmarked level hash ancestor below hmark stored rest ih =>
    obtain rfl : A = ancestor := Option.some.inj (hA.symm.trans stored)
    have hnumber : UInt64.ofNat level = A.number := by
      rw [← Nat.succ.inj hlevel, UInt64.ofNat_toNat]
    rw [hnumber] at hmark hmarks
    obtain ⟨P, hP, hn, -⟩ := ht.parent hA (ne_root ht hc hA hmark)
    have hbelow := rest.entries ht hc hP (by omega)
    have hname := ht.named hA
    subst hname
    refine .child hA hP hn ?_ (ih hP (by omega) fun l hl => ?_)
    · rw [hmarks _ (by omega)]
      exact remark_head fun e he => Nat.succ.inj hlevel ▸ (hbelow e he).1
    · rw [hmarks l (by omega)]
      exact remark_tail (by omega) List.not_mem_nil

end Relabels

/-! ## Every step keeps the chain canonical -/

namespace Canonical

variable {m : ChainMemory} {record : GenesisRecord} {tip T P : TrustedHeader}

/-- A header that does not outweigh the tip leaves the chain as it is. -/
theorem stay (h : m.Canonical record tip) (fresh : m.header? T.hash = none)
    (hT : T.weight ≤ tip.weight) : (m.setHeader T).Canonical record tip := by
  refine ⟨h.height, h.spine.transfer (setHeader_of_some fresh) fun _ _ => rfl, h.within, ?_⟩
  intro hash H hH
  rw [setHeader_header?] at hH
  split at hH
  · cases hH
    exact BitVec.le_def.mp hT
  · exact h.heaviest hH

/-- A header that outweighs the tip becomes the tip. -/
theorem move (h : m.Canonical record tip) (ht : m.Tree record) (fresh : m.header? T.hash = none)
    (hstored : m.header? T.parentHash = some P) (hnumber : P.number.toNat + 1 = T.number.toNat)
    (hlow : T.header.Low) (hT : tip.weight < T.weight) {below : List (UInt64 × Hash)}
    (hbelow : m.Relabels T.number.toNat T.parentHash below) :
    ((m.setHeader T).move (some {
      clear := heightsFrom (T.number + 1) tip.number
      assign := (T.number, T.hash) :: below
      newHeight := T.number })).Canonical record T := by
  have hentries := hbelow.entries ht h hstored hnumber
  have hbound : T.number.toNat + 1 < 2 ^ 64 := hlow
  have hsame (l : UInt64) (hl : l.toNat < T.number.toNat) :
      remark m.canonical? (heightsFrom (T.number + 1) tip.number) ((T.number, T.hash) :: below) l =
        remark m.canonical? [] below l := by
    refine remark_tail hl fun hm => ?_
    have habove := ((mem_heightsAbove_iff hbound).mp hm).1
    omega
  have hspine := hbelow.spine ht h hstored hnumber hsame
  refine ⟨rfl, ?_, ?_, ?_⟩
  · refine .child ?_ (P := P) ?_ hnumber ?_ ?_
    · rw [move_header?, setHeader_header?, if_pos rfl]
    · rw [move_header?]
      exact setHeader_of_some fresh hstored
    · exact remark_head fun e he => (hentries e he).1
    · refine hspine.transfer (fun hA => ?_) fun _ _ => rfl
      rw [move_header?]
      exact setHeader_of_some fresh hA
  · intro level hash hmark
    change remark m.canonical? _ _ level = some hash at hmark
    have hP := ht.above hstored
    by_cases hassigned : ∀ e ∈ (T.number, T.hash) :: below, e.1 ≠ level
    · rw [remark_of_not_assigned hassigned] at hmark
      split at hmark
      · cases hmark
      · next hkept =>
        obtain ⟨hfrom, hto⟩ := h.within hmark
        rw [mem_heightsAbove_iff hbound] at hkept
        omega
    · push Not at hassigned
      obtain ⟨e, he, rfl⟩ := hassigned
      rcases List.mem_cons.mp he with rfl | he
      · exact ⟨by dsimp only; omega, Nat.le_refl _⟩
      · have hentry := hentries e he
        exact ⟨hentry.2, by omega⟩
  · intro hash H hH
    rw [move_header?, setHeader_header?] at hH
    split at hH
    · cases hH
      exact Nat.le_refl _
    · exact Nat.le_trans (h.heaviest hH) (Nat.le_of_lt (BitVec.lt_def.mp hT))

end Canonical

/-- The memory of a chain is blank, or a tree with a canonical chain. -/
inductive Sound (m : ChainMemory) : Prop
  /-- The chain has not begun. -/
  | blank (h : m.Blank) : Sound m
  /-- The chain has begun. -/
  | begun {record : GenesisRecord} {tip : TrustedHeader} (genesis : m.genesis? = some record)
    (tree : m.Tree record) (canonical : m.Canonical record tip) : Sound m

/-- A sound memory of a chain that has begun is a tree with a canonical chain. -/
theorem Sound.canonical {m : ChainMemory} {record : GenesisRecord} (h : m.Sound)
    (genesis : m.genesis? = some record) : ∃ tip, m.Tree record ∧ m.Canonical record tip := by
  cases h with
  | blank hblank => exact nomatch hblank.genesis.symm.trans genesis
  | @begun found tip hfound tree canonical =>
    cases hfound.symm.trans genesis
    exact ⟨tip, tree, canonical⟩

/-- A chain that begins has its genesis for a tip. -/
theorem Blank.begin {m : ChainMemory} {record : GenesisRecord} {G : TrustedHeader}
    {start next : UInt64} {prior current : ValidatorEpoch} (h : m.Blank)
    (hhash : G.hash = record.hash) (hn : G.number = record.number) (hlow : G.header.Low)
    (hlight : G.weight.toNat ≤ 2 ^ 64) :
    ((((((m.setHeader G).setMark G.number (some G.hash)).setHeight G.number).setGenesis
      record).setEpoch start prior).setEpoch next current).Sound := by
  have htree := Tree.of_blank h hhash hn hlow hlight
  refine .begun rfl (htree.congr (m := m.setHeader G) rfl)
    ⟨rfl, .root (Function.update_self _ _ _) hhash hn (Function.update_self _ _ _),
      fun {level hash} hmark => ?_, fun {hash H} hH => ?_⟩
  · change Function.update m.canonical? G.number (some G.hash) level = some hash at hmark
    by_cases hat : level = G.number
    · rw [hat, hn]
      exact ⟨Nat.le_refl _, Nat.le_refl _⟩
    · rw [Function.update_of_ne hat, h.canonical] at hmark
      cases hmark
  · change (m.setHeader G).header? hash = some H at hH
    rw [setHeader_header?] at hH
    split at hH
    · cases hH
      exact Nat.le_refl _
    · exact nomatch (h.header _).symm.trans hH

/-- A verified child of a trusted header leaves the chain sound. -/
theorem Sound.grow {m : ChainMemory} {record : GenesisRecord} {tip T P : TrustedHeader}
    {update? : Option CanonicalUpdate} (genesis : m.genesis? = some record)
    (ht : m.Tree record) (hc : m.Canonical record tip) (fresh : m.header? T.hash = none)
    (hstored : m.header? T.parentHash = some P) (hnumber : P.number.toNat + 1 = T.number.toNat)
    (hlow : T.header.Low) (hd : T.header.difficulty.toNat ≤ 2)
    (hweight : T.weight = P.weight + BitVec.ofNat 128 T.header.difficulty.toNat)
    (hplans : m.Plans T tip update?) : ((m.setHeader T).move update?).Sound := by
  have htree := ht.setHeader fresh hstored hnumber hlow hd hweight
  cases hplans with
  | stay h => exact .begun genesis htree (hc.stay fresh h)
  | move h relabels =>
    exact .begun genesis (htree.congr (move_header? _ _))
      (hc.move ht fresh hstored hnumber hlow h relabels)

end ChainMemory

namespace LightClient

open ChainMemory

variable {config : HeaderSyncConfig} {chain : ChainId} {s t : State}

/-- A verified header stands one above its parent. -/
theorem Verified.number_succ {record : GenesisRecord} {g : GenesisEpochs}
    {trusted parent : TrustedHeader} {pair : EpochPair}
    (h : Verified config chain g s trusted parent pair) (ht : (s.memory chain).Tree record) :
    parent.number.toNat + 1 = trusted.number.toNat := by
  change parent.header.number.toNat + 1 = trusted.header.number.toNat
  rw [h.follows.number]
  exact (toNat_succ (ht.low h.stored)).symm

/-- A step keeps the memory of its chain sound. -/
theorem Step.sound (h : Step Header.Low config chain s t) (hs : (s.memory chain).Sound) :
    (t.memory chain).Sound := by
  cases h with
  | quiet h => rwa [h.memory_eq]
  | @began header validators prior hlow fresh place begins =>
    rw [begins.changed.memory_eq,
      memory_genesisChanges begins.fits begins.fitsPrior begins.fitsCurrent]
    cases hs with
    | begun genesis => exact nomatch genesis.symm.trans (State.lookup_of_raw?_none fresh)
    | blank hblank =>
      have hd := header.difficulty.toNat_lt
      have hlight : (trustedGenesis header).weight.toNat ≤ 2 ^ 64 := by
        simp only [trustedGenesis, BitVec.toNat_ofNat]
        omega
      have hhash : (trustedGenesis header).hash = (genesisRecord config header).hash := rfl
      exact hblank.begin hhash rfl hlow hlight
  | @grew record g trusted parent tip pair update? hlow hbegun fresh verified atTip plans fits
      changed =>
    rw [changed.memory_eq, memory_headerChanges fits]
    cases hs with
    | blank hblank => exact nomatch hblank.genesis.symm.trans hbegun.genesis
    | begun genesis htree hcanonical =>
      obtain rfl := hcanonical.tip_eq atTip
      refine .grow genesis htree hcanonical (State.lookup_of_raw?_none fresh) verified.stored
        (verified.number_succ htree) hlow ?_ verified.weight plans
      rcases verified.fields.difficulty with hd | hd
      · rw [hd]
        decide
      · rw [hd]
        decide

end LightClient

end BridgeKernel
