import BridgeKernel.Proofs.Header.Canonical

/-!
# Markers up to the tip

Above every marker below the tip stands the marker of a child. A new tip keeps this whatever its
height is: markers above it are cleared, and below it they are set without a gap down to the first
one that is right already. Where the height after the new tip wraps all old markers are cleared, and
then the ones that are set stand alone. Heights along the markers are those of their headers, unless
the genesis names a stored header as its parent, so that a header is among its own ancestors.
-/

namespace BridgeKernel

namespace ChainMemory

/-- The markers up to a tip. -/
structure Buried (m : ChainMemory) (tip : TrustedHeader) : Prop where
  /-- The canonical height is that of the tip. -/
  height : m.height? = some tip.number
  /-- The tip is marked. -/
  mark : m.canonical? tip.number = some tip.hash
  /-- The tip is stored. -/
  stored : m.header? tip.hash = some tip
  /-- Headers are kept under their digests. -/
  named : ∀ {hash H}, m.header? hash = some H → H.hash = hash ∧ H.header.hash = hash
  /-- What is marked is stored. -/
  marked : ∀ {level hash}, m.canonical? level = some hash → ∃ H, m.header? hash = some H
  /-- Nothing is marked above the tip. -/
  within : ∀ {level hash}, m.canonical? level = some hash → level.toNat ≤ tip.number.toNat
  /-- Above a marker below the tip stands the marker of a child. -/
  covered : ∀ {level hash}, m.canonical? level = some hash → level.toNat < tip.number.toNat →
    ∃ D, m.header? D.hash = some D ∧ m.canonical? (level + 1) = some D.hash ∧ D.parentHash = hash

/-- Below every header but the genesis stands its parent, one height lower. -/
structure Rooted (m : ChainMemory) (record : GenesisRecord) : Prop where
  /-- The genesis is there. -/
  root : ∃ G, m.header? record.hash = some G
  /-- Every other header has a parent. -/
  parent : ∀ {hash H}, m.header? hash = some H → hash ≠ record.hash →
    ∃ P, m.header? H.parentHash = some P ∧ H.number = P.number + 1

/-- The genesis names a stored header as its parent. -/
def Looped (m : ChainMemory) (record : GenesisRecord) : Prop :=
  ∃ G P, m.header? record.hash = some G ∧ m.header? G.parentHash = some P

/-- What is marked at a height has that height. -/
def Numbered (m : ChainMemory) : Prop :=
  ∀ {level hash H}, m.canonical? level = some hash → m.header? hash = some H → H.number = level

/-- Between a marker and the tip every height has the marker of a stored header, whose parent is
marked below it. -/
theorem Buried.descends {m : ChainMemory} {tip : TrustedHeader} (h : m.Buried tip) {low : UInt64}
    {hash : Hash} (hmark : m.canonical? low = some hash) {level : UInt64}
    (hlow : low.toNat < level.toNat) (hhigh : level.toNat ≤ tip.number.toNat) :
    ∃ D, m.header? D.hash = some D ∧ m.canonical? level = some D.hash ∧
      m.canonical? (level - 1) = some D.parentHash := by
  have hpred (l : UInt64) (hl : 0 < l.toNat) : (l - 1).toNat + 1 = l.toNat ∧ l - 1 + 1 = l := by
    have hone : (1 : UInt64) ≤ l := UInt64.le_iff_toNat_le.mpr hl
    refine ⟨?_, UInt64.sub_add_cancel l 1⟩
    rw [UInt64.toNat_sub_of_le _ _ hone, UInt64.toNat_one]
    omega
  obtain ⟨n, hn⟩ := Nat.exists_eq_add_of_lt hlow
  induction n generalizing level with
  | zero =>
    obtain ⟨hlevel, hback⟩ := hpred level (by omega)
    obtain rfl : level - 1 = low := UInt64.toNat_inj.mp (by omega)
    obtain ⟨D, hD, hchild, rfl⟩ := h.covered hmark (by omega)
    rw [hback] at hchild
    exact ⟨D, hD, hchild, hmark⟩
  | succ n ih =>
    obtain ⟨hlevel, hback⟩ := hpred level (by omega)
    obtain ⟨P, -, hbelow, -⟩ := @ih (level - 1) (by omega) (by omega) (by omega)
    obtain ⟨D, hD, hchild, hparent⟩ := h.covered hbelow (by omega)
    rw [hback] at hchild
    exact ⟨D, hD, hchild, hparent ▸ hbelow⟩

/-! ## Clearing -/

section

variable {base : UInt64 → Option Hash} {assign : List (UInt64 × Hash)}

/-- A marker was either set or there before. -/
theorem mem_of_remark {level : UInt64} {hash : Hash} (h : remark base [] assign level = some hash) :
    (level, hash) ∈ assign ∨ base level = some hash := by
  induction assign generalizing base with
  | nil => exact .inr h
  | cons e assign ih =>
    rw [remark_cons] at h
    rcases ih h with hmem | hbase
    · exact .inl (List.mem_cons_of_mem e hmem)
    · by_cases he : level = e.1
      · rw [he, Function.update_self] at hbase
        obtain rfl := Option.some.inj hbase
        rw [he]
        exact .inl List.mem_cons_self
      · rw [Function.update_of_ne he] at hbase
        exact .inr hbase

end

/-- The markers that clearing leaves below a new height. -/
structure Cleared (m : ChainMemory) (new : UInt64) (base : UInt64 → Option Hash) : Prop where
  /-- What is left was there, and is not above the new height. -/
  left : ∀ {level hash}, base level = some hash →
    m.canonical? level = some hash ∧ level.toNat ≤ new.toNat
  /-- Below the new height either everything is left or nothing. -/
  below : (∀ level : UInt64, level.toNat < new.toNat → base level = m.canonical? level) ∨
    ∀ level, base level = none

theorem Buried.cleared {m : ChainMemory} {tip : TrustedHeader} (h : m.Buried tip) (new : UInt64) :
    m.Cleared new (remark m.canonical? (heightsFrom (new + 1) tip.number) []) := by
  by_cases hlow : new.toNat + 1 < 2 ^ 64
  · constructor
    · intro level hash hleft
      rw [remark_clear] at hleft
      split at hleft
      · cases hleft
      · next hkept =>
        have hwithin := h.within hleft
        rw [mem_heightsAbove_iff hlow] at hkept
        exact ⟨hleft, by omega⟩
    · left
      intro level hlevel
      rw [remark_clear, if_neg]
      rw [mem_heightsAbove_iff hlow]
      omega
  · -- The next height is zero, so nothing is left.
    have hnone (level : UInt64) :
        remark m.canonical? (heightsFrom (new + 1) tip.number) [] level = none := by
      have hnew := new.toNat_lt
      have hzero : new + 1 = 0 := by
        apply UInt64.toNat_inj.mp
        rw [UInt64.toNat_add]
        have hmax : new.toNat = 2 ^ 64 - 1 := by omega
        rw [hmax]
        rfl
      rw [remark_clear, hzero]
      split
      · rfl
      · next hkept =>
        cases hmark : m.canonical? level with
        | none => rfl
        | some hash =>
          refine absurd (mem_heightsFrom.mpr ⟨?_, ?_⟩) hkept
          · exact UInt64.le_iff_toNat_le.mpr (Nat.zero_le _)
          · exact UInt64.le_iff_toNat_le.mpr (h.within hmark)
    refine ⟨fun {level hash} hleft => ?_, .inr hnone⟩
    rw [hnone] at hleft
    cases hleft

/-! ## Setting -/

namespace Relabels

variable {m : ChainMemory} {record : GenesisRecord} {tip A : TrustedHeader} {level : Nat}
  {hash : Hash} {labels : List (UInt64 × Hash)}

theorem toNat_level {level : Nat} (h : level < 2 ^ 64) : (UInt64.ofNat level).toNat = level :=
  UInt64.toNat_ofNat_of_lt' h

/-- Markers are set below the level, for stored headers. -/
theorem lt_level (h : m.Relabels level hash labels) (hlevel : level ≤ 2 ^ 64) :
    ∀ e ∈ labels, e.1.toNat < level ∧ ∃ H, m.header? e.2 = some H := by
  induction h with
  | bottom => exact nofun
  | marked => exact nofun
  | @unmarked level hash ancestor below _ stored _ ih =>
    intro e he
    rcases List.mem_cons.mp he with rfl | he
    · have hself : (UInt64.ofNat level).toNat = level := toNat_level (by omega)
      exact ⟨by dsimp only; omega, ancestor, stored⟩
    · obtain ⟨hlt, hstored⟩ := ih (by omega) e he
      exact ⟨by omega, hstored⟩

/-- Below the level every marker has a child above it, the topmost one perhaps excepted: that is
the digest from which the markers were set. -/
theorem covered (h : m.Relabels level hash labels) (hb : m.Buried tip) (hlevel : level ≤ 2 ^ 64)
    {base : UInt64 → Option Hash}
    (hbase : (∀ l : UInt64, l.toNat < level → base l = m.canonical? l) ∨ ∀ l, base l = none)
    {l : UInt64} {found : Hash} (hl : l.toNat < level)
    (hmark : remark base [] labels l = some found) :
    (l.toNat + 1 = level ∧ found = hash) ∨
      (l.toNat + 1 < level ∧ ∃ D, m.header? D.hash = some D ∧
        remark base [] labels (l + 1) = some D.hash ∧ D.parentHash = found) := by
  induction h generalizing l found with
  | bottom => omega
  | @marked level hash hself =>
    rcases hbase with hbase | hnone
    · change base l = some found at hmark
      rw [hbase l hl] at hmark
      have hof : (UInt64.ofNat level).toNat = level := toNat_level (by omega)
      by_cases htop : l.toNat = level
      · obtain rfl : l = UInt64.ofNat level := UInt64.toNat_inj.mp (htop.trans hof.symm)
        exact .inl ⟨by omega, Option.some.inj (hmark.symm.trans hself)⟩
      · have hwithin := hb.within hself
        obtain ⟨D, hD, hchild, hparent⟩ := hb.covered hmark (by omega)
        have hnext : (l + 1).toNat = l.toNat + 1 := toNat_succ (by omega)
        refine .inr ⟨by omega, D, hD, ?_, hparent⟩
        exact (hbase (l + 1) (by omega)).trans hchild
    · exact nomatch (hnone l).symm.trans hmark
  | @unmarked level hash ancestor below hself stored rest ih =>
    have hof : (UInt64.ofNat level).toNat = level := toNat_level (by omega)
    have hbelow := rest.lt_level (by omega)
    have hhead : remark base [] ((UInt64.ofNat level, hash) :: below) (UInt64.ofNat level) =
        some hash := remark_head fun e he => hof.symm ▸ (hbelow e he).1
    by_cases htop : l.toNat = level
    · obtain rfl : l = UInt64.ofNat level := UInt64.toNat_inj.mp (htop.trans hof.symm)
      exact .inl ⟨by omega, Option.some.inj (hmark.symm.trans hhead)⟩
    · have htail (k : UInt64) (hk : k.toNat < level) :
          remark base [] ((UInt64.ofNat level, hash) :: below) k = remark base [] below k :=
        remark_tail (hof.symm ▸ hk) List.not_mem_nil
      rw [htail l (by omega)] at hmark
      have hnext : (l + 1).toNat = l.toNat + 1 := toNat_succ (by omega)
      have hlower := ih (by omega) (hbase.imp_left fun hb k hk => hb k (by omega)) (by omega) hmark
      right
      refine ⟨by omega, ?_⟩
      rcases hlower with ⟨hlast, rfl⟩ | ⟨hlt, D, hD, hchild, hparent⟩
      · obtain rfl := (hb.named stored).1
        refine ⟨ancestor, stored, ?_, rfl⟩
        have hat : l + 1 = UInt64.ofNat level := UInt64.toNat_inj.mp (by omega)
        rw [hat, hhead]
      · refine ⟨D, hD, ?_, hparent⟩
        rw [htail (l + 1) (by omega), hchild]

/-- The markers that are set have the heights of their headers, unless the genesis was passed. -/
theorem numbered (h : m.Relabels level hash labels) (hb : m.Buried tip) (hr : m.Rooted record)
    (hA : m.header? hash = some A) (hlevel : A.number.toNat + 1 = level) :
    (∀ e ∈ labels, ∀ H, m.header? e.2 = some H → H.number = e.1) ∨ m.Looped record := by
  induction h generalizing A with
  | bottom => exact .inl nofun
  | marked => exact .inl nofun
  | @unmarked level hash ancestor below _ stored rest ih =>
    obtain rfl : A = ancestor := Option.some.inj (hA.symm.trans stored)
    have hnumber : UInt64.ofNat level = A.number := by
      rw [← Nat.succ.inj hlevel, UInt64.ofNat_toNat]
    have hhead (H : TrustedHeader) (hH : m.header? hash = some H) :
        H.number = UInt64.ofNat level := by
      cases hA.symm.trans hH
      exact hnumber.symm
    have hjoin (hrest : ∀ e ∈ below, ∀ H, m.header? e.2 = some H → H.number = e.1) :
        ∀ e ∈ (UInt64.ofNat level, hash) :: below, ∀ H, m.header? e.2 = some H → H.number = e.1 := by
      intro e he
      rcases List.mem_cons.mp he with rfl | he
      · exact hhead
      · exact hrest e he
    by_cases hroot : hash = record.hash
    · -- The parent that the genesis names is marked or stored if the markers go on below it.
      subst hroot
      cases rest with
      | bottom => exact .inl (hjoin nofun)
      | marked hmark =>
        obtain ⟨P, hP⟩ := hb.marked hmark
        exact .inr ⟨A, P, hA, hP⟩
      | unmarked _ hP _ => exact .inr ⟨A, _, hA, hP⟩
    · obtain ⟨P, hP, hsucc⟩ := hr.parent hA hroot
      cases level with
      | zero =>
        cases rest
        exact .inl (hjoin nofun)
      | succ level =>
        have hstep : P.number.toNat + 1 = level + 1 := by
          have hA' : A.number.toNat = level + 1 := Nat.succ.inj hlevel
          rw [hsucc, UInt64.toNat_add] at hA'
          have hP' := P.number.toNat_lt
          rw [UInt64.toNat_one] at hA'
          omega
        exact (ih hP hstep).imp_left hjoin

end Relabels

/-! ## Every step keeps the markers -/

namespace Buried

variable {m : ChainMemory} {record : GenesisRecord} {tip T P : TrustedHeader}

theorem setHeader_named (h : m.Buried tip) (hT : T.header.hash = T.hash) {hash : Hash}
    {H : TrustedHeader} (hH : (m.setHeader T).header? hash = some H) :
    H.hash = hash ∧ H.header.hash = hash := by
  rw [setHeader_header?] at hH
  split at hH
  · next hself =>
    cases hH
    exact ⟨hself.symm, hT.trans hself.symm⟩
  · exact h.named hH

/-- A header that does not outweigh the tip leaves the markers as they are. -/
theorem stay (h : m.Buried tip) (fresh : m.header? T.hash = none) (hT : T.header.hash = T.hash) :
    (m.setHeader T).Buried tip where
  height := h.height
  mark := h.mark
  stored := setHeader_of_some fresh h.stored
  named := h.setHeader_named hT
  marked hmark := by
    obtain ⟨H, hH⟩ := h.marked hmark
    exact ⟨H, setHeader_of_some fresh hH⟩
  within := h.within
  covered hmark hlevel := by
    obtain ⟨D, hD, hchild, hparent⟩ := h.covered hmark hlevel
    exact ⟨D, setHeader_of_some fresh hD, hchild, hparent⟩

section Move

variable {below : List (UInt64 × Hash)} {level : UInt64} {hash : Hash}

/-- What is marked after a move is the new tip, or was stored and stands no higher. -/
theorem marked_move (h : m.Buried tip) (hbelow : m.Relabels T.number.toNat T.parentHash below)
    (hmark : remark m.canonical? (heightsFrom (T.number + 1) tip.number)
      ((T.number, T.hash) :: below) level = some hash) :
    (level = T.number ∧ hash = T.hash) ∨
      level.toNat ≤ T.number.toNat ∧ ∃ H, m.header? hash = some H := by
  change remark (remark m.canonical? _ []) [] _ level = some hash at hmark
  rcases mem_of_remark hmark with hmem | hleft
  · rcases List.mem_cons.mp hmem with heq | hmem
    · cases heq
      exact .inl ⟨rfl, rfl⟩
    · obtain ⟨hlt, hstored⟩ := hbelow.lt_level (Nat.le_of_lt T.number.toNat_lt) _ hmem
      exact .inr ⟨Nat.le_of_lt hlt, hstored⟩
  · obtain ⟨hold, hle⟩ := (h.cleared T.number).left hleft
    exact .inr ⟨hle, h.marked hold⟩

/-- After a move the new tip is marked, and below it above every marker stands that of a child. -/
theorem covered_move (h : m.Buried tip) (fresh : m.header? T.hash = none)
    (hbelow : m.Relabels T.number.toNat T.parentHash below) :
    remark m.canonical? (heightsFrom (T.number + 1) tip.number) ((T.number, T.hash) :: below)
        T.number = some T.hash ∧
      ∀ level hash, remark m.canonical? (heightsFrom (T.number + 1) tip.number)
          ((T.number, T.hash) :: below) level = some hash → level.toNat < T.number.toNat →
        ∃ D, (m.setHeader T).header? D.hash = some D ∧
          remark m.canonical? (heightsFrom (T.number + 1) tip.number)
            ((T.number, T.hash) :: below) (level + 1) = some D.hash ∧ D.parentHash = hash := by
  have hroom := T.number.toNat_lt
  have hbound : T.number.toNat ≤ 2 ^ 64 := Nat.le_of_lt hroom
  have hhead : remark m.canonical? (heightsFrom (T.number + 1) tip.number)
      ((T.number, T.hash) :: below) T.number = some T.hash :=
    remark_head fun e he => (hbelow.lt_level hbound e he).1
  have htail (k : UInt64) (hk : k.toNat < T.number.toNat) :
      remark m.canonical? (heightsFrom (T.number + 1) tip.number) ((T.number, T.hash) :: below) k =
        remark (remark m.canonical? (heightsFrom (T.number + 1) tip.number) []) [] below k := by
    change remark (remark m.canonical? _ []) [] _ k = _
    exact remark_tail hk List.not_mem_nil
  refine ⟨hhead, fun level hash hmark hlevel => ?_⟩
  rw [htail level hlevel] at hmark
  have hnext : (level + 1).toNat = level.toNat + 1 := toNat_succ (by omega)
  rcases hbelow.covered h hbound (h.cleared T.number).below hlevel hmark with
    ⟨hlast, rfl⟩ | ⟨hlt, D, hD, hchild, hparent⟩
  · refine ⟨T, by rw [setHeader_header?, if_pos rfl], ?_, rfl⟩
    have hat : level + 1 = T.number := UInt64.toNat_inj.mp (by omega)
    rw [hat]
    exact hhead
  · refine ⟨D, setHeader_of_some fresh hD, ?_, hparent⟩
    exact (htail (level + 1) (by omega)).trans hchild

/-- A header that outweighs the tip becomes the tip. -/
theorem move (h : m.Buried tip) (fresh : m.header? T.hash = none) (hT : T.header.hash = T.hash)
    (hbelow : m.Relabels T.number.toNat T.parentHash below) :
    ((m.setHeader T).move (some {
      clear := heightsFrom (T.number + 1) tip.number
      assign := (T.number, T.hash) :: below
      newHeight := T.number })).Buried T := by
  obtain ⟨hmark, hcovered⟩ := h.covered_move fresh hbelow
  constructor
  case height => rfl
  case mark => exact hmark
  case stored => rw [move_header?, setHeader_header?, if_pos rfl]
  case named =>
    intro hash H hH
    rw [move_header?] at hH
    exact h.setHeader_named hT hH
  case marked =>
    intro level hash hmark
    rw [move_header?]
    rcases h.marked_move hbelow hmark with ⟨-, rfl⟩ | ⟨-, H, hH⟩
    · exact ⟨T, by rw [setHeader_header?, if_pos rfl]⟩
    · exact ⟨H, setHeader_of_some fresh hH⟩
  case within =>
    intro level hash hmark
    rcases h.marked_move hbelow hmark with ⟨rfl, -⟩ | ⟨hle, -⟩
    · exact Nat.le_refl _
    · exact hle
  case covered => exact fun {level hash} => hcovered level hash

end Move

/-- Heights along the markers stay those of the headers. -/
theorem numbered_move (h : m.Buried tip) (hr : m.Rooted record) (hn : m.Numbered)
    (fresh : m.header? T.hash = none) (hstored : m.header? T.parentHash = some P)
    (hnumber : T.number = P.number + 1) {below : List (UInt64 × Hash)}
    (hbelow : m.Relabels T.number.toNat T.parentHash below) :
    ((m.setHeader T).move (some {
      clear := heightsFrom (T.number + 1) tip.number
      assign := (T.number, T.hash) :: below
      newHeight := T.number })).Numbered ∨ m.Looped record := by
  have hlabels : (∀ e ∈ below, ∀ H, m.header? e.2 = some H → H.number = e.1) ∨
      m.Looped record := by
    by_cases hzero : T.number.toNat = 0
    · rw [hzero] at hbelow
      cases hbelow
      exact .inl nofun
    · refine hbelow.numbered h hr hstored ?_
      have hP := P.number.toNat_lt
      rw [hnumber, UInt64.toNat_add, UInt64.toNat_one] at hzero ⊢
      omega
  refine hlabels.imp_left fun hlabels level hash H hmark hH => ?_
  rw [move_header?] at hH
  have hold (hsome : ∃ H', m.header? hash = some H') : m.header? hash = some H := by
    obtain ⟨H', hH'⟩ := hsome
    rw [setHeader_of_some fresh hH'] at hH
    rw [hH', hH]
  have hbound : T.number.toNat ≤ 2 ^ 64 := Nat.le_of_lt T.number.toNat_lt
  change remark (remark m.canonical? _ []) [] _ level = some hash at hmark
  rcases mem_of_remark hmark with hmem | hleft
  · rcases List.mem_cons.mp hmem with heq | hmem
    · cases heq
      rw [setHeader_header?, if_pos rfl] at hH
      cases hH
      rfl
    · exact hlabels _ hmem H (hold (hbelow.lt_level hbound _ hmem).2)
  · have hmarked := ((h.cleared T.number).left hleft).1
    exact hn hmarked (hold (h.marked hmarked))

end Buried

namespace Rooted

variable {m : ChainMemory} {record : GenesisRecord} {T P : TrustedHeader}

/-- A new header keeps the parents. -/
theorem setHeader (h : m.Rooted record) (fresh : m.header? T.hash = none)
    (hstored : m.header? T.parentHash = some P) (hnumber : T.number = P.number + 1) :
    (m.setHeader T).Rooted record where
  root := by
    obtain ⟨G, hG⟩ := h.root
    exact ⟨G, setHeader_of_some fresh hG⟩
  parent {hash H} hH hne := by
    rw [setHeader_header?] at hH
    split at hH
    · cases hH
      exact ⟨P, setHeader_of_some fresh hstored, hnumber⟩
    · obtain ⟨Q, hQ, hsucc⟩ := h.parent hH hne
      exact ⟨Q, setHeader_of_some fresh hQ, hsucc⟩

theorem congr {m' : ChainMemory} (hm : m'.header? = m.header?) (h : m.Rooted record) :
    m'.Rooted record := by
  obtain ⟨hroot, hparent⟩ := h
  constructor
  · rwa [hm]
  · rwa [hm]

end Rooted

theorem Looped.extends {m m' : ChainMemory} {record : GenesisRecord} (h : m.Looped record)
    (hm : ∀ {hash H}, m.header? hash = some H → m'.header? hash = some H) : m'.Looped record := by
  obtain ⟨G, P, hG, hP⟩ := h
  exact ⟨G, P, hm hG, hm hP⟩

/-- The memory of a chain is blank, or has markers up to its tip. -/
inductive Settled (m : ChainMemory) : Prop
  /-- The chain has not begun. -/
  | blank (h : m.Blank) : Settled m
  /-- The chain has begun. -/
  | begun {record : GenesisRecord} {tip : TrustedHeader} (genesis : m.genesis? = some record)
    (rooted : m.Rooted record) (buried : m.Buried tip)
    (numbered : m.Numbered ∨ m.Looped record) : Settled m

/-- A settled chain that has begun holds its genesis. -/
theorem Settled.genesis_stored {m : ChainMemory} {record : GenesisRecord} (h : m.Settled)
    (hbegun : m.genesis? = some record) : m.header? record.hash ≠ none := by
  cases h with
  | blank hblank => exact nomatch hblank.genesis.symm.trans hbegun
  | begun genesis rooted buried numbered =>
    obtain rfl := Option.some.inj (genesis.symm.trans hbegun)
    exact Option.ne_none_iff_exists'.mpr rooted.root

/-- A chain that begins has the marker of its genesis only. -/
theorem Blank.settle {m : ChainMemory} {record : GenesisRecord} {G : TrustedHeader}
    {start next : UInt64} {prior current : ValidatorEpoch} (h : m.Blank)
    (hhash : G.hash = record.hash) (hG : G.header.hash = G.hash) :
    ((((((m.setHeader G).setMark G.number (some G.hash)).setHeight G.number).setGenesis
      record).setEpoch start prior).setEpoch next current).Settled := by
  have hstored {hash : Hash} {H : TrustedHeader} (hH : (m.setHeader G).header? hash = some H) :
      hash = G.hash ∧ H = G := by
    rw [setHeader_header?] at hH
    split at hH
    · next hself =>
      cases hH
      exact ⟨hself, rfl⟩
    · exact nomatch (h.header _).symm.trans hH
  have hmark {level : UInt64} {hash : Hash}
      (hm : Function.update m.canonical? G.number (some G.hash) level = some hash) :
      level = G.number ∧ hash = G.hash := by
    by_cases hat : level = G.number
    · rw [hat, Function.update_self] at hm
      exact ⟨hat, (Option.some.inj hm).symm⟩
    · rw [Function.update_of_ne hat, h.canonical] at hm
      cases hm
  have hself : (m.setHeader G).header? G.hash = some G := by rw [setHeader_header?, if_pos rfl]
  refine @Settled.begun _ record G rfl ?_ ?_ (.inl ?_)
  · refine ⟨⟨G, hhash ▸ hself⟩, fun hH hne => ?_⟩
    obtain ⟨rfl, rfl⟩ := hstored hH
    exact absurd hhash hne
  · constructor
    case height => rfl
    case mark => exact Function.update_self _ _ _
    case stored => exact hself
    case named =>
      intro hash H hH
      obtain ⟨rfl, rfl⟩ := hstored hH
      exact ⟨rfl, hG⟩
    case marked =>
      intro level hash hm
      obtain ⟨rfl, rfl⟩ := hmark hm
      exact ⟨G, hself⟩
    case within =>
      intro level hash hm
      obtain ⟨rfl, rfl⟩ := hmark hm
      exact Nat.le_refl _
    case covered =>
      intro level hash hm hlevel
      obtain ⟨rfl, rfl⟩ := hmark hm
      exact absurd hlevel (Nat.lt_irrefl _)
  · intro level hash H hm hH
    obtain ⟨rfl, rfl⟩ := hmark hm
    obtain ⟨-, rfl⟩ := hstored hH
    rfl

theorem Buried.tip_eq {m : ChainMemory} {tip found : TrustedHeader} (h : m.Buried tip)
    (ht : m.Tip found) : found = tip := by
  obtain ⟨level, hash, hlevel, hhash, hfound⟩ := ht
  cases hlevel.symm.trans h.height
  cases hhash.symm.trans h.mark
  exact Option.some.inj (hfound.symm.trans h.stored)

/-- A child of a stored header leaves the memory settled. -/
theorem Settled.grow {m : ChainMemory} {record : GenesisRecord} {tip T P : TrustedHeader}
    {update? : Option CanonicalUpdate} (genesis : m.genesis? = some record)
    (hr : m.Rooted record) (hb : m.Buried tip) (hn : m.Numbered ∨ m.Looped record)
    (fresh : m.header? T.hash = none) (hT : T.header.hash = T.hash)
    (hstored : m.header? T.parentHash = some P) (hnumber : T.number = P.number + 1)
    (hplans : m.Plans T tip update?) : ((m.setHeader T).move update?).Settled := by
  have hrooted := hr.setHeader fresh hstored hnumber
  cases hplans with
  | stay _ =>
    refine .begun genesis hrooted (hb.stay fresh hT) ?_
    rcases hn with hn | hlooped
    · left
      intro level hash H hmark hH
      obtain ⟨H', hH'⟩ := hb.marked hmark
      rw [move_header?, setHeader_of_some fresh hH'] at hH
      exact hn hmark (hH'.trans hH)
    · exact .inr (hlooped.extends (setHeader_of_some fresh))
  | move _ relabels =>
    refine .begun genesis (hrooted.congr (move_header? _ _)) (hb.move fresh hT relabels) ?_
    have hnext := hn.elim
      (fun hn => hb.numbered_move hr hn fresh hstored hnumber relabels) .inr
    refine hnext.imp_right fun hlooped => hlooped.extends fun hH => ?_
    rw [move_header?]
    exact setHeader_of_some fresh hH

end ChainMemory

namespace LightClient

open ChainMemory

variable {P : Header → Prop} {config : HeaderSyncConfig} {chain : ChainId} {s t : State}

/-- A step keeps the memory of its chain settled, whatever headers it brings. -/
theorem Step.settled (h : Step P config chain s t) (hs : (s.memory chain).Settled) :
    (t.memory chain).Settled := by
  cases h with
  | quiet h => rwa [h.memory_eq]
  | @began header validators prior _ fresh place begins =>
    rw [begins.changed.memory_eq,
      memory_genesisChanges begins.fits begins.fitsPrior begins.fitsCurrent]
    cases hs with
    | begun genesis => exact nomatch genesis.symm.trans (State.lookup_of_raw?_none fresh)
    | blank hblank =>
      have hhash : (trustedGenesis header).hash = (genesisRecord config header).hash := rfl
      exact hblank.settle hhash rfl
  | @grew record g trusted parent tip pair update? _ hbegun fresh verified atTip plans fits
      changed =>
    rw [changed.memory_eq, memory_headerChanges fits]
    cases hs with
    | blank hblank => exact nomatch hblank.genesis.symm.trans hbegun.genesis
    | begun genesis rooted buried numbered =>
      obtain rfl := buried.tip_eq atTip
      exact .grow genesis rooted buried numbered (State.lookup_of_raw?_none fresh)
        verified.hash.symm verified.stored verified.follows.number plans

end LightClient

end BridgeKernel
