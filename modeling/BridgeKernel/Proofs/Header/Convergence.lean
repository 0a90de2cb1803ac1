import BridgeKernel.Proofs.Header.Buried
import BridgeKernel.Proofs.Header.Progress

/-!
# What a set of headers comes to

Once headers have come one by one, parents first, each of them is stored exactly when it is accepted
as things stand in the end: its ancestors were all there before it, and what came later is no
ancestor of it. Two memories in which this holds for the same headers store the same ones, by
induction on the height. The tip is heaviest in both, and the markers follow from the tip.
-/

namespace BridgeKernel

namespace ChainMemory

/-! ## Ancestors in a tree -/

section

variable {m m' : ChainMemory} {record : GenesisRecord} {hash : Hash} {A P : TrustedHeader}

theorem parent_of_not_looped (hroot : ¬ m.Looped record) (hA : m.header? record.hash = some A) :
    m.header? A.parentHash = none := by
  by_contra hsome
  obtain ⟨Q, hQ⟩ := Option.ne_none_iff_exists'.mp hsome
  exact hroot ⟨A, Q, hA, hQ⟩

/-- No ancestor is higher, when no stored header is the parent of the genesis. -/
theorem Tree.number_le_of_ancestor (ht : m.Tree record) (hroot : ¬ m.Looped record)
    (hP : m.header? hash = some P) (hA : m.Ancestor hash A) :
    A.number.toNat ≤ P.number.toNat := by
  induction hA with
  | here stored =>
    cases stored.symm.trans hP
    exact Nat.le_refl _
  | @parent A Q below stored ih =>
    obtain ⟨found, hfound⟩ := below.stores
    by_cases hfirst : found = record.hash
    · subst hfirst
      exact absurd ⟨A, Q, hfound, stored⟩ hroot
    · obtain ⟨Q', hQ', hnumber, -⟩ := ht.parent hfound hfirst
      cases stored.symm.trans hQ'
      omega

/-- A memory that holds what a tree holds up to the height of a header has the same ancestors of it,
when neither stores the parent of the genesis. -/
theorem Tree.sameAncestry (ht : m.Tree record) (hroot : ¬ m.Looped record)
    (hroot' : ¬ m'.Looped record) (hP : m.header? hash = some P)
    (hold : ∀ {found A}, m.header? found = some A → A.number.toNat ≤ P.number.toNat →
      m'.header? found = some A) : m.SameAncestry m' hash where
  head := (hold hP (Nat.le_refl _)).trans hP.symm
  parents A hA := by
    obtain ⟨found, hfound⟩ := hA.stores
    have hbound := ht.number_le_of_ancestor hroot hP hA
    by_cases hfirst : found = record.hash
    · subst hfirst
      rw [parent_of_not_looped hroot hfound, parent_of_not_looped hroot' (hold hfound hbound)]
    · obtain ⟨Q, hQ, hnumber, -⟩ := ht.parent hfound hfirst
      rw [hQ, hold hQ (by omega)]

end

/-! ## Headers that have come -/

/-- What is remembered once headers have come: nothing is lost, and of what is new each header is
stored exactly when it is accepted as things stand now. -/
structure Judged (start : ChainMemory) (terms : HeaderTerms) (headers : List Header)
    (m : ChainMemory) : Prop where
  /-- The chain began where it did. -/
  genesis : m.genesis? = start.genesis?
  /-- The sets from governance are what they were. -/
  epoch : m.epoch? = start.epoch?
  /-- What was stored still is. -/
  kept : ∀ {hash H}, start.header? hash = some H → m.header? hash = some H
  /-- A new header is stored exactly when it is accepted. -/
  stored_iff : ∀ h ∈ headers, start.header? h.hash = none →
    ∀ T, m.header? h.hash = some T ↔ m.Accepts terms h T
  /-- What is stored was, or has come. -/
  brought : ∀ {hash T}, m.header? hash = some T →
    start.header? hash = some T ∨ ∃ h ∈ headers, h.hash = hash
  /-- There is a bound on the number of headers. -/
  finite : ∃ size, m.AtMost size

namespace Judged

variable {start m m' : ChainMemory} {terms : HeaderTerms} {headers headers' : List Header}
  {record : GenesisRecord} {x : Header}

/-- Before headers come nothing is new. -/
theorem nil (hm : ∃ size, m.AtMost size) : m.Judged terms [] m where
  genesis := rfl
  epoch := rfl
  kept := id
  stored_iff _ hh := absurd hh List.not_mem_nil
  brought := .inl
  finite := hm

/-- A header that is left alone, stored or not, changes nothing. -/
theorem quiet (h : start.Judged terms headers m)
    (hx : start.header? x.hash = none → ∀ T, m.header? x.hash = some T ↔ m.Accepts terms x T) :
    start.Judged terms (headers ++ [x]) m :=
  { h with
    stored_iff := by
      intro h' hmem
      rcases List.mem_append.mp hmem with hmem | hmem
      · exact h.stored_iff h' hmem
      · obtain rfl := List.mem_singleton.mp hmem
        exact hx
    brought := fun hT => (h.brought hT).imp_right fun ⟨h', hmem, hh⟩ =>
      ⟨h', List.mem_append_left _ hmem, hh⟩ }

/-- A header is accepted as before when others have been stored, but not its parent. -/
theorem accepts_of_parent (ht : m.Tree record) (hroot : ¬ m'.Looped record)
    (hold : ∀ {hash A}, m.header? hash = some A → m'.header? hash = some A)
    (hm : ∃ size, m.AtMost size) (hm' : ∃ size, m'.AtMost size)
    (hparent : m'.header? x.parentHash = m.header? x.parentHash) (T : TrustedHeader) :
    m'.Accepts terms x T ↔ m.Accepts terms x T := by
  cases hQ : m.header? x.parentHash with
  | some Q =>
    have hbefore : ¬ m.Looped record := fun hl => hroot (hl.extends hold)
    obtain ⟨size, hsize⟩ := hm
    obtain ⟨size', hsize'⟩ := hm'
    exact accepts_congr (ht.sameAncestry hbefore hroot hQ fun hA _ => hold hA) hsize hsize'
  | none =>
    -- without its parent a header was not accepted, and still is not
    refine iff_of_false (fun hT => ?_) fun hT => ?_
    · obtain ⟨-, -, Q, hQ'⟩ := hT.judged
      exact nomatch hQ.symm.trans (hparent.symm.trans hQ')
    · obtain ⟨-, -, Q, hQ'⟩ := hT.judged
      exact nomatch hQ.symm.trans hQ'

/-- An accepted header is stored, and the others are accepted as before: none of them is a child of
it, or has its digest. -/
theorem grow {T : TrustedHeader} {update? : Option CanonicalUpdate}
    (h : start.Judged terms headers m) (ht : m.Tree record)
    (fresh : m.header? x.hash = none) (accepted : m.Accepts terms x T)
    (hroot : ¬ ((m.setHeader T).move update?).Looped record)
    (hsize : ∃ size, ((m.setHeader T).move update?).AtMost size)
    (hparents : ∀ h ∈ headers, x.hash ≠ h.parentHash)
    (hdigests : ∀ h ∈ headers, h.hash = x.hash → h = x) :
    start.Judged terms (headers ++ [x]) ((m.setHeader T).move update?) := by
  obtain ⟨-, hname, P, hP⟩ := accepted.judged
  rw [← hname] at fresh
  have hfound (hash : Hash) : ((m.setHeader T).move update?).header? hash =
      if hash = T.hash then some T else m.header? hash := by
    rw [move_header?, setHeader_header?]
  have hold {hash : Hash} {A : TrustedHeader} (hA : m.header? hash = some A) :
      ((m.setHeader T).move update?).header? hash = some A := by
    rw [move_header?]
    exact setHeader_of_some fresh hA
  have hnew (U : TrustedHeader) : ((m.setHeader T).move update?).header? x.hash = some U ↔
      ((m.setHeader T).move update?).Accepts terms x U := by
    have hparent := (hold hP).trans hP.symm
    rw [hfound, if_pos hname.symm, accepts_of_parent ht hroot hold h.finite hsize hparent]
    constructor
    · rintro ⟨⟩
      exact accepted
    · exact fun hU => congrArg some (accepted.unique hU)
  constructor
  case genesis => exact (move_genesis? _ _).trans h.genesis
  case epoch => exact (move_epoch? _ _).trans h.epoch
  case kept => exact fun hH => hold (h.kept hH)
  case stored_iff =>
    intro h' hmem hnone U
    by_cases hh : h'.hash = x.hash
    · have hx : h' = x := by
        rcases List.mem_append.mp hmem with hmem | hmem
        · exact hdigests h' hmem hh
        · exact List.mem_singleton.mp hmem
      rw [hx]
      exact hnew U
    · have hmem : h' ∈ headers := by
        refine (List.mem_append.mp hmem).resolve_right fun hmem => hh ?_
        rw [List.mem_singleton.mp hmem]
      have hother : ((m.setHeader T).move update?).header? h'.parentHash =
          m.header? h'.parentHash := by
        rw [hfound, if_neg fun he => hparents h' hmem (hname.symm.trans he.symm)]
      rw [hfound, if_neg fun he => hh (he.trans hname), h.stored_iff h' hmem hnone U]
      exact (accepts_of_parent ht hroot hold h.finite hsize hother U).symm
  case brought =>
    intro hash U hU
    rw [hfound] at hU
    split at hU
    · next he => exact .inr ⟨x, List.mem_append_right _ List.mem_cons_self, (he.trans hname).symm⟩
    · exact (h.brought hU).imp_right fun ⟨h', hmem, hh⟩ => ⟨h', List.mem_append_left _ hmem, hh⟩
  case finite => exact hsize

/-- One more header that comes, not before a child of it and under a digest of its own. -/
theorem snoc (h : start.Judged terms headers m) (ht : m.Tree record)
    (hx : m.Receives terms x m') (hroot : ¬ m'.Looped record) (hm' : ∃ size, m'.AtMost size)
    (hparents : ∀ h ∈ headers, x.hash ≠ h.parentHash)
    (hdigests : ∀ h ∈ headers, h.hash = x.hash → h = x) :
    start.Judged terms (headers ++ [x]) m' := by
  cases hx with
  | known stored =>
    refine h.quiet fun hnew => ?_
    obtain ⟨H, hH⟩ := Option.isSome_iff_exists.mp stored
    rcases h.brought hH with hold | ⟨h', hmem, hh⟩
    · exact nomatch hnew.symm.trans hold
    · obtain rfl := hdigests h' hmem hh
      exact h.stored_iff h' hmem hnew
  | refused fresh hrefused =>
    refine h.quiet fun _ T => iff_of_false (fun hT => ?_) (hrefused T)
    exact nomatch fresh.symm.trans hT
  | grew fresh accepted => exact h.grow ht fresh accepted hroot hm' hparents hdigests

/-- What is stored once headers have come is stored wherever the same headers have come. -/
theorem header?_mono (h : start.Judged terms headers m) (h' : start.Judged terms headers' m')
    (same : ∀ x ∈ headers, x ∈ headers') (hstart : start.Tree record) (ht : m.Tree record)
    (hroot : ¬ m.Looped record) (hroot' : ¬ m'.Looped record) {hash : Hash} {T : TrustedHeader}
    (hT : m.header? hash = some T) : m'.header? hash = some T := by
  induction hn : T.number.toNat using Nat.strong_induction_on generalizing hash T with
  | _ n ih =>
    cases hold : start.header? hash with
    | some H =>
      cases (h.kept hold).symm.trans hT
      exact h'.kept hold
    | none =>
      obtain ⟨x, hx, rfl⟩ := (h.brought hT).resolve_left fun hs => nomatch hold.symm.trans hs
      have haccepts := (h.stored_iff x hx hold T).mp hT
      have hother : x.hash ≠ record.hash := by
        intro he
        obtain ⟨G, hG, -⟩ := hstart.root
        rw [he, hG] at hold
        cases hold
      obtain ⟨P, hP, hnumber, -⟩ := ht.parent hT hother
      have hP : m.header? x.parentHash = some P := by rwa [← haccepts.judged.1]
      have hsame : m.SameAncestry m' x.parentHash :=
        ht.sameAncestry hroot hroot' hP fun hA hle => ih _ (by omega) hA rfl
      obtain ⟨size, hsize⟩ := h.finite
      obtain ⟨size', hsize'⟩ := h'.finite
      exact (h'.stored_iff x (same x hx) hold T).mpr
        ((accepts_congr hsame hsize hsize').mpr haccepts)

/-- The same headers come to the same stored ones. -/
theorem header?_eq (h : start.Judged terms headers m) (h' : start.Judged terms headers' m')
    (same : ∀ x, x ∈ headers ↔ x ∈ headers') (hstart : start.Tree record) (ht : m.Tree record)
    (ht' : m'.Tree record) (hroot : ¬ m.Looped record) (hroot' : ¬ m'.Looped record) :
    m'.header? = m.header? := by
  funext hash
  apply Option.ext
  intro T
  constructor
  · exact h'.header?_mono h (fun x => (same x).mpr) hstart ht' hroot' hroot
  · exact h.header?_mono h' (fun x => (same x).mp) hstart ht hroot hroot'

end Judged

/-! ## Markers that follow from the tip -/

section

variable {m m' : ChainMemory} {record : GenesisRecord} {tip tip' : TrustedHeader}

/-- The markers from the genesis to a header follow from the headers. -/
theorem Marked.marks_eq {marks marks' : UInt64 → Option Hash} {H : TrustedHeader}
    (h : m.Marked record marks H) (h' : m'.Marked record marks' H) (ht : m.Tree record)
    (same : m'.header? = m.header?) {level : UInt64} (hlow : record.number.toNat ≤ level.toNat)
    (hhigh : level.toNat ≤ H.number.toNat) : marks' level = marks level := by
  induction h with
  | @root G stored hash number mark =>
    have hlevel : level = G.number := by
      apply UInt64.toNat_inj.mp
      rw [number] at hhigh ⊢
      omega
    rw [hlevel, h'.mark, mark]
  | @child H P stored parent number mark below ih =>
    by_cases htop : level = H.number
    · rw [htop, h'.mark, mark]
    · have hne : level.toNat ≠ H.number.toNat := fun e => htop (UInt64.toNat_inj.mp e)
      cases h' with
      | root _ _ number' =>
        have hP := ht.above parent
        rw [number'] at number
        omega
      | @child _ P' _ parent' _ _ below' =>
        rw [same, parent] at parent'
        cases parent'
        exact ih below' (by omega)

/-- All markers follow from the headers and the tip. -/
theorem Canonical.marks_eq (h : m.Canonical record tip) (h' : m'.Canonical record tip)
    (ht : m.Tree record) (same : m'.header? = m.header?) : m'.canonical? = m.canonical? := by
  funext level
  by_cases hin : record.number.toNat ≤ level.toNat ∧ level.toNat ≤ tip.number.toNat
  · exact h.spine.marks_eq h'.spine ht same hin.1 hin.2
  · have hnone : m.canonical? level = none := by
      rw [← h.isSome_iff, Bool.not_eq_true, Option.isSome_eq_false_iff] at hin
      exact Option.isNone_iff_eq_none.mp hin
    have hnone' : m'.canonical? level = none := by
      rw [← h'.isSome_iff, Bool.not_eq_true, Option.isSome_eq_false_iff] at hin
      exact Option.isNone_iff_eq_none.mp hin
    rw [hnone, hnone']

/-- Two memories of a chain with the same headers, whose tips weigh the same; and where one header
is heavier than all others, they are the same. -/
structure Converged (m m' : ChainMemory) : Prop where
  /-- The same headers are stored, with the same signers and weights. -/
  headers : m'.header? = m.header?
  /-- The tips weigh the same. -/
  tips : ∃ tip tip', m.Tip tip ∧ m'.Tip tip' ∧ tip'.weight = tip.weight
  /-- With one heaviest header all is the same, the markers and the canonical height as well. -/
  same : ∀ top, m.Stores top → (∀ H, m.Stores H → H ≠ top → H.weight < top.weight) → m' = m

/-- A header that is heavier than all others is the tip. -/
theorem Canonical.eq_of_heaviest (h : m.Canonical record tip) {top : TrustedHeader}
    (hstored : m.Stores top) (htop : ∀ H, m.Stores H → H ≠ top → H.weight < top.weight) :
    tip = top := by
  by_contra hne
  obtain ⟨hash, hstored⟩ := hstored
  have hlighter := BitVec.lt_def.mp (htop tip ⟨_, h.spine.stored⟩ hne)
  have hheaviest := h.heaviest hstored
  omega

/-- Canonical chains on the same headers converge. -/
theorem Canonical.converged (h : m.Canonical record tip) (h' : m'.Canonical record tip')
    (ht : m.Tree record) (headers : m'.header? = m.header?) (genesis : m'.genesis? = m.genesis?)
    (epoch : m'.epoch? = m.epoch?) : m.Converged m' where
  headers := headers
  tips := by
    refine ⟨tip, tip', h.atTip, h'.atTip, BitVec.eq_of_toNat_eq (Nat.le_antisymm ?_ ?_)⟩
    · exact h.heaviest (headers ▸ h'.spine.stored)
    · exact h'.heaviest (headers ▸ h.spine.stored)
  same top hstored htop := by
    obtain rfl := h.eq_of_heaviest hstored htop
    have hstores (H : TrustedHeader) : m'.Stores H ↔ m.Stores H := by rw [Stores, headers, Stores]
    obtain rfl : tip' = tip := h'.eq_of_heaviest ((hstores tip).mpr hstored)
      fun H hH => htop H ((hstores H).mp hH)
    exact ChainMemory.ext headers (h.marks_eq h' ht headers) (h'.height.trans h.height.symm)
      genesis epoch

end

end ChainMemory

end BridgeKernel
