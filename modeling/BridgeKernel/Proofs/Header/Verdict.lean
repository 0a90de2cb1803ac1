import BridgeKernel.Proofs.Header.Walk
import BridgeKernel.Proofs.Store.Calm

/-!
# What a verdict on a header depends on

On a store that does not fail, the verdict on a header is a function of what is remembered of its
chain, and of that only the ancestors of the header matter. Other headers, markers and records may
differ.
-/

namespace BridgeKernel

open Transition

namespace Transition

variable {ε ε' α β : Type} {s : State}

/-- The answer of a step made of two is made of theirs. -/
theorem bind_answer {x : Transition ε α} {f : α → Transition ε β} {r : Except ε α}
    {k : α → Except ε β} (hx : (x s).1 = r) (hf : ∀ a t, x s = (.ok a, t) → (f a t).1 = k a) :
    ((x >>= f) s).1 = r >>= k := by
  rw [bind_run]
  rcases hrun : x s with ⟨e | a, t⟩ <;> rw [hrun] at hx <;> subst hx
  · rfl
  · exact hf a t hrun

theorem ofExcept_answer (r : Except ε α) : (ofExcept id r s).1 = r := by
  cases r <;> rfl

end Transition

namespace ChainMemory

/-! ## Ancestors -/

/-- A header found under a digest, or under the digest of the parent of one that is. -/
inductive Ancestor (m : ChainMemory) (hash : Hash) : TrustedHeader → Prop
  /-- The header with the digest. -/
  | here {A : TrustedHeader} (stored : m.header? hash = some A) : Ancestor m hash A
  /-- The parent of a header that was found. -/
  | parent {A P : TrustedHeader} (below : Ancestor m hash A)
    (stored : m.header? A.parentHash = some P) : Ancestor m hash P

/-- What is found under a digest and under those of the parents is the same in two memories. -/
structure SameAncestry (m m' : ChainMemory) (hash : Hash) : Prop where
  /-- Under the digest. -/
  head : m'.header? hash = m.header? hash
  /-- Under the digests of parents. -/
  parents : ∀ A, m.Ancestor hash A → m'.header? A.parentHash = m.header? A.parentHash

theorem SameAncestry.refl (m : ChainMemory) (hash : Hash) : m.SameAncestry m hash :=
  ⟨rfl, fun _ _ => rfl⟩

theorem Ancestor.stores {m : ChainMemory} {hash : Hash} {A : TrustedHeader}
    (h : m.Ancestor hash A) : m.Stores A := by
  cases h with
  | here stored => exact ⟨_, stored⟩
  | parent _ stored => exact ⟨_, stored⟩

/-! ## Verdicts -/

/-- The verdict on a header, from what is remembered of its chain and a bound on the number of
headers. -/
def verdict (m : ChainMemory) (config : HeaderSyncConfig) (now : UInt64) (chain : ChainId)
    (g : GenesisEpochs) (size : Nat) (header : Header) : Except HeaderError TrustedHeader := do
  header.checkFields config now
  match m.header? header.parentHash with
  | none => throw (.unknownParent header.number header.parentHash)
  | some parent =>
    header.checkAgainstParent parent.header config
    let signer ← header.checkSeal chain
    let pair ← m.search config g (parent.number + 1)
      (parent.number.toNat + 2 * (size + 1)) (none, parent)
    let epoch := pair.authoritative header.number
    if !epoch.contains signer then throw (.unauthorizedSigner header.number signer)
    m.recent (parent.number + 1) signer (UInt64.ofNat (epoch.size / 2))
      (parent.number.toNat + size + 1) parent
    epoch.checkTurn header.number signer header.difficulty
    return {
      hash := header.hash
      header
      signer
      weight := parent.weight + BitVec.ofNat 128 header.difficulty.toNat }

variable {m m' : ChainMemory} {config : HeaderSyncConfig} {g : GenesisEpochs} {hash : Hash}
  {parent : TrustedHeader} {size size' : Nat}

/-- The search reads the ancestors only. -/
theorem search_ancestry (h : m.SameAncestry m' hash) (hparent : m.header? hash = some parent)
    (hm : m.AtMost size) (hm' : m'.AtMost size') (target : UInt64) (budget budget' : Nat)
    (hbudget : 2 * size ≤ budget) (hbudget' : 2 * size' ≤ budget') :
    m'.search config g target budget' (none, parent) =
      m.search config g target budget (none, parent) := by
  have hparent' : m'.header? hash = some parent := h.head.trans hparent
  -- the budgets differ, so both are compared with one that suffices for both memories
  have hstored : m.Stores ((none, parent) : Option ValidatorEpoch × TrustedHeader).2 :=
    ⟨hash, hparent⟩
  have hstored' : m'.Stores ((none, parent) : Option ValidatorEpoch × TrustedHeader).2 :=
    ⟨hash, hparent'⟩
  rw [search_congr config g target hm hm hstored hbudget
      (hbudget.trans (Nat.le_max_left budget budget')),
    search_congr config g target hm' hm' hstored' hbudget'
      (hbudget'.trans (Nat.le_max_right budget budget')), search, search]
  congr 1
  refine walkFor_step_congr (Q := fun place => m.Ancestor hash place.2) (fun place hplace => ?_)
    (fun place next hplace hstep => .parent hplace (searchStep_inr hstep).1) (.here hparent)
  rw [searchStep, h.parents _ hplace, searchStep]

/-- The walk over recent signers reads the ancestors only. -/
theorem recent_ancestry (h : m.SameAncestry m' hash) (hparent : m.header? hash = some parent)
    (hm : m.AtMost size) (hm' : m'.AtMost size') (number : UInt64) (signer : Address)
    (window : UInt64) (budget budget' : Nat) (hbudget : size ≤ budget)
    (hbudget' : size' ≤ budget') :
    m'.recent number signer window budget' parent =
      m.recent number signer window budget parent := by
  have hparent' : m'.header? hash = some parent := h.head.trans hparent
  rw [recent_congr number signer window hm hm ⟨hash, hparent⟩ hbudget
      (hbudget.trans (Nat.le_max_left budget budget')),
    recent_congr number signer window hm' hm' ⟨hash, hparent'⟩ hbudget'
      (hbudget'.trans (Nat.le_max_right budget budget')), recent, recent]
  congr 1
  refine walkFor_step_congr (Q := m.Ancestor hash) (fun A hA => ?_)
    (fun A next hA hstep => .parent hA (recentStep_inr hstep)) (.here hparent)
  rw [recentStep, h.parents _ hA, recentStep]

/-- The verdict on a header depends on its ancestors only. -/
theorem verdict_congr {header : Header} (h : m.SameAncestry m' header.parentHash)
    (hm : m.AtMost size) (hm' : m'.AtMost size') (now : UInt64) (chain : ChainId) :
    m'.verdict config now chain g size' header = m.verdict config now chain g size header := by
  unfold verdict
  rw [h.head]
  cases hparent : m.header? header.parentHash with
  | none => rfl
  | some parent =>
    dsimp only
    rw [search_ancestry h hparent hm hm' (parent.number + 1)
      (parent.number.toNat + 2 * (size + 1)) _ (by omega) (by omega)]
    have hrecent (signer : Address) (window : UInt64) :=
      recent_ancestry h hparent hm hm' (parent.number + 1) signer window
        (parent.number.toNat + size + 1) (parent.number.toNat + size' + 1) (by omega) (by omega)
    simp only [hrecent]

/-- A header that is to be trusted is the one that was judged, under its digest, and its parent is
stored. -/
theorem verdict_ok {now : UInt64} {chain : ChainId} {header : Header} {T : TrustedHeader}
    (h : m.verdict config now chain g size header = .ok T) :
    T.header = header ∧ T.hash = header.hash ∧ ∃ P, m.header? header.parentHash = some P := by
  obtain ⟨_, -, h⟩ := Except.bind_ok h
  cases hparent : m.header? header.parentHash with
  | none =>
    rw [hparent] at h
    cases h
  | some P =>
    rw [hparent] at h
    obtain ⟨_, -, h⟩ := Except.bind_ok h
    obtain ⟨signer, -, h⟩ := Except.bind_ok h
    obtain ⟨pair, -, h⟩ := Except.bind_ok h
    obtain ⟨-, h⟩ := Except.guard_ok_iff.mp h
    obtain ⟨_, -, h⟩ := Except.bind_ok h
    obtain ⟨_, -, h⟩ := Except.bind_ok h
    cases h
    exact ⟨rfl, rfl, P, rfl⟩

end ChainMemory

/-! ## Walks through the view of a chain -/

namespace ChainView

variable {chain : ChainId} {s t : State}

/-- A store that never fails finds what it remembers. -/
theorem header?_answer (s : State) (ht : t.Reliable) (chain : ChainId) (hash : Hash) :
    ∃ u, (ofStore chain s).header? hash t = (.ok ((t.memory chain).header? hash), u) ∧
      t.Untouched u := by
  obtain ⟨u, hload, hu⟩ := ht.load? (RecordKey.header_holds chain hash)
  exact ⟨u, run_mapError hload _, hu⟩

/-- The search answers from what is remembered of the chain, unless the store fails. -/
theorem findEpochs_answer_or (chain : ChainId) (s t : State) (config : HeaderSyncConfig)
    (g : GenesisEpochs) (target : UInt64) (budget : Nat) (newer? : Option ValidatorEpoch)
    (cursor : TrustedHeader) :
    ((ofStore chain s).findEpochs config g target budget newer? cursor t).1 =
        (t.memory chain).search config g target budget (newer?, cursor) ∨
      ¬ t.Reliable ∧ ∃ cause,
        ((ofStore chain s).findEpochs config g target budget newer? cursor t).1 =
          .error (.storage cause) := by
  induction budget generalizing t newer? cursor with
  | zero => exact .inl rfl
  | succ budget ih =>
    rw [ChainMemory.search_succ]
    unfold findEpochs
    cases visit config g target newer? cursor with
    | error cause => exact .inl rfl
    | ok visited =>
      have hchecked : ofExcept id (.ok visited : Except HeaderError _) t = (.ok visited, t) := rfl
      rw [run_bind hchecked]
      cases visited with
      | inl pair => exact .inl rfl
      | inr found =>
        dsimp only
        rw [bind_run]
        rcases hload : (ofStore chain s).header? cursor.parentHash t with ⟨e | parent?, u⟩
        · obtain ⟨cause, -, rfl⟩ := mapError_error hload
          refine .inr ⟨fun ht => ?_, cause, rfl⟩
          obtain ⟨v, hfound, -⟩ := header?_answer s ht chain cursor.parentHash
          cases hload.symm.trans hfound
        · obtain ⟨rfl, hu⟩ := header?_ok hload
          dsimp only
          cases (t.memory chain).header? cursor.parentHash with
          | none => exact .inl rfl
          | some parent =>
            have hrest := ih u found parent
            rw [hu.memory_eq] at hrest
            exact hrest.imp_right fun ⟨hfails, hcause⟩ =>
              ⟨fun ht => hfails (ht.untouched hu), hcause⟩

theorem findEpochs_answer (ht : t.Reliable) (config : HeaderSyncConfig) (g : GenesisEpochs)
    (target : UInt64) (budget : Nat) (newer? : Option ValidatorEpoch) (cursor : TrustedHeader) :
    ((ofStore chain s).findEpochs config g target budget newer? cursor t).1 =
      (t.memory chain).search config g target budget (newer?, cursor) :=
  (findEpochs_answer_or chain s t config g target budget newer? cursor).resolve_right
    fun hfails => hfails.1 ht

theorem walkRecent_answer (ht : t.Reliable) (number : UInt64) (signer : Address)
    (window : UInt64) (budget : Nat) (ancestor : TrustedHeader) :
    ((ofStore chain s).walkRecent number signer window budget ancestor t).1 =
      (t.memory chain).recent number signer window budget ancestor := by
  induction budget generalizing t ancestor with
  | zero => rfl
  | succ budget ih =>
    rw [ChainMemory.recent_succ]
    unfold walkRecent
    by_cases hwindow : window < number - ancestor.number
    · rw [if_pos hwindow, if_pos hwindow]
      rfl
    rw [if_neg hwindow, if_neg hwindow]
    by_cases hsigner : ancestor.signer = signer
    · rw [if_pos hsigner, if_pos hsigner]
      rfl
    obtain ⟨u, hfound, hu⟩ := header?_answer s ht chain ancestor.parentHash
    rw [if_neg hsigner, if_neg hsigner]
    refine (congrArg Prod.fst (run_bind hfound _)).trans ?_
    cases (t.memory chain).header? ancestor.parentHash with
    | none => rfl
    | some parent =>
      have hrest := ih (ht.untouched hu) parent
      rwa [hu.memory_eq] at hrest

end ChainView

namespace LightClient

/-- On a store that does not fail a header is judged by what is remembered of its chain. -/
theorem verifyHeader_answer {s : State} (hs : s.Reliable) (config : HeaderSyncConfig)
    (ctx : BlockContext) (chain : ChainId) (g : GenesisEpochs) (header : Header) :
    (verifyHeader config ctx chain g header s).1 =
      (s.memory chain).verdict config ctx.timestamp chain g s.records.size header := by
  have hget : (get : Transition HeaderError State) s = (.ok s, s) := rfl
  unfold verifyHeader
  rw [run_bind hget]
  refine bind_answer (ofExcept_answer _) fun _ t hcheck => ?_
  obtain ⟨-, rfl⟩ := ofExcept_ok hcheck
  obtain ⟨u, hfound, hu⟩ := ChainView.header?_answer s hs chain header.parentHash
  rw [run_bind hfound]
  cases (s.memory chain).header? header.parentHash with
  | none => rfl
  | some parent =>
    refine bind_answer (ofExcept_answer _) fun _ t hcheck => ?_
    obtain ⟨-, rfl⟩ := ofExcept_ok hcheck
    refine bind_answer (ofExcept_answer _) fun signer t hcheck => ?_
    obtain ⟨-, rfl⟩ := ofExcept_ok hcheck
    refine bind_answer ?_ fun pair v hpair => ?_
    · rw [← hu.memory_eq]
      exact ChainView.findEpochs_answer (hs.untouched hu) ..
    have hv := hu.trans ((ChainView.findEpochs_reading _ _ _ _ _ _ _ _).untouched hpair)
    dsimp only
    split
    · rfl
    · refine bind_answer ?_ fun _ w _ => bind_answer (ofExcept_answer _) fun _ _ _ => rfl
      rw [← hv.memory_eq]
      exact ChainView.walkRecent_answer (hs.untouched hv) ..

end LightClient

end BridgeKernel
