import BridgeKernel.Proofs.Header.Steps
import BridgeKernel.Proofs.Store.Scan
import Mathlib.Data.List.ProdSigma
import Mathlib.Data.List.Sublists

/-!
# Walks over stored headers

A walk makes one step after another until a step answers. The same step leads from a place to the
same place, so a walk that ends never comes to a place twice, and with a budget of as many steps as
there are places it comes to the answer that it has with any larger one. Both walks of the light
client are of this kind, over the headers that a chain has stored: how the store counts its records
does not matter for them, and neither do headers that the walk does not come to.
-/

namespace BridgeKernel

variable {σ ρ : Type}

/-- A walk from a place to an answer, with the places that it comes to. -/
inductive Walk (step : σ → ρ ⊕ σ) : σ → List σ → ρ → Prop
  /-- The step at the place answers. -/
  | stop {a : σ} {r : ρ} (h : step a = .inl r) : Walk step a [a] r
  /-- The step leads to another place. -/
  | go {a b : σ} {path : List σ} {r : ρ} (h : step a = .inr b) (rest : Walk step b path r) :
    Walk step a (a :: path) r

/-- The answer of a walk of so many steps, if it comes to one. -/
def walkFor (step : σ → ρ ⊕ σ) : Nat → σ → Option ρ
  | 0, _ => none
  | budget + 1, a =>
    match step a with
    | .inl r => some r
    | .inr b => walkFor step budget b

namespace Walk

variable {step : σ → ρ ⊕ σ} {a b : σ} {path path' : List σ} {r r' : ρ}

/-- Walks from one place come to the same places. -/
theorem path_unique (h : Walk step a path r) (h' : Walk step a path' r') : path = path' := by
  induction h generalizing path' with
  | stop h =>
    cases h' with
    | stop => rfl
    | go hgo => exact nomatch h.symm.trans hgo
  | go h rest ih =>
    cases h' with
    | stop hstop => exact nomatch h.symm.trans hstop
    | go hgo rest' =>
      cases h.symm.trans hgo
      rw [ih rest']

/-- From every place that a walk comes to, a walk goes on that is no longer. -/
theorem onward (h : Walk step a path r) (hb : b ∈ path) :
    ∃ rest, Walk step b rest r ∧ rest.length ≤ path.length := by
  induction h with
  | stop h =>
    obtain rfl := List.mem_singleton.mp hb
    exact ⟨_, .stop h, Nat.le_refl _⟩
  | @go a c path r h rest ih =>
    rcases List.mem_cons.mp hb with rfl | hb
    · exact ⟨_, .go h rest, Nat.le_refl _⟩
    · obtain ⟨later, hlater, hlength⟩ := ih hb
      exact ⟨later, hlater, Nat.le_succ_of_le hlength⟩

/-- A walk does not come to a place twice. -/
theorem nodup (h : Walk step a path r) : path.Nodup := by
  induction h with
  | stop => exact List.nodup_singleton _
  | @go a c path r h rest ih =>
    refine List.nodup_cons.mpr ⟨fun hmem => ?_, ih⟩
    obtain ⟨later, hlater, hlength⟩ := rest.onward hmem
    obtain rfl := hlater.path_unique (.go h rest)
    exact absurd hlength (Nat.not_succ_le_self _)

/-- What a step keeps of places holds of all places of a walk. -/
theorem forall_mem {Q : σ → Prop} (hstep : ∀ a b, Q a → step a = .inr b → Q b)
    (h : Walk step a path r) (ha : Q a) : ∀ b ∈ path, Q b := by
  induction h with
  | stop => exact List.forall_mem_singleton.mpr ha
  | go h rest ih => exact List.forall_mem_cons.mpr ⟨ha, ih (hstep _ _ ha h)⟩

end Walk

section

variable {step : σ → ρ ⊕ σ} {a : σ} {r : ρ}

/-- A walk has an answer within a budget exactly when it comes to as many places at most. -/
theorem walkFor_eq_some_iff {budget : Nat} :
    walkFor step budget a = some r ↔ ∃ path, Walk step a path r ∧ path.length ≤ budget := by
  constructor
  · intro h
    induction budget generalizing a with
    | zero => cases h
    | succ budget ih =>
      unfold walkFor at h
      split at h
      · next r' hstep =>
        cases h
        exact ⟨_, .stop hstep, Nat.succ_le_succ (Nat.zero_le _)⟩
      · next b hstep =>
        obtain ⟨path, hwalk, hlength⟩ := ih h
        exact ⟨_, .go hstep hwalk, Nat.succ_le_succ hlength⟩
  · rintro ⟨path, hwalk, hlength⟩
    induction hwalk generalizing budget with
    | stop h =>
      cases budget with
      | zero => cases hlength
      | succ budget => rw [walkFor, h]
    | go h rest ih =>
      cases budget with
      | zero => cases hlength
      | succ budget =>
        rw [walkFor, h]
        exact ih (Nat.le_of_succ_le_succ hlength)

/-- Budgets that no walk exceeds give the same answer. -/
theorem walkFor_congr {budget budget' : Nat}
    (h : ∀ path r, Walk step a path r → path.length ≤ budget ∧ path.length ≤ budget') :
    walkFor step budget a = walkFor step budget' a := by
  apply Option.ext
  intro r
  simp only [walkFor_eq_some_iff]
  exact exists_congr fun path => and_congr_right fun hwalk =>
    iff_of_true (h path r hwalk).1 (h path r hwalk).2

/-- Steps that agree on the places that can be come to have the same answers. -/
theorem walkFor_step_congr {step' : σ → ρ ⊕ σ} {Q : σ → Prop} (hsame : ∀ a, Q a → step' a = step a)
    (hstep : ∀ a b, Q a → step a = .inr b → Q b) {budget : Nat} (ha : Q a) :
    walkFor step' budget a = walkFor step budget a := by
  induction budget generalizing a with
  | zero => rfl
  | succ budget ih =>
    rw [walkFor, hsame a ha, walkFor]
    split
    · rfl
    · next b hb => exact ih (hstep a b ha hb)

end

/-! ## The walks of the light client -/

namespace ChainMemory

/-- A step of the search for the two live validator sets: it answers, or goes on at the parent with
what is known of the newer set. -/
def searchStep (m : ChainMemory) (config : HeaderSyncConfig) (g : GenesisEpochs)
    (target : UInt64) (place : Option ValidatorEpoch × TrustedHeader) :
    Except HeaderError EpochPair ⊕ Option ValidatorEpoch × TrustedHeader :=
  match ChainView.visit config g target place.1 place.2 with
  | .error cause => .inl (.error cause)
  | .ok (.inl pair) => .inl (.ok pair)
  | .ok (.inr found) =>
    match m.header? place.2.parentHash with
    | none => .inl (.error (.epochNotFound target))
    | some parent => .inr (found, parent)

/-- What the search finds within a budget of headers. -/
def search (m : ChainMemory) (config : HeaderSyncConfig) (g : GenesisEpochs) (target : UInt64)
    (budget : Nat) (place : Option ValidatorEpoch × TrustedHeader) : Except HeaderError EpochPair :=
  (walkFor (m.searchStep config g target) budget place).getD (.error (.epochNotFound target))

/-- A step of the walk over recent signers: it answers, or goes on at the parent. -/
def recentStep (m : ChainMemory) (number : UInt64) (signer : Address) (window : UInt64)
    (ancestor : TrustedHeader) : Except HeaderError Unit ⊕ TrustedHeader :=
  if window < number - ancestor.number then .inl (.ok ())
  else if ancestor.signer = signer then
    .inl (.error (.recentlySigned number signer ancestor.number))
  else
    match m.header? ancestor.parentHash with
    | none => .inl (.ok ())
    | some parent => .inr parent

/-- What the walk over recent signers says within a budget of headers. -/
def recent (m : ChainMemory) (number : UInt64) (signer : Address) (window : UInt64)
    (budget : Nat) (ancestor : TrustedHeader) : Except HeaderError Unit :=
  (walkFor (m.recentStep number signer window) budget ancestor).getD (.ok ())

/-- What the search finds with one more header. -/
theorem search_succ (m : ChainMemory) (config : HeaderSyncConfig) (g : GenesisEpochs)
    (target : UInt64) (budget : Nat) (newer? : Option ValidatorEpoch) (cursor : TrustedHeader) :
    m.search config g target (budget + 1) (newer?, cursor) =
      match ChainView.visit config g target newer? cursor with
      | .error cause => .error cause
      | .ok (.inl pair) => .ok pair
      | .ok (.inr found) =>
        match m.header? cursor.parentHash with
        | none => .error (.epochNotFound target)
        | some parent => m.search config g target budget (found, parent) := by
  rw [search, walkFor, searchStep]
  rcases ChainView.visit config g target newer? cursor with cause | pair | found
  · rfl
  · rfl
  · dsimp only
    cases m.header? cursor.parentHash <;> rfl

/-- What the walk over recent signers says with one more header. -/
theorem recent_succ (m : ChainMemory) (number : UInt64) (signer : Address) (window : UInt64)
    (budget : Nat) (ancestor : TrustedHeader) :
    m.recent number signer window (budget + 1) ancestor =
      if window < number - ancestor.number then .ok ()
      else if ancestor.signer = signer then .error (.recentlySigned number signer ancestor.number)
      else
        match m.header? ancestor.parentHash with
        | none => .ok ()
        | some parent => m.recent number signer window budget parent := by
  rw [recent, walkFor, recentStep]
  by_cases hwindow : window < number - ancestor.number
  · rw [if_pos hwindow, if_pos hwindow]
    rfl
  rw [if_neg hwindow, if_neg hwindow]
  by_cases hsigner : ancestor.signer = signer
  · rw [if_pos hsigner, if_pos hsigner]
    rfl
  rw [if_neg hsigner, if_neg hsigner]
  cases m.header? ancestor.parentHash <;> rfl

/-- A header is stored. -/
def Stores (m : ChainMemory) (H : TrustedHeader) : Prop := ∃ hash, m.header? hash = some H

/-- The stored headers are no more than a number. -/
def AtMost (m : ChainMemory) (count : Nat) : Prop :=
  ∃ headers : List TrustedHeader, headers.length ≤ count ∧ ∀ H, m.Stores H → H ∈ headers

variable {m : ChainMemory} {config : HeaderSyncConfig} {g : GenesisEpochs} {target : UInt64}
  {number window : UInt64} {signer : Address} {count : Nat}

/-- The search goes on at a stored header, and keeps the newer set once it is known. -/
theorem searchStep_inr {place next : Option ValidatorEpoch × TrustedHeader}
    (h : m.searchStep config g target place = .inr next) :
    m.header? place.2.parentHash = some next.2 ∧ (place.1 = none ∨ next.1 = place.1) := by
  obtain ⟨newer?, cursor⟩ := place
  unfold searchStep at h
  split at h
  · cases h
  · cases h
  · next found hvisit =>
    split at h
    · cases h
    · next parent hparent =>
      cases h
      refine ⟨hparent, ?_⟩
      cases newer? with
      | none => exact .inl rfl
      | some newer =>
        unfold ChainView.visit at hvisit
        dsimp only at hvisit
        split at hvisit
        · cases hvisit
        · split at hvisit
          · split at hvisit <;> cases hvisit
          · cases hvisit
            exact .inr rfl

theorem recentStep_inr {ancestor next : TrustedHeader}
    (h : m.recentStep number signer window ancestor = .inr next) :
    m.header? ancestor.parentHash = some next := by
  unfold recentStep at h
  split at h
  · cases h
  · split at h
    · cases h
    · split at h
      · cases h
      · next parent hparent =>
        cases h
        exact hparent

/-- All places of a search are at stored headers, without a newer set or with the same one. -/
theorem search_places {place : Option ValidatorEpoch × TrustedHeader}
    {path : List (Option ValidatorEpoch × TrustedHeader)} {r : Except HeaderError EpochPair}
    (h : Walk (m.searchStep config g target) place path r) (hplace : m.Stores place.2) :
    ∃ newer?, ∀ p ∈ path, m.Stores p.2 ∧ (p.1 = none ∨ p.1 = newer?) := by
  induction h with
  | @stop a => exact ⟨a.1, List.forall_mem_singleton.mpr ⟨hplace, .inr rfl⟩⟩
  | @go a b path r hstep rest ih =>
    obtain ⟨hparent, hnewer⟩ := searchStep_inr hstep
    obtain ⟨newer?, hall⟩ := ih ⟨_, hparent⟩
    rcases hnewer with hnone | hsame
    · exact ⟨newer?, List.forall_mem_cons.mpr ⟨⟨hplace, .inl hnone⟩, hall⟩⟩
    · refine ⟨newer?, List.forall_mem_cons.mpr ⟨⟨hplace, ?_⟩, hall⟩⟩
      have hb : b ∈ path := by
        cases rest with
        | stop => exact List.mem_cons_self
        | go => exact List.mem_cons_self
      rw [← hsame]
      exact (hall b hb).2

/-- A search comes to every stored header twice at most. -/
theorem length_search_le {place : Option ValidatorEpoch × TrustedHeader}
    {path : List (Option ValidatorEpoch × TrustedHeader)} {r : Except HeaderError EpochPair}
    (hm : m.AtMost count) (hplace : m.Stores place.2)
    (h : Walk (m.searchStep config g target) place path r) : path.length ≤ 2 * count := by
  obtain ⟨headers, hlength, hstored⟩ := hm
  obtain ⟨newer?, hall⟩ := search_places h hplace
  have hsubset : path ⊆ [none, newer?] ×ˢ headers := by
    intro p hp
    obtain ⟨hp, hnewer⟩ := hall p hp
    refine List.mem_product.mpr ⟨?_, hstored _ hp⟩
    rcases hnewer with he | he <;> simp [he]
  have hle := (List.subperm_of_subset h.nodup hsubset).length_le
  rw [List.length_product, List.length_cons, List.length_singleton] at hle
  omega

/-- The walk over recent signers comes to every stored header once at most. -/
theorem length_recent_le {ancestor : TrustedHeader} {path : List TrustedHeader}
    {r : Except HeaderError Unit} (hm : m.AtMost count) (hancestor : m.Stores ancestor)
    (h : Walk (m.recentStep number signer window) ancestor path r) : path.length ≤ count := by
  obtain ⟨headers, hlength, hstored⟩ := hm
  have hall : ∀ H ∈ path, m.Stores H :=
    h.forall_mem (fun _ _ _ hstep => ⟨_, recentStep_inr hstep⟩) hancestor
  have hle := (List.subperm_of_subset h.nodup fun H hH => hstored H (hall H hH)).length_le
  omega

/-- With a budget of twice the stored headers the search finds what it finds with any other. -/
theorem search_congr (config : HeaderSyncConfig) (g : GenesisEpochs) (target : UInt64)
    {count' budget budget' : Nat} {place : Option ValidatorEpoch × TrustedHeader}
    (hm : m.AtMost count) (hm' : m.AtMost count') (hplace : m.Stores place.2)
    (h : 2 * count ≤ budget) (h' : 2 * count' ≤ budget') :
    m.search config g target budget place = m.search config g target budget' place := by
  unfold search
  rw [walkFor_congr fun path r hwalk => ⟨?_, ?_⟩]
  · exact (length_search_le hm hplace hwalk).trans h
  · exact (length_search_le hm' hplace hwalk).trans h'

/-- With a budget of the stored headers the walk says what it says with any other. -/
theorem recent_congr (number : UInt64) (signer : Address) (window : UInt64)
    {count' budget budget' : Nat} {ancestor : TrustedHeader} (hm : m.AtMost count)
    (hm' : m.AtMost count') (hancestor : m.Stores ancestor) (h : count ≤ budget) (h' : count' ≤ budget') :
    m.recent number signer window budget ancestor =
      m.recent number signer window budget' ancestor := by
  unfold recent
  rw [walkFor_congr fun path r hwalk => ⟨?_, ?_⟩]
  · exact (length_recent_le hm hancestor hwalk).trans h
  · exact (length_recent_le hm' hancestor hwalk).trans h'

end ChainMemory

/-- The records that read as trusted headers. -/
def State.readableHeaders (s : State) : List TrustedHeader :=
  s.records.entries.filterMap fun e => (Record.decode e.2).toOption

theorem State.mem_readableHeaders {s : State} {chain : ChainId} {H : TrustedHeader}
    (h : (s.memory chain).Stores H) : H ∈ s.readableHeaders := by
  obtain ⟨hash, hstored⟩ := h
  change s.lookup (.header chain hash) = some H at hstored
  obtain ⟨value, hraw, hdecode⟩ := Option.bind_eq_some_iff.mp hstored
  have hentry := s.records.mem_entries_iff.mpr
    (show s.records.find? ((RecordKey.header chain hash).toBytes s.module, value).1 = some value
      from hraw)
  exact List.mem_filterMap.mpr ⟨_, hentry, hdecode⟩

/-- There are no more stored headers of a chain than records. -/
theorem State.memory_atMost (s : State) (chain : ChainId) :
    (s.memory chain).AtMost s.records.size :=
  ⟨s.readableHeaders, List.length_filterMap_le _ _, fun _ => mem_readableHeaders⟩

end BridgeKernel
