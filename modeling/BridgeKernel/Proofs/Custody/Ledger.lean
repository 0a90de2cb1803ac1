import BridgeKernel.Proofs.Custody.Outputs
import Mathlib.Data.List.Flatten
import Mathlib.Data.List.Perm.Subperm

/-!
# Outputs held once

A deposit adds an output that is not held yet, a payment moves outputs from the spendable to the
reserved ones, and closing it moves them on to the spent ones. All this keeps every output apart
from the others. Closing a payment also makes its outputs that pay the custody script spendable,
without a look at what is held: all outputs stay apart exactly when these are new.
-/

namespace BridgeKernel

open Bitcoin

/-- The transaction and the place in it by which an output is known. -/
def Utxo.outpoint (u : Utxo) : Hash × UInt32 := (u.txid, u.vout)

theorem Utxo.sameOutpoint_iff {u v : Utxo} : u.sameOutpoint v = true ↔ u.outpoint = v.outpoint := by
  simp [sameOutpoint, outpoint]

/-! ## Selection -/

namespace Selection

theorem place_perm (u : Utxo) (utxos : List Utxo) : (place u utxos).Perm (u :: utxos) := by
  induction utxos with
  | nil => exact .refl _
  | cons v rest ih =>
    unfold place
    split
    · exact .refl _
    · exact (ih.cons v).trans (.swap u v rest)

theorem order_perm (utxos : List Utxo) : (order utxos).Perm utxos := by
  induction utxos with
  | nil => exact .refl _
  | cons u rest ih => exact (place_perm u _).trans (ih.cons u)

theorem gather_append {target taken : Nat} {utxos : List Utxo} {selection : Selection}
    (h : gather target taken utxos = some selection) :
    selection.chosen ++ selection.remaining = utxos := by
  induction utxos generalizing taken selection with
  | nil =>
    cases h
    rfl
  | cons u rest ih =>
    simp only [gather] at h
    split at h
    · cases h
    · split at h
      · cases h
        rfl
      · obtain ⟨later, hlater, rfl⟩ := Option.map_eq_some_iff.mp h
        exact congrArg (u :: ·) (ih hlater)

/-- A selection splits the outputs into those chosen and those left. -/
theorem largestFirst_perm {utxos : List Utxo} {target : UInt64} {selection : Selection}
    (h : largestFirst utxos target = some selection) :
    (selection.chosen ++ selection.remaining).Perm utxos := by
  obtain ⟨found, hgather, h⟩ := Option.bind_eq_some_iff.mp h
  split at h
  · cases h
  · cases h
    rw [gather_append hgather]
    exact order_perm utxos

end Selection

/-! ## Lists of outputs after a change -/

namespace State

variable {s t : State} {chain : ChainId} {key : String}

theorem spendable_change_store {utxos : List Utxo} (hf : Record.fits utxos = true) :
    (s.change (.store (.utxo chain key) utxos)).spendable chain key = utxos := by
  rw [spendable, lookup_change_store hf]
  rfl

theorem spendable_change_of_ne {c : Change} (h : .utxo chain key ≠ c.key) :
    (s.change c).spendable chain key = s.spendable chain key := by
  rw [spendable, lookup_change_of_ne h, spendable]

theorem spent_change_store {utxos : List Utxo} (hf : Record.fits utxos = true) :
    (s.change (.store (.stxo chain key) utxos)).spent chain key = utxos := by
  rw [spent, lookup_change_store hf]
  rfl

theorem spent_change_of_ne {c : Change} (h : .stxo chain key ≠ c.key) :
    (s.change c).spent chain key = s.spent chain key := by
  rw [spent, lookup_change_of_ne h, spent]

/-- The outputs that custody holds under a key: spendable ones, those reserved by payments that wait
for signatures, and spent ones. -/
def outpoints (s : State) (chain : ChainId) (key : String) : List (Hash × UInt32) :=
  (s.spendable chain key ++ s.reserved chain ++ s.spent chain key).map Utxo.outpoint

/-- Where all outputs are apart, a spendable one is neither reserved nor spent. -/
theorem spendable_apart {u v : Utxo} (h : (s.outpoints chain key).Nodup)
    (hu : u ∈ s.spendable chain key) (hv : v ∈ s.reserved chain ++ s.spent chain key) :
    u.outpoint ≠ v.outpoint := by
  rw [outpoints, List.append_assoc, List.map_append] at h
  have hapart := (List.nodup_append.mp h).2.2
  exact hapart _ (List.mem_map_of_mem hu) _ (List.mem_map_of_mem hv)

/-- Where all outputs are apart, no payment has reserved a spendable one. -/
theorem spendable_not_reserved {u v : Utxo} (h : (s.outpoints chain key).Nodup)
    (hu : u ∈ s.spendable chain key) (hv : v ∈ s.reserved chain) : u.outpoint ≠ v.outpoint :=
  spendable_apart h hu (List.mem_append_left _ hv)

/-- Where all outputs are apart, a reserved one is not spent. -/
theorem reserved_apart {u v : Utxo} (h : (s.outpoints chain key).Nodup)
    (hu : u ∈ s.reserved chain) (hv : v ∈ s.spent chain key) : u.outpoint ≠ v.outpoint := by
  rw [outpoints, List.map_append] at h
  have hapart := (List.nodup_append.mp h).2.2
  refine hapart _ (List.mem_map_of_mem ?_) _ (List.mem_map_of_mem hv)
  exact List.mem_append_right _ hu

/-- A payment that waits holds what it has reserved. -/
theorem reserved_of_lookup {txid : Hash} {draft : SpendDraft}
    (h : s.lookup (.draft chain txid) = some draft) : draft.inputs ⊆ s.reserved chain := by
  intro u hu
  have hlisted : draft ∈ s.drafts chain :=
    (drafts_perm_of_lookup h).mem_iff.mpr List.mem_cons_self
  exact List.mem_flatMap.mpr ⟨draft, hlisted, hu⟩

/-- All payments of a chain that wait for signatures stand under their own ids and spend from one
custody key. -/
def DraftsOn (s : State) (chain : ChainId) (key : String) : Prop :=
  ∀ (txid : Hash) (draft : SpendDraft), s.lookup (.draft chain txid) = some draft →
    draft.txid = txid ∧ draft.redeemKey = key

/-- All payments of a chain that wait for signatures stand under their own ids. -/
def DraftsNamed (s : State) (chain : ChainId) : Prop :=
  ∀ (txid : Hash) (draft : SpendDraft), s.lookup (.draft chain txid) = some draft →
    draft.txid = txid

end State

namespace Custody

/-- The outputs held under a custody key and the payments of the chain stay. -/
structure Still (chain : ChainId) (key : String) (s t : State) : Prop where
  /-- The same outputs are spendable. -/
  spendable : t.spendable chain key = s.spendable chain key
  /-- The same outputs are spent. -/
  spent : t.spent chain key = s.spent chain key
  /-- The same payments are listed. -/
  drafts : (t.drafts chain).Perm (s.drafts chain)
  /-- The same payments are found. -/
  waiting : ∀ txid, t.lookup (α := SpendDraft) (.draft chain txid) = s.lookup (.draft chain txid)

/-- How a call may change the outputs held under a custody key, with the outputs that it pays
back. -/
inductive Step (chain : ChainId) (key : String) (s t : State) : List Utxo → Prop
  /-- The outputs and the payments stay. -/
  | quiet (spendable : t.spendable chain key = s.spendable chain key)
    (spent : t.spent chain key = s.spent chain key)
    (drafts : (t.drafts chain).Perm (s.drafts chain))
    (waiting : ∀ txid, t.lookup (α := SpendDraft) (.draft chain txid) =
      s.lookup (.draft chain txid)) : Step chain key s t []
  /-- An output is deposited. -/
  | deposited {utxo : Utxo} (h : Deposits chain key utxo s t) : Step chain key s t []
  /-- A payment is made. -/
  | drafted {config : CustodyConfig} {payouts : List Payout} {fee : UInt64} {record : RedeemRecord}
    {cost : UInt64} {selection : Selection} {draft : SpendDraft}
    (h : Drafts config chain key payouts fee record cost selection draft s t) :
    Step chain key s t []
  /-- A payment is closed. -/
  | closed {txid : Hash} {draft : SpendDraft} {record : RedeemRecord} {tx signed : Transaction}
    {collection : SignatureCollection} (waiting : s.lookup (.draft chain txid) = some draft)
    (h : Closes chain draft record tx signed collection s t) :
    Step chain key s t (returned record.redeemScript signed)

variable {chain : ChainId} {key : String} {s t : State}

/-! ## Outputs after a call -/

namespace Still

/-- Writing other records moves no outputs and no payments. -/
theorem of_writes {P : RecordKey → Prop} (h : s.Writes P t) (hutxo : ¬ P (.utxo chain key))
    (hstxo : ¬ P (.stxo chain key)) (hdraft : ∀ txid, ¬ P (.draft chain txid)) :
    Still chain key s t where
  spendable := by rw [State.spendable, h.lookup_eq hutxo, State.spendable]
  spent := by rw [State.spent, h.lookup_eq hstxo, State.spent]
  drafts := h.drafts_perm hdraft
  waiting txid := h.lookup_eq (hdraft txid)

theorem outpoints_perm (h : Still chain key s t) :
    (t.outpoints chain key).Perm (s.outpoints chain key) := by
  have hreserved : (t.reserved chain).Perm (s.reserved chain) := h.drafts.flatMap_right _
  rw [State.outpoints, State.outpoints, h.spendable, h.spent]
  exact ((hreserved.append_left _).append_right _).map _

end Still

namespace Deposits

variable {utxo : Utxo} (h : Deposits chain key utxo s t)
include h

theorem spendable_eq : t.spendable chain key = s.spendable chain key ++ [utxo] :=
  (h.changed.spendable_eq _ _).trans (State.spendable_change_store h.fits)

theorem spent_eq : t.spent chain key = s.spent chain key :=
  (h.changed.spent_eq _ _).trans (State.spent_change_of_ne (by simp))

theorem drafts_perm : (t.drafts chain).Perm (s.drafts chain) := by
  rw [h.changed.drafts_eq]
  exact State.drafts_change_of_ne (by simp)

theorem waiting_eq (txid : Hash) :
    t.lookup (α := SpendDraft) (.draft chain txid) = s.lookup (.draft chain txid) :=
  h.changed.lookup_of_ne (by simp)

/-- A deposit adds one output, which was not held. -/
theorem outpoints_perm :
    (t.outpoints chain key).Perm (utxo.outpoint :: s.outpoints chain key) ∧
      utxo.outpoint ∉ s.outpoints chain key := by
  have hreserved : (t.reserved chain).Perm (s.reserved chain) := h.drafts_perm.flatMap_right _
  constructor
  · rw [State.outpoints, State.outpoints, h.spendable_eq, h.spent_eq, ← List.map_cons]
    refine List.Perm.map _ (List.perm_iff_count.mpr fun u => ?_)
    have hcount := hreserved.count_eq u
    simp only [List.count_append, List.count_cons, List.count_nil]
    omega
  · intro hmem
    obtain ⟨u, hu, he⟩ := List.mem_map.mp hmem
    refine h.fresh u ?_ (Utxo.sameOutpoint_iff.mpr he)
    simp only [List.mem_append] at hu ⊢
    tauto

end Deposits

namespace Drafts

variable {config : CustodyConfig} {payouts : List Payout} {fee cost : UInt64}
  {record : RedeemRecord} {selection : Selection} {draft : SpendDraft}
  (h : Drafts config chain key payouts fee record cost selection draft s t)
include h

theorem spendable_eq : t.spendable chain key = selection.remaining :=
  (h.changed.spendable_eq _ _).trans (State.spendable_change_store h.fitsRemaining)

theorem spent_eq : t.spent chain key = s.spent chain key :=
  (h.changed.spent_eq _ _).trans
    ((State.spent_change_of_ne (by simp)).trans (State.spent_change_of_ne (by simp)))

theorem inputs_eq : draft.inputs = selection.chosen := congrArg SpendDraft.inputs h.made

/-- A payment stands in the listing beside those with other ids. -/
theorem drafts_perm : (t.drafts chain).Perm
    (draft :: (s.change (.remove (.draft chain draft.txid))).drafts chain) := by
  rw [h.changed.drafts_eq]
  exact (State.drafts_change_of_ne (by simp)).trans (State.drafts_change_store h.fits)

/-- A payment waits once it is made. -/
theorem waiting_self : t.lookup (.draft chain draft.txid) = some draft := by
  obtain ⟨n, rfl⟩ := h.changed
  have hstored : ((s.change (.store (.draft chain draft.txid) draft)).change
      (.store (.utxo chain key) selection.remaining)).lookup (.draft chain draft.txid) =
        some draft := by
    rw [State.lookup_change_of_ne (by simp), State.lookup_change_store h.fits]
  exact hstored

theorem waiting_of_ne {txid : Hash} (hne : txid ≠ draft.txid) :
    t.lookup (α := SpendDraft) (.draft chain txid) = s.lookup (.draft chain txid) :=
  h.changed.lookup_of_ne (by simp [hne])

/-- A payment holds no outputs that were not held before it. -/
theorem held_subperm :
    (t.spendable chain key ++ t.reserved chain ++ t.spent chain key).Subperm
      (s.spendable chain key ++ s.reserved chain ++ s.spent chain key) := by
  have hrest : (s.change (.remove (.draft chain draft.txid))).drafts chain |>.Sublist
      (s.drafts chain) := State.drafts_change_remove_sublist draft.txid
  have hreserved := h.drafts_perm.flatMap_right (·.inputs)
  rw [List.flatMap_cons, h.inputs_eq] at hreserved
  refine List.subperm_ext_iff.mpr fun u _ => ?_
  have hselected := (Selection.largestFirst_perm h.selected).count_eq u
  have hcount := hreserved.count_eq u
  have hle := (hrest.flatMap (·.inputs)).count_le u
  rw [h.spendable_eq, h.spent_eq, State.reserved, State.reserved]
  simp only [List.count_append] at hselected hcount ⊢
  omega

/-- A payment moves outputs and keeps them apart. -/
theorem outpoints_nodup (hs : (s.outpoints chain key).Nodup) : (t.outpoints chain key).Nodup := by
  obtain ⟨kept, hperm, hkept⟩ := h.held_subperm
  exact (hperm.map _).nodup_iff.mp (hs.sublist (hkept.map _))

end Drafts

/-- No spendable output is an input of a payment, as long as all outputs are apart. -/
theorem filter_inputs_eq {draft : SpendDraft} (hs : (s.outpoints chain key).Nodup)
    (hdraft : draft ∈ s.drafts chain) :
    ((s.spendable chain key).filter fun u => !draft.inputs.any (·.sameOutpoint u)) =
      s.spendable chain key := by
  rw [List.filter_eq_self]
  intro u hu
  rw [Bool.not_eq_true', List.any_eq_false]
  intro v hv hsame
  have hreserved : v ∈ s.reserved chain := List.mem_flatMap.mpr ⟨draft, hdraft, hv⟩
  exact State.spendable_not_reserved hs hu hreserved (Utxo.sameOutpoint_iff.mp hsame).symm

namespace Closes

variable {draft : SpendDraft} {record : RedeemRecord} {tx signed : Transaction}
  {collection : SignatureCollection} (h : Closes chain draft record tx signed collection s t)
include h

theorem spendable_eq : t.spendable chain draft.redeemKey =
    ((s.spendable chain draft.redeemKey).filter fun u => !draft.inputs.any (·.sameOutpoint u)) ++
      returned record.redeemScript signed := by
  have hafter := h.changed.spendable_eq chain draft.redeemKey
  simp only [closingChanges, State.changeAll_cons, State.changeAll_nil] at hafter
  rw [hafter, State.spendable_change_of_ne (by simp), State.spendable_change_of_ne (by simp),
    State.spendable_change_store h.fitsSpendable]

theorem spent_eq : t.spent chain draft.redeemKey =
    s.spent chain draft.redeemKey ++ draft.inputs := by
  have hafter := h.changed.spent_eq chain draft.redeemKey
  simp only [closingChanges, State.changeAll_cons, State.changeAll_nil] at hafter
  rw [hafter, State.spent_change_of_ne (by simp), State.spent_change_store h.fitsSpent]

/-- A closed payment waits no more. -/
theorem waiting_self : t.lookup (α := SpendDraft) (.draft chain draft.txid) = none := by
  obtain ⟨n, rfl⟩ := h.changed
  exact State.lookup_change_remove _

theorem waiting_of_ne {txid : Hash} (hne : txid ≠ draft.txid) :
    t.lookup (α := SpendDraft) (.draft chain txid) = s.lookup (.draft chain txid) :=
  h.changed.lookup_of_ne (by simp [closingChanges, hne])

/-- A closed payment is the one that the listing loses. -/
theorem drafts_perm (hwaiting : s.lookup (.draft chain draft.txid) = some draft) :
    (s.drafts chain).Perm (draft :: t.drafts chain) := by
  have hafter := h.changed.drafts_eq chain
  simp only [closingChanges, State.changeAll_cons, State.changeAll_nil] at hafter
  rw [hafter]
  refine List.Perm.trans ?_ (State.drafts_perm_of_lookup ?_)
  · refine List.Perm.symm ?_
    refine (State.drafts_change_of_ne (by simp)).trans ?_
    exact (State.drafts_change_of_ne (by simp)).trans (State.drafts_change_of_ne (by simp))
  · rw [State.lookup_change_of_ne (by simp), State.lookup_change_of_ne (by simp),
      State.lookup_change_of_ne (by simp), hwaiting]

theorem reserved_perm (hwaiting : s.lookup (.draft chain draft.txid) = some draft) :
    (s.reserved chain).Perm (draft.inputs ++ t.reserved chain) := by
  rw [State.reserved, State.reserved, ← List.flatMap_cons]
  exact (h.drafts_perm hwaiting).flatMap_right _

/-- Closing a payment keeps what was held, and adds what the payment pays back. -/
theorem outpoints_perm (hwaiting : s.lookup (.draft chain draft.txid) = some draft)
    (hs : (s.outpoints chain draft.redeemKey).Nodup) :
    (t.outpoints chain draft.redeemKey).Perm
      ((returned record.redeemScript signed).map Utxo.outpoint ++
        s.outpoints chain draft.redeemKey) := by
  have hmem : draft ∈ s.drafts chain := (h.drafts_perm hwaiting).mem_iff.mpr List.mem_cons_self
  have hspendable := h.spendable_eq
  rw [filter_inputs_eq hs hmem] at hspendable
  have hreserved := h.reserved_perm hwaiting
  rw [State.outpoints, State.outpoints, hspendable, h.spent_eq, ← List.map_append]
  refine List.Perm.map _ (List.perm_iff_count.mpr fun u => ?_)
  have hcount := hreserved.count_eq u
  simp only [List.count_append] at hcount ⊢
  omega

end Closes

/-! ## One step -/

namespace Step

variable {paid : List Utxo}

/-- A step keeps outputs apart exactly when those that it pays back are apart and new. -/
theorem outpoints_nodup_iff (h : Step chain key s t paid) (hon : s.DraftsOn chain key)
    (hs : (s.outpoints chain key).Nodup) :
    (t.outpoints chain key).Nodup ↔ (paid.map Utxo.outpoint).Nodup ∧
      ∀ p ∈ paid.map Utxo.outpoint, p ∉ s.outpoints chain key := by
  cases h with
  | quiet hspendable hspent hdrafts hwaiting =>
    have hstill : Still chain key s t := ⟨hspendable, hspent, hdrafts, hwaiting⟩
    simp [hstill.outpoints_perm.nodup_iff, hs]
  | deposited h =>
    obtain ⟨hperm, hnew⟩ := h.outpoints_perm
    simp [hperm.nodup_iff, hs, hnew]
  | drafted h =>
    simp [h.outpoints_nodup hs]
  | @closed txid draft record tx signed collection hwaiting h =>
    obtain ⟨rfl, rfl⟩ := hon txid draft hwaiting
    rw [(h.outpoints_perm hwaiting hs).nodup_iff, List.nodup_append]
    constructor
    · rintro ⟨hpaid, -, hapart⟩
      exact ⟨hpaid, fun p hp hheld => hapart p hp p hheld rfl⟩
    · rintro ⟨hpaid, hapart⟩
      refine ⟨hpaid, hs, fun p hp q hq he => ?_⟩
      subst he
      exact hapart p hp hq

/-- A payment that waits after a step waited before it, or was made by it, under its own id and on
the custody key of the step. -/
theorem draft_origin (h : Step chain key s t paid) {txid : Hash} {found : SpendDraft}
    (hfound : t.lookup (.draft chain txid) = some found) :
    s.lookup (.draft chain txid) = some found ∨ found.txid = txid ∧ found.redeemKey = key := by
  cases h with
  | quiet _ _ _ hwaiting => exact .inl ((hwaiting txid).symm.trans hfound)
  | deposited h => exact .inl ((h.waiting_eq txid).symm.trans hfound)
  | @drafted _ _ _ _ _ _ draft h =>
    by_cases hid : txid = draft.txid
    · rw [hid, h.waiting_self] at hfound
      cases hfound
      exact .inr ⟨hid.symm, congrArg SpendDraft.redeemKey h.made⟩
    · exact .inl ((h.waiting_of_ne hid).symm.trans hfound)
  | @closed id draft record tx signed collection hwaiting h =>
    by_cases hid : txid = draft.txid
    · rw [hid, h.waiting_self] at hfound
      cases hfound
    · exact .inl ((h.waiting_of_ne hid).symm.trans hfound)

/-- A step keeps all payments under their own ids and on one custody key. -/
theorem draftsOn (h : Step chain key s t paid) (hon : s.DraftsOn chain key) :
    t.DraftsOn chain key := by
  intro txid found hfound
  rcases h.draft_origin hfound with hwaiting | hmade
  · exact hon txid found hwaiting
  · exact hmade

/-- A step keeps all payments under their own ids. -/
theorem draftsNamed (h : Step chain key s t paid) (hnamed : s.DraftsNamed chain) :
    t.DraftsNamed chain := by
  intro txid found hfound
  rcases h.draft_origin hfound with hwaiting | ⟨hid, -⟩
  · exact hnamed txid found hwaiting
  · exact hid

end Step

end Custody

end BridgeKernel
