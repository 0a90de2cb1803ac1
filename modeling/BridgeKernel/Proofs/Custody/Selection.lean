import BridgeKernel.Proofs.Custody.Balance
import Mathlib.Algebra.Order.BigOperators.Group.List
import Mathlib.Algebra.Order.Group.Nat

/-!
# The fewest outputs

Outputs are spent from the largest down, so those spent before any other are worth at least as much
as any other outputs of the same number: no payment could do with fewer. The order among outputs
with different outpoints is total, so what is picked does not depend on how they were listed.
-/

namespace BridgeKernel

open Transition

/-- Outputs are worth no less than some of them. -/
theorem worth_sublist {picked utxos : List Utxo} (h : picked.Sublist utxos) :
    worth picked ≤ worth utxos :=
  (h.map _).sum_le_sum fun _ _ => Nat.zero_le _

namespace Selection

/-! ## The order in which outputs are spent -/

/-- How two outputs stand in the order: by falling value, then by transaction, then by place. -/
def rank (a b : Utxo) : Ordering :=
  (compare b.value a.value).then ((compare a.txid b.txid).then (compare a.vout b.vout))

instance : Std.TransCmp rank :=
  have : Std.TransCmp fun a b : Utxo => compare b.value a.value :=
    @Std.TransCmp.opposite _ (compareOn Utxo.value) inferInstance
  inferInstanceAs (Std.TransCmp (compareLex (fun a b : Utxo => compare b.value a.value)
    (compareLex (compareOn Utxo.txid) (compareOn Utxo.vout))))

theorem notAfter_eq (a b : Utxo) : notAfter a b = (rank a b).isLE := by
  unfold notAfter rank
  cases compare b.value a.value with
  | lt => rfl
  | gt => rfl
  | eq =>
    cases compare a.txid b.txid with
    | lt => rfl
    | gt => rfl
    | eq => exact Bool.eq_iff_iff.mpr (by simp [Std.isLE_compare])

theorem notAfter_trans {a b c : Utxo} (hab : notAfter a b = true) (hbc : notAfter b c = true) :
    notAfter a c = true := by
  rw [notAfter_eq] at hab hbc ⊢
  exact Std.TransCmp.isLE_trans hab hbc

/-- Of two outputs one is spent no later than the other. -/
theorem notAfter_of_not {a b : Utxo} (h : ¬ notAfter a b = true) : notAfter b a = true := by
  rw [notAfter_eq] at h ⊢
  have hswap : rank b a = (rank a b).swap := Std.OrientedCmp.eq_swap
  rw [hswap]
  cases hrank : rank a b <;> simp_all

/-- Two outputs neither of which is spent before the other have the same outpoint. -/
theorem outpoint_eq_of_notAfter {a b : Utxo} (hab : notAfter a b = true)
    (hba : notAfter b a = true) : a.outpoint = b.outpoint := by
  rw [notAfter_eq] at hab hba
  have hrank : rank a b = .eq := Std.OrientedCmp.isLE_antisymm hab hba
  obtain ⟨-, htxid, hvout⟩ : _ ∧ _ ∧ _ := by
    simpa only [rank, Ordering.then_eq_eq] using hrank
  rw [Std.LawfulEqOrd.compare_eq_iff_eq] at htxid hvout
  exact Prod.ext htxid hvout

/-- An output that is spent no later is worth no less. -/
theorem value_le_of_notAfter {a b : Utxo} (h : notAfter a b = true) : b.value ≤ a.value := by
  rw [notAfter_eq, rank, Ordering.isLE_then_iff_or] at h
  rw [← Std.isLE_compare]
  rcases h with h | ⟨h, -⟩
  · rw [h]
    rfl
  · rw [h]
    rfl

theorem place_sorted {u : Utxo} {utxos : List Utxo} (h : utxos.Pairwise (notAfter · · = true)) :
    (place u utxos).Pairwise (notAfter · · = true) := by
  induction utxos with
  | nil => exact List.pairwise_singleton _ u
  | cons v rest ih =>
    obtain ⟨hfirst, hrest⟩ := List.pairwise_cons.mp h
    unfold place
    split
    · next huv =>
      apply List.Pairwise.cons _ h
      intro w hw
      rcases List.mem_cons.mp hw with rfl | hw
      · exact huv
      · exact notAfter_trans huv (hfirst w hw)
    · next huv =>
      apply List.Pairwise.cons _ (ih hrest)
      intro w hw
      rcases List.mem_cons.mp ((place_perm u rest).mem_iff.mp hw) with rfl | hw
      · exact notAfter_of_not huv
      · exact hfirst w hw

theorem order_sorted (utxos : List Utxo) : (order utxos).Pairwise (notAfter · · = true) := by
  induction utxos with
  | nil => exact .nil
  | cons u rest ih => exact place_sorted ih

/-- Outputs with different outpoints stand in one order, however they are listed. -/
theorem order_eq_of_perm {utxos utxos' : List Utxo} (h : utxos'.Perm utxos)
    (hapart : (utxos.map Utxo.outpoint).Nodup) : order utxos' = order utxos := by
  have hperm : (order utxos').Perm utxos := (order_perm utxos').trans h
  refine List.Perm.eq_of_pairwise ?_ (order_sorted utxos') (order_sorted utxos)
    (hperm.trans (order_perm utxos).symm)
  intro a b ha hb hab hba
  exact List.inj_on_of_nodup_map hapart (hperm.mem_iff.mp ha) ((order_perm utxos).mem_iff.mp hb)
    (outpoint_eq_of_notAfter hab hba)

/-! ## The largest outputs are worth the most -/

/-- As many outputs from the front are worth no less with a larger one put before them. -/
theorem worth_take_le_cons {u : Utxo} {utxos : List Utxo} (h : ∀ v ∈ utxos, v.value ≤ u.value)
    (count : Nat) : worth (utxos.take count) ≤ worth ((u :: utxos).take count) := by
  cases count with
  | zero => exact Nat.le_refl 0
  | succ count =>
    rw [List.take_add_one, List.take_succ_cons, worth_append, worth_cons, Nat.add_comm]
    apply Nat.add_le_add_right
    cases hlast : utxos[count]? with
    | none => exact Nat.zero_le _
    | some v => exact UInt64.le_iff_toNat_le.mp (h v (List.mem_of_getElem? hlast))

/-- Of outputs in order none are worth more than as many from the front. -/
theorem worth_le_take {picked utxos : List Utxo} (hsorted : utxos.Pairwise (notAfter · · = true))
    (h : picked.Sublist utxos) : worth picked ≤ worth (utxos.take picked.length) := by
  induction h with
  | slnil => exact Nat.le_refl 0
  | cons u _ ih =>
    obtain ⟨hfirst, hrest⟩ := List.pairwise_cons.mp hsorted
    exact (ih hrest).trans
      (worth_take_le_cons (fun v hv => value_le_of_notAfter (hfirst v hv)) _)
  | cons_cons u _ ih =>
    exact Nat.add_le_add_left (ih hsorted.of_cons) _

/-! ## What is picked -/

/-- The target is not covered before the last output is taken. -/
theorem gather_short {target taken : Nat} {utxos : List Utxo} {selection : Selection}
    (h : gather target taken utxos = some selection) (hshort : taken < target) :
    taken + worth selection.chosen.dropLast < target := by
  induction utxos generalizing taken selection with
  | nil =>
    cases h
    exact hshort
  | cons u rest ih =>
    simp only [gather] at h
    split at h
    · cases h
    split at h
    · cases h
      exact hshort
    · next hcovers =>
      obtain ⟨later, hlater, rfl⟩ := Option.map_eq_some_iff.mp h
      have hsum := ih hlater (Nat.not_le.mp hcovers)
      cases hchosen : later.chosen with
      | nil => exact hshort
      | cons v more =>
        rw [hchosen] at hsum
        rw [List.dropLast_cons_cons, worth_cons]
        omega

/-- What is picked from outputs for a target. -/
structure Fewest (utxos : List Utxo) (target : UInt64) (selection : Selection) : Prop where
  /-- The outputs are those chosen and those left. -/
  splits : (selection.chosen ++ selection.remaining).Perm utxos
  /-- The total is what the chosen ones are worth. -/
  total : selection.total = worth selection.chosen
  /-- It covers the target. -/
  covers : target.toNat ≤ selection.total
  /-- The last one chosen is needed. -/
  needed : worth selection.chosen.dropLast < target.toNat
  /-- No fewer outputs cover the target. -/
  fewest : ∀ picked : List Utxo, picked.Subperm utxos →
    picked.length < selection.chosen.length → worth picked < target.toNat

variable {utxos : List Utxo} {target : UInt64} {selection : Selection}

theorem largestFirst_needed (h : largestFirst utxos target = some selection)
    (hpositive : 0 < target) :
    selection.chosen ++ selection.remaining = order utxos ∧
      worth selection.chosen.dropLast < target.toNat := by
  obtain ⟨found, hgather, h⟩ := Option.bind_eq_some_iff.mp h
  split at h
  · cases h
  · cases h
    have hneeded := gather_short hgather (UInt64.lt_iff_toNat_lt.mp hpositive)
    rw [Nat.zero_add] at hneeded
    exact ⟨gather_append hgather, hneeded⟩

/-- A selection for a positive target picks no output that could be spared, and no more than any
other would. -/
theorem fewest_of_largestFirst (h : largestFirst utxos target = some selection)
    (hpositive : 0 < target) : Fewest utxos target selection := by
  obtain ⟨-, htotal, -, hcovers⟩ := largestFirst_total h
  obtain ⟨happend, hneeded⟩ := largestFirst_needed h hpositive
  refine ⟨largestFirst_perm h, htotal, hcovers, hneeded, ?_⟩
  intro picked hpicked hfewer
  obtain ⟨listed, hperm, hlisted⟩ := hpicked.trans (order_perm utxos).symm.subperm
  have hfront : (order utxos).take listed.length <+: selection.chosen.dropLast := by
    rw [← happend, hperm.length_eq, List.take_append_of_le_length hfewer.le,
      List.dropLast_eq_take]
    exact List.take_prefix_take_left (by omega)
  calc worth picked = worth listed := worth_perm hperm.symm
    _ ≤ worth ((order utxos).take listed.length) := worth_le_take (order_sorted utxos) hlisted
    _ ≤ worth selection.chosen.dropLast := worth_sublist hfront.sublist
    _ < target.toNat := hneeded

end Selection

namespace Custody

variable {config : CustodyConfig} {chain : ChainId} {key : String} {payouts : List Payout}
  {fee : UInt64} {s t : State}

/-- A payment refused for its number of inputs was refused after the outputs were picked for its
cost. -/
theorem createDraft_tooMany {count most : Nat}
    (h : createDraft config chain key payouts fee s = (.error (.tooManyInputs count most), t)) :
    ∃ cost selection, required config payouts fee = .ok cost ∧
      Selection.largestFirst (s.spendable chain key) cost = some selection ∧
      count = selection.chosen.length ∧ most = config.maxInputs ∧ most < count := by
  rcases bind_error h with hredeem | ⟨record, u₁, hredeem, h⟩
  · rcases bind_error hredeem with hload | ⟨record?, v, -, hfound⟩
    · obtain ⟨cause, -, hcause⟩ := mapError_error hload
      cases hcause
    · cases record? with
      | none => cases hfound
      | some record => cases hfound
  rcases bind_error h with hcheck | ⟨cost, u₂, hcheck, h⟩
  · obtain ⟨-, fault, -, hfault⟩ := ofExcept_error hcheck
    cases hfault
  obtain ⟨hcost, rfl⟩ := ofExcept_ok hcheck
  rcases bind_error h with hutxos | ⟨spendable, u₃, hutxos, h⟩
  · obtain ⟨cause, hcause⟩ := utxos_error hutxos
    cases hcause
  have hspendable := (utxos_ok hutxos).1
  rw [(redeem_ok hredeem).2.spendable_eq] at hspendable
  subst hspendable
  cases hselected : Selection.largestFirst (s.spendable chain key) cost with
  | none =>
    rw [hselected] at h
    cases h
  | some selection =>
    rw [hselected] at h
    dsimp only at h
    split at h
    · next hmany =>
      cases h
      exact ⟨cost, selection, hcost, hselected, rfl, rfl, hmany⟩
    · rcases bind_error h with hcommit | ⟨_, v, -, hreturn⟩
      · obtain ⟨cause, -, hcause⟩ := mapError_error hcommit
        cases hcause
      · cases hreturn

/-- Outputs that can be summed fall short of a positive target exactly when they are worth less.
Otherwise the fewest that cover it are picked, and the same ones however the outputs are listed when
their outpoints differ. So a payment is refused for its number of inputs only when no permitted
number of spendable outputs is worth what it pays out and its fee. -/
theorem largestFirst_fewest (utxos : List Utxo) (target : UInt64)
    (hfits : worth utxos < UInt64.size) (hpositive : 0 < target) :
    (Selection.largestFirst utxos target = none ↔ worth utxos < target.toNat) ∧
    (∀ selection, Selection.largestFirst utxos target = some selection →
      Selection.Fewest utxos target selection) ∧
    (∀ utxos' : List Utxo, utxos'.Perm utxos → (utxos'.map Utxo.outpoint).Nodup →
      Selection.largestFirst utxos' target = Selection.largestFirst utxos target) ∧
    ∀ (config : CustodyConfig) (chain : ChainId) (key : String) (payouts : List Payout)
      (fee : UInt64) (s t : State) (count most : Nat),
      createDraft config chain key payouts fee s = (.error (.tooManyInputs count most), t) →
      most = config.maxInputs ∧ most < count ∧
        ∀ picked : List Utxo, picked.Subperm (s.spendable chain key) → picked.length ≤ most →
          worth picked < fee.toNat + paidWorth (wanted payouts) := by
  refine ⟨Selection.largestFirst_none_iff hfits (UInt64.lt_iff_toNat_lt.mp hpositive), ?_, ?_, ?_⟩
  · intro selection h
    exact Selection.fewest_of_largestFirst h hpositive
  · intro utxos' hperm hapart
    unfold Selection.largestFirst
    rw [Selection.order_eq_of_perm hperm ((hperm.map _).nodup_iff.mp hapart)]
  · intro config chain key payouts fee s t count most h
    obtain ⟨cost, selection, hcost, hselected, rfl, hmost, hmany⟩ := createDraft_tooMany h
    have hsum : cost.toNat = fee.toNat + paidWorth (wanted payouts) := (required_ok hcost).2
    have hcostPos : 0 < cost := by
      rw [UInt64.lt_iff_toNat_lt, hsum]
      exact (exists_required_iff.mp ⟨cost, hcost⟩).cost_pos
    refine ⟨hmost, hmany, ?_⟩
    intro picked hpicked hfew
    rw [← hsum]
    exact (Selection.fewest_of_largestFirst hselected hcostPos).fewest picked hpicked (by omega)

/-- Two outputs are too many for a payment that may spend one. -/
theorem purse_fewest :
    worth purseCoins < UInt64.size ∧ (0 : UInt64) < 6500 ∧
    (∃ selection, Selection.largestFirst purseCoins 6500 = some selection ∧
      Selection.Fewest purseCoins 6500 selection) ∧
    Selection.largestFirst purseCoins.reverse 6500 = Selection.largestFirst purseCoins 6500 ∧
    (createDraft ⟨546, .witnessHash, 1⟩ 1 "purse" [⟨[0x51], 6000⟩] 500 purse).1 =
      .error (.tooManyInputs 2 1) ∧
    ∀ u ∈ purse.spendable 1 "purse", worth [u] < 6500 := by
  have hworth : worth purseCoins < UInt64.size := by decide +kernel
  have hmany : (createDraft ⟨546, .witnessHash, 1⟩ 1 "purse" [⟨[0x51], 6000⟩] 500 purse).1 =
      .error (.tooManyInputs 2 1) := by
    decide +kernel
  obtain ⟨-, hfewest, hlisted, hrefused⟩ :=
    largestFirst_fewest purseCoins 6500 hworth (by decide)
  refine ⟨hworth, by decide, ?_, ?_, hmany, ?_⟩
  · cases hselected : Selection.largestFirst purseCoins 6500 with
    | none => exact absurd hselected (by decide +kernel)
    | some selection => exact ⟨selection, rfl, hfewest selection hselected⟩
  · exact hlisted _ (List.reverse_perm _) (by decide +kernel)
  · intro u hu
    rcases hrun : createDraft ⟨546, .witnessHash, 1⟩ 1 "purse" [⟨[0x51], 6000⟩] 500 purse
      with ⟨outcome, t⟩
    rw [hrun] at hmany
    subst hmany
    obtain ⟨-, -, hshort⟩ := hrefused _ _ _ _ _ _ _ _ _ hrun
    exact hshort [u] (List.singleton_subperm_iff.mpr hu) (Nat.le_refl 1)

end Custody

end BridgeKernel
