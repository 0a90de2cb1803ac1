import BridgeKernel.Proofs.Custody.Ledger
import BridgeKernel.Proofs.Custody.Payment
import BridgeKernel.Proofs.Store.Calm

/-!
# Payments balance

A payment reserves spendable outputs and leaves the others. What it reserves is worth what it pays
out, with the change if there is any, and its fee. As long as the spendable outputs can be summed,
they are too few for a payment exactly when they are worth less than it costs.
-/

namespace BridgeKernel

open Bitcoin Transition

namespace Selection

/-- Outputs that can be summed are gathered until they cover the target, or all of them are. -/
theorem gather_covers {target taken : Nat} {utxos : List Utxo}
    (h : taken + worth utxos < UInt64.size) :
    ∃ selection, gather target taken utxos = some selection ∧
      (target ≤ selection.total ∨ selection.total = taken + worth utxos) := by
  induction utxos generalizing taken with
  | nil => exact ⟨_, rfl, .inr rfl⟩
  | cons u rest ih =>
    rw [worth_cons, ← Nat.add_assoc] at h
    have hrange : ¬ UInt64.size ≤ taken + u.value.toNat := by omega
    by_cases hcovers : target ≤ taken + u.value.toNat
    · refine ⟨⟨[u], rest, taken + u.value.toNat⟩, ?_, .inl hcovers⟩
      simp [gather, hrange, hcovers]
    · obtain ⟨later, hlater, htotal⟩ := ih h
      refine ⟨{ later with chosen := u :: later.chosen }, ?_, ?_⟩
      · simp [gather, hrange, hcovers, hlater]
      · rwa [worth_cons, ← Nat.add_assoc]

/-- Outputs that can be summed fall short of a target exactly when they are worth less. -/
theorem largestFirst_none_iff {utxos : List Utxo} {target : UInt64}
    (hfits : worth utxos < UInt64.size) (hpositive : 0 < target.toNat) :
    largestFirst utxos target = none ↔ worth utxos < target.toNat := by
  constructor
  · intro h
    rw [← worth_perm (order_perm utxos)] at hfits ⊢
    by_contra hcovers
    have hsum : 0 + worth (order utxos) < UInt64.size := by rwa [Nat.zero_add]
    obtain ⟨selection, hgather, htotal⟩ := gather_covers hsum
    have htarget : target.toNat ≤ selection.total := by
      rcases htotal with htotal | htotal
      · exact htotal
      · omega
    have hchosen : selection.chosen ≠ [] := by
      intro hnone
      have hworth := (gather_total hgather (by decide)).1
      rw [hnone, worth_nil] at hworth
      omega
    simp [largestFirst, hgather, htarget, hchosen] at h
  · intro h
    cases hselected : largestFirst utxos target with
    | none => rfl
    | some selection =>
      obtain ⟨-, htotal, -, htarget⟩ := largestFirst_total hselected
      have hworth := worth_perm (largestFirst_perm hselected)
      rw [worth_append] at hworth
      omega

end Selection

namespace Custody

variable {config : CustodyConfig} {chain : ChainId} {key : String} {payouts : List Payout}
  {fee cost : UInt64} {record : RedeemRecord} {selection : Selection} {draft : SpendDraft}
  {s t : State}

/-- The outputs that are wanted of a payment. -/
def wanted (payouts : List Payout) : List TxOut := payouts.map fun p => ⟨p.value, p.scriptPubkey⟩

/-- Outputs that may be wanted of a payment with a fee. -/
structure Payable (config : CustodyConfig) (payouts : List Payout) (fee : UInt64) : Prop where
  /-- There is one. -/
  ne_nil : payouts ≠ []
  /-- Each has a script. -/
  script_ne_nil : ∀ p ∈ payouts, p.scriptPubkey ≠ []
  /-- Each is worth its cost. -/
  dust_lt : ∀ p ∈ payouts, config.dustLimit < p.value
  /-- They can be summed, with the fee. -/
  fits : fee.toNat + paidWorth (wanted payouts) < UInt64.size

/-- Wanted outputs are summed exactly when each is usable and the sum is in range. -/
theorem exists_sumPayouts_iff {sum : UInt64} :
    (∃ total, sumPayouts config sum payouts = .ok total) ↔
      (∀ p ∈ payouts, p.scriptPubkey ≠ [] ∧ config.dustLimit < p.value) ∧
        sum.toNat + paidWorth (wanted payouts) < UInt64.size := by
  induction payouts generalizing sum with
  | nil => simp [sumPayouts, wanted, sum.toNat_lt_size]
  | cons payout rest ih =>
    have hworth : paidWorth (wanted (payout :: rest)) =
        payout.value.toNat + paidWorth (wanted rest) := rfl
    rw [sumPayouts, List.forall_mem_cons, hworth]
    by_cases hscript : payout.scriptPubkey = []
    · simp [hscript]
    by_cases hdust : payout.value ≤ config.dustLimit
    · simp [hscript, hdust, UInt64.not_lt.mpr hdust]
    by_cases hrange : UInt64.size ≤ sum.toNat + payout.value.toNat
    · rw [if_neg (by simpa using hscript), if_neg hdust, if_pos hrange]
      constructor
      · rintro ⟨total, h⟩
        cases h
      · rintro ⟨-, hfits⟩
        omega
    · have hsum : (sum + payout.value).toNat = sum.toNat + payout.value.toNat := by
        rw [UInt64.toNat_add]
        exact Nat.mod_eq_of_lt (Nat.not_le.mp hrange)
      rw [if_neg (by simpa using hscript), if_neg hdust, if_neg hrange, ih, hsum, Nat.add_assoc]
      simp [hscript, UInt64.not_le.mp hdust]

/-- A payment has a cost exactly when its outputs may be wanted. -/
theorem exists_required_iff :
    (∃ cost, required config payouts fee = .ok cost) ↔ Payable config payouts fee := by
  unfold required
  by_cases hnone : payouts = []
  · simp only [hnone, List.isEmpty_nil, if_true]
    constructor
    · rintro ⟨cost, h⟩
      cases h
    · intro h
      exact absurd rfl h.ne_nil
  · rw [if_neg (by simpa using hnone), exists_sumPayouts_iff]
    constructor
    · rintro ⟨husable, hfits⟩
      exact ⟨hnone, fun p hp => (husable p hp).1, fun p hp => (husable p hp).2, hfits⟩
    · rintro ⟨-, hscripts, hdust, hfits⟩
      exact ⟨fun p hp => ⟨hscripts p hp, hdust p hp⟩, hfits⟩

/-- A payment costs something. -/
theorem Payable.cost_pos (h : Payable config payouts fee) :
    0 < fee.toNat + paidWorth (wanted payouts) := by
  obtain ⟨payout, rest, rfl⟩ := List.exists_cons_of_ne_nil h.ne_nil
  have hdust := UInt64.lt_iff_toNat_lt.mp (h.dust_lt payout List.mem_cons_self)
  have hworth : paidWorth (wanted (payout :: rest)) =
      payout.value.toNat + paidWorth (wanted rest) := rfl
  omega

/-- A payment that balances. -/
structure Balances (config : CustodyConfig) (chain : ChainId) (key : String)
    (payouts : List Payout) (fee : UInt64) (record : RedeemRecord) (draft : SpendDraft)
    (tx : Transaction) (s t : State) : Prop where
  /-- The script under the key. -/
  registered : s.lookup (.redeem chain key) = some record
  /-- The spendable outputs are those that are reserved and those that stay. -/
  reserves : (s.spendable chain key).Perm (draft.inputs ++ t.spendable chain key)
  /-- An output is reserved. -/
  inputs_ne_nil : draft.inputs ≠ []
  /-- Not too many are. -/
  few : draft.inputs.length ≤ config.maxInputs
  /-- The unsigned transaction can be read. -/
  read : Transaction.read draft.unsignedTx = .ok tx
  /-- It spends the reserved outputs. -/
  inputs : tx.inputs = draft.inputs.map fun u => ⟨⟨u.txid, u.vout⟩, [], 0xffffffff, []⟩
  /-- They cover the payment. -/
  covers : fee.toNat + paidWorth (wanted payouts) ≤ worth draft.inputs
  /-- It pays what is wanted, and what is left over to the script when this is worth its cost. -/
  outputs : tx.outputs = wanted payouts ++
    if config.dustLimit.toNat < worth draft.inputs - (fee.toNat + paidWorth (wanted payouts)) then
      [⟨UInt64.ofNat (worth draft.inputs - (fee.toNat + paidWorth (wanted payouts))),
        Script.locking record.redeemScript config.lockKind⟩]
    else []
  /-- Nothing is lost or made. -/
  balance : worth draft.inputs = paidWorth tx.outputs + draft.fee.toNat
  /-- The fee is no less than the one wanted. -/
  fee_le : fee ≤ draft.fee
  /-- It exceeds that by no more than what change must be worth. -/
  le_fee : draft.fee.toNat ≤ fee.toNat + config.dustLimit.toNat
  /-- The payment is known by its unsigned transaction. -/
  txid : draft.txid = tx.txid

namespace Drafts

variable (h : Drafts config chain key payouts fee record cost selection draft s t)
include h

/-- The change is what the reserved outputs are worth beyond the cost of the payment. -/
theorem change_eq : (UInt64.ofNat selection.total - cost).toNat =
    worth draft.inputs - (fee.toNat + paidWorth (wanted payouts)) := by
  obtain ⟨-, htotal, -, -⟩ := Selection.largestFirst_total h.selected
  obtain ⟨-, hcost⟩ := required_ok h.costs
  change cost.toNat = fee.toNat + paidWorth (wanted payouts) at hcost
  have hspent := h.total_eq
  rw [h.inputs_eq]
  omega

/-- The fee takes in the change that is not worth its cost. -/
theorem fee_bounds : fee ≤ draft.fee ∧ draft.fee.toNat ≤ fee.toNat + config.dustLimit.toNat := by
  obtain ⟨-, -, hlimit, -⟩ := Selection.largestFirst_total h.selected
  obtain ⟨-, hcost⟩ := required_ok h.costs
  have hspent := h.total_eq
  have hsize : UInt64.size = 2 ^ 64 := rfl
  have hfee : draft.fee = if config.dustLimit < UInt64.ofNat selection.total - cost then fee
      else fee + (UInt64.ofNat selection.total - cost) := congrArg SpendDraft.fee h.made
  rw [hfee, UInt64.le_iff_toNat_le]
  split
  · omega
  · next hdust =>
    rw [UInt64.lt_iff_toNat_lt] at hdust
    rw [UInt64.toNat_add, Nat.mod_eq_of_lt (by omega)]
    omega

theorem balances : Balances config chain key payouts fee record draft
    (unsignedTransaction config record.redeemScript selection.chosen payouts
      (UInt64.ofNat selection.total - cost)) s t where
  registered := h.registered
  reserves := by
    rw [h.inputs_eq, h.spendable_eq]
    exact (Selection.largestFirst_perm h.selected).symm
  inputs_ne_nil := h.pays_unsigned.spends
  few := by
    rw [h.inputs_eq]
    exact h.few
  read := h.pays_unsigned.read
  inputs := h.pays_unsigned.inputs
  covers := by
    obtain ⟨-, htotal, -, hcovers⟩ := Selection.largestFirst_total h.selected
    rw [h.inputs_eq, ← htotal]
    exact (required_ok h.costs).2 ▸ hcovers
  outputs := by
    simp only [← h.change_eq, UInt64.ofNat_toNat, ← UInt64.lt_iff_toNat_lt]
    rfl
  balance := h.pays_unsigned.balance
  fee_le := h.fee_bounds.1
  le_fee := h.fee_bounds.2
  txid := h.pays_unsigned.txid

end Drafts

/-! ## Payments that are refused -/

theorem redeem_error {e : CustodyError} (h : redeem chain key s = (.error e, t)) :
    (∃ cause, e = .storage cause) ∨ s.lookup (α := RedeemRecord) (.redeem chain key) = none := by
  rcases bind_error h with hload | ⟨record?, u, hload, h⟩
  · obtain ⟨cause, -, rfl⟩ := mapError_error hload
    exact .inl ⟨cause, rfl⟩
  · obtain ⟨hrecord, -⟩ := State.load?_ok (mapError_ok hload)
    cases record? with
    | none => exact .inr hrecord.symm
    | some record => cases h

theorem utxos_error {e : CustodyError} (h : utxos chain key s = (.error e, t)) :
    ∃ cause, e = .storage cause := by
  rcases bind_error h with hload | ⟨stored, u, hload, h⟩
  · obtain ⟨cause, -, rfl⟩ := mapError_error hload
    exact ⟨cause, rfl⟩
  · cases h

/-- A payment from a registered script that costs something and meets no failure of the store is
refused for want of funds exactly when no outputs are picked for it. -/
theorem createDraft_insufficient_iff (hrecord : s.lookup (.redeem chain key) = some record)
    (hcost : required config payouts fee = .ok cost)
    (hstore : ∀ cause, (createDraft config chain key payouts fee s).1 ≠ .error (.storage cause)) :
    (∃ available needed, (createDraft config chain key payouts fee s).1 =
        .error (.insufficientFunds available needed)) ↔
      Selection.largestFirst (s.spendable chain key) cost = none := by
  rcases hredeem : redeem chain key s with ⟨e | found, u⟩
  · rcases redeem_error hredeem with ⟨cause, rfl⟩ | hnone
    · refine absurd ?_ (hstore cause)
      rw [createDraft, bind_run, hredeem]
    · rw [hrecord] at hnone
      cases hnone
  have hcheck : Transition.ofExcept CustodyError.invalidPayout (required config payouts fee) u =
      (.ok cost, u) := by
    rw [hcost]
    rfl
  have huntouched := (redeem_ok hredeem).2
  rcases hutxos : utxos chain key u with ⟨e | spendable, v⟩
  · obtain ⟨cause, rfl⟩ := utxos_error hutxos
    refine absurd ?_ (hstore cause)
    rw [createDraft, run_bind hredeem, run_bind hcheck, bind_run, hutxos]
  obtain ⟨hspendable, -⟩ := utxos_ok hutxos
  rw [huntouched.spendable_eq] at hspendable
  rw [createDraft, run_bind hredeem, run_bind hcheck, run_bind hutxos, hspendable]
  cases hselected : Selection.largestFirst (s.spendable chain key) cost with
  | none =>
    constructor
    · intro _
      rfl
    · intro _
      exact ⟨_, cost, rfl⟩
  | some selection =>
    refine ⟨?_, nofun⟩
    rintro ⟨available, needed, h⟩
    dsimp only at h
    split at h
    · cases h
    · rw [bind_run] at h
      split at h
      · cases h
      · next e w hcommit =>
        obtain ⟨cause, -, rfl⟩ := mapError_error hcommit
        cases h

/-- A payment that is made balances. As long as the spendable outputs can be summed, a payment from
a registered script that may be wanted is refused for want of funds exactly when they are worth less
than it pays out and its fee, unless the store fails. -/
theorem draft_balances (config : CustodyConfig) (chain : ChainId) (key : String)
    (payouts : List Payout) (fee : UInt64) (s : State)
    (hworth : worth (s.spendable chain key) < UInt64.size) :
    (∀ draft t, createDraft config chain key payouts fee s = (.ok draft, t) →
      ∃ record tx, Balances config chain key payouts fee record draft tx s t) ∧
    ∀ record : RedeemRecord, s.lookup (.redeem chain key) = some record →
      Payable config payouts fee →
      (∀ cause, (createDraft config chain key payouts fee s).1 ≠ .error (.storage cause)) →
      ((∃ available needed, (createDraft config chain key payouts fee s).1 =
          .error (.insufficientFunds available needed)) ↔
        worth (s.spendable chain key) < fee.toNat + paidWorth (wanted payouts)) := by
  constructor
  · intro draft t h
    obtain ⟨record, cost, selection, hdrafts⟩ := createDraft_ok h
    exact ⟨record, _, hdrafts.balances⟩
  · intro record hrecord hpayable hstore
    obtain ⟨cost, hcost⟩ := exists_required_iff.mpr hpayable
    have hsum : cost.toNat = fee.toNat + paidWorth (wanted payouts) := (required_ok hcost).2
    have hpositive := hpayable.cost_pos
    rw [createDraft_insufficient_iff hrecord hcost hstore,
      Selection.largestFirst_none_iff hworth (by omega), hsum]

/-- Two outputs that can be spent. -/
def purseCoins : List Utxo :=
  [⟨.ofNatBE 32 0x11, 0, 5000, [0x51]⟩, ⟨.ofNatBE 32 0x22, 1, 3000, [0x51]⟩]

/-- A script and its spendable outputs. -/
def purse : State :=
  (State.initial []).changeAll
    [.store (.redeem 1 "purse") (⟨"purse", [0x51], 1, [], []⟩ : RedeemRecord),
      .store (.utxo 1 "purse") purseCoins]

theorem purse_balances :
    worth (purse.spendable 1 "purse") < UInt64.size ∧
    (∃ draft t, createDraft .trial 1 "purse" [⟨[0x51], 6000⟩] 500 purse = (.ok draft, t) ∧
      ∃ record tx,
        Balances .trial 1 "purse" [⟨[0x51], 6000⟩] 500 record draft tx purse t) ∧
    Payable .trial [⟨[0x51], 9000⟩] 500 ∧
    (∃ available needed, (createDraft .trial 1 "purse" [⟨[0x51], 9000⟩] 500 purse).1 =
      .error (.insufficientFunds available needed)) ∧
    worth (purse.spendable 1 "purse") <
      (500 : UInt64).toNat + paidWorth (wanted [⟨[0x51], 9000⟩]) := by
  have hworth : worth (purse.spendable 1 "purse") < UInt64.size := by decide +kernel
  have hrecord : purse.lookup (.redeem 1 "purse") =
      some (⟨"purse", [0x51], 1, [], []⟩ : RedeemRecord) := by
    decide +kernel
  have hpayable : Payable .trial [⟨[0x51], 9000⟩] 500 := by
    refine ⟨by decide, by decide, by decide, by decide⟩
  have hrefused : (createDraft .trial 1 "purse" [⟨[0x51], 9000⟩] 500 purse).1 =
      .error (.insufficientFunds 8000 9500) := by
    decide +kernel
  have hmade : (createDraft .trial 1 "purse" [⟨[0x51], 6000⟩] 500 purse).1.toOption.isSome := by
    decide +kernel
  obtain ⟨hbalances, -⟩ := draft_balances .trial 1 "purse" [⟨[0x51], 6000⟩] 500 purse hworth
  obtain ⟨-, hwant⟩ := draft_balances .trial 1 "purse" [⟨[0x51], 9000⟩] 500 purse hworth
  refine ⟨hworth, ?_, hpayable, ⟨_, _, hrefused⟩, ?_⟩
  · rcases hrun : createDraft .trial 1 "purse" [⟨[0x51], 6000⟩] 500 purse with ⟨e | draft, t⟩
    · rw [hrun] at hmade
      cases hmade
    · exact ⟨draft, t, rfl, hbalances draft t hrun⟩
  · refine (hwant _ hrecord hpayable ?_).mp ⟨_, _, hrefused⟩
    intro cause hcause
    rw [hrefused] at hcause
    cases hcause

end Custody

end BridgeKernel
