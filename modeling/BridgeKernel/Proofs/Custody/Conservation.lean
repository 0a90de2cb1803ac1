import BridgeKernel.Proofs.Custody.Orderly

/-!
# Value in custody

What was deposited is spendable, reserved by payments that wait, paid out, or spent on the fees of
closed payments. A deposit adds value, making a payment moves it, and closing a payment splits what
it had reserved into what it pays back, what it pays out, and its fee.
-/

namespace BridgeKernel

open Bitcoin

/-- The script registered under a custody key, or no bytes when there is none. -/
def State.script (s : State) (chain : ChainId) (key : String) : Bytes :=
  ((s.lookup (.redeem chain key)).map RedeemRecord.redeemScript).getD []

namespace Custody

variable {chain : ChainId} {key : String} {j k : Journal} {s t : State}

namespace Journal

/-- The outputs of the signed transactions that do not pay a script. -/
def paidOut (j : Journal) (redeem : Bytes) : List TxOut :=
  (j.finalized.flatMap (·.outputs)).filter fun o =>
    (Script.lockKind? redeem o.scriptPubkey).isNone

/-- The fees of the payments with some ids. -/
def feesOf (ids : List Hash) (drafts : List SpendDraft) : Nat :=
  ((drafts.filter fun draft => draft.txid ∈ ids).map fun draft => draft.fee.toNat).sum

/-- The fees of the closed payments. -/
def fees (j : Journal) : Nat := feesOf (j.closings.map Prod.fst) j.drafts

theorem paidOut_append (redeem : Bytes) :
    (j ++ k).paidOut redeem = j.paidOut redeem ++ k.paidOut redeem := by
  simp only [paidOut, finalized_append, List.flatMap_append, List.filter_append]

theorem feesOf_append (ids : List Hash) (drafts drafts' : List SpendDraft) :
    feesOf ids (drafts ++ drafts') = feesOf ids drafts + feesOf ids drafts' := by
  simp only [feesOf, List.filter_append, List.map_append, List.sum_append]

/-- Payments with other ids bring no fees. -/
theorem feesOf_snoc_of_notMem {ids : List Hash} {id : Hash} {drafts : List SpendDraft}
    (h : id ∉ drafts.map SpendDraft.txid) : feesOf (ids ++ [id]) drafts = feesOf ids drafts := by
  rw [feesOf, feesOf, List.filter_congr fun draft hdraft => ?_]
  have hne : draft.txid ≠ id := fun hid => h (hid ▸ List.mem_map_of_mem hdraft)
  simp [hne]

/-- The payment with one more id brings its fee. -/
theorem feesOf_snoc {ids : List Hash} {draft : SpendDraft} {drafts : List SpendDraft}
    (hmem : draft ∈ drafts) (hnodup : (drafts.map SpendDraft.txid).Nodup)
    (hnew : draft.txid ∉ ids) :
    feesOf (ids ++ [draft.txid]) drafts = feesOf ids drafts + draft.fee.toNat := by
  induction drafts with
  | nil => cases hmem
  | cons head rest ih =>
    obtain ⟨hhead, hrest⟩ := List.nodup_cons.mp hnodup
    have hsplit (ids : List Hash) :
        feesOf ids (head :: rest) = feesOf ids [head] + feesOf ids rest :=
      feesOf_append ids [head] rest
    rcases List.mem_cons.mp hmem with rfl | hlater
    · have hone : feesOf (ids ++ [draft.txid]) [draft] = draft.fee.toNat := by
        simp [feesOf]
      have hnone : feesOf ids [draft] = 0 := by
        simp [feesOf, hnew]
      rw [hsplit, hsplit, hone, hnone, feesOf_snoc_of_notMem hhead]
      omega
    · have hne : head.txid ≠ draft.txid := fun hid =>
        hhead (hid ▸ List.mem_map_of_mem hlater)
      have hsame : feesOf (ids ++ [draft.txid]) [head] = feesOf ids [head] :=
        feesOf_snoc_of_notMem (by simpa using hne.symm)
      rw [hsplit, hsplit, hsame, ih hlater hrest]
      omega

/-- Where nothing is closed, nothing is paid out. -/
theorem paidOut_append_of_nil (redeem : Bytes) (hk : k.closings = []) :
    (j ++ k).paidOut redeem = j.paidOut redeem := by
  rw [paidOut, finalized, closings_append, hk, List.append_nil, paidOut, finalized]

/-- Where nothing is closed, only payments that are closed already bring fees. -/
theorem fees_append_of_nil (hk : k.closings = []) :
    (j ++ k).fees = j.fees + feesOf (j.closings.map Prod.fst) k.drafts := by
  rw [fees, closings_append, hk, List.append_nil, drafts_append, feesOf_append, fees]

end Journal

/-! ## What a closed payment does with its value -/

/-- Outputs picked by their scripts are worth the same wherever they are listed. -/
theorem worth_filter_mapIdx {list : Nat → TxOut → Utxo} (outputs : List TxOut) (p : Bytes → Bool)
    (hvalue : ∀ place output, (list place output).value = output.value)
    (hscript : ∀ place output, (list place output).scriptPubkey = output.scriptPubkey) :
    worth ((outputs.mapIdx list).filter fun u => p u.scriptPubkey) =
      paidWorth (outputs.filter fun o => p o.scriptPubkey) := by
  induction outputs generalizing list with
  | nil => rfl
  | cons output outputs ih =>
    have hrest : worth ((outputs.mapIdx fun place => list (place + 1)).filter
        fun u => p u.scriptPubkey) = paidWorth (outputs.filter fun o => p o.scriptPubkey) :=
      ih (fun place => hvalue (place + 1)) fun place => hscript (place + 1)
    rw [List.mapIdx_cons, List.filter_cons, List.filter_cons, hscript]
    split
    · rw [worth_cons, paidWorth_cons, hvalue, hrest]
    · exact hrest

theorem worth_returned (redeem : Bytes) (tx : Transaction) :
    worth (returned redeem tx) = paidWorth (tx.outputs.filter fun o =>
      (Script.lockKind? redeem o.scriptPubkey).isSome) :=
  worth_filter_mapIdx tx.outputs (fun script => (Script.lockKind? redeem script).isSome)
    (fun _ _ => rfl) fun _ _ => rfl

/-- What a transaction pays is paid back or paid out. -/
theorem paidWorth_eq (redeem : Bytes) (tx : Transaction) :
    paidWorth tx.outputs = worth (returned redeem tx) + paidWorth (tx.outputs.filter fun o =>
      (Script.lockKind? redeem o.scriptPubkey).isNone) := by
  rw [worth_returned]
  induction tx.outputs with
  | nil => rfl
  | cons output outputs ih =>
    rw [List.filter_cons, List.filter_cons, paidWorth_cons, ih]
    cases Script.lockKind? redeem output.scriptPubkey with
    | none =>
      simp only [Option.isSome_none, Option.isNone_none, Bool.false_eq_true, if_false, if_true,
        paidWorth_cons]
      omega
    | some kind =>
      simp only [Option.isSome_some, Option.isNone_some, Bool.false_eq_true, if_false, if_true,
        paidWorth_cons]
      omega

/-! ## Calls -/

/-- What was deposited is accounted for. -/
def Balanced (chain : ChainId) (key : String) (j : Journal) (s : State) : Prop :=
  worth j.deposits = worth (s.spendable chain key) + worth (s.reserved chain) +
    paidWorth (j.paidOut (s.script chain key)) + j.fees

/-- What was paid out does not change with what is stored. -/
theorem Traced.paidOut_eq (h : Traced chain key j s) (hcall : Call chain key s t k) :
    j.paidOut (t.script chain key) = j.paidOut (s.script chain key) := by
  cases hrecord : s.lookup (α := RedeemRecord) (.redeem chain key) with
  | some record => rw [State.script, State.script, hcall.redeem_kept hrecord, hrecord]
  | none =>
    have hclosings : j.closings = [] := by
      refine List.eq_nil_iff_forall_not_mem.mpr fun closing hclosing => ?_
      obtain ⟨draft, tx, signed, hsettled⟩ := h.closed closing hclosing
      obtain ⟨record, hregistered⟩ := h.registered (List.ne_nil_of_mem hsettled.made)
      rw [hrecord] at hregistered
      cases hregistered
    simp [Journal.paidOut, Journal.finalized, hclosings]

namespace Balanced

theorem still (h : Balanced chain key j s) (htraced : Traced chain key j s)
    (hcall : Call chain key s t k) (hdeposits : k.deposits = []) (hdrafts : k.drafts = [])
    (hclosings : k.closings = []) : Balanced chain key (j ++ k) t := by
  have hstill := hcall.still hdeposits hdrafts hclosings
  have hreserved : worth (t.reserved chain) = worth (s.reserved chain) :=
    worth_perm (hstill.drafts.flatMap_right _)
  rw [Balanced, Journal.deposits_append, Journal.paidOut_append_of_nil _ hclosings,
    Journal.fees_append_of_nil hclosings, hdeposits, hdrafts, List.append_nil, hstill.spendable,
    hreserved, htraced.paidOut_eq hcall]
  exact h

/-- A deposit adds its value to what is spendable. -/
theorem deposited (h : Balanced chain key j s) (htraced : Traced chain key j s) {utxo : Utxo}
    (hdeposits : Deposits chain key utxo s t) :
    Balanced chain key (j ++ [.deposited utxo]) t := by
  have hpaidOut := htraced.paidOut_eq (Call.deposited hdeposits)
  have hreserved : worth (t.reserved chain) = worth (s.reserved chain) :=
    worth_perm (hdeposits.drafts_perm.flatMap_right _)
  have hworth : worth (Journal.deposits (j ++ [.deposited utxo])) =
      worth j.deposits + utxo.value.toNat := by
    rw [Journal.deposits_append, worth_append]
    rfl
  have hfees : Journal.fees (j ++ [.deposited utxo]) = j.fees := Journal.fees_append_of_nil rfl
  rw [Balanced, hworth, Journal.paidOut_append_of_nil _ rfl, hpaidOut, hfees, hreserved,
    hdeposits.spendable_eq, worth_append, worth_cons, worth_nil, h]
  omega

/-- A payment moves what it has picked to what is reserved. -/
theorem drafted (h : Balanced chain key j s) (htraced : Traced chain key j s)
    (horderly : Orderly chain key j s) {config : CustodyConfig} {payouts : List Payout}
    {fee cost : UInt64} {record : RedeemRecord} {selection : Selection} {draft : SpendDraft}
    (hdrafts : Drafts config chain key payouts fee record cost selection draft s t)
    (hj : Journal.Unambiguous (j ++ [.drafted draft])) :
    Balanced chain key (j ++ [.drafted draft]) t := by
  have hfresh := horderly.fresh htraced hdrafts hj
  have hpaidOut := htraced.paidOut_eq (Call.drafted hdrafts)
  have hnone : s.lookup (α := SpendDraft) (.draft chain draft.txid) = none := by
    refine Option.eq_none_iff_forall_ne_some.mpr fun found hfound => hfresh ?_
    rw [← (htraced.named _ found hfound).1]
    exact List.mem_map_of_mem (htraced.waiting _ found hfound)
  have hlisted := hdrafts.drafts_perm.trans
    ((State.drafts_change_remove_of_lookup_none hnone).cons draft)
  have hreserved : worth (t.reserved chain) = worth draft.inputs + worth (s.reserved chain) := by
    rw [← worth_append, State.reserved, State.reserved, ← List.flatMap_cons]
    exact worth_perm (hlisted.flatMap_right _)
  have hspendable : worth (s.spendable chain key) =
      worth draft.inputs + worth (t.spendable chain key) := by
    rw [hdrafts.inputs_eq, hdrafts.spendable_eq, ← worth_append]
    exact (worth_perm (Selection.largestFirst_perm hdrafts.selected)).symm
  have hdeposits : Journal.deposits (j ++ [.drafted draft]) = j.deposits := by
    rw [Journal.deposits_append]
    exact List.append_nil _
  have hfees : Journal.fees (j ++ [.drafted draft]) = j.fees := by
    have hopen : draft.txid ∉ j.closings.map Prod.fst :=
      fun hclosed => hfresh (htraced.closings_subset hclosed)
    have hfree : Journal.feesOf (j.closings.map Prod.fst) [draft] = 0 := by
      simp [Journal.feesOf, hopen]
    rw [Journal.fees_append_of_nil rfl]
    exact congrArg (j.fees + ·) hfree
  rw [Balanced, hdeposits, Journal.paidOut_append_of_nil _ rfl, hpaidOut, hfees, hreserved, h,
    hspendable]
  omega

/-- A closed payment splits what it had reserved. -/
theorem closed (h : Balanced chain key j s) (htraced : Traced chain key j s)
    (horderly : Orderly chain key j s) {signer : Custodian} {txid : Hash} {signatures : List Bytes}
    {draft : SpendDraft} {record : RedeemRecord} {tx signed : Transaction}
    {collection : SignatureCollection}
    (hfound : Contributes chain signer txid signatures draft record tx collection s)
    (hcloses : Closes chain draft record tx signed collection s t) (hcall : Call chain key s t k)
    (hdeposits : k.deposits = []) (hdrafts : k.drafts = [])
    (hclosings : k.closings = [(txid, signed.write)]) : Balanced chain key (j ++ k) t := by
  have hsettled := htraced.settles hfound hcloses
  have hpaidOut := htraced.paidOut_eq hcall
  obtain ⟨rfl, rfl⟩ := htraced.named txid draft hfound.waiting
  have hspendable := hcloses.spendable_eq
  have hlisted : draft ∈ s.drafts chain :=
    (hcloses.drafts_perm hfound.waiting).mem_iff.mpr List.mem_cons_self
  rw [filter_inputs_eq horderly.apart hlisted] at hspendable
  have hreserved := worth_perm (hcloses.reserved_perm hfound.waiting)
  have hscript : t.script chain draft.redeemKey = record.redeemScript := by
    rw [State.script, hcall.redeem_kept hfound.registered]
    rfl
  have hpaid : k.paidOut record.redeemScript = signed.outputs.filter fun o =>
      (Script.lockKind? record.redeemScript o.scriptPubkey).isNone := by
    simp [Journal.paidOut, Journal.finalized, hclosings, hsettled.read, Except.toOption]
  have hfees : Journal.fees (j ++ k) = j.fees + draft.fee.toNat := by
    have hwaits := horderly.waits draft.txid draft hfound.waiting
    rw [Journal.fees, Journal.closings_append, Journal.drafts_append, hdrafts, hclosings,
      List.append_nil, List.map_append]
    exact Journal.feesOf_snoc hsettled.made horderly.ids hwaits
  have hsplit := paidWorth_eq record.redeemScript signed
  have hbalance := hsettled.pays.balance
  rw [← hsettled.outputs, hsplit] at hbalance
  rw [worth_append] at hreserved
  rw [Balanced, Journal.deposits_append, hdeposits, List.append_nil, Journal.paidOut_append,
    hpaidOut, hscript, hpaid, hfees, hspendable, worth_append, paidWorth_append, h, hreserved,
    hbalance]
  omega

/-- A call keeps what was deposited accounted for. -/
theorem call (h : Balanced chain key j s) (htraced : Traced chain key j s)
    (horderly : Orderly chain key j s) (hcall : Call chain key s t k) (hj : (j ++ k).Unambiguous) :
    Balanced chain key (j ++ k) t := by
  cases hcall with
  | quiet hwrites hspared => exact h.still htraced (.quiet hwrites hspared) rfl rfl rfl
  | registered hparsed hfits hnew hchanged =>
    exact h.still htraced (.registered hparsed hfits hnew hchanged) rfl rfl rfl
  | collected hfound hfewer hfits hchanged =>
    exact h.still htraced (.collected hfound hfewer hfits hchanged) rfl rfl rfl
  | deposited hdeposits => exact h.deposited htraced hdeposits
  | drafted hdrafts => exact h.drafted htraced horderly hdrafts hj
  | closed hfound henough hcloses =>
    exact h.closed htraced horderly hfound hcloses (.closed hfound henough hcloses) rfl rfl rfl

end Balanced

/-- After calls on an empty store everything that was deposited is accounted for, as long as the
journal tells transactions apart. -/
theorem Calls.balanced {module : Bytes} {faults : Nat → StoreOp → Option StoreFault} {clock : Nat}
    (h : Calls chain key ⟨module, .empty, faults, clock⟩ j s) (hj : j.Unambiguous) :
    Balanced chain key j s := by
  induction h with
  | none => rfl
  | more hbefore hcall ih =>
    have hearlier := hj.of_append
    obtain ⟨htraced, horderly⟩ := hbefore.orderly hearlier
    exact (ih hearlier).call htraced horderly hcall hj

end Custody

end BridgeKernel
