import BridgeKernel.Proofs.Bridge.CustodyRun
import BridgeKernel.Proofs.Custody.Isolation

/-!
# Custody of one chain

What custody does on a chain depends on the calls about that chain only, as long as no transaction
for which the chain collects signatures is signed on another chain as well. Collected signatures are
kept under the id of their transaction and under no chain. So two chains that pay the same way from
outputs with the same outpoints collect into one record, and a payment that was closed on one of
them can be signed on the other no more.
-/

namespace BridgeKernel

variable {chain : ChainId} {ids : Hash → Prop}

/-- The chain that a call about custody names. -/
def BridgeOp.custodyChain? : BridgeOp → Option ChainId
  | .registerRedeem c _ | .recordDeposit c _ _ | .createDraft c _ _ _ | .addSignature c _ _ _ =>
    some c
  | _ => none

/-- The chain and the transaction for which a call brings signatures. -/
def BridgeOp.signs? : BridgeOp → Option (ChainId × Hash)
  | .addSignature c _ txid _ => some (c, txid)
  | _ => none

/-- The chain and the transaction for which a call brought signatures that were accepted, with the
outcome. -/
def BridgeEntry.contribution? : BridgeEntry → Option (ChainId × Hash × SigningOutcome)
  | ⟨⟨_, .addSignature c _ txid _⟩, .ok outcome⟩ => some (c, txid, outcome)
  | _ => none

namespace BridgeRequest

variable {request : BridgeRequest} {b b' : Bridge}

/-- A call about custody on a chain answers alike on states that agree on what it reads. -/
theorem perform_alike (hchain : request.op.custodyChain? = some chain)
    (hids : ∀ txid, request.op.signs? = some (chain, txid) → ids txid)
    (h : b.state.Agree (RecordKey.CustodyOf chain ids) b'.state) :
    (request.perform b').1 = (request.perform b).1 ∧
      (request.perform b).2.state.Agree (RecordKey.CustodyOf chain ids)
        (request.perform b').2.state := by
  obtain ⟨config, op⟩ := request
  cases op with
  | registerRedeem c script =>
    obtain rfl := Option.some.inj hchain
    exact (Custody.register_local script).mapError BridgeError.custody _ _ h
  | recordDeposit c key utxo =>
    obtain rfl := Option.some.inj hchain
    exact (Custody.recordDeposit_local key utxo).mapError BridgeError.custody _ _ h
  | createDraft c key payouts fee =>
    obtain rfl := Option.some.inj hchain
    have hlocal : (Custody.createDraft config.custody c key payouts fee).Local
        (RecordKey.CustodyOf c ids) :=
      Custody.createDraft_local config.custody key payouts fee
    exact hlocal.mapError BridgeError.custody _ _ h
  | addSignature c signer txid signatures =>
    obtain rfl := Option.some.inj hchain
    have hlocal : (Custody.addSignature c signer txid signatures).Local
        (RecordKey.CustodyOf c ids) :=
      Custody.addSignature_local signer signatures (hids txid rfl)
    exact hlocal.mapError BridgeError.custody _ _ h
  | _ => cases hchain

/-- A call that is not about custody writes nothing that custody reads. -/
theorem perform_spares (hchain : request.op.custodyChain? = none) (b : Bridge) :
    ∃ Q, b.state.Writes Q (request.perform b).2.state ∧
      ∀ key, Q key → ¬ key.CustodyOf chain ids := by
  refine ⟨_, request.perform_writes b, ?_⟩
  obtain ⟨config, op⟩ := request
  cases op with
  | propose =>
    rintro key (⟨_, rfl⟩ | ⟨_, _, rfl⟩) hkey
    · exact hkey
    · exact hkey
  | isApplied => exact fun _ hkey => hkey.elim
  | syncGenesis | syncBatch | syncHeaders =>
    intro key hkey hcustody
    cases key with
    | redeem | utxo | stxo | draft | multisig => exact hkey
    | _ => exact hcustody
  | installCommittee | rotateCommittee =>
    rintro key rfl hkey
    exact hkey
  | _ => cases hchain

/-- Custody on another chain writes nothing that custody on a chain reads, unless it brings
signatures for one of the transactions. -/
theorem perform_spares_other {c : ChainId} (hother : request.op.custodyChain? = some c)
    (hc : c ≠ chain) (hnamed : b.state.DraftsNamed c)
    (hids : ∀ txid outcome,
      BridgeEntry.contribution? ⟨request, (request.perform b).1⟩ = some (c, txid, outcome) →
        ¬ ids txid) :
    ∃ Q, b.state.Writes Q (request.perform b).2.state ∧
      ∀ key, Q key → ¬ key.CustodyOf chain ids := by
  refine ⟨RecordKey.CustodyOf c fun txid => ¬ ids txid, ?_, fun key hkey hcustody => ?_⟩
  · obtain ⟨config, op⟩ := request
    cases op with
    | registerRedeem c' script =>
      obtain rfl := Option.some.inj hother
      exact Bridge.call_writes (Custody.register_within c' script) _ b
    | recordDeposit c' key utxo =>
      obtain rfl := Option.some.inj hother
      exact Bridge.call_writes (Custody.recordDeposit_within c' key utxo) _ b
    | createDraft c' key payouts fee =>
      obtain rfl := Option.some.inj hother
      exact Bridge.call_writes (Custody.createDraft_within _ c' key payouts fee) _ b
    | addSignature c' signer txid signatures =>
      obtain rfl := Option.some.inj hother
      change b.state.Writes _
        ((Custody.addSignature c' signer txid signatures).mapError BridgeError.custody b.state).2
      rw [Transition.mapError_snd]
      rcases hr : Custody.addSignature c' signer txid signatures b.state with ⟨e | outcome, t⟩
      · exact .of_untouched (Custody.addSignature_atomic c' signer txid signatures _ _ _ hr)
      · have hanswer : (BridgeRequest.perform ⟨config, .addSignature c' signer txid signatures⟩
            b).1 = .ok outcome := by
          change ((Custody.addSignature c' signer txid signatures).mapError BridgeError.custody
            b.state).1 = _
          simp only [Transition.mapError, hr]
          rfl
        have hid : ¬ ids txid := by
          apply hids txid outcome
          rw [hanswer]
          rfl
        have hsigned : b.state.Writes (RecordKey.CustodyOf c' fun txid => ¬ ids txid)
            (Custody.addSignature c' signer txid signatures b.state).2 :=
          Custody.addSignature_writes hid fun draft hdraft =>
            (hnamed txid draft hdraft).symm ▸ hid
        rwa [hr] at hsigned
    | _ => cases hother
  · cases key with
    | redeem | utxo | stxo | draft => exact hc (hkey.symm.trans hcustody)
    | multisig => exact hkey hcustody
    | _ => exact hkey

/-- Every call keeps payments under their own ids. -/
theorem perform_draftsNamed (hnamed : ∀ c, b.state.DraftsNamed c) (c : ChainId) :
    (request.perform b).2.state.DraftsNamed c := by
  obtain ⟨key, hkey⟩ := request.op.exists_onKey c
  exact (request.perform_custody b hkey).draftsNamed (hnamed c)

end BridgeRequest

namespace Bridge

/-- A bridge on an empty store in which the same operations fail at all times. -/
def steady (module : Bytes) (faults : StoreOp → Option StoreFault) : Bridge :=
  empty module fun _ op => faults op

/-- The calls that are left when those about custody on other chains are removed. -/
def onlyCustodyOf (chain : ChainId) (requests : List BridgeRequest) : List BridgeRequest :=
  requests.filter fun request => request.op.custodyChain?.all (· == chain)

/-- The calls about custody on a chain, with their answers. -/
def custodyHistory (chain : ChainId) (requests : List BridgeRequest) (bridge : Bridge) :
    List BridgeEntry :=
  (history requests bridge).filter fun e => e.request.op.custodyChain? == some chain

theorem custodyHistory_cons (request : BridgeRequest) (requests : List BridgeRequest)
    (bridge : Bridge) :
    custodyHistory chain (request :: requests) bridge =
      (if request.op.custodyChain? == some chain then [⟨request, (request.perform bridge).1⟩]
        else []) ++ custodyHistory chain requests (request.perform bridge).2 := by
  rw [custodyHistory, history, run, List.filter_cons]
  split <;> rfl

/-- From states that agree on what custody on a chain reads, a run and what is left of it without
the custody of other chains answer the calls about the chain alike, and end in states that agree. -/
theorem run_isolated {requests : List BridgeRequest} {b b' : Bridge}
    (hagree : b.state.Agree (RecordKey.CustodyOf chain ids) b'.state)
    (hnamed : ∀ c, b.state.DraftsNamed c)
    (hids : ∀ request ∈ requests, ∀ txid, request.op.signs? = some (chain, txid) → ids txid)
    (hothers : ∀ e ∈ history requests b, ∀ c txid outcome,
      e.contribution? = some (c, txid, outcome) → c ≠ chain → ¬ ids txid) :
    custodyHistory chain requests b = custodyHistory chain (onlyCustodyOf chain requests) b' ∧
      (after requests b).Agree (RecordKey.CustodyOf chain ids)
        (after (onlyCustodyOf chain requests) b') := by
  induction requests generalizing b b' with
  | nil => exact ⟨rfl, hagree⟩
  | cons request requests ih =>
    have hnamed' := request.perform_draftsNamed hnamed
    have hidsTail := fun r hr => hids r (List.mem_cons_of_mem request hr)
    have hothersTail := fun e he => hothers e (List.mem_cons_of_mem _ he)
    cases hop : request.op.custodyChain? with
    | none =>
      have hkeep : onlyCustodyOf chain (request :: requests) =
          request :: onlyCustodyOf chain requests := by
        simp [onlyCustodyOf, hop]
      -- the call is made in both runs, and touches what custody reads in neither
      obtain ⟨Q, hwrites, hspared⟩ := request.perform_spares hop b
      obtain ⟨Q', hwrites', hspared'⟩ := request.perform_spares hop b'
      have hagree' := hagree.writes_both hwrites hspared hwrites' hspared'
      obtain ⟨hlater, hend⟩ := ih hagree' hnamed' hidsTail hothersTail
      rw [hkeep, custodyHistory_cons, custodyHistory_cons, hop, hlater]
      exact ⟨rfl, hend⟩
    | some c =>
      by_cases hc : c = chain
      · subst hc
        have hkeep : onlyCustodyOf c (request :: requests) =
            request :: onlyCustodyOf c requests := by
          simp [onlyCustodyOf, hop]
        obtain ⟨hanswer, hagree'⟩ :=
          BridgeRequest.perform_alike hop (hids request List.mem_cons_self) hagree
        obtain ⟨hlater, hend⟩ := ih hagree' hnamed' hidsTail hothersTail
        rw [hkeep, custodyHistory_cons, custodyHistory_cons, hanswer, hlater]
        exact ⟨rfl, hend⟩
      · have hdrop : onlyCustodyOf chain (request :: requests) = onlyCustodyOf chain requests := by
          simp [onlyCustodyOf, hop, hc]
        have hhead := hothers ⟨request, (request.perform b).1⟩ List.mem_cons_self c
        obtain ⟨Q, hwrites, hspared⟩ := BridgeRequest.perform_spares_other hop hc (hnamed c)
          fun txid outcome he => hhead txid outcome he hc
        obtain ⟨hlater, hend⟩ :=
          ih (hagree.writes hwrites hspared) hnamed' hidsTail hothersTail
        rw [hdrop, custodyHistory_cons, hlater, hop]
        simp only [beq_iff_eq, Option.some.injEq, hc, if_false]
        exact ⟨rfl, hend⟩

/-- Custody on a chain is isolated: in every run in which no transaction that the chain is asked to
sign receives accepted signatures on another chain, the calls about the chain are answered as in the
run without the custody of other chains, and all records that they read are the same at every
point. -/
theorem custody_isolated (module : Bytes) (faults : StoreOp → Option StoreFault) (chain : ChainId)
    (requests : List BridgeRequest)
    (hids : ∀ e ∈ history requests (steady module faults), ∀ c txid outcome,
      e.contribution? = some (c, txid, outcome) → c ≠ chain →
        ∀ request ∈ requests, request.op.signs? ≠ some (chain, txid)) :
    custodyHistory chain requests (steady module faults) =
        custodyHistory chain (onlyCustodyOf chain requests) (steady module faults) ∧
      ∀ front back, requests = front ++ back → ∀ key,
        key.CustodyOf chain
            (fun txid => ∃ request ∈ requests, request.op.signs? = some (chain, txid)) →
          (after front (steady module faults)).raw? key =
            (after (onlyCustodyOf chain front) (steady module faults)).raw? key := by
  have hagree : (steady module faults).state.Agree (RecordKey.CustodyOf chain
      fun txid => ∃ request ∈ requests, request.op.signs? = some (chain, txid))
      (steady module faults).state := .refl fun _ _ _ => rfl
  have hnamed (c : ChainId) : (steady module faults).state.DraftsNamed c :=
    draftsNamed_after [] c
  have hothers (e : BridgeEntry) (he : e ∈ history requests (steady module faults)) (c : ChainId)
      (txid : Hash) (outcome : SigningOutcome)
      (hcontributed : e.contribution? = some (c, txid, outcome)) (hc : c ≠ chain) :
      ¬ ∃ request ∈ requests, request.op.signs? = some (chain, txid) := by
    rintro ⟨request, hrequest, hsigns⟩
    exact hids e he c txid outcome hcontributed hc request hrequest hsigns
  constructor
  · exact (run_isolated hagree hnamed (fun request hr txid hs => ⟨request, hr, hs⟩) hothers).1
  · rintro front back rfl key hkey
    have hfront := run_isolated hagree hnamed
      (fun request hr txid hs => ⟨request, List.mem_append_left back hr, hs⟩)
      fun e he => hothers e (by
        rw [history, run_append]
        exact List.mem_append_left _ he)
    exact (hfront.2.raw?_eq hkey).symm

/-! ## Payments of one output on two chains -/

/-- The chains and transactions for which signatures were accepted. -/
def accepted (entries : List BridgeEntry) : List (ChainId × Hash) :=
  (entries.filterMap BridgeEntry.contribution?).map fun signed => (signed.1, signed.2.1)

theorem mem_accepted_iff {entries : List BridgeEntry} {c : ChainId} {txid : Hash} :
    (c, txid) ∈ accepted entries ↔
      ∃ e ∈ entries, ∃ outcome, e.contribution? = some (c, txid, outcome) := by
  rw [accepted, List.mem_map]
  constructor
  · rintro ⟨⟨c', txid', outcome⟩, hlisted, hsame⟩
    obtain ⟨rfl, rfl⟩ := Prod.mk.inj hsame
    obtain ⟨e, he, hcontributed⟩ := List.mem_filterMap.mp hlisted
    exact ⟨e, he, outcome, hcontributed⟩
  · rintro ⟨e, he, outcome, hcontributed⟩
    exact ⟨(c, txid, outcome), List.mem_filterMap.mpr ⟨e, he, hcontributed⟩, rfl⟩

/-- Calls that register the guard's script on a chain, deposit one output, and make a payment of so
much of it. -/
def guardCalls (chain : ChainId) (value : UInt64) : List BridgeRequest := [
  ⟨.trial, .registerRedeem chain soleScript⟩,
  ⟨.trial, .recordDeposit chain soleKey soleCoin⟩,
  ⟨.trial, .createDraft chain soleKey [⟨[0x00, 0x14, 0xaa, 0xbb], value⟩] 1000⟩]

/-- The guard signs the payment of 50000 on a chain. -/
def guardSigns (chain : ChainId) : BridgeRequest :=
  ⟨.trial, .addSignature chain soleGuard earlyId [earlySignature]⟩

/-- Two chains make the same payment; it is signed on the second one and then on the first. -/
def twinRequests : List BridgeRequest :=
  guardCalls 1 50000 ++ guardCalls 2 50000 ++ [guardSigns 2, guardSigns 1]

/-- The first chain closes its payment when the second one is left out, and not otherwise. -/
theorem twin_payment_shared :
    custodyHistory 1 twinRequests (steady [] fun _ => none) ≠
      custodyHistory 1 (onlyCustodyOf 1 twinRequests) (steady [] fun _ => none) := by
  have hboth : accepted (custodyHistory 1 twinRequests (steady [] fun _ => none)) = [] := by
    decide +kernel
  have hone : accepted (custodyHistory 1 (onlyCustodyOf 1 twinRequests)
      (steady [] fun _ => none)) = [(1, earlyId)] := by
    decide +kernel
  intro hsame
  rw [hsame, hone] at hboth
  cases hboth

/-- The payment of 20000. -/
def smallId : Hash :=
  .ofNatBE 32 0x412d523bf8f9f7bc496e11b40314f95bf07fc3f7ead80de98c6ce8fe2b88e054

/-- The guard's signature of it. -/
def smallSignature : Bytes :=
  Bytes.ofNatBE 36 0x3045022100a071129d378ab4e2d7cb0d7e89420bb9296dc206975289ea946be9ae506ab9 ++
  Bytes.ofNatBE 36 0x7d0220087daa33a90c6157140a50d2318c3087796103510ec98fbcfaed33186517f53801

/-- Two chains make different payments of outputs with the same outpoint, and both are signed. -/
def sideBySideRequests : List BridgeRequest :=
  guardCalls 1 50000 ++ guardCalls 2 20000 ++
    [⟨.trial, .addSignature 2 soleGuard smallId [smallSignature]⟩, guardSigns 1]

/-- The signatures for both payments are accepted. -/
theorem sideBySide_accepted :
    accepted (history sideBySideRequests (steady [] fun _ => none)) =
      [(2, smallId), (1, earlyId)] := by
  decide +kernel

/-- Different payments leave each other alone, though both are signed. -/
theorem different_payments_isolated :
    (∃ e ∈ history sideBySideRequests (steady [] fun _ => none), ∃ outcome,
      e.contribution? = some (2, smallId, outcome)) ∧
    (∀ e ∈ history sideBySideRequests (steady [] fun _ => none), ∀ c txid outcome,
      e.contribution? = some (c, txid, outcome) → c ≠ 1 →
        ∀ request ∈ sideBySideRequests, request.op.signs? ≠ some (1, txid)) ∧
    custodyHistory 1 sideBySideRequests (steady [] fun _ => none) =
      custodyHistory 1 (onlyCustodyOf 1 sideBySideRequests) (steady [] fun _ => none) := by
  have hothers : ∀ request ∈ sideBySideRequests, request.op.signs? ≠ some (1, smallId) := by
    decide
  have hids : ∀ e ∈ history sideBySideRequests (steady [] fun _ => none), ∀ c txid outcome,
      e.contribution? = some (c, txid, outcome) → c ≠ 1 →
        ∀ request ∈ sideBySideRequests, request.op.signs? ≠ some (1, txid) := by
    intro e he c txid outcome hcontributed hc
    have hlisted := mem_accepted_iff.mpr ⟨e, he, outcome, hcontributed⟩
    rw [sideBySide_accepted] at hlisted
    rcases List.mem_cons.mp hlisted with hsecond | hfirst
    · rw [(Prod.mk.inj hsecond).2]
      exact hothers
    · exact absurd (Prod.mk.inj (List.mem_singleton.mp hfirst)).1 hc
  have hsigned : (2, smallId) ∈
      accepted (history sideBySideRequests (steady [] fun _ => none)) := by
    rw [sideBySide_accepted]
    exact List.mem_cons_self
  exact ⟨mem_accepted_iff.mp hsigned, hids, (custody_isolated [] (fun _ => none) 1 _ hids).1⟩

end Bridge

end BridgeKernel
