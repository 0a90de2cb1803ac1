import BridgeKernel.Custody.Multisig
import BridgeKernel.Proofs.Bitcoin.Codec
import BridgeKernel.Proofs.Bitcoin.Signature
import BridgeKernel.Proofs.Checks
import Mathlib.Data.List.Forall2

/-!
# Signed transactions

Putting a transaction together leaves everything but the unlocking data of its inputs as it is. Each
input is unlocked by one signature of every signer, in the order of the signers, and what stands
there is the signature that was checked against the digest of this input.
-/

namespace BridgeKernel

open Bitcoin

/-! ## Locks -/

theorem Script.locking_of_lockKind? {redeem scriptPubkey : Bytes} {kind : LockKind}
    (h : lockKind? redeem scriptPubkey = some kind) : scriptPubkey = locking redeem kind := by
  unfold lockKind? at h
  split at h
  · next hscript =>
    cases h
    exact hscript
  split at h
  · next hwitness =>
    cases h
    exact hwitness
  · cases h

namespace Custody

variable {tx signed : Transaction} {redeem : Bytes} {spent : List Utxo}
  {signers : List (List Bytes)}

/-! ## Checked signatures -/

/-- A key has signed all inputs of a transaction that spend outputs. -/
structure Signed (tx : Transaction) (record : RedeemRecord) (spent : List Utxo) (key : Bytes)
    (signatures : List Bytes) : Prop where
  /-- There is a signature for each input. -/
  count : signatures.length = spent.length
  /-- Every signature has been checked. -/
  checked : checkSignatures tx record key 0 spent signatures = .ok ()

/-- Signatures that were checked fit the digests of their inputs. -/
theorem checkSignatures_getElem {record : RedeemRecord} {key : Bytes} {signatures : List Bytes}
    {first place : Nat} {u : Utxo} {signature : Bytes}
    (h : checkSignatures tx record key first spent signatures = .ok ())
    (hu : spent[place]? = some u) (hsignature : signatures[place]? = some signature) :
    ∃ digest, Assembly.sighash tx (first + place) u record.redeemScript = .ok digest ∧
      checkSignature digest signature key = .ok () := by
  induction spent generalizing first place signatures with
  | nil => cases hu
  | cons v spent ih =>
    cases signatures with
    | nil => cases hsignature
    | cons head signatures =>
      unfold checkSignatures at h
      obtain ⟨digest, hdigest, h⟩ := Except.bind_ok h
      obtain ⟨_, hhead, hrest⟩ := Except.bind_ok h
      cases place with
      | zero =>
        cases hu
        cases hsignature
        exact ⟨digest, hdigest, Except.mapError_ok hhead⟩
      | succ place =>
        have hlater := ih hrest hu hsignature
        rwa [Nat.add_right_comm, Nat.add_assoc] at hlater

namespace Signed

variable {record : RedeemRecord} {key : Bytes} {signatures : List Bytes}

theorem getElem (h : Signed tx record spent key signatures) {place : Nat} {u : Utxo}
    {signature : Bytes} (hu : spent[place]? = some u)
    (hsignature : signatures[place]? = some signature) :
    ∃ digest, Assembly.sighash tx place u record.redeemScript = .ok digest ∧
      checkSignature digest signature key = .ok () := by
  have hfound := checkSignatures_getElem h.checked hu hsignature
  rwa [Nat.zero_add] at hfound

/-- Checked signatures are short. -/
theorem length_le (h : Signed tx record spent key signatures) {signature : Bytes}
    (hmem : signature ∈ signatures) : signature.length ≤ 97 := by
  obtain ⟨place, hplace, hsignature⟩ := List.getElem_of_mem hmem
  have hspent : place < spent.length := h.count ▸ hplace
  obtain ⟨digest, -, hcheck⟩ := h.getElem (List.getElem?_eq_getElem hspent)
    (List.getElem?_eq_some_iff.mpr ⟨hplace, hsignature⟩)
  exact checkSignature_length hcheck

end Signed

/-! ## Putting a transaction together -/

theorem signaturesFor_ok {index count : Nat} {signatures : List Bytes}
    (h : Assembly.signaturesFor index count signers = .ok signatures) :
    List.Forall₂ (fun signer signature => signer[index]? = some signature) signers signatures := by
  induction signers generalizing signatures with
  | nil =>
    cases h
    exact .nil
  | cons signer signers ih =>
    rw [Assembly.signaturesFor, List.mapM_cons] at h
    obtain ⟨signature, hsignature, h⟩ := Except.bind_ok h
    obtain ⟨rest, hrest, h⟩ := Except.bind_ok h
    cases h
    refine .cons ?_ (ih hrest)
    split at hsignature
    · next found hfound =>
      cases hsignature
      exact hfound
    · cases hsignature

/-- An input is unlocked by a script or by a witness, as the spent output asks for. -/
theorem unlock_ok {index : Nat} {input unlocked : TxIn} {u : Utxo} {signatures : List Bytes}
    (h : Assembly.unlock index input u redeem signatures = .ok unlocked) :
    (Script.lockKind? redeem u.scriptPubkey = some .scriptHash ∧ unlocked =
      { input with scriptSig := 0x00 :: (signatures.flatMap Script.push ++ Script.push redeem) }) ∨
    (Script.lockKind? redeem u.scriptPubkey = some .witnessHash ∧ unlocked =
      { input with witness := [] :: (signatures ++ [redeem]) }) := by
  unfold Assembly.unlock at h
  split at h
  · cases h
  · next hkind =>
    cases h
    exact .inl ⟨hkind, rfl⟩
  · next hkind =>
    cases h
    exact .inr ⟨hkind, rfl⟩

/-- How an input was unlocked with the signatures made for it. -/
structure UnlockedBy (redeem : Bytes) (signers : List (List Bytes)) (index : Nat) (input : TxIn)
    (u : Utxo) (signatures : List Bytes) (unlocked : TxIn) : Prop where
  /-- Every signer has given its signature for the input. -/
  given : List.Forall₂ (fun signer signature => signer[index]? = some signature) signers signatures
  /-- They stand in the place that the spent output asks for. -/
  laid : Assembly.unlock index input u redeem signatures = .ok unlocked

/-- The first input is unlocked before the others. -/
theorem unlockAll_cons {count first : Nat} {head : TxIn} {inputs result : List TxIn} {v : Utxo}
    (h : Assembly.unlockAll redeem signers count first (head :: inputs) (v :: spent) =
      .ok result) :
    ∃ signatures unlocked rest, UnlockedBy redeem signers first head v signatures unlocked ∧
      Assembly.unlockAll redeem signers count (first + 1) inputs spent = .ok rest ∧
      result = unlocked :: rest := by
  unfold Assembly.unlockAll at h
  obtain ⟨signatures, hsignatures, h⟩ := Except.bind_ok h
  obtain ⟨unlocked, hunlock, h⟩ := Except.bind_ok h
  obtain ⟨rest, hrest, h⟩ := Except.bind_ok h
  cases h
  exact ⟨signatures, unlocked, rest, ⟨signaturesFor_ok hsignatures, hunlock⟩, hrest, rfl⟩

/-- Every input that has an output to spend is unlocked. -/
theorem unlockAll_getElem {count first place : Nat} {inputs result : List TxIn} {input : TxIn}
    {u : Utxo} (h : Assembly.unlockAll redeem signers count first inputs spent = .ok result)
    (hinput : inputs[place]? = some input) (hu : spent[place]? = some u) :
    ∃ signatures unlocked, result[place]? = some unlocked ∧
      UnlockedBy redeem signers (first + place) input u signatures unlocked := by
  induction inputs generalizing first place spent result with
  | nil => cases hinput
  | cons head inputs ih =>
    cases spent with
    | nil => cases hu
    | cons v spent =>
      obtain ⟨signatures, unlocked, rest, hunlocked, hrest, rfl⟩ := unlockAll_cons h
      cases place with
      | zero =>
        cases hinput
        cases hu
        exact ⟨signatures, unlocked, rfl, hunlocked⟩
      | succ place =>
        have hlater := ih hrest hinput hu
        rwa [Nat.add_right_comm, Nat.add_assoc] at hlater

theorem unlockAll_length {count first : Nat} {inputs result : List TxIn}
    (h : Assembly.unlockAll redeem signers count first inputs spent = .ok result) :
    result.length = inputs.length := by
  induction inputs generalizing first spent result with
  | nil =>
    cases h
    rfl
  | cons head inputs ih =>
    cases spent with
    | nil =>
      cases h
      rfl
    | cons v spent =>
      obtain ⟨_, unlocked, rest, -, hrest, rfl⟩ := unlockAll_cons h
      rw [List.length_cons, List.length_cons, ih hrest]

/-- A transaction put together for outputs to spend, one for each of its inputs. -/
structure Assembles (tx : Transaction) (spent : List Utxo) (redeem : Bytes)
    (signers : List (List Bytes)) (signed : Transaction) : Prop where
  /-- Nothing but inputs differs. -/
  rest : signed = { tx with inputs := signed.inputs }
  /-- There are as many inputs. -/
  count : signed.inputs.length = tx.inputs.length
  /-- Each of them is unlocked. -/
  unlocked : ∀ place input u, tx.inputs[place]? = some input → spent[place]? = some u →
    ∃ signatures unlocked, signed.inputs[place]? = some unlocked ∧
      UnlockedBy redeem signers place input u signatures unlocked

theorem assemble_ok (h : Assembly.assemble tx spent redeem signers = .ok signed) :
    Assembles tx spent redeem signers signed := by
  obtain ⟨inputs, hinputs, h⟩ := Except.bind_ok h
  cases h
  refine ⟨rfl, unlockAll_length hinputs, fun place input u hinput hu => ?_⟩
  have hfound := unlockAll_getElem hinputs hinput hu
  rwa [Nat.zero_add] at hfound

/-! ## Unlocking is not refused -/

theorem signaturesFor_answers {index count : Nat} (h : ∀ signer ∈ signers, index < signer.length) :
    ∃ signatures, Assembly.signaturesFor index count signers = .ok signatures := by
  induction signers with
  | nil => exact ⟨[], rfl⟩
  | cons signer signers ih =>
    obtain ⟨hfirst, hrest⟩ := List.forall_mem_cons.mp h
    obtain ⟨rest, hothers⟩ := ih hrest
    refine ⟨signer[index] :: rest, ?_⟩
    rw [Assembly.signaturesFor] at hothers ⊢
    rw [List.mapM_cons, hothers, List.getElem?_eq_getElem hfirst]
    rfl

theorem unlock_answers {index : Nat} {u : Utxo} {kind : Script.LockKind}
    (h : Script.lockKind? redeem u.scriptPubkey = some kind) (input : TxIn)
    (signatures : List Bytes) :
    ∃ unlocked, Assembly.unlock index input u redeem signatures = .ok unlocked := by
  unfold Assembly.unlock
  rw [h]
  cases kind <;> exact ⟨_, rfl⟩

/-- Outputs locked to the script are unlocked by signers who have signed for each. -/
theorem unlockAll_answers {count first : Nat} {inputs : List TxIn}
    (hlocked : ∀ u ∈ spent, ∃ kind, Script.lockKind? redeem u.scriptPubkey = some kind)
    (hsigned : ∀ signer ∈ signers, first + spent.length ≤ signer.length) :
    ∃ result, Assembly.unlockAll redeem signers count first inputs spent = .ok result := by
  induction inputs generalizing first spent with
  | nil => exact ⟨[], rfl⟩
  | cons head inputs ih =>
    cases spent with
    | nil => exact ⟨_, rfl⟩
    | cons v spent =>
      obtain ⟨⟨kind, hkind⟩, hlocked⟩ := List.forall_mem_cons.mp hlocked
      have hleft : ∀ signer ∈ signers, first + 1 + spent.length ≤ signer.length := by
        intro signer hsigner
        have hle := hsigned signer hsigner
        rw [List.length_cons] at hle
        omega
      obtain ⟨signatures, hsignatures⟩ :
          ∃ signatures, Assembly.signaturesFor first count signers = .ok signatures :=
        signaturesFor_answers fun signer hsigner => by
          have hle := hleft signer hsigner
          omega
      obtain ⟨unlocked, hunlock⟩ : ∃ unlocked,
          Assembly.unlock first head v redeem signatures = .ok unlocked :=
        unlock_answers hkind head signatures
      obtain ⟨rest, hrest⟩ := ih hlocked hleft
      refine ⟨unlocked :: rest, ?_⟩
      unfold Assembly.unlockAll
      rw [hsignatures]
      change (Assembly.unlock first head v redeem signatures >>= _) = _
      rw [hunlock]
      change (Assembly.unlockAll redeem signers count (first + 1) inputs spent >>= _) = _
      rw [hrest]
      rfl

theorem assemble_answers
    (hlocked : ∀ u ∈ spent, ∃ kind, Script.lockKind? redeem u.scriptPubkey = some kind)
    (hsigned : ∀ signer ∈ signers, signer.length = spent.length) :
    ∃ signed, Assembly.assemble tx spent redeem signers = .ok signed := by
  obtain ⟨inputs, hinputs⟩ : ∃ inputs,
      Assembly.unlockAll redeem signers spent.length 0 tx.inputs spent = .ok inputs :=
    unlockAll_answers hlocked fun signer hsigner =>
      Nat.le_of_eq ((Nat.zero_add _).trans (hsigned signer hsigner).symm)
  refine ⟨{ tx with inputs := inputs }, ?_⟩
  unfold Assembly.assemble
  rw [hinputs]
  rfl

/-! ## Room for the unlocking data -/

theorem length_push_le (data : Bytes) : (Script.push data).length ≤ data.length + 5 := by
  unfold Script.push
  dsimp only
  split
  · rw [List.length_cons]
    omega
  split
  · rw [List.length_cons, List.length_append, Bytes.length_ofNatLE]
    omega
  split
  · rw [List.length_cons, List.length_append, Bytes.length_ofNatLE]
    omega
  · rw [List.length_cons, List.length_append, Bytes.length_ofNatLE]
    omega

/-- Short byte strings take little room, however they are written one after another. -/
theorem sum_length_le {signatures : List Bytes} (room : Bytes → Nat) (extra : Nat)
    (hroom : ∀ signature, room signature ≤ signature.length + extra)
    (hshort : ∀ signature ∈ signatures, signature.length ≤ 97) :
    (signatures.map room).sum ≤ signatures.length * (97 + extra) := by
  induction signatures with
  | nil => exact Nat.zero_le _
  | cons signature signatures ih =>
    have hhead := hroom signature
    have hlength := hshort signature List.mem_cons_self
    have htail := ih fun other hother => hshort other (List.mem_cons_of_mem _ hother)
    rw [List.map_cons, List.sum_cons, List.length_cons, Nat.add_mul]
    omega

/-- What unlocks an input is among the signatures of a signer. -/
theorem UnlockedBy.exists_signer {index : Nat} {input unlocked : TxIn} {u : Utxo}
    {signatures : List Bytes} (h : UnlockedBy redeem signers index input u signatures unlocked)
    {signature : Bytes} (hmem : signature ∈ signatures) :
    ∃ signer ∈ signers, signature ∈ signer := by
  obtain ⟨k, hk, rfl⟩ := List.getElem_of_mem hmem
  have hk' : k < signers.length := h.given.length_eq ▸ hk
  have hsigner := (List.forall₂_iff_get.mp h.given).2 k hk' hk
  exact ⟨_, List.getElem_mem hk', List.mem_of_getElem? hsigner⟩

/-- With few signers, short signatures and a short script an input has room for what unlocks it. -/
theorem UnlockedBy.room {index : Nat} {input unlocked : TxIn} {u : Utxo} {signatures : List Bytes}
    (h : UnlockedBy redeem signers index input u signatures unlocked)
    (hredeem : redeem.length ≤ 611) (hfew : signers.length ≤ 16)
    (hshort : ∀ signer ∈ signers, ∀ signature ∈ signer, signature.length ≤ 97)
    (hunlocking : input.scriptSig.length < UInt64.size)
    (hwitness : witnessBytes input.witness ≤ maxWitness) :
    unlocked.scriptSig.length < UInt64.size ∧ witnessBytes unlocked.witness ≤ maxWitness := by
  have hsize : UInt64.size = 18446744073709551616 := rfl
  have hmax : maxWitness = 4000000 := rfl
  have hsignatures : signatures.length ≤ 16 := h.given.length_eq ▸ hfew
  have hmul : signatures.length * (97 + 9) ≤ 16 * (97 + 9) := Nat.mul_le_mul_right _ hsignatures
  have hgiven : ∀ signature ∈ signatures, signature.length ≤ 97 := by
    intro signature hmem
    obtain ⟨signer, hsigner, hmem⟩ := h.exists_signer hmem
    exact hshort signer hsigner signature hmem
  rcases unlock_ok h.laid with ⟨-, rfl⟩ | ⟨-, rfl⟩
  · refine ⟨?_, hwitness⟩
    have hpushes := sum_length_le (fun signature => (Script.push signature).length) 9
      (fun signature => Nat.le_trans (length_push_le signature) (by omega)) hgiven
    have hlast := length_push_le redeem
    simp only [List.length_cons, List.length_append, List.length_flatMap]
    omega
  · refine ⟨hunlocking, ?_⟩
    have helements := sum_length_le
      (fun signature => signature.length + (writeCount signature.length).length) 9
      (fun signature => Nat.add_le_add_left (length_writeCount signature.length).2 _) hgiven
    have hempty := (length_writeCount 0).2
    have hlast := (length_writeCount redeem.length).2
    simp only [witnessBytes, List.map_cons, List.map_append, List.sum_cons, List.sum_append,
      List.map_nil, List.sum_nil, List.length_nil]
    omega

namespace Assembles

variable (h : Assembles tx spent redeem signers signed)
include h

/-- The signed transaction spends what the unsigned one spends. -/
theorem previous_eq (hcount : tx.inputs.length = spent.length) :
    signed.inputs.map TxIn.previous = tx.inputs.map TxIn.previous := by
  apply List.ext_getElem?
  intro place
  rw [List.getElem?_map, List.getElem?_map]
  by_cases hplace : place < tx.inputs.length
  · have hinput := List.getElem?_eq_getElem hplace
    have hu := List.getElem?_eq_getElem (hcount ▸ hplace)
    obtain ⟨signatures, unlocked, hunlocked, hby⟩ := h.unlocked _ _ _ hinput hu
    rw [hunlocked, hinput]
    rcases unlock_ok hby.laid with ⟨-, rfl⟩ | ⟨-, rfl⟩
    · rfl
    · rfl
  · have hsigned : signed.inputs[place]? = none :=
      List.getElem?_eq_none (by rw [h.count]; omega)
    rw [hsigned, List.getElem?_eq_none (by omega)]

theorem outputs_eq : signed.outputs = tx.outputs := by
  rw [h.rest]

/-- With few signers, short signatures and a short script the unlocking data finds room. -/
theorem fits (hcount : tx.inputs.length = spent.length) (htx : tx.Fits)
    (hredeem : redeem.length ≤ 611) (hfew : signers.length ≤ 16)
    (hshort : ∀ signer ∈ signers, ∀ signature ∈ signer, signature.length ≤ 97) : signed.Fits := by
  have hinput : ∀ i ∈ signed.inputs,
      i.scriptSig.length < UInt64.size ∧ witnessBytes i.witness ≤ maxWitness := by
    intro i hi
    obtain ⟨place, hplace, rfl⟩ := List.getElem_of_mem hi
    have hplace' : place < tx.inputs.length := h.count ▸ hplace
    obtain ⟨signatures, unlocked, hunlocked, hby⟩ := h.unlocked _ _ _
      (List.getElem?_eq_getElem hplace') (List.getElem?_eq_getElem (hcount ▸ hplace'))
    rw [List.getElem?_eq_getElem hplace, Option.some.injEq] at hunlocked
    rw [hunlocked]
    exact hby.room hredeem hfew hshort (htx.unlocking _ (List.getElem_mem hplace'))
      (htx.witness _ (List.getElem_mem hplace'))
  refine ⟨h.count ▸ htx.inputs, h.outputs_eq ▸ htx.outputs, fun i hi => (hinput i hi).1, ?_,
    fun i hi => (hinput i hi).2⟩
  rw [h.outputs_eq]
  exact htx.locking

end Assembles

/-! ## Inputs unlocked by keys -/

/-- An input unlocked by signatures of keys, in their order. The signatures were made for all inputs
and outputs of the unsigned transaction. -/
inductive Unlocked (tx : Transaction) (redeem : Bytes) (keys : List Bytes) (place : Nat)
    (input : TxIn) (u : Utxo) : TxIn → Prop
  /-- By a script, which ends with the redeem script. -/
  | script {digest : Hash} {signatures : List Bytes}
    (lock : u.scriptPubkey = Script.locking redeem .scriptHash)
    (digest_eq : tx.scriptSighash? place redeem = some digest)
    (signed : List.Forall₂ (fun key signature => checkSignature digest signature key = .ok ())
      keys signatures) :
    Unlocked tx redeem keys place input u
      { input with scriptSig := 0x00 :: (signatures.flatMap Script.push ++ Script.push redeem) }
  /-- By a witness, which ends with the redeem script. -/
  | witness {digest : Hash} {signatures : List Bytes}
    (lock : u.scriptPubkey = Script.locking redeem .witnessHash)
    (digest_eq : tx.witnessSighash? place redeem u.value = some digest)
    (signed : List.Forall₂ (fun key signature => checkSignature digest signature key = .ok ())
      keys signatures) :
    Unlocked tx redeem keys place input u { input with witness := [] :: (signatures ++ [redeem]) }

/-- What keys have signed, and what was picked from it for an input. -/
theorem forall₂_comp {α β γ : Type} {R : α → β → Prop} {S : β → γ → Prop} {as : List α}
    {bs : List β} {cs : List γ} (h : List.Forall₂ R as bs) (h' : List.Forall₂ S bs cs) :
    List.Forall₂ (fun a c => ∃ b, R a b ∧ S b c) as cs := by
  induction h generalizing cs with
  | nil =>
    cases h'
    exact .nil
  | cons hhead _ ih =>
    cases h' with
    | cons hhead' htail' => exact .cons ⟨_, hhead, hhead'⟩ (ih htail')

/-- The signatures that keys have made for all inputs unlock each of them. -/
theorem UnlockedBy.unlocked {record : RedeemRecord} {keys : List Bytes} {place : Nat}
    {input unlocked : TxIn} {u : Utxo} {signatures : List Bytes}
    (h : UnlockedBy record.redeemScript signers place input u signatures unlocked)
    (hkeys : List.Forall₂ (Signed tx record spent) keys signers)
    (hinput : tx.inputs[place]? = some input) (hu : spent[place]? = some u) :
    Unlocked tx record.redeemScript keys place input u unlocked := by
  have hplace : place < tx.inputs.length := (List.getElem?_eq_some_iff.mp hinput).1
  -- one digest is signed for the input, whoever signs it
  have hsigned {digest : Hash}
      (hdigest : Assembly.sighash tx place u record.redeemScript = .ok digest) :
      List.Forall₂ (fun key signature => checkSignature digest signature key = .ok ()) keys
        signatures := by
    refine (forall₂_comp hkeys h.given).imp fun key signature hboth => ?_
    obtain ⟨signer, hsigner, hgiven⟩ := hboth
    obtain ⟨found, hfound, hcheck⟩ := hsigner.getElem hu hgiven
    rw [hdigest] at hfound
    cases hfound
    exact hcheck
  rcases unlock_ok h.laid with ⟨hkind, rfl⟩ | ⟨hkind, rfl⟩
  · have hdigest : tx.scriptSighash? place record.redeemScript =
        some (Sha256.double (tx.scriptPreimage place record.redeemScript)) := if_pos hplace
    refine .script (Script.locking_of_lockKind? hkind) hdigest (hsigned ?_)
    rw [Assembly.sighash, hkind, hdigest]
    rfl
  · have hdigest : tx.witnessSighash? place record.redeemScript u.value =
        some (Sha256.double (tx.witnessPreimage input record.redeemScript u.value)) := by
      rw [Transaction.witnessSighash?, hinput]
      rfl
    refine .witness (Script.locking_of_lockKind? hkind) hdigest (hsigned ?_)
    rw [Assembly.sighash, hkind, hdigest]
    rfl

end Custody

end BridgeKernel
