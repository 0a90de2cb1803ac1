import BridgeKernel.Proofs.Bridge.SignedPayments
import BridgeKernel.Proofs.Custody.ElementLimit

/-!
# Unlocking along a run

In every run the record of a script is the one that was parsed from it. So the script behind a
payment is a registered one, and its length decides whether the network takes what unlocks the
outputs that are locked to its digest by script.
-/

namespace BridgeKernel

open Bitcoin Custody Transition

/-! ## Records of scripts -/

/-- Every record of a script is what its script is parsed to. -/
def State.Registered (s : State) : Prop :=
  ∀ (chain : ChainId) (name : String) (record : RedeemRecord),
    s.lookup (.redeem chain name) = some record → Redeem.parse record.redeemScript = .ok record

namespace State.Registered

variable {s t : State} (hs : s.Registered)
include hs

theorem of_untouched (h : s.Untouched t) : t.Registered := by
  intro chain name record hrecord
  rw [h.lookup_eq] at hrecord
  exact hs chain name record hrecord

/-- Changes of other records leave those of scripts as they are. -/
theorem of_changed {changes : List Change} (h : s.Changed changes t)
    (hother : ∀ chain name, ∀ c ∈ changes, RecordKey.redeem chain name ≠ c.key) :
    t.Registered := by
  intro chain name record hrecord
  rw [h.lookup_of_ne (hother chain name)] at hrecord
  exact hs chain name record hrecord

theorem of_writes {P : RecordKey → Prop} (h : s.Writes P t)
    (hother : ∀ chain name, ¬ P (.redeem chain name)) : t.Registered := by
  intro chain name record hrecord
  rw [h.lookup_eq (hother chain name)] at hrecord
  exact hs chain name record hrecord

/-- A step that leaves no trace of a refusal needs to be looked at where it is not refused. -/
theorem of_atomic {ε α : Type} {x : Transition ε α} (hx : x.Atomic)
    (hok : ∀ a t, x s = (.ok a, t) → t.Registered) : (x s).2.Registered := by
  rcases h : x s with ⟨e | a, t⟩
  · exact hs.of_untouched (hx s t e h)
  · exact hok a t h

/-- A registered script is parsed to the record that is stored for it. -/
theorem register (chain : ChainId) (script : Bytes) :
    (Custody.register chain script s).2.Registered := by
  refine hs.of_atomic (register_atomic chain script) fun key t h => ?_
  rcases register_ok h with hu | ⟨made, hparse, hfits, -, hchanged⟩
  · exact hs.of_untouched hu
  intro chain' name record hrecord
  by_cases hkey : RecordKey.redeem chain' name = .redeem chain made.redeemKey
  · rw [hkey, hchanged.lookup_store hfits] at hrecord
    cases hrecord
    obtain ⟨hscript, -⟩ := Redeem.parse_ok hparse
    rwa [hscript]
  · rw [hchanged.lookup_of_ne (List.forall_mem_singleton.mpr hkey)] at hrecord
    exact hs chain' name record hrecord

theorem recordDeposit (chain : ChainId) (key : String) (utxo : Utxo) :
    (Custody.recordDeposit chain key utxo s).2.Registered :=
  hs.of_atomic (recordDeposit_atomic chain key utxo) fun _ _ h =>
    hs.of_changed (recordDeposit_ok h).changed (by simp)

theorem createDraft (config : CustodyConfig) (chain : ChainId) (key : String)
    (payouts : List Payout) (fee : UInt64) :
    (Custody.createDraft config chain key payouts fee s).2.Registered := by
  refine hs.of_atomic (createDraft_atomic config chain key payouts fee) fun draft t h => ?_
  obtain ⟨record, cost, selection, hdrafts⟩ := createDraft_ok h
  exact hs.of_changed hdrafts.changed (by simp)

theorem addSignature (chain : ChainId) (signer : Custodian) (txid : Hash)
    (signatures : List Bytes) :
    (Custody.addSignature chain signer txid signatures s).2.Registered := by
  refine hs.of_atomic (addSignature_atomic chain signer txid signatures) fun outcome t h => ?_
  obtain ⟨draft, record, tx, collection, -, ⟨-, -, -, hchanged⟩ | ⟨-, signed, -, hcloses⟩⟩ :=
    addSignature_ok h
  · exact hs.of_changed hchanged (by simp)
  · exact hs.of_changed hcloses.changed (by simp [closingChanges])

end State.Registered

/-- A call keeps the records of scripts parsed. -/
theorem BridgeRequest.perform_registered (request : BridgeRequest) {b : Bridge}
    (hs : b.state.Registered) : (request.perform b).2.state.Registered := by
  obtain ⟨config, op⟩ := request
  cases op with
  | registerRedeem chain script =>
    change (Bridge.call _ (Custody.register chain script) b).2.state.Registered
    rw [Bridge.call_state]
    exact hs.register chain script
  | recordDeposit chain key utxo =>
    change (Bridge.call _ (Custody.recordDeposit chain key utxo) b).2.state.Registered
    rw [Bridge.call_state]
    exact hs.recordDeposit chain key utxo
  | createDraft chain key payouts fee =>
    change (Bridge.call _ (Custody.createDraft config.custody chain key payouts fee)
      b).2.state.Registered
    rw [Bridge.call_state]
    exact hs.createDraft config.custody chain key payouts fee
  | addSignature chain signer txid signatures =>
    change ((Custody.addSignature chain signer txid signatures).mapError BridgeError.custody
      b.state).2.Registered
    rw [mapError_snd]
    exact hs.addSignature chain signer txid signatures
  | _ =>
    refine hs.of_writes (BridgeRequest.perform_writes ⟨config, _⟩ b) fun chain name htouches => ?_
    simp [BridgeOp.Touches, RecordKey.IsVote, RecordKey.IsApplied, RecordKey.Remembers] at htouches

namespace Bridge

variable {module : Bytes} {faults : Nat → StoreOp → Option StoreFault}

theorem registered_after (requests : List BridgeRequest) :
    (after requests (empty module faults)).Registered :=
  run_induction (fun request _ _ hb => request.perform_registered hb) nofun

/-- In every run, the transaction that closes a payment spends its outputs by a registered script,
which decides what is within the limit. -/
theorem closing_decidedByScript (requests : List BridgeRequest) {config : BridgeConfig}
    {chain : ChainId} {signer : Custodian} {txid : Hash} {signatures : List Bytes} {raw : Bytes}
    {final : Hash}
    (h : (BridgeRequest.perform ⟨config, .addSignature chain signer txid signatures⟩
      (run requests (empty module faults)).2).1 = .ok (.finalized raw final)) :
    ∃ (draft : SpendDraft) (record : RedeemRecord) (signed : Transaction),
      (after requests (empty module faults)).lookup (.draft chain txid) = some draft ∧
      (after requests (empty module faults)).lookup (.redeem chain draft.redeemKey) =
        some record ∧
      Redeem.parse record.redeemScript = .ok record ∧ Transaction.read raw = .ok signed ∧
      DecidedByScript record.redeemScript draft.inputs signed := by
  obtain ⟨draft, record, tx, signed, collection, rfl, rfl, hclosing⟩ :=
    (founded_after requests).closing h
  exact ⟨draft, record, signed, hclosing.waiting, hclosing.registered,
    registered_after requests chain draft.redeemKey record hclosing.registered,
    (hclosing.closes.signs hclosing.pays hclosing.parsed hclosing.short).read,
    hclosing.closes.decidedByScript hclosing.pays hclosing.parsed hclosing.short⟩

/-- When custody outputs can be unlocked on the network. Every output that is locked to a registered
script is taken in, and nothing else is. Whatever is taken in, a transaction that spends it is put
together from signatures that were checked, and what it pushes for an output is within the limit
exactly when a witness unlocks the output or the script is within the limit. A script is so with up
to thirteen keys, with fourteen or fifteen when it pushes each directly, and never with sixteen. In
every run, the same decides about the transaction that closes a payment. -/
theorem unlocking_within_limit_iff (script : Bytes) (record : RedeemRecord)
    (hparse : Redeem.parse script = .ok record) :
    (∀ u, TakesIn record u ↔ ∃ kind, Script.lockKind? script u.scriptPubkey = some kind) ∧
    (∀ (tx : Transaction) (spent : List Utxo) (signers : List (List Bytes)),
      (∀ u ∈ spent, TakesIn record u) → tx.inputs.length = spent.length →
      (∀ input ∈ tx.inputs, input.scriptSig = []) →
      (∀ signer ∈ signers, signer.length = spent.length) →
      (∀ signer ∈ signers, ∀ signature ∈ signer, ∃ digest key,
        checkSignature digest signature key = .ok ()) →
      ∃ signed, Assembly.assemble tx spent script signers = .ok signed ∧
        DecidedByScript script spent signed) ∧
    (record.publicKeys.length ≤ 13 → script.length ≤ Script.maxElement) ∧
    (script.length = 34 * record.publicKeys.length + 3 →
      (script.length ≤ Script.maxElement ↔ record.publicKeys.length ≤ 15)) ∧
    (script.length ≤ Script.maxElement → record.publicKeys.length ≤ 15) ∧
    ∀ module faults requests config chain signer txid signatures raw final,
      (BridgeRequest.perform ⟨config, .addSignature chain signer txid signatures⟩
        (run requests (empty module faults)).2).1 = .ok (.finalized raw final) →
      ∃ (draft : SpendDraft) (found : RedeemRecord) (signed : Transaction),
        (after requests (empty module faults)).lookup (.draft chain txid) = some draft ∧
        (after requests (empty module faults)).lookup (.redeem chain draft.redeemKey) =
          some found ∧
        Redeem.parse found.redeemScript = .ok found ∧ Transaction.read raw = .ok signed ∧
        DecidedByScript found.redeemScript draft.inputs signed := by
  obtain ⟨hthirteen, hdirect, hfifteen⟩ := Redeem.length_le_maxElement hparse
  refine ⟨fun _ => takesIn_iff hparse, fun tx spent signers => TakesIn.assembled hparse, hthirteen,
    hdirect, hfifteen, ?_⟩
  intro module faults requests config chain signer txid signatures raw final
  exact closing_decidedByScript requests

/-- The keys of sixteen guards. -/
def crowdKeys : List Bytes := [
  Bytes.ofNatBE 33 0x0279be667ef9dcbbac55a06295ce870b07029bfcdb2dce28d959f2815b16f81798,
  Bytes.ofNatBE 33 0x02c6047f9441ed7d6d3045406e95c07cd85c778e4b8cef3ca7abac09b95c709ee5,
  Bytes.ofNatBE 33 0x02f9308a019258c31049344f85f89d5229b531c845836f99b08601f113bce036f9,
  Bytes.ofNatBE 33 0x02e493dbf1c10d80f3581e4904930b1404cc6c13900ee0758474fa94abe8c4cd13,
  Bytes.ofNatBE 33 0x022f8bde4d1a07209355b4a7250a5c5128e88b84bddc619ab7cba8d569b240efe4,
  Bytes.ofNatBE 33 0x03fff97bd5755eeea420453a14355235d382f6472f8568a18b2f057a1460297556,
  Bytes.ofNatBE 33 0x025cbdf0646e5db4eaa398f365f2ea7a0e3d419b7e0330e39ce92bddedcac4f9bc,
  Bytes.ofNatBE 33 0x022f01e5e15cca351daff3843fb70f3c2f0a1bdd05e5af888a67784ef3e10a2a01,
  Bytes.ofNatBE 33 0x03acd484e2f0c7f65309ad178a9f559abde09796974c57e714c35f110dfc27ccbe,
  Bytes.ofNatBE 33 0x03a0434d9e47f3c86235477c7b1ae6ae5d3442d49b1943c2b752a68e2a47e247c7,
  Bytes.ofNatBE 33 0x03774ae7f858a9411e5ef4246b70c65aac5649980be5c17891bbec17895da008cb,
  Bytes.ofNatBE 33 0x03d01115d548e7561b15c38f004d734633687cf4419620095bc5b0f47070afe85a,
  Bytes.ofNatBE 33 0x03f28773c2d975288bc7d1d205c3748651b075fbc6610e58cddeeddf8f19405aa8,
  Bytes.ofNatBE 33 0x03499fdf9e895e719cfd64e67f07d38e3226aa7b63678949e6e49b241a60e823e4,
  Bytes.ofNatBE 33 0x02d7924d4f7d43ea965a465ae3095ff41131e5946f3c85f79e44adbcf8e27e080e,
  Bytes.ofNatBE 33 0x03e60fce93b59e9ec53011aabc21c23e97b2a31369b87a5ae9c44ee89e2a6dec0a]

/-- Their custody script. One of them must sign. -/
def crowdScript : Bytes := 0x51 :: (crowdKeys.flatMap (0x21 :: ·) ++ [0x60, 0xae])

/-- An output that is locked to the digest of the script. -/
def crowdCoin : Utxo where
  txid := .ofNatBE 32 0x1111111111111111111111111111111111111111111111111111111111111111
  vout := 0
  value := 100000
  scriptPubkey := Script.locking crowdScript .scriptHash

/-- The payment that spends it. -/
def crowdPayment : Transaction :=
  unsignedTransaction .trial crowdScript [crowdCoin] [⟨[0x00, 0x14, 0xaa, 0xbb], 99000⟩] 0

/-- The first guard's signature of the payment. -/
def crowdSignature : Bytes :=
  Bytes.ofNatBE 36 0x304502210092563dd508db0f08c0b1e713cc0b87377ce29e73f77efebd2a9de51b351711 ++
  Bytes.ofNatBE 36 0x1b02202c5f8670f12f4ba7fd97fd513bbc2ce3718cd39790b2c49b4e2d076f626838b501

/-- An output that is locked to a script of sixteen keys is taken in, and unlocked with an element
that the network does not take. -/
theorem crowd_unlocked_over_limit :
    ∃ record signed, Redeem.parse crowdScript = .ok record ∧ TakesIn record crowdCoin ∧
      Assembly.assemble crowdPayment [crowdCoin] crowdScript [[crowdSignature]] = .ok signed ∧
      ∃ input, signed.inputs[0]? = some input ∧ ¬ Script.WithinLimit input.scriptSig := by
  obtain ⟨record, hparse⟩ : ∃ record, Redeem.parse crowdScript = .ok record :=
    Redeem.exists_of_parses (by decide +kernel)
  have hlocked (u : Utxo) (hu : u ∈ [crowdCoin]) :
      ∃ kind, Script.lockKind? crowdScript u.scriptPubkey = some kind := by
    obtain rfl := List.mem_singleton.mp hu
    exact ⟨.scriptHash, if_pos rfl⟩
  obtain ⟨signed, hassembled⟩ : ∃ signed,
      Assembly.assemble crowdPayment [crowdCoin] crowdScript [[crowdSignature]] = .ok signed :=
    assemble_answers hlocked (by decide)
  have hdecided : DecidedByScript crowdScript [crowdCoin] signed :=
    (assemble_ok hassembled).decidedByScript rfl (by decide) (by decide +kernel) (by decide)
  obtain ⟨input, hinput, hiff⟩ := hdecided 0 crowdCoin rfl
  refine ⟨record, signed, hparse, (takesIn_iff hparse).mpr (hlocked _ List.mem_cons_self),
    hassembled, input, hinput, fun hwithin => ?_⟩
  rcases hiff.mp hwithin with hlock | hlength
  · exact Script.locking_ne hlock
  · exact absurd hlength (by decide +kernel)

/-- The payment of the guards that requires two of three. -/
def councilPayment : Transaction :=
  unsignedTransaction .trial councilScript [councilCoin] [⟨[0x00, 0x14, 0xaa, 0xbb], 50000⟩] 49000

/-- The digest of it that the guards sign. -/
def councilDigest : Hash :=
  .ofNatBE 32 0xe8d56426f7cbdfc31029ed91b0468732d009352c0ccbd82e0fcd9de4a341c48d

/-- A script of three keys unlocks an output that is locked to it within the limit. -/
theorem council_unlocked_within_limit :
    ∃ record signed, Redeem.parse councilScript = .ok record ∧ TakesIn record councilCoin ∧
      Assembly.assemble councilPayment [councilCoin] councilScript
        [[firstSignature], [thirdSignature]] = .ok signed ∧
      ∃ input, signed.inputs[0]? = some input ∧ Script.WithinLimit input.scriptSig := by
  obtain ⟨record, hparse⟩ : ∃ record, Redeem.parse councilScript = .ok record :=
    Redeem.exists_of_parses (by decide +kernel)
  have hlocked : (Script.lockKind? councilScript councilCoin.scriptPubkey).isSome = true := by
    decide +kernel
  have hchecked : ∀ signer ∈ [[firstSignature], [thirdSignature]], ∀ signature ∈ signer,
      ∃ digest key, checkSignature digest signature key = .ok () := by
    have hfirst : checkSignature councilDigest firstSignature (Bytes.ofNatBE 33
        0x0279be667ef9dcbbac55a06295ce870b07029bfcdb2dce28d959f2815b16f81798) = .ok () := by
      decide +kernel
    have hthird : checkSignature councilDigest thirdSignature (Bytes.ofNatBE 33
        0x02f9308a019258c31049344f85f89d5229b531c845836f99b08601f113bce036f9) = .ok () := by
      decide +kernel
    simp only [List.forall_mem_cons, List.not_mem_nil, false_implies, implies_true, and_true]
    exact ⟨⟨_, _, hfirst⟩, _, _, hthird⟩
  obtain ⟨htakes, hassembles, -⟩ := unlocking_within_limit_iff councilScript record hparse
  have htaken : ∀ u ∈ [councilCoin], TakesIn record u :=
    List.forall_mem_singleton.mpr ((htakes _).mpr (Option.isSome_iff_exists.mp hlocked))
  obtain ⟨signed, hassembled, hdecided⟩ := hassembles councilPayment [councilCoin]
    [[firstSignature], [thirdSignature]] htaken rfl (by decide) (by decide) hchecked
  obtain ⟨input, hinput, hiff⟩ := hdecided 0 councilCoin rfl
  exact ⟨record, signed, hparse, htaken _ List.mem_cons_self, hassembled, input, hinput,
    hiff.mpr (.inr (by decide))⟩

end Bridge

end BridgeKernel
