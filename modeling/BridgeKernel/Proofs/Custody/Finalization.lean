import BridgeKernel.Proofs.Custody.Orderly

/-!
# Exact finalization

The collection stored for a payment is made of its contributions, one for each custodian that
signed. As long as payments are told apart, the contributions before the last one required leave it
collecting, that one closes it, and none comes after. The signed transaction then carries, for every
input, a signature of each custodian that contributed, in the order of the script's keys.
-/

namespace BridgeKernel

open Bitcoin

namespace Custody

variable {chain : ChainId} {key : String} {j k : Journal} {s t : State}

/-! ## Keys that have signed -/

/-- The keys of the custodians that have signed, in the order of the script. -/
def signingKeys (record : RedeemRecord) (signatures : OrderedMap Custodian (List Bytes)) :
    List Bytes :=
  record.publicKeys.filter fun k => signatures.contains (Ripemd160.hash160 k)

/-- What was kept of a list and what was found for it belong together. -/
theorem forall₂_filter_filterMap {α β : Type} {R : α → β → Prop} {f : α → Option β} {as : List α}
    (h : ∀ a ∈ as, ∀ b, f a = some b → R a b) :
    List.Forall₂ R (as.filter fun a => (f a).isSome) (as.filterMap f) := by
  induction as with
  | nil => exact .nil
  | cons a as ih =>
    have hrest := ih fun a' ha' => h a' (List.mem_cons_of_mem a ha')
    cases hf : f a with
    | none => simpa [hf] using hrest
    | some b =>
      have hhead := h a List.mem_cons_self b hf
      simpa [hf] using List.Forall₂.cons hhead hrest

section Keys

variable {record : RedeemRecord} {draft : SpendDraft} {tx signed : Transaction}
  {cs : List Contribution}

/-- With different custodians a custodian's place is that of its key. -/
theorem publicKey_of_position (hparsed : record.Parsed) (hdistinct : record.custodians.Nodup)
    {publicKey : Bytes} (hkey : publicKey ∈ record.publicKeys) {position : Nat}
    (hposition : record.position? (Ripemd160.hash160 publicKey) = some position) :
    record.publicKeys.getD position [] = publicKey := by
  obtain ⟨hlt, hfound, -⟩ := List.idxOf?_eq_some_iff.mp hposition
  have hcustodians := hparsed.custodians
  have hlt' : position < record.publicKeys.length := by
    rw [hcustodians, List.length_map] at hlt
    exact hlt
  rw [hcustodians] at hdistinct
  have hhash : Ripemd160.hash160 record.publicKeys[position] = Ripemd160.hash160 publicKey := by
    simpa only [hcustodians, List.getElem_map] using hfound
  rw [List.getD_eq_getElem?_getD, List.getElem?_eq_getElem hlt', Option.getD_some]
  exact List.inj_on_of_nodup_map hdistinct (List.getElem_mem hlt') hkey hhash

/-- Who signed, and with what. -/
def Contribution.entry (c : Contribution) : Custodian × List Bytes := (c.signer, c.signatures)

/-- A contribution of a custodian whose signatures are good ones for the inputs of a payment. -/
def Contribution.Checked (record : RedeemRecord) (draft : SpendDraft) (c : Contribution) : Prop :=
  ∃ position tx, record.position? c.signer = some position ∧
    Transaction.read draft.unsignedTx = .ok tx ∧
    Signed tx record draft.inputs (record.publicKeys.getD position []) c.signatures

theorem map_fst_entry (cs : List Contribution) :
    (cs.map Contribution.entry).map Prod.fst = cs.map Contribution.signer := by
  rw [List.map_map]
  rfl

/-- The signatures of the custodians in the order of the script were made with their keys. -/
theorem signingKeys_signed (hparsed : record.Parsed) (hdistinct : record.custodians.Nodup)
    (hchecked : ∀ c ∈ cs, c.Checked record draft) (hsigners : (cs.map Contribution.signer).Nodup)
    (hunsigned : Transaction.read draft.unsignedTx = .ok tx) {collection : SignatureCollection}
    (hentries : collection.signatures = .ofList (cs.map Contribution.entry)) :
    List.Forall₂ (Signed tx record draft.inputs) (signingKeys record collection.signatures)
      (inKeyOrder record collection) := by
  rw [inKeyOrder, hparsed.custodians, List.filterMap_map]
  refine forall₂_filter_filterMap fun publicKey hkey given hgiven => ?_
  rw [hentries, OrderedMap.find?_ofList_iff (by rwa [map_fst_entry])] at hgiven
  obtain ⟨c, hc, hentry⟩ := List.mem_map.mp hgiven
  obtain ⟨hsigner, rfl⟩ := Prod.mk.inj hentry
  obtain ⟨position, tx', hposition, hread, hsigned⟩ := hchecked c hc
  rw [hunsigned] at hread
  cases hread
  rw [hsigner] at hposition
  rwa [publicKey_of_position hparsed hdistinct hkey hposition] at hsigned

/-- The keys that have signed are those of the custodians that contributed. -/
theorem signingKeys_perm (hparsed : record.Parsed) (hdistinct : record.custodians.Nodup)
    (hchecked : ∀ c ∈ cs, c.Checked record draft)
    (hsigners : (cs.map Contribution.signer).Nodup) :
    ((signingKeys record (.ofList (cs.map Contribution.entry))).map Ripemd160.hash160).Perm
      (cs.map Contribution.signer) := by
  have hkeys : ((signingKeys record (.ofList (cs.map Contribution.entry))).map
      Ripemd160.hash160).Nodup := by
    rw [hparsed.custodians] at hdistinct
    exact hdistinct.sublist (List.filter_sublist.map _)
  refine (List.perm_ext_iff_of_nodup hkeys hsigners).mpr fun custodian => ?_
  have hfind (given : List Bytes) :
      (OrderedMap.ofList (cs.map Contribution.entry)).find? custodian = some given ↔
        (custodian, given) ∈ cs.map Contribution.entry :=
    OrderedMap.find?_ofList_iff (by rwa [map_fst_entry])
  constructor
  · intro hmem
    obtain ⟨publicKey, hkey, rfl⟩ := List.mem_map.mp hmem
    obtain ⟨-, hcontains⟩ := List.mem_filter.mp hkey
    obtain ⟨given, hgiven⟩ := Option.isSome_iff_exists.mp hcontains
    rw [← map_fst_entry]
    exact List.mem_map_of_mem ((hfind given).mp hgiven)
  · intro hmem
    obtain ⟨c, hc, rfl⟩ := List.mem_map.mp hmem
    obtain ⟨position, tx, hposition, -⟩ := hchecked c hc
    obtain ⟨hlt, hfound, -⟩ := List.idxOf?_eq_some_iff.mp hposition
    have hcustodian : c.signer ∈ record.publicKeys.map Ripemd160.hash160 := by
      rw [← hparsed.custodians, ← hfound]
      exact List.getElem_mem hlt
    obtain ⟨publicKey, hkey, hhash⟩ := List.mem_map.mp hcustodian
    refine List.mem_map.mpr ⟨publicKey, List.mem_filter.mpr ⟨hkey, ?_⟩, hhash⟩
    have hgiven := (hfind c.signatures).mpr (List.mem_map_of_mem (f := Contribution.entry) hc)
    rw [hhash, OrderedMap.contains, hgiven]
    rfl

/-- A signed transaction is that of a payment, unlocked with the keys of the custodians that signed,
who are as many as the script requires. -/
structure SignedWith (record : RedeemRecord) (draft : SpendDraft) (signers : List Custodian)
    (tx signed : Transaction) (keys : List Bytes) : Prop where
  /-- The unsigned transaction. -/
  unsigned : Transaction.read draft.unsignedTx = .ok tx
  /-- The signed one is read back from its bytes. -/
  read : Transaction.read signed.write = .ok signed
  /-- They differ in their inputs. -/
  rest : signed = { tx with inputs := signed.inputs }
  /-- There is one for each output that is spent. -/
  count : tx.inputs.length = draft.inputs.length ∧ signed.inputs.length = draft.inputs.length
  /-- The keys stand in the order of the script. -/
  order : keys.Sublist record.publicKeys
  /-- They are as many as required. -/
  required : keys.length = record.required.toNat
  /-- They belong to the custodians that signed. -/
  owners : (keys.map Ripemd160.hash160).Perm signers
  /-- These are different ones. -/
  different : signers.Nodup
  /-- They unlock every input. -/
  unlocked : ∀ place input u, tx.inputs[place]? = some input → draft.inputs[place]? = some u →
    ∃ unlocked, signed.inputs[place]? = some unlocked ∧
      Unlocked tx record.redeemScript keys place input u unlocked

/-- Contributions as many as required unlock the transaction that is put together from them. -/
theorem signedWith_of_assembled (hparsed : record.Parsed) (hdistinct : record.custodians.Nodup)
    (hchecked : ∀ c ∈ cs, c.Checked record draft) (hsigners : (cs.map Contribution.signer).Nodup)
    (hrequired : cs.length = record.required.toNat) {collection : SignatureCollection}
    (hentries : collection.signatures = .ofList (cs.map Contribution.entry))
    (hpays : Pays draft tx) (hread : Transaction.read signed.write = .ok signed)
    (hassembled : Assembly.assemble tx draft.inputs record.redeemScript
      (inKeyOrder record collection) = .ok signed) :
    SignedWith record draft (cs.map Contribution.signer) tx signed
      (signingKeys record collection.signatures) := by
  have hassembles := assemble_ok hassembled
  have hsigned := signingKeys_signed hparsed hdistinct hchecked hsigners hpays.read hentries
  have hperm := signingKeys_perm hparsed hdistinct hchecked hsigners
  rw [← hentries] at hperm
  have hcount : tx.inputs.length = draft.inputs.length := by
    rw [hpays.inputs, List.length_map]
  refine ⟨hpays.read, hread, hassembles.rest, ⟨hcount, hassembles.count.trans hcount⟩,
    List.filter_sublist, ?_, hperm, hsigners, fun place input u hinput hu => ?_⟩
  · have hlength := hperm.length_eq
    rwa [List.length_map, List.length_map, hrequired] at hlength
  · obtain ⟨signatures, unlocked, hunlocked, hby⟩ := hassembles.unlocked place input u hinput hu
    exact ⟨unlocked, hunlocked, hby.unlocked hsigned hinput hu⟩

end Keys

/-! ## What contributions bring about -/

/-- The status in which a contribution leaves its collection. -/
def Contribution.status (c : Contribution) : CollectionStatus :=
  match c.outcome with
  | .collecting .. => .collecting
  | .finalized raw txid => .finalized raw txid

/-- The collection that contributions make, if there are any. -/
def collectionFrom (txid : Hash) (key : String) (cs : List Contribution) :
    Option SignatureCollection :=
  cs.getLast?.map fun last => ⟨txid, key, .ofList (cs.map Contribution.entry), last.status⟩

/-- What a contribution to a payment brings about when these custodians have signed. -/
inductive Brings (record : RedeemRecord) (draft : SpendDraft) (signers : List Custodian) :
    SigningOutcome → Prop
  /-- More are required. -/
  | more (h : signers.length < record.required.toNat) :
    Brings record draft signers (.collecting signers.length record.required)
  /-- They are as many as required. -/
  | last {tx signed : Transaction} {keys : List Bytes}
    (h : signers.length = record.required.toNat)
    (unlocked : SignedWith record draft signers tx signed keys) :
    Brings record draft signers (.finalized signed.write signed.txid)

/-- The contributions to a payment have been checked, and each has brought about what it should. -/
structure Progress (record : RedeemRecord) (draft : SpendDraft) (cs : List Contribution) :
    Prop where
  /-- They are good ones. -/
  checked : ∀ c ∈ cs, c.Checked record draft
  /-- Each has brought about what follows from those up to it. -/
  brings : ∀ place c, cs[place]? = some c →
    Brings record draft ((cs.take (place + 1)).map Contribution.signer) c.outcome

namespace Progress

variable {record : RedeemRecord} {draft : SpendDraft} {cs : List Contribution}

theorem nil : Progress record draft [] := ⟨nofun, nofun⟩

/-- One more contribution. -/
theorem snoc (h : Progress record draft cs) {c : Contribution} (hchecked : c.Checked record draft)
    (hbrings : Brings record draft ((cs ++ [c]).map Contribution.signer) c.outcome) :
    Progress record draft (cs ++ [c]) := by
  refine ⟨fun c' hc' => ?_, fun place c' hplace => ?_⟩
  · rcases List.mem_append.mp hc' with hbefore | hnow
    · exact h.checked c' hbefore
    · obtain rfl := List.mem_singleton.mp hnow
      exact hchecked
  · rw [List.getElem?_append] at hplace
    split at hplace
    · next hlt =>
      rw [List.take_append_of_le_length hlt]
      exact h.brings place c' hplace
    · next hge =>
      obtain ⟨hlt, rfl⟩ := List.getElem?_eq_some_iff.mp hplace
      rw [List.length_singleton] at hlt
      rw [List.take_of_length_le (by rw [List.length_append, List.length_singleton]; omega),
        List.getElem_singleton]
      exact hbrings

/-- The last one has brought about what follows from all of them. -/
theorem brings_getLast (h : Progress record draft cs) {last : Contribution}
    (hlast : cs.getLast? = some last) :
    Brings record draft (cs.map Contribution.signer) last.outcome := by
  rw [List.getLast?_eq_getElem?] at hlast
  have hplace := (List.getElem?_eq_some_iff.mp hlast).1
  have hbrings := h.brings _ _ hlast
  rwa [List.take_of_length_le (by omega)] at hbrings

/-- As long as a collection is open, more contributions are required. -/
theorem lt_required (h : Progress record draft cs) (hparsed : record.Parsed)
    (hopen : ∀ last, cs.getLast? = some last → last.status = .collecting) :
    cs.length < record.required.toNat := by
  cases hlast : cs.getLast? with
  | none =>
    rw [List.getLast?_eq_none_iff.mp hlast]
    exact hparsed.one_le
  | some last =>
    have hstatus := hopen last hlast
    have hbrings := h.brings_getLast hlast
    unfold Contribution.status at hstatus
    generalize last.outcome = outcome at hstatus hbrings
    cases hbrings with
    | more hmore => simpa using hmore
    | last => cases hstatus

/-- What holds of contributions held of the first ones among them. -/
theorem of_append {later : List Contribution} (h : Progress record draft (cs ++ later)) :
    Progress record draft cs := by
  refine ⟨fun c hc => h.checked c (List.mem_append_left _ hc), fun place c hplace => ?_⟩
  have hlt := (List.getElem?_eq_some_iff.mp hplace).1
  have hbrings := h.brings place c (by rwa [List.getElem?_append_left hlt])
  rwa [List.take_append_of_le_length hlt] at hbrings

/-- There are no more contributions than required. -/
theorem length_le (h : Progress record draft cs) : cs.length ≤ record.required.toNat := by
  cases hlast : cs.getLast? with
  | none =>
    rw [List.getLast?_eq_none_iff.mp hlast]
    exact Nat.zero_le _
  | some last =>
    have hbrings := h.brings_getLast hlast
    rw [← List.length_map Contribution.signer]
    generalize last.outcome = outcome at hbrings
    cases hbrings with
    | more hmore => exact Nat.le_of_lt hmore
    | last hlast => exact Nat.le_of_eq hlast

/-- No contribution comes after the last one required. -/
theorem eq_nil_of_required {later : List Contribution} (h : Progress record draft (cs ++ later))
    (hrequired : cs.length = record.required.toNat) : later = [] := by
  have hle := h.length_le
  rw [List.length_append] at hle
  exact List.eq_nil_of_length_eq_zero (by omega)

/-- As long as more contributions are required, the last one has left the collection open. -/
theorem collecting (h : Progress record draft cs) {last : Contribution}
    (hlast : cs.getLast? = some last) (hfewer : cs.length < record.required.toNat) :
    last.status = .collecting := by
  have hbrings := h.brings_getLast hlast
  rw [← List.length_map Contribution.signer] at hfewer
  unfold Contribution.status
  generalize last.outcome = outcome at hbrings
  cases hbrings with
  | more => rfl
  | last hrequired => omega

/-- The last contribution required has closed the collection. -/
theorem finalized (h : Progress record draft cs) {last : Contribution}
    (hlast : cs.getLast? = some last) (hrequired : cs.length = record.required.toNat) :
    ∃ raw final, last.outcome = .finalized raw final := by
  have hbrings := h.brings_getLast hlast
  rw [← List.length_map Contribution.signer] at hrequired
  generalize last.outcome = outcome at hbrings ⊢
  cases hbrings with
  | more hmore => omega
  | last => exact ⟨_, _, rfl⟩

end Progress

/-- What is stored for payments is made of their contributions. -/
structure Collected (chain : ChainId) (key : String) (j : Journal) (s : State) : Prop where
  /-- The collection of a transaction. -/
  stored : ∀ txid, s.lookup (.multisig txid) = collectionFrom txid key (j.contributions txid)
  /-- Each custodian has contributed once. -/
  signers : ∀ txid, ((j.contributions txid).map Contribution.signer).Nodup
  /-- Contributions belong to payments. -/
  drafted : ∀ txid, j.contributions txid ≠ [] → txid ∈ j.drafts.map SpendDraft.txid
  /-- Contributions to each payment have brought about what they should. -/
  progress : ∀ record : RedeemRecord, s.lookup (.redeem chain key) = some record →
    record.custodians.Nodup → ∀ draft ∈ j.drafts,
      Progress record draft (j.contributions draft.txid)

/-- Nothing has been called yet. -/
theorem Collected.empty (module : Bytes) (faults : Nat → StoreOp → Option StoreFault)
    (clock : Nat) : Collected chain key [] ⟨module, .empty, faults, clock⟩ where
  stored _ := rfl
  signers _ := List.nodup_nil
  drafted _ h := absurd rfl h
  progress _ h := nomatch h

namespace Collected

/-- The collection of a payment with contributions, the last of which says how far it has come. -/
theorem lookup_of_last (h : Collected chain key j s) {txid : Hash} {last : Contribution}
    (hlast : (j.contributions txid).getLast? = some last) :
    ∃ collection : SignatureCollection, s.lookup (.multisig txid) = some collection ∧
      collection.status = last.status ∧
      collection.signerCount = (j.contributions txid).length := by
  have hsigners := h.signers txid
  rw [← map_fst_entry] at hsigners
  have hsize := OrderedMap.size_ofList hsigners
  rw [List.length_map] at hsize
  refine ⟨⟨txid, key, .ofList ((j.contributions txid).map Contribution.entry), last.status⟩, ?_,
    rfl, hsize⟩
  rw [h.stored, collectionFrom, hlast, Option.map_some]

/-- The contributions required have closed their payment. -/
theorem closed_of_required (h : Collected chain key j s) {record : RedeemRecord}
    {draft : SpendDraft} (hparsed : record.Parsed)
    (hprogress : Progress record draft (j.contributions draft.txid))
    (hrequired : (j.contributions draft.txid).length = record.required.toNat) :
    ∃ (last : Contribution) (collection : SignatureCollection) (raw : Bytes) (final : Hash),
      (j.contributions draft.txid).getLast? = some last ∧
      last.outcome = .finalized raw final ∧
      s.lookup (.multisig draft.txid) = some collection ∧
      collection.status = .finalized raw final := by
  have hsome : 0 < (j.contributions draft.txid).length := by
    rw [hrequired]
    exact hparsed.one_le
  have hlast := List.getLast?_eq_some_getLast (List.ne_nil_of_length_pos hsome)
  obtain ⟨collection, hlookup, hstatus, -⟩ := h.lookup_of_last hlast
  obtain ⟨raw, final, houtcome⟩ := hprogress.finalized hlast hrequired
  rw [Contribution.status, houtcome] at hstatus
  exact ⟨_, collection, raw, final, hlast, houtcome, hlookup, hstatus⟩

/-- A call that brings no signatures. -/
theorem kept (h : Collected chain key j s) (htraced : Traced chain key j s)
    (hcall : Call chain key s t k) (hk : ∀ txid, k.contributions txid = [])
    (hsame : ∀ txid, t.lookup (α := SignatureCollection) (.multisig txid) =
      s.lookup (.multisig txid))
    (hfresh : ∀ draft ∈ k.drafts, draft.txid ∉ j.drafts.map SpendDraft.txid) :
    Collected chain key (j ++ k) t := by
  have hcontributions (txid : Hash) : (j ++ k).contributions txid = j.contributions txid := by
    rw [Journal.contributions_append, hk, List.append_nil]
  refine ⟨fun txid => ?_, fun txid => ?_, fun txid hsome => ?_,
    fun record hrecord hdistinct draft hdraft => ?_⟩
  · rw [hsame, h.stored, hcontributions]
  · rw [hcontributions]
    exact h.signers txid
  · rw [hcontributions] at hsome
    rw [Journal.drafts_append, List.map_append]
    exact List.mem_append_left _ (h.drafted txid hsome)
  · rw [hcontributions]
    rw [Journal.drafts_append] at hdraft
    rcases List.mem_append.mp hdraft with hbefore | hnew
    · rcases hcall.redeem_origin hrecord with hregistered | ⟨hnone, -⟩
      · exact h.progress record hregistered hdistinct draft hbefore
      · obtain ⟨earlier, hearlier⟩ := htraced.registered (List.ne_nil_of_mem hbefore)
        rw [hnone] at hearlier
        cases hearlier
    · have hnone : j.contributions draft.txid = [] := by
        refine Decidable.of_not_not fun hsome => ?_
        exact hfresh draft hnew (h.drafted draft.txid hsome)
      rw [hnone]
      exact .nil

section Contributed

variable {signer : Custodian} {txid : Hash} {signatures : List Bytes} {draft : SpendDraft}
  {record : RedeemRecord} {tx signed : Transaction} {collection : SignatureCollection}

/-- A contribution that is taken is a good one. -/
theorem checked_contribution
    (hfound : Contributes chain signer txid signatures draft record tx collection s)
    (outcome : SigningOutcome) :
    Contribution.Checked record draft ⟨signer, signatures, outcome⟩ := by
  obtain ⟨position, hposition, hsigned⟩ := hfound.signedBy
  exact ⟨position, tx, hposition, hfound.read, hsigned⟩

/-- The collection to which a custodian contributes has not been closed, and the custodian is new
to it. -/
theorem opened (h : Collected chain key j s) (hkey : draft.redeemKey = key)
    (hfound : Contributes chain signer txid signatures draft record tx collection s) :
    collection = ⟨txid, key,
        (.ofList ((j.contributions txid).map Contribution.entry ++ [(signer, signatures)])),
        .collecting⟩ ∧
      signer ∉ (j.contributions txid).map Contribution.signer ∧
      ∀ last, (j.contributions txid).getLast? = some last → last.status = .collecting := by
  obtain ⟨begun, hbegun, hopen, rfl⟩ := hfound.collected
  rw [h.stored txid] at hbegun
  rw [OrderedMap.ofList_snoc]
  cases hlast : (j.contributions txid).getLast? with
  | none =>
    have hnil := List.getLast?_eq_none_iff.mp hlast
    rw [collectionFrom, hlast] at hbegun
    subst hbegun hkey
    rw [hnil]
    exact ⟨rfl, List.not_mem_nil, nofun⟩
  | some last =>
    rw [collectionFrom, hlast] at hbegun
    subst hbegun
    obtain ⟨hstatus, hnew⟩ := hopen _ rfl
    have hcollecting : last.status = .collecting := by
      simpa [SignatureCollection.isFinalized] using hstatus
    refine ⟨?_, fun hmem => ?_, fun other hother => ?_⟩
    · simp only [Option.map_some, collectionOf, Option.getD_some, hcollecting]
    · obtain ⟨c, hc, rfl⟩ := List.mem_map.mp hmem
      have hsigners := h.signers txid
      rw [← map_fst_entry] at hsigners
      have hgiven := (OrderedMap.find?_ofList_iff hsigners).mpr
        (List.mem_map_of_mem (f := Contribution.entry) hc)
      have hcontains : (OrderedMap.ofList ((j.contributions txid).map Contribution.entry)).contains
        c.signer = false := hnew
      rw [OrderedMap.contains, hgiven] at hcontains
      cases hcontains
    · cases hother
      exact hcollecting

/-- A contribution brings one more signer. -/
theorem signers_snoc (h : Collected chain key j s) {c : Contribution}
    (hnew : c.signer ∉ (j.contributions txid).map Contribution.signer) :
    ((j.contributions txid ++ [c]).map Contribution.signer).Nodup := by
  rw [List.map_append, List.map_singleton, List.nodup_append_comm]
  exact List.nodup_cons.mpr ⟨hnew, h.signers txid⟩

/-- The collection then counts all signers. -/
theorem signerCount_eq (h : Collected chain key j s) (hkey : draft.redeemKey = key)
    (hfound : Contributes chain signer txid signatures draft record tx collection s) :
    collection.signerCount = (j.contributions txid).length + 1 := by
  obtain ⟨hcollection, hnew, -⟩ := h.opened hkey hfound
  have hsigners := h.signers_snoc (c := ⟨signer, signatures, .collecting 0 0⟩) hnew
  rw [← map_fst_entry, List.map_append] at hsigners
  have hsize := OrderedMap.size_ofList hsigners
  rw [hcollection, SignatureCollection.signerCount]
  rw [List.length_append, List.length_map, List.length_map] at hsize
  exact hsize

/-- The contribution that closes a payment is the last one required. -/
theorem brings_last (h : Collected chain key j s) (htraced : Traced chain key j s)
    (hfound : Contributes chain signer txid signatures draft record tx collection s)
    (henough : record.required.toNat ≤ collection.signerCount)
    (hcloses : Closes chain draft record tx signed collection s t)
    (hdistinct : record.custodians.Nodup) :
    Brings record draft ((j.contributions txid).map Contribution.signer ++ [signer])
      (.finalized signed.write signed.txid) := by
  obtain ⟨hid, hkey⟩ := htraced.named txid draft hfound.waiting
  have hmade := htraced.waiting txid draft hfound.waiting
  have hsettled := htraced.settles hfound hcloses
  have hregistered := hfound.registered
  rw [hkey] at hregistered
  have hparsed := htraced.script record hregistered
  have hprogress := h.progress record hregistered hdistinct draft hmade
  rw [hid] at hprogress
  obtain ⟨hcollection, hnew, hopen⟩ := h.opened hkey hfound
  have hcount := h.signerCount_eq hkey hfound
  have hlt := hprogress.lt_required hparsed hopen
  let c : Contribution := ⟨signer, signatures, .finalized signed.write signed.txid⟩
  have hchecked : ∀ c' ∈ j.contributions txid ++ [c], c'.Checked record draft := by
    intro c' hc'
    rcases List.mem_append.mp hc' with hbefore | hnow
    · exact hprogress.checked c' hbefore
    · obtain rfl := List.mem_singleton.mp hnow
      exact checked_contribution hfound _
  have hentries : collection.signatures =
      .ofList ((j.contributions txid ++ [c]).map Contribution.entry) := by
    rw [hcollection, List.map_append]
    rfl
  have hlength : (j.contributions txid ++ [c]).length = record.required.toNat := by
    rw [List.length_append, List.length_singleton]
    omega
  have hsigned := signedWith_of_assembled hparsed hdistinct hchecked (h.signers_snoc hnew) hlength
    hentries hsettled.pays hsettled.read hcloses.assembled
  rw [List.map_append, List.map_singleton] at hsigned
  refine .last ?_ hsigned
  rw [List.length_append, List.length_map, List.length_singleton]
  omega

/-- The payment that was signed has come as far as its contributions say, and the others have not
moved. -/
theorem progress_contributed (h : Collected chain key j s) (htraced : Traced chain key j s)
    (horderly : Orderly chain key j s) {outcome : SigningOutcome}
    (hfound : Contributes chain signer txid signatures draft record tx collection s)
    (hbrings : record.custodians.Nodup →
      Brings record draft ((j.contributions txid).map Contribution.signer ++ [signer]) outcome)
    {other : RedeemRecord} (hother : s.lookup (.redeem chain key) = some other)
    (hdistinct : other.custodians.Nodup) {made : SpendDraft} (hmade : made ∈ j.drafts) :
    Progress other made
      (Journal.contributions (j ++ [.signed txid ⟨signer, signatures, outcome⟩]) made.txid) := by
  obtain ⟨hid, hkey⟩ := htraced.named txid draft hfound.waiting
  have hprogress := h.progress other hother hdistinct made hmade
  rw [Journal.contributions_append]
  by_cases hne : made.txid = txid
  · obtain rfl :=
      horderly.eq_of_txid hmade (htraced.waiting txid draft hfound.waiting) (hne.trans hid.symm)
    obtain rfl : other = record := by
      have hregistered := hfound.registered
      rw [hkey, hother] at hregistered
      exact Option.some.inj hregistered
    rw [hne] at hprogress ⊢
    rw [Journal.contributions_signed_self]
    refine hprogress.snoc (checked_contribution hfound outcome) ?_
    rw [List.map_append, List.map_singleton]
    exact hbrings hdistinct
  · rw [Journal.contributions_signed_of_ne hne, List.append_nil]
    exact hprogress

/-- A contribution is added to those stored. -/
theorem contributed (h : Collected chain key j s) (htraced : Traced chain key j s)
    (horderly : Orderly chain key j s) {outcome : SigningOutcome}
    (hcall : Call chain key s t [.signed txid ⟨signer, signatures, outcome⟩])
    (hfound : Contributes chain signer txid signatures draft record tx collection s)
    (hself : t.lookup (.multisig txid) =
      some { collection with status := Contribution.status ⟨signer, signatures, outcome⟩ })
    (hothers : ∀ id, id ≠ txid → t.lookup (α := SignatureCollection) (.multisig id) =
      s.lookup (.multisig id))
    (hbrings : record.custodians.Nodup →
      Brings record draft ((j.contributions txid).map Contribution.signer ++ [signer]) outcome) :
    Collected chain key (j ++ [.signed txid ⟨signer, signatures, outcome⟩]) t := by
  obtain ⟨hid, hkey⟩ := htraced.named txid draft hfound.waiting
  have hmade := htraced.waiting txid draft hfound.waiting
  obtain ⟨hcollection, hnew, -⟩ := h.opened hkey hfound
  have hdrafts : Journal.drafts [.signed txid ⟨signer, signatures, outcome⟩] = [] := rfl
  refine ⟨fun id => ?_, fun id => ?_, fun id hsome => ?_,
    fun other hother hdistinct made hmem => ?_⟩
  · rw [Journal.contributions_append]
    by_cases hne : id = txid
    · subst hne
      rw [hself, Journal.contributions_signed_self, collectionFrom, List.getLast?_concat,
        List.map_append, hcollection]
      rfl
    · rw [hothers id hne, Journal.contributions_signed_of_ne hne, List.append_nil, h.stored]
  · rw [Journal.contributions_append]
    by_cases hne : id = txid
    · subst hne
      rw [Journal.contributions_signed_self]
      exact h.signers_snoc hnew
    · rw [Journal.contributions_signed_of_ne hne, List.append_nil]
      exact h.signers id
  · rw [Journal.drafts_append, hdrafts, List.append_nil]
    by_cases hne : id = txid
    · rw [hne, ← hid]
      exact List.mem_map_of_mem hmade
    · rw [Journal.contributions_append, Journal.contributions_signed_of_ne hne,
        List.append_nil] at hsome
      exact h.drafted id hsome
  · rw [Journal.drafts_append, hdrafts, List.append_nil] at hmem
    have hbefore : s.lookup (.redeem chain key) = some other := by
      rcases hcall.redeem_origin hother with hbefore | ⟨-, hnil, -⟩
      · exact hbefore
      · cases hnil
    exact h.progress_contributed htraced horderly hfound hbrings hbefore hdistinct hmem

end Contributed

/-- A call adds what was contributed to what is stored. -/
theorem call (h : Collected chain key j s) (htraced : Traced chain key j s)
    (horderly : Orderly chain key j s) (hcall : Call chain key s t k) (hj : (j ++ k).Unambiguous) :
    Collected chain key (j ++ k) t := by
  cases hcall with
  | quiet hwrites hspared =>
    refine h.kept htraced (.quiet hwrites hspared) (fun _ => rfl) (fun txid => ?_) nofun
    exact hwrites.lookup_eq fun hP => hspared (.multisig txid) hP trivial
  | registered hparsed hfits hnew hchanged =>
    refine h.kept htraced (.registered hparsed hfits hnew hchanged) (fun _ => rfl) (fun txid => ?_)
      nofun
    exact hchanged.lookup_of_ne (by simp)
  | deposited hdeposits =>
    refine h.kept htraced (.deposited hdeposits) (fun _ => rfl) (fun txid => ?_) nofun
    exact hdeposits.changed.lookup_of_ne (by simp)
  | drafted hdrafts =>
    refine h.kept htraced (.drafted hdrafts) (fun _ => rfl) (fun txid => ?_) fun made hmade => ?_
    · exact hdrafts.changed.lookup_of_ne (by simp)
    · obtain rfl := List.mem_singleton.mp hmade
      exact horderly.fresh htraced hdrafts hj
  | @collected signer txid signatures draft record tx collection hfound hfewer hfits hchanged =>
    obtain ⟨-, hkey⟩ := htraced.named txid draft hfound.waiting
    obtain ⟨hcollection, -⟩ := h.opened hkey hfound
    have hcount := h.signerCount_eq hkey hfound
    refine h.contributed htraced horderly (.collected hfound hfewer hfits hchanged) hfound ?_
      (fun id hne => hchanged.lookup_of_ne (by simpa using hne)) fun _ => ?_
    · rw [hchanged.lookup_store hfits, hcollection]
      rfl
    · have hsigners : collection.signerCount =
          ((j.contributions txid).map Contribution.signer ++ [signer]).length := by
        rw [hcount, List.length_append, List.length_map, List.length_singleton]
      rw [hsigners] at hfewer ⊢
      exact .more hfewer
  | @closed signer txid signatures draft record tx signed collection hfound henough hcloses =>
    obtain ⟨rfl, -⟩ := htraced.named txid draft hfound.waiting
    exact h.contributed htraced horderly (.closed hfound henough hcloses) hfound
      hcloses.collection_self (fun id hne => hcloses.collection_of_ne hne)
      (h.brings_last htraced hfound henough hcloses)

end Collected

/-- After calls on an empty store what is stored for payments is made of their contributions, as
long as the journal tells transactions apart. -/
theorem Calls.collected {module : Bytes} {faults : Nat → StoreOp → Option StoreFault} {clock : Nat}
    (h : Calls chain key ⟨module, .empty, faults, clock⟩ j s) (hj : j.Unambiguous) :
    Collected chain key j s := by
  induction h with
  | none => exact .empty module faults clock
  | more hbefore hcall ih =>
    have hearlier := hj.of_append
    obtain ⟨htraced, horderly⟩ := hbefore.orderly hearlier
    exact (ih hearlier).call htraced horderly hcall hj

/-! ## Closed collections -/

/-- Nothing is added to a closed collection. -/
theorem addSignature_of_finalized {collection : SignatureCollection} {txid : Hash}
    (hfound : s.lookup (.multisig txid) = some collection) (hfinal : collection.isFinalized = true)
    (signer : Custodian) (signatures : List Bytes) :
    (addSignature chain signer txid signatures s).1 = .error (match s.faults s.clock .get with
      | none => .alreadyFinalized txid
      | some fault => .storage (.database fault)) := by
  have hload := State.load?_of_lookup hfound
  rcases hr : State.load? (α := SignatureCollection) (.multisig txid) s with ⟨result, t⟩
  rw [hr] at hload
  cases hfault : s.faults s.clock .get with
  | none =>
    rw [hfault] at hload
    obtain rfl : result = .ok (some collection) := hload
    have hopen : openCollection signer txid s = (.error (.alreadyFinalized txid), t) := by
      rw [openCollection, collection?, Transition.bind_run]
      simp only [Transition.mapError, hr, hfinal]
      rfl
    rw [addSignature, Transition.bind_run, hopen]
  | some fault =>
    rw [hfault] at hload
    obtain rfl : result = .error (.database fault) := hload
    have hopen : openCollection signer txid s = (.error (.storage (.database fault)), t) := by
      rw [openCollection, collection?, Transition.bind_run]
      simp only [Transition.mapError, hr]
    rw [addSignature, Transition.bind_run, hopen]

end Custody

end BridgeKernel
