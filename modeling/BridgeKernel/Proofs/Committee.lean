import BridgeKernel.Committee.Store
import BridgeKernel.Proofs.Checks
import BridgeKernel.Proofs.Curve
import BridgeKernel.Proofs.Store.Steps

/-!
# Who has signed a committee's message

A committee's keys are told apart by the bytes that they were read from, and a witness by the places
of its keys. So the signers of an accepted message are as many different keys as the threshold asks
for. They are as many different points exactly when they stay apart once the compact tag is read as
tag 2, and in any case at least half as many.
-/

namespace BridgeKernel

/-! ## Keys and their places -/

namespace Committee

/-- The key at a place, if there is one and it can be read. -/
def keyAt? (c : Committee) (place : UInt32) : Option PublicKey :=
  c.publicKeys[place.toNat]?.bind fun bytes => (PublicKey.ofBytes bytes).toOption

/-- A key has the bytes that stand at its place. -/
theorem mem_of_keyAt? {c : Committee} {place : UInt32} {key : PublicKey}
    (h : c.keyAt? place = some key) : key.bytes.toBytes ∈ c.publicKeys := by
  obtain ⟨bytes, hbytes, hkey⟩ := Option.bind_eq_some_iff.mp h
  cases hread : PublicKey.ofBytes bytes with
  | error cause =>
    rw [hread] at hkey
    cases hkey
  | ok read =>
    rw [hread] at hkey
    cases hkey
    rw [PublicKey.ofBytes_ok hread]
    exact List.mem_of_getElem? hbytes

/-- Keys that were read stand for their bytes one by one, and they are different if those read
before them are. -/
theorem readKeys_ok {raws : List Bytes} {known keys : List PublicKey}
    (h : readKeys raws known = .ok keys) (hknown : known.Nodup) :
    keys.Nodup ∧ ∃ more, keys = known ++ more ∧ raws.map PublicKey.ofBytes = more.map .ok := by
  induction raws generalizing known with
  | nil =>
    cases h
    exact ⟨hknown, [], (List.append_nil keys).symm, rfl⟩
  | cons bytes raws ih =>
    unfold readKeys at h
    cases hkey : PublicKey.ofBytes bytes with
    | error cause =>
      rw [hkey] at h
      cases h
    | ok key =>
      rw [hkey] at h
      dsimp only at h
      split at h
      · cases h
      · next hnew =>
        have hnext : (known ++ [key]).Nodup := by
          rw [← List.concat_eq_append]
          exact hknown.concat fun hmem => hnew (List.contains_iff_mem.mpr hmem)
        obtain ⟨hnodup, more, rfl, hmore⟩ := ih h hnext
        refine ⟨hnodup, key :: more, List.append_assoc known [key] more, ?_⟩
        rw [List.map_cons, List.map_cons, hkey, hmore]

/-- The keys of a usable committee are different and stand at their places. -/
theorem parseKeys_ok {c : Committee} {keys : List PublicKey} (h : c.parseKeys = .ok keys) :
    keys.Nodup ∧ ∀ place, c.keyAt? place = keys[place.toNat]? := by
  unfold parseKeys at h
  split at h
  · cases h
  split at h
  · cases h
  obtain ⟨hnodup, more, rfl, hmore⟩ := readKeys_ok h List.nodup_nil
  refine ⟨hnodup, fun place => ?_⟩
  have hplace : c.keyAt? place =
      ((c.publicKeys.map PublicKey.ofBytes)[place.toNat]?).bind Except.toOption := by
    rw [List.getElem?_map, keyAt?]
    cases c.publicKeys[place.toNat]? <;> rfl
  rw [hplace, hmore, List.getElem?_map]
  cases keys[place.toNat]? <;> rfl

end Committee

/-- A key accepts 64 bytes as a signature of a digest. -/
def PublicKey.Accepts (key : PublicKey) (digest : Hash) (bytes : Bytes) : Prop :=
  ∃ signature : FixedBytes 64, signature.toBytes = bytes ∧ key.verify digest signature = .ok ()

/-- A key's signature of a digest in an entry that names the place of the key. -/
structure WitnessEntry.Signs (entry : WitnessEntry) (c : Committee) (digest : Hash)
    (key : PublicKey) : Prop where
  /-- The key stands at the place. -/
  place : c.keyAt? entry.keyIndex = some key
  /-- It accepts the signature. -/
  accepted : key.Accepts digest entry.signature

/-! ## Counting -/

/-- An entry that passes its check is a signature by a key that has not signed yet. -/
theorem WitnessEntry.check_ok {keys : List PublicKey} {digest : Hash} {signed : List UInt32}
    {entry : WitnessEntry} (h : entry.check keys digest signed = .ok ()) :
    entry.keyIndex ∉ signed ∧ ∃ key, keys[entry.keyIndex.toNat]? = some key ∧
      key.Accepts digest entry.signature := by
  unfold check at h
  split at h
  · cases h
  · next key hkey =>
    split at h
    · cases h
    · next hnew =>
      split at h
      · cases h
      · next signature hsignature =>
        split at h
        · next hverify =>
          exact ⟨fun hmem => hnew (List.contains_iff_mem.mpr hmem), key, hkey, signature,
            FixedBytes.ofBytes?_eq_some_iff.mp hsignature, hverify⟩
        · cases h

/-- Every counted entry is a signature, no place is named twice, and the count is their number. -/
theorem countSigners_go_ok {keys : List PublicKey} {digest : Hash} {witness : List WitnessEntry}
    {signed : List UInt32} {count : Nat}
    (h : countSigners.go keys digest witness signed = .ok count) (hsigned : signed.Nodup) :
    (signed ++ witness.map WitnessEntry.keyIndex).Nodup ∧
      count = signed.length + witness.length ∧
      ∀ entry ∈ witness, ∃ key, keys[entry.keyIndex.toNat]? = some key ∧
        key.Accepts digest entry.signature := by
  induction witness generalizing signed with
  | nil =>
    cases h
    exact ⟨by rwa [List.map_nil, List.append_nil], rfl, nofun⟩
  | cons entry witness ih =>
    unfold countSigners.go at h
    split at h
    · cases h
    · next hcheck =>
      obtain ⟨hnew, hsigns⟩ := WitnessEntry.check_ok hcheck
      have hnext : (signed ++ [entry.keyIndex]).Nodup := by
        rw [← List.concat_eq_append]
        exact hsigned.concat hnew
      obtain ⟨hnodup, hcount, hrest⟩ := ih h hnext
      rw [List.append_assoc] at hnodup
      rw [List.length_append, List.length_singleton] at hcount
      refine ⟨hnodup, ?_, fun e he => ?_⟩
      · rw [hcount, List.length_cons]
        omega
      · rcases List.mem_cons.mp he with rfl | he
        · exact hsigns
        · exact hrest e he

namespace Committee

/-- What a witness is made of that a committee's check accepts. -/
structure Witnessed (c : Committee) (m : CommitteeMessage) : Prop where
  /-- Every entry is a signature of the body. -/
  signed : ∀ entry ∈ m.witness, ∃ key, entry.Signs c (Sha256.hash (Record.write m.body)) key
  /-- No two entries name one place. -/
  places : (m.witness.map WitnessEntry.keyIndex).Nodup
  /-- No two places have one key. -/
  keys : ∀ i j key, c.keyAt? i = some key → c.keyAt? j = some key → i = j
  /-- There are as many entries as the threshold asks for. -/
  enough : c.threshold.toNat ≤ m.witness.length

end Committee

theorem MessageBody.digest_ok {b : MessageBody} {digest : Hash} (h : b.digest = .ok digest) :
    digest = Sha256.hash (Record.write b) := by
  unfold MessageBody.digest preimage at h
  split at h
  · cases h
    rfl
  · cases h

theorem CommitteeStore.checkWitness_ok {chain : ChainId} {c : Committee} {m : CommitteeMessage}
    (h : checkWitness chain c m = .ok ()) : m.body.chainId = chain ∧ c.Witnessed m := by
  unfold checkWitness at h
  obtain ⟨hchain, h⟩ := Except.guard_ok_iff.mp h
  obtain ⟨keys, hkeys, h⟩ := Except.bind_ok h
  obtain ⟨digest, hdigest, h⟩ := Except.bind_ok h
  obtain ⟨count, hcount, h⟩ := Except.bind_ok h
  have henough := Except.last_ok_iff.mp h
  obtain ⟨hnodup, hplaces⟩ := Committee.parseKeys_ok (Except.mapError_ok hkeys)
  obtain rfl := MessageBody.digest_ok hdigest
  obtain ⟨hdistinct, rfl, hsigned⟩ := countSigners_go_ok hcount List.nodup_nil
  refine ⟨not_not.mp hchain, fun entry hentry => ?_, hdistinct, fun i j key hi hj => ?_, ?_⟩
  · obtain ⟨key, hkey, haccepted⟩ := hsigned entry hentry
    exact ⟨key, (hplaces _).trans hkey, haccepted⟩
  · rw [hplaces] at hi hj
    have hlength := (List.getElem?_eq_some_iff.mp hi).1
    exact UInt32.toNat_inj.mp (List.getElem?_inj hlength hnodup |>.mp (hi.trans hj.symm))
  · rw [List.length_nil, Nat.zero_add] at henough
    omega

/-- A verified message is one for its chain that the chain's committee has witnessed. -/
theorem CommitteeStore.verified_ok {chain : ChainId} {bytes : Bytes} {s t : State} {c : Committee}
    {m : CommitteeMessage} (h : verified chain bytes s = (.ok (c, m), t)) :
    s.lookup (.committee chain) = some c ∧ CommitteeMessage.decode bytes = .ok m ∧
      m.body.chainId = chain ∧ c.Witnessed m := by
  obtain ⟨found, v, hfound, h⟩ := Transition.bind_ok h
  obtain ⟨rfl, -⟩ := State.load?_ok (Transition.mapError_ok hfound)
  cases hc : s.lookup (α := Committee) (.committee chain) with
  | none =>
    rw [hc] at h
    exact (Transition.throw_ok h).elim
  | some committee =>
    rw [hc] at h
    obtain ⟨message, w, hdecode, h⟩ := Transition.bind_ok h
    obtain ⟨hdecode, -⟩ := Transition.ofExcept_ok hdecode
    obtain ⟨_, x, hcheck, h⟩ := Transition.bind_ok h
    obtain ⟨hcheck, -⟩ := Transition.ofExcept_ok hcheck
    cases (Transition.pure_ok h).1
    exact ⟨rfl, hdecode, checkWitness_ok hcheck⟩

/-- An accepted message is one that the chain's committee has witnessed. -/
theorem CommitteeStore.verifyMessage_ok {chain : ChainId} {bytes : Bytes} {s t : State}
    {body : MessageBody} (h : verifyMessage chain bytes s = (.ok body, t)) :
    ∃ (c : Committee) (m : CommitteeMessage), s.lookup (.committee chain) = some c ∧
      CommitteeMessage.decode bytes = .ok m ∧ m.body = body ∧ c.Witnessed m := by
  obtain ⟨⟨c, m⟩, u, hverified, h⟩ := Transition.bind_ok h
  obtain ⟨rfl, -⟩ := Transition.pure_ok h
  obtain ⟨hlookup, hdecode, -, hwitnessed⟩ := verified_ok hverified
  exact ⟨c, m, hlookup, hdecode, rfl, hwitnessed⟩

/-! ## Signers and their points -/

namespace Committee

variable {c : Committee} {m : CommitteeMessage} {witness : List WitnessEntry}

/-- The entries of a witness with the keys at their places. -/
def signers (c : Committee) (witness : List WitnessEntry) : List (WitnessEntry × PublicKey) :=
  witness.filterMap fun entry => (c.keyAt? entry.keyIndex).map fun key => (entry, key)

/-- The number of signers, where keys with the same canonical bytes count once. -/
def differentSigners (c : Committee) (witness : List WitnessEntry) : Nat :=
  ((c.signers witness).map fun p => p.2.canonical).dedup.length

/-- Enough different points have signed: some part of the witness, as long as the threshold asks
for, consists of signatures of the body's digest by keys of which no two spell one point. -/
def EnoughPoints (c : Committee) (m : CommitteeMessage) : Prop :=
  ∃ signed : List (WitnessEntry × PublicKey), (signed.map Prod.fst).Sublist m.witness ∧
    c.threshold.toNat ≤ signed.length ∧
    (∀ p ∈ signed, p.1.Signs c (Sha256.hash (Record.write m.body)) p.2) ∧
    (signed.map fun p => p.2.point).Nodup

theorem mem_signers {p : WitnessEntry × PublicKey} :
    p ∈ c.signers witness ↔ p.1 ∈ witness ∧ c.keyAt? p.1.keyIndex = some p.2 := by
  rw [signers, List.mem_filterMap]
  constructor
  · rintro ⟨entry, hentry, hp⟩
    obtain ⟨key, hkey, rfl⟩ := Option.map_eq_some_iff.mp hp
    exact ⟨hentry, hkey⟩
  · rintro ⟨hentry, hkey⟩
    exact ⟨p.1, hentry, Option.map_eq_some_iff.mpr ⟨p.2, hkey, rfl⟩⟩

theorem signers_sublist (c : Committee) (witness : List WitnessEntry) :
    ((c.signers witness).map Prod.fst).Sublist witness := by
  induction witness with
  | nil => exact .slnil
  | cons entry witness ih =>
    rw [signers, List.filterMap_cons]
    cases c.keyAt? entry.keyIndex with
    | none => exact .cons entry ih
    | some key => exact .cons_cons entry ih

theorem length_signers (h : ∀ entry ∈ witness, ∃ key, c.keyAt? entry.keyIndex = some key) :
    (c.signers witness).length = witness.length := by
  induction witness with
  | nil => rfl
  | cons entry witness ih =>
    obtain ⟨key, hkey⟩ := h entry List.mem_cons_self
    rw [signers, List.filterMap_cons, hkey]
    exact congrArg Nat.succ (ih fun e he => h e (List.mem_cons_of_mem entry he))

theorem keys_signers (c : Committee) (witness : List WitnessEntry) :
    (c.signers witness).map Prod.snd = (witness.map WitnessEntry.keyIndex).filterMap c.keyAt? := by
  rw [signers, List.map_filterMap, List.filterMap_map]
  congr 1
  funext entry
  rw [Option.map_map]
  exact Option.map_id'

/-- Different points are as many as different keys in canonical bytes. -/
theorem length_dedup_points (l : List (WitnessEntry × PublicKey)) :
    (l.map fun p => p.2.point).dedup.length = (l.map fun p => p.2.canonical).dedup.length := by
  rw [List.dedup, List.dedup, List.pwFilter_map, List.pwFilter_map, List.length_map,
    List.length_map]
  congr 2
  funext a b
  exact propext (not_congr PublicKey.point_eq_iff)

/-- Points that have signed are among those of the signers, each at most once. -/
theorem EnoughPoints.le_differentSigners (h : c.EnoughPoints m) :
    c.threshold.toNat ≤ c.differentSigners m.witness := by
  obtain ⟨signed, hpart, hlength, hsigns, hnodup⟩ := h
  rw [differentSigners, ← length_dedup_points]
  have hsubset : (signed.map fun p => p.2.point) ⊆
      (c.signers m.witness).map fun p => p.2.point := by
    intro point hpoint
    obtain ⟨p, hp, rfl⟩ := List.mem_map.mp hpoint
    have hentry : p.1 ∈ m.witness := hpart.subset (List.mem_map_of_mem hp)
    have hsigner : p ∈ c.signers m.witness := mem_signers.mpr ⟨hentry, (hsigns p hp).place⟩
    exact List.mem_map_of_mem hsigner
  have hle := length_le_length_dedup hnodup hsubset
  rw [List.length_map] at hle
  exact Nat.le_trans hlength hle

/-- A key that has signed for an entry is the one at its place. -/
theorem Witnessed.signs (h : c.Witnessed m) {p : WitnessEntry × PublicKey}
    (hp : p ∈ c.signers m.witness) : p.1.Signs c (Sha256.hash (Record.write m.body)) p.2 := by
  obtain ⟨hentry, hkey⟩ := mem_signers.mp hp
  obtain ⟨key, hsigns⟩ := h.signed p.1 hentry
  cases hsigns.place.symm.trans hkey
  exact hsigns

/-- Of the signers with one point the last is taken for it. -/
theorem Witnessed.enoughPoints_of_le (h : c.Witnessed m)
    (hle : c.threshold.toNat ≤ c.differentSigners m.witness) : c.EnoughPoints m := by
  let apart := (c.signers m.witness).pwFilter fun p q => p.2.point ≠ q.2.point
  have hpart : apart.Sublist (c.signers m.witness) := List.pwFilter_sublist _
  have hpoints : (apart.map fun p => p.2.point) =
      ((c.signers m.witness).map fun p => p.2.point).dedup := by
    rw [List.dedup, List.pwFilter_map]
  refine ⟨apart, (hpart.map Prod.fst).trans (signers_sublist c m.witness), ?_,
    fun p hp => h.signs (hpart.subset hp), ?_⟩
  · rwa [← List.length_map fun p : WitnessEntry × PublicKey => p.2.point, hpoints,
      length_dedup_points]
  · rw [hpoints]
    exact List.nodup_dedup _

/-- The keys of the signers are different. -/
theorem Witnessed.keys_nodup (h : c.Witnessed m) :
    ((c.signers m.witness).map Prod.snd).Nodup := by
  rw [keys_signers]
  exact h.places.filterMap fun i j key hi hj => h.keys i j key hi hj

/-- There are as many signers as the threshold asks for. -/
theorem Witnessed.le_length (h : c.Witnessed m) :
    c.threshold.toNat ≤ ((c.signers m.witness).map Prod.snd).length := by
  rw [List.length_map, length_signers fun entry hentry => ?_]
  · exact h.enough
  · obtain ⟨key, hsigns⟩ := h.signed entry hentry
    exact ⟨key, hsigns.place⟩

variable (h : c.Witnessed m)
include h

/-- Without the compact tag the signers are as many points as the threshold asks for. -/
theorem Witnessed.le_differentSigners (hplain : ∀ key ∈ c.publicKeys, key.head? ≠ some 5) :
    c.threshold.toNat ≤ c.differentSigners m.witness := by
  have hkind : ∀ key ∈ (c.signers m.witness).map Prod.snd, key.isCompact = false := by
    intro key hkey
    obtain ⟨p, hp, rfl⟩ := List.mem_map.mp hkey
    exact beq_eq_false_iff_ne.mpr (hplain _ (mem_of_keyAt? (mem_signers.mp hp).2))
  have hle := PublicKey.length_le_of_canonical (List.Sublist.refl _) h.keys_nodup fun a ha b hb =>
    PublicKey.eq_of_canonical ((hkind a ha).trans (hkind b hb).symm)
  rw [List.map_map] at hle
  exact Nat.le_trans h.le_length hle

/-- In any case the signers are at least half as many points as the threshold asks for. -/
theorem Witnessed.le_two_mul : c.threshold.toNat ≤ 2 * c.differentSigners m.witness := by
  have hle := PublicKey.length_le_two_mul h.keys_nodup
  rw [List.map_map] at hle
  exact Nat.le_trans h.le_length hle

end Committee

/-! ## Accepted messages -/

/-- How many points have signed. An accepted message has been signed by as many different points as
the threshold asks for exactly when its signers stay that many once the compact tag is read as tag
2; this is so for every committee without compact keys, and for every committee at least half as
many different points have signed. -/
theorem CommitteeStore.enough_points_iff {chain : ChainId} {bytes : Bytes} {s : State}
    {body : MessageBody} (h : (verifyMessage chain bytes s).1 = .ok body) :
    ∃ (c : Committee) (m : CommitteeMessage), s.lookup (.committee chain) = some c ∧
      CommitteeMessage.decode bytes = .ok m ∧ m.body = body ∧
      (c.EnoughPoints m ↔ c.threshold.toNat ≤ c.differentSigners m.witness) ∧
      ((∀ key ∈ c.publicKeys, key.head? ≠ some 5) → c.EnoughPoints m) ∧
      c.threshold.toNat ≤ 2 * c.differentSigners m.witness := by
  obtain ⟨c, m, hlookup, hdecode, hbody, hwitnessed⟩ := verifyMessage_ok (Prod.ext h rfl)
  refine ⟨c, m, hlookup, hdecode, hbody, ⟨Committee.EnoughPoints.le_differentSigners, fun hle => ?_⟩,
    fun hplain => ?_, hwitnessed.le_two_mul⟩
  · exact hwitnessed.enoughPoints_of_le hle
  · exact hwitnessed.enoughPoints_of_le (hwitnessed.le_differentSigners hplain)

namespace CommitteeStore

/-! ### One key in two spellings -/

/-- The bytes of a key for the generator, with a tag for an even second coordinate. -/
def generatorKey (tag : UInt8) : Bytes :=
  tag :: Bytes.ofNatBE 32 0x79be667ef9dcbbac55a06295ce870b07029bfcdb2dce28d959f2815b16f81798

/-- What is signed. -/
def signedBody : MessageBody := ⟨1, 1, 5, .ofNatBE 32 9, none⟩

/-- The signature of its digest for the generator's secret, under the key at a place. -/
def signedEntry (place : UInt32) : WitnessEntry :=
  ⟨place, Bytes.ofNatBE 64 0xaec02fdeaf5433433875913addb260c7ec9ffc0b477951550360771fd74035f9145dd3ce6d43ee9635b12365e096bf2d0e4e8428ebdef552fba06f7ddff7a644⟩

/-- The store after a committee was installed. -/
def installed (c : Committee) : State := (install 1 c (State.initial [])).2

/-- A committee that has one key in both spellings, and asks for two. -/
def twins : Committee := ⟨0, 2, [generatorKey 2, generatorKey 5]⟩

/-- A message that its one holder has signed twice. -/
def twinMessage : CommitteeMessage := ⟨signedBody, [signedEntry 0, signedEntry 1]⟩

/-- The committee is installed and its message is accepted, and no two points have signed it. -/
theorem twin_key_counts_twice :
    (install 1 twins (State.initial [])).1 = .ok () ∧
      (installed twins).lookup (.committee 1) = some twins ∧
      CommitteeMessage.decode (Record.write twinMessage) = .ok twinMessage ∧
      (verifyMessage 1 (Record.write twinMessage) (installed twins)).1 = .ok signedBody ∧
      ¬ twins.EnoughPoints twinMessage := by
  refine ⟨by decide +kernel, by decide +kernel, by decide +kernel, by decide +kernel, ?_⟩
  intro henough
  have hone : twins.differentSigners twinMessage.witness = 1 := by decide +kernel
  have hle := henough.le_differentSigners
  rw [hone] at hle
  exact absurd hle (by decide)

/-- The message of a committee with one key has one signer. -/
theorem single_key_signs :
    let s := installed ⟨0, 1, [generatorKey 2]⟩
    let bytes := Record.write (⟨signedBody, [signedEntry 0]⟩ : CommitteeMessage)
    (verifyMessage 1 bytes s).1 = .ok signedBody ∧
    ∃ (c : Committee) (m : CommitteeMessage), s.lookup (.committee 1) = some c ∧
      CommitteeMessage.decode bytes = .ok m ∧ m.body = signedBody ∧
      (c.EnoughPoints m ↔ c.threshold.toNat ≤ c.differentSigners m.witness) ∧
      ((∀ key ∈ c.publicKeys, key.head? ≠ some 5) → c.EnoughPoints m) ∧
      c.threshold.toNat ≤ 2 * c.differentSigners m.witness := by
  have hverified : (verifyMessage 1 (Record.write (⟨signedBody, [signedEntry 0]⟩ : CommitteeMessage))
      (installed ⟨0, 1, [generatorKey 2]⟩)).1 = .ok signedBody := by decide +kernel
  exact ⟨hverified, enough_points_iff hverified⟩

end CommitteeStore

end BridgeKernel
