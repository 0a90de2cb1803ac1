import BridgeKernel.Proofs.Header.Rules

/-!
# The sections of extra-data

Vanity and seal are cut off at the two ends of extra-data, and what is left between them is read as
addresses. These cuts agree at every length: extra-data with room for vanity and seal is put
together again from what they give, and what was put together gives its parts. So the check of
extra-data accepts exactly what is built from three parts, and the validators whose bytes it has
looked at are those that are read later.
-/

namespace BridgeKernel

/-! ## Strings of one length -/

namespace FixedBytes

variable {n : Nat}

theorem length_flatMap (xs : List (FixedBytes n)) :
    (xs.flatMap toBytes).length = n * xs.length := by
  induction xs with
  | nil => rfl
  | cons x xs ih =>
    rw [List.flatMap_cons, List.length_append, x.length_toBytes, ih, List.length_cons,
      Nat.mul_succ, Nat.add_comm]

/-- Bytes are put together from strings of one length when their number is a multiple of it. -/
theorem exists_flatMap_iff {bytes : Bytes} :
    (∃ xs : List (FixedBytes n), xs.flatMap toBytes = bytes) ↔ n ∣ bytes.length := by
  constructor
  · rintro ⟨xs, rfl⟩
    exact ⟨xs.length, length_flatMap xs⟩
  · rintro ⟨count, h⟩
    induction count generalizing bytes with
    | zero => exact ⟨[], (List.length_eq_zero_iff.mp h).symm⟩
    | succ count ih =>
      have hfirst : (bytes.take n).length = n := by
        rw [List.length_take, h, Nat.mul_succ]
        omega
      have hrest : (bytes.drop n).length = n * count := by
        rw [List.length_drop, h, Nat.mul_succ, Nat.add_sub_cancel]
      obtain ⟨xs, hxs⟩ := ih hrest
      exact ⟨⟨bytes.take n, hfirst⟩ :: xs, by rw [List.flatMap_cons, hxs, List.take_append_drop]⟩

theorem flatMap_eq_nil_iff (hn : 0 < n) {xs : List (FixedBytes n)} :
    xs.flatMap toBytes = [] ↔ xs = [] := by
  rw [← List.length_eq_zero_iff, length_flatMap, Nat.mul_eq_zero, List.length_eq_zero_iff]
  exact or_iff_right (Nat.ne_of_gt hn)

/-- The pieces of what is put together from strings of one length are these strings. -/
theorem wholePieces_flatMap (hn : 0 < n) (xs : List (FixedBytes n)) :
    Bytes.wholePieces n (xs.flatMap toBytes) = xs.map toBytes := by
  rw [Bytes.wholePieces, length_flatMap, Nat.mul_div_cancel_left _ hn]
  induction xs with
  | nil => rfl
  | cons x xs ih =>
    rw [List.length_cons, List.flatMap_cons, Bytes.pieces, List.take_left' x.length_toBytes,
      List.drop_left' x.length_toBytes, ih, List.map_cons]

theorem mapM_ofBytes?_map (xs : List (FixedBytes n)) :
    (xs.map toBytes).mapM (ofBytes? n) = some xs := by
  induction xs with
  | nil => rfl
  | cons x xs ih => simp [ih]

end FixedBytes

namespace Header

variable {h : Header}

/-! ## Sections of a header -/

theorem hasSeal_iff : h.hasSeal = true ↔ vanityLength + sealLength ≤ h.extra.length := by
  rw [hasSeal, decide_eq_true_iff]

/-- The validators that are read are those whose addresses stand between vanity and seal. -/
theorem validators?_eq_some_iff {validators : List Address} :
    h.validators? = some validators ↔
      h.validatorBytes = validators.flatMap FixedBytes.toBytes := by
  have hread {listed : List Address}
      (hlisted : h.validatorBytes = listed.flatMap FixedBytes.toBytes) :
      h.validators? = some listed := by
    have hwhole : h.validatorBytes.length % validatorLength = 0 := by
      rw [hlisted, FixedBytes.length_flatMap]
      exact Nat.mul_mod_right _ _
    have hpieces := FixedBytes.wholePieces_flatMap (by decide) listed
    rw [validators?, if_pos hwhole, hlisted, validatorLength, hpieces, FixedBytes.mapM_ofBytes?_map]
  refine ⟨fun hsome => ?_, hread⟩
  have hwhole : h.validatorBytes.length % validatorLength = 0 := by
    by_contra hpartial
    rw [validators?, if_neg hpartial] at hsome
    cases hsome
  have hdvd : 20 ∣ h.validatorBytes.length := Nat.dvd_of_mod_eq_zero hwhole
  obtain ⟨listed, hlisted⟩ := FixedBytes.exists_flatMap_iff.mpr hdvd
  rw [hread hlisted.symm, Option.some.injEq] at hsome
  rw [← hsome, hlisted]

/-- Validators are read exactly when whole addresses stand between vanity and seal. -/
theorem exists_validators_iff :
    (∃ validators, h.validators? = some validators) ↔
      validatorLength ∣ h.validatorBytes.length := by
  simp only [validators?_eq_some_iff, eq_comm (a := h.validatorBytes)]
  exact FixedBytes.exists_flatMap_iff

theorem validatorBytes_eq_nil_iff {validators : List Address}
    (hlisted : h.validators? = some validators) : h.validatorBytes = [] ↔ validators = [] := by
  rw [validators?_eq_some_iff.mp hlisted, FixedBytes.flatMap_eq_nil_iff (by decide)]

theorem seal?_eq_some_iff {sealBytes : FixedBytes 65} :
    h.seal? = some sealBytes ↔
      h.hasSeal = true ∧ sealBytes.toBytes = h.extra.drop (h.extra.length - sealLength) := by
  unfold seal?
  split
  · next hseal => rw [FixedBytes.ofBytes?_eq_some_iff, and_iff_right hseal]
  · next hseal => simp [hseal]

/-- Extra-data with room for vanity and seal is made of its sections. -/
theorem extra_eq_sections (hseal : h.hasSeal = true) :
    h.extra = h.extra.take vanityLength ++ h.validatorBytes ++
      h.extra.drop (h.extra.length - sealLength) := by
  have hroom := hasSeal_iff.mp hseal
  have hfront : (h.extra.take (h.extra.length - sealLength)).take vanityLength =
      h.extra.take vanityLength := by
    rw [List.take_take, Nat.min_eq_left (by omega)]
  rw [validatorBytes, if_pos hseal, ← hfront, List.take_append_drop, List.take_append_drop]

/-- Three parts from which extra-data is built. -/
structure ExtraParts where
  /-- What the producer put in front. -/
  vanity : FixedBytes 32
  /-- The listed validators. -/
  validators : List Address
  /-- The seal. -/
  sealBytes : FixedBytes 65

namespace ExtraParts

variable {parts : ExtraParts}

/-- Extra-data built from its parts. -/
def bytes (parts : ExtraParts) : Bytes :=
  buildExtra parts.vanity parts.validators parts.sealBytes

/-- What stands in front of the seal. -/
def front (parts : ExtraParts) : Bytes :=
  parts.vanity.toBytes ++ parts.validators.flatMap FixedBytes.toBytes

theorem bytes_eq (parts : ExtraParts) : parts.bytes = parts.front ++ parts.sealBytes.toBytes := rfl

theorem length_front (parts : ExtraParts) :
    parts.front.length = vanityLength + validatorLength * parts.validators.length := by
  rw [front, List.length_append, FixedBytes.length_toBytes, FixedBytes.length_flatMap]
  rfl

section Built

variable (hbuilt : h.extra = parts.bytes)
include hbuilt

/-- The seal begins behind vanity and validators. -/
theorem length_sub_seal : h.extra.length - sealLength = parts.front.length := by
  rw [hbuilt, bytes_eq, List.length_append, parts.sealBytes.length_toBytes, sealLength,
    Nat.add_sub_cancel]

theorem hasSeal_of_built : h.hasSeal = true := by
  rw [hasSeal_iff, hbuilt, bytes_eq, List.length_append, length_front, FixedBytes.length_toBytes]
  exact Nat.add_le_add_right (Nat.le_add_right _ _) _

theorem unsealedExtra_of_built : h.unsealedExtra = parts.front := by
  rw [unsealedExtra, length_sub_seal hbuilt, hbuilt, bytes_eq, List.take_left]

/-- The parts are the sections that are cut out again. -/
theorem sections_of_built :
    h.extra.take vanityLength = parts.vanity.toBytes ∧
      h.validators? = some parts.validators ∧ h.seal? = some parts.sealBytes := by
  have hseal := hasSeal_of_built hbuilt
  refine ⟨?_, ?_, ?_⟩
  · rw [hbuilt, bytes_eq, front, List.append_assoc]
    exact List.take_left' parts.vanity.length_toBytes
  · have hfront := unsealedExtra_of_built hbuilt
    rw [unsealedExtra] at hfront
    rw [validators?_eq_some_iff, validatorBytes, if_pos hseal, hfront, front]
    exact List.drop_left' parts.vanity.length_toBytes
  · refine seal?_eq_some_iff.mpr ⟨hseal, ?_⟩
    rw [length_sub_seal hbuilt, hbuilt, bytes_eq, List.drop_left]

/-- Another seal takes the place of the one in the parts. -/
theorem setSeal_of_built (other : FixedBytes 65) :
    (h.setSeal other).extra = { parts with sealBytes := other }.bytes := by
  have hroom : sealLength ≤ h.extra.length :=
    Nat.le_trans (Nat.le_add_left _ _) (hasSeal_iff.mp (hasSeal_of_built hbuilt))
  rw [setSeal, if_pos hroom, unsealedExtra_of_built hbuilt]
  rfl

end Built

/-- Extra-data with room for vanity and seal is built with the addresses between them. -/
theorem exists_built {validators : List Address} (hseal : h.hasSeal = true)
    (hlisted : h.validators? = some validators) :
    ∃ parts : ExtraParts, parts.validators = validators ∧ h.extra = parts.bytes := by
  have hroom := hasSeal_iff.mp hseal
  have hvanity : (h.extra.take vanityLength).length = 32 :=
    List.length_take_of_le (Nat.le_trans (Nat.le_add_right _ _) hroom)
  have hback : (h.extra.drop (h.extra.length - sealLength)).length = 65 := by
    rw [List.length_drop]
    exact Nat.sub_sub_self (Nat.le_trans (Nat.le_add_left _ _) hroom)
  refine ⟨⟨⟨_, hvanity⟩, validators, ⟨_, hback⟩⟩, rfl, ?_⟩
  rw [bytes, buildExtra, ← validators?_eq_some_iff.mp hlisted]
  exact extra_eq_sections hseal

/-- Extra-data is built from one choice of parts. -/
theorem eq_of_built {parts' : ExtraParts} (hbuilt : h.extra = parts.bytes)
    (hbuilt' : h.extra = parts'.bytes) : parts' = parts := by
  obtain ⟨hvanity, hvalidators, hsealed⟩ := sections_of_built hbuilt
  obtain ⟨hvanity', hvalidators', hsealed'⟩ := sections_of_built hbuilt'
  cases parts
  cases parts'
  cases FixedBytes.ext (hvanity.symm.trans hvanity')
  cases Option.some.inj (hvalidators.symm.trans hvalidators')
  cases Option.some.inj (hsealed.symm.trans hsealed')
  rfl

end ExtraParts

/-! ## Checked extra-data -/

/-- Extra-data has the layout of a boundary, or that of other headers, when it is built from parts
that list validators there and only there. -/
theorem extraLayout_iff {boundary : Bool} : h.ExtraLayout boundary ↔
    ∃ parts : ExtraParts, (boundary = true ↔ parts.validators ≠ []) ∧ h.extra = parts.bytes := by
  constructor
  · intro hlayout
    have hseal : h.hasSeal = true := hasSeal_iff.mpr hlayout.room
    have hwhole : validatorLength ∣ h.validatorBytes.length := by
      cases boundary with
      | true => exact (hlayout.listed rfl).2
      | false =>
        rw [hlayout.unlisted rfl]
        exact Nat.dvd_zero _
    obtain ⟨validators, hlisted⟩ := exists_validators_iff.mpr hwhole
    obtain ⟨parts, rfl, hbuilt⟩ := ExtraParts.exists_built hseal hlisted
    refine ⟨parts, ?_, hbuilt⟩
    rw [Ne, ← validatorBytes_eq_nil_iff hlisted]
    cases boundary with
    | true => exact iff_of_true rfl (hlayout.listed rfl).1
    | false => exact iff_of_false nofun fun hsome => hsome (hlayout.unlisted rfl)
  · rintro ⟨parts, hboundary, hbuilt⟩
    have hlisted := (parts.sections_of_built hbuilt).2.1
    rw [Ne, ← validatorBytes_eq_nil_iff hlisted] at hboundary
    refine ⟨hasSeal_iff.mp (parts.hasSeal_of_built hbuilt), fun htrue => ?_, ?_⟩
    · exact ⟨hboundary.mp htrue, exists_validators_iff.mp ⟨parts.validators, hlisted⟩⟩
    · rintro rfl
      by_contra hsome
      cases hboundary.mpr hsome

/-- A boundary lists a validator. -/
theorem ExtraLayout.exists_validators (hlayout : h.ExtraLayout true) :
    ∃ validators, h.validators? = some validators ∧ validators ≠ [] := by
  obtain ⟨parts, hboundary, hbuilt⟩ := extraLayout_iff.mp hlayout
  exact ⟨parts.validators, (parts.sections_of_built hbuilt).2.1, hboundary.mp rfl⟩

/-- There are no more listed validators than bytes of extra-data. -/
theorem length_validators_le (h : Header) :
    (h.validators?.getD []).length ≤ h.extra.length := by
  have hbytes : h.validatorBytes.length ≤ h.extra.length := by
    unfold validatorBytes
    split
    · rw [List.length_drop, List.length_take]
      omega
    · exact Nat.zero_le _
  cases hlisted : h.validators? with
  | none => exact Nat.zero_le _
  | some validators =>
    rw [validators?_eq_some_iff.mp hlisted, FixedBytes.length_flatMap] at hbytes
    rw [Option.getD_some]
    omega

/-- The check of extra-data accepts exactly what is built from a vanity, a list of addresses and a
seal, where the list is empty away from a boundary and nowhere else. There is one choice of these
parts for extra-data, the listed validators and the seal are read back as they were put in, and
another seal is set without touching the rest. -/
theorem checked_extra_built (h : Header) (boundary : Bool) :
    (h.checkExtra boundary = .ok () ↔
        ∃ parts : ExtraParts, (boundary = true ↔ parts.validators ≠ []) ∧
          h.extra = parts.bytes) ∧
      ∀ parts : ExtraParts, h.extra = parts.bytes →
        h.validators? = some parts.validators ∧ h.seal? = some parts.sealBytes ∧
          (∀ parts' : ExtraParts, h.extra = parts'.bytes → parts' = parts) ∧
            ∀ other, (h.setSeal other).extra = { parts with sealBytes := other }.bytes := by
  refine ⟨checkExtra_ok_iff.trans extraLayout_iff, fun parts hbuilt => ?_⟩
  obtain ⟨-, hvalidators, hsealed⟩ := parts.sections_of_built hbuilt
  exact ⟨hvalidators, hsealed, fun _ hother => ExtraParts.eq_of_built hbuilt hother,
    parts.setSeal_of_built hbuilt⟩

/-- Extra-data that lists two validators. -/
def pairParts : ExtraParts :=
  ⟨.zero 32, [⟨List.replicate 20 2, rfl⟩, ⟨List.replicate 20 3, rfl⟩], ⟨List.replicate 65 9, rfl⟩⟩

/-- A header with two validators passes at a boundary, and they are read from it. -/
theorem pair_read_back :
    { blank with extra := pairParts.bytes }.checkExtra true = .ok () ∧
      { blank with extra := pairParts.bytes }.validators? = some pairParts.validators ∧
        { blank with extra := pairParts.bytes }.seal? = some pairParts.sealBytes := by
  obtain ⟨hcheck, hread⟩ := checked_extra_built { blank with extra := pairParts.bytes } true
  obtain ⟨hvalidators, hsealed, -, -⟩ := hread pairParts rfl
  exact ⟨hcheck.mpr ⟨pairParts, by decide, rfl⟩, hvalidators, hsealed⟩

end Header

end BridgeKernel
