import BridgeKernel.Custody.Redeem
import BridgeKernel.Proofs.Bitcoin.Script
import BridgeKernel.Proofs.Checks
import Mathlib.Data.List.Nodup

/-!
# The template of scripts that name custodians

A script is registered exactly when it states a number of required signatures, pushes that many keys
or more, states their number and checks the signatures. Each push may be spelled in any way. The
standard script pushes each key directly, which makes it the shortest of these scripts.
-/

namespace BridgeKernel.Redeem

open Script

/-- Bytes that are a public key in its short form. -/
def IsKey (key : Bytes) : Prop :=
  key.length = 33 ∧ ∃ point, Bitcoin.readKey key = .ok point

/-- Keys of which some have to sign. -/
structure Multisig where
  /-- The number of signatures. -/
  required : Nat
  /-- The public keys. -/
  keys : List Bytes
  one_le : 1 ≤ required
  required_le : required ≤ keys.length
  few : keys.length ≤ 16
  isKey : ∀ key ∈ keys, IsKey key
  nodup : keys.Nodup

/-- The script around pushes of keys. -/
def layout (required : Nat) (pushes : List Bytes) : Bytes :=
  numberCode required :: (pushes.flatten ++ [numberCode pushes.length, checkMultisig])

namespace Multisig

/-- The script that pushes each key directly, behind its length. -/
def script (m : Multisig) : Bytes :=
  layout m.required (m.keys.map (0x21 :: ·))

/-- A script that pushes the keys, in any spelling of the pushes. -/
def SpelledBy (m : Multisig) (script : Bytes) : Prop :=
  ∃ pushes, List.Forall₂ (fun spelled key => Spells spelled (.push key)) pushes m.keys ∧
    script = layout m.required pushes

/-- What is recorded of the keys under a script. -/
def record (m : Multisig) (script : Bytes) : RedeemRecord where
  redeemKey := keyOf script
  redeemScript := script
  required := UInt64.ofNat m.required
  publicKeys := m.keys
  custodians := m.keys.map Ripemd160.hash160

theorem toNat_required (m : Multisig) (script : Bytes) :
    (m.record script).required.toNat = m.required := by
  have hle : m.required ≤ 16 := Nat.le_trans m.required_le m.few
  exact UInt64.toNat_ofNat_of_lt' (Nat.lt_of_le_of_lt hle (by decide))

end Multisig

/-! ## Reading the template -/

theorem template?_some_iff {found keys : List Script.Instruction} {required total check : UInt8} :
    template? found = some (required, keys, total, check) ↔
      found = .op required :: (keys ++ [.op total, .op check]) := by
  constructor
  · intro h
    unfold template? at h
    split at h
    · next first rest =>
      split at h
      · next last second others hreverse =>
        cases h
        have hrest := congrArg List.reverse hreverse
        rw [List.reverse_reverse] at hrest
        rw [hrest]
        simp
      · cases h
    · cases h
  · rintro rfl
    simp [template?]

/-- The scripts that are read as pushes of keys between three opcodes. -/
theorem instructions?_template_iff {script : Bytes} {keys : List Bytes}
    {required total check : UInt8} :
    instructions? script =
        some (.op required :: (keys.map .push ++ [.op total, .op check])) ↔
      (Spells [required] (.op required) ∧ Spells [total] (.op total) ∧
        Spells [check] (.op check)) ∧
      ∃ pushes, List.Forall₂ (fun spelled key => Spells spelled (.push key)) pushes keys ∧
        script = required :: (pushes.flatten ++ [total, check]) := by
  rw [instructions?_some_iff]
  constructor
  · rintro ⟨pieces, hpieces, rfl⟩
    obtain ⟨first, rest, hfirst, hrest, rfl⟩ := List.forall₂_cons_right_iff.mp hpieces
    have hpushes := List.forall₂_take_append _ _ _ hrest
    have hcodes := List.forall₂_drop_append _ _ _ hrest
    obtain ⟨second, rest', hsecond, hrest', hdrop⟩ := List.forall₂_cons_right_iff.mp hcodes
    obtain ⟨third, nothing, hthird, hnil, rfl⟩ := List.forall₂_cons_right_iff.mp hrest'
    obtain rfl := List.forall₂_nil_right_iff.mp hnil
    obtain ⟨rfl, hfirst⟩ := spells_op_iff.mp hfirst
    obtain ⟨rfl, hsecond⟩ := spells_op_iff.mp hsecond
    obtain ⟨rfl, hthird⟩ := spells_op_iff.mp hthird
    refine ⟨⟨hfirst, hsecond, hthird⟩, _, List.forall₂_map_right_iff.mp hpushes, ?_⟩
    conv_lhs => rw [← List.take_append_drop (keys.map Instruction.push).length rest, hdrop]
    simp
  · rintro ⟨⟨hfirst, hsecond, hthird⟩, pushes, hpushes, rfl⟩
    refine ⟨[required] :: (pushes ++ [[total], [check]]), .cons hfirst ?_, by simp⟩
    exact List.rel_append (List.forall₂_map_right_iff.mpr hpushes)
      (.cons hsecond (.cons hthird .nil))

/-- A key is read from the first push when it is new, and the others are read after it. -/
theorem readKeys_cons_ok_iff {first : Script.Instruction} {pushes : List Script.Instruction}
    {known : List Bytes} {parsed : List (Bytes × Custodian)} :
    readKeys (first :: pushes) known = .ok parsed ↔
      ∃ key rest, first = .push key ∧ IsKey key ∧ key ∉ known ∧
        readKeys pushes (known ++ [key]) = .ok rest ∧
        parsed = (key, Ripemd160.hash160 key) :: rest := by
  constructor
  · intro h
    cases first with
    | op code => cases h
    | push key =>
      unfold readKeys at h
      split at h
      · cases h
      next point hpoint =>
      split at h
      · cases h
      next hlength =>
      split at h
      · cases h
      next hnew =>
      obtain ⟨rest, hrest, h⟩ := Except.bind_ok h
      cases h
      exact ⟨key, rest, rfl, ⟨Decidable.not_not.mp hlength, point, hpoint⟩,
        fun hmem => hnew (List.contains_iff_mem.mpr hmem), hrest, rfl⟩
  · rintro ⟨key, rest, rfl, ⟨hlength, point, hpoint⟩, hnew, hrest, rfl⟩
    rw [readKeys, hpoint]
    dsimp only
    rw [if_neg (not_not.mpr hlength), if_neg fun h => hnew (List.contains_iff_mem.mp h), hrest]
    rfl

/-- The keys that are read from pushes are different, and new to those known before. -/
theorem readKeys_ok_iff {pushes : List Script.Instruction} {known : List Bytes}
    {parsed : List (Bytes × Custodian)} :
    readKeys pushes known = .ok parsed ↔
      ∃ keys : List Bytes, pushes = keys.map .push ∧
        parsed = keys.map (fun key => (key, Ripemd160.hash160 key)) ∧
        (∀ key ∈ keys, IsKey key) ∧ keys.Nodup ∧ ∀ key ∈ keys, key ∉ known := by
  induction pushes generalizing known parsed with
  | nil =>
    constructor
    · rintro ⟨⟩
      exact ⟨[], rfl, rfl, nofun, .nil, nofun⟩
    · rintro ⟨keys, hkeys, rfl, -⟩
      obtain rfl := List.map_eq_nil_iff.mp hkeys.symm
      rfl
  | cons first pushes ih =>
    rw [readKeys_cons_ok_iff]
    constructor
    · rintro ⟨key, rest, rfl, hkey, hnew, hrest, rfl⟩
      obtain ⟨keys, rfl, rfl, hkeys, hnodup, hdisjoint⟩ := ih.mp hrest
      refine ⟨key :: keys, rfl, rfl, List.forall_mem_cons.mpr ⟨hkey, hkeys⟩, ?_, ?_⟩
      · exact .cons (fun hmem => hdisjoint key hmem (by simp)) hnodup
      · refine List.forall_mem_cons.mpr ⟨hnew, fun other hmem hknown => ?_⟩
        exact hdisjoint other hmem (List.mem_append_left _ hknown)
    · rintro ⟨_ | ⟨key, keys⟩, hpushes, rfl, hkeys, hnodup, hdisjoint⟩
      · cases hpushes
      obtain ⟨rfl, rfl⟩ := List.cons.inj hpushes
      obtain ⟨hkey, hkeys⟩ := List.forall_mem_cons.mp hkeys
      obtain ⟨hnew, hdisjoint⟩ := List.forall_mem_cons.mp hdisjoint
      obtain ⟨hfirst, hnodup⟩ := List.nodup_cons.mp hnodup
      refine ⟨key, _, rfl, hkey, hnew, ih.mpr ⟨keys, rfl, rfl, hkeys, hnodup, ?_⟩, rfl⟩
      intro other hmem hknown
      rcases List.mem_append.mp hknown with hknown | hknown
      · exact hdisjoint other hmem hknown
      · obtain rfl := List.mem_singleton.mp hknown
        exact hfirst hmem

/-- What is read from a script names keys that it pushes. -/
theorem spelledBy_of_parse {script : Bytes} {record : RedeemRecord}
    (h : parse script = .ok record) :
    ∃ m : Multisig, m.SpelledBy script ∧ record = m.record script := by
  unfold parse at h
  split at h
  · cases h
  next found hfound =>
  split at h
  · cases h
  next requiredOp pushes totalOp check htemplate =>
  split at h
  · cases h
  next hcheck =>
  split at h
  · cases h
  next required hrequired =>
  split at h
  · cases h
  next total htotal =>
  split at h
  · cases h
  next hcount =>
  split at h
  · cases h
  next henough =>
  split at h
  · cases h
  next parsed hparsed =>
  cases h
  obtain rfl := Decidable.not_not.mp hcheck
  obtain ⟨keys, rfl, rfl, hkeys, hnodup, -⟩ := readKeys_ok_iff.mp hparsed
  obtain rfl := template?_some_iff.mp htemplate
  obtain ⟨-, spelled, hspelled, rfl⟩ := instructions?_template_iff.mp hfound
  obtain ⟨hone, -, rfl⟩ := smallNumber?_some_iff.mp hrequired
  obtain ⟨-, hfew, rfl⟩ := smallNumber?_some_iff.mp htotal
  obtain rfl := (List.length_map _).symm.trans (Decidable.not_not.mp hcount)
  have hle := Nat.le_of_not_lt henough
  refine ⟨⟨required, keys, hone, hle, hfew, hkeys, hnodup⟩, ⟨spelled, hspelled, ?_⟩, ?_⟩
  · rw [layout, hspelled.length_eq]
  · simp [Multisig.record, Function.comp_def]

/-- A script that pushes the keys is read, whatever the spelling of the pushes. -/
theorem Multisig.SpelledBy.parse_eq {m : Multisig} {script : Bytes} (h : m.SpelledBy script) :
    parse script = .ok (m.record script) := by
  obtain ⟨pushes, hpushes, rfl⟩ := h
  have hone := m.one_le
  have hle := m.required_le
  have hfew := m.few
  have hlength := hpushes.length_eq
  have hcheck : Spells [checkMultisig] (.op checkMultisig) := .op (by decide) (by decide)
  have hfound := instructions?_template_iff.mpr
    ⟨⟨spells_numberCode hone (by omega), spells_numberCode (n := pushes.length) (by omega)
      (by omega), hcheck⟩, pushes, hpushes, rfl⟩
  have hparsed : readKeys (m.keys.map .push) [] = .ok _ :=
    readKeys_ok_iff.mpr ⟨m.keys, rfl, rfl, m.isKey, m.nodup, fun _ _ => List.not_mem_nil⟩
  rw [parse, layout, hfound]
  dsimp only
  rw [template?_some_iff.mpr rfl]
  dsimp only
  rw [if_neg (not_not.mpr rfl), smallNumber?_some_iff.mpr ⟨hone, by omega, rfl⟩,
    smallNumber?_some_iff.mpr ⟨by omega, by omega, rfl⟩]
  dsimp only
  rw [if_neg (not_not.mpr (by rw [List.length_map, hlength])), if_neg (by omega), hparsed]
  simp [Multisig.record, Function.comp_def]

/-- A script is registered exactly when it pushes keys of which some have to sign. -/
theorem parse_ok_iff {script : Bytes} {record : RedeemRecord} :
    parse script = .ok record ↔
      ∃ m : Multisig, m.SpelledBy script ∧ record = m.record script := by
  refine ⟨spelledBy_of_parse, ?_⟩
  rintro ⟨m, hspelled, rfl⟩
  exact hspelled.parse_eq

/-! ## Lengths -/

/-- Short keys take up between one and five bytes more than they have, each, and one more exactly
when they are all pushed directly. -/
theorem length_of_pushes {pushes keys : List Bytes}
    (hpushes : List.Forall₂ (fun spelled key => Spells spelled (.push key)) pushes keys)
    (hkeys : ∀ key ∈ keys, IsKey key) :
    34 * keys.length ≤ pushes.flatten.length ∧ pushes.flatten.length ≤ 38 * keys.length ∧
      (pushes.flatten.length = 34 * keys.length ↔ pushes = keys.map (0x21 :: ·)) := by
  induction hpushes with
  | nil => exact ⟨Nat.le_refl _, Nat.le_refl _, fun _ => rfl, fun _ => rfl⟩
  | @cons spelled key pushes keys hspelled hpushes ih =>
    obtain ⟨⟨hlength, -⟩, hkeys⟩ := List.forall_mem_cons.mp hkeys
    obtain ⟨hleast, hmost, hdirect⟩ := ih hkeys
    have hpush : push key = 0x21 :: key := by
      rw [push, if_pos (by omega), hlength]
      rfl
    have hle := hspelled.length_le
    obtain ⟨hshortest, hequal⟩ := hspelled.push_shortest
    rw [hpush, List.length_cons, hlength] at hshortest hequal
    rw [List.flatten_cons, List.length_append, List.length_cons, List.map_cons, List.cons.injEq,
      ← hequal, ← hdirect]
    omega

theorem length_layout (required : Nat) (pushes : List Bytes) :
    (layout required pushes).length = pushes.flatten.length + 3 := by
  simp [layout]

namespace Multisig

/-- Direct pushes spell the keys. -/
theorem spells_direct (m : Multisig) :
    List.Forall₂ (fun spelled key => Spells spelled (.push key)) (m.keys.map (0x21 :: ·))
      m.keys := by
  refine List.forall₂_map_left_iff.mpr (List.forall₂_same.mpr fun key hkey => ?_)
  have hlength := (m.isKey key hkey).1
  have hdirect : Spells (UInt8.ofNat key.length :: key) (.push key) := .direct (by omega)
  rw [hlength] at hdirect
  exact hdirect

theorem spelledBy_script (m : Multisig) : m.SpelledBy m.script :=
  ⟨_, m.spells_direct, rfl⟩

/-- The standard script takes 34 bytes a key and one for each opcode. -/
theorem length_script (m : Multisig) : m.script.length = 34 * m.keys.length + 3 := by
  obtain ⟨-, -, hdirect⟩ := length_of_pushes m.spells_direct m.isKey
  rw [script, length_layout, hdirect.mpr rfl]

variable {m : Multisig} {script : Bytes}

/-- Other scripts for the keys take at most four bytes more for each. -/
theorem SpelledBy.length_le (h : m.SpelledBy script) :
    script.length ≤ 38 * m.keys.length + 3 := by
  obtain ⟨pushes, hpushes, rfl⟩ := h
  obtain ⟨-, hmost, -⟩ := length_of_pushes hpushes m.isKey
  rw [length_layout]
  omega

/-- A script for the keys is the standard one when it is as short. -/
theorem SpelledBy.eq_script (h : m.SpelledBy script)
    (hlength : script.length = 34 * m.keys.length + 3) : script = m.script := by
  obtain ⟨pushes, hpushes, rfl⟩ := h
  obtain ⟨-, -, hdirect⟩ := length_of_pushes hpushes m.isKey
  rw [length_layout, Nat.add_right_cancel_iff] at hlength
  rw [hdirect.mp hlength, Multisig.script]

end Multisig

/-! ## Registered scripts -/

/-- The scripts that are registered push different valid keys, as many as they state and no fewer than
the signatures that they ask for, in any spelling of the pushes, and the record lists what was pushed.
Those among them that push every key directly are the ones of 34 bytes a key and three opcodes. -/
theorem registered_scripts (script : Bytes) (record : RedeemRecord) :
    (parse script = .ok record ↔ ∃ m : Multisig, m.SpelledBy script ∧ record = m.record script) ∧
      (parse script = .ok record ∧ script.length = 34 * record.publicKeys.length + 3 ↔
        ∃ m : Multisig, script = m.script ∧ record = m.record script) ∧
      ∀ m : Multisig, (m.record script).required.toNat = m.required := by
  refine ⟨parse_ok_iff, ?_, fun m => m.toNat_required script⟩
  rw [parse_ok_iff]
  constructor
  · rintro ⟨⟨m, hspelled, rfl⟩, hlength⟩
    exact ⟨m, hspelled.eq_script hlength, rfl⟩
  · rintro ⟨m, rfl, rfl⟩
    exact ⟨⟨m, m.spelledBy_script, rfl⟩, m.length_script⟩

/-! ### Second spellings -/

/-- The script that states the length of each key in a byte behind an opcode. -/
def Multisig.countedScript (m : Multisig) : Bytes :=
  layout m.required (m.keys.map fun key => 0x4c :: 0x21 :: key)

theorem Multisig.spelledBy_countedScript (m : Multisig) : m.SpelledBy m.countedScript := by
  refine ⟨_, ?_, rfl⟩
  refine List.forall₂_map_left_iff.mpr (List.forall₂_same.mpr fun key hkey => ?_)
  have hlength := (m.isKey key hkey).1
  have hcounted : Spells (0x4c :: (Bytes.ofNatLE 1 key.length ++ key)) (.push key) :=
    .counted (pushLengthWidth?_some_iff.mpr (.inl ⟨rfl, rfl⟩)) (by omega)
  rw [hlength] at hcounted
  exact hcounted

theorem Multisig.length_countedScript (m : Multisig) :
    m.countedScript.length = 35 * m.keys.length + 3 := by
  have hlengths : m.keys.map (List.length ∘ fun key => 0x4c :: 0x21 :: key) =
      List.replicate m.keys.length 35 := by
    refine List.eq_replicate_iff.mpr ⟨List.length_map _, List.forall_mem_map.mpr fun key hkey => ?_⟩
    rw [Function.comp_apply, List.length_cons, List.length_cons, (m.isKey key hkey).1]
  rw [countedScript, length_layout, List.length_flatten, List.map_map, hlengths,
    List.sum_replicate_nat, Nat.mul_comm]

/-- The script is longer than the standard one by a byte a key, and no number of keys makes up for
that. -/
theorem Multisig.countedScript_ne_script (m n : Multisig) : m.countedScript ≠ n.script := by
  intro heq
  have hlength := congrArg List.length heq
  rw [m.length_countedScript, n.length_script] at hlength
  have hone := m.one_le
  have hle := m.required_le
  have hfew := m.few
  omega

/-- A single custodian, whose key is the generator. -/
def generatorAlone : Multisig where
  required := 1
  keys := [2 :: Bytes.ofNatBE 32 0x79be667ef9dcbbac55a06295ce870b07029bfcdb2dce28d959f2815b16f81798]
  one_le := Nat.le_refl _
  required_le := Nat.le_refl _
  few := by decide
  isKey := by
    refine List.forall_mem_singleton.mpr ⟨rfl, Secp256k1.generator, ?_⟩
    decide +kernel
  nodup := List.nodup_singleton _

/-- A script with a counted push is registered, and it is no standard one. -/
theorem counted_push_registered :
    generatorAlone.countedScript = [0x51, 0x4c, 0x21, 0x02] ++
      Bytes.ofNatBE 32 0x79be667ef9dcbbac55a06295ce870b07029bfcdb2dce28d959f2815b16f81798 ++
      [0x51, 0xae] ∧
    parse generatorAlone.countedScript =
      .ok (generatorAlone.record generatorAlone.countedScript) ∧
    ¬ ∃ m : Multisig, generatorAlone.countedScript = m.script := by
  refine ⟨rfl, ?_, fun ⟨m, heq⟩ => Multisig.countedScript_ne_script _ _ heq⟩
  exact generatorAlone.spelledBy_countedScript.parse_eq

end BridgeKernel.Redeem
