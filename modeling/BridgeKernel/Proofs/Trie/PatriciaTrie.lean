import BridgeKernel.OrderedMap
import BridgeKernel.Proofs.Store.Scan
import BridgeKernel.Proofs.Trie.Nibbles
import BridgeKernel.Trie.Patricia
import BridgeKernel.Wire.Rlp

/-!
# The Keccak trie of a map

The values of a finite map stand under the nibbles of their keys. What several keys have in common
is written once: a branch stands where they part, an extension before it, and the rest of a key in
its leaf. So a map has one trie, which leads along a key exactly to its value.
-/

namespace BridgeKernel.Patricia

/-- A trie of values under paths of nibbles. -/
inductive Trie where
  /-- No value. -/
  | empty
  /-- A value at the end of a path. -/
  | leaf (path : List UInt8) (value : Bytes)
  /-- A run of nibbles that all paths begin with. -/
  | extension (run : List UInt8) (child : Trie)
  /-- The paths that begin with each nibble. -/
  | branch (children : Fin 16 → Trie)

/-- The item by which a node refers to a child with these bytes. -/
def refer (encoded : Bytes) : Bytes :=
  if encoded.length < 32 then encoded else Rlp.encodeBytes (Keccak256.hash encoded).toBytes

/-- The items of a branch: a reference to each child, and a value slot that is not used. -/
def slots (encoded : Fin 16 → Bytes) : List Bytes :=
  (List.ofFn fun slot => refer (encoded slot)) ++ [Rlp.encodeBytes []]

namespace Trie

/-- Whether there is no value. -/
def isEmpty : Trie → Bool
  | .empty => true
  | _ => false

/-- The bytes of the root. -/
def encode : Trie → Bytes
  | .empty => Rlp.encodeBytes []
  | .leaf path value =>
    Rlp.encodeList [Rlp.encodeBytes (Nibbles.encodePath path true), Rlp.encodeBytes value]
  | .extension run child =>
    Rlp.encodeList [Rlp.encodeBytes (Nibbles.encodePath run false), refer child.encode]
  | .branch children => Rlp.encodeList (slots fun slot => (children slot).encode)

/-- The bytes of all nodes. -/
def nodes : Trie → List Bytes
  | .empty => [encode .empty]
  | .leaf path value => [encode (.leaf path value)]
  | .extension run child => encode (.extension run child) :: child.nodes
  | .branch children =>
    encode (.branch children) ::
      (List.ofFn fun slot => if (children slot).isEmpty then [] else (children slot).nodes).flatten

/-- How a node refers to a trie below it. -/
def reference (t : Trie) : ChildRef :=
  if t.encode.length < 32 then .embedded t.encode else .hashed (Keccak256.hash t.encode)

/-- No node could be left out or be written shorter. -/
inductive Canonical : Trie → Prop
  /-- A leaf has the rest of a path. -/
  | leaf {path : List UInt8} {value : Bytes} (hlow : Nibbles.Low path) :
    Canonical (.leaf path value)
  /-- An extension leads to where paths part. -/
  | extension {run : List UInt8} {children : Fin 16 → Trie} (hne : run ≠ [])
    (hlow : Nibbles.Low run) (hchild : Canonical (.branch children)) :
    Canonical (.extension run (.branch children))
  /-- At a branch paths part. -/
  | branch {children : Fin 16 → Trie} {a b : Fin 16} (hne : a ≠ b) (ha : children a ≠ .empty)
    (hb : children b ≠ .empty)
    (hchildren : ∀ slot, children slot ≠ .empty → Canonical (children slot)) :
    Canonical (.branch children)

/-- A path goes on from the root of a trie at the trie below it. -/
inductive Descends : Trie → List UInt8 → Trie → List UInt8 → Prop
  /-- An extension takes its run off the path. -/
  | extension {run rest : List UInt8} {child : Trie} :
    Descends (.extension run child) (run ++ rest) child rest
  /-- A branch takes a nibble off the path. -/
  | slot {children : Fin 16 → Trie} {slot : Fin 16} {rest : List UInt8} :
    Descends (.branch children) (UInt8.ofNat slot :: rest) (children slot) rest

/-- A path leads from the root of a trie, through tries below it, to the leaf at which it ends. -/
inductive Leads : Trie → List UInt8 → List Trie → Bytes → Prop
  /-- The path ends at the root. -/
  | leaf {path : List UInt8} {value : Bytes} : Leads (.leaf path value) path [] value
  /-- The path goes on below the root. -/
  | descend {t child : Trie} {path rest : List UInt8} {below : List Trie} {value : Bytes}
    (hchild : t.Descends path child rest) (hrest : child.Leads rest below value) :
    Leads t path (child :: below) value

/-- A trie has a value under a path. -/
def Holds (t : Trie) (path : List UInt8) (value : Bytes) : Prop := ∃ below, t.Leads path below value

/-! ## The trie of a map -/

/-- A trie whose paths all begin with one more nibble. -/
def prepend (nibble : UInt8) : Trie → Trie
  | .empty => .empty
  | .leaf path value => .leaf (nibble :: path) value
  | .extension run child => .extension (nibble :: run) child
  | .branch children => .extension [nibble] (.branch children)

/-- The slots of tries with values. -/
def used (children : Fin 16 → Trie) : List (Fin 16) :=
  (List.finRange 16).filter fun slot => !(children slot).isEmpty

/-- The trie of the paths that begin with each nibble; there is a branch only where paths part. -/
def join (children : Fin 16 → Trie) : Trie :=
  match used children with
  | [] => .empty
  | [slot] => prepend (UInt8.ofNat slot) (children slot)
  | _ => .branch children

/-- What follows a nibble in the paths that begin with it. -/
def under (nibble : Fin 16) (entries : List (List UInt8 × Bytes)) : List (List UInt8 × Bytes) :=
  entries.filterMap fun entry =>
    match entry with
    | ([], _) => none
    | (first :: rest, value) => if first = UInt8.ofNat nibble then some (rest, value) else none

/-- The trie of values under paths of one length. -/
def build : (length : Nat) → List (List UInt8 × Bytes) → Trie
  | 0, [] => .empty
  | 0, (_, value) :: _ => .leaf [] value
  | length + 1, entries => join fun nibble => build length (under nibble entries)

/-- The values of a map under the nibbles of their keys. -/
def paths (m : OrderedMap Bytes Bytes) : List (List UInt8 × Bytes) :=
  m.entries.map fun entry => (Nibbles.ofBytes entry.1, entry.2)

/-- The trie of a map from keys of one width. -/
def ofMap (width : Nat) (m : OrderedMap Bytes Bytes) : Trie := build (2 * width) (paths m)

variable {t child : Trie} {path rest : List UInt8} {value : Bytes} {children : Fin 16 → Trie}

/-! ## What a trie holds -/

@[simp] theorem isEmpty_iff : t.isEmpty = true ↔ t = .empty := by
  cases t <;> simp [isEmpty]

theorem Holds.of_descends (hdown : t.Descends path child rest) (h : child.Holds rest value) :
    t.Holds path value := by
  obtain ⟨below, hleads⟩ := h
  exact ⟨child :: below, .descend hdown hleads⟩

@[simp] theorem not_holds_empty : ¬ empty.Holds path value := by
  rintro ⟨below, h⟩
  cases h with
  | descend hdown hrest => cases hdown

@[simp] theorem holds_leaf {found : Bytes} :
    (leaf rest found).Holds path value ↔ path = rest ∧ value = found := by
  constructor
  · rintro ⟨below, h⟩
    cases h with
    | leaf => exact ⟨rfl, rfl⟩
    | descend hdown hrest => cases hdown
  · rintro ⟨rfl, rfl⟩
    exact ⟨[], .leaf⟩

@[simp] theorem holds_extension {run : List UInt8} :
    (extension run child).Holds path value ↔
      ∃ rest, path = run ++ rest ∧ child.Holds rest value := by
  constructor
  · rintro ⟨below, h⟩
    cases h with
    | descend hdown hrest =>
      cases hdown
      exact ⟨_, rfl, _, hrest⟩
  · rintro ⟨rest, rfl, h⟩
    exact .of_descends .extension h

@[simp] theorem holds_branch :
    (branch children).Holds path value ↔
      ∃ slot rest, path = UInt8.ofNat (slot : Fin 16).val :: rest ∧
        (children slot).Holds rest value := by
  constructor
  · rintro ⟨below, h⟩
    cases h with
    | descend hdown hrest =>
      cases hdown
      exact ⟨_, _, rfl, _, hrest⟩
  · rintro ⟨slot, rest, rfl, h⟩
    exact .of_descends .slot h

theorem holds_slot {slot : Fin 16} :
    (branch children).Holds (UInt8.ofNat slot :: rest) value ↔
      (children slot).Holds rest value := by
  rw [holds_branch]
  constructor
  · rintro ⟨other, after, heq, h⟩
    rw [List.cons.injEq, Nibbles.ofNat_inj] at heq
    rwa [heq.1, heq.2]
  · intro h
    exact ⟨slot, rest, rfl, h⟩

/-- A nibble more before all paths. -/
theorem holds_prepend (nibble : UInt8) :
    (t.prepend nibble).Holds path value ↔ ∃ rest, path = nibble :: rest ∧ t.Holds rest value := by
  cases t <;> simp [prepend]

@[simp] theorem mem_used {slot : Fin 16} : slot ∈ used children ↔ children slot ≠ .empty := by
  simp [used, ← isEmpty_iff]

theorem used_nodup (children : Fin 16 → Trie) : (used children).Nodup :=
  (List.nodup_finRange 16).filter _

/-- Joined tries hold what a branch would. -/
theorem holds_join : (join children).Holds path value ↔ (branch children).Holds path value := by
  have hempty {slot : Fin 16} (h : slot ∉ used children) : children slot = .empty := by
    simpa using h
  unfold join
  split
  · next hnone =>
    have hall (slot : Fin 16) : children slot = .empty := hempty (by simp [hnone])
    simp [hall]
  · next only hone =>
    rw [holds_prepend, holds_branch]
    constructor
    · rintro ⟨rest, rfl, h⟩
      exact ⟨only, rest, rfl, h⟩
    · rintro ⟨slot, rest, rfl, h⟩
      by_cases hslot : slot = only
      · rw [hslot] at h ⊢
        exact ⟨rest, rfl, h⟩
      · rw [hempty (by simp [hone, hslot])] at h
        exact absurd h not_holds_empty
  · rfl

@[simp] theorem mem_under {slot : Fin 16} {entries : List (List UInt8 × Bytes)} :
    (rest, value) ∈ under slot entries ↔ (UInt8.ofNat slot :: rest, value) ∈ entries := by
  simp only [under, List.mem_filterMap]
  constructor
  · rintro ⟨⟨_ | ⟨first, tail⟩, found⟩, hmem, h⟩
    · simp at h
    · simp at h
      obtain ⟨rfl, rfl, rfl⟩ := h
      exact hmem
  · intro hmem
    exact ⟨_, hmem, by simp⟩

/-- Values under paths of one length that tell them apart. -/
structure Uniform (length : Nat) (entries : List (List UInt8 × Bytes)) : Prop where
  /-- The paths are of one length. -/
  length_eq : ∀ entry ∈ entries, entry.1.length = length
  /-- They are made of halves of bytes. -/
  low : ∀ entry ∈ entries, Nibbles.Low entry.1
  /-- A path has one value. -/
  value_eq : ∀ path a b, (path, a) ∈ entries → (path, b) ∈ entries → a = b

theorem Uniform.under {length : Nat} {entries : List (List UInt8 × Bytes)}
    (h : Uniform (length + 1) entries) (slot : Fin 16) : Uniform length (under slot entries) where
  length_eq := by
    rintro ⟨path, value⟩ hmem
    simpa using h.length_eq _ (mem_under.mp hmem)
  low := by
    rintro ⟨path, value⟩ hmem nibble hnibble
    exact h.low _ (mem_under.mp hmem) nibble (by simp [hnibble])
  value_eq := by
    intro path a b ha hb
    exact h.value_eq _ a b (mem_under.mp ha) (mem_under.mp hb)

/-- The trie of values under paths of one length holds these values. -/
theorem holds_build {length : Nat} {entries : List (List UInt8 × Bytes)}
    (h : Uniform length entries) :
    (build length entries).Holds path value ↔ (path, value) ∈ entries := by
  induction length generalizing entries path with
  | zero =>
    cases entries with
    | nil => simp [build]
    | cons first others =>
      obtain ⟨path', found⟩ := first
      have hfirst : (path', found) ∈ (path', found) :: others := List.mem_cons_self
      obtain rfl : path' = [] := List.length_eq_zero_iff.mp (h.length_eq _ hfirst)
      rw [build, holds_leaf]
      constructor
      · rintro ⟨rfl, rfl⟩
        exact hfirst
      · intro hmem
        obtain rfl : path = [] := List.length_eq_zero_iff.mp (h.length_eq _ hmem)
        exact ⟨rfl, h.value_eq [] value found hmem hfirst⟩
  | succ length ih =>
    rw [build, holds_join, holds_branch]
    constructor
    · rintro ⟨slot, rest, rfl, hholds⟩
      exact mem_under.mp ((ih (h.under slot)).mp hholds)
    · intro hmem
      have hlength := h.length_eq _ hmem
      have hlow := h.low _ hmem
      cases path with
      | nil => simp at hlength
      | cons nibble rest =>
        have hnibble := hlow nibble (by simp)
        have heq := (Nibbles.eq_ofNat_iff ⟨nibble.toNat, hnibble⟩).mpr rfl
        refine ⟨⟨nibble.toNat, hnibble⟩, rest, by rw [← heq], ?_⟩
        rw [ih (h.under _), mem_under, ← heq]
        exact hmem

/-! ## Canonical form -/

theorem Canonical.prepend {nibble : UInt8} (h : t.Canonical) (hlow : nibble.toNat < 16) :
    (t.prepend nibble).Canonical := by
  cases h with
  | leaf hpath => exact .leaf (List.forall_mem_cons.mpr ⟨hlow, hpath⟩)
  | extension hne hrun hchild =>
    exact .extension (List.cons_ne_nil _ _) (List.forall_mem_cons.mpr ⟨hlow, hrun⟩) hchild
  | branch hne ha hb hchildren =>
    exact .extension (List.cons_ne_nil _ _) (List.forall_mem_cons.mpr ⟨hlow, by simp⟩)
      (.branch hne ha hb hchildren)

theorem canonical_join (h : ∀ slot, children slot ≠ .empty → (children slot).Canonical)
    (hne : join children ≠ .empty) : (join children).Canonical := by
  have hnodup := used_nodup children
  have hmem (slot : Fin 16) := @mem_used children slot
  unfold join at hne ⊢
  rcases hused : used children with _ | ⟨a, _ | ⟨b, more⟩⟩
  · simp [hused] at hne
  · have ha : children a ≠ .empty := (hmem a).mp (by simp [hused])
    exact (h a ha).prepend (by simp; omega)
  · rw [hused] at hnodup
    have hab : a ≠ b := by
      rintro rfl
      simp at hnodup
    have ha : children a ≠ .empty := (hmem a).mp (by simp [hused])
    have hb : children b ≠ .empty := (hmem b).mp (by simp [hused])
    exact .branch hab ha hb h

theorem canonical_build (length : Nat) (entries : List (List UInt8 × Bytes))
    (hne : build length entries ≠ .empty) : (build length entries).Canonical := by
  induction length generalizing entries with
  | zero =>
    cases entries with
    | nil => exact absurd rfl hne
    | cons first others => exact .leaf (by simp [Nibbles.Low])
  | succ length ih => exact canonical_join (fun slot => ih (under slot entries)) hne

theorem Canonical.at_slot (ht : (Trie.branch children).Canonical) {slot : Fin 16}
    (hne : children slot ≠ .empty) : (children slot).Canonical := by
  cases ht with
  | branch _ _ _ hchildren => exact hchildren slot hne

theorem Descends.canonical (h : t.Descends path child rest) (ht : t.Canonical)
    (hne : child ≠ .empty) : child.Canonical := by
  cases h with
  | extension =>
    cases ht with
    | extension _ _ hchild => exact hchild
  | slot => exact ht.at_slot hne

/-- A canonical trie has a value. -/
theorem Canonical.exists_holds (ht : t.Canonical) : ∃ path value, t.Holds path value := by
  induction ht with
  | @leaf path value hlow => exact ⟨path, value, by simp⟩
  | extension hne hlow hchild ih =>
    obtain ⟨path, value, h⟩ := ih
    exact ⟨_, value, .of_descends .extension h⟩
  | branch hne ha hb hchildren ih =>
    obtain ⟨path, value, h⟩ := ih _ ha
    exact ⟨_, value, .of_descends .slot h⟩

/-- Paths part at a branch. -/
theorem Canonical.parts (ht : (Trie.branch children).Canonical) :
    ∃ (a b : UInt8) (after after' : List UInt8) (value value' : Bytes), a ≠ b ∧
      (Trie.branch children).Holds (a :: after) value ∧
      (Trie.branch children).Holds (b :: after') value' := by
  cases ht with
  | @branch _ a b hne ha hb hchildren =>
    obtain ⟨after, value, h⟩ := (hchildren a ha).exists_holds
    obtain ⟨after', value', h'⟩ := (hchildren b hb).exists_holds
    refine ⟨UInt8.ofNat a, UInt8.ofNat b, after, after', value, value', ?_, .of_descends .slot h,
      .of_descends .slot h'⟩
    rwa [Ne, Nibbles.ofNat_inj]

/-- A branch behind a run of nibbles, which may be empty. -/
def along : (run : List UInt8) → (Fin 16 → Trie) → Trie
  | [], children => .branch children
  | nibble :: run, children => .extension (nibble :: run) (.branch children)

theorem holds_along {run : List UInt8} :
    (along run children).Holds path value ↔
      ∃ rest, path = run ++ rest ∧ (branch children).Holds rest value := by
  cases run with
  | nil => simp [along]
  | cons nibble run => rw [along, holds_extension]

theorem Canonical.leaf_or_along (ht : t.Canonical) :
    (∃ path value, t = .leaf path value) ∨
      ∃ run children, t = along run children ∧ (Trie.branch children).Canonical := by
  cases ht with
  | @leaf path value hlow => exact .inl ⟨path, value, rfl⟩
  | @extension run children hne hlow hchild =>
    obtain ⟨nibble, rest, rfl⟩ := List.exists_cons_of_ne_nil hne
    exact .inr ⟨nibble :: rest, children, rfl, hchild⟩
  | @branch children a b hne ha hb hchildren =>
    exact .inr ⟨[], children, rfl, .branch hne ha hb hchildren⟩

/-- What paths that part behind a run begin with, the run begins with. -/
theorem prefix_of_parts {run front x y : List UInt8} {a b : UInt8} (hne : a ≠ b)
    (ha : front <+: run ++ a :: x) (hb : front <+: run ++ b :: y) : front <+: run := by
  induction run generalizing front with
  | nil =>
    cases front with
    | nil => exact List.nil_prefix
    | cons c front =>
      obtain ⟨rfl, -⟩ := List.cons_prefix_cons.mp ha
      obtain ⟨rfl, -⟩ := List.cons_prefix_cons.mp hb
      exact absurd rfl hne
  | cons c run ih =>
    cases front with
    | nil => exact List.nil_prefix
    | cons d front =>
      obtain ⟨rfl, hx⟩ := List.cons_prefix_cons.mp ha
      obtain ⟨-, hy⟩ := List.cons_prefix_cons.mp hb
      exact List.cons_prefix_cons.mpr ⟨rfl, ih hx hy⟩

section Uniqueness

variable {run run' : List UInt8} {children' : Fin 16 → Trie}

/-- A leaf does not hold what a branch does. -/
theorem Canonical.not_leaf (hc : (Trie.branch children).Canonical) (run : List UInt8)
    (h : ∀ found value', (along run children).Holds found value' →
      (Trie.leaf path value).Holds found value') : False := by
  obtain ⟨a, b, after, after', x, y, hne, ha, hb⟩ := hc.parts
  have hfirst := h (run ++ a :: after) x (holds_along.mpr ⟨_, rfl, ha⟩)
  have hsecond := h (run ++ b :: after') y (holds_along.mpr ⟨_, rfl, hb⟩)
  have heq := (holds_leaf.mp hfirst).1.trans (holds_leaf.mp hsecond).1.symm
  simp [hne] at heq

/-- The run before a branch is the longest with which the paths begin. -/
theorem Canonical.run_prefix (hc : (Trie.branch children).Canonical)
    (h : ∀ path value, (along run children).Holds path value →
      (along run' children').Holds path value) : run' <+: run := by
  obtain ⟨a, b, after, after', x, y, hne, ha, hb⟩ := hc.parts
  obtain ⟨_, hfirst, -⟩ := holds_along.mp (h (run ++ a :: after) x (holds_along.mpr ⟨_, rfl, ha⟩))
  obtain ⟨_, hsecond, -⟩ := holds_along.mp (h (run ++ b :: after') y (holds_along.mpr ⟨_, rfl, hb⟩))
  exact prefix_of_parts hne ⟨_, hfirst.symm⟩ ⟨_, hsecond.symm⟩

theorem Canonical.run_eq (hc : (Trie.branch children).Canonical)
    (hc' : (Trie.branch children').Canonical) (run run' : List UInt8)
    (h : ∀ path value, (along run children).Holds path value ↔
      (along run' children').Holds path value) : run = run' := by
  have hle := hc.run_prefix fun path value => (h path value).mp
  have hge := hc'.run_prefix fun path value => (h path value).mpr
  exact hge.eq_of_length (Nat.le_antisymm hge.length_le hle.length_le)

/-- Canonical tries that hold the same values are one trie. -/
theorem Canonical.unique {u : Trie} (ht : t.Canonical) (hu : u.Canonical)
    (h : ∀ path value, t.Holds path value ↔ u.Holds path value) : t = u := by
  induction ht generalizing u with
  | @leaf path value hlow =>
    rcases hu.leaf_or_along with ⟨path', value', rfl⟩ | ⟨run, children, rfl, hc⟩
    · have hfound := (h path value).mp (by simp)
      rw [holds_leaf] at hfound
      rw [hfound.1, hfound.2]
    · exact (hc.not_leaf run fun found value' => (h found value').mpr).elim
  | @extension run children hne hlow hchild ih =>
    obtain ⟨nibble, rest, rfl⟩ := List.exists_cons_of_ne_nil hne
    rcases hu.leaf_or_along with ⟨path', value', rfl⟩ | ⟨run', children', rfl, hc⟩
    · exact (hchild.not_leaf (nibble :: rest) fun found value' => (h found value').mp).elim
    · obtain rfl := hchild.run_eq hc (nibble :: rest) run' h
      have hbranch : Trie.branch children = .branch children' := by
        apply ih hc
        intro path value
        have hpath := h (nibble :: rest ++ path) value
        simpa [along] using hpath
      rw [along, hbranch]
  | @branch children a b hne ha hb hchildren ih =>
    have ht : (Trie.branch children).Canonical := .branch hne ha hb hchildren
    rcases hu.leaf_or_along with ⟨path', value', rfl⟩ | ⟨run', children', rfl, hc⟩
    · exact (ht.not_leaf [] fun found value' => (h found value').mp).elim
    · obtain rfl := ht.run_eq hc [] run' h
      have hslot (slot : Fin 16) (rest : List UInt8) (value : Bytes) :
          (children slot).Holds rest value ↔ (children' slot).Holds rest value := by
        rw [← holds_slot, ← holds_slot]
        exact h _ value
      have hchild (slot : Fin 16) : children slot = children' slot := by
        by_cases hempty : children slot = .empty
        · by_cases hempty' : children' slot = .empty
          · rw [hempty, hempty']
          · obtain ⟨rest, value, hholds⟩ := (hc.at_slot hempty').exists_holds
            rw [← hslot, hempty] at hholds
            exact absurd hholds not_holds_empty
        · by_cases hempty' : children' slot = .empty
          · obtain ⟨rest, value, hholds⟩ := (hchildren slot hempty).exists_holds
            rw [hslot, hempty'] at hholds
            exact absurd hholds not_holds_empty
          · exact ih slot hempty (hc.at_slot hempty') (hslot slot)
      rw [along, funext hchild]

end Uniqueness

/-! ## Maps -/

section

variable {width : Nat} {m : OrderedMap Bytes Bytes}

theorem canonical_ofMap (hne : ofMap width m ≠ .empty) : (ofMap width m).Canonical :=
  canonical_build _ _ hne

theorem mem_paths :
    (path, value) ∈ paths m ↔ ∃ key, path = Nibbles.ofBytes key ∧ m.find? key = some value := by
  rw [paths, List.mem_map]
  constructor
  · rintro ⟨⟨key, found⟩, hentry, heq⟩
    cases heq
    exact ⟨key, rfl, m.mem_entries_iff.mp hentry⟩
  · rintro ⟨key, rfl, hfind⟩
    exact ⟨(key, value), m.mem_entries_iff.mpr hfind, rfl⟩

theorem uniform_paths (hwidth : ∀ entry ∈ m.entries, entry.1.length = width) :
    Uniform (2 * width) (paths m) where
  length_eq := by
    rintro _ hmem
    obtain ⟨entry, hentry, rfl⟩ := List.mem_map.mp hmem
    rw [Nibbles.length_ofBytes, hwidth entry hentry]
  low := by
    rintro _ hmem
    obtain ⟨entry, hentry, rfl⟩ := List.mem_map.mp hmem
    exact Nibbles.low_ofBytes entry.1
  value_eq := by
    intro path a b ha hb
    obtain ⟨key, rfl, hkey⟩ := mem_paths.mp ha
    obtain ⟨other, heq, hother⟩ := mem_paths.mp hb
    rw [Nibbles.ofBytes_injective heq, hother] at hkey
    exact (Option.some.inj hkey).symm

/-- The trie of a map has the values of the map, each under the nibbles of its key. -/
theorem holds_ofMap (hwidth : ∀ entry ∈ m.entries, entry.1.length = width) :
    (ofMap width m).Holds path value ↔
      ∃ key, path = Nibbles.ofBytes key ∧ m.find? key = some value := by
  rw [ofMap, holds_build (uniform_paths hwidth), mem_paths]

theorem holds_ofMap_key (hwidth : ∀ entry ∈ m.entries, entry.1.length = width) {key : Bytes} :
    (ofMap width m).Holds (Nibbles.ofBytes key) value ↔ m.find? key = some value := by
  rw [holds_ofMap hwidth]
  constructor
  · rintro ⟨other, heq, hfind⟩
    rwa [Nibbles.ofBytes_injective heq]
  · intro hfind
    exact ⟨key, rfl, hfind⟩

/-- There is no other canonical trie with the values of a map. -/
theorem Canonical.eq_ofMap (ht : t.Canonical)
    (hwidth : ∀ entry ∈ m.entries, entry.1.length = width)
    (h : ∀ path value, t.Holds path value ↔
      ∃ key, path = Nibbles.ofBytes key ∧ m.find? key = some value) : t = ofMap width m := by
  have hsame (path : List UInt8) (value : Bytes) :
      t.Holds path value ↔ (ofMap width m).Holds path value :=
    (h path value).trans (holds_ofMap hwidth).symm
  have hne : ofMap width m ≠ .empty := by
    intro hempty
    obtain ⟨path, value, hholds⟩ := ht.exists_holds
    rw [hsame, hempty] at hholds
    exact not_holds_empty hholds
  exact ht.unique (canonical_ofMap hne) hsame

end

end Trie

end BridgeKernel.Patricia
