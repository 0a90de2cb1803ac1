/-!
# Ordered maps

Finite maps kept as key-sorted lists of entries. The order is part of the type, so two maps with the
same lookups are equal and a listing is always in ascending key order.
-/

namespace BridgeKernel

open Std

/-- A finite map whose entries stand in strictly ascending key order. -/
structure OrderedMap (κ ν : Type) [Ord κ] where
  /-- The entries. -/
  entries : List (κ × ν)
  /-- Each key lies before all later ones. -/
  sorted : entries.Pairwise fun a b => compare a.1 b.1 = .lt

namespace OrderedMap

variable {κ ν : Type} [Ord κ]

/-- The map without entries. -/
def empty : OrderedMap κ ν := ⟨[], .nil⟩

instance : Inhabited (OrderedMap κ ν) := ⟨empty⟩

instance [DecidableEq κ] [DecidableEq ν] : DecidableEq (OrderedMap κ ν) := fun a b =>
  decidable_of_iff (a.entries = b.entries)
    ⟨fun h => by cases a; cases b; cases h; rfl, fun h => by rw [h]⟩

/-- The number of entries. -/
def size (m : OrderedMap κ ν) : Nat := m.entries.length

/-- Whether there are no entries. -/
def isEmpty (m : OrderedMap κ ν) : Bool := m.entries.isEmpty

/-- The value of a key in a list of entries. -/
def lookupIn (k : κ) : List (κ × ν) → Option ν
  | [] => none
  | (k', v) :: rest => if compare k k' = .eq then some v else lookupIn k rest

/-- The value of a key. -/
def find? (m : OrderedMap κ ν) (k : κ) : Option ν := lookupIn k m.entries

/-- Whether a key has a value. -/
def contains (m : OrderedMap κ ν) (k : κ) : Bool := (m.find? k).isSome

/-- The entries with one key set, in their order. -/
def insertEntry (k : κ) (v : ν) : List (κ × ν) → List (κ × ν)
  | [] => [(k, v)]
  | (k', v') :: rest =>
    match compare k k' with
    | .lt => (k, v) :: (k', v') :: rest
    | .eq => (k, v) :: rest
    | .gt => (k', v') :: insertEntry k v rest

/-- The entries with one key removed. -/
def eraseEntry (k : κ) (entries : List (κ × ν)) : List (κ × ν) :=
  entries.filter fun e => compare k e.1 != .eq

theorem mem_insertEntry {k : κ} {v : ν} {e : κ × ν} {entries : List (κ × ν)}
    (h : e ∈ insertEntry k v entries) : e = (k, v) ∨ e ∈ entries := by
  induction entries with
  | nil => simpa [insertEntry] using h
  | cons head rest ih =>
    simp only [insertEntry] at h
    split at h
    · simpa using h
    · rcases List.mem_cons.mp h with h | h
      · exact .inl h
      · exact .inr (List.mem_cons_of_mem _ h)
    · rcases List.mem_cons.mp h with h | h
      · exact .inr (h ▸ List.mem_cons_self)
      · exact (ih h).imp id (List.mem_cons_of_mem _)

theorem sorted_insertEntry [TransOrd κ] (k : κ) (v : ν) {entries : List (κ × ν)}
    (h : entries.Pairwise fun a b => compare a.1 b.1 = .lt) :
    (insertEntry k v entries).Pairwise fun a b => compare a.1 b.1 = .lt := by
  induction entries with
  | nil => simp [insertEntry]
  | cons head rest ih =>
    obtain ⟨first, others⟩ := List.pairwise_cons.mp h
    simp only [insertEntry]
    split
    · next lt =>
      refine List.pairwise_cons.mpr ⟨fun e he => ?_, h⟩
      rcases List.mem_cons.mp he with rfl | he
      · exact lt
      · exact TransCmp.lt_trans lt (first e he)
    · next eq =>
      refine List.pairwise_cons.mpr ⟨fun e he => ?_, others⟩
      exact TransCmp.lt_of_eq_of_lt eq (first e he)
    · next gt =>
      refine List.pairwise_cons.mpr ⟨fun e he => ?_, ih others⟩
      rcases mem_insertEntry he with rfl | he
      · exact OrientedCmp.lt_of_gt gt
      · exact first e he

/-- The map with one key set. -/
def insert [TransOrd κ] (m : OrderedMap κ ν) (k : κ) (v : ν) : OrderedMap κ ν :=
  ⟨insertEntry k v m.entries, sorted_insertEntry k v m.sorted⟩

/-- The map with one key removed. -/
def erase (m : OrderedMap κ ν) (k : κ) : OrderedMap κ ν :=
  ⟨eraseEntry k m.entries, m.sorted.filter _⟩

/-- The map of a list of entries; of several with one key the last counts. -/
def ofList [TransOrd κ] (entries : List (κ × ν)) : OrderedMap κ ν :=
  entries.foldl (fun m e => m.insert e.1 e.2) empty

/-- The entry with the greatest key. -/
def last? (m : OrderedMap κ ν) : Option (κ × ν) := m.entries.getLast?

/-- The entry with the greatest key not above a bound. -/
def lastUpTo? (m : OrderedMap κ ν) (bound : κ) : Option (κ × ν) :=
  (m.entries.filter fun e => compare e.1 bound != .gt).getLast?

/-! ## Lookups after an operation -/

theorem lookupIn_insertEntry [TransOrd κ] [LawfulEqOrd κ] (k k' : κ) (v : ν)
    (entries : List (κ × ν)) :
    lookupIn k' (insertEntry k v entries) =
      if compare k' k = .eq then some v else lookupIn k' entries := by
  induction entries with
  | nil => simp [insertEntry, lookupIn]
  | cons head rest ih =>
    simp only [insertEntry]
    split
    · simp [lookupIn]
    · next eq =>
      cases LawfulEqCmp.eq_of_compare eq
      by_cases h : compare k' head.1 = .eq <;> simp [lookupIn, h]
    · next gt =>
      simp only [lookupIn, ih]
      by_cases h : compare k' head.1 = .eq
      · cases LawfulEqCmp.eq_of_compare h
        have ne : compare head.1 k ≠ .eq := by rw [OrientedCmp.lt_of_gt gt]; decide
        simp [ne]
      · simp [h]

/-- Setting a key changes the value of that key only. -/
theorem find?_insert [TransOrd κ] [LawfulEqOrd κ] (m : OrderedMap κ ν) (k k' : κ) (v : ν) :
    (m.insert k v).find? k' = if compare k' k = .eq then some v else m.find? k' :=
  lookupIn_insertEntry k k' v m.entries

theorem lookupIn_eraseEntry [TransOrd κ] [LawfulEqOrd κ] (k k' : κ) (entries : List (κ × ν)) :
    lookupIn k' (eraseEntry k entries) =
      if compare k' k = .eq then none else lookupIn k' entries := by
  induction entries with
  | nil => simp [eraseEntry, lookupIn]
  | cons head rest ih =>
    simp only [eraseEntry] at ih
    by_cases hk : compare k head.1 = .eq
    · cases LawfulEqCmp.eq_of_compare hk
      simp only [eraseEntry, List.filter_cons, hk, bne_self_eq_false, Bool.false_eq_true,
        if_false, ih, lookupIn]
      by_cases h : compare k' head.1 = .eq <;> simp [h]
    · simp only [eraseEntry, List.filter_cons, bne_iff_ne, ne_eq, hk, not_false_eq_true, if_true,
        lookupIn, ih]
      by_cases h : compare k' head.1 = .eq
      · cases LawfulEqCmp.eq_of_compare h
        have ne : compare head.1 k ≠ .eq := fun e => hk (OrientedCmp.eq_symm e)
        simp [ne]
      · simp [h]

/-- Removing a key removes the value of that key only. -/
theorem find?_erase [TransOrd κ] [LawfulEqOrd κ] (m : OrderedMap κ ν) (k k' : κ) :
    (m.erase k).find? k' = if compare k' k = .eq then none else m.find? k' :=
  lookupIn_eraseEntry k k' m.entries

@[simp] theorem find?_empty (k : κ) : (empty : OrderedMap κ ν).find? k = none := rfl

end OrderedMap

end BridgeKernel
