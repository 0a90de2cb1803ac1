import BridgeKernel.Proofs.Store.Steps
import Mathlib.Data.List.Induction
import Mathlib.Data.List.Nodup
import Mathlib.Data.List.Perm.Basic

/-!
# Listings of the store

A listing walks over the sorted pairs from its starting bytes on and ends at the first key that does
not begin with them. Keys that begin with them stand together, so it meets exactly these. Two stores
that agree on such keys have the same listing up to order, and removing a key takes its pair out.
-/

namespace BridgeKernel

open Std

namespace OrderedMap

variable {κ ν : Type} [Ord κ] [LawfulEqOrd κ]

theorem lookupIn_eq_some_iff {entries : List (κ × ν)} {k : κ} {v : ν}
    (h : entries.Pairwise fun a b => compare a.1 b.1 = .lt) :
    lookupIn k entries = some v ↔ (k, v) ∈ entries := by
  induction entries with
  | nil => simp [lookupIn]
  | cons head rest ih =>
    obtain ⟨hfirst, hrest⟩ := List.pairwise_cons.mp h
    rw [lookupIn, List.mem_cons]
    split
    · next heq =>
      obtain rfl := LawfulEqCmp.eq_of_compare heq
      constructor
      · intro hv
        exact .inl (Prod.ext rfl (Option.some.inj hv).symm)
      · rintro (hv | hmem)
        · rw [← hv]
        · have hlt := hfirst _ hmem
          rw [heq] at hlt
          cases hlt
    · next hne =>
      rw [ih hrest]
      refine ⟨.inr, fun hmem => hmem.resolve_left ?_⟩
      rintro rfl
      exact hne ReflCmp.compare_self

/-- The entries are the keys with their values. -/
theorem mem_entries_iff (m : OrderedMap κ ν) {e : κ × ν} :
    e ∈ m.entries ↔ m.find? e.1 = some e.2 := (lookupIn_eq_some_iff m.sorted).symm

theorem keys_nodup (m : OrderedMap κ ν) : (m.entries.map Prod.fst).Nodup := by
  refine List.pairwise_map.mpr (m.sorted.imp fun {a b} h he => ?_)
  have hself : compare b.1 b.1 = .eq := ReflCmp.compare_self
  rw [he, hself] at h
  cases h

theorem entries_nodup (m : OrderedMap κ ν) : m.entries.Nodup := .of_map _ m.keys_nodup

/-- Entries with different keys are found in their map. -/
theorem find?_ofList_iff [TransOrd κ] {entries : List (κ × ν)} (h : (entries.map Prod.fst).Nodup)
    {k : κ} {v : ν} : (ofList entries).find? k = some v ↔ (k, v) ∈ entries := by
  induction entries using List.reverseRecOn with
  | nil => simp [ofList]
  | append_singleton entries e ih =>
    rw [List.map_append, List.map_singleton, List.nodup_append] at h
    obtain ⟨hfront, -, hlast⟩ := h
    rw [ofList_snoc, find?_insert, List.mem_append, List.mem_singleton, ← ih hfront]
    split
    · next heq =>
      obtain rfl := LawfulEqCmp.eq_of_compare heq
      constructor
      · intro hv
        exact .inr (Prod.ext rfl (Option.some.inj hv).symm)
      · rintro (hmem | he)
        · have hkey : e.1 ∈ entries.map Prod.fst :=
            List.mem_map.mpr ⟨(e.1, v), (ih hfront).mp hmem, rfl⟩
          exact absurd rfl (hlast _ hkey _ List.mem_cons_self)
        · exact congrArg some (congrArg Prod.snd he).symm
    · next hne =>
      refine ⟨.inl, fun hmem => hmem.resolve_right ?_⟩
      rintro rfl
      exact hne ReflCmp.compare_self

/-- Entries with different keys are counted by their map. -/
theorem size_ofList [TransOrd κ] {entries : List (κ × ν)} (h : (entries.map Prod.fst).Nodup) :
    (ofList entries).size = entries.length := by
  refine List.Perm.length_eq ((List.perm_ext_iff_of_nodup (entries_nodup _) h.of_map).mpr ?_)
  intro e
  rw [mem_entries_iff, find?_ofList_iff h]

omit [LawfulEqOrd κ] in
/-- A key that had no value makes one entry more. -/
theorem size_insert_of_new [TransOrd κ] {m : OrderedMap κ ν} {k : κ} (hnew : m.find? k = none)
    (v : ν) : (m.insert k v).size = m.size + 1 := by
  obtain ⟨entries, sorted⟩ := m
  change lookupIn k entries = none at hnew
  change (insertEntry k v entries).length = entries.length + 1
  clear sorted
  induction entries with
  | nil => rfl
  | cons head rest ih =>
    rw [lookupIn] at hnew
    split at hnew
    · cases hnew
    · next hne =>
      rw [insertEntry]
      split
      · rfl
      · next heq => exact absurd heq hne
      · rw [List.length_cons, ih hnew, List.length_cons]

end OrderedMap

namespace Contents

variable {start : Bytes} {r r' : Contents}

/-- What begins with given bytes does not lie before them. -/
theorem compare_ne_lt_of_begins {start x : Bytes} (h : start <+: x) : compare x start ≠ .lt := by
  induction start generalizing x with
  | nil =>
    cases x with
    | nil => rw [List.compare_nil_nil]; nofun
    | cons b x => rw [List.compare_cons_nil]; nofun
  | cons b start ih =>
    obtain ⟨rest, rfl⟩ := h
    have hself : compare b b = .eq := ReflCmp.compare_self
    rw [List.cons_append, List.compare_cons_cons, hself]
    exact ih (List.prefix_append start rest)

/-- What lies between given bytes and something that begins with them begins with them as well. -/
theorem begins_of_between {start x y : Bytes} (hy : start <+: y) (hx : compare x start ≠ .lt)
    (hxy : compare x y = .lt) : start <+: x := by
  induction start generalizing x y with
  | nil => exact List.nil_prefix
  | cons b start ih =>
    obtain ⟨rest, rfl⟩ := hy
    cases x with
    | nil => exact absurd List.compare_nil_cons hx
    | cons c x =>
      rw [List.cons_append, List.compare_cons_cons] at hxy
      rw [List.compare_cons_cons] at hx
      cases hc : compare c b with
      | lt =>
        rw [hc] at hx
        exact absurd rfl hx
      | gt =>
        rw [hc] at hxy
        cases hxy
      | eq =>
        rw [hc] at hx hxy
        obtain rfl := LawfulEqCmp.eq_of_compare hc
        exact List.cons_prefix_cons.mpr ⟨rfl, ih (List.prefix_append start rest) hx hxy⟩

/-- From the starting bytes on, the pairs up to the first that does not begin with them are all that
do. -/
theorem takeWhile_eq_filter {entries : List (Bytes × Bytes)}
    (hsorted : entries.Pairwise fun a b => compare a.1 b.1 = .lt)
    (hfrom : ∀ e ∈ entries, compare e.1 start ≠ .lt) :
    (entries.takeWhile fun e => start.isPrefixOf e.1) =
      entries.filter fun e => start.isPrefixOf e.1 := by
  induction entries with
  | nil => rfl
  | cons head rest ih =>
    obtain ⟨hfirst, hrest⟩ := List.pairwise_cons.mp hsorted
    rw [List.takeWhile_cons, List.filter_cons]
    split
    · rw [ih hrest fun e he => hfrom e (List.mem_cons_of_mem _ he)]
    · next hhead =>
      refine (List.filter_eq_nil_iff.mpr fun e he hstart => hhead ?_).symm
      have hbegins := List.isPrefixOf_iff_prefix.mp hstart
      apply List.isPrefixOf_iff_prefix.mpr
      exact begins_of_between hbegins (hfrom head List.mem_cons_self) (hfirst e he)

/-- A listing holds the pairs whose key begins with the starting bytes. -/
theorem scan_eq_filter (r : Contents) (start : Bytes) :
    r.scan start = r.entries.filter fun e => start.isPrefixOf e.1 := by
  unfold scan
  have hsorted := r.sorted
  generalize r.entries = entries at hsorted ⊢
  induction entries with
  | nil => rfl
  | cons head rest ih =>
    obtain ⟨hfirst, hrest⟩ := List.pairwise_cons.mp hsorted
    rw [List.dropWhile_cons]
    split
    · next hbefore =>
      rw [List.filter_cons_of_neg, ih hrest]
      intro hstart
      have hbegins := List.isPrefixOf_iff_prefix.mp hstart
      exact compare_ne_lt_of_begins hbegins (beq_iff_eq.mp hbefore)
    · next hbefore =>
      rw [beq_iff_eq] at hbefore
      refine takeWhile_eq_filter hsorted fun e he hlt => hbefore ?_
      rcases List.mem_cons.mp he with rfl | he
      · exact hlt
      · exact TransCmp.lt_trans (hfirst e he) hlt

theorem mem_scan_iff {e : Bytes × Bytes} :
    e ∈ r.scan start ↔ start <+: e.1 ∧ r.find? e.1 = some e.2 := by
  rw [scan_eq_filter, List.mem_filter, r.mem_entries_iff, List.isPrefixOf_iff_prefix, and_comm]

theorem scan_nodup (r : Contents) (start : Bytes) : (r.scan start).Nodup := by
  rw [scan_eq_filter]
  exact r.entries_nodup.filter _

/-- Stores that agree on the keys with a beginning have the same listing up to order. -/
theorem scan_perm (h : ∀ bytes, start <+: bytes → r'.find? bytes = r.find? bytes) :
    (r'.scan start).Perm (r.scan start) := by
  rw [List.perm_ext_iff_of_nodup (r'.scan_nodup start) (r.scan_nodup start)]
  intro e
  rw [mem_scan_iff, mem_scan_iff]
  constructor
  · rintro ⟨hstart, hfind⟩
    exact ⟨hstart, (h _ hstart).symm.trans hfind⟩
  · rintro ⟨hstart, hfind⟩
    exact ⟨hstart, (h _ hstart).trans hfind⟩

/-- Removing a key takes its pair out of a listing. -/
theorem scan_erase_perm {key value : Bytes} (hstart : start <+: key)
    (h : r.find? key = some value) :
    (r.scan start).Perm ((key, value) :: scan (r.erase key) start) := by
  have hnew : (key, value) ∉ scan (r.erase key) start := by
    intro hmem
    have hfind := (mem_scan_iff.mp hmem).2
    rw [OrderedMap.find?_erase_self] at hfind
    cases hfind
  have hnodup := List.nodup_cons.mpr ⟨hnew, scan_nodup (r.erase key) start⟩
  rw [List.perm_ext_iff_of_nodup (r.scan_nodup start) hnodup]
  intro e
  rw [List.mem_cons, mem_scan_iff, mem_scan_iff]
  by_cases hkey : e.1 = key
  · rw [hkey, h, OrderedMap.find?_erase_self]
    constructor
    · rintro ⟨-, hvalue⟩
      exact .inl (Prod.ext hkey (Option.some.inj hvalue).symm)
    · rintro (rfl | ⟨-, hvalue⟩)
      · exact ⟨hstart, rfl⟩
      · cases hvalue
  · rw [OrderedMap.find?_erase_of_ne _ hkey]
    refine ⟨.inr, fun hmem => hmem.resolve_left ?_⟩
    rintro rfl
    exact hkey rfl

/-- Removing a key adds nothing to a listing. -/
theorem scan_erase_sublist (r : Contents) (start key : Bytes) :
    (scan (r.erase key) start).Sublist (r.scan start) := by
  rw [scan_eq_filter, scan_eq_filter]
  exact (List.filter_sublist (l := r.entries)).filter _

end Contents

end BridgeKernel
