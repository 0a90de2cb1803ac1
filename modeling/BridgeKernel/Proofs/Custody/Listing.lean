import BridgeKernel.Proofs.Custody.Outputs
import BridgeKernel.Proofs.Store.Frame
import Mathlib.Data.Set.List

/-!
# The listing of a chain's payments

Keys are plain concatenations: what tells two records apart is that tags hold no slash and that all
segments before the last have fixed widths. So no record of another kind or chain stands between the
payments of a chain, whatever ids and texts the other keys end with, and since a payment's key ends
with its transaction id the payments are listed in the order of their ids.
-/

namespace BridgeKernel

open Std

/-- Byte strings with a common beginning are ordered as their rests. -/
theorem Bytes.compare_append_left (start x y : Bytes) :
    compare (start ++ x) (start ++ y) = compare x y := by
  induction start with
  | nil => rfl
  | cons b start ih =>
    have hself : compare b b = .eq := ReflCmp.compare_self
    rw [List.cons_append, List.cons_append, List.compare_cons_cons, hself]
    exact ih

namespace RecordKey

variable {module : Bytes} {chain : ChainId}

/-- The key of a payment is the beginning of its chain's payments and the transaction id. -/
theorem draft_toBytes (module : Bytes) (chain : ChainId) (txid : Hash) :
    (draft chain txid).toBytes module =
      keyBytes module .draft [.number chain] ++ txid.toBytes := by
  simp [toBytes, keyBytes, kind, segments, KeySegment.toBytes]

/-- Payments of one chain are ordered by their transaction ids. -/
theorem compare_draft (a b : Hash) :
    compare ((draft chain a).toBytes module) ((draft chain b).toBytes module) = compare a b := by
  rw [draft_toBytes, draft_toBytes, Bytes.compare_append_left, FixedBytes.compare_def]

end RecordKey

namespace State

variable {s : State} {chain : ChainId}

/-- Every key in the store is that of a record; what lies under it may be anything. -/
def Keyed (s : State) : Prop :=
  ∀ bytes value, s.records.find? bytes = some value →
    ∃ key : RecordKey, key.toBytes s.module = bytes

/-- A store in form has no other keys than those of records. -/
theorem WellFormed.keyed (hs : s.WellFormed) : s.Keyed := by
  intro bytes value h
  obtain ⟨key, hkey, -⟩ := hs bytes value h
  exact ⟨key, hkey⟩

/-- Changes of records bring no other keys into a store, whatever bytes they leave. -/
theorem Keyed.changeAll (hs : s.Keyed) (changes : List Change) : (s.changeAll changes).Keyed := by
  induction changes generalizing s with
  | nil => exact hs
  | cons c changes ih =>
    apply ih
    intro bytes value h
    have hfind := Contents.find?_apply s.records (c.toWrite s.module) bytes
    rw [Change.toWrite_key] at hfind
    by_cases hk : bytes = c.key.toBytes s.module
    · exact ⟨c.key, hk.symm⟩
    · rw [if_neg hk] at hfind
      exact hs bytes value (hfind.symm.trans h)

theorem initial_keyed (module : Bytes) : (initial module).Keyed := nofun

/-- A listing of what belongs to transaction ids: each id once, in ascending order. -/
structure Lists {α : Type} (listed : List (Hash × α)) (found : Hash → Option α) : Prop where
  /-- The ids ascend. -/
  ascending : listed.Pairwise fun a b => compare a.1 b.1 = .lt
  /-- What is listed with an id is what belongs to it. -/
  mem_iff : ∀ txid value, (txid, value) ∈ listed ↔ found txid = some value

/-- The pairs under the beginning of a chain's payments are those under the keys of its payments. -/
theorem Keyed.mem_scan (hs : s.Keyed) {e : Bytes × Bytes}
    (h : e ∈ s.records.scan (keyBytes s.module .draft [.number chain])) :
    ∃ txid, ((RecordKey.draft chain txid).toBytes s.module, e.2) = e ∧
      s.raw? (.draft chain txid) = some e.2 := by
  obtain ⟨hstart, hfind⟩ := Contents.mem_scan_iff.mp h
  obtain ⟨key, hkey⟩ := hs e.1 e.2 hfind
  rw [← hkey] at hstart
  obtain ⟨txid, rfl⟩ := RecordKey.draft_prefix_iff.mp hstart
  refine ⟨txid, Prod.ext hkey rfl, ?_⟩
  rw [raw?, hkey]
  exact hfind

/-- The bytes under the beginning of a chain's payments are listed by transaction id. -/
theorem Keyed.scan_eq (hs : s.Keyed) (chain : ChainId) :
    ∃ listed : List (Hash × Bytes),
      s.records.scan (keyBytes s.module .draft [.number chain]) =
        listed.map (fun e => ((RecordKey.draft chain e.1).toBytes s.module, e.2)) ∧
      Lists listed fun txid => s.raw? (.draft chain txid) := by
  -- Every pair of the scan is the image of an id and its bytes, so the scan is the image of a list.
  have hrange : s.records.scan (keyBytes s.module .draft [.number chain]) ∈
      Set.range (List.map fun e : Hash × Bytes =>
        ((RecordKey.draft chain e.1).toBytes s.module, e.2)) := by
    rw [Set.range_list_map]
    intro e he
    obtain ⟨txid, heq, -⟩ := hs.mem_scan he
    exact ⟨(txid, e.2), heq⟩
  obtain ⟨listed, hlisted⟩ := hrange
  refine ⟨listed, hlisted.symm, ?_, ?_⟩
  · have hsorted : (s.records.scan (keyBytes s.module .draft [.number chain])).Pairwise
        fun a b => compare a.1 b.1 = .lt := by
      rw [Contents.scan_eq_filter]
      exact s.records.sorted.filter _
    rw [← hlisted, List.pairwise_map] at hsorted
    exact hsorted.imp fun h => RecordKey.compare_draft _ _ ▸ h
  · intro txid value
    constructor
    · intro hmem
      have hscan := hlisted ▸ List.mem_map_of_mem hmem
      exact (Contents.mem_scan_iff.mp hscan).2
    · intro hraw
      have hstart : keyBytes s.module .draft [.number chain] <+:
          (RecordKey.draft chain txid).toBytes s.module :=
        RecordKey.draft_prefix_iff.mpr ⟨txid, rfl⟩
      have hscan : ((RecordKey.draft chain txid).toBytes s.module, value) ∈ s.records.scan _ :=
        Contents.mem_scan_iff.mpr ⟨hstart, hraw⟩
      rw [← hlisted] at hscan
      obtain ⟨⟨txid', value'⟩, hmem, heq⟩ := List.mem_map.mp hscan
      obtain ⟨hkey, rfl⟩ := Prod.mk.inj heq
      obtain ⟨-, rfl⟩ := RecordKey.draft.inj (RecordKey.toBytes_injective _ hkey)
      exact hmem

/-- Reading what is listed keeps the order. -/
theorem Lists.filterMap {α β : Type} {listed : List (Hash × α)} {found : Hash → Option α}
    (h : Lists listed found) (read? : α → Option β) :
    Lists (listed.filterMap fun e => (read? e.2).map (e.1, ·)) fun txid =>
      (found txid).bind read? where
  ascending := by
    refine h.ascending.filterMap _ fun a b hlt a' ha b' hb => ?_
    obtain ⟨_, -, rfl⟩ := Option.map_eq_some_iff.mp ha
    obtain ⟨_, -, rfl⟩ := Option.map_eq_some_iff.mp hb
    exact hlt
  mem_iff := by
    intro txid b
    simp only [List.mem_filterMap, Option.map_eq_some_iff, Option.bind_eq_some_iff]
    constructor
    · rintro ⟨⟨txid', a⟩, hmem, b', hread, heq⟩
      obtain ⟨rfl, rfl⟩ := Prod.mk.inj heq
      exact ⟨a, (h.mem_iff _ _).mp hmem, hread⟩
    · rintro ⟨a, hfound, hread⟩
      exact ⟨(txid, a), (h.mem_iff _ _).mpr hfound, b, hread, rfl⟩

/-- Every payment of a chain can be read. -/
def Readable (s : State) (chain : ChainId) : Prop :=
  ∀ txid value, s.raw? (.draft chain txid) = some value →
    ∃ draft : SpendDraft, Record.decode value = .ok draft

/-- The payments of a store in form can be read. -/
theorem WellFormed.readable (hs : s.WellFormed) (chain : ChainId) : s.Readable chain := by
  intro txid value hraw
  cases hs.form hraw with
  | draft draft hfits => exact ⟨draft, Record.decode_write hfits⟩

/-- Pairs that can all be read are all read. -/
theorem mapM_decodeAt {α : Type} [Record α] {pairs : List (Bytes × Bytes)}
    (h : ∀ e ∈ pairs, ∃ a : α, Record.decode e.2 = .ok a) :
    (pairs.mapM fun e => do return (e.1, ← decodeAt e.1 e.2) :
      Except StorageError (List (Bytes × α))) =
      .ok (pairs.filterMap fun e => (Record.decode e.2).toOption.map (e.1, ·)) := by
  induction pairs with
  | nil => rfl
  | cons e pairs ih =>
    obtain ⟨a, ha⟩ := h e List.mem_cons_self
    have hrest := ih fun d hd => h d (List.mem_cons_of_mem _ hd)
    have hdecode : decodeAt (α := α) e.1 e.2 = .ok a := by rw [decodeAt, ha]
    rw [List.mapM_cons, hrest, hdecode, List.filterMap_cons, ha]
    rfl

/-- A listing that the store answers reads the pairs that it holds. -/
theorem scan_answer {α : Type} [Record α] {start : Bytes} (hcalm : s.faults s.clock .scan = none)
    (h : ∀ e ∈ s.records.scan start, ∃ a : α, Record.decode e.2 = .ok a) :
    (scan start s).1 = .ok ((s.records.scan start).filterMap fun e =>
      (Record.decode (α := α) e.2).toOption.map (e.1, ·)) := by
  have hperform : Store.scan start s =
      (.ok (s.records.scan start), { s with clock := s.clock + 1 }) := by
    rw [Store.scan, Store.perform, hcalm]
  unfold scan
  rw [Transition.bind_run, Transition.mapError_run, hperform]
  change (Transition.ofExcept id (List.mapM _ _) _).1 = _
  rw [mapM_decodeAt h]
  rfl

/-- The payments of a chain are listed by transaction id, when the store answers and all of them
can be read. -/
theorem Keyed.scan_drafts (hs : s.Keyed) (hcalm : s.faults s.clock .scan = none)
    (hread : s.Readable chain) :
    ∃ drafts : List (Hash × SpendDraft),
      (scan (keyBytes s.module .draft [.number chain]) s).1 = .ok (drafts.map fun e =>
        ((RecordKey.draft chain e.1).toBytes s.module, e.2)) ∧
      Lists drafts fun txid => s.lookup (.draft chain txid) := by
  obtain ⟨listed, hscan, hlists⟩ := hs.scan_eq chain
  refine ⟨_, ?_, hlists.filterMap fun value => (Record.decode value).toOption⟩
  have hall : ∀ e ∈ s.records.scan (keyBytes s.module .draft [.number chain]),
      ∃ draft : SpendDraft, Record.decode e.2 = .ok draft := by
    intro e he
    obtain ⟨txid, -, hraw⟩ := hs.mem_scan he
    exact hread txid e.2 hraw
  rw [scan_answer hcalm hall, hscan, List.filterMap_map, List.map_filterMap]
  simp only [Function.comp_def, Option.map_map]

/-- Under one module address no two records have one key, and whatever else a store holds, the
listing of a chain's payments is the payments of this chain and nothing else, in ascending order of
their transaction ids: as raw bytes, and as payments when the store answers and they can be read. -/
theorem records_kept_apart (module : Bytes) :
    Function.Injective (RecordKey.toBytes module) ∧
    ∀ s : State, s.module = module → s.Keyed → ∀ chain,
      (∃ listed : List (Hash × Bytes),
        s.records.scan (keyBytes module .draft [.number chain]) =
          listed.map (fun e => ((RecordKey.draft chain e.1).toBytes module, e.2)) ∧
        Lists listed fun txid => s.raw? (.draft chain txid)) ∧
      (s.faults s.clock .scan = none → s.Readable chain →
        ∃ drafts : List (Hash × SpendDraft),
          (scan (keyBytes module .draft [.number chain]) s).1 =
            .ok (drafts.map fun e => ((RecordKey.draft chain e.1).toBytes module, e.2)) ∧
          Lists drafts fun txid => s.lookup (.draft chain txid)) := by
  refine ⟨RecordKey.toBytes_injective module, ?_⟩
  rintro s rfl hs chain
  exact ⟨hs.scan_eq chain, fun hcalm hread => hs.scan_drafts hcalm hread⟩

/-- A payment without outputs. -/
def bareDraft (txid : Hash) : SpendDraft := ⟨txid, "", [], [], 0⟩

/-- A store with two payments of chain 1, the later id first, a payment of chain 2 with one of these
ids, marks whose ids spell the beginning of a payment's key, and a script that cannot be read. -/
def mixedStore : State :=
  (initial [0x78, 0x63]).changeAll [
    .store (.draft 1 (.ofNatBE 32 9)) (bareDraft (.ofNatBE 32 9)),
    .store (.applied 1 (keyBytes [0x78, 0x63] .draft [.number 1])) (⟨100⟩ : ReplayMarker),
    .store (.draft 2 (.ofNatBE 32 9)) (bareDraft (.ofNatBE 32 9)),
    .store (.draft 1 (.ofNatBE 32 4)) (bareDraft (.ofNatBE 32 4)),
    .store (.applied 1 []) (⟨100⟩ : ReplayMarker),
    ⟨.redeem 1 "draft/", some [0xff]⟩]

theorem mixedStore_readable : mixedStore.Readable 1 := by
  intro txid value h
  have hchains : (1 : ChainId) ≠ 2 := by decide
  simp only [mixedStore, changeAll_cons, changeAll_nil, raw?_change, Change.store_key,
    RecordKey.draft.injEq, reduceCtorEq, if_false, true_and, hchains, false_and] at h
  split at h
  · obtain rfl := Option.some.inj h
    exact ⟨_, Record.decode_write (a := bareDraft (.ofNatBE 32 4)) (by decide)⟩
  · split at h
    · obtain rfl := Option.some.inj h
      exact ⟨_, Record.decode_write (a := bareDraft (.ofNatBE 32 9)) (by decide)⟩
    · exact nomatch h

theorem mixedStore_kept_apart :
    mixedStore.Keyed ∧ mixedStore.faults mixedStore.clock .scan = none ∧ mixedStore.Readable 1 ∧
    ∃ drafts : List (Hash × SpendDraft),
      (scan (keyBytes [0x78, 0x63] .draft [.number 1]) mixedStore).1 =
        .ok (drafts.map fun e => ((RecordKey.draft 1 e.1).toBytes [0x78, 0x63], e.2)) ∧
      Lists drafts fun txid => mixedStore.lookup (.draft 1 txid) := by
  have hkeyed : mixedStore.Keyed := (initial_keyed _).changeAll _
  obtain ⟨-, hlisting⟩ := records_kept_apart [0x78, 0x63]
  obtain ⟨-, hdrafts⟩ := hlisting mixedStore rfl hkeyed 1
  exact ⟨hkeyed, rfl, mixedStore_readable, hdrafts rfl mixedStore_readable⟩

example : (mixedStore.drafts 1).map (·.txid) = [.ofNatBE 32 4, .ofNatBE 32 9] := by decide +kernel

end State

end BridgeKernel
