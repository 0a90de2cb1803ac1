import BridgeKernel.Proofs.Store.Calm
import BridgeKernel.Proofs.Store.Scan

/-!
# The store after a history of writes

A store that never fails is an ordered map. Calls that change it come down to single writes, in the
order of the calls and within a batch in the order of the batch, and what is found under a key is
what the last write on this key left. A listing shows these values for all keys with a common
beginning, in lexicographic order.
-/

namespace BridgeKernel

open Std Transition

/-! ## Lexicographic order -/

/-- One byte string lies before another in the lexicographic order of their bytes. -/
def Bytes.Before : Bytes → Bytes → Prop := List.Lex fun a b => a.toNat < b.toNat

/-- The comparison by which keys are kept in order is the lexicographic one. -/
theorem Bytes.compare_eq_lt_iff {x y : Bytes} : compare x y = .lt ↔ x.Before y := by
  induction x generalizing y with
  | nil => cases y <;> simp [Before, List.compare_nil_cons]
  | cons a x ih =>
    cases y with
    | nil => simp [Before, List.compare_cons_nil]
    | cons b y =>
      have hlt : compare a b = .lt ↔ a.toNat < b.toNat :=
        compareOfLessAndEq_eq_lt.trans UInt8.lt_iff_toNat_lt
      have heq : compare a b = .eq ↔ a = b := LawfulEqOrd.compare_eq_iff_eq
      rw [List.compare_cons_cons, Before, List.cons_lex_cons_iff, ← Before, ← ih, ← hlt, ← heq]
      cases compare a b <;> simp

/-! ## The last write on a key -/

namespace Write

/-- The last of several writes that touches a key. -/
def lastOn? (key : Bytes) (writes : List Write) : Option Write :=
  (writes.filter fun w => w.key = key).getLast?

theorem lastOn?_snoc (key : Bytes) (writes : List Write) (w : Write) :
    lastOn? key (writes ++ [w]) = if w.key = key then some w else lastOn? key writes := by
  rw [lastOn?, List.filter_append]
  split
  · next h => simp [h]
  · next h => simp [h, lastOn?]

end Write

namespace Contents

theorem applyAll_append (records : Contents) (front back : List Write) :
    records.applyAll (front ++ back) = (records.applyAll front).applyAll back :=
  List.foldl_append

/-- Under a key stands what the last write on it left. -/
theorem find?_applyAll (records : Contents) (writes : List Write) (key : Bytes) :
    (records.applyAll writes).find? key =
      (Write.lastOn? key writes).elim (records.find? key) Write.value? := by
  induction writes using List.reverseRecOn with
  | nil => rfl
  | append_singleton writes w ih =>
    rw [applyAll_append, Write.lastOn?_snoc]
    change ((records.applyAll writes).apply w).find? key = _
    rw [find?_apply, ih]
    by_cases h : key = w.key
    · rw [if_pos h, if_pos h.symm, Option.elim_some]
    · rw [if_neg h, if_neg fun h' => h h'.symm]

/-- A listing is in lexicographic order. -/
theorem scan_ascending (records : Contents) (start : Bytes) :
    (records.scan start).Pairwise fun a b => a.1.Before b.1 := by
  rw [scan_eq_filter]
  exact (records.sorted.imp Bytes.compare_eq_lt_iff.mp).filter _

end Contents

/-! ## Calls -/

/-- A call that changes the store. -/
inductive StoreCall where
  /-- Sets the value of a key. -/
  | put (key value : Bytes)
  /-- Removes the value of a key. -/
  | delete (key : Bytes)
  /-- Applies several writes at once. -/
  | batch (writes : List Write)

namespace StoreCall

/-- The single writes of a call, in order. -/
def writes : StoreCall → List Write
  | .put key value => [.put key value]
  | .delete key => [.delete key]
  | .batch writes => writes

/-- Carries out a call. -/
def perform : StoreCall → Transition StoreFault Unit
  | .put key value => Store.put key value
  | .delete key => Store.delete key
  | .batch writes => Store.batch writes

/-- Carries out calls in order, up to the first that fails. -/
def performAll (calls : List StoreCall) : Transition StoreFault Unit := calls.forM perform

/-- The value that the last write of some calls on a key leaves under it. -/
def left? (calls : List StoreCall) (key : Bytes) : Option Bytes :=
  (Write.lastOn? key (calls.flatMap writes)).bind Write.value?

variable {s : State}

/-- A call on a store that never fails makes its writes. -/
theorem perform_answers (hs : s.Calm) (call : StoreCall) :
    call.perform s = (.ok (),
      { s with clock := s.clock + 1, records := s.records.applyAll call.writes }) := by
  cases call with
  | put key value =>
    rw [perform, Store.put, Store.perform_of_calm hs]
    rfl
  | delete key =>
    rw [perform, Store.delete, Store.perform_of_calm hs]
    rfl
  | batch writes => rw [perform, Store.batch, Store.perform_of_calm hs, StoreCall.writes]

/-- Calls on a store that never fails make all their writes in order. -/
theorem performAll_answers (hs : s.Calm) (calls : List StoreCall) :
    ∃ t, performAll calls s = (.ok (), t) ∧ t.Calm ∧
      t.records = s.records.applyAll (calls.flatMap writes) := by
  induction calls generalizing s with
  | nil => exact ⟨s, rfl, hs, rfl⟩
  | cons call calls ih =>
    have hcall := perform_answers hs call
    obtain ⟨t, hrest, ht, hrecords⟩ := ih (s := { s with
      clock := s.clock + 1, records := s.records.applyAll call.writes }) hs
    refine ⟨t, ?_, ht, ?_⟩
    · change (call.perform >>= fun _ => performAll calls) s = _
      rw [run_bind hcall, hrest]
    · rw [hrecords, List.flatMap_cons, Contents.applyAll_append]

/-- Under a key stands what the last write of the calls on it left, when they began with an empty
store. -/
theorem find?_of_performed {t : State} {calls : List StoreCall}
    (hrecords : t.records = Contents.applyAll .empty (calls.flatMap writes)) (key : Bytes) :
    t.records.find? key = left? calls key := by
  rw [hrecords, Contents.find?_applyAll, left?]
  cases Write.lastOn? key (calls.flatMap writes) <;> rfl

/-- A store that never fails and begins empty is an ordered map. Whatever calls have changed it, it
answers for a key by the last write on that key, those of a batch taken in order. And a listing
holds exactly the pairs whose key begins with the given bytes, in strictly ascending lexicographic
order of their keys, so each of them once. -/
theorem store_is_ordered_map (module : Bytes) (calls : List StoreCall) :
    ∃ t, performAll calls (State.initial module) = (.ok (), t) ∧
      (∀ key, (Store.get key t).1 = .ok (left? calls key) ∧
        (Store.hasKey key t).1 = .ok (left? calls key).isSome) ∧
      ∀ start, ∃ listed, (Store.scan start t).1 = .ok listed ∧
        (listed.Pairwise fun a b => a.1.Before b.1) ∧
        ∀ key value, (key, value) ∈ listed ↔ start <+: key ∧ left? calls key = some value := by
  obtain ⟨t, hperformed, ht, hrecords⟩ :=
    performAll_answers (s := State.initial module) (fun _ _ => rfl) calls
  have hfind := find?_of_performed hrecords
  refine ⟨t, hperformed, fun key => ⟨?_, ?_⟩, fun start => ⟨t.records.scan start, ?_, ?_, ?_⟩⟩
  · rw [Store.get, Store.perform_of_calm ht, hfind]
  · rw [Store.hasKey, Store.perform_of_calm ht, OrderedMap.contains, hfind]
  · rw [Store.scan, Store.perform_of_calm ht]
  · exact t.records.scan_ascending start
  · intro key value
    rw [Contents.mem_scan_iff, hfind]

/-- A batch that touches a key several times leaves what its last write on the key says. -/
example : left? [.put [1] [5], .batch [.delete [1], .put [1] [6], .delete [2]]] [1] = some [6] := by
  decide

end StoreCall

end BridgeKernel
