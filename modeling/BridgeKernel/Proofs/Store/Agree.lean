import BridgeKernel.Proofs.Store.Frame
import BridgeKernel.Proofs.Store.Scan

/-!
# What a step can tell apart

Two states agree on a set of records when their bytes differ at most under keys of other records. A
step that reads records of the set only cannot tell such states apart: it answers alike on both and
leaves them in agreement. Being local in this sense is inherited by steps made of steps. Writing
never breaks it, since both states receive the same bytes. The two states may have made different
numbers of operations, so their schedules of failures must not depend on that number.
-/

namespace BridgeKernel

namespace Contents

/-- Stores that agree on the keys with a beginning have the same listing. -/
theorem scan_congr {start : Bytes} {r r' : Contents}
    (h : ∀ bytes, start <+: bytes → r'.find? bytes = r.find? bytes) :
    r'.scan start = r.scan start := by
  have hsorted (m : Contents) :
      (m.scan start).Pairwise fun a b => compare a.1 b.1 = .lt := by
    rw [scan_eq_filter]
    exact m.sorted.filter _
  refine (scan_perm h).eq_of_pairwise (fun a b _ _ hab hba => ?_) (hsorted r') (hsorted r)
  have hlt : compare a.1 a.1 = .lt := Std.TransCmp.lt_trans hab hba
  have hself : compare a.1 a.1 = .eq := Std.ReflCmp.compare_self
  rw [hself] at hlt
  cases hlt

end Contents

namespace State

/-- Two states that differ at most under keys of records outside a set, and in which the same
operations fail at all times. -/
structure Agree (P : RecordKey → Prop) (s t : State) : Prop where
  /-- They lie under one address. -/
  module_eq : t.module = s.module
  /-- What fails in one always fails in the other. -/
  faults_eq : ∀ n m op, t.faults m op = s.faults n op
  /-- Bytes are the same, unless they are those of a record outside the set. -/
  records : ∀ bytes, t.records.find? bytes = s.records.find? bytes ∨
    ∃ key, ¬ P key ∧ key.toBytes s.module = bytes

namespace Agree

variable {P Q Q' : RecordKey → Prop} {s s' t t' : State}

/-- A state agrees with itself when its failures do not depend on the number of the operation. -/
theorem refl (h : ∀ n m op, s.faults m op = s.faults n op) : s.Agree P s :=
  ⟨rfl, h, fun _ => .inl rfl⟩

theorem symm (h : s.Agree P t) : t.Agree P s := by
  refine ⟨h.module_eq.symm, fun n m op => (h.faults_eq m n op).symm, fun bytes => ?_⟩
  rw [h.module_eq]
  exact (h.records bytes).imp Eq.symm id

theorem raw?_eq (h : s.Agree P t) {key : RecordKey} (hkey : P key) : t.raw? key = s.raw? key := by
  rw [raw?, h.module_eq]
  rcases h.records (key.toBytes s.module) with hsame | ⟨key', hP, hk⟩
  · exact hsame
  · exact absurd hkey (RecordKey.toBytes_injective _ hk ▸ hP)

/-- Moving the clocks leaves states in agreement. -/
theorem untouched (h : s.Agree P t) (hs : s.Untouched s') (ht : t.Untouched t') :
    s'.Agree P t' := by
  obtain ⟨n, rfl⟩ := hs
  obtain ⟨m, rfl⟩ := ht
  exact ⟨h.module_eq, h.faults_eq, h.records⟩

/-- Writing records outside the set leaves states in agreement. -/
theorem writes (h : s.Agree P t) (hw : s.Writes Q s') (hQ : ∀ key, Q key → ¬ P key) :
    s'.Agree P t := by
  refine ⟨h.module_eq.trans hw.module_eq.symm, ?_, fun bytes => ?_⟩
  · rw [hw.faults_eq]
    exact h.faults_eq
  · rw [hw.module_eq]
    rcases hw.records bytes with hsame | ⟨key, hkey, hk, -⟩
    · rw [hsame]
      exact h.records bytes
    · exact .inr ⟨key, hQ key hkey, hk⟩

/-- Writing records outside the set on both sides leaves states in agreement. -/
theorem writes_both (h : s.Agree P t) (hs : s.Writes Q s') (hQ : ∀ key, Q key → ¬ P key)
    (ht : t.Writes Q' t') (hQ' : ∀ key, Q' key → ¬ P key) : s'.Agree P t' :=
  ((h.writes hs hQ).symm.writes ht hQ').symm

/-- The same write leaves states in agreement, whatever it is about. -/
theorem apply (h : s.Agree P t) (w : Write) (n m : Nat) :
    Agree P { s with clock := n, records := s.records.apply w }
      { t with clock := m, records := t.records.apply w } := by
  refine ⟨h.module_eq, h.faults_eq, fun bytes => ?_⟩
  simp only [Contents.find?_apply]
  split
  · exact .inl rfl
  · exact h.records bytes

theorem applyAll (h : s.Agree P t) (ws : List Write) (n m : Nat) :
    Agree P { s with clock := n, records := s.records.applyAll ws }
      { t with clock := m, records := t.records.applyAll ws } := by
  induction ws generalizing s t with
  | nil => exact ⟨h.module_eq, h.faults_eq, h.records⟩
  | cons w ws ih => exact ih (h.apply w n m)

end Agree

end State

namespace Transition

variable {ε ε' α β : Type} {P : RecordKey → Prop} {s t : State}

/-- Two outcomes with one answer, in states that agree. -/
def Alike (P : RecordKey → Prop) (p q : Except ε α × State) : Prop :=
  q.1 = p.1 ∧ p.2.Agree P q.2

/-- A step that cannot tell apart states that agree on a set of records. -/
def Local (P : RecordKey → Prop) (x : Transition ε α) : Prop :=
  ∀ s t : State, s.Agree P t → Alike P (x s) (x t)

/-- What follows alike parts of a step needs to be local only. -/
theorem Alike.bind {x : Transition ε α} {f : α → Transition ε β} (hx : Alike P (x s) (x t))
    (hf : ∀ a, (f a).Local P) : Alike P ((x >>= f) s) ((x >>= f) t) := by
  rw [bind_run, bind_run]
  rcases hs : x s with ⟨e | a, u⟩ <;> rcases ht : x t with ⟨e' | a', v⟩ <;>
    rw [hs, ht] at hx <;> obtain ⟨heq, hagree⟩ := hx <;> cases heq
  · exact ⟨rfl, hagree⟩
  · exact hf a u v hagree

theorem Alike.mapError {x : Transition ε α} (hx : Alike P (x s) (x t)) (f : ε → ε') :
    Alike P (x.mapError f s) (x.mapError f t) := by
  unfold Transition.mapError
  rcases hs : x s with ⟨e | a, u⟩ <;> rcases ht : x t with ⟨e' | a', v⟩ <;>
    rw [hs, ht] at hx <;> obtain ⟨heq, hagree⟩ := hx <;> cases heq <;> exact ⟨rfl, hagree⟩

namespace Local

protected theorem pure (a : α) : Local P (pure a : Transition ε α) := fun _ _ h => ⟨rfl, h⟩

protected theorem throw (e : ε) : Local P (throw e : Transition ε α) := fun _ _ h => ⟨rfl, h⟩

protected theorem bind {x : Transition ε α} {f : α → Transition ε β} (hx : x.Local P)
    (hf : ∀ a, (f a).Local P) : (x >>= f).Local P :=
  fun s t h => (hx s t h).bind hf

protected theorem guard {c : Prop} [Decidable c] {e : ε} {k : Unit → Transition ε β}
    (h : (k ()).Local P) : (if c then throw e >>= k else k () : Transition ε β).Local P := by
  split
  · exact fun _ _ hagree => ⟨rfl, hagree⟩
  · exact h

protected theorem mapError {x : Transition ε α} (hx : x.Local P) (f : ε → ε') :
    (x.mapError f).Local P :=
  fun s t h => (hx s t h).mapError f

protected theorem ofExcept (f : ε → ε') (r : Except ε α) : Local P (ofExcept f r) := by
  cases r with
  | error e => exact .throw _
  | ok a => exact .pure _

end Local

end Transition

open Transition

/-- An operation of the store is alike on states that agree when its answers are, and its effects
agree. -/
theorem Store.perform_alike {α : Type} {P : RecordKey → Prop} {s t : State} {op : StoreOp}
    {effect : Contents → α × Contents} (h : s.Agree P t)
    (hanswer : (effect t.records).1 = (effect s.records).1)
    (heffect : ∀ n m, State.Agree P { s with clock := n, records := (effect s.records).2 }
      { t with clock := m, records := (effect t.records).2 }) :
    Alike P (perform op effect s) (perform op effect t) := by
  unfold perform
  rw [h.faults_eq s.clock t.clock op]
  cases s.faults s.clock op with
  | some fault => exact ⟨rfl, h.untouched ⟨_, rfl⟩ ⟨_, rfl⟩⟩
  | none => exact ⟨congrArg Except.ok hanswer, heffect _ _⟩

namespace State

variable {α : Type} [Record α] {P : RecordKey → Prop} {key : RecordKey} {s t : State}

/-- Reading bytes that are the same in both states is alike. -/
theorem get?_alike {bytes : Bytes} (h : s.Agree P t)
    (hbytes : t.records.find? bytes = s.records.find? bytes) :
    Alike P (get? (α := α) bytes s) (get? bytes t) := by
  have hget : Alike P (Store.get bytes s) (Store.get bytes t) :=
    Store.perform_alike h hbytes fun _ _ => ⟨h.module_eq, h.faults_eq, h.records⟩
  refine (hget.mapError _).bind fun found => ?_
  cases found with
  | none => exact .pure _
  | some value => exact .bind (.ofExcept _ _) fun _ => .pure _

/-- Reading a record of the set is local. -/
theorem load?_local (hkey : P key) : (load? (α := α) key).Local P := by
  intro s t h
  change Alike P (get? (key.toBytes s.module) s) (get? (key.toBytes t.module) t)
  have hbytes := h.raw?_eq hkey
  rw [raw?, raw?, h.module_eq] at hbytes
  rw [h.module_eq]
  exact get?_alike h hbytes

theorem has_local (hkey : P key) : (has key).Local P := by
  intro s t h
  change Alike P (contains (key.toBytes s.module) s) (contains (key.toBytes t.module) t)
  have hbytes := h.raw?_eq hkey
  rw [raw?, raw?, h.module_eq] at hbytes
  rw [h.module_eq]
  refine (Store.perform_alike h ?_ fun _ _ => ⟨h.module_eq, h.faults_eq, h.records⟩).mapError _
  exact congrArg Option.isSome hbytes

/-- Storing a record is local, whatever the set. -/
theorem store_local (a : α) : (store key a).Local P := by
  intro s t h
  change Alike P (put (key.toBytes s.module) a s) (put (key.toBytes t.module) a t)
  rw [h.module_eq]
  unfold put
  split
  · exact (Store.perform_alike h rfl (h.apply (.put _ _))).mapError _
  · exact ⟨rfl, h⟩

theorem writeAbout_local (a : α) : (writeAbout key a).Local P := by
  intro s t h
  change Alike P (ofExcept id (writeOf (key.toBytes s.module) a) s)
    (ofExcept id (writeOf (key.toBytes t.module) a) t)
  rw [h.module_eq]
  exact Local.ofExcept _ _ s t h

theorem deleteAbout_local : (deleteAbout key).Local P := by
  intro s t h
  refine ⟨?_, h⟩
  change Except.ok (Write.delete (key.toBytes t.module)) =
    Except.ok (Write.delete (key.toBytes s.module))
  rw [h.module_eq]

theorem commit_local (ws : List Write) : (commit ws).Local P := by
  unfold commit
  split
  · exact .pure _
  · exact fun s t h => (Store.perform_alike h rfl (h.applyAll ws)).mapError _

/-- A listing is alike when the states agree on everything that it may meet. -/
theorem scan_alike {start : Bytes} (h : s.Agree P t)
    (hstart : ∀ bytes, start <+: bytes → t.records.find? bytes = s.records.find? bytes) :
    Alike P (scan (α := α) start s) (scan start t) := by
  have hscan : Alike P (Store.scan start s) (Store.scan start t) := by
    refine Store.perform_alike h (Contents.scan_congr hstart) fun _ _ => ?_
    exact ⟨h.module_eq, h.faults_eq, h.records⟩
  exact (hscan.mapError _).bind fun _ => .ofExcept _ _

end State

end BridgeKernel
