import BridgeKernel.Proofs.Store.Keys
import BridgeKernel.Proofs.Wire.Lawful
import BridgeKernel.Store.State

/-!
# What one step on the store does

Inversion lemmas for transitions. A step that came to a result ran its parts one after another, and
each operation of the store either failed without effect or had its effect on the records. Reading
steps move nothing but the clock, and what they read is a function of the records.
-/

namespace BridgeKernel

open Std

namespace OrderedMap

variable {κ ν : Type} [Ord κ] [TransOrd κ] [LawfulEqOrd κ]

@[simp] theorem find?_insert_self (m : OrderedMap κ ν) (k : κ) (v : ν) :
    (m.insert k v).find? k = some v := by
  rw [find?_insert, if_pos ReflCmp.compare_self]

theorem find?_insert_of_ne (m : OrderedMap κ ν) {k k' : κ} (v : ν) (h : k' ≠ k) :
    (m.insert k v).find? k' = m.find? k' := by
  rw [find?_insert, if_neg fun e => h (LawfulEqCmp.eq_of_compare e)]

@[simp] theorem find?_erase_self (m : OrderedMap κ ν) (k : κ) : (m.erase k).find? k = none := by
  rw [find?_erase, if_pos ReflCmp.compare_self]

theorem find?_erase_of_ne (m : OrderedMap κ ν) {k k' : κ} (h : k' ≠ k) :
    (m.erase k).find? k' = m.find? k' := by
  rw [find?_erase, if_neg fun e => h (LawfulEqCmp.eq_of_compare e)]

end OrderedMap

/-- What a write leaves under its key. -/
def Write.value? : Write → Option Bytes
  | .put _ value => some value
  | .delete _ => none

namespace Contents

/-- A write changes what is under its own key only. -/
theorem find?_apply (records : Contents) (w : Write) (bytes : Bytes) :
    (records.apply w).find? bytes = if bytes = w.key then w.value? else records.find? bytes := by
  split
  · next h =>
    subst h
    cases w <;> simp [apply, Write.key, Write.value?]
  · next h =>
    cases w with
    | put key value => exact OrderedMap.find?_insert_of_ne _ _ h
    | delete key => exact OrderedMap.find?_erase_of_ne _ h

end Contents

namespace State

/-- Nothing but the clock has moved. -/
def Untouched (s t : State) : Prop := ∃ n, t = { s with clock := n }

namespace Untouched

variable {s t u : State}

theorem refl (s : State) : s.Untouched s := ⟨s.clock, rfl⟩

theorem trans (h : s.Untouched t) (h' : t.Untouched u) : s.Untouched u := by
  obtain ⟨n, rfl⟩ := h
  obtain ⟨m, rfl⟩ := h'
  exact ⟨m, rfl⟩

theorem module_eq (h : s.Untouched t) : t.module = s.module := by
  obtain ⟨n, rfl⟩ := h
  rfl

theorem records_eq (h : s.Untouched t) : t.records = s.records := by
  obtain ⟨n, rfl⟩ := h
  rfl

end Untouched

/-- The bytes kept about something, if any. -/
def raw? (s : State) (key : RecordKey) : Option Bytes := s.records.find? (key.toBytes s.module)

/-- The record kept about something, if there is one that can be read. -/
def lookup {α : Type} [Record α] (s : State) (key : RecordKey) : Option α :=
  (s.raw? key).bind fun bytes => (Record.decode bytes).toOption

theorem Untouched.raw?_eq {s t : State} (h : s.Untouched t) (key : RecordKey) :
    t.raw? key = s.raw? key := by
  obtain ⟨n, rfl⟩ := h
  rfl

theorem Untouched.lookup_eq {α : Type} [Record α] {s t : State} (h : s.Untouched t)
    (key : RecordKey) : t.lookup (α := α) key = s.lookup key := by
  rw [lookup, h.raw?_eq, lookup]

/-- What is read about something depends on the bytes kept about it only. -/
theorem lookup_congr {α : Type} [Record α] {s t : State} {key : RecordKey}
    (h : t.raw? key = s.raw? key) : t.lookup (α := α) key = s.lookup key := by
  rw [lookup, h, lookup]

theorem lookup_of_raw?_none {α : Type} [Record α] {s : State} {key : RecordKey}
    (h : s.raw? key = none) : s.lookup (α := α) key = none := by
  rw [lookup, h]
  rfl

theorem lookup_of_raw?_some {α : Type} [Record α] [LawfulRecord α] {s : State} {key : RecordKey}
    {a : α} (h : s.raw? key = some (Record.write a)) (hf : Record.fits a = true) :
    s.lookup key = some a := by
  simp only [lookup, h, Option.bind_some, Record.decode_write hf]
  rfl

end State

/-! ## Parts of a transition -/

namespace Transition

variable {ε ε' α β : Type} {s t : State}

/-- A step goes on with the result of its first part and stops at its refusal. -/
theorem bind_run (x : Transition ε α) (f : α → Transition ε β) (s : State) :
    (x >>= f) s = match x s with
      | (.ok a, t) => f a t
      | (.error e, t) => (.error e, t) := by
  change (match x s with
    | (a, t) => (ExceptT.bindCont f a : StateM State (Except ε β)) t) = _
  rcases x s with ⟨_ | _, t⟩ <;> rfl

/-- Both parts of a step that came to a result came to one. -/
theorem bind_ok {x : Transition ε α} {f : α → Transition ε β} {b : β}
    (h : (x >>= f) s = (.ok b, t)) : ∃ a u, x s = (.ok a, u) ∧ f a u = (.ok b, t) := by
  rw [bind_run] at h
  split at h
  · next a u hx => exact ⟨a, u, hx, h⟩
  · cases h

/-- A step that was refused was refused in its first part, or after it. -/
theorem bind_error {x : Transition ε α} {f : α → Transition ε β} {e : ε}
    (h : (x >>= f) s = (.error e, t)) :
    x s = (.error e, t) ∨ ∃ a u, x s = (.ok a, u) ∧ f a u = (.error e, t) := by
  rw [bind_run] at h
  split at h
  · next a u hx => exact .inr ⟨a, u, hx, h⟩
  · next e' u hx =>
    cases h
    exact .inl hx

theorem pure_ok {a b : α} (h : (pure a : Transition ε α) s = (.ok b, t)) : b = a ∧ s = t := by
  cases h
  exact ⟨rfl, rfl⟩

theorem throw_ok {e : ε} {a : α} (h : (throw e : Transition ε α) s = (.ok a, t)) : False := by
  cases h

theorem get_ok {a : State} (h : (get : Transition ε State) s = (.ok a, t)) : a = s ∧ s = t := by
  cases h
  exact ⟨rfl, rfl⟩

/-- A guarded step that came to a result passed its guard. -/
theorem guard_ok {c : Prop} [Decidable c] {e : ε} {k : Unit → Transition ε β} {b : β}
    (h : (if c then throw e >>= k else k ()) s = (.ok b, t)) : ¬ c ∧ k () s = (.ok b, t) := by
  split at h
  · obtain ⟨_, _, hthrow, _⟩ := bind_ok h
    exact (throw_ok hthrow).elim
  · next hc => exact ⟨hc, h⟩

theorem mapError_ok {f : ε → ε'} {x : Transition ε α} {a : α}
    (h : x.mapError f s = (.ok a, t)) : x s = (.ok a, t) := by
  unfold mapError at h
  split at h
  · next hx =>
    cases h
    exact hx
  · cases h

/-- A step refused with a larger refusal was refused with one that it stands for. -/
theorem mapError_error {f : ε → ε'} {x : Transition ε α} {e' : ε'}
    (h : x.mapError f s = (.error e', t)) : ∃ e, x s = (.error e, t) ∧ e' = f e := by
  unfold mapError at h
  split at h
  · cases h
  · next e u hx =>
    cases h
    exact ⟨e, hx, rfl⟩

theorem mapError_run (f : ε → ε') (x : Transition ε α) (s : State) :
    x.mapError f s = ((x s).1.mapError f, (x s).2) := by
  unfold mapError
  rcases x s with ⟨e | a, t⟩ <;> rfl

theorem mapError_snd (f : ε → ε') (x : Transition ε α) (s : State) :
    (x.mapError f s).2 = (x s).2 := by
  rw [mapError_run]

theorem ofExcept_error {f : ε → ε'} {r : Except ε α} {e' : ε'}
    (h : ofExcept f r s = (.error e', t)) : s = t ∧ ∃ e, r = .error e ∧ e' = f e := by
  cases r with
  | error e =>
    cases h
    exact ⟨rfl, e, rfl, rfl⟩
  | ok a => cases h

theorem ofExcept_ok {f : ε → ε'} {r : Except ε α} {a : α}
    (h : ofExcept f r s = (.ok a, t)) : r = .ok a ∧ s = t := by
  cases r with
  | error e => exact (throw_ok h).elim
  | ok b =>
    obtain ⟨rfl, rfl⟩ := pure_ok h
    exact ⟨rfl, rfl⟩

/-- Steps that answer without moving anything answer together. -/
theorem mapM_ok {γ : Type} {f : γ → Transition ε α} {g : γ → α} {cs : List γ} {as : List α}
    (hf : ∀ c a t, f c s = (.ok a, t) → s = t ∧ a = g c) (h : cs.mapM f s = (.ok as, t)) :
    s = t ∧ as = cs.map g := by
  induction cs generalizing as t with
  | nil =>
    obtain ⟨rfl, rfl⟩ := pure_ok h
    exact ⟨rfl, rfl⟩
  | cons c cs ih =>
    rw [List.mapM_cons] at h
    obtain ⟨a, u, hc, h⟩ := bind_ok h
    obtain ⟨rfl, rfl⟩ := hf c a u hc
    obtain ⟨rest, v, hcs, h⟩ := bind_ok h
    obtain ⟨rfl, rfl⟩ := ih hcs
    obtain ⟨rfl, rfl⟩ := pure_ok h
    exact ⟨rfl, rfl⟩

/-- A step is covered by a transitive relation when its parts are. -/
theorem bind_leads {R : State → State → Prop} (trans : ∀ {a b c}, R a b → R b c → R a c)
    {x : Transition ε α} {f : α → Transition ε β} (hx : R s (x s).2)
    (hf : ∀ a u, x s = (.ok a, u) → R u (f a u).2) : R s ((x >>= f) s).2 := by
  rw [bind_run]
  rcases hr : x s with ⟨e | a, u⟩
  · rwa [hr] at hx
  · rw [hr] at hx
    exact trans hx (hf a u hr)

/-- A step that moves nothing but the clock. -/
def ReadOnly (x : Transition ε α) : Prop := ∀ s : State, s.Untouched (x s).2

namespace ReadOnly

protected theorem pure (a : α) : ReadOnly (pure a : Transition ε α) := fun s => .refl s

protected theorem throw (e : ε) : ReadOnly (throw e : Transition ε α) := fun s => .refl s

protected theorem get : ReadOnly (get : Transition ε State) := fun s => .refl s

protected theorem bind {x : Transition ε α} {f : α → Transition ε β} (hx : x.ReadOnly)
    (hf : ∀ a, (f a).ReadOnly) : (x >>= f).ReadOnly := by
  intro s
  have hs := hx s
  rw [bind_run]
  rcases hr : x s with ⟨e | a, u⟩
  · simpa [hr] using hs
  · rw [hr] at hs
    exact hs.trans (hf a u)

protected theorem guard {c : Prop} [Decidable c] {e : ε} {k : Unit → Transition ε β}
    (h : (k ()).ReadOnly) : (if c then throw e >>= k else k () : Transition ε β).ReadOnly := by
  split
  · exact fun s => .refl s
  · exact h

protected theorem mapError {x : Transition ε α} (hx : x.ReadOnly) (f : ε → ε') :
    (x.mapError f).ReadOnly := by
  intro s
  rw [mapError_snd]
  exact hx s

protected theorem ofExcept (f : ε → ε') (r : Except ε α) : ReadOnly (ofExcept f r) := by
  cases r with
  | error e => exact .throw _
  | ok a => exact .pure _

protected theorem mapM {γ : Type} {f : γ → Transition ε α} (hf : ∀ c, (f c).ReadOnly)
    {cs : List γ} : (cs.mapM f).ReadOnly := by
  induction cs with
  | nil => exact .pure _
  | cons c cs ih =>
    rw [List.mapM_cons]
    exact .bind (hf c) fun _ => .bind ih fun _ => .pure _

/-- What a reading step leaves behind, seen from its result. -/
theorem untouched {x : Transition ε α} (hx : x.ReadOnly) {r : Except ε α} (h : x s = (r, t)) :
    s.Untouched t := by
  have hs := hx s
  rwa [h] at hs

end ReadOnly

/-- A step that has no effect when it is refused. -/
def Atomic (x : Transition ε α) : Prop :=
  ∀ (s t : State) (e : ε), x s = (.error e, t) → s.Untouched t

theorem ReadOnly.atomic {x : Transition ε α} (hx : x.ReadOnly) : x.Atomic :=
  fun _ _ _ h => hx.untouched h

namespace Atomic

/-- Reading first, a step has no effect when refused if what follows has none. -/
protected theorem read {x : Transition ε α} {f : α → Transition ε β} (hx : x.ReadOnly)
    (hf : ∀ a, (f a).Atomic) : (x >>= f).Atomic := by
  intro s t e h
  rw [bind_run] at h
  split at h
  · next a u hr => exact (hx.untouched hr).trans (hf a _ _ _ h)
  · next hr =>
    cases h
    exact hx.untouched hr

/-- A step that cannot be refused any more after its first part inherits its atomicity. -/
protected theorem andThen {x : Transition ε α} (hx : x.Atomic) (g : α → β) :
    (x >>= fun a => pure (g a)).Atomic := by
  intro s t e h
  rw [bind_run] at h
  split at h
  · cases h
  · next hr =>
    cases h
    exact hx _ _ _ hr

protected theorem guard {c : Prop} [Decidable c] {e : ε} {k : Unit → Transition ε β}
    (h : (k ()).Atomic) : (if c then throw e >>= k else k () : Transition ε β).Atomic := by
  split
  · exact (ReadOnly.throw e).atomic
  · exact h

protected theorem mapError {x : Transition ε α} (hx : x.Atomic) (f : ε → ε') :
    (x.mapError f).Atomic := by
  intro s t e h
  obtain ⟨cause, hr, -⟩ := mapError_error h
  exact hx _ _ _ hr

end Atomic

end Transition

/-! ## Operations of the store -/

namespace Store

variable {α : Type} {s t : State}

/-- An operation that was carried out had its effect on the records. -/
theorem perform_ok {op : StoreOp} {effect : Contents → α × Contents} {a : α}
    (h : perform op effect s = (.ok a, t)) :
    a = (effect s.records).1 ∧
      t = { s with clock := s.clock + 1, records := (effect s.records).2 } := by
  unfold perform at h
  split at h
  · cases h
  · cases h
    exact ⟨rfl, rfl⟩

/-- An operation that failed had no effect. -/
theorem perform_error {op : StoreOp} {effect : Contents → α × Contents} {fault : StoreFault}
    (h : perform op effect s = (.error fault, t)) : s.Untouched t := by
  unfold perform at h
  split at h
  · cases h
    exact ⟨_, rfl⟩
  · cases h

/-- An operation that leaves the records alone only reads. -/
theorem perform_readOnly {op : StoreOp} {effect : Contents → α × Contents}
    (h : ∀ records, (effect records).2 = records) : (perform op effect).ReadOnly := by
  intro s
  rcases hp : perform op effect s with ⟨e | a, t⟩
  · exact perform_error hp
  · obtain ⟨-, rfl⟩ := perform_ok hp
    exact ⟨s.clock + 1, by rw [h]⟩

end Store

namespace State

variable {α : Type} [Record α] {s t : State} {key : RecordKey}

open Transition

theorem get?_readOnly (bytes : Bytes) : (get? (α := α) bytes).ReadOnly := by
  refine .bind (.mapError (Store.perform_readOnly fun _ => rfl) _) fun found => ?_
  cases found with
  | none => exact .pure _
  | some value => exact .bind (.ofExcept _ _) fun _ => .pure _

theorem keyOf_readOnly (key : RecordKey) : (keyOf key).ReadOnly :=
  .bind .get fun _ => .pure _

theorem keyOf_ok {bytes : Bytes} (h : keyOf key s = (.ok bytes, t)) :
    bytes = key.toBytes s.module ∧ s = t := by
  cases h
  exact ⟨rfl, rfl⟩

theorem load?_readOnly (key : RecordKey) : (load? (α := α) key).ReadOnly :=
  .bind (keyOf_readOnly key) fun _ => get?_readOnly _

theorem has_readOnly (key : RecordKey) : (has key).ReadOnly :=
  .bind (keyOf_readOnly key) fun _ => .mapError (Store.perform_readOnly fun _ => rfl) _

theorem scan_readOnly (start : Bytes) : (scan (α := α) start).ReadOnly :=
  .bind (.mapError (Store.perform_readOnly fun _ => rfl) _) fun _ => .ofExcept _ _

theorem decodeAt_ok {bytes value : Bytes} {a : α} (h : decodeAt bytes value = .ok a) :
    Record.decode value = .ok a := by
  unfold decodeAt at h
  split at h
  · next hd => rw [hd, Except.ok.inj h]
  · cases h

/-- What is read about something is the record kept about it. -/
theorem load?_ok {found : Option α} (h : load? key s = (.ok found, t)) :
    found = s.lookup key ∧ s.Untouched t := by
  refine ⟨?_, (load?_readOnly key).untouched h⟩
  obtain ⟨bytes, u, hk, h⟩ := bind_ok h
  obtain ⟨rfl, rfl⟩ := keyOf_ok hk
  obtain ⟨value?, u, hget, h⟩ := bind_ok h
  obtain ⟨rfl, rfl⟩ := Store.perform_ok (mapError_ok hget)
  rw [lookup, raw?]
  cases hv : OrderedMap.find? _ (key.toBytes _) with
  | none =>
    simp only [hv] at h
    exact (pure_ok h).1
  | some value =>
    simp only [hv] at h
    obtain ⟨a, v, hd, h⟩ := bind_ok h
    obtain ⟨rfl, -⟩ := pure_ok h
    rw [Option.bind_some, decodeAt_ok (ofExcept_ok hd).1]
    rfl

/-- A record that is kept about something is read unless the store fails. -/
theorem load?_of_lookup {a : α} (h : s.lookup key = some a) :
    (load? (α := α) key s).1 = match s.faults s.clock .get with
      | none => .ok (some a)
      | some fault => .error (.database fault) := by
  obtain ⟨value, hvalue, hdecode⟩ := Option.bind_eq_some_iff.mp h
  have hrun : load? (α := α) key s = get? (key.toBytes s.module) s := rfl
  have hfind : s.records.find? (key.toBytes s.module) = some value := hvalue
  rw [hrun, get?, bind_run]
  unfold mapError Store.get Store.perform
  cases s.faults s.clock .get with
  | some fault => rfl
  | none =>
    have hdecoded : decodeAt (α := α) (key.toBytes s.module) value = .ok a := by
      unfold decodeAt
      cases hvalue : Record.decode (α := α) value with
      | ok b =>
        rw [hvalue] at hdecode
        exact congrArg Except.ok (Option.some.inj hdecode)
      | error cause =>
        rw [hvalue] at hdecode
        cases hdecode
    simp only [hfind, hdecoded]
    rfl

/-- A record is there when bytes are kept under its key. -/
theorem has_ok {found : Bool} (h : has key s = (.ok found, t)) :
    found = (s.raw? key).isSome ∧ s.Untouched t := by
  refine ⟨?_, (has_readOnly key).untouched h⟩
  obtain ⟨bytes, u, hk, h⟩ := bind_ok h
  obtain ⟨rfl, rfl⟩ := keyOf_ok hk
  exact (Store.perform_ok (mapError_ok h)).1

/-- A write is made of a record that fits, and making it changes nothing. -/
theorem writeAbout_ok {a : α} {w : Write} (h : writeAbout key a s = (.ok w, t)) :
    s = t ∧ Record.fits a = true ∧ w = .put (key.toBytes s.module) (Record.write a) := by
  obtain ⟨bytes, u, hk, h⟩ := bind_ok h
  obtain ⟨rfl, rfl⟩ := keyOf_ok hk
  obtain ⟨hw, rfl⟩ := ofExcept_ok h
  unfold writeOf at hw
  split at hw
  · next hf => exact ⟨rfl, hf, (Except.ok.inj hw).symm⟩
  · cases hw

theorem writeAbout_readOnly (key : RecordKey) (a : α) : (writeAbout key a).ReadOnly :=
  .bind (keyOf_readOnly key) fun _ => .ofExcept _ _

theorem deleteAbout_ok {w : Write} (h : deleteAbout key s = (.ok w, t)) :
    s = t ∧ w = .delete (key.toBytes s.module) := by
  cases h
  exact ⟨rfl, rfl⟩

theorem deleteAbout_readOnly (key : RecordKey) : (deleteAbout key).ReadOnly :=
  .bind (keyOf_readOnly key) fun _ => .pure _

/-- A record that was stored fits, and stands under its key. -/
theorem store_ok {a : α} {x : Unit} (h : store key a s = (.ok x, t)) :
    Record.fits a = true ∧ t = { s with
      clock := s.clock + 1
      records := s.records.insert (key.toBytes s.module) (Record.write a) } := by
  obtain ⟨bytes, u, hk, h⟩ := bind_ok h
  obtain ⟨rfl, rfl⟩ := keyOf_ok hk
  unfold put at h
  split at h
  · next hf => exact ⟨hf, (Store.perform_ok (mapError_ok h)).2⟩
  · exact (throw_ok h).elim

/-- A record that was not stored left no trace. -/
theorem store_atomic (key : RecordKey) (a : α) : (store key a).Atomic := by
  refine .read (keyOf_readOnly key) fun bytes => ?_
  unfold put
  split
  · exact .mapError (fun _ _ _ h => Store.perform_error h) _
  · exact (ReadOnly.throw _).atomic

/-- A batch that was committed has been applied, in order. -/
theorem commit_ok {writes : List Write} {x : Unit} (h : commit writes s = (.ok x, t)) :
    ∃ n, t = { s with clock := n, records := s.records.applyAll writes } := by
  unfold commit at h
  split at h
  · next he =>
    obtain ⟨-, rfl⟩ := pure_ok h
    rw [List.isEmpty_iff.mp he]
    exact ⟨_, rfl⟩
  · exact ⟨_, (Store.perform_ok (mapError_ok h)).2⟩

/-- A batch that was not committed left no trace. -/
theorem commit_atomic (writes : List Write) : (commit writes).Atomic := by
  unfold commit
  split
  · exact (ReadOnly.pure _).atomic
  · exact .mapError (fun _ _ _ h => Store.perform_error h) _

end State

end BridgeKernel
