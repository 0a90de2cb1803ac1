import BridgeKernel.Proofs.Store.Steps

/-!
# Batches as changes of records

A batch that the bridge commits consists of writes about records. Seen so, it changes the state one
record after another, and each change moves the bytes of its own record only.
-/

namespace BridgeKernel

/-- A record and the bytes that are to stand there, if any. -/
structure Change where
  /-- The record. -/
  key : RecordKey
  /-- Its bytes. -/
  value? : Option Bytes

/-- The write that makes a change under a module address. -/
def Change.toWrite (module : Bytes) (c : Change) : Write :=
  match c.value? with
  | some value => .put (c.key.toBytes module) value
  | none => .delete (c.key.toBytes module)

namespace Change

/-- The change that stores a record. -/
def store {α : Type} [Record α] (key : RecordKey) (a : α) : Change := ⟨key, some (Record.write a)⟩

/-- The change that removes a record. -/
def remove (key : RecordKey) : Change := ⟨key, none⟩

@[simp] theorem store_key {α : Type} [Record α] (key : RecordKey) (a : α) :
    (store key a).key = key := rfl

@[simp] theorem remove_key (key : RecordKey) : (remove key).key = key := rfl

@[simp] theorem toWrite_key (module : Bytes) (c : Change) :
    (c.toWrite module).key = c.key.toBytes module := by
  rcases c with ⟨key, _ | value⟩ <;> rfl

@[simp] theorem toWrite_value? (module : Bytes) (c : Change) :
    (c.toWrite module).value? = c.value? := by
  rcases c with ⟨key, _ | value⟩ <;> rfl

end Change

namespace State

variable {s t : State} {α : Type} [Record α]

/-- The state after one change. -/
def change (s : State) (c : Change) : State :=
  { s with records := s.records.apply (c.toWrite s.module) }

/-- The state after several changes in order. -/
def changeAll (s : State) (changes : List Change) : State := changes.foldl change s

@[simp] theorem changeAll_nil (s : State) : s.changeAll [] = s := rfl

@[simp] theorem changeAll_cons (s : State) (c : Change) (changes : List Change) :
    s.changeAll (c :: changes) = (s.change c).changeAll changes := rfl

theorem changeAll_append (s : State) (front back : List Change) :
    s.changeAll (front ++ back) = (s.changeAll front).changeAll back := List.foldl_append

/-- A change moves the bytes of its own record only. -/
theorem raw?_change (s : State) (c : Change) (key : RecordKey) :
    (s.change c).raw? key = if key = c.key then c.value? else s.raw? key := by
  change (s.records.apply (c.toWrite s.module)).find? (key.toBytes s.module) = _
  rw [Contents.find?_apply, Change.toWrite_key, Change.toWrite_value?]
  simp only [RecordKey.toBytes_inj]
  rfl

theorem raw?_change_of_ne {c : Change} {key : RecordKey} (h : key ≠ c.key) :
    (s.change c).raw? key = s.raw? key := by
  rw [raw?_change, if_neg h]

theorem lookup_change_of_ne {c : Change} {key : RecordKey} (h : key ≠ c.key) :
    (s.change c).lookup (α := α) key = s.lookup key := lookup_congr (raw?_change_of_ne h)

/-- A stored record is found. -/
theorem lookup_change_store [LawfulRecord α] {key : RecordKey} {a : α}
    (hf : Record.fits a = true) : (s.change (.store key a)).lookup key = some a :=
  lookup_of_raw?_some ((raw?_change _ _ _).trans (if_pos rfl)) hf

/-- A removed record is not found. -/
theorem lookup_change_remove (key : RecordKey) :
    (s.change (.remove key)).lookup (α := α) key = none :=
  lookup_of_raw?_none ((raw?_change _ _ _).trans (if_pos rfl))

/-- Changes of other records leave a record as it is. -/
theorem lookup_changeAll_of_ne {changes : List Change} {key : RecordKey}
    (h : ∀ c ∈ changes, key ≠ c.key) :
    (s.changeAll changes).lookup (α := α) key = s.lookup key := by
  induction changes generalizing s with
  | nil => rfl
  | cons c changes ih =>
    have htail := ih (s := s.change c) fun d hd => h d (List.mem_cons_of_mem c hd)
    exact htail.trans (lookup_change_of_ne (h c List.mem_cons_self))

/-- Applying the writes of changes makes the changes. -/
theorem changeAll_eq (s : State) (changes : List Change) :
    s.changeAll changes =
      { s with records := s.records.applyAll (changes.map (Change.toWrite s.module)) } := by
  induction changes generalizing s with
  | nil => rfl
  | cons c changes ih => exact ih (s.change c)

/-- Nothing but the clock is left open by a state that has moved by changes. -/
def Changed (s : State) (changes : List Change) (t : State) : Prop :=
  (s.changeAll changes).Untouched t

theorem Changed.lookup_of_ne {changes : List Change} {key : RecordKey} (h : s.Changed changes t)
    (hne : ∀ c ∈ changes, key ≠ c.key) : t.lookup (α := α) key = s.lookup key :=
  (Untouched.lookup_eq h key).trans (lookup_changeAll_of_ne hne)

/-- What was stored alone is found. -/
theorem Changed.lookup_store [LawfulRecord α] {key : RecordKey} {a : α}
    (h : s.Changed [.store key a] t) (hf : Record.fits a = true) : t.lookup key = some a :=
  (Untouched.lookup_eq h key).trans (lookup_change_store hf)

theorem Untouched.changed {u : State} {changes : List Change} (h : s.Untouched u)
    (h' : u.Changed changes t) : s.Changed changes t := by
  obtain ⟨n, rfl⟩ := h
  obtain ⟨m, rfl⟩ := h'
  exact ⟨m, by rw [changeAll_eq, changeAll_eq]⟩

theorem commit_changed {changes : List Change} {x : Unit}
    (h : commit (changes.map (Change.toWrite s.module)) s = (.ok x, t)) : s.Changed changes t := by
  obtain ⟨n, rfl⟩ := commit_ok h
  exact ⟨n, by rw [changeAll_eq]⟩

/-- A write that stores a record makes the change that stores it. -/
theorem writeAbout_change {key : RecordKey} {a : α} {w : Write}
    (h : writeAbout key a s = (.ok w, t)) :
    s = t ∧ Record.fits a = true ∧ w = (Change.store key a).toWrite s.module := writeAbout_ok h

theorem deleteAbout_change {key : RecordKey} {w : Write} (h : deleteAbout key s = (.ok w, t)) :
    s = t ∧ w = (Change.remove key).toWrite s.module := deleteAbout_ok h

/-- A step that begins with a write about a record goes on with the change that stores it. -/
theorem writeAbout_bind {β : Type} {key : RecordKey} {a : α}
    {f : Write → Transition StorageError β} {b : β}
    (h : (writeAbout key a >>= f) s = (.ok b, t)) :
    Record.fits a = true ∧ f ((Change.store key a).toWrite s.module) s = (.ok b, t) := by
  obtain ⟨w, u, hw, h⟩ := Transition.bind_ok h
  obtain ⟨rfl, hf, rfl⟩ := writeAbout_change hw
  exact ⟨hf, h⟩

theorem deleteAbout_bind {β : Type} {key : RecordKey} {f : Write → Transition StorageError β}
    {b : β} (h : (deleteAbout key >>= f) s = (.ok b, t)) :
    f ((Change.remove key).toWrite s.module) s = (.ok b, t) := by
  obtain ⟨w, u, hw, h⟩ := Transition.bind_ok h
  obtain ⟨rfl, rfl⟩ := deleteAbout_change hw
  exact h

theorem store_changed {key : RecordKey} {a : α} {x : Unit} (h : store key a s = (.ok x, t)) :
    Record.fits a = true ∧ s.Changed [.store key a] t := by
  obtain ⟨hf, rfl⟩ := store_ok h
  exact ⟨hf, _, rfl⟩

end State

end BridgeKernel
