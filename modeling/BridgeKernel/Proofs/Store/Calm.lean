import BridgeKernel.Proofs.Store.Frame

/-!
# Stores that never fail

A step that came to a result met no failure of the store on its way. So it comes to the same result,
and leaves the same records, on a store that never fails. This is inherited by steps made of steps.
On such a store, when it is in form, every reading comes to a result, and every record that fits is
stored.
-/

namespace BridgeKernel

namespace State

/-- The same state on a store that never fails. -/
def calmed (s : State) : State := { s with faults := fun _ _ => none }

/-- The store never fails. -/
def Calm (s : State) : Prop := ∀ n op, s.faults n op = none

theorem Calm.calmed_eq {s : State} (hs : s.Calm) : s.calmed = s := by
  obtain ⟨module, records, faults, clock⟩ := s
  obtain rfl : faults = fun _ _ => none := funext fun n => funext (hs n)
  rfl

theorem Calm.untouched {s t : State} (hs : s.Calm) (h : s.Untouched t) : t.Calm := by
  obtain ⟨n, rfl⟩ := h
  exact hs

theorem Calm.writes {P : RecordKey → Prop} {s t : State} (hs : s.Calm) (h : s.Writes P t) :
    t.Calm := by
  intro n op
  rw [h.faults_eq]
  exact hs n op

end State

namespace Transition

variable {ε ε' α β γ : Type}

/-- A step that owes no result to a failure of the store. -/
def Steadfast (x : Transition ε α) : Prop :=
  ∀ (s t : State) (a : α), x s = (.ok a, t) → x s.calmed = (.ok a, t.calmed)

namespace Steadfast

protected theorem pure (a : α) : Steadfast (pure a : Transition ε α) := by
  intro s t b h
  obtain ⟨rfl, rfl⟩ := pure_ok h
  rfl

protected theorem throw (e : ε) : Steadfast (throw e : Transition ε α) :=
  fun _ _ _ h => (throw_ok h).elim

protected theorem bind {x : Transition ε α} {f : α → Transition ε β} (hx : x.Steadfast)
    (hf : ∀ a, (f a).Steadfast) : (x >>= f).Steadfast := by
  intro s t b h
  obtain ⟨a, u, hfirst, hrest⟩ := bind_ok h
  have hcalm := hx s u a hfirst
  rw [bind_run, hcalm]
  exact hf a u t b hrest

/-- Looking at the state is steadfast where nothing depends on the schedule of failures. -/
protected theorem get {f : State → Transition ε β} (hsame : ∀ s, f s.calmed = f s)
    (hf : ∀ s, (f s).Steadfast) : (get >>= f).Steadfast := by
  intro s t b h
  change f s s = (.ok b, t) at h
  change f s.calmed s.calmed = (.ok b, t.calmed)
  rw [hsame]
  exact hf s s t b h

protected theorem guard {c : Prop} [Decidable c] {e : ε} {k : Unit → Transition ε β}
    (h : (k ()).Steadfast) :
    (if c then throw e >>= k else k () : Transition ε β).Steadfast := by
  split
  · exact .bind (.throw e) fun _ => h
  · exact h

protected theorem mapError {x : Transition ε α} (hx : x.Steadfast) (f : ε → ε') :
    (x.mapError f).Steadfast := by
  intro s t a h
  have hcalm := hx s t a (mapError_ok h)
  rw [mapError_run, hcalm]
  rfl

protected theorem ofExcept (f : ε → ε') (r : Except ε α) : Steadfast (ofExcept f r) := by
  cases r with
  | error e => exact .throw _
  | ok a => exact .pure _

protected theorem mapM {f : γ → Transition ε α} (hf : ∀ c, (f c).Steadfast) (cs : List γ) :
    (cs.mapM f).Steadfast := by
  induction cs with
  | nil => exact .pure _
  | cons c cs ih =>
    rw [List.mapM_cons]
    exact .bind (hf c) fun _ => .bind ih fun _ => .pure _

end Steadfast

end Transition

open Transition

theorem Store.perform_steadfast {α : Type} (op : StoreOp) (effect : Contents → α × Contents) :
    (perform op effect).Steadfast := by
  intro s t a h
  obtain ⟨rfl, rfl⟩ := perform_ok h
  rfl

namespace State

variable {α : Type} [Record α]

theorem keyOf_steadfast (key : RecordKey) : (keyOf key).Steadfast :=
  .get (fun _ => rfl) fun _ => .pure _

theorem load?_steadfast (key : RecordKey) : (load? (α := α) key).Steadfast := by
  refine .bind (keyOf_steadfast key) fun bytes => ?_
  refine .bind (.mapError (Store.perform_steadfast _ _) _) fun found => ?_
  cases found with
  | none => exact .pure _
  | some value => exact .bind (.ofExcept _ _) fun _ => .pure _

theorem has_steadfast (key : RecordKey) : (has key).Steadfast :=
  .bind (keyOf_steadfast key) fun _ => .mapError (Store.perform_steadfast _ _) _

theorem writeAbout_steadfast (key : RecordKey) (a : α) : (writeAbout key a).Steadfast :=
  .bind (keyOf_steadfast key) fun _ => .ofExcept _ _

theorem deleteAbout_steadfast (key : RecordKey) : (deleteAbout key).Steadfast :=
  .bind (keyOf_steadfast key) fun _ => .pure _

theorem commit_steadfast (writes : List Write) : (commit writes).Steadfast := by
  unfold commit
  split
  · exact .pure _
  · exact .mapError (Store.perform_steadfast _ _) _

end State

/-! ## Readings -/

namespace Transition

variable {ε ε' α β γ : Type}

/-- A step that has no effect and owes no result to a failure of the store. -/
structure Reading (x : Transition ε α) : Prop where
  /-- It has no effect. -/
  readOnly : x.ReadOnly
  /-- Its results are those of a store that never fails. -/
  steadfast : x.Steadfast

namespace Reading

protected theorem pure (a : α) : Reading (pure a : Transition ε α) := ⟨.pure a, .pure a⟩

protected theorem throw (e : ε) : Reading (throw e : Transition ε α) := ⟨.throw e, .throw e⟩

protected theorem bind {x : Transition ε α} {f : α → Transition ε β} (hx : x.Reading)
    (hf : ∀ a, (f a).Reading) : (x >>= f).Reading :=
  ⟨hx.readOnly.bind fun a => (hf a).readOnly, hx.steadfast.bind fun a => (hf a).steadfast⟩

protected theorem get {f : State → Transition ε β} (hsame : ∀ s, f s.calmed = f s)
    (hf : ∀ s, (f s).Reading) : (get >>= f).Reading :=
  ⟨.bind .get fun s => (hf s).readOnly, .get hsame fun s => (hf s).steadfast⟩

protected theorem guard {c : Prop} [Decidable c] {e : ε} {k : Unit → Transition ε β}
    (h : (k ()).Reading) : (if c then throw e >>= k else k () : Transition ε β).Reading :=
  ⟨.guard h.readOnly, .guard h.steadfast⟩

protected theorem mapError {x : Transition ε α} (hx : x.Reading) (f : ε → ε') :
    (x.mapError f).Reading :=
  ⟨hx.readOnly.mapError f, hx.steadfast.mapError f⟩

protected theorem ofExcept (f : ε → ε') (r : Except ε α) : Reading (ofExcept f r) :=
  ⟨.ofExcept f r, .ofExcept f r⟩

protected theorem mapM {f : γ → Transition ε α} (hf : ∀ c, (f c).Reading) (cs : List γ) :
    (cs.mapM f).Reading :=
  ⟨.mapM fun c => (hf c).readOnly, .mapM (fun c => (hf c).steadfast) cs⟩

theorem untouched {x : Transition ε α} {s t : State} {r : Except ε α} (hx : x.Reading)
    (h : x s = (r, t)) : s.Untouched t := hx.readOnly.untouched h

end Reading

end Transition

namespace State

variable {α : Type} [Record α]

theorem load?_reading (key : RecordKey) : (load? (α := α) key).Reading :=
  ⟨load?_readOnly key, load?_steadfast key⟩

theorem has_reading (key : RecordKey) : (has key).Reading := ⟨has_readOnly key, has_steadfast key⟩

theorem writeAbout_reading (key : RecordKey) (a : α) : (writeAbout key a).Reading :=
  ⟨writeAbout_readOnly key a, writeAbout_steadfast key a⟩

theorem deleteAbout_reading (key : RecordKey) : (deleteAbout key).Reading :=
  ⟨deleteAbout_readOnly key, deleteAbout_steadfast key⟩

end State

/-! ## Answers of a store that never fails -/

namespace Transition

variable {ε ε' α β : Type} {s u : State}

/-- A step whose first part came to a result goes on with it. -/
theorem run_bind {x : Transition ε α} {a : α} (h : x s = (.ok a, u)) (f : α → Transition ε β) :
    (x >>= f) s = f a u := by
  rw [bind_run, h]

/-- A step that passes its guard goes on. -/
theorem run_guard {c : Prop} [Decidable c] {e : ε} {k : Unit → Transition ε β} (h : ¬ c) :
    (if c then throw e >>= k else k () : Transition ε β) s = k () s := by
  rw [if_neg h]

theorem run_mapError {x : Transition ε α} {a : α} (h : x s = (.ok a, u)) (f : ε → ε') :
    x.mapError f s = (.ok a, u) := by
  rw [mapError_run, h]
  rfl

end Transition

/-- On a store that never fails every operation has its effect. -/
theorem Store.perform_of_calm {α : Type} {s : State} (hs : s.Calm) (op : StoreOp)
    (effect : Contents → α × Contents) : perform op effect s = (.ok (effect s.records).1,
      { s with clock := s.clock + 1, records := (effect s.records).2 }) := by
  unfold perform
  rw [hs]

namespace State.Calm

variable {α : Type} [Record α] {s : State}

/-- A record of a store in form is read as it is kept. -/
theorem load? [LawfulRecord α] {key : RecordKey} (hs : s.Calm) (hform : s.WellFormed)
    (hkey : key.Holds α) :
    ∃ t, State.load? (α := α) key s = (.ok (s.lookup key), t) := by
  have hanswer : ∃ found, (State.load? (α := α) key s).1 = .ok found := by
    cases hraw : s.raw? key with
    | none =>
      have hget : (Store.get (key.toBytes s.module)).mapError StorageError.database s =
          (.ok (s.raw? key), { s with clock := s.clock + 1 }) :=
        run_mapError (Store.perform_of_calm hs _ _) _
      have hrun : State.load? (α := α) key s = get? (key.toBytes s.module) s := rfl
      rw [hraw] at hget
      exact ⟨none, congrArg Prod.fst (hrun.trans (run_bind hget _))⟩
    | some value =>
      obtain ⟨a, hfits, rfl⟩ := hkey value (hform.form hraw)
      have hanswer := load?_of_lookup (lookup_of_raw?_some (a := a) hraw hfits)
      rw [hs] at hanswer
      exact ⟨_, hanswer⟩
  obtain ⟨found, hfound⟩ := hanswer
  have hrun : State.load? (α := α) key s = (.ok found, (State.load? (α := α) key s).2) :=
    Prod.ext hfound rfl
  rw [(load?_ok hrun).1] at hrun
  exact ⟨_, hrun⟩

/-- It is told whether there is a record. -/
theorem has (hs : s.Calm) (key : RecordKey) :
    ∃ t, State.has key s = (.ok (s.raw? key).isSome, t) := by
  have hrun : State.has key s = contains (key.toBytes s.module) s := rfl
  rw [hrun]
  exact ⟨_, run_mapError (Store.perform_of_calm hs _ _) _⟩

/-- A record that fits is stored. -/
theorem store (hs : s.Calm) (key : RecordKey) {a : α} (hfits : Record.fits a = true) :
    ∃ t, State.store key a s = (.ok (), t) := by
  have hrun : State.store key a s = put (key.toBytes s.module) a s := rfl
  rw [hrun, put, if_pos hfits]
  exact ⟨_, run_mapError (Store.perform_of_calm hs _ _) _⟩

end State.Calm

/-- A store in form that never fails. -/
structure State.Reliable (s : State) : Prop where
  /-- It never fails. -/
  calm : s.Calm
  /-- It holds records in the form of their kinds only. -/
  form : s.WellFormed

namespace State.Reliable

variable {s t : State}

theorem untouched (hs : s.Reliable) (h : s.Untouched t) : t.Reliable :=
  ⟨hs.calm.untouched h, (Writes.of_untouched (P := fun _ => False) h).wellFormed hs.form⟩

theorem writes {P : RecordKey → Prop} (hs : s.Reliable) (h : s.Writes P t) : t.Reliable :=
  ⟨hs.calm.writes h, h.wellFormed hs.form⟩

/-- A record is read as it is kept, and nothing else happens. -/
theorem load? {α : Type} [Record α] [LawfulRecord α] {key : RecordKey} (hs : s.Reliable)
    (hkey : key.Holds α) :
    ∃ t, State.load? (α := α) key s = (.ok (s.lookup key), t) ∧ s.Untouched t := by
  obtain ⟨t, hload⟩ := hs.calm.load? hs.form hkey
  exact ⟨t, hload, (load?_readOnly key).untouched hload⟩

end State.Reliable

end BridgeKernel
