import BridgeKernel.Proofs.Store.Agree
import BridgeKernel.Proofs.Store.Calm

/-!
# Twin states

Two states are twins for a set of records when they agree on it and lie on stores in form that never
fail. A step is uniform when it answers alike on twins and leaves twins. A step that cannot tell
apart states that agree, and writes records only, is uniform; so is one that looks at more of a
state than the set, as long as its answer does not depend on that.
-/

namespace BridgeKernel

/-- Two states on reliable stores that agree on a set of records. -/
structure State.Twins (P : RecordKey → Prop) (s t : State) : Prop where
  /-- They agree on the set. -/
  agree : s.Agree P t
  /-- The first is reliable. -/
  first : s.Reliable
  /-- The second is reliable. -/
  second : t.Reliable

/-- Maps in which the same is found under every key are equal. -/
theorem OrderedMap.eq_of_find? {κ ν : Type} [Ord κ] [Std.LawfulEqOrd κ] [Std.TransOrd κ]
    {m m' : OrderedMap κ ν} (h : ∀ k, m'.find? k = m.find? k) : m' = m := by
  have hperm : m'.entries.Perm m.entries := by
    refine (List.perm_ext_iff_of_nodup m'.entries_nodup m.entries_nodup).mpr fun e => ?_
    rw [mem_entries_iff, mem_entries_iff, h]
  have hentries : m'.entries = m.entries := by
    refine hperm.eq_of_pairwise (fun a b _ _ hab hba => ?_) m'.sorted m.sorted
    have hlt : compare a.1 a.1 = .lt := Std.TransCmp.lt_trans hab hba
    have hself : compare a.1 a.1 = .eq := Std.ReflCmp.compare_self
    rw [hself] at hlt
    cases hlt
  cases m
  cases m'
  cases hentries
  rfl

namespace State.Twins

variable {P Q Q' : RecordKey → Prop} {s s' t t' : State}

/-- A state on a reliable store is its own twin. -/
theorem refl (h : s.Reliable) : s.Twins P s :=
  ⟨.refl fun n m op => (h.calm m op).trans (h.calm n op).symm, h, h⟩

/-- Twins for all records have the same store. -/
theorem records_eq (h : s.Twins (fun _ => True) t) : t.records = s.records := by
  refine OrderedMap.eq_of_find? fun bytes => ?_
  exact (h.agree.records bytes).resolve_right fun ⟨_, hkey, _⟩ => hkey trivial

theorem symm (h : s.Twins P t) : t.Twins P s := ⟨h.agree.symm, h.second, h.first⟩

/-- Moving the clocks leaves twins. -/
theorem untouched (h : s.Twins P t) (hs : s.Untouched s') (ht : t.Untouched t') :
    s'.Twins P t' :=
  ⟨h.agree.untouched hs ht, h.first.untouched hs, h.second.untouched ht⟩

/-- Writing records outside the set leaves twins. -/
theorem writes (h : s.Twins P t) (hw : s.Writes Q s') (hQ : ∀ key, Q key → ¬ P key) :
    s'.Twins P t :=
  ⟨h.agree.writes hw hQ, h.first.writes hw, h.second⟩

/-- Writing records outside the set on both sides leaves twins. -/
theorem writes_both (h : s.Twins P t) (hs : s.Writes Q s') (hQ : ∀ key, Q key → ¬ P key)
    (ht : t.Writes Q' t') (hQ' : ∀ key, Q' key → ¬ P key) : s'.Twins P t' :=
  ((h.writes hs hQ).symm.writes ht hQ').symm

/-- An empty store that never fails is its own twin. -/
theorem empty (P : RecordKey → Prop) (module : Bytes) (clock : Nat) :
    Twins P ⟨module, .empty, fun _ _ => none, clock⟩ ⟨module, .empty, fun _ _ => none, clock⟩ :=
  have hreliable : Reliable ⟨module, .empty, fun _ _ => none, clock⟩ :=
    ⟨fun _ _ => rfl, fun _ _ hv => nomatch hv⟩
  ⟨.refl fun _ _ _ => rfl, hreliable, hreliable⟩

end State.Twins

namespace Transition

variable {ε ε' α β γ : Type} {P Q : RecordKey → Prop}

/-! ## Local steps -/

protected theorem Local.mapM {f : γ → Transition ε α} (hf : ∀ c, (f c).Local P) (cs : List γ) :
    (cs.mapM f).Local P := by
  induction cs with
  | nil => exact .pure _
  | cons c cs ih =>
    rw [List.mapM_cons]
    exact .bind (hf c) fun _ => .bind ih fun _ => .pure _

/-- Looking at the state is local where nothing depends on it. -/
protected theorem Local.get {f : State → Transition ε β} (hsame : ∀ s t, f s = f t)
    (hf : ∀ s, (f s).Local P) : (get >>= f).Local P := by
  intro s t h
  change Alike P (f s s) (f t t)
  rw [hsame t s]
  exact hf s s t h

/-! ## Uniform steps -/

/-- A step that answers alike on twins and leaves twins. -/
def Uniform (P : RecordKey → Prop) (x : Transition ε α) : Prop :=
  ∀ s t : State, s.Twins P t → (x t).1 = (x s).1 ∧ (x s).2.Twins P (x t).2

/-- A local step that only writes records is uniform. -/
theorem Local.uniform {x : Transition ε α} (hx : x.Local P) (hw : x.Within Q) : x.Uniform P := by
  intro s t h
  obtain ⟨hanswer, hagree⟩ := hx s t h.agree
  exact ⟨hanswer, hagree, h.first.writes (hw s), h.second.writes (hw t)⟩

/-- A local step that only reads is uniform. -/
theorem Local.uniform_of_readOnly {x : Transition ε α} (hx : x.Local P) (hr : x.ReadOnly) :
    x.Uniform P :=
  hx.uniform (hr.within (P := fun _ => False))

/-- A reading step is uniform when it answers alike on twins. -/
theorem ReadOnly.uniform {x : Transition ε α} (hx : x.ReadOnly)
    (hanswer : ∀ s t, s.Twins P t → (x t).1 = (x s).1) : x.Uniform P :=
  fun s t h => ⟨hanswer s t h, h.untouched (hx s) (hx t)⟩

namespace Uniform

protected theorem pure (a : α) : Uniform P (pure a : Transition ε α) := fun _ _ h => ⟨rfl, h⟩

protected theorem throw (e : ε) : Uniform P (throw e : Transition ε α) := fun _ _ h => ⟨rfl, h⟩

/-- What follows a step needs to be uniform only for results that the step comes to. -/
protected theorem bind {x : Transition ε α} {f : α → Transition ε β} (hx : x.Uniform P)
    (hf : ∀ s a t, x s = (.ok a, t) → (f a).Uniform P) : (x >>= f).Uniform P := by
  intro s t h
  have hboth := hx s t h
  rw [bind_run, bind_run]
  rcases hs : x s with ⟨e | a, u⟩ <;> rcases ht : x t with ⟨e' | a', v⟩ <;>
    rw [hs, ht] at hboth <;> obtain ⟨heq, htwins⟩ := hboth <;> cases heq
  · exact ⟨rfl, htwins⟩
  · exact hf s a u hs u v htwins

protected theorem mapError {x : Transition ε α} (hx : x.Uniform P) (f : ε → ε') :
    (x.mapError f).Uniform P := by
  intro s t h
  obtain ⟨hanswer, htwins⟩ := hx s t h
  rw [mapError_run, mapError_run, hanswer]
  exact ⟨rfl, htwins⟩

protected theorem ofExcept (f : ε → ε') (r : Except ε α) : Uniform P (ofExcept f r) := by
  cases r with
  | error e => exact .throw _
  | ok a => exact .pure _

end Uniform

end Transition

end BridgeKernel
