/-!
# What checks accept

A check is made of parts, each of which may refuse. It comes to a result when all of them do.
-/

namespace BridgeKernel

namespace Except

variable {ε ε' α β : Type} {c : Prop} [Decidable c] {e : ε}

/-- A check that goes on after its first part accepts when both parts do. -/
theorem andThen_ok_iff {x : Except ε Unit} {f : Unit → Except ε α} {a : α} :
    (x >>= f) = .ok a ↔ x = .ok () ∧ f () = .ok a := by
  cases x <;> simp [bind, Except.bind]

/-- A guarded check accepts when its guard lets it pass and the rest accepts. -/
theorem guard_ok_iff {k : Unit → Except ε α} {a : α} :
    (if c then throw e >>= k else k ()) = .ok a ↔ ¬ c ∧ k () = .ok a := by
  by_cases h : c
  · simp [h, throw, throwThe, MonadExceptOf.throw, bind, Except.bind]
  · simp [h]

theorem unless_ok_iff {x : Except ε Unit} :
    (if c then .error e else x) = .ok () ↔ ¬ c ∧ x = .ok () := by
  by_cases h : c <;> simp [h]

theorem last_ok_iff : (if c then throw e else pure () : Except ε Unit) = .ok () ↔ ¬ c := by
  by_cases h : c <;> simp [h, throw, throwThe, MonadExceptOf.throw, pure, Except.pure]

/-- Both parts of a check that came to a result came to one. -/
theorem bind_ok {x : Except ε α} {f : α → Except ε β} {b : β} (h : (x >>= f) = .ok b) :
    ∃ a, x = .ok a ∧ f a = .ok b := by
  cases x with
  | error e => cases h
  | ok a => exact ⟨a, rfl, h⟩

theorem mapError_ok {x : Except ε α} {f : ε → ε'} {a : α} (h : x.mapError f = .ok a) :
    x = .ok a := by
  cases x with
  | error e => cases h
  | ok b =>
    cases h
    rfl

theorem toOption_mapError (f : ε → ε') (x : Except ε α) :
    (x.mapError f).toOption = x.toOption := by
  cases x <;> rfl

end Except

end BridgeKernel
