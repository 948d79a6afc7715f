import Mathlib

/-!
# Computations that fail or panic

A computation of the model that can return an error, as Rust's `?` passes one on, and can also
panic, is an `ExceptT ε Option`: `none` is the panic and `some (.error e)` the error.  Its result is
`some (.ok a)` exactly when every step returned, and the lemmas here take such a result apart
step by step.  A plain `Except` computation is taken apart the same way, and a loop whose steps
push their item or fail is read back from its result.
-/

namespace Fallible

variable {ε α β : Type}

@[simp]
theorem run_liftExcept (result : Except ε α) :
    (liftExcept result : ExceptT ε Option α).run = some result := by
  cases result <;> rfl

@[simp]
theorem run_lift_eq_ok {panicking : Option α} {a : α} :
    (ExceptT.lift panicking : ExceptT ε Option α).run = some (.ok a) ↔ panicking = some a := by
  cases panicking <;> simp [ExceptT.run_lift]

/-- A bind returns exactly when its first step returns and the rest returns from that value. -/
theorem run_bind_eq_ok {x : ExceptT ε Option α} {f : α → ExceptT ε Option β} {b : β} :
    (x >>= f).run = some (.ok b) ↔ ∃ a, x.run = some (.ok a) ∧ (f a).run = some (.ok b) := by
  rw [ExceptT.run_bind]
  rcases x.run with _ | _ | a <;> simp [Option.bind]

/-! ## `Except` -/

/-- An `Except` bind returns exactly when its first step returns and the rest returns from that
value. -/
theorem bind_eq_ok {x : Except ε α} {f : α → Except ε β} {b : β} :
    x >>= f = .ok b ↔ ∃ a, x = .ok a ∧ f a = .ok b := by
  cases x <;> simp [bind, Except.bind]

/-- A loop whose every step fails or pushes its item returns, when it returns, all the items after
the accumulator it started with. -/
theorem foldlM_eq_ok_of_pushes {f : List α → α → Except ε (List α)}
    (pushes : ∀ acc x r, f acc x = .ok r → r = acc ++ [x]) {xs init r : List α}
    (ran : xs.foldlM f init = .ok r) : r = init ++ xs := by
  induction xs generalizing init with
  | nil =>
    cases ran
    simp
  | cons x xs pushed =>
    rw [List.foldlM_cons, bind_eq_ok] at ran
    obtain ⟨next, first, rest⟩ := ran
    rw [pushed rest, pushes init x next first, List.append_assoc, List.singleton_append]

end Fallible
