import Mathlib.Algebra.Order.Ring.Int
import Mathlib.Data.List.Infix
import Mathlib.Data.Int.ConditionallyCompleteOrder
import Mathlib.Logic.Basic

universe u v

namespace Colony.Data

variable {ε : Type u} {α β : Type v}

@[simp] theorem bind_eq_ok {x : Except ε α} {f : α → Except ε β} {b : β} :
    (x >>= f) = .ok b ↔ ∃ a, x = .ok a ∧ f a = .ok b := by
  cases x <;> simp [bind, Except.bind]

@[simp] theorem map_eq_ok {x : Except ε α} {f : α → β} {b : β} :
    x.map f = .ok b ↔ ∃ a, x = .ok a ∧ f a = b := by
  cases x <;> simp [Except.map]

theorem bind_eq_error {x : Except ε α} {f : α → Except ε β} {e : ε} :
    (x >>= f) = .error e ↔ x = .error e ∨ ∃ a, x = .ok a ∧ f a = .error e := by
  cases x <;> simp [bind, Except.bind]

theorem map_eq_error {x : Except ε α} {f : α → β} {e : ε} :
    x.map f = .error e ↔ x = .error e := by
  cases x <;> simp [Except.map]

theorem mapM_eq_error {l : List α} {f : α → Except ε β} {e : ε} (h : l.mapM f = .error e) :
    ∃ x ∈ l, f x = .error e := by
  induction l with
  | nil => cases h
  | cons x l ih =>
    rw [List.mapM_cons] at h
    rcases bind_eq_error.1 h with hx | ⟨_, -, h⟩
    · exact ⟨x, List.mem_cons_self, hx⟩
    rcases bind_eq_error.1 h with hl | ⟨_, -, h⟩
    · obtain ⟨y, hy, hfy⟩ := ih hl
      exact ⟨y, List.mem_cons_of_mem _ hy, hfy⟩
    · cases h

theorem forIn_eq_ok {l : List α} {f : α → Except ε PUnit} {u : PUnit} :
    (forIn l PUnit.unit fun x _ => do f x; pure (ForInStep.yield PUnit.unit)) = .ok u ↔
      ∀ x ∈ l, f x = .ok PUnit.unit := by
  induction l with
  | nil => simp [pure, Except.pure]
  | cons x l ih =>
    rw [List.forIn_cons]
    cases hx : f x with
    | error e => simp [hx, bind, Except.bind]
    | ok v =>
      simp only [List.mem_cons, forall_eq_or_imp, hx, ← ih]
      simp [bind, Except.bind, pure, Except.pure]

end Colony.Data
