import Mathlib.Algebra.Order.Ring.Int
import Mathlib.Data.List.Infix
import Mathlib.Data.Int.ConditionallyCompleteOrder
import Mathlib.Data.List.Basic

universe u

namespace Colony.Data

variable {α : Type u} {p : List α → α → Prop} {l more : List α} {a : α}

def Each (p : List α → α → Prop) (l : List α) : Prop :=
  ∀ before a after, l = before ++ a :: after → p before a

theorem each_nil : Each p [] := fun _ _ _ h => absurd h (by simp)

theorem split_append {before after : List α} (h : l ++ more = before ++ a :: after) :
    (∃ rest, l = before ++ a :: rest ∧ after = rest ++ more) ∨
      ∃ mid, before = l ++ mid ∧ more = mid ++ a :: after := by
  rcases List.append_eq_append_iff.1 h with ⟨mid, hbefore, hmore⟩ | ⟨mid, hl, hafter⟩
  · exact .inr ⟨mid, hbefore, hmore⟩
  · cases mid with
    | nil => exact .inr ⟨[], by simpa using hl.symm, hafter.symm⟩
    | cons b rest =>
      obtain ⟨rfl, hrest⟩ := List.cons.inj hafter
      exact .inl ⟨rest, hl, hrest⟩

theorem Each.append (h : Each p l)
    (hmore : ∀ mid a rest, more = mid ++ a :: rest → p (l ++ mid) a) : Each p (l ++ more) := by
  intro before a after hsplit
  rcases split_append hsplit with ⟨rest, hl, -⟩ | ⟨mid, rfl, hmid⟩
  · exact h before a rest hl
  · exact hmore mid a after hmid

theorem Each.concat (h : Each p l) (ha : p l a) : Each p (l ++ [a]) := by
  refine h.append fun mid b rest hmid => ?_
  obtain ⟨rfl, rfl, rfl⟩ : mid = [] ∧ b = a ∧ rest = [] := by
    cases mid with
    | nil => simpa [eq_comm] using hmid
    | cons => simp at hmid
  simpa using ha

theorem each_concat_iff : Each p (l ++ [a]) ↔ Each p l ∧ p l a := by
  constructor
  · intro h
    refine ⟨fun before b after hsplit => h before b (after ++ [a]) ?_, h l a [] rfl⟩
    rw [hsplit, List.append_assoc, List.cons_append]
  · intro h
    exact h.1.concat h.2

end Colony.Data
