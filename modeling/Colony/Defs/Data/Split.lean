import Mathlib.Algebra.Order.Ring.Int
import Mathlib.Data.List.Infix
import Mathlib.Data.Int.ConditionallyCompleteOrder
import Mathlib.Data.List.Basic

namespace Colony.Data

variable {α β : Type} [DecidableEq α] [DecidableEq β]

theorem splitOn_cons (b : β) (x : β) (xs : List β) : (x :: xs).splitOn b =
    if x = b then [] :: xs.splitOn b else (xs.splitOn b).modifyHead (x :: ·) := by
  rw [List.splitOn_eq_splitOnP, List.splitOnP_cons_eq_if_modifyHead]
  simp only [beq_iff_eq, List.splitOn_eq_splitOnP]

theorem splitOn_append {b : β} {xs : List β} (hb : b ∉ xs) (ys : List β) :
    (xs ++ ys).splitOn b = (ys.splitOn b).modifyHead (xs ++ ·) := by
  induction xs with
  | nil => cases h : ys.splitOn b <;> simp [h]
  | cons x xs ih =>
    obtain ⟨hx, hxs⟩ := not_or.1 (fun h => hb (List.mem_cons.2 h))
    rw [List.cons_append, splitOn_cons, if_neg (Ne.symm hx), ih hxs, List.modifyHead_modifyHead]
    rfl

theorem splitOn_parts {b : β} {first : List β} {parts : List (List β)} (hfirst : b ∉ first)
    (hparts : ∀ part ∈ parts, b ∉ part) :
    (first ++ parts.flatMap (b :: ·)).splitOn b = first :: parts := by
  induction parts generalizing first with
  | nil => simpa [List.splitOn_nil] using splitOn_append hfirst []
  | cons part parts ih =>
    obtain ⟨hpart, hparts⟩ := List.forall_mem_cons.1 hparts
    rw [splitOn_append hfirst, List.flatMap_cons, List.cons_append, splitOn_cons, if_pos rfl,
      ih hpart hparts]
    simp

theorem splitOn_flatMap {f : α → List β} {a : α} {b : β} (ha : f a = [b]) {l : List α}
    (hf : ∀ x ∈ l, x ≠ a → b ∉ f x) :
    (l.flatMap f).splitOn b = (l.splitOn a).map (·.flatMap f) := by
  induction l with
  | nil => rfl
  | cons x l ih =>
    obtain ⟨hx, hl⟩ := List.forall_mem_cons.1 hf
    rw [List.flatMap_cons, splitOn_cons]
    by_cases h : x = a
    · rw [if_pos h, h, ha, List.singleton_append, splitOn_cons, if_pos rfl, ih hl]
      rfl
    · rw [if_neg h, splitOn_append (hx h), ih hl]
      cases l.splitOn a with
      | nil => rfl
      | cons segment segments => rfl

end Colony.Data
