import Mathlib.Algebra.Order.Ring.Int
import Mathlib.Data.List.Infix
import Mathlib.Data.Int.ConditionallyCompleteOrder
import Mathlib.Data.List.Sort

universe u

namespace Colony.Data

variable {α : Type u} {l before after : List α} {x : α}

theorem insertionSort_filter {r : α → α → Prop} [DecidableRel r] [Std.Total r] [IsTrans α r] (p : α → Bool)
    (hstrict : ∀ a ∈ l, ∀ b ∈ l, r a b → r b a → a = b) :
    (l.filter p).insertionSort r = (l.insertionSort r).filter p := by
  refine List.Perm.eq_of_pairwise (fun a b ha hb hab hba => ?_) (List.pairwise_insertionSort r _)
    ((List.pairwise_insertionSort r l).filter p) ?_
  · have ha' := (List.mem_filter.1 ((List.mem_insertionSort r).1 ha)).1
    have hb' := (List.mem_insertionSort r).1 (List.mem_filter.1 hb).1
    exact hstrict a ha' b hb' hab hba
  · exact (List.perm_insertionSort r _).trans ((List.perm_insertionSort r l).filter p).symm

theorem filter_eq_rest (lt : α → α → Bool) (hirrefl : lt x x = false)
    (h : (before ++ x :: after).Pairwise fun a b => lt a b = true ∧ lt b a = false) :
    (before ++ x :: after).filter (lt x) = after := by
  obtain ⟨-, hafter, hbefore⟩ := List.pairwise_append.1 h
  have hnone : before.filter (lt x) = [] := List.filter_eq_nil_iff.2 fun a ha => by
    rw [(hbefore a ha x List.mem_cons_self).2]
    exact Bool.false_ne_true
  have hall : after.filter (lt x) = after :=
    List.filter_eq_self.2 fun b hb => ((List.pairwise_cons.1 hafter).1 b hb).1
  rw [List.filter_append, hnone, List.filter_cons_of_neg (Bool.eq_false_iff.1 hirrefl), hall, List.nil_append]

end Colony.Data
