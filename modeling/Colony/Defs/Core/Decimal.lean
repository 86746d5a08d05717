import Colony.Defs.Core.Text
import Mathlib.Data.List.Basic

namespace Colony.Core

theorem toList_toString (n : Nat) : (toString n).toList = Nat.toDigits 10 n := by
  rw [show toString n = Nat.repr n from rfl, Nat.repr_eq_ofList_toDigits, String.toList_ofList]

theorem isDigit_toString {n : Nat} {c : Char} (h : c ∈ (toString n).toList) : c.isDigit = true := by
  rw [toList_toString] at h
  exact Nat.isDigit_of_mem_toDigits (by decide) (by decide) h

theorem toString_ne_empty (n : Nat) : (toString n).toList ≠ [] := by
  rw [toList_toString]
  exact Nat.toDigits_ne_nil

theorem toString_nat_inj {n m : Nat} (h : toString n = toString m) : n = m := by
  have hlist := congrArg String.toList h
  rw [toList_toString, toList_toString] at hlist
  calc
    n = Nat.ofDigitChars 10 (Nat.toDigits 10 n) 0 :=
      (Nat.ofDigitChars_toDigits (by decide) (by decide)).symm
    _ = m := by rw [hlist, Nat.ofDigitChars_toDigits (by decide) (by decide)]

end Colony.Core
