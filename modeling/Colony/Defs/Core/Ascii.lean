import Colony.Defs.Core.Text
import Mathlib

namespace Colony.Core

theorem utf8Size_of_alphanum {c : Char} (h : c.isAlphanum = true) : c.utf8Size = 1 := by
  simp only [Char.isAlphanum, Char.isAlpha, Char.isUpper, Char.isLower, Char.isDigit,
    Bool.or_eq_true, Bool.and_eq_true, decide_eq_true_eq, ge_iff_le] at h
  refine Char.utf8Size_eq_one_iff.2 ?_
  rcases h with (h | h) | h <;> exact UInt32.le_trans h.2 (by decide)

theorem alphanum_of_hex {c : Char} (h : isAsciiHexDigit c = true) : c.isAlphanum = true := by
  simp only [isAsciiHexDigit, Bool.or_eq_true, Bool.and_eq_true, decide_eq_true_eq] at h
  simp only [Char.isAlphanum, Char.isAlpha, Char.isUpper, Char.isLower, Bool.or_eq_true,
    Bool.and_eq_true, decide_eq_true_eq, ge_iff_le]
  rcases h with (hdigit | hlower) | hupper
  · exact .inr hdigit
  · exact .inl (.inr ⟨hlower.1, UInt32.le_trans hlower.2 (by decide)⟩)
  · exact .inl (.inl ⟨hupper.1, UInt32.le_trans hupper.2 (by decide)⟩)

theorem utf8ByteSize_of_alphanum {s : String} (h : ∀ c ∈ s.toList, c.isAlphanum = true) :
    s.utf8ByteSize = s.toList.length := by
  have hlen : ∀ cs : List Char, (∀ c ∈ cs, c.isAlphanum = true) → String.utf8Len cs = cs.length := by
    intro cs hcs
    induction cs with
    | nil => rfl
    | cons c cs ih =>
      obtain ⟨hc, hrest⟩ := List.forall_mem_cons.1 hcs
      rw [String.utf8Len_cons, ih hrest, utf8Size_of_alphanum hc, List.length_cons]
  rw [← hlen s.toList h, ← String.utf8ByteSize_ofList, String.ofList_toList]

theorem append_inj_of_utf8Len {l l' r r' : List Char} (hlen : String.utf8Len l = String.utf8Len l')
    (h : l ++ r = l' ++ r') : l = l' ∧ r = r' := by
  induction l generalizing l' with
  | nil =>
    cases l' with
    | nil => exact ⟨rfl, h⟩
    | cons c l' =>
      have := c.utf8Size_pos
      rw [String.utf8Len_cons, String.utf8Len_nil] at hlen
      omega
  | cons c l ih =>
    cases l' with
    | nil =>
      have := c.utf8Size_pos
      rw [String.utf8Len_cons, String.utf8Len_nil] at hlen
      omega
    | cons c' l' =>
      obtain ⟨rfl, hrest⟩ := List.cons.inj h
      rw [String.utf8Len_cons, String.utf8Len_cons] at hlen
      obtain ⟨rfl, rfl⟩ := ih (Nat.add_right_cancel hlen) hrest
      exact ⟨rfl, rfl⟩

end Colony.Core
