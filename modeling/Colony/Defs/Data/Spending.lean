import Mathlib.Algebra.Order.Ring.Int
import Mathlib.Data.List.Infix
import Mathlib.Data.Int.ConditionallyCompleteOrder
import Mathlib.Data.List.Pairwise

universe u v w

namespace Colony.Data

variable {τ : Type u} {κ : Type v} {ω : Type w}

/-- No two tickets with one key are about, and each that is held or spent was drawn. -/
structure Spending (key : τ → κ) (drawn : List κ) (held : ω → τ → Prop) (spent : List τ) : Prop where
  wasDrawn : ∀ x, (x ∈ spent ∨ ∃ holder, held holder x) → key x ∈ drawn
  apart : spent.Pairwise fun x y => key x ≠ key y
  unspent : ∀ holder x, held holder x → ∀ y ∈ spent, key y ≠ key x
  holder : ∀ p q x y, held p x → held q y → key x = key y → p = q

namespace Spending

variable {key : τ → κ} {drawn : List κ} {held held' : ω → τ → Prop} {spent : List τ}

theorem start : Spending key drawn (fun (_ : ω) _ => False) [] :=
  ⟨fun _ h => by simp at h, List.Pairwise.nil, fun _ _ h => h.elim, fun _ _ _ _ h => h.elim⟩

theorem lose (h : Spending key drawn held spent) (hheld : ∀ p x, held' p x → held p x) :
    Spending key drawn held' spent where
  wasDrawn x hx := h.wasDrawn x (hx.imp_right fun ⟨p, hp⟩ => ⟨p, hheld p x hp⟩)
  apart := h.apart
  unspent p x hp := h.unspent p x (hheld p x hp)
  holder p q x y hp hq := h.holder p q x y (hheld p x hp) (hheld q y hq)

theorem draw (h : Spending key drawn held spent) {p : ω} {x : τ} (hfresh : key x ∉ drawn)
    (hheld : ∀ q y, held' q y → (q = p ∧ y = x) ∨ held q y) :
    Spending key (key x :: drawn) held' spent := by
  have hold : ∀ y, (y ∈ spent ∨ ∃ q, held q y) → key y ≠ key x :=
    fun y hy heq => hfresh (heq ▸ h.wasDrawn y hy)
  refine ⟨fun y hy => ?_, h.apart, fun q y hq z hz => ?_, fun q r y z hq hr heq => ?_⟩
  · rcases hy with hy | ⟨q, hq⟩
    · exact List.mem_cons_of_mem _ (h.wasDrawn y (.inl hy))
    · rcases hheld q y hq with ⟨-, rfl⟩ | hq
      · exact List.mem_cons_self
      · exact List.mem_cons_of_mem _ (h.wasDrawn y (.inr ⟨q, hq⟩))
  · rcases hheld q y hq with ⟨-, rfl⟩ | hq
    · exact hold z (.inl hz)
    · exact h.unspent q y hq z hz
  · rcases hheld q y hq with ⟨hqp, rfl⟩ | hq' <;> rcases hheld r z hr with ⟨hrp, rfl⟩ | hr'
    · exact hqp.trans hrp.symm
    · exact absurd heq.symm (hold z (.inr ⟨r, hr'⟩))
    · exact absurd heq (hold y (.inr ⟨q, hq'⟩))
    · exact h.holder q r y z hq' hr' heq

theorem spend (h : Spending key drawn held spent) {p : ω} {x : τ} (hp : held p x)
    (hheld : ∀ q y, held' q y → q ≠ p ∧ held q y) : Spending key drawn held' (x :: spent) := by
  refine ⟨fun y hy => ?_, h.apart.cons fun y hy => (h.unspent p x hp y hy).symm,
    fun q y hq z hz => ?_, fun q r y z hq hr => h.holder q r y z (hheld q y hq).2 (hheld r z hr).2⟩
  · rcases hy with hy | ⟨q, hq⟩
    · rcases List.mem_cons.1 hy with rfl | hy
      · exact h.wasDrawn y (.inr ⟨p, hp⟩)
      · exact h.wasDrawn y (.inl hy)
    · exact h.wasDrawn y (.inr ⟨q, (hheld q y hq).2⟩)
  · obtain ⟨hne, hq⟩ := hheld q y hq
    rcases List.mem_cons.1 hz with rfl | hz
    · exact fun heq => hne (h.holder q p y z hq hp heq.symm)
    · exact h.unspent q y hq z hz

end Spending

end Colony.Data
