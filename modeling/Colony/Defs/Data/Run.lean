import Mathlib.Algebra.Order.Ring.Int
import Mathlib.Data.List.Infix
import Mathlib.Data.Int.ConditionallyCompleteOrder
import Mathlib.Data.List.Basic
import Mathlib.Data.List.Induction

/-! Runs of a machine that takes one step per call, and the runs all of whose
steps are taken in a state that allows them. -/

universe u v w

namespace Colony.Data

variable {σ : Type u} {α : Type v} {step : σ → α → σ} {ok : σ → α → Prop}

def runFrom (step : σ → α → σ) (s : σ) (calls : List α) : σ := calls.foldl step s

@[simp] theorem runFrom_nil (s : σ) : runFrom step s [] = s := rfl

@[simp] theorem runFrom_cons (s : σ) (a : α) (calls : List α) :
    runFrom step s (a :: calls) = runFrom step (step s a) calls := rfl

def Along (step : σ → α → σ) (ok : σ → α → Prop) : σ → List α → Prop
  | _, [] => True
  | s, a :: calls => ok s a ∧ Along step ok (step s a) calls

instance Along.decidable [∀ s a, Decidable (ok s a)] :
    (s : σ) → (calls : List α) → Decidable (Along step ok s calls)
  | _, [] => .isTrue trivial
  | s, a :: calls => @instDecidableAnd _ _ _ (Along.decidable (step s a) calls)

theorem Along.preserves {p : σ → Prop} (hstep : ∀ s a, p s → ok s a → p (step s a))
    {s : σ} {calls : List α} (h : Along step ok s calls) (h₀ : p s) :
    p (runFrom step s calls) := by
  induction calls generalizing s with
  | nil => exact h₀
  | cons a calls ih => exact ih h.2 (hstep s a h₀ h.1)

theorem runFrom_append (s : σ) (xs ys : List α) :
    runFrom step s (xs ++ ys) = runFrom step (runFrom step s xs) ys := List.foldl_append

theorem along_append {s : σ} {xs ys : List α} :
    Along step ok s (xs ++ ys) ↔ Along step ok s xs ∧ Along step ok (runFrom step s xs) ys := by
  induction xs generalizing s with
  | nil => simp [Along]
  | cons a xs ih => simp [Along, ih, and_assoc]

theorem runFrom_history {p : List α → σ → Prop} {s : σ} (h₀ : p [] s)
    (hstep : ∀ calls a, p calls (runFrom step s calls) →
      p (calls ++ [a]) (step (runFrom step s calls) a)) (calls : List α) :
    p calls (runFrom step s calls) := by
  induction calls using List.reverseRecOn with
  | nil => exact h₀
  | append_singleton calls a ih =>
    rw [runFrom_append]
    exact hstep calls a ih

section Log

variable {β : Type w} {log : σ → List β} {s : σ} {calls before : List α}
  (hstep : ∀ s a, log (step s a) = log s ∨ ∃ b, log (step s a) = log s ++ [b])
include hstep

theorem exists_log_eq_take (h₀ : log s = []) {k : Nat} (hk : k ≤ (log (runFrom step s calls)).length) :
    ∃ before, before <+: calls ∧ log (runFrom step s before) = (log (runFrom step s calls)).take k := by
  induction calls using List.reverseRecOn with
  | nil => exact ⟨[], List.nil_prefix, by simp [h₀]⟩
  | append_singleton calls a ih =>
    rw [runFrom_append] at hk ⊢
    by_cases hold : k ≤ (log (runFrom step s calls)).length
    · obtain ⟨before, hbefore, hlog⟩ := ih hold
      refine ⟨before, hbefore.trans (List.prefix_append _ _), hlog.trans ?_⟩
      obtain hsame | ⟨b, hmore⟩ := hstep (runFrom step s calls) a
      · rw [runFrom_cons, runFrom_nil, hsame]
      · rw [runFrom_cons, runFrom_nil, hmore, List.take_append_of_le_length hold]
    · refine ⟨calls ++ [a], List.prefix_refl _, ?_⟩
      rw [runFrom_append, List.take_of_length_le]
      obtain hsame | ⟨b, hmore⟩ := hstep (runFrom step s calls) a
      · rw [runFrom_cons, runFrom_nil, hsame]
        omega
      · rw [runFrom_cons, runFrom_nil, hmore, List.length_append, List.length_singleton]
        omega

theorem log_runFrom_prefix (s : σ) (calls : List α) : log s <+: log (runFrom step s calls) := by
  induction calls generalizing s with
  | nil => exact List.prefix_refl _
  | cons a calls ih =>
    obtain hsame | ⟨b, hmore⟩ := hstep s a
    · exact hsame ▸ ih (step s a)
    · exact (List.prefix_append _ _).trans (hmore ▸ ih (step s a))

theorem log_prefix_of_prefix (h : before <+: calls) :
    log (runFrom step s before) <+: log (runFrom step s calls) := by
  obtain ⟨after, rfl⟩ := h
  rw [runFrom_append]
  exact log_runFrom_prefix hstep _ after

theorem length_log_le (s : σ) (calls : List α) :
    (log (runFrom step s calls)).length ≤ (log s).length + calls.length := by
  induction calls generalizing s with
  | nil => exact Nat.le_refl _
  | cons a calls ih =>
    refine (ih (step s a)).trans ?_
    obtain hsame | ⟨b, hmore⟩ := hstep s a
    · rw [hsame, List.length_cons]
      omega
    · rw [hmore, List.length_append, List.length_singleton, List.length_cons]
      omega

end Log

def Made (step : σ → α → σ) (q : σ → α → Prop) (s : σ) (calls : List α) : Prop :=
  ∃ earlier a later, calls = earlier ++ a :: later ∧ q (runFrom step s earlier) a

theorem Made.concat {q : σ → α → Prop} {s : σ} {calls : List α} (h : Made step q s calls) (a : α) :
    Made step q s (calls ++ [a]) := by
  obtain ⟨earlier, b, later, rfl, hq⟩ := h
  exact ⟨earlier, b, later ++ [a], by simp, hq⟩

theorem made_last {q : σ → α → Prop} {s : σ} {calls : List α} {a : α}
    (hq : q (runFrom step s calls) a) : Made step q s (calls ++ [a]) :=
  ⟨calls, a, [], rfl, hq⟩

end Colony.Data
