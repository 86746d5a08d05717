import Mathlib.Algebra.Order.Ring.Int
import Mathlib.Data.List.Infix
import Mathlib.Data.Int.ConditionallyCompleteOrder
import Mathlib.Data.List.Induction
import Mathlib.Data.List.Nodup
import Mathlib.Logic.Function.Basic

universe u v

namespace Colony.Data

variable {α : Type u} {δ : Type v} {name : α → δ} {parent : α → Option δ} {l more : List α} {a b : α}

def tip (name : α → δ) (l : List α) : Option δ := l.getLast?.map name

@[simp] theorem tip_nil : tip name [] = none := rfl

@[simp] theorem tip_concat : tip name (l ++ [a]) = some (name a) := by simp [tip]

def Linked (name : α → δ) (parent : α → Option δ) (l : List α) : Prop :=
  ∀ before a after, l = before ++ a :: after → parent a = tip name before

theorem linked_nil : Linked name parent [] := fun _ _ _ h => absurd h (by simp)

theorem linked_concat : Linked name parent (l ++ [a]) ↔
    Linked name parent l ∧ parent a = tip name l := by
  constructor
  · intro h
    refine ⟨fun before b after hl => h before b (after ++ [a]) ?_, h l a [] rfl⟩
    rw [hl, List.append_assoc, List.cons_append]
  · rintro ⟨h, ha⟩ before b after hl
    rcases List.eq_nil_or_concat after with rfl | ⟨after, c, rfl⟩
    · obtain ⟨rfl, hb⟩ := List.append_inj' hl rfl
      cases hb
      exact ha
    · rw [List.concat_eq_append, ← List.cons_append, ← List.append_assoc] at hl
      obtain ⟨rfl, -⟩ := List.append_inj' hl rfl
      exact h before b after rfl

theorem Linked.before_eq (hname : ∀ a ∈ l, ∀ b ∈ l, name a = name b → a = b)
    (h : Linked name parent l) {before before' after after' : List α} (hl : l = before ++ a :: after)
    (hl' : l = before' ++ a :: after') : before.length = before'.length := by
  induction before using List.reverseRecOn generalizing a after before' after' with
  | nil =>
    have hparent := h [] a after hl
    rw [h before' a after' hl'] at hparent
    rcases List.eq_nil_or_concat before' with rfl | ⟨before', b, rfl⟩
    · rfl
    · rw [List.concat_eq_append, tip_concat] at hparent
      cases hparent
  | append_singleton before b ih =>
    have hparent := h (before ++ [b]) a after hl
    rw [h before' a after' hl', tip_concat] at hparent
    rcases List.eq_nil_or_concat before' with rfl | ⟨before', b', rfl⟩
    · cases hparent
    · rw [List.concat_eq_append] at hparent hl' ⊢
      rw [tip_concat, Option.some.injEq] at hparent
      cases hname b' (by simp [hl']) b (by simp [hl]) hparent
      rw [List.append_assoc, List.singleton_append] at hl hl'
      rw [List.length_append, List.length_append, ih hl hl']

theorem Linked.suffix (h : Linked name parent l) {before after t : List α}
    (hl : l = before ++ a :: after)
    (hlinks : ∀ before b after, t ++ [a] = before ++ b :: after → ∀ d ∈ tip name before,
      parent b = some d)
    (hsame : ∀ b ∈ t, ∀ c ∈ l, name b = name c → b = c) : t <:+ before := by
  induction t using List.reverseRecOn generalizing a before after with
  | nil => exact List.nil_suffix
  | append_singleton t b ih =>
    have hparent := hlinks (t ++ [b]) a [] rfl (name b) (by simp)
    rw [h before a after hl] at hparent
    obtain ⟨c, hc, hname⟩ := Option.map_eq_some_iff.1 hparent
    obtain ⟨before, rfl⟩ := List.getLast?_eq_some_iff.1 hc
    obtain rfl : b = c := hsame b (by simp) c (by simp [hl]) hname.symm
    have hl' : l = before ++ b :: a :: after := by
      rw [hl, List.append_assoc, List.singleton_append]
    obtain ⟨earlier, rfl⟩ := ih hl'
      (fun before b' after ht => hlinks before b' (after ++ [a]) (by rw [ht]; simp))
      (fun b' hb' => hsame b' (by simp [hb']))
    exact ⟨earlier, by rw [List.append_assoc]⟩

theorem Linked.nodup (hname : ∀ a ∈ l, ∀ b ∈ l, name a = name b → a = b)
    (h : Linked name parent l) : (l.map name).Nodup := by
  induction l using List.reverseRecOn with
  | nil => exact List.nodup_nil
  | append_singleton l a ih =>
    rw [List.map_append, List.map_singleton, List.nodup_append]
    refine ⟨ih (fun a ha b hb => hname a (by simp [ha]) b (by simp [hb])) (linked_concat.1 h).1,
      List.nodup_singleton _, fun d hd d' hd' heq => ?_⟩
    obtain ⟨b, hb, rfl⟩ := List.mem_map.1 hd
    rw [List.mem_singleton.1 hd'] at heq
    cases hname b (by simp [hb]) a (by simp) heq
    obtain ⟨before, after, rfl⟩ := List.append_of_mem hb
    have hfirst : before ++ a :: after ++ [a] = before ++ a :: (after ++ [a]) := by
      rw [List.append_assoc, List.cons_append]
    have hlength := h.before_eq hname hfirst rfl
    simp at hlength

theorem Linked.take_eq (hname : ∀ a ∈ l, ∀ b ∈ l, name a = name b → a = b)
    (h : Linked name parent l) {n : Nat} (hn : n ≤ l.length) (htip : tip name (l.take n) = tip name l) : n = l.length := by
  have hnodup := h.nodup hname
  have hl := List.take_append_drop n l
  rcases List.eq_nil_or_concat (l.drop n) with hdrop | ⟨later, a, hdrop⟩
  · exact Nat.le_antisymm hn (List.drop_eq_nil_iff.1 hdrop)
  · have hlast : tip name l = some (name a) := by
      rw [← hl, hdrop, List.concat_eq_append, ← List.append_assoc, tip_concat]
    rw [← hl] at hnodup
    obtain ⟨b, hb, hab⟩ := Option.map_eq_some_iff.1 (htip.trans hlast)
    -- the last value of the earlier state would come up again
    rw [List.map_append, List.nodup_append] at hnodup
    refine absurd hab (hnodup.2.2 _ (List.mem_map_of_mem (List.mem_of_getLast? hb)) _ ?_)
    rw [hdrop]
    exact List.mem_map_of_mem (by simp)

end Colony.Data
