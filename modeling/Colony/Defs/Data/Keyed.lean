import Mathlib.Algebra.Order.Ring.Int
import Mathlib.Data.List.Infix
import Mathlib.Data.Int.ConditionallyCompleteOrder
import Mathlib.Data.List.Nodup

universe u v

namespace Colony.Data

variable {α : Type u} {κ : Type v}

/-- What `iter_mut().find(p)` lets the caller do: the first entry found is replaced. -/
def updateFirst (p : α → Bool) (f : α → α) : List α → List α
  | [] => []
  | a :: l => if p a then f a :: l else a :: updateFirst p f l

theorem map_updateFirst {p : α → Bool} {f : α → α} {g : α → κ} {l : List α}
    (hf : ∀ a ∈ l.find? p, g (f a) = g a) : (updateFirst p f l).map g = l.map g := by
  induction l with
  | nil => rfl
  | cons a l ih =>
    by_cases hp : p a = true
    · rw [updateFirst, if_pos hp, List.map_cons, List.map_cons, hf a (by simp [hp])]
    · have htail : ∀ b ∈ l.find? p, g (f b) = g b := fun b hb => hf b (by simpa [hp] using hb)
      rw [updateFirst, if_neg hp, List.map_cons, List.map_cons, ih htail]

theorem filter_length_le_one {r : α → α → Prop} {p : α → Bool} {l : List α}
    (hl : l.Pairwise r) (hr : ∀ x ∈ l, ∀ y ∈ l, r x y → p x = true → p y = false) :
    (l.filter p).length ≤ 1 := by
  match hf : l.filter p with
  | [] => exact Nat.zero_le _
  | [_] => exact Nat.le_refl _
  | x :: y :: rest =>
    have hpair := hf ▸ hl.filter p
    have hx : x ∈ l.filter p := hf ▸ List.mem_cons_self
    have hy : y ∈ l.filter p := hf ▸ List.mem_cons_of_mem _ List.mem_cons_self
    obtain ⟨hx, hpx⟩ := List.mem_filter.1 hx
    obtain ⟨hy, hpy⟩ := List.mem_filter.1 hy
    cases (hr x hx y hy ((List.pairwise_cons.1 hpair).1 y List.mem_cons_self) hpx).symm.trans hpy

variable [DecidableEq κ] {key : α → κ}

theorem mem_updateFirst {k : κ} {f : α → α} {l : List α} {a b : α} (hl : (l.map key).Nodup)
    (ha : l.find? (fun x => key x == k) = some a) :
    b ∈ updateFirst (fun x => key x == k) f l ↔ b = f a ∨ (b ∈ l ∧ key b ≠ k) := by
  induction l with
  | nil => cases ha
  | cons c l ih =>
    obtain ⟨hc, hl⟩ := List.nodup_cons.1 hl
    by_cases hk : key c = k
    · obtain rfl : c = a := by simpa [hk] using ha
      have hrest : b ∈ l → key b ≠ k := fun hb hbk => hc (List.mem_map.2 ⟨b, hb, hbk.trans hk.symm⟩)
      rw [updateFirst, if_pos (beq_iff_eq.2 hk), List.mem_cons]
      constructor
      · rintro (hb | hb)
        · exact .inl hb
        · exact .inr ⟨List.mem_cons_of_mem _ hb, hrest hb⟩
      · rintro (hb | ⟨hb, hbk⟩)
        · exact .inl hb
        · rcases List.mem_cons.1 hb with rfl | hb
          · exact absurd hk hbk
          · exact .inr hb
    · have ha : l.find? (fun x => key x == k) = some a := by simpa [hk] using ha
      rw [updateFirst, if_neg (by simpa using hk), List.mem_cons, ih hl ha, List.mem_cons]
      constructor
      · rintro (rfl | hb | ⟨hb, hbk⟩)
        · exact .inr ⟨.inl rfl, hk⟩
        · exact .inl hb
        · exact .inr ⟨.inr hb, hbk⟩
      · rintro (hb | ⟨rfl | hb, hbk⟩)
        · exact .inr (.inl hb)
        · exact .inl rfl
        · exact .inr (.inr ⟨hb, hbk⟩)

end Colony.Data
