import Mathlib.Algebra.Order.Ring.Int
import Mathlib.Data.List.Infix
import Mathlib.Data.Int.ConditionallyCompleteOrder
import Mathlib.Data.List.Basic
import Mathlib.Logic.Function.Basic

universe u v

namespace Colony.Data

variable {α : Type u} {β : Type v}

def Delimits (ok : List β → Prop) (f : α → List β) : Prop :=
  ∀ a a' r r', ok r → ok r' → f a ++ r = f a' ++ r' → a = a' ∧ r = r'

def StopsBefore (p : β → Prop) (r : List β) : Prop := ∀ b ∈ r.head?, ¬ p b

@[simp] theorem stopsBefore_nil {p : β → Prop} : StopsBefore p [] := by simp [StopsBefore]

@[simp] theorem stopsBefore_cons {p : β → Prop} {b : β} {r : List β} :
    StopsBefore p (b :: r) ↔ ¬ p b := by simp [StopsBefore]

theorem append_inj_of_class {p : β → Prop} {l l' r r' : List β} (hl : ∀ b ∈ l, p b)
    (hl' : ∀ b ∈ l', p b) (hr : StopsBefore p r) (hr' : StopsBefore p r')
    (h : l ++ r = l' ++ r') : l = l' ∧ r = r' := by
  induction l generalizing l' with
  | nil =>
    cases l' with
    | nil => exact ⟨rfl, h⟩
    | cons b l' =>
      rw [show r = b :: (l' ++ r') from h] at hr
      exact absurd (hl' b (by simp)) (stopsBefore_cons.1 hr)
  | cons b l ih =>
    cases l' with
    | nil =>
      rw [show r' = b :: (l ++ r) from h.symm] at hr'
      exact absurd (hl b (by simp)) (stopsBefore_cons.1 hr')
    | cons b' l' =>
      obtain ⟨rfl, hrest⟩ := List.cons.inj h
      obtain ⟨rfl, rfl⟩ := ih (fun c hc => hl c (List.mem_cons_of_mem _ hc))
        (fun c hc => hl' c (List.mem_cons_of_mem _ hc)) hrest
      exact ⟨rfl, rfl⟩

theorem delimits_of_class {p : β → Prop} {f : α → List β} (hf : Function.Injective f)
    (hp : ∀ a, ∀ b ∈ f a, p b) : Delimits (StopsBefore p) f := by
  intro a a' r r' hr hr' h
  obtain ⟨ha, rfl⟩ := append_inj_of_class (hp a) (hp a') hr hr' h
  exact ⟨hf ha, rfl⟩

theorem delimits_of_reader {ok : List β → Prop} {f : α → List β}
    {read : List β → Option (α × List β)} (h : ∀ a r, ok r → read (f a ++ r) = some (a, r)) :
    Delimits ok f := by
  intro a a' r r' hr hr' heq
  have hread := h a r hr
  rw [heq, h a' r' hr'] at hread
  cases hread
  exact ⟨rfl, rfl⟩

theorem Delimits.flatMap {f : α → List β} (hf : Delimits (fun _ => True) f) {stop : β}
    (hstop : ∀ a, ∃ b l, f a = b :: l ∧ b ≠ stop) (as as' : List α) (r r' : List β)
    (h : as.flatMap f ++ stop :: r = as'.flatMap f ++ stop :: r') : as = as' ∧ r = r' := by
  induction as generalizing as' with
  | nil =>
    cases as' with
    | nil => exact ⟨rfl, (List.cons.inj h).2⟩
    | cons a as' =>
      obtain ⟨b, l, ha, hb⟩ := hstop a
      simp only [List.flatMap_nil, List.nil_append, List.flatMap_cons, ha, List.cons_append,
        List.cons.injEq] at h
      exact absurd h.1.symm hb
  | cons a as ih =>
    cases as' with
    | nil =>
      obtain ⟨b, l, ha, hb⟩ := hstop a
      simp only [List.flatMap_nil, List.nil_append, List.flatMap_cons, ha, List.cons_append,
        List.cons.injEq] at h
      exact absurd h.1 hb
    | cons a' as' =>
      rw [List.flatMap_cons, List.flatMap_cons, List.append_assoc, List.append_assoc] at h
      obtain ⟨rfl, hrest⟩ := hf a a' _ _ trivial trivial h
      obtain ⟨rfl, rfl⟩ := ih as' hrest
      exact ⟨rfl, rfl⟩

def joinWith (sep : β) : List (List β) → List β
  | [] => []
  | [part] => part
  | part :: next :: rest => part ++ sep :: joinWith sep (next :: rest)

section Join

variable {f : α → List β} {sep stop : β} {ok : List β → Prop}

theorem joinWith_inj (hne : sep ≠ stop) (hsep : ∀ r, ok (sep :: r)) (hstop : ∀ r, ok (stop :: r))
    (hhead : ∀ a, ∃ b l, f a = b :: l ∧ b ≠ stop) {as as' : List α}
    (hf : ∀ a ∈ as, ∀ a' ∈ as', ∀ r r', ok r → ok r' → f a ++ r = f a' ++ r' → a = a' ∧ r = r')
    {r r' : List β}
    (h : joinWith sep (as.map f) ++ stop :: r = joinWith sep (as'.map f) ++ stop :: r') :
    as = as' ∧ r = r' := by
  have hstart (a : α) (as : List α) : ∃ b l, joinWith sep ((a :: as).map f) = b :: l ∧ b ≠ stop := by
    obtain ⟨b, l, ha, hb⟩ := hhead a
    cases as with
    | nil => exact ⟨b, l, ha, hb⟩
    | cons a' as => exact ⟨b, _, by simp only [List.map_cons, joinWith, ha, List.cons_append]; rfl, hb⟩
  induction as generalizing as' with
  | nil =>
    cases as' with
    | nil => exact ⟨rfl, (List.cons.inj h).2⟩
    | cons a' as' =>
      obtain ⟨b, l, ha', hb⟩ := hstart a' as'
      rw [ha'] at h
      exact absurd (List.cons.inj h).1.symm hb
  | cons a as ih =>
    cases as' with
    | nil =>
      obtain ⟨b, l, ha, hb⟩ := hstart a as
      rw [ha] at h
      exact absurd (List.cons.inj h).1 hb
    | cons a' as' =>
      have hone := hf a (by simp) a' (by simp)
      -- after the first part comes the separator, or nothing more
      match as, as' with
      | [], [] =>
        obtain ⟨rfl, hr⟩ := hone _ _ (hstop _) (hstop _) h
        exact ⟨rfl, (List.cons.inj hr).2⟩
      | [], b' :: as' =>
        simp only [List.map_cons, List.map_nil, joinWith, List.append_assoc, List.cons_append] at h
        exact absurd (List.cons.inj (hone _ _ (hstop _) (hsep _) h).2).1.symm hne
      | b :: as, [] =>
        simp only [List.map_cons, List.map_nil, joinWith, List.append_assoc, List.cons_append] at h
        exact absurd (List.cons.inj (hone _ _ (hsep _) (hstop _) h).2).1 hne
      | b :: as, b' :: as' =>
        simp only [List.map_cons, joinWith, List.append_assoc, List.cons_append] at h
        obtain ⟨rfl, hrest⟩ := hone _ _ (hsep _) (hsep _) h
        obtain ⟨htail, rfl⟩ := @ih (b' :: as')
          (fun c hc c' hc' => hf c (List.mem_cons_of_mem _ hc) c' (List.mem_cons_of_mem _ hc'))
          (List.cons.inj hrest).2
        exact ⟨by rw [htail], rfl⟩

end Join

def digits (f : Nat → α) (base count n : Nat) : List α :=
  (List.range count).reverse.map fun i => f (n / base ^ i % base)

@[simp] theorem length_digits (f : Nat → α) (base count n : Nat) :
    (digits f base count n).length = count := by simp [digits]

theorem digits_inj {f : Nat → α} {base : Nat} (hbase : 0 < base)
    (hf : ∀ i < base, ∀ j < base, f i = f j → i = j) {count n m : Nat}
    (h : digits f base count n = digits f base count m) :
    n % base ^ count = m % base ^ count := by
  induction count with
  | zero => simp [Nat.mod_one]
  | succ count ih =>
    simp only [digits, List.range_succ, List.reverse_append, List.reverse_singleton,
      List.singleton_append, List.map_cons, List.cons.injEq] at h
    have htop : n / base ^ count % base = m / base ^ count % base :=
      hf _ (Nat.mod_lt _ hbase) _ (Nat.mod_lt _ hbase) h.1
    rw [Nat.mod_pow_succ, Nat.mod_pow_succ, htop, ih h.2]

end Colony.Data
