import Mathlib.Algebra.Order.Ring.Int
import Mathlib.Data.List.Infix
import Mathlib.Data.Int.ConditionallyCompleteOrder
import Mathlib.Data.List.AList
import Mathlib.Data.List.Lattice
import Mathlib.Data.Multiset.Basic

universe u v

namespace Colony.Data

abbrev Dict (K : Type u) (V : Type v) := AList (fun _ : K => V)

structure IterOrder (α : Type u) where
  order : List α → List α
  perm : ∀ l, (order l).Perm l

def IterOrder.stored : IterOrder α := ⟨id, fun _ => .refl _⟩

@[simp] theorem IterOrder.mem_order (o : IterOrder α) (l : List α) (x : α) :
    x ∈ o.order l ↔ x ∈ l := (o.perm l).mem_iff

namespace Dict

variable {K : Type u} {V : Type v} [DecidableEq K]

theorem lookup_insert_if (m : Dict K V) (k k' : K) (v : V) :
    (m.insert k v).lookup k' = if k' = k then some v else m.lookup k' := by
  split
  · next h => subst h; exact AList.lookup_insert m
  · next h => exact AList.lookup_insert_ne h

theorem lookup_erase_if (m : Dict K V) (k k' : K) :
    (m.erase k).lookup k' = if k' = k then none else m.lookup k' := by
  split
  · next h => subst h; exact AList.lookup_erase k' m
  · next h => exact AList.lookup_erase_ne h

theorem lookup_foldl_erase (m : Dict K V) (ks : List K) (k : K) :
    (ks.foldl (fun m k => m.erase k) m).lookup k = if k ∈ ks then none else m.lookup k := by
  induction ks generalizing m with
  | nil => rfl
  | cons k' ks ih =>
    rw [List.foldl_cons, ih, lookup_erase_if]
    by_cases hk : k = k' <;> simp [hk]

def getD (m : Dict K V) (k : K) (d : V) : V := (m.lookup k).getD d

theorem getD_of_lookup {m : Dict K V} {k : K} {v : V} (h : m.lookup k = some v) (d : V) :
    getD m k d = v := by rw [getD, h]; rfl

def retain (m : Dict K V) (p : K → V → Bool) : Dict K V where
  entries := m.entries.filter (fun e => p e.1 e.2)
  nodupKeys := m.nodupKeys.sublist List.filter_sublist

theorem mem_lookup_entries (m : Dict K V) (k : K) (v : V) :
    m.lookup k = some v ↔ (⟨k, v⟩ : Σ _ : K, V) ∈ m.entries :=
  AList.mem_lookup_iff

theorem lookup_retain (m : Dict K V) (p : K → V → Bool) (k : K) :
    (retain m p).lookup k = (m.lookup k).filter (p k) := by
  ext v
  rw [mem_lookup_entries, Option.filter_eq_some_iff, mem_lookup_entries]
  simp [retain]

def putBack (m : Dict K (List V)) (k : K) (l : List V) : Dict K (List V) :=
  if l.isEmpty then m.erase k else m.insert k l

def total (f : K → V → Nat) (m : Dict K V) : Nat := (m.entries.map fun e => f e.1 e.2).sum

theorem sum_kerase (f : K → V → Nat) (k : K) (l : List (Σ _ : K, V)) :
    ((l.kerase k).map fun e => f e.1 e.2).sum + (l.dlookup k).elim 0 (f k) =
      (l.map fun e => f e.1 e.2).sum := by
  induction l with
  | nil => rfl
  | cons e l ih =>
    obtain ⟨k', v⟩ := e
    by_cases h : k = k'
    · subst h
      have hk : List.kerase k ((⟨k, v⟩ : Σ _ : K, V) :: l) = l := List.kerase_cons_eq rfl
      rw [hk, List.dlookup_cons_eq, List.map_cons, List.sum_cons]
      exact Nat.add_comm _ _
    · have hk : List.kerase k ((⟨k', v⟩ : Σ _ : K, V) :: l) = ⟨k', v⟩ :: l.kerase k :=
        List.kerase_cons_ne h
      rw [hk, List.dlookup_cons_ne l ⟨k', v⟩ h]
      simp only [List.map_cons, List.sum_cons]
      omega

section Lists

variable {f : K → List V → Nat} (hf : ∀ k, f k [] = 0) (m : Dict K (List V)) (k : K) (l : List V)
include hf

theorem total_erase : total f (m.erase k) + f k (getD m k []) = total f m := by
  have hsum := sum_kerase f k m.entries
  have hk : (m.entries.dlookup k).elim 0 (f k) = f k (getD m k []) := by
    unfold getD AList.lookup
    cases m.entries.dlookup k with
    | none => exact (hf k).symm
    | some v => rfl
  rwa [hk] at hsum

theorem total_insert : total f (m.insert k l) + f k (getD m k []) = total f m + f k l := by
  have herase := total_erase hf m k
  have hinsert : total f (m.insert k l) = f k l + total f (m.erase k) := by
    simp only [total, AList.insert, List.kinsert_def, List.map_cons, List.sum_cons]
    rfl
  omega

theorem total_putBack : total f (putBack m k l) + f k (getD m k []) = total f m + f k l := by
  unfold putBack
  split
  · next h =>
    rw [List.isEmpty_iff.1 h, hf, total_erase hf, Nat.add_zero]
  · exact total_insert hf m k l

end Lists

omit [DecidableEq K] in
theorem total_retain (f : K → V → Nat) (m : Dict K V) (p : K → V → Bool) :
    total f (retain m p) + total f (retain m fun k v => !p k v) = total f m := by
  simp only [total, retain]
  induction m.entries with
  | nil => rfl
  | cons e es ih =>
    by_cases he : p e.1 e.2 = true
    · simp only [List.filter_cons, he, if_true, Bool.not_true, Bool.false_eq_true, if_false,
        List.map_cons, List.sum_cons]
      omega
    · simp only [List.filter_cons, he, Bool.false_eq_true, if_false, Bool.not_false, if_true,
        List.map_cons, List.sum_cons]
      omega

end Dict

def pushNew [DecidableEq α] (xs : List α) (x : α) : List α :=
  if x ∈ xs then xs else xs ++ [x]

@[simp] theorem mem_pushNew [DecidableEq α] {xs : List α} {x y : α} :
    y ∈ pushNew xs x ↔ y ∈ xs ∨ y = x := by
  unfold pushNew
  split
  · next h =>
    constructor
    · exact .inl
    · rintro (hy | rfl)
      · exact hy
      · exact h
  · simp

theorem nodup_pushNew [DecidableEq α] {xs : List α} (x : α) (h : xs.Nodup) :
    (pushNew xs x).Nodup := by
  unfold pushNew
  split
  · exact h
  · next hx => exact List.nodup_append.2 ⟨h, List.nodup_singleton x, by
      intro a ha b hb
      rw [List.mem_singleton.1 hb]
      rintro rfl
      exact hx ha⟩

@[simp] theorem mem_foldl_pushNew [DecidableEq α] (ys xs : List α) (x : α) :
    x ∈ ys.foldl pushNew xs ↔ x ∈ xs ∨ x ∈ ys := by
  induction ys generalizing xs with
  | nil => simp
  | cons y ys ih => rw [List.foldl_cons, ih, mem_pushNew, List.mem_cons, or_assoc]

theorem foldlM_covers {step : List β → α → Option (List β)} {P : α → List β → Prop}
    (hmono : ∀ a xs ys, xs ⊆ ys → P a xs → P a ys)
    (hstep : ∀ xs a ys, step xs a = some ys → xs ⊆ ys ∧ P a ys) {l : List α} {init out : List β}
    (h : l.foldlM step init = some out) : init ⊆ out ∧ ∀ a ∈ l, P a out := by
  induction l generalizing init with
  | nil => cases h; simp
  | cons a l ih =>
    rw [List.foldlM_cons] at h
    obtain ⟨mid, hmid, hrest⟩ := Option.bind_eq_some_iff.1 h
    obtain ⟨hsub, ha⟩ := hstep init a mid hmid
    obtain ⟨hsub', hl⟩ := ih hrest
    refine ⟨fun x hx => hsub' (hsub hx), fun b hb => ?_⟩
    cases List.mem_cons.1 hb with
    | inl heq => exact heq ▸ hmono a mid out hsub' ha
    | inr hb => exact hl b hb

end Colony.Data
