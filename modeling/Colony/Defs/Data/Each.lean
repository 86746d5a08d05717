import Colony.Defs.Data.Dict

universe u v

namespace Colony.Data.Dict

variable {K : Type u} {V : Type v}

section Each

variable [DecidableEq K] {P : K → V → Prop} {m : Dict K V}

def Each (P : K → V → Prop) (m : Dict K V) : Prop := ∀ k v, m.lookup k = some v → P k v

theorem Each.imp {Q : K → V → Prop} (h : Each P m) (hQ : ∀ k v, P k v → Q k v) : Each Q m :=
  fun k v hk => hQ k v (h k v hk)

theorem each_empty : Each P (∅ : Dict K V) := fun _ _ h => by cases h

theorem Each.insert (h : Each P m) {k : K} {v : V} (hv : P k v) : Each P (m.insert k v) := by
  intro k' v' hk'
  rw [lookup_insert_if] at hk'
  split at hk'
  next heq =>
    cases hk'
    exact heq ▸ hv
  next => exact h k' v' hk'

theorem Each.erase (h : Each P m) (k : K) : Each P (m.erase k) := by
  intro k' v' hk'
  rw [lookup_erase_if] at hk'
  split at hk'
  next => cases hk'
  next => exact h k' v' hk'

theorem Each.retain (h : Each P m) (p : K → V → Bool) : Each P (Dict.retain m p) := by
  intro k v hk
  rw [lookup_retain, Option.filter_eq_some_iff] at hk
  exact h k v hk.1

end Each

section Lists

variable [DecidableEq K] {P : K → List V → Prop} {m : Dict K (List V)}

theorem lookup_putBack (m : Dict K (List V)) (k k' : K) (l : List V) :
    (putBack m k l).lookup k' = if k' = k then (if l = [] then none else some l) else m.lookup k' := by
  unfold putBack
  cases l with
  | nil => exact lookup_erase_if m k k'
  | cons a l => exact lookup_insert_if m k k' (a :: l)

theorem getD_putBack (m : Dict K (List V)) (k k' : K) (l : List V) :
    getD (putBack m k l) k' [] = if k' = k then l else getD m k' [] := by
  rw [getD, lookup_putBack]
  split
  · split
    next hl => rw [hl, Option.getD_none]
    next => rfl
  · rfl

theorem getD_insert (m : Dict K (List V)) (k k' : K) (l : List V) :
    getD (m.insert k l) k' [] = if k' = k then l else getD m k' [] := by
  rw [getD, lookup_insert_if]
  split <;> rfl

theorem Each.putBack (h : Each P m) {k : K} {l : List V} (hl : l ≠ [] → P k l) :
    Each P (putBack m k l) := by
  unfold Dict.putBack
  split
  · exact h.erase k
  next hne => exact h.insert (hl fun heq => hne (heq ▸ rfl))

theorem Each.getD (h : Each P m) {k : K} (hk : Dict.getD m k [] ≠ []) : P k (Dict.getD m k []) := by
  unfold Dict.getD at hk ⊢
  cases hl : m.lookup k with
  | none => exact absurd (by rw [hl]; rfl) hk
  | some l => exact h k l hl

end Lists

end Colony.Data.Dict
