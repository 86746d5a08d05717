import Colony.Defs.Data.Dict
import Colony.Defs.Data.Except

universe u v w

namespace Colony.Data

variable {K : Type u} {V : Type v} {T : Type w} [DecidableEq K] [DecidableEq T] (kind : V → T)

def assign (m : Dict K V) (k : K) (v : V) : Except (V × V) (Dict K V) :=
  match m.lookup k with
  | some existing => if kind existing = kind v then .ok (m.insert k v) else .error (existing, v)
  | none => .ok (m.insert k v)

def assignAll (m : Dict K V) (l : List (K × V)) : Except (V × V) (Dict K V) :=
  l.foldlM (fun m a => assign kind m a.1 a.2) m

variable {kind} {m m' : Dict K V} {k : K} {v existing : V} {l : List (K × V)}

theorem assign_eq_ok : assign kind m k v = .ok m' ↔
    (∀ existing ∈ m.lookup k, kind existing = kind v) ∧ m' = m.insert k v := by
  unfold assign
  cases m.lookup k with
  | none => simp [eq_comm]
  | some existing =>
    by_cases h : kind existing = kind v
    · simp [h, eq_comm]
    · simp only [if_neg h]
      exact ⟨nofun, fun hall => absurd (hall.1 existing rfl) h⟩

theorem assignAll_cons (a : K × V) :
    assignAll kind m (a :: l) = (do let m ← assign kind m a.1 a.2; assignAll kind m l) := by
  rw [assignAll, List.foldlM_cons]
  rfl

theorem assignAll_append (l l' : List (K × V)) :
    assignAll kind m (l ++ l') = (do let m ← assignAll kind m l; assignAll kind m l') := by
  rw [assignAll, List.foldlM_append]
  rfl

theorem assignAll_frame (h : assignAll kind m l = .ok m') (hk : ∀ a ∈ l, a.1 ≠ k) :
    m'.lookup k = m.lookup k := by
  induction l generalizing m with
  | nil =>
    cases h
    rfl
  | cons a l ih =>
    rw [assignAll_cons, bind_eq_ok] at h
    obtain ⟨m₁, ha, hl⟩ := h
    obtain ⟨hne, hrest⟩ := List.forall_mem_cons.1 hk
    rw [ih hl hrest, (assign_eq_ok.1 ha).2, AList.lookup_insert_ne hne.symm]

theorem assignAll_kind (h : assignAll kind m l = .ok m') (hk : m.lookup k = some existing) :
    ∃ now, m'.lookup k = some now ∧ kind now = kind existing := by
  induction l generalizing m existing with
  | nil =>
    cases h
    exact ⟨existing, hk, rfl⟩
  | cons a l ih =>
    rw [assignAll_cons, bind_eq_ok] at h
    obtain ⟨m₁, ha, hl⟩ := h
    obtain ⟨hkind, rfl⟩ := assign_eq_ok.1 ha
    by_cases hka : k = a.1
    · subst hka
      obtain ⟨now, hnow, hsame⟩ := ih hl (AList.lookup_insert m)
      exact ⟨now, hnow, hsame.trans (hkind existing hk).symm⟩
    · exact ih hl (by rwa [AList.lookup_insert_ne hka])

theorem assignAll_mem (h : assignAll kind m l = .ok m') (hmem : (k, v) ∈ l) :
    ∃ now, m'.lookup k = some now ∧ kind now = kind v := by
  obtain ⟨l₁, l₂, rfl⟩ := List.append_of_mem hmem
  rw [assignAll_append, bind_eq_ok] at h
  obtain ⟨m₁, -, hl⟩ := h
  rw [assignAll_cons, bind_eq_ok] at hl
  obtain ⟨m₂, ha, hl⟩ := hl
  rw [(assign_eq_ok.1 ha).2] at hl
  exact assignAll_kind hl (AList.lookup_insert m₁)

theorem assignAll_value (h : assignAll kind m l = .ok m') (hmem : (k, v) ∈ l)
    (hall : ∀ v', (k, v') ∈ l → v' = v) : m'.lookup k = some v := by
  induction l generalizing m with
  | nil => simp at hmem
  | cons a l ih =>
    rw [assignAll_cons, bind_eq_ok] at h
    obtain ⟨m₁, ha, hl⟩ := h
    by_cases hlater : (k, v) ∈ l
    · exact ih hl hlater fun v' hv' => hall v' (List.mem_cons_of_mem _ hv')
    · obtain rfl : (k, v) = a := (List.mem_cons.1 hmem).resolve_right hlater
      have hframe := assignAll_frame hl fun b hb (hbk : b.1 = k) => hlater (by
        have hb' : (k, b.2) ∈ l := hbk ▸ hb
        rwa [hall b.2 (List.mem_cons_of_mem _ hb')] at hb')
      rw [hframe, (assign_eq_ok.1 ha).2, AList.lookup_insert]

theorem assignAll_of_kinds (hm : ∀ a ∈ l, ∀ existing ∈ m.lookup a.1, kind existing = kind a.2)
    (hl : ∀ a ∈ l, ∀ b ∈ l, a.1 = b.1 → kind a.2 = kind b.2) :
    ∃ m', assignAll kind m l = .ok m' := by
  induction l generalizing m with
  | nil => exact ⟨m, rfl⟩
  | cons a l ih =>
    obtain ⟨ha, hrest⟩ := List.forall_mem_cons.1 hm
    obtain ⟨m', hm'⟩ := @ih (m.insert a.1 a.2) (fun b hb existing hexisting => by
      by_cases hab : b.1 = a.1
      · rw [hab, AList.lookup_insert, Option.mem_some_iff] at hexisting
        subst hexisting
        exact (hl b (List.mem_cons_of_mem _ hb) a List.mem_cons_self hab).symm
      · rw [AList.lookup_insert_ne hab] at hexisting
        exact hrest b hb existing hexisting)
      fun b hb c hc => hl b (List.mem_cons_of_mem _ hb) c (List.mem_cons_of_mem _ hc)
    refine ⟨m', ?_⟩
    rw [assignAll_cons, bind_eq_ok]
    exact ⟨m.insert a.1 a.2, assign_eq_ok.2 ⟨ha, rfl⟩, hm'⟩

end Colony.Data
