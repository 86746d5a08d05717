import Colony.Defs.Data.Dict
import Colony.Defs.Data.Run

/-! Transactions over one store.  Each runs statement by statement, sees the store as it
is at that moment, holds its locks until it ends and writes when it commits.  Locks are
a relation between what two transactions have come to: where they clash, the later one
waits.

The rule at the end is how such a system is reasoned about: what a transaction believes of
the store has to survive the commits of those it does not clash with. -/

namespace Colony.Data

inductive Move (σ τ : Type)
  | wait
  | go (t : τ)
  -- A commit after which the same party goes on, in its next transaction.
  | save (store : σ) (t : τ)
  | commit (store : σ)
  | abort

/-- `ρ` are the requests that start a transaction, `ε` the calls of the rest of the system,
each made in one step unless some open transaction blocks it. -/
structure TxSystem (σ τ ρ ε : Type) where
  start : σ → ρ → Option τ
  next : σ → τ → Move σ τ
  clash : τ → τ → Bool
  env : σ → ε → σ
  blocked : σ → ε → τ → Bool

inductive TxCall (ρ ε : Type)
  | start (tid : Nat) (r : ρ)
  | advance (tid : Nat)
  | abort (tid : Nat)
  | env (e : ε)

structure TxState (σ τ : Type) where
  store : σ
  txs : Dict Nat τ

namespace TxSystem

variable {σ τ ρ ε : Type} (M : TxSystem σ τ ρ ε)

def mayTake (s : TxState σ τ) (tid : Nat) (t : τ) : Bool :=
  (s.txs.erase tid).entries.all fun e => !M.clash t e.2

def mayCall (s : TxState σ τ) (e : ε) : Bool := s.txs.entries.all fun x => !M.blocked s.store e x.2

def step (s : TxState σ τ) : TxCall ρ ε → TxState σ τ
  | .start tid r =>
    match s.txs.lookup tid, M.start s.store r with
    | none, some t => { s with txs := s.txs.insert tid t }
    | _, _ => s
  | .advance tid =>
    match s.txs.lookup tid with
    | none => s
    | some t =>
      match M.next s.store t with
      | .wait => s
      | .go t' => if M.mayTake s tid t' then { s with txs := s.txs.insert tid t' } else s
      | .save store t' => ⟨store, s.txs.insert tid t'⟩
      | .commit store => ⟨store, s.txs.erase tid⟩
      | .abort => { s with txs := s.txs.erase tid }
  | .abort tid => { s with txs := s.txs.erase tid }
  | .env e => if M.mayCall s e then { s with store := M.env s.store e } else s

/-- `I` holds of the store, `J` of the store and each open transaction, and no two clash. -/
structure Holds (I : σ → Prop) (J : σ → τ → Prop) (s : TxState σ τ) : Prop where
  store : I s.store
  believed : ∀ tid t, s.txs.lookup tid = some t → J s.store t
  apart : ∀ tid tid' t t', s.txs.lookup tid = some t → s.txs.lookup tid' = some t' →
    tid ≠ tid' → M.clash t t' = false

structure Rule (ok : TxCall ρ ε → Prop) (I : σ → Prop) (J : σ → τ → Prop) : Prop where
  symm : ∀ t u, M.clash t u = M.clash u t
  start : ∀ s tid r t, ok (.start tid r) → I s → M.start s r = some t →
    J s t ∧ ∀ u, M.clash t u = false
  go : ∀ s t t', I s → J s t → M.next s t = .go t' → J s t'
  save : ∀ s t s' t', I s → J s t → M.next s t = .save s' t' →
    (I s' ∧ J s' t' ∧ ∀ u, M.clash t u = false → M.clash t' u = false) ∧
      ∀ u, J s u → M.clash t u = false → J s' u
  commit : ∀ s t s', I s → J s t → M.next s t = .commit s' →
    I s' ∧ ∀ u, J s u → M.clash t u = false → J s' u
  env : ∀ s e, ok (.env e) → I s →
    I (M.env s e) ∧ ∀ u, J s u → M.blocked s e u = false → J (M.env s e) u

variable {M} {ok : TxCall ρ ε → Prop} {I : σ → Prop} {J : σ → τ → Prop} {s : TxState σ τ}

theorem mayTake_iff {tid : Nat} {t : τ} : M.mayTake s tid t = true ↔
    ∀ tid' u, tid' ≠ tid → s.txs.lookup tid' = some u → M.clash t u = false := by
  simp only [mayTake, List.all_eq_true, Bool.not_eq_true']
  constructor
  · intro h tid' u hne hu
    refine h ⟨tid', u⟩ ((Dict.mem_lookup_entries _ _ _).1 ?_)
    rw [Dict.lookup_erase_if, if_neg hne]
    exact hu
  · intro h e he
    have hlookup := (Dict.mem_lookup_entries (s.txs.erase tid) e.1 e.2).2 he
    rw [Dict.lookup_erase_if] at hlookup
    split at hlookup
    · cases hlookup
    · next hne => exact h e.1 e.2 hne hlookup

theorem mayCall_iff {e : ε} : M.mayCall s e = true ↔
    ∀ tid u, s.txs.lookup tid = some u → M.blocked s.store e u = false := by
  simp only [mayCall, List.all_eq_true, Bool.not_eq_true']
  constructor
  · intro h tid u hu
    exact h ⟨tid, u⟩ ((Dict.mem_lookup_entries _ _ _).1 hu)
  · intro h x hx
    exact h x.1 x.2 ((Dict.mem_lookup_entries s.txs x.1 x.2).2 hx)

theorem Holds.erase (h : M.Holds I J s) (tid : Nat) :
    M.Holds I J { s with txs := s.txs.erase tid } := by
  have hkept {tid' : Nat} {t : τ} (ht : (s.txs.erase tid).lookup tid' = some t) :
      s.txs.lookup tid' = some t := by
    rw [Dict.lookup_erase_if] at ht
    split at ht
    · cases ht
    · exact ht
  exact ⟨h.store, fun tid' t ht => h.believed tid' t (hkept ht),
    fun tid₁ tid₂ t t' ht ht' => h.apart tid₁ tid₂ t t' (hkept ht) (hkept ht')⟩

theorem Holds.insert (h : M.Holds I J s) (hsymm : ∀ t u, M.clash t u = M.clash u t) {tid : Nat}
    {t : τ} (ht : J s.store t)
    (hfree : ∀ tid' u, tid' ≠ tid → s.txs.lookup tid' = some u → M.clash t u = false) :
    M.Holds I J { s with txs := s.txs.insert tid t } := by
  refine ⟨h.store, fun tid' u hu => ?_, fun tid₁ tid₂ u u' hu hu' hne => ?_⟩
  · rw [Dict.lookup_insert_if] at hu
    split at hu
    · cases hu; exact ht
    · exact h.believed tid' u hu
  · rw [Dict.lookup_insert_if] at hu hu'
    split at hu
    · next h₁ =>
      cases hu
      have h₂ : tid₂ ≠ tid := fun h₂ => hne (h₁.trans h₂.symm)
      rw [if_neg h₂] at hu'
      exact hfree tid₂ u' h₂ hu'
    · next h₁ =>
      split at hu'
      · cases hu'
        rw [hsymm]
        exact hfree tid₁ u h₁ hu
      · exact h.apart tid₁ tid₂ u u' hu hu' hne

theorem Rule.step (hrule : M.Rule ok I J) (h : M.Holds I J s) {c : TxCall ρ ε} (hc : ok c) :
    M.Holds I J (M.step s c) := by
  cases c with
  | start tid r =>
    simp only [TxSystem.step]
    split
    · next hnone hstart =>
      obtain ⟨ht, hfree⟩ := hrule.start _ tid r _ hc h.store hstart
      exact h.insert hrule.symm ht fun _ u _ _ => hfree u
    · exact h
  | advance tid =>
    simp only [TxSystem.step]
    split
    · exact h
    · next t ht =>
      have hbelieved := h.believed tid t ht
      split
      · exact h
      · next t' hgo =>
        split
        · next hfree =>
          exact h.insert hrule.symm (hrule.go _ _ _ h.store hbelieved hgo) (mayTake_iff.1 hfree)
        · exact h
      · next store t' hsave =>
        obtain ⟨⟨hstore, ht', hfree⟩, hothers⟩ := hrule.save _ _ _ _ h.store hbelieved hsave
        -- the others go on believing, and then the party itself is put back among them
        have hrest : M.Holds I J ⟨store, s.txs.erase tid⟩ := by
          refine ⟨hstore, fun tid' u hu => ?_, (h.erase tid).apart⟩
          rw [Dict.lookup_erase_if] at hu
          split at hu
          · cases hu
          · next hne =>
            exact hothers u (h.believed tid' u hu) (h.apart tid tid' t u ht hu (Ne.symm hne))
        have hinsert := @Holds.insert _ _ _ _ _ _ _ _ hrest hrule.symm tid _ ht' fun tid' u hne hu => by
          rw [Dict.lookup_erase_if, if_neg hne] at hu
          exact hfree u (h.apart tid tid' t u ht hu (Ne.symm hne))
        refine ⟨hstore, fun tid' u hu => hinsert.believed tid' u ?_,
          fun tid₁ tid₂ u u' hu hu' => hinsert.apart tid₁ tid₂ u u' ?_ ?_⟩
        · rw [← hu, Dict.lookup_insert_if, Dict.lookup_insert_if, Dict.lookup_erase_if]
          split <;> rfl
        · rw [← hu, Dict.lookup_insert_if, Dict.lookup_insert_if, Dict.lookup_erase_if]
          split <;> rfl
        · rw [← hu', Dict.lookup_insert_if, Dict.lookup_insert_if, Dict.lookup_erase_if]
          split <;> rfl
      · next store hcommit =>
        obtain ⟨hstore, hothers⟩ := hrule.commit _ _ _ h.store hbelieved hcommit
        refine ⟨hstore, fun tid' u hu => ?_, (h.erase tid).apart⟩
        rw [Dict.lookup_erase_if] at hu
        split at hu
        · cases hu
        · next hne =>
          exact hothers u (h.believed tid' u hu) (h.apart tid tid' t u ht hu (Ne.symm hne))
      · exact h.erase tid
  | abort tid => exact h.erase tid
  | env e =>
    simp only [TxSystem.step]
    split
    · next hfree =>
      obtain ⟨hstore, hothers⟩ := hrule.env _ e hc h.store
      exact ⟨hstore, fun tid u hu =>
        hothers u (h.believed tid u hu) (mayCall_iff.1 hfree tid u hu), h.apart⟩
    · exact h

theorem Rule.run (hrule : M.Rule ok I J) {calls : List (TxCall ρ ε)} (hcalls : ∀ c ∈ calls, ok c)
    (h : M.Holds I J s) : M.Holds I J (runFrom M.step s calls) := by
  induction calls generalizing s with
  | nil => exact h
  | cons c calls ih =>
    exact ih (fun c' hc' => hcalls c' (List.mem_cons_of_mem _ hc'))
      (hrule.step h (hcalls c List.mem_cons_self))

def idle (store : σ) : TxState σ τ := ⟨store, ∅⟩

theorem holds_idle {store : σ} (h : I store) : M.Holds I J (idle store) :=
  ⟨h, fun _ _ ht => (nomatch ht), fun _ _ _ _ ht => (nomatch ht)⟩

end TxSystem

end Colony.Data
