import Colony.Defs.Data.Run
import Mathlib.Data.Finset.Basic

namespace Colony.Ifc

open Colony.Data

variable {U P : Type} [DecidableEq U] [DecidableEq P]

inductive ReaderSet (P : Type)
  | everyone
  | only (readers : Finset P)
  deriving DecidableEq

namespace ReaderSet

def canFlowTo : ReaderSet P → ReaderSet P → Bool
  | .everyone, _ => true
  | .only _, .everyone => false
  | .only source, .only destination => destination ⊆ source

def join : ReaderSet P → ReaderSet P → ReaderSet P
  | .everyone, value => value
  | value, .everyone => value
  | .only left, .only right => .only (left ∩ right)

end ReaderSet

structure ConfidentialityLabel (U P : Type) where
  «universe» : U
  readers : ReaderSet P
  deriving DecidableEq

inductive LabelError
  | crossUniverse
  deriving DecidableEq

namespace ConfidentialityLabel

def canFlowTo (l destination : ConfidentialityLabel U P) : Bool :=
  l.universe = destination.universe && l.readers.canFlowTo destination.readers

def join (l other : ConfidentialityLabel U P) : Except LabelError (ConfidentialityLabel U P) :=
  if l.universe ≠ other.universe then .error .crossUniverse
  else .ok ⟨l.universe, l.readers.join other.readers⟩

end ConfidentialityLabel

structure FlowState (U P : Type) where
  accumulated : Option (ConfidentialityLabel U P)
  unresolvedInput : Bool

inductive EgressError
  | unresolvedInput
  | destinationUniverseMismatch
  | destinationWidensReaders
  deriving DecidableEq

inductive FlowCall (U P : Type)
  | observe (label : ConfidentialityLabel U P)
  | markUnknown
  deriving DecidableEq

namespace FlowState

def default : FlowState U P := ⟨none, false⟩

def observe (s : FlowState U P) (label : ConfidentialityLabel U P) : FlowState U P :=
  match s.accumulated with
  | none => { s with accumulated := some label }
  | some existing =>
    match existing.join label with
    | .ok combined => { s with accumulated := some combined }
    | .error _ => ⟨some existing, true⟩

def markUnknown (s : FlowState U P) : FlowState U P := { s with unresolvedInput := true }

def checkEgress (s : FlowState U P) (destination : ConfidentialityLabel U P) :
    Except EgressError Unit :=
  if s.unresolvedInput then .error .unresolvedInput
  else
    match s.accumulated with
    | none => .ok ()
    | some accumulated =>
      if accumulated.universe ≠ destination.universe then .error .destinationUniverseMismatch
      else if !accumulated.readers.canFlowTo destination.readers then
        .error .destinationWidensReaders
      else .ok ()

def step (s : FlowState U P) : FlowCall U P → FlowState U P
  | .observe label => s.observe label
  | .markUnknown => s.markUnknown

def run (calls : List (FlowCall U P)) : FlowState U P := runFrom step default calls

end FlowState

/-- The readers, as a set.  A universe is open: `none` stands for its principals that no
explicit set names. -/
def ReaderSet.toSet : ReaderSet P → Set (Option P)
  | .everyone => Set.univ
  | .only readers => {x | ∃ p ∈ readers, x = some p}

section Sets

variable {a b : ReaderSet P} {x : Option P}

omit [DecidableEq P] in
theorem ReaderSet.mem_only {s : Finset P} : x ∈ (ReaderSet.only s).toSet ↔ ∃ p ∈ s, x = some p := Iff.rfl

theorem ReaderSet.canFlowTo_iff : a.canFlowTo b = true ↔ b.toSet ⊆ a.toSet := by
  cases a with
  | everyone => exact iff_of_true rfl (Set.subset_univ _)
  | only source =>
    cases b with
    | everyone =>
      refine iff_of_false (by simp [canFlowTo]) fun h => ?_
      obtain ⟨p, -, hp⟩ := h (Set.mem_univ none)
      cases hp
    | only destination =>
      simp only [canFlowTo, decide_eq_true_eq]
      constructor
      · rintro h x ⟨p, hp, rfl⟩
        exact ⟨p, h hp, rfl⟩
      · intro h p hp
        obtain ⟨q, hq, hqp⟩ := h ⟨p, hp, rfl⟩
        cases hqp
        exact hq

theorem ReaderSet.toSet_join : (a.join b).toSet = a.toSet ∩ b.toSet := by
  cases a with
  | everyone => exact (Set.univ_inter _).symm
  | only left =>
    cases b with
    | everyone => exact (Set.inter_univ _).symm
    | only right =>
      ext x
      simp only [join, mem_only, Set.mem_inter_iff, Finset.mem_inter]
      constructor
      · rintro ⟨p, ⟨hl, hr⟩, rfl⟩
        exact ⟨⟨p, hl, rfl⟩, p, hr, rfl⟩
      · rintro ⟨⟨p, hl, rfl⟩, q, hr, hq⟩
        cases hq
        exact ⟨p, ⟨hl, hr⟩, rfl⟩

end Sets

def Mixed (calls : List (FlowCall U P)) : Prop :=
  ∃ l l', FlowCall.observe l ∈ calls ∧ FlowCall.observe l' ∈ calls ∧ l.universe ≠ l'.universe

/-- The accumulated label is of the universe of some observed label, and is read by who may
read every observed label of that universe. -/
structure Accumulates (calls : List (FlowCall U P)) (acc : ConfidentialityLabel U P) : Prop where
  observed : ∃ l, FlowCall.observe l ∈ calls ∧ l.universe = acc.universe
  readers : ∀ x, x ∈ acc.readers.toSet ↔
    ∀ l, FlowCall.observe l ∈ calls → l.universe = acc.universe → x ∈ l.readers.toSet

structure Accounts (calls : List (FlowCall U P)) (s : FlowState U P) : Prop where
  unresolved : s.unresolvedInput = true ↔ FlowCall.markUnknown ∈ calls ∨ Mixed calls
  unobserved : s.accumulated = none → ∀ l, FlowCall.observe l ∉ calls
  accumulated : ∀ acc, s.accumulated = some acc → Accumulates calls acc

section Accounts

variable {calls calls' : List (FlowCall U P)} {s : FlowState U P}
variable {l acc destination : ConfidentialityLabel U P}

omit [DecidableEq U] [DecidableEq P] in
theorem mem_concat {c c' : FlowCall U P} : c ∈ calls ++ [c'] ↔ c ∈ calls ∨ c = c' := by
  rw [List.mem_append, List.mem_singleton]

omit [DecidableEq U] [DecidableEq P] in
theorem mixed_concat_observe : Mixed (calls ++ [.observe l]) ↔
    Mixed calls ∨ ∃ l', FlowCall.observe l' ∈ calls ∧ l'.universe ≠ l.universe := by
  constructor
  · rintro ⟨a, b, ha, hb, hne⟩
    rcases mem_concat.1 ha with ha | ha <;> rcases mem_concat.1 hb with hb | hb
    · exact .inl ⟨a, b, ha, hb, hne⟩
    · cases hb
      exact .inr ⟨a, ha, hne⟩
    · cases ha
      exact .inr ⟨b, hb, hne.symm⟩
    · cases ha
      cases hb
      exact absurd rfl hne
  · rintro (⟨a, b, ha, hb, hne⟩ | ⟨a, ha, hne⟩)
    · exact ⟨a, b, mem_concat.2 (.inl ha), mem_concat.2 (.inl hb), hne⟩
    · exact ⟨a, l, mem_concat.2 (.inl ha), mem_concat.2 (.inr rfl), hne⟩

omit [DecidableEq U] [DecidableEq P] in
theorem markUnknown_mem_concat_observe :
    FlowCall.markUnknown ∈ calls ++ [.observe l] ↔ FlowCall.markUnknown ∈ calls := by
  simp

omit [DecidableEq U] in
theorem Accumulates.join (h : Accumulates calls acc) (huniverse : acc.universe = l.universe) :
    Accumulates (calls ++ [.observe l]) ⟨acc.universe, acc.readers.join l.readers⟩ := by
  obtain ⟨a, ha, hacc⟩ := h.observed
  refine ⟨⟨a, mem_concat.2 (.inl ha), hacc⟩, fun x => ?_⟩
  rw [ReaderSet.toSet_join, Set.mem_inter_iff, h.readers]
  constructor
  · rintro ⟨hold, hnew⟩ b hb hbu
    rcases mem_concat.1 hb with hb | hb
    · exact hold b hb hbu
    · cases hb
      exact hnew
  · intro hall
    exact ⟨fun b hb => hall b (mem_concat.2 (.inl hb)),
      hall l (mem_concat.2 (.inr rfl)) huniverse.symm⟩

omit [DecidableEq U] [DecidableEq P] in
theorem Accumulates.skip (h : Accumulates calls acc) (huniverse : acc.universe ≠ l.universe) :
    Accumulates (calls ++ [.observe l]) acc := by
  obtain ⟨a, ha, hacc⟩ := h.observed
  refine ⟨⟨a, mem_concat.2 (.inl ha), hacc⟩, fun x => ?_⟩
  rw [h.readers]
  constructor
  · intro hold b hb hbu
    rcases mem_concat.1 hb with hb | hb
    · exact hold b hb hbu
    · cases hb
      exact absurd hbu.symm huniverse
  · exact fun hall b hb => hall b (mem_concat.2 (.inl hb))

theorem Accounts.observe (h : Accounts calls s) (l : ConfidentialityLabel U P) :
    Accounts (calls ++ [.observe l]) (s.observe l) := by
  rw [FlowState.observe]
  split
  · next hnone =>
    have hempty := h.unobserved hnone
    refine ⟨?_, fun hn => (nomatch hn), fun acc hacc => ?_⟩
    · rw [markUnknown_mem_concat_observe, mixed_concat_observe, h.unresolved]
      refine or_congr_right (or_iff_left ?_).symm
      rintro ⟨l', hl', -⟩
      exact hempty l' hl'
    · cases hacc
      refine ⟨⟨l, mem_concat.2 (.inr rfl), rfl⟩, fun x => ⟨fun hx b hb _ => ?_, fun hall => ?_⟩⟩
      · rcases mem_concat.1 hb with hb | hb
        · exact absurd hb (hempty b)
        · cases hb
          exact hx
      · exact hall l (mem_concat.2 (.inr rfl)) rfl
  · next acc hacc =>
    have hold := h.accumulated acc hacc
    obtain ⟨a, ha, hau⟩ := hold.observed
    rw [ConfidentialityLabel.join]
    by_cases huniverse : acc.universe = l.universe
    · rw [if_neg (not_not_intro huniverse)]
      refine ⟨?_, fun hn => (nomatch hn), fun acc' hacc' => ?_⟩
      · rw [markUnknown_mem_concat_observe, mixed_concat_observe, h.unresolved]
        refine or_congr_right (or_iff_left_of_imp ?_).symm
        rintro ⟨l', hl', hne⟩
        exact ⟨l', a, hl', ha, fun heq => hne (heq.trans (hau.trans huniverse))⟩
      · cases hacc'
        exact hold.join huniverse
    · rw [if_pos huniverse]
      refine ⟨?_, fun hn => (nomatch hn), fun acc' hacc' => ?_⟩
      · refine iff_of_true rfl (.inr (mixed_concat_observe.2 (.inr ⟨a, ha, ?_⟩)))
        rwa [hau]
      · cases hacc'
        exact hold.skip huniverse

omit [DecidableEq U] [DecidableEq P] in
theorem observe_mem_concat_markUnknown :
    FlowCall.observe l ∈ calls ++ [.markUnknown] ↔ FlowCall.observe l ∈ calls := by
  simp

omit [DecidableEq U] [DecidableEq P] in
theorem Accounts.markUnknown (h : Accounts calls s) :
    Accounts (calls ++ [.markUnknown]) s.markUnknown := by
  refine ⟨iff_of_true rfl (.inl (mem_concat.2 (.inr rfl))), fun hnone l hl => ?_, fun acc hacc => ?_⟩
  · exact h.unobserved hnone l (observe_mem_concat_markUnknown.1 hl)
  · obtain ⟨⟨a, ha, hau⟩, hreaders⟩ := h.accumulated acc hacc
    refine ⟨⟨a, observe_mem_concat_markUnknown.2 ha, hau⟩, fun x => (hreaders x).trans ?_⟩
    simp only [observe_mem_concat_markUnknown]

theorem run_accounts (calls : List (FlowCall U P)) : Accounts calls (FlowState.run calls) := by
  refine runFrom_history (p := Accounts) ?_ (fun calls c h => ?_) calls
  · exact ⟨by simp [FlowState.default, Mixed], fun _ _ hl => (nomatch hl), fun _ hacc => (nomatch hacc)⟩
  · cases c with
    | observe l => exact h.observe l
    | markUnknown => exact h.markUnknown

omit [DecidableEq U] [DecidableEq P] in
theorem Accounts.universe_eq (h : Accounts calls s) (hresolved : s.unresolvedInput = false)
    (hacc : s.accumulated = some acc) (hl : FlowCall.observe l ∈ calls) : l.universe = acc.universe := by
  obtain ⟨a, ha, hau⟩ := (h.accumulated acc hacc).observed
  by_contra hne
  have hmixed : s.unresolvedInput = true := h.unresolved.2 (.inr ⟨l, a, hl, ha, hau ▸ hne⟩)
  rw [hresolved] at hmixed
  cases hmixed

theorem Accounts.checkEgress_iff (h : Accounts calls s) :
    s.checkEgress destination = .ok () ↔ FlowCall.markUnknown ∉ calls ∧
      ∀ l, FlowCall.observe l ∈ calls → l.universe = destination.universe ∧
        destination.readers.toSet ⊆ l.readers.toSet := by
  rw [FlowState.checkEgress]
  split
  · next hunresolved =>
    refine iff_of_false (fun hok => (nomatch hok)) ?_
    rintro ⟨hmarked, hall⟩
    rcases h.unresolved.1 hunresolved with hmem | ⟨a, b, ha, hb, hne⟩
    · exact hmarked hmem
    · exact hne ((hall a ha).1.trans (hall b hb).1.symm)
  · next hresolved =>
    rw [Bool.not_eq_true] at hresolved
    have hmarked : FlowCall.markUnknown ∉ calls := fun hmem => by
      rw [h.unresolved.2 (.inl hmem)] at hresolved
      cases hresolved
    split
    · next hnone =>
      exact iff_of_true rfl ⟨hmarked, fun l hl => absurd hl (h.unobserved hnone l)⟩
    · next acc hacc =>
      obtain ⟨⟨a, ha, hau⟩, hreaders⟩ := h.accumulated acc hacc
      split
      · next hne =>
        refine iff_of_false (fun hok => (nomatch hok)) fun ⟨_, hall⟩ => hne ?_
        exact hau.symm.trans (hall a ha).1
      · next hsame =>
        rw [not_not] at hsame
        -- the destination's readers are in the join iff they are in every label
        have hsubset : destination.readers.toSet ⊆ acc.readers.toSet ↔
            ∀ l, FlowCall.observe l ∈ calls → destination.readers.toSet ⊆ l.readers.toSet :=
          ⟨fun hsub l hl x hx => (hreaders x).1 (hsub hx) l hl (h.universe_eq hresolved hacc hl),
            fun hall x hx => (hreaders x).2 fun l hl _ => hall l hl hx⟩
        split
        · next hwidens =>
          rw [Bool.not_eq_true', ← Bool.not_eq_true, ReaderSet.canFlowTo_iff, hsubset] at hwidens
          refine iff_of_false (fun hok => (nomatch hok)) fun ⟨_, hall⟩ => hwidens ?_
          exact fun l hl => (hall l hl).2
        · next hnarrow =>
          rw [Bool.not_eq_true', Bool.not_eq_false, ReaderSet.canFlowTo_iff, hsubset] at hnarrow
          exact iff_of_true rfl ⟨hmarked, fun l hl =>
            ⟨(h.universe_eq hresolved hacc hl).trans hsame, hnarrow l hl⟩⟩

theorem Accounts.checkEgress_eq {s' : FlowState U P} (h : Accounts calls s)
    (h' : Accounts calls' s') (hsame : ∀ c, c ∈ calls ↔ c ∈ calls') :
    s.checkEgress destination = s'.checkEgress destination := by
  have hmixed : Mixed calls ↔ Mixed calls' := by simp only [Mixed, hsame]
  have hunresolved : s.unresolvedInput = s'.unresolvedInput := by
    rw [Bool.eq_iff_iff, h.unresolved, h'.unresolved, hsame, hmixed]
  rw [FlowState.checkEgress, FlowState.checkEgress, hunresolved]
  split
  · rfl
  · next hresolved' =>
    rw [Bool.not_eq_true] at hresolved'
    have hresolved := hunresolved.trans hresolved'
    cases hacc : s.accumulated with
    | none =>
      cases hacc' : s'.accumulated with
      | none => rfl
      | some acc' =>
        obtain ⟨a, ha, -⟩ := (h'.accumulated acc' hacc').observed
        exact absurd ((hsame _).2 ha) (h.unobserved hacc a)
    | some acc =>
      obtain ⟨a, ha, hau⟩ := (h.accumulated acc hacc).observed
      cases hacc' : s'.accumulated with
      | none => exact absurd ((hsame _).1 ha) (h'.unobserved hacc' a)
      | some acc' =>
        have huniverse : acc.universe = acc'.universe :=
          hau.symm.trans (h'.universe_eq hresolved' hacc' ((hsame _).1 ha))
        have hreaders : acc.readers.toSet = acc'.readers.toSet := by
          ext x
          rw [(h.accumulated acc hacc).readers, (h'.accumulated acc' hacc').readers]
          simp only [hsame, huniverse]
        have hflow : acc.readers.canFlowTo destination.readers =
            acc'.readers.canFlowTo destination.readers := by
          rw [Bool.eq_iff_iff, ReaderSet.canFlowTo_iff, ReaderSet.canFlowTo_iff, hreaders]
        simp only [huniverse, hflow]

end Accounts

/-- Egress is allowed iff nothing unknown came in and every observed label can flow to the
destination.  The answer does not depend on the order of the observations or on how often each
was made, and an observation more never turns a refusal into an answer. -/
theorem run_checkEgress (calls : List (FlowCall U P)) (destination : ConfidentialityLabel U P) :
    ((FlowState.run calls).checkEgress destination = .ok () ↔ FlowCall.markUnknown ∉ calls ∧
      ∀ l, FlowCall.observe l ∈ calls → l.universe = destination.universe ∧
        destination.readers.toSet ⊆ l.readers.toSet) ∧
    (∀ l : ConfidentialityLabel U P, l.canFlowTo destination = true ↔
      l.universe = destination.universe ∧ destination.readers.toSet ⊆ l.readers.toSet) ∧
    (∀ calls', (∀ c, c ∈ calls ↔ c ∈ calls') →
      (FlowState.run calls').checkEgress destination =
        (FlowState.run calls).checkEgress destination) ∧
    ∀ earlier later l, calls = earlier ++ later →
      (FlowState.run (earlier ++ .observe l :: later)).checkEgress destination = .ok () →
        (FlowState.run calls).checkEgress destination = .ok () := by
  refine ⟨(run_accounts calls).checkEgress_iff, fun l => ?_, fun calls' hsame => ?_, ?_⟩
  · rw [ConfidentialityLabel.canFlowTo, Bool.and_eq_true, decide_eq_true_eq, ReaderSet.canFlowTo_iff]
  · exact (run_accounts calls').checkEgress_eq (run_accounts calls) fun c => (hsame c).symm
  · rintro earlier later l rfl hok
    have hsub : ∀ c ∈ earlier ++ later, c ∈ earlier ++ .observe l :: later := fun c hc => by
      rcases List.mem_append.1 hc with hc | hc
      · exact List.mem_append_left _ hc
      · exact List.mem_append_right _ (List.mem_cons_of_mem _ hc)
    obtain ⟨hmarked, hall⟩ := (run_accounts _).checkEgress_iff.1 hok
    exact (run_accounts _).checkEgress_iff.2
      ⟨fun hmem => hmarked (hsub _ hmem), fun l' hl' => hall l' (hsub _ hl')⟩

end Colony.Ifc
