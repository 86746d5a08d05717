import Colony.Defs.Data.Dict
import Colony.Defs.Data.Run

namespace Colony.Acp

open Colony.Data

/-- The cumulative counters of a session, each of them possibly not reported. Costs are of any
type with a difference and a test. -/
structure Snapshot (C : Type) where
  input : Option Nat
  output : Option Nat
  cost : Option C
  total : Option Nat
  cachedInput : Option Nat
  cacheWrite : Option Nat

structure UsageUpdatePayload (C I : Type) where
  accumulated : Snapshot C
  model : Option String
  pricingIdentity : Option I

structure SessionState (C : Type) where
  publishedSeq : Nat
  last : Snapshot C
  inputEverPoisoned : Bool
  outputEverPoisoned : Bool

structure TurnUsage (C I : Type) where
  sessionId : String
  turnSeq : Nat
  deltaReliable : Bool
  turnInputTokens : Option Nat
  turnOutputTokens : Option Nat
  turnTotalTokens : Option Nat
  turnCostUsd : Option C
  turnCacheReadTokens : Option Nat
  turnCacheWriteTokens : Option Nat
  cumulative : Snapshot C
  model : Option String
  pricingIdentity : Option I

structure UsageTracker (C I : Type) where
  sessions : Dict String (SessionState C)
  inFlightSession : Option String
  pending : Option (TurnUsage C I)
  pendingIdentity : Option (Option I)
  inputAbsenceObserved : Bool
  outputAbsenceObserved : Bool

variable {C I : Type}

namespace SessionState

def unknown : SessionState C := ⟨0, ⟨none, none, none, none, none, none⟩, false, false⟩

def zero [Zero C] : SessionState C :=
  ⟨0, ⟨some 0, some 0, some 0, some 0, some 0, some 0⟩, false, false⟩

def poison (s : SessionState C) (input output : Bool) : SessionState C :=
  { s with
    inputEverPoisoned := s.inputEverPoisoned || input
    outputEverPoisoned := s.outputEverPoisoned || output }

def poisoned (s : SessionState C) : Bool := s.inputEverPoisoned || s.outputEverPoisoned

end SessionState

structure Delta (C : Type) where
  reliable : Bool
  input : Option Nat
  output : Option Nat
  cost : Option C

def Delta.unreliable : Delta C := ⟨false, none, none, none⟩

def fieldDelta : Option Nat → Option Nat → Option Nat
  | some current, some previous => if previous ≤ current then some (current - previous) else none
  | _, _ => none

section Cost

variable [Sub C] [LE C] [DecidableLE C]

def costDelta : Option C → Option C → Option (Option C)
  | some current, some previous =>
    if previous ≤ current then some (some (current - previous)) else none
  | _, _ => some none

def SessionState.delta (previous : SessionState C) (current : Snapshot C)
    (inputAbsent outputAbsent : Bool) : Delta C :=
  if previous.inputEverPoisoned || inputAbsent || current.input.isNone ||
      (previous.outputEverPoisoned || outputAbsent || current.output.isNone) then .unreliable
  else match current.input, current.output, previous.last.input, previous.last.output with
    | some ci, some co, some pi, some po =>
      if ci < pi ∨ co < po then .unreliable
      else match costDelta current.cost previous.last.cost with
        | some cost => ⟨true, some (ci - pi), some (co - po), cost⟩
        | none => .unreliable
    | _, _, _, _ => .unreliable

end Cost

def foldIdentity [DecidableEq I] (folded : Option (Option I)) (incoming : Option I) :
    Option (Option I) :=
  match folded with
  | none => some incoming
  | some (some existing) => if some existing = incoming then some incoming else some none
  | some none => some none

namespace UsageTracker

def empty : UsageTracker C I := ⟨∅, none, none, none, false, false⟩

def session (t : UsageTracker C I) (id : String) : SessionState C :=
  Dict.getD t.sessions id .unknown

def latch (t : UsageTracker C I) (id : String) (input output : Bool) : UsageTracker C I :=
  { t with sessions := t.sessions.insert id ((t.session id).poison input output) }

def flush (t : UsageTracker C I) : UsageTracker C I :=
  if t.inputAbsenceObserved || t.outputAbsenceObserved then
    match t.inFlightSession with
    | some id => t.latch id t.inputAbsenceObserved t.outputAbsenceObserved
    | none => t
  else t

def beginTurn (t : UsageTracker C I) (id : String) : UsageTracker C I :=
  { t.flush with
    inFlightSession := some id, pending := none, pendingIdentity := none
    inputAbsenceObserved := false, outputAbsenceObserved := false }

section Record

variable [Sub C] [LE C] [DecidableLE C] [DecidableEq I]

def deltaOf (t : UsageTracker C I) (id : String) (current : Snapshot C)
    (inputAbsent outputAbsent : Bool) : Delta C :=
  match t.sessions.lookup id with
  | none => .unreliable
  | some previous => previous.delta current inputAbsent outputAbsent

def pendingOf (t : UsageTracker C I) (id : String) (payload : UsageUpdatePayload C I)
    (delta : Delta C) : TurnUsage C I where
  sessionId := id
  turnSeq := (t.session id).publishedSeq + 1
  deltaReliable := delta.reliable
  turnInputTokens := delta.input
  turnOutputTokens := delta.output
  turnTotalTokens := fieldDelta payload.accumulated.total (t.session id).last.total
  turnCostUsd := delta.cost
  turnCacheReadTokens :=
    fieldDelta payload.accumulated.cachedInput (t.session id).last.cachedInput
  turnCacheWriteTokens := fieldDelta payload.accumulated.cacheWrite (t.session id).last.cacheWrite
  cumulative := payload.accumulated
  model := payload.model
  pricingIdentity := none

def recordInFlight (t : UsageTracker C I) (id : String) (payload : UsageUpdatePayload C I) :
    UsageTracker C I :=
  let inputAbsent := t.inputAbsenceObserved || payload.accumulated.input.isNone
  let outputAbsent := t.outputAbsenceObserved || payload.accumulated.output.isNone
  { t with
    inputAbsenceObserved := inputAbsent
    outputAbsenceObserved := outputAbsent
    pendingIdentity := foldIdentity t.pendingIdentity payload.pricingIdentity
    pending := some (t.pendingOf id payload
      (t.deltaOf id payload.accumulated inputAbsent outputAbsent)) }

def recordOutOfTurn (t : UsageTracker C I) (id : String) (current : Snapshot C) :
    UsageTracker C I :=
  { t with
    sessions := t.sessions.insert id
      { (t.session id).poison current.input.isNone current.output.isNone with last := current } }

def record (t : UsageTracker C I) (id : String) (payload : UsageUpdatePayload C I) :
    UsageTracker C I :=
  if t.inFlightSession = some id then t.recordInFlight id payload
  else if t.inFlightSession = none then t.recordOutOfTurn id payload.accumulated
  else if payload.accumulated.input.isNone || payload.accumulated.output.isNone then
    t.latch id payload.accumulated.input.isNone payload.accumulated.output.isNone
  else t

end Record

def seedZeroBaseline [Zero C] (t : UsageTracker C I) (id : String) : UsageTracker C I :=
  if (t.sessions.lookup id).isSome then t
  else { t with sessions := t.sessions.insert id .zero }

def commit (t : UsageTracker C I) (record : TurnUsage C I) : SessionState C :=
  { (t.session record.sessionId).poison
      (t.inputAbsenceObserved || record.cumulative.input.isNone)
      (t.outputAbsenceObserved || record.cumulative.output.isNone) with
    publishedSeq := record.turnSeq, last := record.cumulative }

def take (t : UsageTracker C I) : Option (TurnUsage C I) × UsageTracker C I :=
  let cleared : UsageTracker C I :=
    { t with
      inFlightSession := none, pending := none, pendingIdentity := none
      inputAbsenceObserved := false, outputAbsenceObserved := false }
  match t.pending with
  | none => (none, cleared)
  | some record =>
    (some { record with pricingIdentity := t.pendingIdentity.join },
      { cleared with sessions := t.sessions.insert record.sessionId (t.commit record) })

end UsageTracker

def Measured (counter : Snapshot C → Option Nat) (delta : TurnUsage C I → Option Nat)
    (u : TurnUsage C I) (base : Snapshot C) : Prop :=
  ∃ c b, counter u.cumulative = some c ∧ counter base = some b ∧ b ≤ c ∧ delta u = some (c - b)

def TurnUsage.Unreliable (u : TurnUsage C I) : Prop :=
  u.deltaReliable = false ∧ u.turnInputTokens = none ∧ u.turnOutputTokens = none ∧
    u.turnCostUsd = none

namespace UsageTracker

variable {t : UsageTracker C I} {id : String}

theorem deltaOf_cases [Sub C] [LE C] [DecidableLE C] (t : UsageTracker C I) (id : String)
    (current : Snapshot C) (i o : Bool) :
    t.deltaOf id current i o = .unreliable ∨ ∃ st, t.sessions.lookup id = some st ∧
      st.poisoned = false ∧ i = false ∧ o = false ∧ ∃ ci co pi po cost,
        current.input = some ci ∧ current.output = some co ∧ st.last.input = some pi ∧
        st.last.output = some po ∧ pi ≤ ci ∧ po ≤ co ∧
        t.deltaOf id current i o = ⟨true, some (ci - pi), some (co - po), cost⟩ := by
  unfold deltaOf
  split
  · exact .inl rfl
  · next st hst =>
    unfold SessionState.delta
    split
    · exact .inl rfl
    · next hclean =>
      split
      · next ci co pi po hci hco hpi hpo =>
        split
        · exact .inl rfl
        · next hle =>
          split
          · next cost _ =>
            simp only [hci, hco, Option.isNone_some, Bool.or_false, Bool.or_eq_true, not_or,
              Bool.not_eq_true] at hclean
            exact .inr ⟨st, hst, by simp [SessionState.poisoned, hclean], hclean.1.2, hclean.2.2, ci,
              co, pi, po, cost, hci, hco, hpi, hpo, by omega, by omega, rfl⟩
          · exact .inl rfl
      · exact .inl rfl

structure Sound (t : UsageTracker C I) : Prop where
  inFlight : ∀ p, t.pending = some p → t.inFlightSession = some p.sessionId
  seq : ∀ p, t.pending = some p → p.turnSeq = (t.session p.sessionId).publishedSeq + 1
  delta : ∀ p, t.pending = some p → p.Unreliable ∨ ∃ st, t.sessions.lookup p.sessionId = some st ∧
    st.poisoned = false ∧ t.inputAbsenceObserved = false ∧ t.outputAbsenceObserved = false ∧
    p.deltaReliable = true ∧ Measured Snapshot.input TurnUsage.turnInputTokens p st.last ∧
    Measured Snapshot.output TurnUsage.turnOutputTokens p st.last
  absent : (t.inputAbsenceObserved || t.outputAbsenceObserved) = true → t.pending.isSome

theorem Sound.sessions (h : t.Sound) {sessions : Dict String (SessionState C)}
    (hsame : ∀ p, t.pending = some p →
      sessions.lookup p.sessionId = t.sessions.lookup p.sessionId) :
    Sound { t with sessions } := by
  have hsession {p : TurnUsage C I} (hp : t.pending = some p) :
      ({ t with sessions } : UsageTracker C I).session p.sessionId = t.session p.sessionId := by
    simp only [session, Dict.getD, hsame p hp]
  refine ⟨h.inFlight, fun p hp => (h.seq p hp).trans (by rw [hsession hp]), fun p hp => ?_, h.absent⟩
  have hdelta := h.delta p hp
  rwa [← hsame p hp] at hdelta

theorem Sound.beginTurn (t : UsageTracker C I) (id : String) : (t.beginTurn id).Sound :=
  ⟨fun _ hp => (by cases hp), fun _ hp => (by cases hp), fun _ hp => (by cases hp),
    fun h => (by cases h)⟩

theorem take_cleared (t : UsageTracker C I) : t.take.2.inFlightSession = none ∧
    t.take.2.pending = none ∧ t.take.2.inputAbsenceObserved = false ∧
    t.take.2.outputAbsenceObserved = false := by
  unfold take
  split <;> exact ⟨rfl, rfl, rfl, rfl⟩

theorem take_none (h : t.pending = none) : t.take.1 = none ∧ t.take.2.sessions = t.sessions := by
  simp [take, h]

theorem take_some {p : TurnUsage C I} (h : t.pending = some p) :
    t.take.1 = some { p with pricingIdentity := t.pendingIdentity.join } ∧
      t.take.2.sessions = t.sessions.insert p.sessionId (t.commit p) := by
  simp [take, h]

theorem Sound.take (t : UsageTracker C I) : t.take.2.Sound := by
  obtain ⟨-, hpending, hinput, houtput⟩ := t.take_cleared
  refine ⟨?_, ?_, ?_, ?_⟩ <;> simp [hpending, hinput, houtput]

theorem Sound.seed [Zero C] (h : t.Sound) (id : String) : (t.seedZeroBaseline id).Sound := by
  unfold seedZeroBaseline
  split
  · exact h
  · next hnone =>
    have hlookup : t.sessions.lookup id = none := by simpa using hnone
    refine ⟨h.inFlight, fun p hp => ?_, fun p hp => ?_, h.absent⟩
    · rw [h.seq p hp]
      simp only [session, Dict.getD, Dict.lookup_insert_if]
      split
      · next heq =>
        rw [heq, hlookup]
        rfl
      · rfl
    · rcases h.delta p hp with hun | ⟨st, hst, hrest⟩
      · exact .inl hun
      · refine .inr ⟨st, ?_, hrest⟩
        rw [Dict.lookup_insert_if, if_neg, hst]
        rintro rfl
        rw [hlookup] at hst
        cases hst

theorem Sound.record [Sub C] [LE C] [DecidableLE C] [DecidableEq I] (h : t.Sound) (id : String)
    (payload : UsageUpdatePayload C I) :
    (t.record id payload).Sound := by
  have hother {p : TurnUsage C I} (hp : t.pending = some p) (hne : t.inFlightSession ≠ some id) :
      p.sessionId ≠ id := by
    rintro rfl
    exact hne (h.inFlight p hp)
  unfold UsageTracker.record
  split
  · next hflight =>
    refine ⟨?_, ?_, ?_, fun _ => rfl⟩
    · rintro p ⟨⟩
      exact hflight
    · rintro p ⟨⟩
      rfl
    · rintro p ⟨⟩
      simp only [recordInFlight]
      rcases t.deltaOf_cases id payload.accumulated
          (t.inputAbsenceObserved || payload.accumulated.input.isNone)
          (t.outputAbsenceObserved || payload.accumulated.output.isNone) with hun | hrel
      · rw [hun]
        exact .inl ⟨rfl, rfl, rfl, rfl⟩
      · obtain ⟨st, hst, hclean, hi, ho, ci, co, pi, po, cost, hci, hco, hpi, hpo, hle, hle', hdelta⟩ :=
          hrel
        rw [hdelta]
        exact .inr ⟨st, hst, hclean, hi, ho, rfl, ⟨ci, pi, hci, hpi, hle, rfl⟩,
          co, po, hco, hpo, hle', rfl⟩
  · next hne =>
    split
    · refine h.sessions fun p hp => ?_
      rw [Dict.lookup_insert_if, if_neg (hother hp hne)]
    · split
      · refine h.sessions fun p hp => ?_
        rw [Dict.lookup_insert_if, if_neg (hother hp hne)]
      · exact h

theorem poison_poisoned (st : SessionState C) (i o : Bool) :
    (st.poison i o).poisoned = (st.poisoned || (i || o)) := by
  simp only [SessionState.poisoned, SessionState.poison]
  cases st.inputEverPoisoned <;> cases st.outputEverPoisoned <;> cases i <;> cases o <;> rfl

theorem latch_seq (t : UsageTracker C I) (id id' : String) (i o : Bool) :
    ((t.latch id i o).session id').publishedSeq = (t.session id').publishedSeq := by
  simp only [session, Dict.getD, latch, Dict.lookup_insert_if]
  split
  · next heq => subst heq; rfl
  · rfl

theorem latch_lookup {i o : Bool} (habsent : (i || o) = true) {id' : String} {st : SessionState C}
    (hst : (t.latch id i o).sessions.lookup id' = some st) (hclean : st.poisoned = false) :
    t.sessions.lookup id' = some st := by
  simp only [latch, Dict.lookup_insert_if] at hst
  split at hst
  · cases hst
    rw [poison_poisoned, habsent, Bool.or_true] at hclean
    cases hclean
  · exact hst

theorem flush_cases (t : UsageTracker C I) : t.flush = t ∨ ∃ id i o, (i || o) = true ∧
    t.flush = t.latch id i o := by
  unfold flush
  split
  · next habsent =>
    split
    · exact .inr ⟨_, _, _, habsent, rfl⟩
    · exact .inl rfl
  · exact .inl rfl

def Poisoned (t : UsageTracker C I) (id : String) : Prop :=
  (t.session id).poisoned = true ∨
    t.inFlightSession = some id ∧ (t.inputAbsenceObserved || t.outputAbsenceObserved) = true

theorem session_insert {t' : UsageTracker C I} {st : SessionState C}
    (h : t'.sessions = t.sessions.insert id st) (id' : String) :
    t'.session id' = if id' = id then st else t.session id' := by
  simp only [session, Dict.getD, h, Dict.lookup_insert_if]
  split <;> rfl

theorem session_flush (t : UsageTracker C I) (id : String) : (t.flush.session id).poisoned =
    ((t.session id).poisoned || (t.inFlightSession == some id &&
      (t.inputAbsenceObserved || t.outputAbsenceObserved))) := by
  unfold flush
  split
  · next habsent =>
    cases hflight : t.inFlightSession with
    | none => simp
    | some prev =>
      dsimp only
      rw [session_insert (t := t) rfl]
      by_cases hid : id = prev
      · subst hid
        rw [if_pos rfl, poison_poisoned]
        simp [habsent]
      · rw [if_neg hid]
        have hne : (some prev == some id) = false := by simpa using Ne.symm hid
        simp [hne]
  · next habsent => simp [habsent]

theorem Poisoned.beginTurn (h : t.Poisoned id) (id' : String) : (t.beginTurn id').Poisoned id := by
  refine .inl ((session_flush t id).trans ?_)
  rcases h with h | ⟨hflight, habsent⟩
  · rw [h, Bool.true_or]
  · simp [hflight, habsent]

theorem Poisoned.seed [Zero C] (h : t.Poisoned id) (id' : String) : (t.seedZeroBaseline id').Poisoned id := by
  unfold seedZeroBaseline
  split
  · exact h
  · next hnone =>
    refine h.imp_left fun hpoisoned => ?_
    rw [session_insert (t := t) rfl, if_neg]
    · exact hpoisoned
    · rintro rfl
      rw [session, Dict.getD, show t.sessions.lookup id = none by simpa using hnone] at hpoisoned
      cases hpoisoned

theorem Poisoned.record [Sub C] [LE C] [DecidableLE C] [DecidableEq I] (h : t.Poisoned id)
    (id' : String) (payload : UsageUpdatePayload C I) :
    (t.record id' payload).Poisoned id := by
  unfold UsageTracker.record
  split
  · refine h.imp_right fun ⟨hflight, habsent⟩ => ⟨hflight, ?_⟩
    rcases Bool.or_eq_true_iff.1 habsent with h | h <;> simp [recordInFlight, h]
  · split
    · next hnone =>
      rcases h with h | ⟨hflight, -⟩
      · refine .inl ?_
        rw [session_insert (t := t) rfl]
        split
        · next heq =>
          change ((t.session id').poison _ _).poisoned = true
          rw [poison_poisoned, ← heq, h, Bool.true_or]
        · exact h
      · rw [hnone] at hflight
        cases hflight
    · split
      · refine h.imp_left fun hpoisoned => ?_
        rw [session_insert (t := t) rfl]
        split
        · next heq => rw [poison_poisoned, ← heq, hpoisoned, Bool.true_or]
        · exact hpoisoned
      · exact h

theorem poisoned_record [Sub C] [LE C] [DecidableLE C] [DecidableEq I] (t : UsageTracker C I)
    (id : String) (payload : UsageUpdatePayload C I)
    (habsent : payload.accumulated.input = none ∨ payload.accumulated.output = none) :
    (t.record id payload).Poisoned id := by
  have hnone : (payload.accumulated.input.isNone || payload.accumulated.output.isNone) = true := by
    rcases habsent with h | h <;> simp [h]
  unfold UsageTracker.record
  split
  · next hflight =>
    refine .inr ⟨hflight, ?_⟩
    rcases habsent with h | h <;> simp [recordInFlight, h]
  · split
    · refine .inl ?_
      rw [session_insert (t := t) rfl, if_pos rfl]
      change ((t.session id).poison _ _).poisoned = true
      rw [poison_poisoned, hnone, Bool.or_true]
    · refine .inl ?_
      rw [session_insert (t := t) rfl, if_pos rfl, poison_poisoned, hnone, Bool.or_true]

theorem Poisoned.take (hsound : t.Sound) (h : t.Poisoned id) :
    t.take.2.Poisoned id ∧ ∀ u, t.take.1 = some u → u.sessionId = id → u.Unreliable := by
  cases hpending : t.pending with
  | none =>
    obtain ⟨hnone, hsessions⟩ := take_none hpending
    refine ⟨.inl ?_, fun u hu => ?_⟩
    · rw [session, hsessions]
      refine h.resolve_right ?_
      rintro ⟨-, habsent⟩
      have hsome := hsound.absent habsent
      rw [hpending] at hsome
      cases hsome
    · rw [hnone] at hu
      cases hu
  | some p =>
    obtain ⟨hsome, hsessions⟩ := take_some hpending
    have hflight := hsound.inFlight p hpending
    refine ⟨.inl ?_, fun u hu hid => ?_⟩
    · rw [session_insert hsessions]
      split
      · next heq =>
        change ((t.session p.sessionId).poison _ _).poisoned = true
        rw [poison_poisoned, ← heq]
        rcases h with h | ⟨-, habsent⟩
        · rw [h, Bool.true_or]
        · rcases Bool.or_eq_true_iff.1 habsent with h | h <;> simp [h]
      · next hne =>
        refine h.resolve_right ?_
        rintro ⟨hflight', -⟩
        exact hne (Option.some.inj (hflight'.symm.trans hflight))
    · rw [hsome] at hu
      cases hu
      rcases hsound.delta p hpending with hun | ⟨st, hst, hclean, hinput, houtput, -⟩
      · exact hun
      · change p.sessionId = id at hid
        subst hid
        rcases h with h | ⟨-, habsent⟩
        · rw [session, Dict.getD_of_lookup hst, hclean] at h
          cases h
        · rw [hinput, houtput] at habsent
          cases habsent

end UsageTracker

inductive UsageCall (C I : Type)
  | beginTurn (id : String)
  | record (id : String) (payload : UsageUpdatePayload C I)
  | seedZeroBaseline (id : String)
  | take

/-- The tracker with what its calls have done: the identities of the turn's notifications, the
baselines that were committed, and the records that were published. -/
structure UsageRun (C I : Type) where
  tracker : UsageTracker C I
  notes : List (Option I)
  committed : String → Option (Snapshot C)
  published : List (TurnUsage C I)

namespace UsageRun

def start : UsageRun C I := ⟨.empty, [], fun _ => none, []⟩

def of (w : UsageRun C I) (id : String) : List (TurnUsage C I) :=
  w.published.filter (·.sessionId = id)

theorem sound_start : (start : UsageRun C I).tracker.Sound :=
  ⟨fun _ hp => (by cases hp), fun _ hp => (by cases hp), fun _ hp => (by cases hp),
    fun h => (by cases h)⟩

variable [Zero C] [Sub C] [LE C] [DecidableLE C] [DecidableEq I]

def step (w : UsageRun C I) : UsageCall C I → UsageRun C I
  | .beginTurn id => { w with tracker := w.tracker.beginTurn id, notes := [] }
  | .record id payload =>
    { w with
      tracker := w.tracker.record id payload
      notes :=
        if w.tracker.inFlightSession = some id then w.notes ++ [payload.pricingIdentity] else w.notes
      committed :=
        if w.tracker.inFlightSession = none then
          Function.update w.committed id (some payload.accumulated)
        else w.committed }
  | .seedZeroBaseline id =>
    { w with
      tracker := w.tracker.seedZeroBaseline id
      committed :=
        if (w.tracker.sessions.lookup id).isSome then w.committed
        else Function.update w.committed id (some SessionState.zero.last) }
  | .take =>
    { tracker := w.tracker.take.2
      notes := []
      committed := match w.tracker.take.1 with
        | some u => Function.update w.committed u.sessionId (some u.cumulative)
        | none => w.committed
      published := w.published ++ w.tracker.take.1.toList }

theorem sound_step {w : UsageRun C I} (h : w.tracker.Sound) (c : UsageCall C I) :
    (w.step c).tracker.Sound := by
  cases c with
  | beginTurn id => exact .beginTurn _ id
  | record id payload => exact h.record id payload
  | seedZeroBaseline id => exact h.seed id
  | take => exact .take _

theorem sound_runFrom (calls : List (UsageCall C I)) : (runFrom step start calls).tracker.Sound :=
  runFrom_history (p := fun _ (w : UsageRun C I) => w.tracker.Sound) sound_start
    (fun _ c h => sound_step h c) calls

def Tainted (calls : List (UsageCall C I)) (id : String) : Prop :=
  ∃ payload, .record id payload ∈ calls ∧
    (payload.accumulated.input = none ∨ payload.accumulated.output = none)

theorem poisoned_step {w : UsageRun C I} {id : String} (hsound : w.tracker.Sound)
    (h : w.tracker.Poisoned id) (c : UsageCall C I) : (w.step c).tracker.Poisoned id := by
  cases c with
  | beginTurn id' => exact h.beginTurn id'
  | record id' payload => exact h.record id' payload
  | seedZeroBaseline id' => exact h.seed id'
  | take => exact (h.take hsound).1

theorem poisoned_of_tainted {calls : List (UsageCall C I)} {id : String} (h : Tainted calls id) :
    (runFrom step start calls).tracker.Poisoned id := by
  refine runFrom_history (p := fun calls (w : UsageRun C I) =>
    w.tracker.Sound ∧ (Tainted calls id → w.tracker.Poisoned id)) ⟨sound_start, ?_⟩
    (fun calls c ih => ⟨sound_step ih.1 c, ?_⟩) calls |>.2 h
  · rintro ⟨payload, hmem, -⟩
    exact absurd hmem List.not_mem_nil
  · rintro ⟨payload, hmem, habsent⟩
    rcases List.mem_append.1 hmem with hmem | hmem
    · exact poisoned_step ih.1 (ih.2 ⟨payload, hmem, habsent⟩) c
    · obtain rfl := List.mem_singleton.1 hmem
      exact UsageTracker.poisoned_record _ id payload habsent

/-- Once a record of a session lacked its tokens, nothing published for it later has a delta. -/
theorem taint_persists (earlier later : List (UsageCall C I)) (id : String)
    (h : Tainted earlier id) :
    ∃ new, (runFrom step start (earlier ++ later)).published =
        (runFrom step start earlier).published ++ new ∧
      ∀ u ∈ new, u.sessionId = id → u.Unreliable := by
  rw [runFrom_append]
  refine (runFrom_history (p := fun _ (w : UsageRun C I) => w.tracker.Sound ∧ w.tracker.Poisoned id ∧
      ∃ new, w.published = (runFrom step start earlier).published ++ new ∧
        ∀ u ∈ new, u.sessionId = id → u.Unreliable)
    ⟨sound_runFrom earlier, poisoned_of_tainted h, [], by simp, by simp⟩
    (fun calls c ih => ?_) later).2.2
  obtain ⟨hsound, hpoisoned, new, hnew, hall⟩ := ih
  refine ⟨sound_step hsound c, poisoned_step hsound hpoisoned c, ?_⟩
  cases c with
  | take =>
    refine ⟨new ++ (runFrom step (runFrom step start earlier) calls).tracker.take.1.toList, ?_, ?_⟩
    · simp [step, hnew]
    · intro u hu hid
      rcases List.mem_append.1 hu with hu | hu
      · exact hall u hu hid
      · exact (hpoisoned.take hsound).2 u (Option.mem_toList.1 hu) hid
  | beginTurn _ | record _ _ | seedZeroBaseline _ => exact ⟨new, hnew, hall⟩

def notification (input : Option Nat) : UsageUpdatePayload Nat Nat :=
  ⟨⟨input, some 1, none, none, none, none⟩, none, none⟩

theorem taint_persists_reintroduced : Tainted [.record "s" (notification none)] "s" ∧
    ∃ new, (runFrom step start ([.record "s" (notification none)] ++
          [.beginTurn "s", .record "s" (notification (some 5)), .take])).published =
        (runFrom step start [.record "s" (notification none)]).published ++ new ∧
      ∀ u ∈ new, u.sessionId = "s" → u.Unreliable :=
  have htainted : Tainted [.record "s" (notification none)] "s" :=
    ⟨notification none, List.mem_singleton_self _, .inl rfl⟩
  ⟨htainted, taint_persists _ _ "s" htainted⟩

theorem foldl_foldIdentity {notes : List (Option I)} {first : Option I} {p : I} :
    (notes.foldl foldIdentity (some first)).join = some p ↔
      first = some p ∧ ∀ i ∈ notes, i = some p := by
  induction notes generalizing first with
  | nil => simp
  | cons i notes ih =>
    have hfold : foldIdentity (some first) i = some (if first = i then i else none) := by
      cases first with
      | none => cases i <;> simp [foldIdentity]
      | some existing => simp only [foldIdentity]; split <;> rfl
    rw [List.foldl_cons, hfold, ih]
    by_cases heq : first = i
    · simp [heq]
    · rw [if_neg heq, List.forall_mem_cons]
      constructor
      · rintro ⟨h, -⟩
        cases h
      · rintro ⟨rfl, rfl, -⟩
        exact absurd rfl heq

/-- The record in the making, the numbers given so far and the baselines, as the calls made them. -/
structure Exact (w : UsageRun C I) : Prop where
  sound : w.tracker.Sound
  identity : w.tracker.pendingIdentity = w.notes.foldl foldIdentity none
  noted : w.tracker.pending.isSome → w.notes ≠ []
  seq : ∀ id, (w.tracker.session id).publishedSeq = (w.of id).length
  seqs : ∀ id, (w.of id).map TurnUsage.turnSeq = List.range' 1 (w.of id).length
  committed : ∀ id st, w.tracker.sessions.lookup id = some st → st.poisoned = false →
    w.committed id = some st.last

omit [Zero C] [Sub C] [LE C] [DecidableLE C] in
theorem Exact.committed_insert {w : UsageRun C I} (h : Exact w) {id id' : String}
    {new st : SessionState C} (hst : (w.tracker.sessions.insert id new).lookup id' = some st)
    (hclean : st.poisoned = false) :
    Function.update w.committed id (some new.last) id' = some st.last := by
  rw [Dict.lookup_insert_if] at hst
  split at hst
  · next heq =>
    cases hst
    rw [heq, Function.update_self]
  · next hne =>
    rw [Function.update_of_ne hne]
    exact h.committed id' st hst hclean

omit [Zero C] [Sub C] [LE C] [DecidableLE C] in
theorem exact_start : Exact (start : UsageRun C I) where
  sound := sound_start
  identity := rfl
  noted h := by cases h
  seq _ := rfl
  seqs _ := rfl
  committed _ _ h := by cases h

theorem Exact.beginTurn {w : UsageRun C I} (h : Exact w) (id : String) :
    Exact (w.step (.beginTurn id)) := by
  refine ⟨.beginTurn _ id, rfl, fun hp => (by cases hp), fun id' => ?_, h.seqs, fun id' st hst hclean => ?_⟩
  · refine Eq.trans ?_ (h.seq id')
    change (w.tracker.flush.session id').publishedSeq = _
    rcases w.tracker.flush_cases with hsame | ⟨prev, i, o, -, hlatch⟩
    · rw [hsame]
    · rw [hlatch, UsageTracker.latch_seq]
  · refine h.committed id' st ?_ hclean
    change w.tracker.flush.sessions.lookup id' = some st at hst
    rcases w.tracker.flush_cases with hsame | ⟨prev, i, o, habsent, hlatch⟩
    · rwa [hsame] at hst
    · rw [hlatch] at hst
      exact UsageTracker.latch_lookup habsent hst hclean

theorem Exact.seed {w : UsageRun C I} (h : Exact w) (id : String) :
    Exact (w.step (.seedZeroBaseline id)) := by
  have hsound := h.sound.seed id
  simp only [step, UsageTracker.seedZeroBaseline] at hsound ⊢
  by_cases hsome : (w.tracker.sessions.lookup id).isSome = true
  · simp only [hsome, if_true] at hsound ⊢
    exact h
  · simp only [hsome, Bool.false_eq_true, if_false] at hsound ⊢
    have hnone : w.tracker.sessions.lookup id = none := by simpa using hsome
    refine ⟨hsound, h.identity, h.noted, fun id' => ?_, h.seqs, fun id' st hst hclean => ?_⟩
    · refine Eq.trans ?_ (h.seq id')
      rw [UsageTracker.session_insert (t := w.tracker) rfl]
      split
      · next heq => rw [heq, UsageTracker.session, Dict.getD, hnone]; rfl
      · rfl
    · exact h.committed_insert hst hclean

theorem Exact.record {w : UsageRun C I} (h : Exact w) (id : String)
    (payload : UsageUpdatePayload C I) : Exact (w.step (.record id payload)) := by
  have hsound := h.sound.record id payload
  simp only [step, UsageTracker.record] at hsound ⊢
  by_cases hflight : w.tracker.inFlightSession = some id
  · simp only [hflight, if_true, reduceCtorEq, if_false] at hsound ⊢
    refine ⟨hsound, ?_, fun _ => by simp, h.seq, h.seqs, h.committed⟩
    rw [List.foldl_append, ← h.identity]
    rfl
  · by_cases hnone : w.tracker.inFlightSession = none
    · simp only [hnone, reduceCtorEq, if_true, if_false] at hsound ⊢
      refine ⟨hsound, h.identity, h.noted, fun id' => ?_, h.seqs, fun id' st hst hclean => ?_⟩
      · refine Eq.trans ?_ (h.seq id')
        rw [UsageTracker.session_insert (t := w.tracker) rfl]
        split
        · next heq => rw [heq]; rfl
        · rfl
      · exact h.committed_insert hst hclean
    · simp only [hflight, hnone, if_false] at hsound ⊢
      split at hsound
      · next habsent =>
        rw [if_pos habsent]
        exact ⟨hsound, h.identity, h.noted, fun id' => (w.tracker.latch_seq id id' _ _).trans (h.seq id'),
          h.seqs, fun id' st hst hclean =>
            h.committed id' st (UsageTracker.latch_lookup habsent hst hclean) hclean⟩
      · next habsent =>
        rw [if_neg habsent]
        exact h

theorem of_take (w : UsageRun C I) (id : String) : (w.step .take).of id =
    w.of id ++ (w.tracker.take.1.toList.filter (·.sessionId = id)) := by
  simp only [of, step, List.filter_append]

theorem Exact.take {w : UsageRun C I} (h : Exact w) : Exact (w.step .take) := by
  obtain ⟨-, hcleared, -, -⟩ := w.tracker.take_cleared
  have hidentity : (w.step .take).tracker.pendingIdentity = none := by
    simp only [step, UsageTracker.take]
    split <;> rfl
  have hnoted : (w.step .take).tracker.pending.isSome → (w.step .take).notes ≠ [] := by
    intro hp
    rw [show (w.step .take).tracker.pending = none from hcleared] at hp
    cases hp
  cases hpending : w.tracker.pending with
  | none =>
    obtain ⟨hnone, hsessions⟩ := UsageTracker.take_none hpending
    have hof (id : String) : (w.step .take).of id = w.of id := by simp [of_take, hnone]
    refine ⟨.take _, hidentity, hnoted, fun id => ?_, fun id => ?_, fun id st hst hclean => ?_⟩
    · rw [hof, ← h.seq id]
      simp only [step, UsageTracker.session, hsessions]
    · rw [hof]
      exact h.seqs id
    · simp only [step, hnone, hsessions] at hst ⊢
      exact h.committed id st hst hclean
  | some p =>
    obtain ⟨hsome, hsessions⟩ := UsageTracker.take_some hpending
    have hseq := h.sound.seq p hpending
    rw [h.seq] at hseq
    have hof (id : String) : (w.step .take).of id = w.of id ++
        if p.sessionId = id then [{ p with pricingIdentity := w.tracker.pendingIdentity.join }] else [] := by
      rw [of_take, hsome]
      by_cases hid : p.sessionId = id <;> simp [hid]
    refine ⟨.take _, hidentity, hnoted, fun id => ?_, fun id => ?_, fun id st hst hclean => ?_⟩
    · rw [show (w.step .take).tracker = w.tracker.take.2 from rfl,
        UsageTracker.session_insert hsessions, hof]
      by_cases hid : id = p.sessionId
      · subst hid
        simp [UsageTracker.commit, hseq]
      · simp [hid, Ne.symm hid, h.seq id]
    · rw [hof]
      by_cases hid : p.sessionId = id
      · subst hid
        rw [if_pos rfl, List.map_append, h.seqs, List.length_append, List.length_singleton,
          List.range'_1_concat, Nat.add_comm 1]
        simp only [List.map_cons, List.map_nil, hseq]
      · simpa [hid] using h.seqs id
    · simp only [step, hsome, hsessions] at hst ⊢
      exact h.committed_insert hst hclean

theorem Exact.step {w : UsageRun C I} (h : Exact w) (c : UsageCall C I) : Exact (w.step c) := by
  cases c with
  | beginTurn id => exact h.beginTurn id
  | record id payload => exact h.record id payload
  | seedZeroBaseline id => exact h.seed id
  | take => exact h.take

structure Field (counter : Snapshot C → Option Nat) (delta : TurnUsage C I → Option Nat) : Prop where
  measured : ∀ u base, Measured Snapshot.input TurnUsage.turnInputTokens u base →
    Measured Snapshot.output TurnUsage.turnOutputTokens u base → Measured counter delta u base
  identity : ∀ u i, delta { u with pricingIdentity := i } = delta u

def reports (counter : Snapshot C → Option Nat) (id : String) : UsageCall C I → Option Nat
  | .record id' payload => if id' = id then counter payload.accumulated else none
  | _ => none

def reported (counter : Snapshot C → Option Nat) (id : String) (calls : List (UsageCall C I)) :
    List Nat :=
  calls.filterMap (reports counter id)

def claimed (delta : TurnUsage C I → Option Nat) (us : List (TurnUsage C I)) : Nat :=
  ((us.filter (·.deltaReliable)).map fun u => (delta u).getD 0).sum

section Counted

variable {counter : Snapshot C → Option Nat} {delta : TurnUsage C I → Option Nat} {id : String}
  {calls : List (UsageCall C I)} {w : UsageRun C I}

variable (counter delta id calls w) in
/-- What was claimed lies below every counter that a later delta can start or end at. -/
structure Counted : Prop where
  top : claimed delta (w.of id) = 0 ∨ ∃ v ∈ reported counter id calls, claimed delta (w.of id) ≤ v
  base : ∀ st, w.tracker.sessions.lookup id = some st → st.poisoned = false →
    ∀ b, counter st.last = some b → claimed delta (w.of id) ≤ b
  pending : ∀ p, w.tracker.pending = some p → p.sessionId = id →
    ∀ c, counter p.cumulative = some c →
      claimed delta (w.of id) ≤ c ∧ c ∈ reported counter id calls
  last : ∀ us u, w.of id = us ++ [u] → ∀ c, counter u.cumulative = some c →
    claimed delta (w.of id) ≤ c

omit [Zero C] [Sub C] [LE C] [DecidableLE C] [DecidableEq I] in
theorem claimed_append (us us' : List (TurnUsage C I)) :
    claimed delta (us ++ us') = claimed delta us + claimed delta us' := by
  simp [claimed]

omit [Zero C] [Sub C] [LE C] [DecidableLE C] [DecidableEq I] in
theorem claimed_singleton (u : TurnUsage C I) :
    claimed delta [u] = if u.deltaReliable = true then (delta u).getD 0 else 0 := by
  by_cases h : u.deltaReliable = true <;> simp [claimed, h]

omit [Zero C] [Sub C] [LE C] [DecidableLE C] [DecidableEq I] in
theorem reported_append (c : UsageCall C I) :
    reported counter id (calls ++ [c]) = reported counter id calls ++ (reports counter id c).toList := by
  cases h : reports counter id c <;> simp [reported, h]

omit [Zero C] [Sub C] [LE C] [DecidableLE C] [DecidableEq I] in
theorem Counted.quiet {w' : UsageRun C I} (h : Counted counter delta id calls w) (c : UsageCall C I)
    (hpublished : w'.published = w.published)
    (hbase : ∀ st, w'.tracker.sessions.lookup id = some st → st.poisoned = false →
      ∀ b, counter st.last = some b → claimed delta (w.of id) ≤ b)
    (hpending : ∀ p, w'.tracker.pending = some p → p.sessionId = id → ∀ c', counter p.cumulative = some c' →
      claimed delta (w.of id) ≤ c' ∧ c' ∈ reported counter id (calls ++ [c])) :
    Counted counter delta id (calls ++ [c]) w' := by
  have hof : w'.of id = w.of id := by rw [of, hpublished, of]
  refine ⟨?_, ?_, ?_, ?_⟩ <;> rw [hof]
  · refine h.top.imp_right fun ⟨v, hv, hle⟩ => ⟨v, ?_, hle⟩
    rw [reported_append]
    exact List.mem_append_left _ hv
  · exact hbase
  · exact hpending
  · exact h.last

omit [Zero C] [Sub C] [LE C] [DecidableLE C] [DecidableEq I] in
theorem Counted.kept (h : Counted counter delta id calls w) (c : UsageCall C I) :
    ∀ p, w.tracker.pending = some p → p.sessionId = id → ∀ c', counter p.cumulative = some c' →
      claimed delta (w.of id) ≤ c' ∧ c' ∈ reported counter id (calls ++ [c]) := by
  intro p hp hid c' hc
  obtain ⟨hle, hmem⟩ := h.pending p hp hid c' hc
  refine ⟨hle, ?_⟩
  rw [reported_append]
  exact List.mem_append_left _ hmem

omit [Zero C] [Sub C] [LE C] [DecidableLE C] [DecidableEq I] in
theorem Counted.reported (h : Counted counter delta id calls w) {payload : UsageUpdatePayload C I}
    (hmono : (reported counter id (calls ++ [.record id payload])).Pairwise (· ≤ ·)) {v : Nat}
    (hv : counter payload.accumulated = some v) : claimed delta (w.of id) ≤ v ∧
      v ∈ UsageRun.reported counter id (calls ++ [.record id payload]) := by
  rw [reported_append, show reports counter id (.record id payload) = some v by simp [reports, hv]]
    at hmono ⊢
  refine ⟨?_, by simp⟩
  rcases h.top with hzero | ⟨v', hv', hle⟩
  · omega
  · exact hle.trans ((List.pairwise_append.1 hmono).2.2 v' hv' v (by simp))

theorem Counted.record (h : Counted counter delta id calls w) (id' : String)
    (payload : UsageUpdatePayload C I)
    (hmono : (UsageRun.reported counter id (calls ++ [.record id' payload])).Pairwise (· ≤ ·)) :
    Counted counter delta id (calls ++ [.record id' payload]) (w.step (.record id' payload)) := by
  refine h.quiet _ rfl ?_ ?_ <;> simp only [UsageRun.step, UsageTracker.record]
  · by_cases hflight : w.tracker.inFlightSession = some id'
    · simp only [hflight, if_true]
      exact h.base
    · simp only [hflight, if_false]
      split
      · intro st hst hclean b hb
        simp only [UsageTracker.recordOutOfTurn, Dict.lookup_insert_if] at hst
        split at hst
        · next heq =>
          cases hst
          subst heq
          exact (h.reported hmono hb).1
        · exact h.base st hst hclean b hb
      · split
        · next habsent =>
          exact fun st hst hclean => h.base st (UsageTracker.latch_lookup habsent hst hclean) hclean
        · exact h.base
  · by_cases hflight : w.tracker.inFlightSession = some id'
    · simp only [hflight, if_true]
      intro p hp hid c hc
      cases hp
      change id' = id at hid
      subst hid
      exact h.reported hmono hc
    · simp only [hflight, if_false]
      split
      · exact h.kept _
      · split <;> exact h.kept _

theorem Counted.take (hfield : Field counter delta) (hw : Exact w)
    (h : Counted counter delta id calls w) :
    Counted counter delta id (calls ++ [.take]) (w.step .take) := by
  have hreported : UsageRun.reported counter id (calls ++ [.take]) = UsageRun.reported counter id calls := by
    rw [reported_append]
    simp [reports]
  obtain ⟨-, hcleared, -, -⟩ := w.tracker.take_cleared
  have hpending : ∀ p, (w.step .take).tracker.pending ≠ some p := by
    intro p hp
    rw [show (w.step .take).tracker.pending = none from hcleared] at hp
    cases hp
  cases hp : w.tracker.pending with
  | none =>
    obtain ⟨hnone, hsessions⟩ := UsageTracker.take_none hp
    refine h.quiet _ (by simp [UsageRun.step, hnone]) ?_ fun p hp' => absurd hp' (hpending p)
    simp only [UsageRun.step, hsessions]
    exact h.base
  | some p =>
    obtain ⟨hsome, hsessions⟩ := UsageTracker.take_some hp
    by_cases hid : p.sessionId = id
    · subst hid
      have hof : (w.step .take).of p.sessionId = w.of p.sessionId ++
          [{ p with pricingIdentity := w.tracker.pendingIdentity.join }] := by
        rw [of_take, hsome]
        simp
      -- the new delta ends at the counter that is published and starts above all that was claimed
      have hle : ∀ c, counter p.cumulative = some c →
          claimed delta ((w.step .take).of p.sessionId) ≤ c := by
        intro c hc
        rw [hof, claimed_append]
        rcases hw.sound.delta p hp with hun | ⟨st, hst, hclean, -, -, hreliable, hinput, houtput⟩
        · rw [claimed_singleton, if_neg (by simp [hun.1]), Nat.add_zero]
          exact (h.pending p hp rfl c hc).1
        · obtain ⟨c', b, hc', hb, hle, hdelta⟩ := hfield.measured p st.last hinput houtput
          have hbase := h.base st hst hclean b hb
          have heq : c = c' := Option.some.inj (hc.symm.trans hc')
          rw [claimed_singleton, if_pos (show p.deltaReliable = true from hreliable),
            hfield.identity, hdelta, Option.getD_some]
          omega
      have hsame : (∀ c, counter p.cumulative ≠ some c) →
          claimed delta ((w.step .take).of p.sessionId) = claimed delta (w.of p.sessionId) := by
        intro hno
        rw [hof, claimed_append]
        rcases hw.sound.delta p hp with hun | ⟨st, -, -, -, -, -, hinput, houtput⟩
        · rw [claimed_singleton, if_neg (by simp [hun.1]), Nat.add_zero]
        · obtain ⟨c', -, hc', -⟩ := hfield.measured p st.last hinput houtput
          exact absurd hc' (hno c')
      refine ⟨?_, fun st hst _ b hb => ?_, fun p' hp' => absurd hp' (hpending p'), ?_⟩
      · rw [hreported]
        cases hc : counter p.cumulative with
        | none =>
          rw [hsame (by simp [hc])]
          exact h.top
        | some c => exact .inr ⟨c, (h.pending p hp rfl c hc).2, hle c hc⟩
      · simp only [UsageRun.step, hsessions, Dict.lookup_insert_if, if_true] at hst
        cases hst
        exact hle b hb
      · intro us u hu c hc
        rw [hof] at hu
        obtain ⟨-, hlast⟩ := List.append_inj' hu rfl
        cases hlast
        exact hle c hc
    · refine ⟨?_, fun st hst => ?_, fun p' hp' => absurd hp' (hpending p'), ?_⟩
      all_goals rw [show (w.step .take).of id = w.of id by rw [of_take, hsome]; simp [hid]]
      · rw [hreported]
        exact h.top
      · simp only [UsageRun.step, hsessions, Dict.lookup_insert_if, if_neg (Ne.symm hid)] at hst
        exact h.base st hst
      · exact h.last

theorem Counted.step (hfield : Field counter delta) (hw : Exact w)
    (h : Counted counter delta id calls w) (c : UsageCall C I)
    (hmono : (UsageRun.reported counter id (calls ++ [c])).Pairwise (· ≤ ·)) :
    Counted counter delta id (calls ++ [c]) (w.step c) := by
  cases c with
  | beginTurn id' =>
    refine h.quiet _ rfl (fun st hst hclean => h.base st ?_ hclean) fun p hp => (by cases hp)
    change w.tracker.flush.sessions.lookup id = some st at hst
    rcases w.tracker.flush_cases with hsame | ⟨prev, i, o, habsent, hlatch⟩
    · rwa [hsame] at hst
    · rw [hlatch] at hst
      exact UsageTracker.latch_lookup habsent hst hclean
  | record id' payload => exact h.record id' payload hmono
  | seedZeroBaseline id' =>
    refine h.quiet _ rfl ?_ ?_ <;> simp only [UsageRun.step, UsageTracker.seedZeroBaseline]
    · split
      · exact h.base
      · next hnone =>
        intro st hst hclean b hb
        rw [Dict.lookup_insert_if] at hst
        split at hst
        · next heq =>
          have hseq := hw.seq id
          rw [UsageTracker.session, Dict.getD, heq, show w.tracker.sessions.lookup id' = none by
            simpa using hnone] at hseq
          rw [heq, List.length_eq_zero_iff.1 hseq.symm]
          exact Nat.zero_le b
        · exact h.base st hst hclean b hb
    · split <;> exact h.kept _
  | take => exact h.take hfield hw

theorem counted_run (hfield : Field counter delta) (id : String) (calls : List (UsageCall C I)) :
    Exact (runFrom UsageRun.step start calls) ∧
      ((reported counter id calls).Pairwise (· ≤ ·) →
        Counted counter delta id calls (runFrom UsageRun.step start calls)) := by
  refine runFrom_history (p := fun calls (w : UsageRun C I) => Exact w ∧
    ((reported counter id calls).Pairwise (· ≤ ·) → Counted counter delta id calls w))
    ⟨exact_start, fun _ => ⟨.inl rfl, fun _ h => (by cases h), fun _ h => (by cases h), fun us u h => ?_⟩⟩
    (fun calls c ih => ⟨ih.1.step c, fun hmono => (ih.2 ?_).step hfield ih.1 c hmono⟩) calls
  · exact absurd h.symm (by simp [of, start])
  · rw [reported_append] at hmono
    exact (List.pairwise_append.1 hmono).1

end Counted

/-- Published records say what happened: reliable deltas are differences to the last committed
baseline, numbers run without gaps, identities are those all notifications of the turn carried, and
while its counters do not decrease no token of a session is counted twice. -/
theorem usage_exact (calls : List (UsageCall C I)) :
    (∀ u, (runFrom step start calls).tracker.take.1 = some u →
      (u.deltaReliable = true → ∃ base, (runFrom step start calls).committed u.sessionId = some base ∧
        Measured Snapshot.input TurnUsage.turnInputTokens u base ∧
        Measured Snapshot.output TurnUsage.turnOutputTokens u base) ∧
      (runFrom step start calls).notes ≠ [] ∧
      ∀ p, u.pricingIdentity = some p ↔ ∀ i ∈ (runFrom step start calls).notes, i = some p) ∧
    ∀ id, ((runFrom step start calls).of id).map TurnUsage.turnSeq =
        List.range' 1 ((runFrom step start calls).of id).length ∧
      ∀ us u, (runFrom step start calls).of id = us ++ [u] →
        ((reported Snapshot.input id calls).Pairwise (· ≤ ·) → ∀ c, u.cumulative.input = some c →
          claimed TurnUsage.turnInputTokens ((runFrom step start calls).of id) ≤ c) ∧
        ((reported Snapshot.output id calls).Pairwise (· ≤ ·) → ∀ c, u.cumulative.output = some c →
          claimed TurnUsage.turnOutputTokens ((runFrom step start calls).of id) ≤ c) := by
  have hinput : Field (C := C) (I := I) Snapshot.input TurnUsage.turnInputTokens :=
    ⟨fun _ _ h _ => h, fun _ _ => rfl⟩
  have houtput : Field (C := C) (I := I) Snapshot.output TurnUsage.turnOutputTokens :=
    ⟨fun _ _ _ h => h, fun _ _ => rfl⟩
  have hexact := (counted_run hinput "" calls).1
  refine ⟨fun u hu => ?_, fun id => ⟨hexact.seqs id, fun us u hlast =>
    ⟨fun hmono => ((counted_run hinput id calls).2 hmono).last us u hlast,
      fun hmono => ((counted_run houtput id calls).2 hmono).last us u hlast⟩⟩⟩
  generalize runFrom step start calls = w at hexact hu
  cases hp : w.tracker.pending with
  | none =>
    rw [(UsageTracker.take_none hp).1] at hu
    cases hu
  | some p =>
    rw [(UsageTracker.take_some hp).1] at hu
    cases hu
    have hnoted := hexact.noted (by rw [hp]; rfl)
    refine ⟨fun hreliable => ?_, hnoted, fun p' => ?_⟩
    · rcases hexact.sound.delta p hp with hun | ⟨st, hst, hclean, -, -, -, hmeasured⟩
      · have hfalse : p.deltaReliable = true := hreliable
        rw [hun.1] at hfalse
        cases hfalse
      · exact ⟨st.last, hexact.committed p.sessionId st hst hclean, hmeasured⟩
    · change w.tracker.pendingIdentity.join = some p' ↔ _
      rw [hexact.identity]
      cases hnotes : w.notes with
      | nil => exact absurd hnotes hnoted
      | cons first notes =>
        rw [List.foldl_cons, List.forall_mem_cons]
        exact foldl_foldIdentity

end UsageRun

end Colony.Acp
