import Colony.Defs.Data.Run
import Colony.Defs.Replaceable.RegisterLaws

universe u

namespace Colony.Replaceable

open Colony.Data

variable {I : Type u}

structure GuardedRow (I : Type u) where
  stamp : Stamp I
  live : Bool
  isNipRs : Bool

structure GuardedSlot (I : Type u) where
  rows : List (GuardedRow I)
  mark : Option (Stamp I)

/-- What is done at the coordinate: a replacement is called, or live rows are marked as deleted. -/
inductive SlotOp (I : Type u)
  | replace (sub : Submission I)
  | delete (p : Stamp I → Bool)

namespace GuardedSlot

def empty : GuardedSlot I := ⟨[], none⟩

/-- The trigger on updates purges a row of the read-state shape once it is marked as deleted. -/
def softDelete (s : GuardedSlot I) (p : Stamp I → Bool) : GuardedSlot I :=
  { s with rows := (s.rows.filter fun r => !(r.live && p r.stamp && r.isNipRs)).map fun r =>
      { r with live := r.live && !p r.stamp } }

def hardDelete (s : GuardedSlot I) : GuardedSlot I := { s with rows := s.rows.filter fun r => !r.live }

variable [LinearOrder I] (s : GuardedSlot I)

def head : Option (Stamp I) := newest ((s.rows.filter GuardedRow.live).map GuardedRow.stamp)

def cleared (sub : Submission I) : GuardedSlot I :=
  if s.head.isSome then
    if sub.hardDeleteSuperseded then s.hardDelete else s.softDelete fun _ => true
  else s

/-- A call at the coordinate; there is no status if its time is none that can be stored. The
trigger on inserts sets the watermark that the call sets itself. -/
def replace (sub : Submission I) : GuardedSlot I × Option Status :=
  match fromTimestamp sub.createdAtSecs with
  | none => (s, none)
  | some _ =>
    match refusal s.head (if sub.isNipRs then s.mark else none) sub with
    | some status => (s, some status)
    | none =>
      if (s.cleared sub).rows.any fun r => r.stamp = sub.stamp then (s, some .duplicate)
      else
        ({ rows := (s.cleared sub).rows ++ [⟨sub.stamp, true, sub.isNipRs⟩]
           mark := if sub.isNipRs then some sub.stamp else s.mark }, some .inserted)

def step : SlotOp I → GuardedSlot I
  | .replace sub => (s.replace sub).1
  | .delete p => s.softDelete p

/-- A call that is not of the read-state shape, for an event that `e` dominates, finds a live row
when it is accepted. -/
def OverLive (e : Stamp I) (s : GuardedSlot I) : SlotOp I → Prop
  | .replace sub => sub.isNipRs = false → e.Newer sub.stamp →
      (s.replace sub).2 = some .inserted → s.head ≠ none
  | .delete _ => True

end GuardedSlot

section Newest

variable [LinearOrder I]

theorem newest_mem {l : List (Stamp I)} {a : Stamp I} (h : newest l = some a) : a ∈ l := by
  induction l generalizing a with
  | nil => cases h
  | cons b l ih =>
    simp only [newest] at h
    cases hl : newest l with
    | none =>
      rw [hl] at h
      cases h
      exact List.mem_cons_self
    | some c =>
      rw [hl] at h
      simp only [Option.some.injEq] at h
      split at h
      · exact h ▸ List.mem_cons_of_mem b (ih hl)
      · exact h ▸ List.mem_cons_self

theorem newest_eq_none {l : List (Stamp I)} : newest l = none ↔ l = [] := by
  cases l with
  | nil => simp [newest]
  | cons b l =>
    simp only [newest, reduceCtorEq, iff_false]
    cases newest l <;> simp

end Newest

namespace GuardedSlot

variable [LinearOrder I] {s : GuardedSlot I} {sub : Submission I}

theorem head_mem {a : Stamp I} (h : s.head = some a) : ∃ r ∈ s.rows, r.live = true ∧ r.stamp = a := by
  obtain ⟨r, hr, rfl⟩ := List.mem_map.1 (newest_mem h)
  exact ⟨r, (List.mem_filter.1 hr).1, (List.mem_filter.1 hr).2, rfl⟩

theorem not_live_of_head (h : s.head = none) {r : GuardedRow I} (hr : r ∈ s.rows) : r.live = false := by
  have hnil := List.map_eq_nil_iff.1 (newest_eq_none.1 h)
  simpa using List.filter_eq_nil_iff.1 hnil r hr

omit [LinearOrder I] in
theorem mem_softDelete {p : Stamp I → Bool} {r : GuardedRow I} (hr : r ∈ (s.softDelete p).rows)
    (hlive : r.live = true) : r ∈ s.rows ∧ p r.stamp = false := by
  obtain ⟨r', hr', rfl⟩ := List.mem_map.1 hr
  simp only [Bool.and_eq_true, Bool.not_eq_true'] at hlive
  refine ⟨?_, hlive.2⟩
  have hsame : ({ r' with live := r'.live && !p r'.stamp } : GuardedRow I) = r' := by
    rw [hlive.1, hlive.2]
    cases r'
    simp_all
  rw [hsame]
  exact (List.mem_filter.1 hr').1

theorem not_live_cleared {r : GuardedRow I} (hr : r ∈ (s.cleared sub).rows) : r.live = false := by
  unfold cleared at hr
  split at hr
  · split at hr
    · simpa using (List.mem_filter.1 hr).2
    · by_contra hlive
      have := (mem_softDelete hr (Bool.not_eq_false _ ▸ hlive)).2
      cases this
  next h => exact not_live_of_head (Option.not_isSome_iff_eq_none.1 h) hr

theorem replace_cases (s : GuardedSlot I) (sub : Submission I) :
    (s.replace sub).2 ≠ some .inserted ∧ (s.replace sub).1 = s ∨
      (s.replace sub).2 = some .inserted ∧ (∀ x ∈ s.head, sub.stamp.Newer x) ∧
        (sub.isNipRs = true → ∀ x ∈ s.mark, sub.stamp.Newer x) ∧
        (s.replace sub).1.mark = (if sub.isNipRs then some sub.stamp else s.mark) ∧
        ∀ r ∈ (s.replace sub).1.rows, r.live = true → r = ⟨sub.stamp, true, sub.isNipRs⟩ := by
  unfold replace
  split
  · exact .inl ⟨by simp, rfl⟩
  split
  next status hrefusal => exact .inl ⟨fun h => refusal_ne_inserted hrefusal (Option.some.inj h), rfl⟩
  next hrefusal =>
    obtain ⟨hhead, hmark, -⟩ := refusal_eq_none hrefusal
    split
    · exact .inl ⟨by simp, rfl⟩
    refine .inr ⟨rfl, hhead, fun hshape x hx => hmark x (by rw [if_pos hshape]; exact hx), rfl, ?_⟩
    intro r hr hlive
    rcases List.mem_append.1 hr with hr | hr
    · rw [not_live_cleared hr] at hlive
      cases hlive
    · exact List.mem_singleton.1 hr

def Marked (s : GuardedSlot I) : Prop :=
  ∀ r ∈ s.rows, r.live = true → r.isNipRs = true → s.mark = some r.stamp

theorem Marked.step (h : s.Marked) (op : SlotOp I) : (s.step op).Marked := by
  cases op with
  | delete p =>
    intro r hr hlive hshape
    exact h r (mem_softDelete hr hlive).1 hlive hshape
  | replace sub =>
    rcases s.replace_cases sub with ⟨-, hsame⟩ | ⟨-, -, -, hmark, hrows⟩
    · rw [GuardedSlot.step, hsame]
      exact h
    · intro r hr hlive hshape
      obtain rfl := hrows r hr hlive
      rw [GuardedSlot.step, hmark, if_pos hshape]

def Reached (e : Stamp I) (s : GuardedSlot I) : Prop := ∃ x ∈ s.mark, x.Covers e

theorem Reached.step {e : Stamp I} (h : s.Reached e) (op : SlotOp I) : (s.step op).Reached e := by
  cases op with
  | delete p => exact h
  | replace sub =>
    obtain ⟨x, hx, hcovers⟩ := h
    rcases s.replace_cases sub with ⟨-, hsame⟩ | ⟨-, -, hnewer, hmark, -⟩
    · rw [GuardedSlot.step, hsame]
      exact ⟨x, hx, hcovers⟩
    · rw [Reached, GuardedSlot.step, hmark]
      split_ifs with hshape
      · exact ⟨sub.stamp, rfl, .inr ((hnewer hshape x hx).covers hcovers)⟩
      · exact ⟨x, hx, hcovers⟩

def Above (e : Stamp I) (s : GuardedSlot I) : Prop :=
  ∀ r ∈ s.rows, r.live = true → r.stamp.Covers e

theorem Above.step {e : Stamp I} (h : s.Above e) (hreached : s.Reached e) {op : SlotOp I}
    (hop : s.OverLive e op) : (s.step op).Above e := by
  cases op with
  | delete p =>
    intro r hr hlive
    exact h r (mem_softDelete hr hlive).1 hlive
  | replace sub =>
    rcases s.replace_cases sub with ⟨-, hsame⟩ | ⟨hinserted, hhead, hmark, -, hrows⟩
    · rw [GuardedSlot.step, hsame]
      exact h
    · intro r hr hlive
      obtain rfl := hrows r hr hlive
      -- A call of the shape is above the watermark, another above the row that it found.
      cases hshape : sub.isNipRs with
      | true =>
        obtain ⟨x, hx, hcovers⟩ := hreached
        exact .inr ((hmark hshape x hx).covers hcovers)
      | false =>
        refine Stamp.not_newer_iff.1 fun hdominated => ?_
        obtain ⟨x, hx⟩ := Option.ne_none_iff_exists'.1 (hop hshape hdominated hinserted)
        obtain ⟨r', hr', hlive', rfl⟩ := head_mem hx
        exact Stamp.not_newer_self
          (hdominated.trans ((hhead _ hx).covers (h r' hr' hlive')))

theorem marked_run (ops : List (SlotOp I)) : (runFrom step (empty : GuardedSlot I) ops).Marked := by
  refine runFrom_history (p := fun _ (s : GuardedSlot I) => s.Marked) ?_ (fun _ op h => h.step op) ops
  intro r hr
  cases hr

theorem above_run {e : Stamp I} {ops : List (SlotOp I)} (h : s.Above e) (hreached : s.Reached e)
    (hops : Along step (OverLive e) s ops) : (runFrom step s ops).Above e := by
  induction ops generalizing s with
  | nil => exact h
  | cons op ops ih => exact ih (h.step hreached hops.1) (hreached.step op) hops.2

theorem reached_run {e : Stamp I} (ops : List (SlotOp I)) (h : s.Reached e) :
    (runFrom step s ops).Reached e := by
  induction ops generalizing s with
  | nil => exact h
  | cons op ops ih => exact ih (h.step op)

/-- Once an event of the read-state shape was accepted, no such event that it dominates is live
again; nor is any other, as long as none of another shape that it dominates is accepted where no row
is live. -/
theorem readState_not_resurrected (earlier later : List (SlotOp I)) (sub : Submission I)
    (hshape : sub.isNipRs = true)
    (hinserted : ((runFrom step empty earlier).replace sub).2 = some .inserted) :
    (∀ r ∈ (runFrom step empty (earlier ++ .replace sub :: later)).rows, r.live = true →
      r.isNipRs = true → ¬ sub.stamp.Newer r.stamp) ∧
    (Along step (OverLive sub.stamp) (runFrom step empty (earlier ++ [.replace sub])) later →
      ∀ x, (runFrom step empty (earlier ++ .replace sub :: later)).head = some x →
        ¬ sub.stamp.Newer x) := by
  set s := runFrom step (empty : GuardedSlot I) earlier with hs
  have hnot {x : Stamp I} (h : x.Covers sub.stamp) : ¬ sub.stamp.Newer x := by
    intro hnewer
    exact Stamp.not_newer_self (hnewer.covers h)
  rcases s.replace_cases sub with ⟨hne, -⟩ | ⟨-, -, -, hmark, hrows⟩
  · exact absurd hinserted hne
  rw [if_pos hshape] at hmark
  have hreached : (s.step (.replace sub)).Reached sub.stamp := ⟨sub.stamp, hmark, .inl rfl⟩
  have hrun : runFrom step empty (earlier ++ .replace sub :: later) =
      runFrom step (s.step (.replace sub)) later := by
    rw [runFrom_append, runFrom_cons]
  refine ⟨fun r hr hlive hr' => ?_, fun hlater x hx => ?_⟩
  · obtain ⟨x, hx, hcovers⟩ := reached_run later hreached
    have hmarked := marked_run (earlier ++ .replace sub :: later) r hr hlive hr'
    rw [hrun] at hmarked
    obtain rfl : x = r.stamp := Option.some.inj (hx.symm.trans hmarked)
    exact hnot hcovers
  · rw [runFrom_append, runFrom_cons, runFrom_nil] at hlater
    have habove : (s.step (.replace sub)).Above sub.stamp := by
      intro r hr hlive
      rw [hrows r hr hlive]
      exact .inl rfl
    rw [hrun] at hx
    obtain ⟨r, hr, hlive, rfl⟩ := head_mem hx
    exact hnot (above_run habove hreached hlater r hr hlive)

def readStateEvent (id : Nat) (createdAt : UInt64) (shaped : Bool) : Submission Nat :=
  ⟨[1], ⟨id, [2], createdAt, KIND_READ_STATE,
    ["d", "read-state:00000000000000000000000000000000"] :: if shaped then [["t", "read-state"]] else []⟩,
    "read-state:00000000000000000000000000000000", .unconditional⟩

def readState (id : Nat) (createdAt : UInt64) (shaped : Bool) : SlotOp Nat :=
  .replace (readStateEvent id createdAt shaped)

theorem readState_not_resurrected_newer :
    (runFrom step empty [readState 1 10 true, .delete fun _ => true, readState 2 20 false,
      readState 3 5 false, readState 4 30 true]).head = some (⟨30, 4⟩ : Stamp Nat) ∧
      ¬ (⟨10, 1⟩ : Stamp Nat).Newer ⟨30, 4⟩ :=
  ⟨by decide +kernel,
    (readState_not_resurrected [] [.delete fun _ => true, readState 2 20 false, readState 3 5 false,
      readState 4 30 true] (readStateEvent 1 10 true) (by decide +kernel) (by decide +kernel)).2
      ⟨trivial, fun _ h => absurd h (by decide +kernel), fun _ _ => by decide +kernel,
        fun h => absurd h (by decide +kernel), trivial⟩ _ (by decide +kernel)⟩

theorem unshaped_resurrected :
    (runFrom step empty [readState 1 10 true, .delete fun _ => true, readState 2 5 false]).head =
        some (⟨5, 2⟩ : Stamp Nat) ∧ (⟨10, 1⟩ : Stamp Nat).Newer ⟨5, 2⟩ := by
  decide +kernel

end GuardedSlot

end Colony.Replaceable
