import Colony.Defs.Replaceable.Register
import Mathlib.Data.Int.Order.Basic
import Mathlib.Order.Basic

universe u

namespace Colony.Replaceable

variable {I : Type u} [LinearOrder I] {a b c : Stamp I} {s s' : Slot I} {sub : Submission I}
variable {entries : List (Entry I)}

theorem Stamp.Newer.trans (h : a.Newer b) (h' : b.Newer c) : a.Newer c := by
  rcases h with h | ⟨h, hid⟩ <;> rcases h' with h' | ⟨h', hid'⟩
  · exact .inl (h'.trans h)
  · exact .inl (h' ▸ h)
  · exact .inl (h ▸ h')
  · exact .inr ⟨h.trans h', hid.trans hid'⟩

theorem Stamp.not_newer_self : ¬ a.Newer a := by
  rintro (h | ⟨-, h⟩)
  · exact lt_irrefl _ h
  · exact lt_irrefl _ h

def Stamp.Covers (a b : Stamp I) : Prop := a = b ∨ a.Newer b

theorem Stamp.Covers.trans (h : a.Covers b) (h' : b.Covers c) : a.Covers c := by
  rcases h with rfl | h
  · exact h'
  · rcases h' with rfl | h'
    · exact .inr h
    · exact .inr (h.trans h')

theorem Stamp.Newer.covers (h : a.Newer b) (h' : b.Covers c) : a.Newer c := by
  rcases h' with rfl | h'
  · exact h
  · exact h.trans h'

theorem Stamp.not_newer_iff : ¬ a.Newer b ↔ b.Covers a := by
  obtain ⟨t, i⟩ := a
  obtain ⟨t', i'⟩ := b
  simp only [Newer, Covers, Stamp.mk.injEq, not_or, not_lt, not_and]
  rcases lt_trichotomy t t' with h | rfl | h
  · simp only [h.le, h.ne, h, true_and, true_or, or_true, false_imp_iff]
  · simp only [le_refl, true_and, lt_irrefl, false_or, forall_const, le_iff_eq_or_lt]
  · simp only [h.not_ge, false_and, h.ne, h.not_gt, or_false]

variable {existing watermark : Option (Stamp I)}

theorem not_dominated_iff : dominated existing watermark a = false ↔
    (∀ x ∈ existing, a.Newer x) ∧ ∀ x ∈ watermark, a.Newer x := by
  have hone (x : Stamp I) : (decide (a.createdAt < x.createdAt) ||
      (decide (a.createdAt = x.createdAt) && decide (x.id ≤ a.id))) = false ↔ a.Newer x := by
    simp only [Bool.or_eq_false_iff, Bool.and_eq_false_iff, decide_eq_false_iff_not, Stamp.Newer,
      not_lt, not_le]
    rcases lt_trichotomy a.createdAt x.createdAt with h | h | h
    · simp [h.ne, h.not_gt, h.not_ge]
    · simp [h]
    · simp [h, h.ne', h.le]
  simp only [dominated, List.any_eq_false, List.mem_append, Option.mem_toList, Bool.not_eq_true,
    hone, or_imp, forall_and]
  rfl

theorem refusal_eq_none (h : refusal existing watermark sub = none) :
    (∀ x ∈ existing, sub.stamp.Newer x) ∧ (∀ x ∈ watermark, sub.stamp.Newer x) ∧
      ∀ r, sub.precondition = .expectedRevision r → ∃ x ∈ existing, x.id = r := by
  unfold refusal at h
  split at h
  · cases h
  · split at h
    · cases h
    · split at h
      · cases h
      · next hrevision =>
        split at h
        · cases h
        · next hdominated =>
          obtain ⟨hexisting, hwatermark⟩ := not_dominated_iff.1 (Bool.not_eq_true _ ▸ hdominated)
          refine ⟨hexisting, hwatermark, fun r hr => ?_⟩
          rw [hr] at hrevision
          cases existing with
          | none => cases hrevision
          | some s =>
            refine ⟨s, rfl, by_contra fun hne => ?_⟩
            rw [show revisionRefusal (some s) (.expectedRevision r) = _ from if_pos hne] at hrevision
            cases hrevision

theorem refusal_ne_inserted {status : Status} (h : refusal existing watermark sub = some status) :
    status ≠ .inserted := by
  unfold refusal at h
  split at h
  · cases h
    exact Status.noConfusion
  · split at h
    · cases h
      exact Status.noConfusion
    · split at h
      · next hrevision =>
        cases h
        unfold revisionRefusal at hrevision
        repeat' split at hrevision
        all_goals
          cases hrevision
          try exact Status.noConfusion
      · split at h
        · cases h
          exact Status.noConfusion
        · cases h

theorem refusal_covers {since : I → Int} (htime : sub.stamp.createdAt = since sub.stamp.id)
    (htimes : ∀ x, x ∈ existing ∨ x ∈ watermark → x.createdAt = since x.id)
    (hpre : sub.precondition = .unconditional) {status : Status}
    (h : refusal existing watermark sub = some status) :
    ∃ x, (x ∈ existing ∨ x ∈ watermark) ∧ x.Covers sub.stamp := by
  unfold refusal at h
  split at h
  · next hreplay =>
    simp only [isReplay, Bool.or_eq_true, Option.any_eq_true, decide_eq_true_eq] at hreplay
    obtain ⟨x, hx, hid⟩ : ∃ x, (x ∈ existing ∨ x ∈ watermark) ∧ x.id = sub.stamp.id := by
      rcases hreplay with ⟨x, hx, hid⟩ | ⟨x, hx, hid⟩
      · exact ⟨x, .inl hx, hid⟩
      · exact ⟨x, .inr hx, hid⟩
    refine ⟨x, hx, .inl ?_⟩
    have hcreated : x.createdAt = sub.stamp.createdAt := by rw [htimes x hx, hid, ← htime]
    cases x
    cases hid
    cases hcreated
    rfl
  · rw [hpre] at h
    by_contra hnone
    have hnewer (x : Stamp I) (hx : x ∈ existing ∨ x ∈ watermark) : sub.stamp.Newer x := by
      by_contra hnot
      exact hnone ⟨x, hx, Stamp.not_newer_iff.1 hnot⟩
    have hdominated := not_dominated_iff.2
      ⟨fun x hx => hnewer x (.inl hx), fun x hx => hnewer x (.inr hx)⟩
    rw [hdominated] at h
    cases h

/-- `h` is the live row, and covers all that the slot ever held.  `since` is when the event
with an id was created. -/
structure Slot.Tops (since : I → Int) (s : Slot I) (h : Option (Stamp I)) : Prop where
  live : (s.rows.filter Row.live).map Row.stamp = h.toList
  rows : ∀ r ∈ s.rows, ∃ x ∈ h, x.Covers r.stamp
  mark : ∀ m ∈ s.mark, ∃ x ∈ h, x.Covers m
  times : ∀ x, x ∈ h ∨ x ∈ s.mark → x.createdAt = since x.id

variable {since : I → Int} {h : Option (Stamp I)}

theorem Slot.empty_tops : (Slot.empty : Slot I).Tops since none :=
  ⟨rfl, List.forall_mem_nil _, fun _ hm => (nomatch hm), fun x hx => by simp [empty] at hx⟩

theorem Slot.Tops.head_eq (hs : s.Tops since h) : s.head = h := by
  rw [head, headOf, hs.live]
  cases h <;> rfl

omit [LinearOrder I] in
theorem Slot.markFor_mem {x : Stamp I} (hx : x ∈ s.markFor sub) : x ∈ s.mark := by
  unfold markFor at hx
  split at hx
  · exact hx
  · cases hx

theorem Slot.Tops.cleared (hs : s.Tops since h) (sub : Submission I) :
    (∀ r ∈ (s.writes (clearing h sub)).rows, r.live = false ∧ ∃ x ∈ h, x.Covers r.stamp) ∧
      (s.writes (clearing h sub)).mark = s.mark := by
  cases h with
  | none =>
    refine ⟨fun r hr => ?_, rfl⟩
    obtain ⟨x, hx, -⟩ := hs.rows r hr
    cases hx
  | some x =>
    rw [show clearing (some x) sub = [if sub.hardDeleteSuperseded then .hardDelete sub.coordinate
      else .softDelete sub.coordinate] from rfl]
    split
    · refine ⟨fun r hr => ?_, rfl⟩
      obtain ⟨hr, hdead⟩ := List.mem_filter.1 hr
      exact ⟨by simpa using hdead, hs.rows r hr⟩
    · refine ⟨fun r hr => ?_, rfl⟩
      obtain ⟨r', hr', rfl⟩ := List.mem_map.1 hr
      exact ⟨rfl, hs.rows r' hr'⟩

theorem Slot.Tops.accepted (hs : s.Tops since h) (htime : sub.stamp.createdAt = since sub.stamp.id)
    (hnewer : ∀ x ∈ h, sub.stamp.Newer x) :
    (s.writes (clearing h sub ++ [insertion sub] ++ marking sub)).Tops since (some sub.stamp) := by
  obtain ⟨hcleared, hmark⟩ := hs.cleared sub
  have hcovers {y : Stamp I} (hy : ∃ x ∈ h, x.Covers y) :
      ∃ x ∈ some sub.stamp, x.Covers y := by
    obtain ⟨x, hx, hcov⟩ := hy
    exact ⟨_, rfl, .inr ((hnewer x hx).covers hcov)⟩
  have hrows : (s.writes (clearing h sub ++ [insertion sub] ++ marking sub)).rows =
      (s.writes (clearing h sub)).rows ++ [⟨sub.coordinate, sub.stamp, true⟩] := by
    rw [writes, List.foldl_append, List.foldl_append, marking]
    split <;> rfl
  have hmarks (m : Stamp I)
      (hm : m ∈ (s.writes (clearing h sub ++ [insertion sub] ++ marking sub)).mark) :
      m = sub.stamp ∨ m ∈ s.mark := by
    rw [writes, List.foldl_append, List.foldl_append, marking] at hm
    split at hm
    · exact .inl (Option.some.inj hm).symm
    · exact .inr (hmark ▸ hm)
  refine ⟨?_, fun r hr => ?_, fun m hm => ?_, fun x hx => ?_⟩
  · rw [hrows, List.filter_append, List.filter_eq_nil_iff.2 fun r hr => ?_]
    · rfl
    · simp [(hcleared r hr).1]
  · rw [hrows] at hr
    rcases List.mem_append.1 hr with hr | hr
    · exact hcovers (hcleared r hr).2
    · cases List.mem_singleton.1 hr
      exact ⟨_, rfl, .inl rfl⟩
  · rcases hmarks m hm with rfl | hm
    · exact ⟨_, rfl, .inl rfl⟩
    · exact hcovers (hs.mark m hm)
  · rcases hx with hx | hx
    · cases hx
      exact htime
    · rcases hmarks x hx with rfl | hx
      · exact htime
      · exact hs.times x (.inr hx)

theorem Slot.Tops.replace_cases (hs : s.Tops since h)
    (htime : sub.stamp.createdAt = since sub.stamp.id) :
    ((s.replace sub).2 ≠ .inserted ∧ (s.replace sub).1 = s ∧
        (sub.precondition = .unconditional → ∃ x ∈ h, x.Covers sub.stamp)) ∨
      ((s.replace sub).2 = .inserted ∧ (∀ x ∈ h, sub.stamp.Newer x) ∧
        (∀ r, sub.precondition = .expectedRevision r → ∃ x ∈ h, x.id = r) ∧
        (s.replace sub).1.Tops since (some sub.stamp)) := by
  unfold replace
  rw [hs.head_eq]
  split
  · next status hrefusal =>
    refine .inl ⟨refusal_ne_inserted hrefusal, rfl, fun hpre => ?_⟩
    have htimes (x : Stamp I) (hx : x ∈ h ∨ x ∈ s.markFor sub) : x.createdAt = since x.id :=
      hs.times x (hx.imp_right markFor_mem)
    obtain ⟨x, hx | hx, hcovers⟩ := refusal_covers htime htimes hpre hrefusal
    · exact ⟨x, hx, hcovers⟩
    · obtain ⟨y, hy, hcovers'⟩ := hs.mark x (markFor_mem hx)
      exact ⟨y, hy, hcovers'.trans hcovers⟩
  · next hrefusal =>
    obtain ⟨hnewer, -, hrevision⟩ := refusal_eq_none hrefusal
    split
    · next htaken =>
      obtain ⟨r, hr, hstamp⟩ := List.any_eq_true.1 htaken
      refine .inl ⟨Status.noConfusion, rfl, fun _ => ?_⟩
      rw [← of_decide_eq_true hstamp]
      exact ((hs.cleared sub).1 r hr).2
    · exact .inr ⟨rfl, hnewer, hrevision, hs.accepted htime hnewer⟩

theorem Slot.replace_same (hne : (s.replace sub).2 ≠ .inserted) : (s.replace sub).1 = s := by
  unfold replace at hne ⊢
  split
  · rfl
  · next hrefusal =>
    split
    · rfl
    · next hfree =>
      rw [hrefusal] at hne
      simp [hfree] at hne

def accepted (entries : List (Entry I)) : List (Stamp I) :=
  (entries.filter Entry.isInserted).map fun e => e.sub.stamp

omit [LinearOrder I] in
theorem accepted_concat (e : Entry I) : accepted (entries ++ [e]) =
    accepted entries ++ if e.isInserted then [e.sub.stamp] else [] := by
  rw [accepted, accepted, List.filter_append, List.map_append]
  cases he : e.isInserted <;> simp [he]

def Dated (since : I → Int) (entries : List (Entry I)) : Prop :=
  ∀ e ∈ entries, e.sub.stamp.createdAt = since e.sub.stamp.id

theorem Slot.Runs.tops (hdated : Dated since entries) (hruns : Slot.empty.Runs entries s) :
    s.Tops since (accepted entries).getLast? := by
  induction hruns with
  | nil => exact empty_tops
  | @snoc entries s sub hruns ih =>
    have hs := ih fun e he => hdated e (List.mem_append_left _ he)
    have htime := hdated _ (List.mem_append_right entries List.mem_cons_self)
    rw [accepted_concat]
    rcases hs.replace_cases htime with ⟨hne, hsame, -⟩ | ⟨heq, -, -, htops⟩
    · rw [if_neg (by simpa [Entry.isInserted] using hne), List.append_nil, hsame]
      exact hs
    · rw [if_pos (by simpa [Entry.isInserted] using heq), List.getLast?_concat]
      exact htops

theorem last_covers {l : List (Stamp I)} (hl : l.Pairwise fun a b => b.Newer a) (ha : a ∈ l) :
    ∃ x ∈ l.getLast?, x.Covers a := by
  rcases List.eq_nil_or_concat l with rfl | ⟨l, x, rfl⟩
  · cases ha
  · rw [List.concat_eq_append] at ha hl ⊢
    refine ⟨x, List.getLast?_concat, ?_⟩
    rcases List.mem_append.1 ha with ha | ha
    · exact .inr ((List.pairwise_append.1 hl).2.2 a ha x List.mem_cons_self)
    · exact .inl (List.mem_singleton.1 ha).symm

theorem Slot.Runs.next (hruns : Slot.empty.Runs entries s)
    (hdated : Dated since (entries ++ [⟨sub, (s.replace sub).2⟩])) :
    ((s.replace sub).2 ≠ .inserted ∧ (s.replace sub).1 = s ∧
        (sub.precondition = .unconditional →
          ∃ x ∈ (accepted entries).getLast?, x.Covers sub.stamp)) ∨
      ((s.replace sub).2 = .inserted ∧ (∀ x ∈ (accepted entries).getLast?, sub.stamp.Newer x) ∧
        ∀ r, sub.precondition = .expectedRevision r →
          (⟨since r, r⟩ : Stamp I) ∈ (accepted entries).getLast?) := by
  have hs := hruns.tops fun e he => hdated e (List.mem_append_left _ he)
  have htime := hdated _ (List.mem_append_right entries List.mem_cons_self)
  rcases hs.replace_cases htime with h | ⟨heq, hnewer, hrevision, -⟩
  · exact .inl h
  · refine .inr ⟨heq, hnewer, fun r hr => ?_⟩
    obtain ⟨x, hx, rfl⟩ := hrevision r hr
    rw [← hs.times x (.inl hx)]
    exact hx

theorem Slot.Runs.accepted_increases (hdated : Dated since entries)
    (hruns : Slot.empty.Runs entries s) : (accepted entries).Pairwise fun a b => b.Newer a := by
  induction hruns with
  | nil => exact .nil
  | @snoc entries s sub hruns ih =>
    have hbefore := ih fun e he => hdated e (List.mem_append_left _ he)
    rw [accepted_concat]
    rcases hruns.next hdated with ⟨hne, -⟩ | ⟨heq, hnewer, -⟩
    · rw [if_neg (by simpa [Entry.isInserted] using hne), List.append_nil]
      exact hbefore
    · rw [if_pos (by simpa [Entry.isInserted] using heq), List.pairwise_append]
      refine ⟨hbefore, List.pairwise_singleton _ _, fun a ha b hb => ?_⟩
      cases List.mem_singleton.1 hb
      obtain ⟨x, hx, hcovers⟩ := last_covers hbefore ha
      exact (hnewer x hx).covers hcovers

theorem Slot.Runs.covers_all (hdated : Dated since entries) (hruns : Slot.empty.Runs entries s)
    (hall : ∀ e ∈ entries, e.sub.precondition = .unconditional) :
    ∀ e ∈ entries, ∃ x ∈ (accepted entries).getLast?, x.Covers e.sub.stamp := by
  induction hruns with
  | nil => exact List.forall_mem_nil _
  | @snoc entries s sub hruns ih =>
    have hbefore := ih (fun e he => hdated e (List.mem_append_left _ he))
      fun e he => hall e (List.mem_append_left _ he)
    have hpre := hall _ (List.mem_append_right entries List.mem_cons_self)
    rw [accepted_concat]
    intro e he
    rcases hruns.next hdated with ⟨hne, -, hcovers⟩ | ⟨heq, hnewer, -⟩
    · rw [if_neg (by simpa [Entry.isInserted] using hne), List.append_nil]
      rcases List.mem_append.1 he with he | he
      · exact hbefore e he
      · cases List.mem_singleton.1 he
        exact hcovers hpre
    · rw [if_pos (by simpa [Entry.isInserted] using heq), List.getLast?_concat]
      refine ⟨_, rfl, ?_⟩
      rcases List.mem_append.1 he with he | he
      · obtain ⟨x, hx, hcovers⟩ := hbefore e he
        exact .inr ((hnewer x hx).covers hcovers)
      · cases List.mem_singleton.1 he
        exact .inl rfl

def winners (entries : List (Entry I)) (r : I) : List (Entry I) :=
  entries.filter fun e => e.isInserted && e.expects r

theorem winners_concat (e : Entry I) (r : I) : winners (entries ++ [e]) r =
    winners entries r ++ if e.isInserted && e.expects r then [e] else [] := by
  rw [winners, winners, List.filter_append]
  cases he : e.isInserted && e.expects r <;> simp [he]

theorem Slot.Runs.past_winners (hdated : Dated since entries) (hruns : Slot.empty.Runs entries s)
    (r : I) : (winners entries r).length ≤ 1 ∧ (winners entries r ≠ [] →
      ∃ x ∈ (accepted entries).getLast?, x.Newer ⟨since r, r⟩) := by
  induction hruns with
  | nil => exact ⟨Nat.zero_le _, fun h => absurd rfl h⟩
  | @snoc entries s sub hruns ih =>
    obtain ⟨hlength, hpast⟩ := ih fun e he => hdated e (List.mem_append_left _ he)
    rw [accepted_concat, winners_concat]
    rcases hruns.next hdated with ⟨hne, -⟩ | ⟨heq, hnewer, hrevision⟩
    · have hnot : (⟨sub, (s.replace sub).2⟩ : Entry I).isInserted = false := by
        simpa [Entry.isInserted] using hne
      simp only [hnot, Bool.false_and, Bool.false_eq_true, if_false, List.append_nil]
      exact ⟨hlength, hpast⟩
    · have hins : (⟨sub, (s.replace sub).2⟩ : Entry I).isInserted = true := by
        simpa [Entry.isInserted] using heq
      rw [if_pos hins, List.getLast?_concat, hins, Bool.true_and]
      split
      · next hexpects =>
        -- the register stood at the revision, so that nobody replaced it before
        have hstood := hrevision r (of_decide_eq_true hexpects)
        have hnone : winners entries r = [] := by
          by_contra hsome
          obtain ⟨x, hx, hnewer'⟩ := hpast hsome
          cases Option.mem_unique hx hstood
          exact Stamp.not_newer_self hnewer'
        rw [hnone]
        exact ⟨Nat.le_refl _, fun _ => ⟨_, rfl, hnewer _ hstood⟩⟩
      · rw [List.append_nil]
        refine ⟨hlength, fun h => ?_⟩
        obtain ⟨x, hx, hnewer'⟩ := hpast h
        exact ⟨_, rfl, (hnewer x hx).trans hnewer'⟩

theorem Slot.Runs.eq_foldl {s₀ : Slot I} (hruns : s₀.Runs entries s) :
    s = (entries.filter Entry.isInserted).foldl (fun s e => (s.replace e.sub).1) s₀ := by
  induction hruns with
  | nil => rfl
  | @snoc entries s sub hruns ih =>
    rw [List.filter_append, List.foldl_append, ← ih, List.filter_cons]
    split
    · rfl
    · next hne => exact Slot.replace_same (by simpa [Entry.isInserted] using hne)

end Colony.Replaceable
