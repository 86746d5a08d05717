import Colony.Defs.Core.Event
import Colony.Defs.Data.Dict
import Colony.Defs.Data.Except
import Colony.Defs.Data.Sorted

namespace Colony.Threads

open Colony.Core Colony.Data

/-- A row of `events`; the columns that only the reconstruction of the event reads are one value, and
ids are byte strings in their order. -/
structure EventRow (Id Columns : Type) where
  community : CommunityId
  channel : Option Uuid
  createdAt : Int
  id : Id
  kind : Int
  deleted : Bool
  columns : Columns

structure ThreadMetadata where
  depth : Int
  broadcast : Bool
  replyCount : Int
  descendantCount : Int
  lastReplyAt : Option Int

abbrev EventKey (Id : Type) := CommunityId × Int × Id

def EventRow.key {Id Columns : Type} (row : EventRow Id Columns) : EventKey Id :=
  (row.community, row.createdAt, row.id)

structure ThreadTables (Id Columns : Type) where
  events : List (EventRow Id Columns)
  unique : (events.map EventRow.key).Nodup
  metadata : Dict (EventKey Id) ThreadMetadata

inductive WindowError
  | invalidData (message : String)
  deriving DecidableEq

structure ThreadSummary where
  replyCount : Int
  descendantCount : Int
  lastReplyAt : Option Int
  deriving DecidableEq

structure ChannelWindowRow (Event : Type) where
  storedEvent : Event
  threadSummary : Option ThreadSummary
  deriving DecidableEq

abbrev WindowCursor (Id : Type) := Option (Int × Id)

structure ChannelWindow (Id Event : Type) where
  rows : List (ChannelWindowRow Event)
  hasMore : Bool
  nextCursor : WindowCursor Id
  deriving DecidableEq

structure WindowQuery where
  community : CommunityId
  channel : Uuid
  limit : Nat
  kinds : Option (List Nat)

section Window

variable {Id Columns Event : Type} [LinearOrder Id] (reconstruct : EventRow Id Columns → Option Event)
  (t : ThreadTables Id Columns) (q : WindowQuery)

def topLevel (row : EventRow Id Columns) : Bool :=
  match t.metadata.lookup row.key with
  | none => true
  | some tm => tm.depth = 0 || tm.depth = 1 && tm.broadcast

def WindowQuery.ofKind (row : EventRow Id Columns) : Bool :=
  match q.kinds with
  | none => true
  | some kinds => kinds.isEmpty || kinds.any fun kind => row.kind = kind

def qualifies (row : EventRow Id Columns) : Bool :=
  row.community = q.community && row.channel = some q.channel && !row.deleted && topLevel t row && q.ofKind row

def afterCursor : WindowCursor Id → EventRow Id Columns → Bool
  | none, _ => true
  | some (createdAt, id), row => row.createdAt < createdAt || row.createdAt = createdAt && id < row.id

def Precedes (a b : EventRow Id Columns) : Prop :=
  b.createdAt < a.createdAt ∨ a.createdAt = b.createdAt ∧ a.id ≤ b.id

instance : DecidableRel (@Precedes Id Columns _) :=
  fun a b => inferInstanceAs (Decidable (b.createdAt < a.createdAt ∨ a.createdAt = b.createdAt ∧ a.id ≤ b.id))

def scan (cursor : WindowCursor Id) : List (EventRow Id Columns) :=
  (t.events.filter fun row => qualifies t q row && afterCursor cursor row).insertionSort Precedes

def kindFits (row : EventRow Id Columns) : Bool := 0 ≤ row.kind && row.kind ≤ 65535

def rowToStoredEvent (row : EventRow Id Columns) : Except WindowError (Option Event) :=
  if kindFits row then .ok (reconstruct row)
  else .error (.invalidData ("kind out of u16 range: " ++ toString row.kind))

def threadSummary (row : EventRow Id Columns) : Option ThreadSummary :=
  ((t.metadata.lookup row.key).filter fun tm => 0 < tm.replyCount).map fun tm =>
    ⟨tm.replyCount, tm.descendantCount, tm.lastReplyAt⟩

def windowRows : List (EventRow Id Columns) → Except WindowError (List (ChannelWindowRow Event))
  | [] => .ok []
  | row :: rows =>
    match rowToStoredEvent reconstruct row with
    | .error e => .error e
    | .ok none => windowRows rows
    | .ok (some event) => (windowRows rows).map (⟨event, threadSummary t row⟩ :: ·)

def getChannelWindow (cursor : WindowCursor Id) : Except WindowError (ChannelWindow Id Event) :=
  let dbRows := (scan t q cursor).take (q.limit + 1)
  (windowRows reconstruct t (dbRows.take q.limit)).map fun rows =>
    { rows
      hasMore := q.limit < dbRows.length
      nextCursor := if q.limit < dbRows.length then
          (dbRows.take q.limit).getLast?.map fun row => (row.createdAt, row.id)
        else none }

/-- The windows from a cursor on, until there is no more; nothing if the fuel does not last. -/
def followWindows : (fuel : Nat) → WindowCursor Id → Except WindowError (Option (List (ChannelWindow Id Event)))
  | 0, _ => .ok none
  | fuel + 1, cursor =>
    match getChannelWindow reconstruct t q cursor with
    | .error e => .error e
    | .ok window =>
      if window.hasMore then (followWindows fuel window.nextCursor).map (Option.map (window :: ·))
      else .ok (some [window])

variable {reconstruct t q} {cursor : WindowCursor Id} {row : EventRow Id Columns}
  {rows before after : List (EventRow Id Columns)}

instance : Std.Total (@Precedes Id Columns _) := ⟨fun a b => by
  rcases lt_trichotomy a.createdAt b.createdAt with h | h | h
  · exact .inr (.inl h)
  · rcases le_total a.id b.id with hid | hid
    · exact .inl (.inr ⟨h, hid⟩)
    · exact .inr (.inr ⟨h.symm, hid⟩)
  · exact .inl (.inl h)⟩

instance : IsTrans (EventRow Id Columns) Precedes := ⟨fun a b c hab hbc => by
  rcases hab with hab | ⟨hab, hid⟩ <;> rcases hbc with hbc | ⟨hbc, hid'⟩
  · exact .inl (hbc.trans hab)
  · exact .inl (hbc ▸ hab)
  · exact .inl (hab ▸ hbc)
  · exact .inr ⟨hab.trans hbc, hid.trans hid'⟩⟩

theorem afterCursor_iff {a b : EventRow Id Columns} :
    afterCursor (some (a.createdAt, a.id)) b = true ↔ ¬Precedes b a := by
  simp only [afterCursor, Precedes, Bool.or_eq_true, Bool.and_eq_true, decide_eq_true_eq, not_or, not_and,
    not_lt, not_le]
  constructor
  · rintro (hlt | ⟨heq, hid⟩)
    · exact ⟨hlt.le, fun heq => absurd heq hlt.ne⟩
    · exact ⟨heq.le, fun _ => hid⟩
  · rintro ⟨hle, hid⟩
    rcases hle.lt_or_eq with hlt | heq
    · exact .inl hlt
    · exact .inr ⟨heq, hid heq⟩

theorem strict {a b : EventRow Id Columns} (ha : a ∈ t.events) (hb : b ∈ t.events)
    (hqa : qualifies t q a = true) (hqb : qualifies t q b = true) (hab : Precedes a b) (hba : Precedes b a) :
    a = b := by
  have hcommunity : a.community = b.community := by
    simp only [qualifies, Bool.and_eq_true, decide_eq_true_eq] at hqa hqb
    rw [hqa.1.1.1.1, hqb.1.1.1.1]
  have hplace : a.createdAt = b.createdAt ∧ a.id = b.id := by
    rcases hab with hab | ⟨hab, hid⟩ <;> rcases hba with hba | ⟨hba, hid'⟩
    · exact absurd hab hba.not_gt
    · exact absurd hba hab.ne
    · exact absurd hab hba.ne
    · exact ⟨hab, le_antisymm hid hid'⟩
  refine List.inj_on_of_nodup_map t.unique ha hb ?_
  rw [EventRow.key, EventRow.key, hcommunity, hplace.1, hplace.2]

theorem mem_scan : row ∈ scan t q cursor ↔
    row ∈ t.events ∧ qualifies t q row = true ∧ afterCursor cursor row = true := by
  rw [scan, List.mem_insertionSort, List.mem_filter, Bool.and_eq_true]

theorem pairwise_scan : (scan t q cursor).Pairwise fun a b =>
    afterCursor (some (a.createdAt, a.id)) b = true ∧ afterCursor (some (b.createdAt, b.id)) a = false := by
  have hnodup : (scan t q cursor).Nodup :=
    (List.perm_insertionSort _ _).nodup_iff.2 ((t.unique.of_map _).filter _)
  refine ((List.pairwise_insertionSort Precedes _).and hnodup).imp_of_mem fun {a b} ha hb h => ?_
  rw [← Bool.not_eq_true, afterCursor_iff, afterCursor_iff, not_not]
  refine ⟨fun hba => h.2 ?_, h.1⟩
  obtain ⟨ha, hqa, -⟩ := mem_scan.1 ha
  obtain ⟨hb, hqb, -⟩ := mem_scan.1 hb
  exact strict ha hb hqa hqb h.1 hba

theorem scan_rest (h : scan t q none = before ++ row :: after) :
    scan t q (some (row.createdAt, row.id)) = after := by
  have hfilter : scan t q (some (row.createdAt, row.id)) =
      (scan t q none).filter (afterCursor (some (row.createdAt, row.id))) := by
    unfold scan
    rw [← insertionSort_filter, List.filter_filter]
    · congr 2
      funext row'
      simp [afterCursor, Bool.and_comm]
    · intro a ha b hb
      simp only [List.mem_filter, Bool.and_eq_true] at ha hb
      exact strict ha.1 hb.1 ha.2.1 hb.2.1
  rw [hfilter, h]
  refine filter_eq_rest (fun a b : EventRow Id Columns => afterCursor (some (a.createdAt, a.id)) b) ?_ ?_
  · simp [afterCursor]
  · rw [← h]
    exact pairwise_scan

def windowRow (reconstruct : EventRow Id Columns → Option Event) (t : ThreadTables Id Columns)
    (row : EventRow Id Columns) : Option (ChannelWindowRow Event) :=
  (reconstruct row).map fun event => ⟨event, threadSummary t row⟩

theorem windowRows_ok (h : ∀ row ∈ rows, kindFits row = true) :
    windowRows reconstruct t rows = .ok (rows.filterMap (windowRow reconstruct t)) := by
  induction rows with
  | nil => rfl
  | cons row rows ih =>
    obtain ⟨hrow, hrows⟩ := List.forall_mem_cons.1 h
    rw [windowRows, rowToStoredEvent, if_pos hrow, List.filterMap_cons, windowRow]
    cases hevent : reconstruct row with
    | none => exact ih hrows
    | some event =>
      simp only [ih hrows]
      rfl

theorem kindFits_of_ok {built : List (ChannelWindowRow Event)} (h : windowRows reconstruct t rows = .ok built) :
    ∀ row ∈ rows, kindFits row = true := by
  induction rows generalizing built with
  | nil => simp
  | cons row rows ih =>
    rw [windowRows, rowToStoredEvent] at h
    split_ifs at h with hrow
    cases hevent : reconstruct row with
    | none =>
      simp only [hevent] at h
      exact List.forall_mem_cons.2 ⟨hrow, ih h⟩
    | some event =>
      simp only [hevent, map_eq_ok] at h
      obtain ⟨rest, hrest, -⟩ := h
      exact List.forall_mem_cons.2 ⟨hrow, ih hrest⟩

theorem getChannelWindow_at {k : Nat} (reconstruct : EventRow Id Columns → Option Event) (hlimit : 1 ≤ q.limit)
    (hscan : scan t q cursor = (scan t q none).drop k) :
    ∃ next, getChannelWindow reconstruct t q cursor =
        (windowRows reconstruct t (((scan t q none).drop k).take q.limit)).map (fun rows =>
          ⟨rows, k + q.limit < (scan t q none).length, next⟩) ∧
      (k + q.limit < (scan t q none).length → scan t q next = (scan t q none).drop (k + q.limit)) := by
  have hmore : (q.limit < (((scan t q none).drop k).take (q.limit + 1)).length) =
      (k + q.limit < (scan t q none).length) := by
    rw [List.length_take, List.length_drop]
    apply propext
    omega
  refine ⟨if k + q.limit < (scan t q none).length then
      (((scan t q none).drop k).take q.limit).getLast?.map fun row => (row.createdAt, row.id)
    else none, ?_, fun hlt => ?_⟩
  · simp only [getChannelWindow, hscan, hmore, List.take_take, Nat.min_eq_left (Nat.le_succ q.limit)]
  · -- The last row of the page stands right before those that are left.
    obtain ⟨m, hm⟩ : ∃ m, k + q.limit = m + 1 := ⟨k + q.limit - 1, by omega⟩
    have hbound : m < (scan t q none).length := by omega
    have hlast : (((scan t q none).drop k).take q.limit).getLast? = some (scan t q none)[m] := by
      rw [List.getLast?_eq_getElem?, List.length_take, List.length_drop, List.getElem?_take_of_lt (by omega),
        List.getElem?_drop, ← List.getElem?_eq_getElem hbound]
      congr 1
      omega
    have hsplit : scan t q none =
        (scan t q none).take m ++ (scan t q none)[m] :: (scan t q none).drop (k + q.limit) := by
      rw [hm, ← List.drop_eq_getElem_cons, List.take_append_drop]
    rw [if_pos hlt, hlast]
    exact scan_rest hsplit

theorem followWindows_at (reconstruct : EventRow Id Columns → Option Event) (hlimit : 1 ≤ q.limit) (hkinds : ∀ row ∈ scan t q none, kindFits row = true)
    {n k : Nat} (hn : (scan t q none).length ≤ k + n) (hscan : scan t q cursor = (scan t q none).drop k) :
    ∃ pages, (∀ fuel, n < fuel → followWindows reconstruct t q fuel cursor = .ok (some pages)) ∧
      pages.flatMap ChannelWindow.rows = ((scan t q none).drop k).filterMap (windowRow reconstruct t) ∧
      ∀ i page, pages[i]? = some page →
        (page.hasMore = true ↔ k + (i + 1) * q.limit < (scan t q none).length) := by
  induction n using Nat.strongRecOn generalizing k cursor with
  | ind n ih =>
    obtain ⟨next, hwindow, hnext⟩ := getChannelWindow_at reconstruct hlimit hscan
    rw [windowRows_ok fun row hrow =>
      hkinds row (List.mem_of_mem_drop (List.mem_of_mem_take hrow))] at hwindow
    by_cases hmore : k + q.limit < (scan t q none).length
    · obtain ⟨pages, hpages, hrows, hflags⟩ :=
        ih (n - q.limit) (by omega) (k := k + q.limit) (by omega) (hnext hmore)
      refine ⟨⟨(((scan t q none).drop k).take q.limit).filterMap (windowRow reconstruct t), true, next⟩ :: pages,
        fun fuel hfuel => ?_, ?_, fun i page hpage => ?_⟩
      · obtain ⟨fuel, rfl⟩ : ∃ fuel', fuel = fuel' + 1 := ⟨fuel - 1, by omega⟩
        rw [followWindows, hwindow]
        simp only [Except.map, decide_eq_true hmore, if_true]
        rw [hpages fuel (by omega)]
        rfl
      · rw [List.flatMap_cons, hrows, ← List.filterMap_append, ← List.drop_drop, List.take_append_drop]
      · cases i with
        | zero =>
          cases hpage
          simpa using hmore
        | succ i =>
          rw [hflags i page hpage, Nat.succ_mul (i + 1)]
          omega
    · refine ⟨[⟨((scan t q none).drop k).filterMap (windowRow reconstruct t), false, next⟩],
        fun fuel hfuel => ?_, ?_, fun i page hpage => ?_⟩
      · obtain ⟨fuel, rfl⟩ : ∃ fuel', fuel = fuel' + 1 := ⟨fuel - 1, by omega⟩
        rw [followWindows, hwindow, List.take_of_length_le (by rw [List.length_drop]; omega)]
        simp [Except.map, hmore]
      · rw [List.flatMap_cons, List.flatMap_nil, List.append_nil]
      · cases i with
        | zero =>
          cases hpage
          simpa using hmore
        | succ i => cases hpage

theorem kindFits_of_followWindows (hlimit : 1 ≤ q.limit) {fuel k : Nat} {pages : List (ChannelWindow Id Event)}
    (hscan : scan t q cursor = (scan t q none).drop k)
    (h : followWindows reconstruct t q fuel cursor = .ok (some pages)) :
    ∀ row ∈ (scan t q none).drop k, kindFits row = true := by
  induction fuel generalizing k cursor pages with
  | zero => cases h
  | succ fuel ih =>
    obtain ⟨next, hwindow, hnext⟩ := getChannelWindow_at reconstruct hlimit hscan
    rw [followWindows, hwindow] at h
    cases hbuilt : windowRows reconstruct t (((scan t q none).drop k).take q.limit) with
    | error e =>
      rw [hbuilt] at h
      cases h
    | ok built =>
      have hpage := kindFits_of_ok hbuilt
      intro row hrow
      rw [← List.take_append_drop q.limit ((scan t q none).drop k), List.mem_append, List.drop_drop] at hrow
      rcases hrow with hrow | hrow
      · exact hpage row hrow
      · have hmore : k + q.limit < (scan t q none).length := by
          have hpos := List.length_pos_of_mem hrow
          rw [List.length_drop] at hpos
          omega
        rw [hbuilt] at h
        simp only [Except.map, decide_eq_true hmore, if_true] at h
        cases hrest : followWindows reconstruct t q fuel next with
        | error e =>
          rw [hrest] at h
          cases h
        | ok rest =>
          rw [hrest] at h
          cases rest with
          | none => cases h
          | some rest => exact ih (hnext hmore) hrest row hrow

end Window

section Complete

variable {Id Columns Event : Type} [LinearOrder Id]

/-- The windows of a channel, followed from its head, end and have every qualifying row that can be
reconstructed once and in order, and each says whether there is more, if and only if the kinds of all
qualifying rows are kinds of events. -/
theorem followWindows_complete_iff (reconstruct : EventRow Id Columns → Option Event)
    (t : ThreadTables Id Columns) (q : WindowQuery) (hlimit : 1 ≤ q.limit) :
    (∃ pages, (∃ enough, ∀ fuel, enough ≤ fuel → followWindows reconstruct t q fuel none = .ok (some pages)) ∧
      pages.flatMap ChannelWindow.rows = (scan t q none).filterMap (windowRow reconstruct t) ∧
      ∀ i page, pages[i]? = some page →
        (page.hasMore = true ↔ (i + 1) * q.limit < (scan t q none).length)) ↔
    ∀ row ∈ t.events, qualifies t q row = true → kindFits row = true := by
  have hall : (∀ row ∈ scan t q none, kindFits row = true) ↔
      ∀ row ∈ t.events, qualifies t q row = true → kindFits row = true := by
    constructor
    · intro h row hrow hqualifies
      exact h row (mem_scan.2 ⟨hrow, hqualifies, rfl⟩)
    · intro h row hrow
      obtain ⟨hrow, hqualifies, -⟩ := mem_scan.1 hrow
      exact h row hrow hqualifies
  rw [← hall]
  constructor
  · rintro ⟨pages, ⟨enough, hfollow⟩, -, -⟩
    exact kindFits_of_followWindows (k := 0) hlimit rfl (hfollow enough (Nat.le_refl _))
  · intro hkinds
    obtain ⟨pages, hfollow, hrows, hflags⟩ :=
      followWindows_at reconstruct (k := 0) hlimit hkinds (Nat.le_add_left _ 0) rfl
    refine ⟨pages, ⟨_, fun fuel hfuel => hfollow fuel (Nat.lt_of_succ_le hfuel)⟩, hrows, fun i page hpage => ?_⟩
    rw [hflags i page hpage, Nat.zero_add]

def message (createdAt : Int) (id : Nat) (kind : Int) : EventRow Nat Unit :=
  ⟨⟨1⟩, some ⟨2⟩, createdAt, id, kind, false, ()⟩

/-- Two rows of one second, an older one that cannot be reconstructed, and the oldest. -/
def tiedRows : List (EventRow Nat Unit) := [message 5 0 9, message 7 1 9, message 7 3 9, message 6 2 9]

theorem tiedRows_unique : (tiedRows.map EventRow.key).Nodup := by decide

theorem followWindows_complete_iff_tied :
    ∃ pages, (∃ enough, ∀ fuel, enough ≤ fuel →
      followWindows (fun row => if row.id = 2 then none else some row.id) ⟨tiedRows, tiedRows_unique, ∅⟩
        ⟨⟨1⟩, ⟨2⟩, 1, none⟩ fuel none = .ok (some pages)) ∧
      pages.flatMap ChannelWindow.rows = [⟨1, none⟩, ⟨3, none⟩, ⟨0, none⟩] := by
  obtain ⟨pages, hfollow, hrows, -⟩ :=
    (followWindows_complete_iff (fun row => if row.id = 2 then none else some row.id)
      ⟨tiedRows, tiedRows_unique, ∅⟩ ⟨⟨1⟩, ⟨2⟩, 1, none⟩ (by decide)).2 (by decide)
  exact ⟨pages, hfollow, hrows⟩

def corruptRows : List (EventRow Nat Unit) := [message 5 0 9, message 7 1 70000]

theorem corruptRows_unique : (corruptRows.map EventRow.key).Nodup := by decide

theorem corrupt_row_fails :
    followWindows (fun row => if row.kind = 9 then some row.id else none) ⟨corruptRows, corruptRows_unique, ∅⟩
        ⟨⟨1⟩, ⟨2⟩, 10, none⟩ 5 none =
      .error (.invalidData "kind out of u16 range: 70000") := by
  rfl

end Complete

end Colony.Threads
