import Colony.Defs.Replaceable.RegisterLaws
import Colony.Defs.Replaceable.Store

namespace Colony.Replaceable

open Colony.Data

variable {I : Type} {k : Coordinate} {tables : Tables I} {w : Write I} {ws : List (Write I)}

def Write.coordinate : Write I → Coordinate
  | .softDelete k => k
  | .hardDelete k => k
  | .insert row => row.coordinate
  | .mark k _ => k

theorem softDelete_slot (rows : List (Row I)) (k k' : Coordinate) :
    (rows.map fun r => if r.coordinate = k ∧ r.live then { r with live := false } else r).filter
        (fun r => r.coordinate = k') =
      if k = k' then (rows.filter fun r => r.coordinate = k').map fun r => { r with live := false }
      else rows.filter fun r => r.coordinate = k' := by
  have hcoordinate (r : Row I) :
      (if r.coordinate = k ∧ r.live then { r with live := false } else r : Row I).coordinate =
        r.coordinate := by split <;> rfl
  rw [List.filter_map]
  simp only [Function.comp_def, hcoordinate]
  split
  · next heq =>
    refine List.map_congr_left fun r hr => ?_
    have hr : r.coordinate = k := (of_decide_eq_true (List.mem_filter.1 hr).2).trans heq.symm
    obtain ⟨c, stamp, live⟩ := r
    cases live <;> simp_all
  · next hne =>
    refine (List.map_congr_left fun r hr => ?_).trans (List.map_id _)
    have hr : r.coordinate = k' := of_decide_eq_true (List.mem_filter.1 hr).2
    rw [if_neg fun h => hne (h.1.symm.trans hr)]
    rfl

theorem Tables.slot_write : (tables.write w).slot k =
    if w.coordinate = k then (tables.slot k).write w else tables.slot k := by
  cases w with
  | softDelete k' =>
    simp only [write, slot, softDelete_slot, Write.coordinate, Slot.write]
    by_cases heq : k' = k
    · simp only [heq, ↓reduceIte]
    · simp only [heq, ↓reduceIte]
  | hardDelete k' =>
    simp only [write, slot, List.filter_filter, Write.coordinate, Slot.write]
    split
    · next heq =>
      subst heq
      congr 1
      refine List.filter_congr fun r _ => ?_
      cases decide (r.coordinate = k') <;> simp
    · next hne =>
      congr 1
      refine List.filter_congr fun r _ => ?_
      by_cases hr : r.coordinate = k
      · simp [hr, Ne.symm hne]
      · simp [hr]
  | insert row =>
    simp only [write, slot, List.filter_append, Write.coordinate, Slot.write]
    by_cases heq : row.coordinate = k
    · simp [heq]
    · simp [heq]
  | mark k' stamp =>
    simp only [write, slot, Dict.lookup_insert_if, Write.coordinate, Slot.write, eq_comm]
    split <;> rfl

theorem Tables.slot_writes : (tables.writes ws).slot k =
    (tables.slot k).writes (ws.filter fun w => w.coordinate = k) := by
  induction ws generalizing tables with
  | nil => rfl
  | cons w ws ih =>
    rw [show tables.writes (w :: ws) = (tables.write w).writes ws from rfl, ih, slot_write,
      List.filter_cons]
    by_cases heq : w.coordinate = k
    · rw [if_pos heq, if_pos (decide_eq_true heq)]
      rfl
    · rw [if_neg heq, if_neg (by simpa using heq)]

theorem Tables.slot_writes_of_forall_eq (h : ∀ w ∈ ws, w.coordinate = k) :
    (tables.writes ws).slot k = (tables.slot k).writes ws := by
  rw [slot_writes, List.filter_eq_self.2 fun w hw => decide_eq_true (h w hw)]

theorem Tables.slot_writes_of_forall_ne (h : ∀ w ∈ ws, w.coordinate ≠ k) :
    (tables.writes ws).slot k = tables.slot k := by
  rw [slot_writes, List.filter_eq_nil_iff.2 fun w hw => by simpa using h w hw]
  rfl

theorem Tables.writes_append {ws' : List (Write I)} :
    tables.writes (ws ++ ws') = (tables.writes ws).writes ws' := List.foldl_append

variable {sub : Submission I} {existing : Option (Stamp I)}

theorem clearing_coordinate (hw : w ∈ clearing existing sub) : w.coordinate = sub.coordinate := by
  unfold clearing at hw
  split at hw
  · rw [List.mem_singleton.1 hw]
    split <;> rfl
  · cases hw

theorem marking_coordinate (hw : w ∈ marking sub) : w.coordinate = sub.coordinate := by
  unfold marking at hw
  split at hw
  · rw [List.mem_singleton.1 hw]
    rfl
  · cases hw

def acceptance (existing : Option (Stamp I)) (sub : Submission I) : List (Write I) :=
  clearing existing sub ++ [insertion sub] ++ marking sub

theorem acceptance_coordinate (hw : w ∈ acceptance existing sub) :
    w.coordinate = sub.coordinate := by
  rcases List.mem_append.1 hw with hw | hw
  · rcases List.mem_append.1 hw with hw | hw
    · exact clearing_coordinate hw
    · cases List.mem_singleton.1 hw
      rfl
  · exact marking_coordinate hw

structure Catalog (I : Type) where
  createdAt : I → Int
  kind : I → Nat
  pubkey : I → List UInt8
  dTag : I → String

structure Submission.Listed (C : Catalog I) (sub : Submission I) : Prop where
  createdAt : sub.stamp.createdAt = C.createdAt sub.stamp.id
  kind : sub.event.kind = C.kind sub.event.id
  pubkey : sub.event.pubkey = C.pubkey sub.event.id
  dTag : sub.dTag = C.dTag sub.event.id

instance (C : Catalog I) (sub : Submission I) : Decidable (sub.Listed C) :=
  decidable_of_iff (sub.stamp.createdAt = C.createdAt sub.stamp.id ∧
      sub.event.kind = C.kind sub.event.id ∧ sub.event.pubkey = C.pubkey sub.event.id ∧
      sub.dTag = C.dTag sub.event.id)
    ⟨fun ⟨h₁, h₂, h₃, h₄⟩ => ⟨h₁, h₂, h₃, h₄⟩, fun h => ⟨h.createdAt, h.kind, h.pubkey, h.dTag⟩⟩

def Row.Filed (C : Catalog I) (r : Row I) : Prop :=
  r.coordinate = ⟨r.coordinate.community, C.kind r.stamp.id, C.pubkey r.stamp.id,
    C.dTag r.stamp.id⟩

def Write.Filed (C : Catalog I) : Write I → Prop
  | .insert row => row.Filed C
  | _ => True

variable {C : Catalog I}

theorem Submission.Listed.filed (h : sub.Listed C) :
    (⟨sub.coordinate, sub.stamp, true⟩ : Row I).Filed C := by
  unfold Row.Filed Submission.coordinate
  simp only [Submission.stamp, ← h.kind, ← h.pubkey, ← h.dTag]

theorem Submission.Listed.acceptance (h : sub.Listed C) (hw : w ∈ acceptance existing sub) :
    w.Filed C := by
  rcases List.mem_append.1 hw with hw | hw
  · rcases List.mem_append.1 hw with hw | hw
    · unfold clearing at hw
      split at hw
      · rw [List.mem_singleton.1 hw]
        split <;> trivial
      · cases hw
    · cases List.mem_singleton.1 hw
      exact h.filed
  · unfold marking at hw
    split at hw
    · cases List.mem_singleton.1 hw
      trivial
    · cases hw

theorem Tables.write_filed (h : ∀ r ∈ tables.rows, r.Filed C) (hw : w.Filed C) :
    ∀ r ∈ (tables.write w).rows, r.Filed C := by
  cases w with
  | softDelete k =>
    intro r hr
    obtain ⟨r', hr', rfl⟩ := List.mem_map.1 hr
    split
    · exact h r' hr'
    · exact h r' hr'
  | hardDelete k => exact fun r hr => h r (List.mem_filter.1 hr).1
  | insert row =>
    intro r hr
    rcases List.mem_append.1 hr with hr | hr
    · exact h r hr
    · cases List.mem_singleton.1 hr
      exact hw
  | mark k stamp => exact h

theorem Tables.writes_filed (h : ∀ r ∈ tables.rows, r.Filed C) (hws : ∀ w ∈ ws, w.Filed C) :
    ∀ r ∈ (tables.writes ws).rows, r.Filed C := by
  induction ws generalizing tables with
  | nil => exact h
  | cons w ws ih =>
    exact ih (write_filed h (hws w List.mem_cons_self))
      fun w' hw' => hws w' (List.mem_cons_of_mem _ hw')

theorem Tables.taken_eq [LinearOrder I] (h : ∀ r ∈ tables.rows, r.Filed C) (hsub : sub.Listed C) :
    tables.taken sub = (tables.slot sub.coordinate).taken sub := by
  rw [taken, Slot.taken, slot, List.any_filter, Bool.eq_iff_iff, List.any_eq_true,
    List.any_eq_true]
  refine exists_congr fun r => and_congr_right fun hr => ?_
  simp only [Bool.and_eq_true, decide_eq_true_eq]
  refine and_congr_left fun hstamp => ⟨fun hcommunity => ?_, fun heq => congrArg _ heq⟩
  rw [h r hr, hstamp, hcommunity]
  exact (hsub.filed).symm

def entriesAt (k : Coordinate) (log : List (Entry I)) : List (Entry I) :=
  log.filter fun e => e.sub.coordinate = k

variable [LinearOrder I] {db db' : Db I} {t u : Tx I} {existing : Option (Stamp I)}

/-- The tables are what the calls of the log make of them, coordinate by coordinate. -/
structure Db.Sound (C : Catalog I) (db : Db I) : Prop where
  listed : ∀ e ∈ db.log, e.sub.Listed C
  filed : ∀ r ∈ db.tables.rows, r.Filed C
  runs : ∀ k, Slot.empty.Runs (entriesAt k db.log) (db.tables.slot k)

def Tx.Holds (t : Tx I) (k : Coordinate) : Prop := eventReplacementLockKey k ∈ t.locks

def Stage.Current (C : Catalog I) (t : Tx I) (view : Tables I) : Stage I → Prop
  | .between => True
  | .locked r => t.Holds r.sub.coordinate ∧ r.sub.Listed C
  | .read r existing => t.Holds r.sub.coordinate ∧ r.sub.Listed C ∧
    existing = (view.slot r.sub.coordinate).head
  | .savepoint r existing => t.Holds r.sub.coordinate ∧ r.sub.Listed C ∧
    existing = (view.slot r.sub.coordinate).head ∧
    refusal existing ((view.slot r.sub.coordinate).markFor r.sub) r.sub = none
  | .cleared r pending => t.Holds r.sub.coordinate ∧ r.sub.Listed C ∧
    pending = clearing (view.slot r.sub.coordinate).head r.sub ∧
    refusal (view.slot r.sub.coordinate).head ((view.slot r.sub.coordinate).markFor r.sub) r.sub =
      none
  | .inserted r pending => t.Holds r.sub.coordinate ∧ r.sub.Listed C ∧
    pending = clearing (view.slot r.sub.coordinate).head r.sub ++ [insertion r.sub] ∧
    (view.slot r.sub.coordinate).replace r.sub =
      ((view.slot r.sub.coordinate).writes
        (acceptance (view.slot r.sub.coordinate).head r.sub), .inserted)

structure Tx.Knows (C : Catalog I) (db : Db I) (t : Tx I) : Prop where
  todo : ∀ r ∈ t.todo, r.sub.Listed C
  writes : ∀ w ∈ t.writes, t.Holds w.coordinate ∧ w.Filed C
  done : ∀ e ∈ t.done, t.Holds e.sub.coordinate ∧ e.sub.Listed C
  runs : ∀ k, t.Holds k →
    Slot.empty.Runs (entriesAt k (db.log ++ t.done)) ((t.view db.tables).slot k)
  stage : t.stage.Current C t (t.view db.tables)

theorem Stage.Current.congr {view view' : Tables I} {stage : Stage I}
    (h : stage.Current C t view) (hview : ∀ k, t.Holds k → view'.slot k = view.slot k) :
    stage.Current C t view' := by
  cases stage with
  | between => trivial
  | locked r => exact h
  | read r existing =>
    have hslot := hview _ h.1
    simpa only [Current, hslot] using h
  | savepoint r existing =>
    have hslot := hview _ h.1
    simpa only [Current, hslot] using h
  | cleared r pending =>
    have hslot := hview _ h.1
    simpa only [Current, hslot] using h
  | inserted r pending =>
    have hslot := hview _ h.1
    simpa only [Current, hslot] using h

omit [LinearOrder I] in
theorem entriesAt_append (log log' : List (Entry I)) :
    entriesAt k (log ++ log') = entriesAt k log ++ entriesAt k log' := List.filter_append ..

theorem Tx.Knows.slot_eq (ht : t.Knows C db) (hk : ¬ t.Holds k) :
    (t.view db.tables).slot k = db.tables.slot k := by
  refine Tables.slot_writes_of_forall_ne fun w hw heq => hk ?_
  rw [← heq]
  exact (ht.writes w hw).1

theorem Tx.Knows.entriesAt_done (ht : t.Knows C db) (hk : ¬ t.Holds k) :
    entriesAt k t.done = [] := by
  refine List.filter_eq_nil_iff.2 fun e he heq => hk ?_
  rw [← of_decide_eq_true heq]
  exact (ht.done e he).1

theorem Tx.Knows.others (hu : u.Knows C db) (ht : t.Knows C db)
    (hclash : (callers I).clash t u = false) :
    u.Knows C ⟨t.view db.tables, db.log ++ t.done⟩ := by
  have hfree (k : Coordinate) (hk : u.Holds k) : ¬ t.Holds k := by
    intro hk'
    have := List.any_eq_false.1 hclash _ hk'
    exact this (List.contains_iff_mem.2 hk)
  have hslot (k : Coordinate) (hk : u.Holds k) :
      (u.view (t.view db.tables)).slot k = (u.view db.tables).slot k := by
    rw [view, Tables.slot_writes, ht.slot_eq (hfree k hk), ← Tables.slot_writes]
    rfl
  refine ⟨hu.todo, hu.writes, hu.done, fun k hk => ?_, hu.stage.congr hslot⟩
  have hruns := hu.runs k hk
  rw [entriesAt_append] at hruns
  rw [hslot k hk, entriesAt_append, entriesAt_append, ht.entriesAt_done (hfree k hk),
    List.append_nil]
  exact hruns

theorem Tx.Knows.commit (h : db.Sound C) (ht : t.Knows C db) :
    Db.Sound C ⟨t.view db.tables, db.log ++ t.done⟩ := by
  refine ⟨fun e he => ?_, Tables.writes_filed h.filed fun w hw => (ht.writes w hw).2, fun k => ?_⟩
  · rcases List.mem_append.1 he with he | he
    · exact h.listed e he
    · exact (ht.done e he).2
  · by_cases hk : t.Holds k
    · exact ht.runs k hk
    · rw [entriesAt_append, ht.entriesAt_done hk, List.append_nil, ht.slot_eq hk]
      exact h.runs k

theorem Tx.Knows.refused (ht : t.Knows C db) (hk : t.Holds sub.coordinate) (hsub : sub.Listed C)
    {status : Status}
    (h : ((t.view db.tables).slot sub.coordinate).replace sub =
      ((t.view db.tables).slot sub.coordinate, status)) :
    (t.finish sub status).Knows C db := by
  refine ⟨ht.todo, ht.writes, fun e he => ?_, fun k hheld => ?_, trivial⟩
  · rcases List.mem_append.1 he with he | he
    · exact ht.done e he
    · cases List.mem_singleton.1 he
      exact ⟨hk, hsub⟩
  · have hruns := ht.runs k hheld
    show Slot.empty.Runs (entriesAt k (db.log ++ (t.done ++ [⟨sub, status⟩])))
      ((t.view db.tables).slot k)
    rw [← List.append_assoc, entriesAt_append]
    by_cases heq : sub.coordinate = k
    · subst heq
      have hsnoc := hruns.snoc sub
      rw [h] at hsnoc
      simpa [entriesAt] using hsnoc
    · rw [show entriesAt k [⟨sub, status⟩] = ([] : List (Entry I)) by simp [entriesAt, heq],
        List.append_nil]
      exact hruns

theorem Tx.Knows.accepted {r : Request I} (ht : t.Knows C db) (hk : t.Holds r.sub.coordinate)
    (hsub : r.sub.Listed C)
    (h : ((t.view db.tables).slot r.sub.coordinate).replace r.sub =
      (((t.view db.tables).slot r.sub.coordinate).writes
        (acceptance ((t.view db.tables).slot r.sub.coordinate).head r.sub), .inserted)) :
    Tx.Knows C db { t.finish r.sub .inserted with
      writes := t.writes ++ acceptance ((t.view db.tables).slot r.sub.coordinate).head r.sub } := by
  refine ⟨ht.todo, fun w hw => ?_, fun e he => ?_, fun k hheld => ?_, trivial⟩
  · rcases List.mem_append.1 hw with hw | hw
    · exact ht.writes w hw
    · refine ⟨?_, hsub.acceptance hw⟩
      rw [acceptance_coordinate hw]
      exact hk
  · rcases List.mem_append.1 he with he | he
    · exact ht.done e he
    · cases List.mem_singleton.1 he
      exact ⟨hk, hsub⟩
  · have hruns := ht.runs k hheld
    have hview : db.tables.writes (t.writes ++
        acceptance ((t.view db.tables).slot r.sub.coordinate).head r.sub) =
        (t.view db.tables).writes
          (acceptance ((t.view db.tables).slot r.sub.coordinate).head r.sub) :=
      Tables.writes_append
    show Slot.empty.Runs (entriesAt k (db.log ++ (t.done ++ [⟨r.sub, .inserted⟩])))
      ((db.tables.writes (t.writes ++ _)).slot k)
    rw [← List.append_assoc, entriesAt_append, hview]
    by_cases heq : r.sub.coordinate = k
    · subst heq
      rw [Tables.slot_writes_of_forall_eq fun w hw => acceptance_coordinate hw]
      have hsnoc := hruns.snoc r.sub
      rw [h] at hsnoc
      simpa [entriesAt] using hsnoc
    · rw [show entriesAt k [⟨r.sub, .inserted⟩] = ([] : List (Entry I)) by simp [entriesAt, heq],
        List.append_nil, Tables.slot_writes_of_forall_ne fun w hw => ?_]
      · exact hruns
      · rw [acceptance_coordinate hw]
        exact heq

theorem Tx.Knows.setStage {stage : Stage I} (ht : t.Knows C db)
    (hstage : stage.Current C t (t.view db.tables)) : Tx.Knows C db { t with stage := stage } :=
  ⟨ht.todo, ht.writes, ht.done, ht.runs, hstage⟩

theorem Tx.Knows.lock (h : db.Sound C) (ht : t.Knows C db) {r : Request I}
    {todo : List (Request I)} (htodo : t.todo = r :: todo) :
    Tx.Knows C db { t with
      locks := eventReplacementLockKey r.sub.coordinate :: t.locks
      todo := todo
      stage := .locked r } := by
  have hmem (r' : Request I) (hr' : r' ∈ r :: todo) : r'.sub.Listed C := ht.todo r' (htodo ▸ hr')
  refine ⟨fun r' hr' => hmem r' (List.mem_cons_of_mem _ hr'), fun w hw => ?_, fun e he => ?_,
    fun k _ => ?_, List.mem_cons_self, hmem r List.mem_cons_self⟩
  · exact ⟨List.mem_cons_of_mem _ (ht.writes w hw).1, (ht.writes w hw).2⟩
  · exact ⟨List.mem_cons_of_mem _ (ht.done e he).1, (ht.done e he).2⟩
  · by_cases hk : t.Holds k
    · exact ht.runs k hk
    · show Slot.empty.Runs (entriesAt k (db.log ++ t.done)) ((t.view db.tables).slot k)
      rw [entriesAt_append, ht.entriesAt_done hk, List.append_nil, ht.slot_eq hk]
      exact h.runs k

theorem Tx.Knows.go {t' : Tx I} (h : db.Sound C) (ht : t.Knows C db)
    (hnext : Tx.next db t = .go t') : t'.Knows C db := by
  have hstage := ht.stage
  unfold Tx.next at hnext
  split at hnext
  · split at hnext
    · cases hnext
    · next r todo htodo =>
      split at hnext
      · cases hnext
        exact ht.lock h htodo
      · cases hnext
        refine ⟨fun r' hr' => ht.todo r' ?_, ht.writes, ht.done, ht.runs, hstage⟩
        rw [htodo]
        exact List.mem_cons_of_mem _ hr'
  · next r heq =>
    rw [heq] at hstage
    cases hnext
    exact ht.setStage ⟨hstage.1, hstage.2, rfl⟩
  · next r existing heq =>
    rw [heq] at hstage
    obtain ⟨hk, hsub, rfl⟩ := hstage
    rw [show (t.view db.tables).watermark r.sub =
      ((t.view db.tables).slot r.sub.coordinate).markFor r.sub from rfl] at hnext
    split at hnext
    · next status hrefusal =>
      cases hnext
      refine ht.refused hk hsub ?_
      rw [Slot.replace, hrefusal]
    · next hrefusal =>
      cases hnext
      exact ht.setStage ⟨hk, hsub, rfl, hrefusal⟩
  · next r existing heq =>
    rw [heq] at hstage
    obtain ⟨hk, hsub, rfl, hrefusal⟩ := hstage
    cases hnext
    exact ht.setStage ⟨hk, hsub, rfl, hrefusal⟩
  · next r pending heq =>
    rw [heq] at hstage
    obtain ⟨hk, hsub, rfl, hrefusal⟩ := hstage
    have hfiled : ∀ row ∈ ((t.view db.tables).writes
        (clearing ((t.view db.tables).slot r.sub.coordinate).head r.sub)).rows, row.Filed C := by
      refine Tables.writes_filed (Tables.writes_filed h.filed fun w hw => (ht.writes w hw).2) ?_
      exact fun w hw => hsub.acceptance (List.mem_append_left _ (List.mem_append_left _ hw))
    rw [Tables.taken_eq hfiled hsub,
      Tables.slot_writes_of_forall_eq fun w hw => clearing_coordinate hw] at hnext
    split at hnext
    · next htaken =>
      cases hnext
      refine ht.refused hk hsub ?_
      rw [Slot.replace, hrefusal]
      exact if_pos htaken
    · next hfree =>
      cases hnext
      refine ht.setStage ⟨hk, hsub, rfl, ?_⟩
      rw [Slot.replace, hrefusal]
      exact if_neg hfree
  · next r pending heq =>
    rw [heq] at hstage
    obtain ⟨hk, hsub, rfl, hreplace⟩ := hstage
    split at hnext
    · cases hnext
      exact ht.setStage trivial
    · cases hnext
      exact ht.accepted hk hsub hreplace

theorem Tx.next_cases (db : Db I) (t : Tx I) : (∃ t', Tx.next db t = .go t') ∨
    Tx.next db t = .commit ⟨t.view db.tables, db.log ++ t.done⟩ := by
  unfold Tx.next
  split
  · split
    · exact .inr rfl
    · split <;> exact .inl ⟨_, rfl⟩
  · exact .inl ⟨_, rfl⟩
  · split <;> exact .inl ⟨_, rfl⟩
  · exact .inl ⟨_, rfl⟩
  · split <;> exact .inl ⟨_, rfl⟩
  · split <;> exact .inl ⟨_, rfl⟩

def CallListed (C : Catalog I) : TxCall (List (Request I)) Empty → Prop
  | .start _ requests => ∀ r ∈ requests, r.sub.Listed C
  | _ => True

instance (C : Catalog I) : (c : TxCall (List (Request I)) Empty) → Decidable (CallListed C c)
  | .start _ requests => inferInstanceAs (Decidable (∀ r ∈ requests, r.sub.Listed C))
  | .advance _ => .isTrue trivial
  | .abort _ => .isTrue trivial
  | .env e => nomatch e

theorem callers_rule (C : Catalog I) :
    (callers I).Rule (CallListed C) (Db.Sound C) (Tx.Knows C) where
  symm t u := by
    rw [Bool.eq_iff_iff]
    simp only [callers, List.any_eq_true, List.contains_iff_mem]
    exact ⟨fun ⟨key, ht, hu⟩ => ⟨key, hu, ht⟩, fun ⟨key, hu, ht⟩ => ⟨key, ht, hu⟩⟩
  start s tid requests t hlisted _ hstart := by
    cases hstart
    refine ⟨⟨hlisted, List.forall_mem_nil _, List.forall_mem_nil _, fun k hk => ?_, trivial⟩,
      fun u => rfl⟩
    cases hk
  go s t t' h ht hnext := ht.go h hnext
  save s t s' t' _ _ hnext := by
    rcases Tx.next_cases s t with ⟨_, hgo⟩ | hcommit
    · cases hgo.symm.trans hnext
    · cases hcommit.symm.trans hnext
  commit s t s' h ht hnext := by
    rcases Tx.next_cases s t with ⟨_, hgo⟩ | hcommit
    · cases hgo.symm.trans hnext
    · cases hcommit.symm.trans hnext
      exact ⟨ht.commit h, fun u hu hclash => hu.others ht hclash⟩
  env s e := nomatch e

theorem Tx.writes_of_go {t' : Tx I} (hnext : Tx.next db t = .go t') :
    t'.writes = t.writes ∨ ∃ sub, t'.done = t.done ++ [⟨sub, .inserted⟩] := by
  unfold Tx.next at hnext
  split at hnext
  · split at hnext
    · cases hnext
    · split at hnext <;> (cases hnext; exact .inl rfl)
  · cases hnext
    exact .inl rfl
  · split at hnext <;> (cases hnext; exact .inl rfl)
  · cases hnext
    exact .inl rfl
  · split at hnext <;> (cases hnext; exact .inl rfl)
  · split at hnext
    · cases hnext
      exact .inl rfl
    · cases hnext
      exact .inr ⟨_, rfl⟩

theorem Db.empty_sound : (Db.empty : Db I).Sound C :=
  ⟨List.forall_mem_nil _, List.forall_mem_nil _, fun _ => .nil⟩

/-- Whatever the transactions and however they interleave: a coordinate has at most one live
row, the newest accepted; each accepted write is newer than those before it; of unconditional
writes the newest stands in the end; a revision is replaced once; and the other answers write
nothing. -/
theorem run_register (C : Catalog I) (calls : List (TxCall (List (Request I)) Empty))
    (hcalls : ∀ c ∈ calls, CallListed C c) (k : Coordinate) :
    let db := (runFrom (callers I).step (TxSystem.idle Db.empty) calls).store
    let log := entriesAt k db.log
    ((db.tables.slot k).rows.filter Row.live).length ≤ 1 ∧
      (db.tables.slot k).head = (accepted log).getLast? ∧
      (accepted log).Pairwise (fun a b => b.Newer a) ∧
      ((∀ e ∈ log, e.sub.precondition = .unconditional) →
        ∀ e ∈ log, ∃ x ∈ (db.tables.slot k).head, x.Covers e.sub.stamp) ∧
      (∀ r, (winners log r).length ≤ 1) ∧
      db.tables.slot k =
        (log.filter Entry.isInserted).foldl (fun s e => (s.replace e.sub).1) Slot.empty ∧
      ∀ t t' : Tx I, Tx.next db t = .go t' →
        t'.writes = t.writes ∨ ∃ sub, t'.done = t.done ++ [⟨sub, .inserted⟩] := by
  intro db log
  have h := ((callers_rule C).run hcalls (TxSystem.holds_idle Db.empty_sound)).store
  have hdated : Dated C.createdAt log := fun e he => (h.listed e (List.mem_filter.1 he).1).createdAt
  have hruns := h.runs k
  have htops := hruns.tops hdated
  have hlive : ((db.tables.slot k).rows.filter Row.live).length ≤ 1 := by
    have hlength := congrArg List.length htops.live
    rw [List.length_map] at hlength
    rw [hlength]
    cases (accepted log).getLast? <;> simp
  refine ⟨hlive, htops.head_eq, hruns.accepted_increases hdated, fun hall => ?_,
    fun r => (hruns.past_winners hdated r).1, hruns.eq_foldl, fun t t' => Tx.writes_of_go⟩
  rw [htops.head_eq]
  exact hruns.covers_all hdated hall

def noteAt (id : Nat) (createdAt : UInt64) (precondition : Precondition Nat) : Request Nat :=
  ⟨⟨[1], ⟨id, [2], createdAt, 30023, [["d", "note"]]⟩, "note", precondition⟩, false⟩

def noteCatalog : Catalog Nat where
  createdAt id := if id = 7 then 100 else 200
  kind _ := 30023
  pubkey _ := [2]
  dTag _ := "note"

def revisionRace : List (TxCall (List (Request Nat)) Empty) :=
  [.start 1 [noteAt 7 100 .createOnly]] ++ List.replicate 7 (.advance 1) ++
    [.start 2 [noteAt 9 200 (.expectedRevision 7)], .start 3 [noteAt 8 200 (.expectedRevision 7)],
      .advance 2, .advance 3] ++ List.replicate 6 (.advance 2) ++ List.replicate 4 (.advance 3)

def note : Coordinate := ⟨[1], 30023, [2], "note"⟩

theorem run_register_race :
    (entriesAt note (runFrom (callers Nat).step (TxSystem.idle Db.empty) revisionRace).store.log).map
        Entry.status = [.inserted, .inserted, .revisionMismatch] ∧
      ((runFrom (callers Nat).step (TxSystem.idle Db.empty) revisionRace).store.tables.slot
        note).head = some ⟨200, 9⟩ ∧
      ∀ r, (winners (entriesAt note
        (runFrom (callers Nat).step (TxSystem.idle Db.empty) revisionRace).store.log) r).length ≤ 1 :=
  ⟨by decide +kernel, by decide +kernel,
    (run_register noteCatalog revisionRace (by decide +kernel) note).2.2.2.2.1⟩

end Colony.Replaceable
