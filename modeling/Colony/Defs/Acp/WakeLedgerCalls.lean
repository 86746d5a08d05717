import Colony.Defs.Acp.WakeLedgerLaws

namespace Colony.Acp

open Colony.Data Colony.Core

namespace WakeLedger

variable {p : Published} {l l' l'' : WakeLedger}

section Sync

variable (l) (disk : Option LedgerFile) (pending : List HandledEvent) (now : Nat) (ok : Bool)

theorem writeSnapshot_eq :
    ∃ w r, (l.writeSnapshot disk pending now ok).ledger = { l with written := w, retryAt := r } := by
  unfold writeSnapshot
  dsimp only
  split
  · exact ⟨_, _, rfl⟩
  · split
    · exact ⟨_, _, rfl⟩
    · exact ⟨_, _, rfl⟩

theorem sync_eq :
    ∃ w r, (l.sync disk pending now ok).ledger = { l with written := w, retryAt := r } := by
  unfold sync
  split
  · exact ⟨_, _, rfl⟩
  · exact writeSnapshot_eq l disk pending now ok

variable (hw : ∀ f, l.written = some f → disk = some f)
include hw

theorem writeSnapshot_disk :
    ((l.writeSnapshot disk pending now ok).disk =
      if (l.writeSnapshot disk pending now ok).outcome.isSaved then some (l.snapshot pending now)
      else disk) ∧
    ∀ f, (l.writeSnapshot disk pending now ok).ledger.written = some f →
      (l.writeSnapshot disk pending now ok).disk = some f := by
  unfold writeSnapshot
  dsimp only
  split
  · next hsame => exact ⟨hw _ hsame, hw⟩
  · split
    · exact ⟨rfl, fun f hf => hf⟩
    · exact ⟨rfl, hw⟩

theorem sync_disk :
    ((l.sync disk pending now ok).disk =
      if (l.sync disk pending now ok).outcome.isSaved then some (l.snapshot pending now)
      else disk) ∧
    ∀ f, (l.sync disk pending now ok).ledger.written = some f →
      (l.sync disk pending now ok).disk = some f := by
  unfold sync
  split
  · exact ⟨rfl, hw⟩
  · exact writeSnapshot_disk l disk pending now ok hw

end Sync

theorem Sound.with_written (h : l.Sound p) {w : Option LedgerFile} {r : Option Nat} :
    Sound p { l with written := w, retryAt := r } :=
  ⟨h.ids, h.times, h.nodup, h.inFlight, h.released, h.abandoned⟩

def Track.restarts (t : Track) : Nat := (t.carried <|> t.inFlight.map (·.restarts)).getD 0

def Track.start (t : Track) (x : HandledEvent) (now : Nat) : Track :=
  ⟨some ⟨x.id, x.createdAt, t.restarts, now⟩, none, t.released⟩

theorem Track.start_start (t : Track) (x : HandledEvent) (now : Nat) :
    (t.start x now).start x now = t.start x now := rfl

section Commit

theorem handled_commitOne (acc : WakeLedger × List Undo) (now : Nat) (x : HandledEvent) :
    (commitOne now acc x).1.handled = (acc.1.remember x).handled ∧
      (commitOne now acc x).1.handledIds = (acc.1.remember x).handledIds := by
  unfold commitOne
  dsimp only
  split <;> exact ⟨rfl, rfl⟩

variable (now : Nat)

theorem commitOne_eq (acc : WakeLedger × List Undo) (x : HandledEvent) :
    ∃ hs ids cs fl fs ks, (commitOne now acc x).1 =
      { acc.1 with
        handled := hs, handledIds := ids, committed := cs, evictedFloor := fl, inFlight := fs,
        carried := ks } := by
  obtain ⟨hs, ids, cs, fl, hrem⟩ := remember_eq acc.1 x
  unfold commitOne
  dsimp only
  split
  · exact ⟨hs, ids, cs, fl, _, _, by rw [hrem]⟩
  · exact ⟨hs, ids, _, fl, _, _, by rw [hrem]⟩

variable {acc : WakeLedger × List Undo} (h : acc.1.Sound p) (id : EventId)
include h

theorem mem_committed_remember :
    id ∈ (acc.1.remember (p.event id)).committed ↔ id ∈ acc.1.committed := by
  by_cases hin : id ∈ acc.1.handledIds
  · rw [remember_of_mem hin]
  · obtain ⟨gone, _, _, hids, hcommitted, -, -⟩ := remember_new h id hin
    have hgone := ((hids id).1 (mem_remember_self h id)).2
    rw [hcommitted]
    exact and_iff_left hgone

theorem commitOne_of_committed (hc : id ∈ acc.1.committed) :
    commitOne now acc (p.event id) = (acc.1.remember (p.event id), acc.2) := by
  unfold commitOne
  exact if_pos ((mem_committed_remember h id).2 hc)

theorem commitOne_sound :
    (commitOne now acc (p.event id)).1.Sound p ∧
      Fades p acc.1 (commitOne now acc (p.event id)).1 [id] [id] := by
  have hrem := h.remember id
  have hfades := fades_remember h id
  by_cases hc : id ∈ acc.1.committed
  · rw [commitOne_of_committed now h id hc]
    refine ⟨hrem, hfades.floor, hfades.known, hfades.kept, fun k hk => ?_, fun k hk => ?_⟩
    · exact .inl (by simpa using hfades.committed k hk)
    · refine hfades.lost k (.inl ?_)
      rcases hk with hk | hk
      · exact hk
      · rwa [List.mem_singleton.1 hk]
  · have hnot : ¬(p.event id).id ∈ (acc.1.remember (p.event id)).committed :=
      fun hin => hc ((mem_committed_remember h id).1 hin)
    unfold commitOne
    dsimp only
    rw [if_neg hnot]
    refine ⟨⟨hrem.ids, hrem.times, hrem.nodup, ?_, hrem.released, hrem.abandoned⟩,
      hfades.floor, hfades.known, hfades.kept, ?_, ?_⟩
    · intro k x hx
      simp only [Dict.lookup_insert_if] at hx
      split at hx
      · next heq =>
        cases hx
        subst heq
        exact ⟨rfl, rfl⟩
      · exact hrem.inFlight k x hx
    · intro k hk
      rw [List.mem_singleton]
      rcases Finset.mem_insert.1 hk with rfl | hk
      · exact .inr rfl
      · exact .inl (by simpa using hfades.committed k hk)
    · intro k hk
      rw [List.mem_singleton] at hk
      rcases hk with hk | rfl
      · exact (hfades.lost k (.inl hk)).imp_left Finset.mem_insert_of_mem
      · exact .inl (Finset.mem_insert_self _ _)

theorem track_commitOne_of_ne {k : EventId} (hne : k ≠ id) :
    (commitOne now acc (p.event id)).1.track k = acc.1.track k := by
  by_cases hc : id ∈ acc.1.committed
  · rw [commitOne_of_committed now h id hc, track_remember]
  · have hnot : ¬(p.event id).id ∈ (acc.1.remember (p.event id)).committed :=
      fun hin => hc ((mem_committed_remember h id).1 hin)
    have hrem := track_remember acc.1 (p.event id) k
    unfold commitOne
    dsimp only
    rw [if_neg hnot, ← hrem]
    simp only [track, Dict.lookup_insert_if, Dict.lookup_erase_if]
    rw [if_neg (show k ≠ (p.event id).id from hne), if_neg (show k ≠ (p.event id).id from hne)]

theorem commitOne_new (hc : id ∉ acc.1.committed) :
    (commitOne now acc (p.event id)).1.track id = (acc.1.track id).start (p.event id) now ∧
      (commitOne now acc (p.event id)).2 =
        acc.2 ++ [(id, (acc.1.track id).inFlight, (acc.1.track id).carried)] := by
  have hnot : ¬(p.event id).id ∈ (acc.1.remember (p.event id)).committed :=
    fun hin => hc ((mem_committed_remember h id).1 hin)
  have hrem := track_remember acc.1 (p.event id) id
  unfold commitOne
  dsimp only
  rw [if_neg hnot, ← hrem]
  refine ⟨?_, rfl⟩
  simp only [track, Track.start, Track.restarts, Dict.lookup_insert_if, Dict.lookup_erase_if]
  rw [if_pos (show id = (p.event id).id from rfl), if_pos (show id = (p.event id).id from rfl)]
  rfl

end Commit

section CommitAll

variable (now : Nat)

def commitAll (p : Published) (now : Nat) (acc : WakeLedger × List Undo) (ids : List EventId) :
    WakeLedger × List Undo :=
  (ids.map p.event).foldl (commitOne now) acc

theorem commitAll_cons (acc : WakeLedger × List Undo) (id : EventId) (ids : List EventId) :
    commitAll p now acc (id :: ids) = commitAll p now (commitOne now acc (p.event id)) ids := rfl

theorem foldl_commitOne_eq (acc : WakeLedger × List Undo) (events : List HandledEvent) :
    ∃ hs is cs fl fs ks, (events.foldl (commitOne now) acc).1 =
      { acc.1 with
        handled := hs, handledIds := is, committed := cs, evictedFloor := fl, inFlight := fs,
        carried := ks } := by
  induction events generalizing acc with
  | nil => exact ⟨_, _, _, _, _, _, rfl⟩
  | cons x events ih =>
    obtain ⟨hs, is, cs, fl, fs, ks, heq⟩ := ih (commitOne now acc x)
    obtain ⟨_, _, _, _, _, _, hone⟩ := commitOne_eq now acc x
    exact ⟨hs, is, cs, fl, fs, ks, by rw [List.foldl_cons, heq, hone]⟩

theorem commitAll_eq (acc : WakeLedger × List Undo) (ids : List EventId) :
    ∃ hs is cs fl fs ks, (commitAll p now acc ids).1 =
      { acc.1 with
        handled := hs, handledIds := is, committed := cs, evictedFloor := fl, inFlight := fs,
        carried := ks } :=
  foldl_commitOne_eq now acc (ids.map p.event)

theorem commitAll_sound (acc : WakeLedger × List Undo) (h : acc.1.Sound p) (ids : List EventId) :
    (commitAll p now acc ids).1.Sound p ∧ Fades p acc.1 (commitAll p now acc ids).1 ids ids := by
  induction ids generalizing acc with
  | nil => exact ⟨h, .refl _⟩
  | cons id ids ih =>
    obtain ⟨hsound, hfades⟩ := commitOne_sound now h id
    obtain ⟨hsound', hfades'⟩ := ih _ hsound
    exact ⟨hsound', hfades.trans hfades'⟩

theorem commitAll_other (acc : WakeLedger × List Undo) (h : acc.1.Sound p) {ids : List EventId}
    {e : EventId} (he : e ∉ ids) :
    (commitAll p now acc ids).1.track e = acc.1.track e ∧
      ∀ u : Undo, u.1 = e → (u ∈ (commitAll p now acc ids).2 ↔ u ∈ acc.2) := by
  induction ids generalizing acc with
  | nil => exact ⟨rfl, fun _ _ => Iff.rfl⟩
  | cons id ids ih =>
    obtain ⟨hne, he⟩ := List.ne_and_not_mem_of_not_mem_cons he
    obtain ⟨htrack, hundo⟩ := ih _ (commitOne_sound now h id).1 he
    refine ⟨htrack.trans (track_commitOne_of_ne now h id hne), fun u hu => (hundo u hu).trans ?_⟩
    by_cases hc : id ∈ acc.1.committed
    · rw [commitOne_of_committed now h id hc]
    · rw [(commitOne_new now h id hc).2, List.mem_append, List.mem_singleton]
      refine or_iff_left fun heq => hne ?_
      rw [← hu, heq]

theorem commitAll_track (acc : WakeLedger × List Undo) (h : acc.1.Sound p) {ids : List EventId}
    {e : EventId} (he : e ∈ ids) :
    (e ∈ acc.1.committed ∧ (commitAll p now acc ids).1.track e = acc.1.track e) ∨
    ((e ∉ acc.1.committed ∨ (commitAll p now acc ids).1.Sealed p e) ∧
      (commitAll p now acc ids).1.track e = (acc.1.track e).start (p.event e) now) := by
  induction ids generalizing acc with
  | nil => cases he
  | cons id ids ih =>
    have hone := commitOne_sound now h id
    have hfloor := (commitAll_sound now _ hone.1 ids).2.floor
    have hlost : e ∈ acc.1.committed → e ∈ (commitOne now acc (p.event id)).1.committed ∨
        (commitAll p now acc (id :: ids)).1.Sealed p e := fun hc =>
      (hone.2.lost e (.inl hc)).imp_right (Sealed.mono · hfloor)
    rw [commitAll_cons] at hlost ⊢
    have hrest : (commitAll p now (commitOne now acc (p.event id)) ids).1.track e =
          (commitOne now acc (p.event id)).1.track e ∧
          (e ∈ ids → e ∈ (commitOne now acc (p.event id)).1.committed) ∨
        (e ∉ (commitOne now acc (p.event id)).1.committed ∨
          (commitAll p now (commitOne now acc (p.event id)) ids).1.Sealed p e) ∧
          (commitAll p now (commitOne now acc (p.event id)) ids).1.track e =
            ((commitOne now acc (p.event id)).1.track e).start (p.event e) now := by
      by_cases hin : e ∈ ids
      · exact (ih _ hone.1 hin).imp_left fun ⟨hc, htrack⟩ => ⟨htrack, fun _ => hc⟩
      · exact .inl ⟨(commitAll_other now _ hone.1 hin).1, fun hin' => absurd hin' hin⟩
    by_cases hc : e ∈ acc.1.committed
    · have hsame : (commitOne now acc (p.event id)).1.track e = acc.1.track e := by
        by_cases heq : e = id
        · rw [← heq, commitOne_of_committed now h e hc, track_remember]
        · exact track_commitOne_of_ne now h id heq
      rw [hsame] at hrest
      rcases hrest with ⟨htrack, -⟩ | ⟨hgone, htrack⟩
      · exact .inl ⟨hc, htrack⟩
      · exact .inr ⟨.inr (hgone.elim (fun hn => (hlost hc).resolve_left hn) fun hs => hs), htrack⟩
    · refine .inr ⟨.inl hc, ?_⟩
      by_cases heq : e = id
      · subst heq
        rw [(commitOne_new now h e hc).1, Track.start_start] at hrest
        exact hrest.elim And.left And.right
      · rw [track_commitOne_of_ne now h id heq] at hrest
        have hin : e ∈ ids := (List.mem_cons.1 he).resolve_left heq
        refine (hrest.resolve_left fun hkept => hc ?_).2
        exact (hone.2.committed e (hkept.2 hin)).resolve_right (by simpa using heq)

theorem commitAll_undo (acc : WakeLedger × List Undo) (h : acc.1.Sound p) (ids : List EventId) :
    (∀ u ∈ acc.2, u ∈ (commitAll p now acc ids).2) ∧
    (∀ e ∈ (commitAll p now acc ids).1.committed,
      e ∈ acc.1.committed ∨ ∃ u ∈ (commitAll p now acc ids).2, u.1 = e) ∧
    ∀ u ∈ (commitAll p now acc ids).2, u ∈ acc.2 ∨
      ((u.1 ∉ acc.1.committed ∨ (commitAll p now acc ids).1.Sealed p u.1) ∧
        ∀ x, u.2.1 = some x → x.id = u.1 ∧ x.createdAt = p.createdAt u.1) := by
  induction ids generalizing acc with
  | nil => exact ⟨fun _ hu => hu, fun _ he => .inl he, fun _ hu => .inl hu⟩
  | cons id ids ih =>
    have hone := commitOne_sound now h id
    have hfloor := (commitAll_sound now _ hone.1 ids).2.floor
    obtain ⟨hkept, hcommitted, hundo⟩ := ih _ hone.1
    rw [commitAll_cons]
    have hnew : (id ∈ acc.1.committed ∧ (commitOne now acc (p.event id)).2 = acc.2) ∨
        (id ∉ acc.1.committed ∧ (commitOne now acc (p.event id)).2 =
          acc.2 ++ [(id, (acc.1.track id).inFlight, (acc.1.track id).carried)]) := by
      by_cases hc : id ∈ acc.1.committed
      · exact .inl ⟨hc, by rw [commitOne_of_committed now h id hc]⟩
      · exact .inr ⟨hc, (commitOne_new now h id hc).2⟩
    refine ⟨fun u hu => hkept u ?_, fun e he => ?_, fun u hu => ?_⟩
    · rcases hnew with ⟨-, heq⟩ | ⟨-, heq⟩
      · rwa [heq]
      · exact heq ▸ List.mem_append_left _ hu
    · rcases hcommitted e he with he | he
      · rcases hone.2.committed e he with he | he
        · exact .inl he
        · rw [List.mem_singleton.1 he]
          rcases hnew with ⟨hc, -⟩ | ⟨-, heq⟩
          · exact .inl hc
          · exact .inr ⟨_, hkept _ (heq ▸ List.mem_append_right _ (List.mem_singleton_self _)), rfl⟩
      · exact .inr he
    · rcases hundo u hu with hu | ⟨hgone, hvalid⟩
      · rcases hnew with ⟨-, heq⟩ | ⟨hc, heq⟩
        · exact .inl (heq ▸ hu)
        · rw [heq, List.mem_append, List.mem_singleton] at hu
          refine hu.imp_right fun hself => ?_
          subst hself
          exact ⟨.inl hc, fun x hx => h.inFlight id x hx⟩
      · refine .inr ⟨?_, hvalid⟩
        by_cases hc : u.1 ∈ acc.1.committed
        · refine .inr (hgone.elim (fun hn => ?_) fun hs => hs)
          exact ((hone.2.lost u.1 (.inl hc)).resolve_left hn).mono hfloor
        · exact .inl hc

theorem commitAll_self (acc : WakeLedger × List Undo) (h : acc.1.Sound p) {ids : List EventId}
    (hnodup : ids.Nodup) {e : EventId} (he : e ∈ ids) (hfresh : ∀ u ∈ acc.2, u.1 ≠ e) :
    (e ∈ acc.1.committed ∧ (commitAll p now acc ids).1.track e = acc.1.track e ∧
      ∀ u ∈ (commitAll p now acc ids).2, u.1 ≠ e) ∨
    ((e ∉ acc.1.committed ∨ (commitAll p now acc ids).1.Sealed p e) ∧
      (commitAll p now acc ids).1.track e = (acc.1.track e).start (p.event e) now ∧
      ∀ u : Undo, u.1 = e → (u ∈ (commitAll p now acc ids).2 ↔
        u = (e, (acc.1.track e).inFlight, (acc.1.track e).carried))) := by
  induction ids generalizing acc with
  | nil => cases he
  | cons id ids ih =>
    obtain ⟨hid, hnodup⟩ := List.nodup_cons.1 hnodup
    have hone := commitOne_sound now h id
    have hrest := (commitAll_sound now _ hone.1 ids).2
    rw [commitAll_cons]
    by_cases heq : e = id
    · subst heq
      obtain ⟨htrack, hundo⟩ := commitAll_other now _ hone.1 hid
      by_cases hc : e ∈ acc.1.committed
      · rw [commitOne_of_committed now h e hc] at htrack hundo ⊢
        rw [track_remember] at htrack
        exact .inl ⟨hc, htrack, fun u hu heq => hfresh u ((hundo u heq).1 hu) heq⟩
      · obtain ⟨hstart, hlist⟩ := commitOne_new now h e hc
        refine .inr ⟨.inl hc, htrack.trans hstart, fun u hu => ?_⟩
        rw [hundo u hu, hlist, List.mem_append, List.mem_singleton]
        exact or_iff_right fun hin => hfresh u hin hu
    · have he : e ∈ ids := (List.mem_cons.1 he).resolve_left heq
      have htrack := track_commitOne_of_ne now h id heq
      have hfresh' : ∀ u ∈ (commitOne now acc (p.event id)).2, u.1 ≠ e := by
        intro u hu hue
        have hskip := (commitAll_other now acc h (show e ∉ [id] by simpa using heq)).2 u hue
        exact hfresh u (hskip.1 hu) hue
      rw [← htrack]
      rcases ih _ hone.1 hnodup he hfresh' with ⟨hc, hrest'⟩ | ⟨hc, hrest'⟩
      · refine .inl ⟨?_, hrest'⟩
        exact (hone.2.committed e hc).resolve_right (by simpa using heq)
      · refine .inr ⟨?_, hrest'⟩
        rcases hc with hc | hsealed
        · by_cases hin : e ∈ acc.1.committed
          · exact .inr (((hone.2.lost e (.inl hin)).resolve_left hc).mono hrest.floor)
          · exact .inl hin
        · exact .inr hsealed

/-- The ids that leave a list of known ids while `ids` are remembered one after another. -/
def pushedOut : List EventId → List EventId → List EventId
  | _, [] => []
  | known, id :: ids =>
    if id ∈ known then pushedOut known ids
    else
      let grown := known ++ [id]
      let excess := grown.length - MAX_HANDLED
      grown.take excess ++ pushedOut (grown.drop excess) ids

theorem Sound.mem_ids (h : l.Sound p) (e : EventId) :
    e ∈ l.handledIds ↔ e ∈ l.handled.map (·.id) := by
  rw [h.ids, mem_map_id h.times]

theorem mem_commitAll_or_pushedOut (acc : WakeLedger × List Undo) (h : acc.1.Sound p)
    (ids : List EventId) {e : EventId} (he : e ∈ acc.1.handled.map (·.id)) :
    e ∈ (commitAll p now acc ids).1.handled.map (·.id) ∨
      e ∈ pushedOut (acc.1.handled.map (·.id)) ids := by
  induction ids generalizing acc with
  | nil => exact .inl he
  | cons id ids ih =>
    have hsound := (commitOne_sound now h id).1
    have hhandled := (handled_commitOne acc now (p.event id)).1
    rw [commitAll_cons, pushedOut]
    by_cases hin : id ∈ acc.1.handled.map (·.id)
    · rw [remember_of_mem ((h.mem_ids id).2 hin)] at hhandled
      rw [if_pos hin, ← hhandled]
      exact ih _ hsound (hhandled ▸ he)
    · rw [handled_remember (x := p.event id) (mt (h.mem_ids id).1 hin)] at hhandled
      have hids : (commitOne now acc (p.event id)).1.handled.map (·.id) =
          (acc.1.handled.map (·.id) ++ [id]).drop
            ((acc.1.handled.map (·.id) ++ [id]).length - MAX_HANDLED) := by
        rw [hhandled, List.map_drop, List.map_append]
        simp [Published.event]
      rw [if_neg hin]
      have hgrown := List.mem_append_left [id] he
      rw [← List.take_append_drop ((acc.1.handled.map (·.id) ++ [id]).length - MAX_HANDLED)
        (acc.1.handled.map (·.id) ++ [id]), ← hids] at hgrown
      rcases List.mem_append.1 hgrown with hgone | hkept
      · exact .inr (List.mem_append_left _ hgone)
      · refine (ih _ hsound hkept).imp_right fun hlater => List.mem_append_right _ ?_
        rwa [hids] at hlater

theorem uncommit_eq (l : WakeLedger) (us : List Undo) :
    ∃ cs fs ks, us.foldl uncommitOne l =
      { l with committed := cs, inFlight := fs, carried := ks } := by
  induction us generalizing l with
  | nil => exact ⟨_, _, _, rfl⟩
  | cons u us ih =>
    obtain ⟨cs, fs, ks, heq⟩ := ih (uncommitOne l u)
    exact ⟨cs, fs, ks, heq⟩

theorem uncommitOne_of_ne (l : WakeLedger) {u : Undo} {e : EventId} (hne : u.1 ≠ e) :
    (uncommitOne l u).track e = l.track e ∧
      (e ∈ (uncommitOne l u).committed ↔ e ∈ l.committed) := by
  obtain ⟨id, previous, carried⟩ := u
  refine ⟨?_, by simp [uncommitOne, Ne.symm hne]⟩
  cases previous <;> cases carried <;>
    simp [uncommitOne, track, Ne.symm hne]

theorem mem_committed_uncommit (l : WakeLedger) (us : List Undo) (e : EventId) :
    e ∈ (us.foldl uncommitOne l).committed ↔ e ∈ l.committed ∧ ∀ u ∈ us, u.1 ≠ e := by
  induction us generalizing l with
  | nil => simp
  | cons u us ih =>
    rw [List.foldl_cons, ih, List.forall_mem_cons, ← and_assoc]
    refine and_congr_left fun _ => ?_
    rw [uncommitOne, Finset.mem_erase, and_comm, ne_comm]

theorem inFlight_uncommit (l : WakeLedger) (us : List Undo) {e : EventId} {x : InFlightEvent}
    (hx : (us.foldl uncommitOne l).inFlight.lookup e = some x) :
    l.inFlight.lookup e = some x ∨ ∃ u ∈ us, u.1 = e ∧ u.2.1 = some x := by
  induction us generalizing l with
  | nil => exact .inl hx
  | cons u us ih =>
    rcases ih _ hx with hx | ⟨v, hv, hid, hprevious⟩
    · by_cases hue : u.1 = e
      · cases hprevious : u.2.1 with
        | none =>
          simp [uncommitOne, hprevious, hue] at hx
        | some y =>
          simp only [uncommitOne, hprevious, hue, Dict.lookup_insert_if, if_true] at hx
          exact .inr ⟨u, List.mem_cons_self, hue, hprevious.trans hx⟩
      · have htrack := (uncommitOne_of_ne l hue).1
        exact .inl ((congrArg Track.inFlight htrack).symm.trans hx)
    · exact .inr ⟨v, List.mem_cons_of_mem _ hv, hid, hprevious⟩

theorem track_uncommit_of_notMem (l : WakeLedger) (us : List Undo) (e : EventId)
    (hu : ∀ u ∈ us, u.1 ≠ e) : (us.foldl uncommitOne l).track e = l.track e := by
  induction us generalizing l with
  | nil => rfl
  | cons u us ih =>
    exact (ih (uncommitOne l u) fun v hv => hu v (List.mem_cons_of_mem _ hv)).trans
      (uncommitOne_of_ne l (hu u List.mem_cons_self)).1

theorem track_uncommit_self (l : WakeLedger) {us : List Undo} {e : EventId} {t : Track}
    (hu : ∀ u : Undo, u.1 = e → (u ∈ us ↔ u = (e, t.inFlight, t.carried)))
    (hcarried : (l.track e).carried = none ∨ (l.track e).carried = t.carried)
    (hreleased : (l.track e).released = t.released) : (us.foldl uncommitOne l).track e = t := by
  have hmain : ∀ (us : List Undo) (l : WakeLedger),
      (∀ u ∈ us, u.1 = e → u = (e, t.inFlight, t.carried)) →
      ((l.track e).carried = none ∨ (l.track e).carried = t.carried) →
      (l.track e).released = t.released →
      (∃ u ∈ us, u.1 = e) ∨ l.track e = t → (us.foldl uncommitOne l).track e = t := by
    intro us
    induction us with
    | nil => exact fun l _ _ _ hdone => hdone.resolve_left (by simp)
    | cons u us ih =>
      intro l hus hcarried hreleased hdone
      have hus' := fun v hv => hus v (List.mem_cons_of_mem u hv)
      rw [List.foldl_cons]
      by_cases hue : u.1 = e
      · have hrestored : (uncommitOne l u).track e = t := by
          rw [hus u List.mem_cons_self hue]
          obtain ⟨previous, carried, released⟩ := t
          simp only [track] at hcarried hreleased
          cases previous <;> cases carried <;>
            simp_all [uncommitOne, track]
        exact ih _ hus' (.inr (by rw [hrestored])) (by rw [hrestored]) (.inr hrestored)
      · have htrack := (uncommitOne_of_ne l hue).1
        refine ih _ hus' (by rwa [htrack]) (by rwa [htrack]) ?_
        rw [htrack]
        refine hdone.imp_left fun hex => ?_
        obtain ⟨v, hv, hve⟩ := hex
        exact ⟨v, (List.mem_cons.1 hv).resolve_left fun heq => hue (heq ▸ hve), hve⟩
  refine hmain us l (fun u hin hue => (hu u hue).1 hin) hcarried hreleased (.inl ?_)
  exact ⟨_, (hu (e, t.inFlight, t.carried) rfl).2 rfl, rfl⟩

end CommitAll

/-- What a call does to one event: `new` says it was remembered, `added` that it was committed, and
`t` is what the tables of unfinished work hold for it afterwards. -/
structure Moved (p : Published) (l l' : WakeLedger) (e : EventId) (new added : Prop) (t : Track) :
    Prop where
  floor : l.evictedFloor ≤ l'.evictedFloor
  since : l'.catchUpSince = l.catchUpSince ∨
    ∃ since, l'.catchUpSince = some since ∧ l'.evictedFloor ≤ since
  known : e ∈ l'.handledIds → e ∈ l.handledIds ∨ new
  kept : e ∈ l.handledIds ∨ new → e ∈ l'.handledIds ∨ l'.Sealed p e
  committed : e ∈ l'.committed → e ∈ l.committed ∨ added
  lost : e ∈ l.committed ∨ added → e ∈ l'.committed ∨ l'.Sealed p e
  track : l'.track e = t
  abandoned : p.event e ∈ l'.abandoned ↔ p.event e ∈ l.abandoned

theorem Fades.moved {new added : List EventId} (h : Fades p l l' new added)
    (hsince : l'.catchUpSince = l.catchUpSince) (habandoned : l'.abandoned = l.abandoned)
    (e : EventId) : Moved p l l' e (e ∈ new) (e ∈ added) (l'.track e) :=
  ⟨h.floor, .inl hsince, h.known e, h.kept e, h.committed e, h.lost e, rfl, by rw [habandoned]⟩

theorem Moved.of_same {e : EventId} (hfloor : l'.evictedFloor = l.evictedFloor)
    (hsince : l'.catchUpSince = l.catchUpSince ∨
      ∃ since, l'.catchUpSince = some since ∧ l'.evictedFloor ≤ since)
    (hids : e ∈ l'.handledIds ↔ e ∈ l.handledIds) (hcommitted : e ∈ l'.committed ↔ e ∈ l.committed)
    (habandoned : p.event e ∈ l'.abandoned ↔ p.event e ∈ l.abandoned) :
    Moved p l l' e False False (l'.track e) := by
  refine ⟨hfloor.ge, hsince, fun hk => .inl (hids.1 hk), fun hk => .inl (hids.2 ?_),
    fun hc => .inl (hcommitted.1 hc), fun hc => .inl (hcommitted.2 ?_), rfl, habandoned⟩
  · exact hk.resolve_right id
  · exact hc.resolve_right id

section Calls

variable (h : l.Sound p) (disk : Option LedgerFile) (pending : List HandledEvent) (now : Nat)
  (ok : Bool)

theorem commit_outcome (events : List HandledEvent) :
    (l.commit disk events pending now ok).outcome =
      ((events.foldl (commitOne now) (l, [])).1.sync disk pending now ok).outcome := by
  unfold commit
  dsimp only
  split <;> rfl

theorem commit_disk (events : List HandledEvent) :
    (l.commit disk events pending now ok).disk =
      ((events.foldl (commitOne now) (l, [])).1.sync disk pending now ok).disk := by
  unfold commit
  dsimp only
  split <;> rfl

theorem commit_of_saved {ids : List EventId}
    (hs : (l.commit disk (ids.map p.event) pending now ok).outcome.isSaved = true) :
    l.commit disk (ids.map p.event) pending now ok =
      (commitAll p now (l, []) ids).1.sync disk pending now ok := by
  rw [commit_outcome] at hs
  exact if_pos hs

theorem commit_undone {events : List HandledEvent}
    (hs : (l.commit disk events pending now ok).outcome.isSaved = false) :
    (l.commit disk events pending now ok).ledger =
      (events.foldl (commitOne now) (l, [])).2.foldl uncommitOne
        ((events.foldl (commitOne now) (l, [])).1.sync disk pending now ok).ledger := by
  rw [commit_outcome] at hs
  unfold commit
  dsimp only
  rw [if_neg (by rw [hs]; exact Bool.false_ne_true)]

theorem commit_rolledBack {ids : List EventId}
    (hs : (l.commit disk (ids.map p.event) pending now ok).outcome.isSaved = false) :
    ∃ r, (l.commit disk (ids.map p.event) pending now ok).ledger =
      (commitAll p now (l, []) ids).2.foldl uncommitOne
        { (commitAll p now (l, []) ids).1 with
          written := ((commitAll p now (l, []) ids).1.sync disk pending now ok).ledger.written
          retryAt := r } := by
  obtain ⟨w, r, hsync⟩ := sync_eq (commitAll p now (l, []) ids).1 disk pending now ok
  have hsame : ((commitAll p now (l, []) ids).1.sync disk pending now ok).ledger =
      { (commitAll p now (l, []) ids).1 with
        written := ((commitAll p now (l, []) ids).1.sync disk pending now ok).ledger.written
        retryAt := r } := by rw [hsync]
  exact ⟨r, (commit_undone disk pending now ok hs).trans (congrArg
    (fun l' => (commitAll p now (l, []) ids).2.foldl uncommitOne l') hsame)⟩

include h

theorem commit_unsaved (ids : List EventId)
    (hs : (l.commit disk (ids.map p.event) pending now ok).outcome.isSaved = false) :
    (l.commit disk (ids.map p.event) pending now ok).ledger.Sound p ∧
      Fades p l (l.commit disk (ids.map p.event) pending now ok).ledger ids [] ∧
      (∀ e ∉ ids, (l.commit disk (ids.map p.event) pending now ok).ledger.track e = l.track e) ∧
      ∃ hs is cs fl fs ks r, (l.commit disk (ids.map p.event) pending now ok).ledger =
        { l with
          handled := hs, handledIds := is, committed := cs, evictedFloor := fl, inFlight := fs,
          carried := ks, retryAt := r
          written := ((commitAll p now (l, []) ids).1.sync disk pending now ok).ledger.written } := by
  obtain ⟨r, hledger⟩ := commit_rolledBack disk pending now ok hs
  obtain ⟨hsound, hfades⟩ := commitAll_sound now (l, []) h ids
  obtain ⟨-, hadded, hundo⟩ := commitAll_undo now (l, []) h ids
  have hother := fun e (he : e ∉ ids) => commitAll_other now (l, []) h he
  obtain ⟨hs', is, cs, fl, fs, ks, hall⟩ := commitAll_eq (p := p) now (l, []) ids
  rw [hledger]
  generalize ((commitAll p now (l, []) ids).1.sync disk pending now ok).ledger.written = w
  generalize commitAll p now (l, []) ids = done at *
  have hvalid := fun u hu => (hundo u hu).resolve_left List.not_mem_nil
  have hcommitted := mem_committed_uncommit { done.1 with written := w, retryAt := r } done.2
  have hflying := fun e x =>
    inFlight_uncommit (e := e) (x := x) { done.1 with written := w, retryAt := r } done.2
  have htrack := track_uncommit_of_notMem { done.1 with written := w, retryAt := r } done.2
  obtain ⟨cs', fs', ks', hundone⟩ :=
    uncommit_eq { done.1 with written := w, retryAt := r } done.2
  -- Undoing leaves the handled ids alone, so only the tables need comparing.
  rw [hundone] at hcommitted hflying htrack ⊢
  refine ⟨⟨hsound.ids, hsound.times, hsound.nodup, fun e x hx => ?_, hsound.released,
    hsound.abandoned⟩, ⟨hfades.floor, hfades.known, hfades.kept, fun e he => ?_, fun e he => ?_⟩,
    fun e he => ?_, ?_⟩
  · rcases hflying e x hx with hx | ⟨u, hu, rfl, hprevious⟩
    · exact hsound.inFlight e x hx
    · exact (hvalid u hu).2 x hprevious
  · obtain ⟨he, hnone⟩ := (hcommitted e).1 he
    refine .inl ((hadded e he).resolve_right ?_)
    exact fun ⟨u, hu, hue⟩ => hnone u hu hue
  · have hc : e ∈ l.committed := by simpa using he
    by_cases hex : ∃ u ∈ done.2, u.1 = e
    · obtain ⟨u, hu, rfl⟩ := hex
      exact .inr ((hvalid u hu).1.resolve_left fun hn => hn hc)
    · exact (hfades.lost e (.inl hc)).imp_left fun hin =>
        (hcommitted e).2 ⟨hin, fun u hu hue => hex ⟨u, hu, hue⟩⟩
  · exact (htrack e fun u hu hue => List.not_mem_nil (((hother e he).2 u hue).1 hu)).trans
      (hother e he).1
  · rw [hall]
    exact ⟨hs', is, cs', fl, fs', ks', r, rfl⟩

theorem track_commit_unsaved {ids : List EventId} (hnodup : ids.Nodup)
    (hs : (l.commit disk (ids.map p.event) pending now ok).outcome.isSaved = false) (e : EventId) :
    (l.commit disk (ids.map p.event) pending now ok).ledger.track e = l.track e := by
  by_cases he : e ∈ ids
  · obtain ⟨r, hledger⟩ := commit_rolledBack disk pending now ok hs
    rw [hledger]
    rcases commitAll_self now (l, []) h hnodup he (by simp) with
      ⟨-, htrack, hundo⟩ | ⟨-, htrack, hundo⟩
    · exact (track_uncommit_of_notMem _ _ e hundo).trans htrack
    · have hreleased : ((commitAll p now (l, []) ids).1.track e).released =
          (l.track e).released := by rw [htrack]; rfl
      exact track_uncommit_self _ hundo (.inl (congrArg Track.carried htrack)) hreleased
  · exact (commit_unsaved h disk pending now ok ids hs).2.2.1 e he

end Calls

section Admit

variable (now : Nat)

theorem admit_duplicate_iff (l : WakeLedger) (x : HandledEvent) :
    (l.admitEvent x now).1 = .duplicate ↔ x.id ∈ l.handledIds := by
  unfold admitEvent
  dsimp only
  split
  · next hin => exact iff_of_true rfl hin
  · next hin =>
    refine iff_of_false ?_ hin
    dsimp only
    split <;> decide

theorem admit_snd (l : WakeLedger) (x : HandledEvent) :
    ∃ newest, (l.admitEvent x now).2 =
      { l with newestReceived := newest, released := l.released.erase x.id }.remember x := by
  refine ⟨some (l.newestReceived.elim (min x.createdAt now) fun n => max n (min x.createdAt now)), ?_⟩
  unfold admitEvent
  dsimp only
  split
  · next hin => exact (if_pos hin).symm
  · rfl

theorem admit_eq (l : WakeLedger) (x : HandledEvent) :
    ∃ newest rs hs ids cs fl, (l.admitEvent x now).2 =
      { l with
        newestReceived := newest, released := rs, handled := hs, handledIds := ids,
        committed := cs, evictedFloor := fl } := by
  obtain ⟨newest, heq⟩ := admit_snd now l x
  obtain ⟨hs, ids, cs, fl, hrem⟩ := remember_eq
    { l with newestReceived := newest, released := l.released.erase x.id } x
  exact ⟨newest, _, hs, ids, cs, fl, heq.trans hrem⟩

theorem Sound.seen (h : l.Sound p) (newest : Option Nat) (id : EventId) :
    Sound p { l with newestReceived := newest, released := l.released.erase id } := by
  refine ⟨h.ids, h.times, h.nodup, h.inFlight, fun e t ht => ?_, h.abandoned⟩
  rw [Dict.lookup_erase_if] at ht
  split at ht
  · cases ht
  · exact h.released e t ht

theorem admit_kept (h : l.Sound p) (id : EventId) {e : EventId} (he : e ∈ l.handled.map (·.id)) :
    e ∈ (l.admitEvent (p.event id) now).2.handled.map (·.id) ∨
      e ∈ pushedOut (l.handled.map (·.id)) [id] := by
  obtain ⟨newest, heq⟩ := admit_snd now l (p.event id)
  have hkept := mem_commitAll_or_pushedOut now (_, []) (h.seen newest id) [id] he
  rw [heq]
  rwa [show commitAll p now _ [id] = commitOne now _ (p.event id) from rfl,
    (handled_commitOne _ now _).1] at hkept

theorem admit_spec (h : l.Sound p) (id : EventId) :
    (l.admitEvent (p.event id) now).2.Sound p ∧ Fades p l (l.admitEvent (p.event id) now).2 [id] [] ∧
      id ∈ (l.admitEvent (p.event id) now).2.handledIds ∧
      ∀ e, (l.admitEvent (p.event id) now).2.track e =
        if e = id then { l.track e with released := none } else l.track e := by
  obtain ⟨newest, heq⟩ := admit_snd now l (p.event id)
  have hsound := h.seen newest id
  have hfades := fades_remember hsound id
  rw [heq]
  refine ⟨hsound.remember id, ⟨hfades.floor, hfades.known, hfades.kept, hfades.committed,
    hfades.lost⟩, mem_remember_self hsound id, fun e => ?_⟩
  rw [track_remember]
  simp only [track, Dict.lookup_erase_if]
  split
  · next he => rw [if_pos (show e = id from he)]
  · next he => rw [if_neg (show ¬e = id from he)]

end Admit

section Finish

def settles (l : WakeLedger) (turnId : String) (answered : Bool) : List EventId :=
  if answered then (l.turns.find? fun turn => decide (turn.1 = turnId)).elim [] (·.2) else []

def finished (l : WakeLedger) (turnId : String) (answered : Bool) : WakeLedger :=
  { l with
    turns := l.turns.eraseP fun turn => decide (turn.1 = turnId)
    inFlight := (l.settles turnId answered).foldl (fun inFlight id => inFlight.erase id) l.inFlight }

theorem finishTurn_eq (l : WakeLedger) (disk : Option LedgerFile) (turnId : String)
    (answered : Bool) (pending : List HandledEvent) (now : Nat) (ok : Bool) :
    l.finishTurn disk turnId answered pending now ok =
      (l.finished turnId answered).sync disk pending now ok := by
  unfold finishTurn finished settles
  cases hfind : l.turns.find? fun turn => decide (turn.1 = turnId) with
  | none =>
    have hnone := List.find?_eq_none.1 hfind
    rw [List.eraseP_of_forall_not hnone]
    cases answered <;> rfl
  | some turn => cases answered <;> rfl

theorem track_finished (l : WakeLedger) (turnId : String) (answered : Bool) (e : EventId) :
    (l.finished turnId answered).track e =
      if e ∈ l.settles turnId answered then { l.track e with inFlight := none } else l.track e := by
  simp only [finished, track, Dict.lookup_foldl_erase]
  split <;> rfl

theorem Sound.finished (h : l.Sound p) (turnId : String) (answered : Bool) :
    (l.finished turnId answered).Sound p := by
  refine ⟨h.ids, h.times, h.nodup, fun e x hx => ?_, h.released, h.abandoned⟩
  simp only [WakeLedger.finished, Dict.lookup_foldl_erase] at hx
  split at hx
  · cases hx
  · exact h.inFlight e x hx

def settledOne (l : WakeLedger) (id : EventId) : WakeLedger :=
  { l with carried := l.carried.erase id, inFlight := l.inFlight.erase id }

theorem track_settledOne (l : WakeLedger) (id e : EventId) :
    (l.settledOne id).track e =
      if e = id then ⟨none, none, (l.track e).released⟩ else l.track e := by
  simp only [settledOne, track, Dict.lookup_erase_if]
  split <;> rfl

theorem Sound.settledOne (h : l.Sound p) (id : EventId) : (l.settledOne id).Sound p := by
  refine ⟨h.ids, h.times, h.nodup, fun e x hx => ?_, h.released, h.abandoned⟩
  simp only [WakeLedger.settledOne, Dict.lookup_erase_if] at hx
  split at hx
  · cases hx
  · exact h.inFlight e x hx

end Finish

section Reopen

theorem foldl_reopenOne (l : WakeLedger) (es : List (EventId × Nat × Nat)) :
    ∃ hs ids ss rs ks, es.foldl reopenOne l =
        { l with handled := hs, handledIds := ids, stopped := ss, released := rs, carried := ks } ∧
      hs = l.handled.filter (fun x => decide (x.id ∉ es.map (·.1))) ∧
      ∀ id, (id ∈ ids ↔ id ∈ l.handledIds ∧ id ∉ es.map (·.1)) ∧
        (id ∉ es.map (·.1) → rs.lookup id = l.released.lookup id ∧
          ks.lookup id = l.carried.lookup id) ∧
        (id ∈ es.map (·.1) → ∃ t k, (id, t, k) ∈ es ∧ rs.lookup id = some t) := by
  induction es generalizing l with
  | nil => exact ⟨_, _, _, _, _, rfl, by simp, by simp⟩
  | cons x es ih =>
    obtain ⟨hs, ids, ss, rs, ks, heq, hhs, hid⟩ := ih (l.reopenOne x)
    refine ⟨hs, ids, ss, rs, ks, heq, ?_, fun id => ⟨?_, fun hnot => ?_, fun hin => ?_⟩⟩
    · rw [hhs, reopenOne, List.filter_filter]
      refine List.filter_congr fun y _ => ?_
      rw [Bool.eq_iff_iff]
      simp only [Bool.and_eq_true, decide_eq_true_eq, Bool.not_eq_true', decide_eq_false_iff_not,
        List.map_cons, List.mem_cons, not_or]
      exact and_comm
    · rw [(hid id).1, reopenOne, Finset.mem_erase, List.map_cons, List.mem_cons]
      tauto
    · rw [List.map_cons, List.mem_cons, not_or] at hnot
      obtain ⟨hrs, hks⟩ := (hid id).2.1 hnot.2
      rw [hrs, hks]
      simp only [reopenOne, Dict.lookup_insert_if, if_neg hnot.1, and_self]
    · by_cases hrest : id ∈ es.map (·.1)
      · obtain ⟨t, k, hmem, hlook⟩ := (hid id).2.2 hrest
        exact ⟨t, k, List.mem_cons_of_mem _ hmem, hlook⟩
      · have heq : id = x.1 := (List.mem_cons.1 hin).resolve_right hrest
        refine ⟨x.2.1, x.2.2, heq ▸ List.mem_cons_self, ?_⟩
        rw [((hid id).2.1 hrest).1, reopenOne, heq]
        exact AList.lookup_insert _

variable (h : l.Sound p) (floor : Nat)

theorem reopenForRetry_snd (l : WakeLedger) (floor : Nat) :
    ∃ c b, (l.reopenForRetry floor).2 = (l.reopened floor).foldl reopenOne
        { l with
          abandoned := l.abandoned.filter fun entry => !decide (entry.createdAt ≥ floor)
          inFlight := ((l.paused floor).map (·.id)).foldl (fun fs id => fs.erase id) l.inFlight
          catchUpSince := c
          baseline := b } ∧
      (c = l.catchUpSince ∨ ∃ since, c = some since ∧ l.evictedFloor ≤ since) := by
  unfold reopenForRetry
  dsimp only
  rw [List.foldl_map]
  cases ((l.reopened floor).map fun event => event.2.1).min? with
  | none => exact ⟨_, _, rfl, .inl rfl⟩
  | some lowest => exact ⟨_, _, rfl, .inr ⟨_, rfl, le_max_right _ _⟩⟩

include h

theorem mem_paused {e : EventId} :
    e ∈ (l.paused floor).map (·.id) ↔ floor ≤ p.createdAt e ∧ l.inFlight.lookup e ≠ none ∧
      e ∈ l.handledIds ∧ e ∉ l.committed := by
  simp only [paused, List.mem_map, List.mem_filter, Bool.and_eq_true, Bool.not_eq_true',
    decide_eq_true_eq, decide_eq_false_iff_not]
  constructor
  · rintro ⟨_, ⟨⟨⟨id, x⟩, hmem, rfl⟩, ⟨hfloor, hk⟩, hc⟩, rfl⟩
    have hlook := (Dict.mem_lookup_entries _ _ _).2 hmem
    obtain ⟨hid, htime⟩ := h.inFlight id x hlook
    dsimp only at hfloor hk hc ⊢
    rw [hid] at hk hc ⊢
    rw [htime] at hfloor
    exact ⟨hfloor, by rw [hlook]; exact Option.some_ne_none x, hk, hc⟩
  · rintro ⟨hfloor, hf, hk, hc⟩
    obtain ⟨x, hlook⟩ := Option.ne_none_iff_exists'.1 hf
    obtain ⟨rfl, htime⟩ := h.inFlight e x hlook
    exact ⟨x, ⟨⟨⟨x.id, x⟩, (Dict.mem_lookup_entries _ _ _).1 hlook, rfl⟩,
      ⟨htime ▸ hfloor, hk⟩, hc⟩, rfl⟩

theorem mem_reopened {e : EventId} :
    e ∈ (l.reopened floor).map (·.1) ↔ floor ≤ p.createdAt e ∧
      (p.event e ∈ l.abandoned ∨
        (l.inFlight.lookup e ≠ none ∧ e ∈ l.handledIds ∧ e ∉ l.committed)) := by
  have habandoned : e ∈ ((l.abandoned.filter fun entry => decide (entry.createdAt ≥ floor)).map
      fun entry => (entry.id, entry.createdAt, 0)).map (·.1) ↔
      floor ≤ p.createdAt e ∧ p.event e ∈ l.abandoned := by
    simp only [List.map_map, List.mem_map, List.mem_filter, decide_eq_true_eq, Function.comp_apply]
    constructor
    · rintro ⟨x, ⟨hx, hfloor⟩, rfl⟩
      have hevent := h.abandoned x hx
      have htime : x.createdAt = p.createdAt x.id := congrArg HandledEvent.createdAt hevent
      exact ⟨htime ▸ hfloor, hevent ▸ hx⟩
    · exact fun ⟨hfloor, hx⟩ => ⟨p.event e, ⟨hx, hfloor⟩, rfl⟩
  have hpaused : ((l.paused floor).map fun entry =>
      (entry.id, entry.createdAt, min entry.restarts (MAX_REDELIVERIES - 1) + 1)).map (·.1) =
      (l.paused floor).map (·.id) := by
    rw [List.map_map]
    rfl
  rw [reopened, List.map_append, List.mem_append, habandoned, hpaused, mem_paused h]
  tauto

theorem time_reopened {e : EventId} {t k : Nat} (hmem : (e, t, k) ∈ l.reopened floor) :
    t = p.createdAt e := by
  rcases List.mem_append.1 hmem with hmem | hmem
  · obtain ⟨x, hx, heq⟩ := List.mem_map.1 hmem
    cases heq
    exact congrArg HandledEvent.createdAt (h.abandoned x (List.mem_filter.1 hx).1)
  · obtain ⟨x, hx, heq⟩ := List.mem_map.1 hmem
    cases heq
    obtain ⟨⟨id, y⟩, hentry, rfl⟩ := List.mem_map.1 (List.mem_filter.1 hx).1
    obtain ⟨hid, htime⟩ := h.inFlight id y ((Dict.mem_lookup_entries _ _ _).2 hentry)
    dsimp only
    rw [htime, hid]

theorem reopen_spec :
    (l.reopenForRetry floor).2.Sound p ∧
      (∃ hs ids ss rs ks fs as c b, (l.reopenForRetry floor).2 =
        { l with
          handled := hs, handledIds := ids, stopped := ss, released := rs, carried := ks,
          inFlight := fs, abandoned := as, catchUpSince := c, baseline := b } ∧
        (c = l.catchUpSince ∨ ∃ since, c = some since ∧ l.evictedFloor ≤ since)) ∧
      ∀ e, (e ∈ (l.reopenForRetry floor).2.handledIds ↔
          e ∈ l.handledIds ∧ e ∉ (l.reopened floor).map (·.1)) ∧
        (e ∉ (l.reopened floor).map (·.1) →
          (l.reopenForRetry floor).2.track e = l.track e ∧
          (p.event e ∈ (l.reopenForRetry floor).2.abandoned ↔ p.event e ∈ l.abandoned)) ∧
        (e ∈ (l.reopened floor).map (·.1) →
          ((l.reopenForRetry floor).2.track e).released = some (p.createdAt e) ∧
          p.event e ∉ (l.reopenForRetry floor).2.abandoned ∧
          ((l.inFlight.lookup e ≠ none → e ∈ l.handledIds ∧ e ∉ l.committed) →
            ((l.reopenForRetry floor).2.track e).inFlight = none)) := by
  obtain ⟨c, b, heq, hsince⟩ := reopenForRetry_snd l floor
  have htimes := fun e t k => time_reopened h floor (e := e) (t := t) (k := k)
  have hmem := fun e => mem_reopened h floor (e := e)
  have hpaused := fun e => mem_paused h floor (e := e)
  obtain ⟨hs, ids, ss, rs, ks, hfold, hhs, hid⟩ := foldl_reopenOne { l with
    abandoned := l.abandoned.filter fun entry => !decide (entry.createdAt ≥ floor)
    inFlight := ((l.paused floor).map (·.id)).foldl (fun fs id => fs.erase id) l.inFlight
    catchUpSince := c
    baseline := b } (l.reopened floor)
  rw [heq, hfold]
  have habandoned : ∀ e, p.event e ∈ (l.abandoned.filter fun entry =>
      !decide (entry.createdAt ≥ floor)) ↔ p.event e ∈ l.abandoned ∧ ¬floor ≤ p.createdAt e := by
    intro e
    rw [List.mem_filter, Bool.not_eq_true', decide_eq_false_iff_not]
    rfl
  refine ⟨⟨fun e => ?_, fun x hx => ?_, ?_, fun e x hx => ?_, fun e t ht => ?_, fun x hx => ?_⟩,
    ⟨hs, ids, ss, rs, ks, _, _, c, b, rfl, hsince⟩,
    fun e => ⟨(hid e).1, fun hnot => ⟨?_, ?_⟩, fun hin => ⟨?_, ?_, fun hpause => ?_⟩⟩⟩
  · rw [(hid e).1, hhs, List.mem_filter, decide_eq_true_eq]
    exact and_congr_left fun _ => h.ids e
  · rw [hhs] at hx
    exact h.times x (List.mem_filter.1 hx).1
  · dsimp only
    rw [hhs]
    exact h.nodup.filter _
  · dsimp only at hx
    rw [Dict.lookup_foldl_erase] at hx
    split at hx
    · cases hx
    · exact h.inFlight e x hx
  · dsimp only at ht
    by_cases hin : e ∈ (l.reopened floor).map (·.1)
    · obtain ⟨t', k, hmem', hlook⟩ := (hid e).2.2 hin
      rw [hlook] at ht
      cases ht
      exact htimes e t k hmem'
    · rw [((hid e).2.1 hin).1] at ht
      exact h.released e t ht
  · exact h.abandoned x (List.mem_filter.1 hx).1
  · obtain ⟨hrs, hks⟩ := (hid e).2.1 hnot
    have hnp : e ∉ (l.paused floor).map (·.id) := fun hp =>
      hnot ((hmem e).2 ⟨((hpaused e).1 hp).1, .inr ((hpaused e).1 hp).2⟩)
    simp only [track, hrs, hks, Dict.lookup_foldl_erase, if_neg hnp]
  · rw [habandoned]
    exact and_iff_left_of_imp fun hab hfloor => hnot ((hmem e).2 ⟨hfloor, .inl hab⟩)
  · obtain ⟨t, k, hmem', hlook⟩ := (hid e).2.2 hin
    rw [← htimes e t k hmem']
    exact hlook
  · rw [habandoned]
    exact fun hab => hab.2 ((hmem e).1 hin).1
  · simp only [track, Dict.lookup_foldl_erase]
    by_cases hf : l.inFlight.lookup e = none
    · rw [hf, ite_self]
    · exact if_pos ((hpaused e).2 ⟨((hmem e).1 hin).1, hf, hpause hf⟩)

end Reopen

section Forget

theorem foldl_forgetOne (l : WakeLedger) (es : List HandledEvent)
    (hes : ∀ x ∈ es, x = p.event x.id) :
    ∃ ids cs fs rs, es.foldl forgetOne l =
        { l with handledIds := ids, committed := cs, inFlight := fs, released := rs } ∧
      ∀ e, (e ∈ ids ↔ e ∈ l.handledIds ∧ p.event e ∉ es) ∧
        (e ∈ cs ↔ e ∈ l.committed ∧ p.event e ∉ es) ∧
        fs.lookup e = (if p.event e ∈ es then none else l.inFlight.lookup e) ∧
        rs.lookup e =
          (if p.event e ∈ es then some (p.createdAt e) else l.released.lookup e) := by
  induction es generalizing l with
  | nil => exact ⟨_, _, _, _, rfl, by simp⟩
  | cons x es ih =>
    obtain ⟨ids, cs, fs, rs, heq, hall⟩ :=
      ih (l.forgetOne x) fun y hy => hes y (List.mem_cons_of_mem _ hy)
    have hx := hes x List.mem_cons_self
    have hsame : ∀ e, p.event e = x ↔ e = x.id := fun e =>
      ⟨congrArg HandledEvent.id, fun he => by rw [he, ← hx]⟩
    refine ⟨ids, cs, fs, rs, heq, fun e => ?_⟩
    obtain ⟨hids, hcs, hfs, hrs⟩ := hall e
    rw [hids, hcs, hfs, hrs]
    simp only [forgetOne, Finset.mem_erase, List.mem_cons, hsame, not_or, Dict.lookup_erase_if,
      Dict.lookup_insert_if]
    refine ⟨by tauto, by tauto, ?_, ?_⟩
    · by_cases he : e = x.id <;> simp [he]
    · by_cases he : e = x.id
      · subst he
        have htime : x.createdAt = p.createdAt x.id := congrArg HandledEvent.createdAt hx
        simp [htime]
      · simp [he]

def forgotten (l : WakeLedger) (eventIds : List EventId) : WakeLedger :=
  { (l.handled.filter fun entry => decide (entry.id ∈ eventIds)).foldl forgetOne l with
    handled := l.handled.filter fun entry => !decide (entry.id ∈ eventIds) }

theorem forget_spec (h : l.Sound p) (eventIds : List EventId) :
    (l.forgotten eventIds).Sound p ∧
      (∃ hs ids cs fs rs, l.forgotten eventIds =
        { l with
          handled := hs, handledIds := ids, committed := cs, inFlight := fs, released := rs }) ∧
      ∀ e, (e ∈ (l.forgotten eventIds).handledIds ↔ e ∈ l.handledIds ∧ e ∉ eventIds) ∧
        (e ∈ (l.forgotten eventIds).committed ↔
          e ∈ l.committed ∧ ¬(e ∈ l.handledIds ∧ e ∈ eventIds)) ∧
        (l.forgotten eventIds).track e =
          if e ∈ l.handledIds ∧ e ∈ eventIds then
            ⟨none, (l.track e).carried, some (p.createdAt e)⟩
          else l.track e := by
  obtain ⟨ids, cs, fs, rs, heq, hall⟩ := foldl_forgetOne l (p := p)
    (l.handled.filter fun entry => decide (entry.id ∈ eventIds))
    fun x hx => h.times x (List.mem_filter.1 hx).1
  have hmem : ∀ e, p.event e ∈ (l.handled.filter fun entry => decide (entry.id ∈ eventIds)) ↔
      e ∈ l.handledIds ∧ e ∈ eventIds := by
    intro e
    rw [List.mem_filter, decide_eq_true_eq, h.ids]
    rfl
  simp only [hmem] at hall
  have hledger : l.forgotten eventIds =
      { l with
        handled := l.handled.filter fun entry => !decide (entry.id ∈ eventIds)
        handledIds := ids, committed := cs, inFlight := fs, released := rs } := by
    rw [forgotten, heq]
  have hids : ∀ e, e ∈ ids ↔ e ∈ l.handledIds ∧ e ∉ eventIds := by
    intro e
    rw [(hall e).1]
    tauto
  rw [hledger]
  refine ⟨⟨fun e => ?_, fun x hx => h.times x (List.mem_filter.1 hx).1, h.nodup.filter _,
    fun e x hx => ?_, fun e t ht => ?_, h.abandoned⟩, ⟨_, _, _, _, _, rfl⟩,
    fun e => ⟨hids e, (hall e).2.1, ?_⟩⟩
  · rw [hids, List.mem_filter, Bool.not_eq_true', decide_eq_false_iff_not, h.ids]
    rfl
  · dsimp only at hx
    rw [(hall e).2.2.1] at hx
    split at hx
    · cases hx
    · exact h.inFlight e x hx
  · dsimp only at ht
    rw [(hall e).2.2.2] at ht
    split at ht
    · cases ht
      rfl
    · exact h.released e t ht
  · simp only [track, (hall e).2.2.1, (hall e).2.2.2]
    split <;> rfl

end Forget

end WakeLedger

end Colony.Acp
