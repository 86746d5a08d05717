import Colony.Defs.Acp.WakeLedger

namespace Colony.Acp

open Colony.Data Colony.Core

/-- When each event was published: an id is the hash of its event, so it fixes the time. -/
structure Published where
  createdAt : EventId → Nat

def Published.event (p : Published) (id : EventId) : HandledEvent := ⟨id, p.createdAt id⟩

namespace WakeLedger

variable {p : Published} {l l' l'' : WakeLedger}

def Sealed (p : Published) (l : WakeLedger) (id : EventId) : Prop :=
  saturatingAdd (p.createdAt id) (SINCE_SKEW_SECS + 1) ≤ l.evictedFloor

structure Sound (p : Published) (l : WakeLedger) : Prop where
  ids : ∀ id, id ∈ l.handledIds ↔ p.event id ∈ l.handled
  times : ∀ x ∈ l.handled, x = p.event x.id
  nodup : l.handled.Nodup
  inFlight : ∀ id x, l.inFlight.lookup id = some x → x.id = id ∧ x.createdAt = p.createdAt id
  released : ∀ id t, l.released.lookup id = some t → t = p.createdAt id
  abandoned : ∀ x ∈ l.abandoned, x = p.event x.id

theorem foldl_evict_eq (l : WakeLedger) (es : List HandledEvent) :
    ∃ ids cs fl, es.foldl evict l =
      { l with handledIds := ids, committed := cs, evictedFloor := fl } := by
  induction es generalizing l with
  | nil => exact ⟨_, _, _, rfl⟩
  | cons x es ih =>
    obtain ⟨ids, cs, fl, h⟩ := ih (l.evict x)
    exact ⟨ids, cs, fl, h⟩

theorem foldl_evict_handled (l : WakeLedger) (es : List HandledEvent) :
    (es.foldl evict l).handled = l.handled := by
  obtain ⟨_, _, _, heq⟩ := foldl_evict_eq l es
  rw [heq]

theorem foldl_evict_sets (l : WakeLedger) (es : List HandledEvent) (id : EventId) :
    (id ∈ (es.foldl evict l).handledIds ↔ id ∈ l.handledIds ∧ ∀ x ∈ es, x.id ≠ id) ∧
      (id ∈ (es.foldl evict l).committed ↔ id ∈ l.committed ∧ ∀ x ∈ es, x.id ≠ id) := by
  induction es generalizing l with
  | nil => simp
  | cons x es ih =>
    obtain ⟨hids, hcommitted⟩ := ih (l.evict x)
    rw [List.foldl_cons, hids, hcommitted]
    simp only [evict, Finset.mem_erase, List.forall_mem_cons, ne_comm (a := id)]
    constructor <;> tauto

theorem foldl_evict_floor (l : WakeLedger) (es : List HandledEvent) :
    l.evictedFloor ≤ (es.foldl evict l).evictedFloor ∧ ∀ x ∈ es,
      saturatingAdd x.createdAt (SINCE_SKEW_SECS + 1) ≤ (es.foldl evict l).evictedFloor := by
  induction es generalizing l with
  | nil => simp
  | cons x es ih =>
    obtain ⟨hfloor, hmem⟩ := ih (l.evict x)
    simp only [evict] at hfloor
    rw [List.foldl_cons, List.forall_mem_cons]
    exact ⟨le_trans (le_max_left _ _) hfloor, le_trans (le_max_right _ _) hfloor, hmem⟩

theorem remember_eq (l : WakeLedger) (x : HandledEvent) :
    ∃ hs ids cs fl, l.remember x =
      { l with handled := hs, handledIds := ids, committed := cs, evictedFloor := fl } := by
  unfold remember
  split
  · exact ⟨_, _, _, _, rfl⟩
  · obtain ⟨ids, cs, fl, h⟩ := foldl_evict_eq _ _
    exact ⟨_, ids, cs, fl, h⟩

theorem remember_of_mem {id : EventId} (h : id ∈ l.handledIds) : l.remember (p.event id) = l :=
  if_pos h

/-- How ledgers relate when the events `new` were remembered and `added` committed in between:
an id or commitment that is gone was evicted, so the boundary is past it. -/
structure Fades (p : Published) (l l' : WakeLedger) (new added : List EventId) : Prop where
  floor : l.evictedFloor ≤ l'.evictedFloor
  known : ∀ id ∈ l'.handledIds, id ∈ l.handledIds ∨ id ∈ new
  kept : ∀ id, id ∈ l.handledIds ∨ id ∈ new → id ∈ l'.handledIds ∨ l'.Sealed p id
  committed : ∀ id ∈ l'.committed, id ∈ l.committed ∨ id ∈ added
  lost : ∀ id, id ∈ l.committed ∨ id ∈ added → id ∈ l'.committed ∨ l'.Sealed p id

theorem Sealed.mono {id : EventId} (h : l.Sealed p id) (hle : l.evictedFloor ≤ l'.evictedFloor) :
    l'.Sealed p id := Nat.le_trans h hle

namespace Fades

variable {new new' added added' : List EventId}

theorem refl (l : WakeLedger) : Fades p l l [] [] :=
  ⟨Nat.le_refl _, fun _ => .inl, fun _ h => .inl (by simpa using h), fun _ => .inl,
    fun _ h => .inl (by simpa using h)⟩

theorem trans (h : Fades p l l' new added) (h' : Fades p l' l'' new' added') :
    Fades p l l'' (new ++ new') (added ++ added') where
  floor := h.floor.trans h'.floor
  known id hid := by
    rcases h'.known id hid with hid | hid
    · exact (h.known id hid).imp_right (List.mem_append_left _)
    · exact .inr (List.mem_append_right _ hid)
  kept id hid := by
    rw [List.mem_append, ← or_assoc] at hid
    rcases hid with hid | hid
    · rcases h.kept id hid with hin | hsealed
      · exact h'.kept id (.inl hin)
      · exact .inr (hsealed.mono h'.floor)
    · exact h'.kept id (.inr hid)
  committed id hid := by
    rcases h'.committed id hid with hid | hid
    · exact (h.committed id hid).imp_right (List.mem_append_left _)
    · exact .inr (List.mem_append_right _ hid)
  lost id hid := by
    rw [List.mem_append, ← or_assoc] at hid
    rcases hid with hid | hid
    · rcases h.lost id hid with hin | hsealed
      · exact h'.lost id (.inl hin)
      · exact .inr (hsealed.mono h'.floor)
    · exact h'.lost id (.inr hid)

theorem congr (h : Fades p l l' new added) (hids : l''.handledIds = l'.handledIds)
    (hcommitted : l''.committed = l'.committed) (hfloor : l''.evictedFloor = l'.evictedFloor) :
    Fades p l l'' new added := by
  have hsealed : ∀ id, l''.Sealed p id ↔ l'.Sealed p id := fun id => by rw [Sealed, Sealed, hfloor]
  exact ⟨hfloor ▸ h.floor, fun id hid => h.known id (hids ▸ hid),
    fun id hid => (h.kept id hid).imp (fun hin => hids.symm ▸ hin) (hsealed id).2,
    fun id hid => h.committed id (hcommitted ▸ hid),
    fun id hid => (h.lost id hid).imp (fun hin => hcommitted.symm ▸ hin) (hsealed id).2⟩

end Fades

theorem sealed_of_saturatingAdd {x : HandledEvent} (hx : x = p.event x.id)
    (h : saturatingAdd x.createdAt (SINCE_SKEW_SECS + 1) ≤ l.evictedFloor) : l.Sealed p x.id := by
  have htime : x.createdAt = p.createdAt x.id := congrArg HandledEvent.createdAt hx
  rwa [Sealed, ← htime]

theorem handled_remember {x : HandledEvent} (hnew : x.id ∉ l.handledIds) :
    (l.remember x).handled = (l.handled ++ [x]).drop ((l.handled ++ [x]).length - MAX_HANDLED) := by
  rw [remember, if_neg hnew]
  simp only [foldl_evict_handled]

theorem remember_fresh {x : HandledEvent} (hnew : x.id ∉ l.handledIds) :
    ∃ gone rest, l.handled = gone ++ rest ∧ (l.remember x).handled = rest ++ [x] ∧
      (∀ k, k ∈ (l.remember x).handledIds ↔
        (k = x.id ∨ k ∈ l.handledIds) ∧ ∀ y ∈ gone, y.id ≠ k) ∧
      (∀ k, k ∈ (l.remember x).committed ↔ k ∈ l.committed ∧ ∀ y ∈ gone, y.id ≠ k) ∧
      l.evictedFloor ≤ (l.remember x).evictedFloor ∧ ∀ y ∈ gone,
        saturatingAdd y.createdAt (SINCE_SKEW_SECS + 1) ≤ (l.remember x).evictedFloor := by
  generalize hover : (l.handled ++ [x]).length - MAX_HANDLED = excess
  have hlen : excess ≤ l.handled.length := by
    rw [List.length_append, List.length_singleton, MAX_HANDLED] at hover
    omega
  have hrem : l.remember x = (l.handled.take excess).foldl evict
      { l with
        handled := l.handled.drop excess ++ [x]
        handledIds := insert x.id l.handledIds } := by
    simp only [remember, if_neg hnew, hover, List.take_append_of_le_length hlen,
      List.drop_append_of_le_length hlen]
  obtain ⟨hfloor, hgone⟩ := foldl_evict_floor { l with
    handled := l.handled.drop excess ++ [x]
    handledIds := insert x.id l.handledIds } (l.handled.take excess)
  have hsets := foldl_evict_sets { l with
    handled := l.handled.drop excess ++ [x]
    handledIds := insert x.id l.handledIds } (l.handled.take excess)
  rw [← hrem] at hfloor hgone hsets
  refine ⟨l.handled.take excess, l.handled.drop excess, (List.take_append_drop _ _).symm, ?_,
    fun k => ?_, fun k => (hsets k).2, hfloor, hgone⟩
  · rw [hrem, foldl_evict_handled]
  · rw [(hsets k).1, Finset.mem_insert]

section Remember

variable (h : l.Sound p) (id : EventId)
include h

theorem remember_new (hnew : id ∉ l.handledIds) :
    ∃ gone, l.handled ++ [p.event id] = gone ++ (l.remember (p.event id)).handled ∧
      p.event id ∈ (l.remember (p.event id)).handled ∧
      (∀ k, k ∈ (l.remember (p.event id)).handledIds ↔
        (k = id ∨ k ∈ l.handledIds) ∧ ∀ x ∈ gone, x.id ≠ k) ∧
      (∀ k, k ∈ (l.remember (p.event id)).committed ↔ k ∈ l.committed ∧ ∀ x ∈ gone, x.id ≠ k) ∧
      l.evictedFloor ≤ (l.remember (p.event id)).evictedFloor ∧
      ∀ x ∈ gone, (l.remember (p.event id)).Sealed p x.id := by
  obtain ⟨gone, rest, hsplit, hhandled, hids, hcommitted, hfloor, hgone⟩ :=
    remember_fresh (x := p.event id) hnew
  refine ⟨gone, by rw [hsplit, hhandled, List.append_assoc], by simp [hhandled], hids, hcommitted,
    hfloor, fun x hx => sealed_of_saturatingAdd ?_ (hgone x hx)⟩
  exact h.times x (hsplit ▸ List.mem_append_left _ hx)

theorem Sound.remember : (l.remember (p.event id)).Sound p := by
  by_cases hin : id ∈ l.handledIds
  · rwa [remember_of_mem hin]
  · obtain ⟨gone, hsplit, _, hids, -, -, -⟩ := remember_new h id hin
    have hnotin : p.event id ∉ l.handled := fun hmem => hin ((h.ids id).2 hmem)
    have hnodup : (gone ++ (l.remember (p.event id)).handled).Nodup := by
      rw [← hsplit]
      exact List.nodup_append.2 ⟨h.nodup, List.nodup_singleton _, by
        intro a ha b hb
        rw [List.mem_singleton.1 hb]
        rintro rfl
        exact hnotin ha⟩
    have htimes : ∀ x ∈ gone ++ (l.remember (p.event id)).handled, x = p.event x.id := by
      intro x hx
      rw [← hsplit] at hx
      rcases List.mem_append.1 hx with hx | hx
      · exact h.times x hx
      · rw [List.mem_singleton.1 hx]
        rfl
    obtain ⟨hs, ids, cs, fl, heq⟩ := remember_eq l (p.event id)
    refine ⟨fun k => ?_, fun x hx => htimes x (List.mem_append_right _ hx),
      (List.nodup_append.1 hnodup).2.1, by rw [heq]; exact h.inFlight,
      by rw [heq]; exact h.released, by rw [heq]; exact h.abandoned⟩
    have hmem : (k = id ∨ k ∈ l.handledIds) ↔
        p.event k ∈ gone ++ (l.remember (p.event id)).handled := by
      rw [← hsplit, List.mem_append, List.mem_singleton, h.ids, or_comm]
      exact or_congr_right ⟨fun hk => hk ▸ rfl, fun hk => congrArg HandledEvent.id hk⟩
    have hgone : (∀ x ∈ gone, x.id ≠ k) ↔ p.event k ∉ gone := by
      constructor
      · exact fun hall hk => hall _ hk rfl
      · rintro hk x hx rfl
        exact hk (htimes x (List.mem_append_left _ hx) ▸ hx)
    have hdisj := (List.nodup_append.1 hnodup).2.2
    rw [hids, hmem, hgone, List.mem_append]
    constructor
    · exact fun ⟨hor, hne⟩ => hor.resolve_left hne
    · exact fun hk => ⟨.inr hk, fun hk' => hdisj _ hk' _ hk rfl⟩

theorem fades_remember : Fades p l (l.remember (p.event id)) [id] [] := by
  by_cases hin : id ∈ l.handledIds
  · rw [remember_of_mem hin]
    refine ⟨Nat.le_refl _, fun _ => .inl, fun k hk => .inl ?_, fun _ => .inl,
      fun _ hk => .inl (by simpa using hk)⟩
    rcases hk with hk | hk
    · exact hk
    · rwa [List.mem_singleton.1 hk]
  · obtain ⟨gone, _, _, hids, hcommitted, hfloor, hsealed⟩ := remember_new h id hin
    have hgone : ∀ k, (∀ x ∈ gone, x.id ≠ k) ∨ (l.remember (p.event id)).Sealed p k := by
      intro k
      by_cases hk : ∀ x ∈ gone, x.id ≠ k
      · exact .inl hk
      · push Not at hk
        obtain ⟨x, hx, rfl⟩ := hk
        exact .inr (hsealed x hx)
    refine ⟨hfloor, fun k hk => ?_, fun k hk => ?_, fun k hk => .inl ((hcommitted k).1 hk).1,
      fun k hk => (hgone k).imp_left fun hne => (hcommitted k).2 ⟨by simpa using hk, hne⟩⟩
    · rw [List.mem_singleton]
      exact ((hids k).1 hk).1.symm
    · rw [List.mem_singleton] at hk
      exact (hgone k).imp_left fun hne => (hids k).2 ⟨hk.symm, hne⟩

theorem mem_remember_self : id ∈ (l.remember (p.event id)).handledIds := by
  by_cases hin : id ∈ l.handledIds
  · rwa [remember_of_mem hin]
  · obtain ⟨gone, hsplit, hmem, -, -, -, -⟩ := remember_new h id hin
    exact ((h.remember id).ids id).2 hmem

end Remember

structure Track where
  inFlight : Option InFlightEvent
  carried : Option Nat
  released : Option Nat

def track (l : WakeLedger) (id : EventId) : Track :=
  ⟨l.inFlight.lookup id, l.carried.lookup id, l.released.lookup id⟩

@[simp] theorem track_remember (l : WakeLedger) (x : HandledEvent) (id : EventId) :
    (l.remember x).track id = l.track id := by
  obtain ⟨_, _, _, _, heq⟩ := remember_eq l x
  rw [heq]
  rfl

theorem mem_map_id {es : List HandledEvent} (hes : ∀ x ∈ es, x = p.event x.id) {id : EventId} :
    id ∈ es.map (·.id) ↔ p.event id ∈ es := by
  rw [List.mem_map]
  constructor
  · rintro ⟨x, hx, rfl⟩
    exact hes x hx ▸ hx
  · exact fun h => ⟨p.event id, h, rfl⟩

theorem foldl_remember (h : l.Sound p) {es : List HandledEvent} (hes : ∀ x ∈ es, x = p.event x.id) :
    (es.foldl remember l).Sound p ∧ Fades p l (es.foldl remember l) (es.map (·.id)) [] ∧
      ∃ hs ids cs fl, es.foldl remember l =
        { l with handled := hs, handledIds := ids, committed := cs, evictedFloor := fl } := by
  induction es generalizing l with
  | nil => exact ⟨h, .refl l, _, _, _, _, rfl⟩
  | cons x es ih =>
    have hx := hes x List.mem_cons_self
    have hrem := h.remember x.id
    have hstep := fades_remember h x.id
    rw [← hx] at hstep hrem
    obtain ⟨hsound, hfades, hs, ids, cs, fl, heq⟩ :=
      ih hrem fun y hy => hes y (List.mem_cons_of_mem _ hy)
    obtain ⟨_, _, _, _, hl⟩ := remember_eq l x
    refine ⟨hsound, hstep.trans hfades, hs, ids, cs, fl, ?_⟩
    rw [List.foldl_cons, heq, hl]

theorem Sound.with_abandoned (h : l.Sound p) {abandoned : List HandledEvent}
    (habandoned : ∀ x ∈ abandoned, x = p.event x.id) :
    Sound p { l with abandoned := abandoned } :=
  ⟨h.ids, h.times, h.nodup, h.inFlight, h.released, habandoned⟩

theorem foldl_rememberAbandoned (h : l.Sound p) {es : List HandledEvent}
    (hes : ∀ x ∈ es, x = p.event x.id) :
    (es.foldl rememberAbandoned l).Sound p ∧
      Fades p l (es.foldl rememberAbandoned l) (es.map (·.id)) [] ∧
      ∃ hs ids cs fl, es.foldl rememberAbandoned l =
        { l with
          handled := hs
          handledIds := ids
          committed := cs
          evictedFloor := fl
          abandoned := l.abandoned ++ es } := by
  induction es generalizing l with
  | nil => exact ⟨h, .refl l, _, _, _, _, by rw [List.append_nil]; rfl⟩
  | cons x es ih =>
    have hx := hes x List.mem_cons_self
    have hrem := h.remember x.id
    have hstep := fades_remember h x.id
    rw [← hx] at hstep hrem
    have hsound' : (l.rememberAbandoned x).Sound p := by
      refine hrem.with_abandoned fun y hy => ?_
      rcases List.mem_append.1 hy with hy | hy
      · exact hrem.abandoned y hy
      · rw [List.mem_singleton.1 hy]
        exact hx
    obtain ⟨hsound, hfades, hs, ids, cs, fl, heq⟩ :=
      ih hsound' fun y hy => hes y (List.mem_cons_of_mem _ hy)
    obtain ⟨_, _, _, _, hl⟩ := remember_eq l x
    have hstep' : Fades p l (l.rememberAbandoned x) [x.id] [] := hstep.congr rfl rfl rfl
    refine ⟨hsound, hstep'.trans hfades, hs, ids, cs, fl, ?_⟩
    rw [List.foldl_cons, heq, rememberAbandoned, hl]
    simp

section Recover

variable (now : Nat)

theorem recoverOne_eq (l : WakeLedger) (x : InFlightEvent) :
    ∃ hs ids cs fl rs fs ks as ss, recoverOne now l x =
      { l with
        handled := hs, handledIds := ids, committed := cs, evictedFloor := fl, released := rs,
        inFlight := fs, carried := ks, abandoned := as, stopped := ss } := by
  unfold recoverOne
  obtain ⟨hs, ids, cs, fl, hrem⟩ := remember_eq l ⟨x.id, x.createdAt⟩
  cases recovery now x with
  | giveUp => exact ⟨hs, ids, cs, fl, _, _, _, _, _, by simp only [hrem]; rfl⟩
  | pause => exact ⟨hs, ids, cs, fl, _, _, _, _, _, by simp only [hrem]; rfl⟩
  | deliver => exact ⟨_, _, _, _, _, _, _, _, _, rfl⟩

theorem track_recoverOne (l : WakeLedger) (x : InFlightEvent) (id : EventId) :
    (recoverOne now l x).track id =
      if id = x.id then
        match recovery now x with
        | .giveUp => l.track id
        | .pause => { l.track id with inFlight := some x }
        | .deliver =>
          { l.track id with carried := some (x.restarts + 1), released := some x.createdAt }
      else l.track id := by
  have hrem := track_remember l ⟨x.id, x.createdAt⟩ id
  unfold recoverOne
  cases recovery now x with
  | giveUp =>
    simp only [ite_self]
    exact hrem
  | pause =>
    simp only [track] at hrem ⊢
    injection hrem with h₁ h₂ h₃
    simp only [Dict.lookup_insert_if, h₁, h₂, h₃]
    split <;> rfl
  | deliver =>
    simp only [track, Dict.lookup_insert_if]
    split <;> rfl

variable {x : InFlightEvent} (hx : x.createdAt = p.createdAt x.id)
include hx

theorem Sound.recoverOne (h : l.Sound p) : (recoverOne now l x).Sound p := by
  have hevent : (⟨x.id, x.createdAt⟩ : HandledEvent) = p.event x.id := by rw [hx]; rfl
  unfold WakeLedger.recoverOne
  rw [hevent]
  have hrem := h.remember x.id
  cases recovery now x with
  | giveUp =>
    refine ⟨hrem.ids, hrem.times, hrem.nodup, hrem.inFlight, hrem.released,
      fun y hy => ?_⟩
    rcases List.mem_append.1 (List.mem_of_mem_drop hy) with hy | hy
    · exact hrem.abandoned y hy
    · rw [List.mem_singleton.1 hy]
      rfl
  | pause =>
    refine ⟨hrem.ids, hrem.times, hrem.nodup, fun id y hy => ?_, hrem.released,
      hrem.abandoned⟩
    simp only [Dict.lookup_insert_if] at hy
    split at hy
    · next heq =>
      cases hy
      exact ⟨heq.symm, heq ▸ hx⟩
    · exact hrem.inFlight id y hy
  | deliver =>
    refine ⟨h.ids, h.times, h.nodup, h.inFlight, fun id t ht => ?_, h.abandoned⟩
    simp only [Dict.lookup_insert_if] at ht
    split at ht
    · next heq =>
      cases ht
      exact heq ▸ hx
    · exact h.released id t ht

theorem fades_recoverOne (h : l.Sound p) :
    Fades p l (recoverOne now l x) (if recovery now x = .deliver then [] else [x.id]) [] := by
  have hevent : (⟨x.id, x.createdAt⟩ : HandledEvent) = p.event x.id := by rw [hx]; rfl
  have hstep := fades_remember h x.id
  unfold recoverOne
  rw [hevent]
  cases recovery now x with
  | giveUp => exact hstep.congr rfl rfl rfl
  | pause => exact hstep.congr rfl rfl rfl
  | deliver => exact (Fades.refl l).congr rfl rfl rfl

end Recover

section RecoverAll

variable (now : Nat) {es : List InFlightEvent}

theorem recoverInterrupted_eq (l : WakeLedger) (es : List InFlightEvent) :
    ∃ hs ids cs fl rs fs ks as ss, l.recoverInterrupted es now =
      { l with
        handled := hs, handledIds := ids, committed := cs, evictedFloor := fl, released := rs,
        inFlight := fs, carried := ks, abandoned := as, stopped := ss } := by
  unfold recoverInterrupted
  induction es generalizing l with
  | nil => exact ⟨_, _, _, _, _, _, _, _, _, rfl⟩
  | cons x es ih =>
    obtain ⟨hs, ids, cs, fl, rs, fs, ks, as, ss, heq⟩ := ih (recoverOne now l x)
    obtain ⟨_, _, _, _, _, _, _, _, _, hone⟩ := recoverOne_eq now l x
    exact ⟨hs, ids, cs, fl, rs, fs, ks, as, ss, by rw [List.foldl_cons, heq, hone]⟩

theorem recoverInterrupted_sound (h : l.Sound p) (hes : ∀ x ∈ es, x.createdAt = p.createdAt x.id) :
    (l.recoverInterrupted es now).Sound p ∧
      Fades p l (l.recoverInterrupted es now)
        ((es.filter fun x => !decide (recovery now x = .deliver)).map (·.id)) [] := by
  unfold recoverInterrupted
  induction es generalizing l with
  | nil => exact ⟨h, .refl l⟩
  | cons x es ih =>
    have hx := hes x List.mem_cons_self
    obtain ⟨hsound, hfades⟩ :=
      ih (h.recoverOne now hx) fun y hy => hes y (List.mem_cons_of_mem _ hy)
    refine ⟨hsound, ?_⟩
    have hall := (fades_recoverOne now hx h).trans hfades
    by_cases hd : recovery now x = .deliver
    · simpa [hd] using hall
    · simpa [hd] using hall

theorem track_recoverInterrupted_of_notMem (l : WakeLedger) {id : EventId}
    (h : ∀ x ∈ es, x.id ≠ id) : (l.recoverInterrupted es now).track id = l.track id := by
  unfold recoverInterrupted
  induction es generalizing l with
  | nil => rfl
  | cons x es ih =>
    rw [List.foldl_cons, ih _ fun y hy => h y (List.mem_cons_of_mem _ hy), track_recoverOne,
      if_neg fun heq => h x List.mem_cons_self heq.symm]

theorem track_recoverInterrupted (l : WakeLedger) (hnodup : (es.map (·.id)).Nodup)
    {x : InFlightEvent} (hx : x ∈ es) :
    (l.recoverInterrupted es now).track x.id =
      match recovery now x with
      | .giveUp => l.track x.id
      | .pause => { l.track x.id with inFlight := some x }
      | .deliver =>
        { l.track x.id with carried := some (x.restarts + 1), released := some x.createdAt } := by
  unfold recoverInterrupted
  induction es generalizing l with
  | nil => cases hx
  | cons y es ih =>
    obtain ⟨hy, hnodup⟩ := List.nodup_cons.1 hnodup
    rw [List.foldl_cons]
    cases hx with
    | head =>
      have hrest : ∀ z ∈ es, z.id ≠ x.id := fun z hz heq => hy (List.mem_map.2 ⟨z, hz, heq⟩)
      have hskip := track_recoverInterrupted_of_notMem now (recoverOne now l x) hrest
      unfold recoverInterrupted at hskip
      rw [hskip, track_recoverOne, if_pos rfl]
    | tail _ hx =>
      have hne : x.id ≠ y.id := fun heq => hy (List.mem_map.2 ⟨x, hx, heq⟩)
      rw [ih _ hnodup hx, track_recoverOne, if_neg hne]

theorem mem_abandoned_recoverInterrupted {y : HandledEvent}
    (h : y ∈ (l.recoverInterrupted es now).abandoned) :
    y ∈ l.abandoned ∨ ∃ x ∈ es, recovery now x = .giveUp ∧ x.id = y.id := by
  unfold recoverInterrupted at h
  induction es generalizing l with
  | nil => exact .inl h
  | cons x es ih =>
    rcases ih h with h | ⟨z, hz, hup, heq⟩
    · obtain ⟨_, _, _, _, hrem⟩ := remember_eq l ⟨x.id, x.createdAt⟩
      unfold recoverOne at h
      cases hr : recovery now x with
      | giveUp =>
        simp only [hr, hrem] at h
        rcases List.mem_append.1 (List.mem_of_mem_drop h) with h | h
        · exact .inl h
        · exact .inr ⟨x, List.mem_cons_self, hr, congrArg HandledEvent.id (List.mem_singleton.1 h).symm⟩
      | pause =>
        simp only [hr, hrem] at h
        exact .inl h
      | deliver =>
        simp only [hr] at h
        exact .inl h
    · exact .inr ⟨z, List.mem_cons_of_mem _ hz, hup, heq⟩

theorem mem_stopped_recoverInterrupted {x : InFlightEvent} (hx : x ∈ es)
    (hup : recovery now x = .giveUp) :
    ⟨x.id, x.createdAt⟩ ∈ (l.recoverInterrupted es now).stopped := by
  have hgrow : ∀ (l : WakeLedger) y, l.stopped ⊆ (recoverOne now l y).stopped := by
    intro l y z hz
    obtain ⟨_, _, _, _, hrem⟩ := remember_eq l ⟨y.id, y.createdAt⟩
    unfold recoverOne
    cases recovery now y with
    | giveUp =>
      simp only [hrem]
      exact List.mem_append_left _ hz
    | pause =>
      simp only [hrem]
      exact hz
    | deliver => exact hz
  have hkeep : ∀ (es : List InFlightEvent) (l : WakeLedger),
      l.stopped ⊆ (es.foldl (recoverOne now) l).stopped := by
    intro es
    induction es with
    | nil => exact fun l z hz => hz
    | cons y es ih => exact fun l z hz => ih _ (hgrow l y hz)
  unfold recoverInterrupted
  induction es generalizing l with
  | nil => cases hx
  | cons y es ih =>
    rw [List.foldl_cons]
    cases hx with
    | head =>
      refine hkeep es _ ?_
      simp [recoverOne, hup]
    | tail _ hx => exact ih hx

end RecoverAll

structure FileSound (p : Published) (f : LedgerFile) : Prop where
  handled : ∀ x ∈ f.handled, x = p.event x.id
  abandoned : ∀ x ∈ f.abandoned, x = p.event x.id
  inFlight : ∀ x ∈ f.inFlight, x.createdAt = p.createdAt x.id
  nodup : (f.inFlight.map (·.id)).Nodup

section Snapshot

variable (h : l.Sound p) (pending : List EventId) (now : Nat)
include h

theorem mem_inFlight_snapshot (x : InFlightEvent) :
    x ∈ (l.snapshot (pending.map p.event) now).inFlight ↔ l.inFlight.lookup x.id = some x := by
  simp only [snapshot, List.mem_insertionSort, List.mem_map]
  constructor
  · rintro ⟨⟨id, y⟩, hmem, rfl⟩
    have hlookup := (Dict.mem_lookup_entries _ _ _).2 hmem
    rwa [(h.inFlight id y hlookup).1]
  · exact fun hx => ⟨⟨x.id, x⟩, (Dict.mem_lookup_entries _ _ _).1 hx, rfl⟩

theorem mem_handled_snapshot (id : EventId) :
    p.event id ∈ (l.snapshot (pending.map p.event) now).handled ↔
      id ∈ l.handledIds ∧ ¬(id ∈ pending ∧ id ∉ l.committed) ∧ l.inFlight.lookup id = none := by
  have hpending : id ∈ ((pending.map p.event).filter fun event =>
      !decide (event.id ∈ l.committed)).map (·.id) ↔ id ∈ pending ∧ id ∉ l.committed := by
    simp only [List.mem_map, List.mem_filter, Bool.not_eq_true', decide_eq_false_iff_not]
    constructor
    · rintro ⟨_, ⟨⟨id, hmem, rfl⟩, hnot⟩, rfl⟩
      exact ⟨hmem, hnot⟩
    · exact fun ⟨hmem, hnot⟩ => ⟨p.event id, ⟨⟨id, hmem, rfl⟩, hnot⟩, rfl⟩
  simp only [snapshot, List.mem_filter, Bool.and_eq_true, Bool.not_eq_true',
    decide_eq_false_iff_not, ← h.ids]
  change _ ∧ ¬(id ∈ _) ∧ (l.inFlight.lookup id).isSome = false ↔ _
  rw [hpending, Option.isSome_eq_false_iff, Option.isNone_iff_eq_none]

theorem snapshot_sound : FileSound p (l.snapshot (pending.map p.event) now) where
  handled x hx := h.times x (List.mem_filter.1 hx).1
  abandoned := h.abandoned
  inFlight x hx := (h.inFlight x.id x ((mem_inFlight_snapshot h pending now x).1 hx)).2
  nodup := by
    have hperm := (List.perm_insertionSort (fun a b : InFlightEvent =>
      a.createdAt < b.createdAt ∨ (a.createdAt = b.createdAt ∧ a.id.bits ≤ b.id.bits))
      (l.inFlight.entries.map fun e => e.2)).map (·.id)
    refine hperm.nodup_iff.2 ?_
    rw [List.map_map]
    have hkeys : l.inFlight.entries.map ((·.id) ∘ fun e => e.2) = l.inFlight.entries.map Sigma.fst :=
      List.map_congr_left fun e he =>
        (h.inFlight e.1 e.2 ((Dict.mem_lookup_entries _ _ _).2 he)).1
    rw [hkeys]
    exact l.inFlight.nodupKeys

theorem floor_snapshot {id : EventId}
    (hid : (id ∈ pending ∧ id ∉ l.committed) ∨ l.inFlight.lookup id ≠ none ∨
      l.released.lookup id ≠ none) :
    (l.snapshot (pending.map p.event) now).floor ≤ p.createdAt id ∨
      p.createdAt id < l.evictedFloor := by
  by_cases hlt : p.createdAt id < l.evictedFloor
  · exact .inr hlt
  · refine .inl ?_
    have hmem : p.createdAt id ∈
        ((pending.map p.event).filter fun event => !decide (event.id ∈ l.committed)).map
            (·.createdAt) ++
          (l.released.entries.map fun e => e.2) ++
          l.inFlight.entries.map fun e => e.2.createdAt := by
      simp only [List.mem_append, List.mem_map, List.mem_filter, Bool.not_eq_true',
        decide_eq_false_iff_not]
      rcases hid with ⟨hp, hc⟩ | hf | hr
      · exact .inl (.inl ⟨p.event id, ⟨⟨id, hp, rfl⟩, hc⟩, rfl⟩)
      · obtain ⟨x, hx⟩ := Option.ne_none_iff_exists'.1 hf
        exact .inr ⟨⟨id, x⟩, (Dict.mem_lookup_entries _ _ _).1 hx, (h.inFlight id x hx).2⟩
      · obtain ⟨t, ht⟩ := Option.ne_none_iff_exists'.1 hr
        exact .inl (.inr ⟨⟨id, t⟩, (Dict.mem_lookup_entries _ _ _).1 ht, h.released id t ht⟩)
    obtain ⟨lowest, hmin⟩ := Option.ne_none_iff_exists'.1
      (mt List.min?_eq_none_iff.1 (List.ne_nil_of_mem hmem))
    have hle := (List.min?_eq_some_iff.1 hmin).2 _ hmem
    simp only [snapshot, hmin, Option.elim_some]
    omega

end Snapshot

def blankFile (relayUrl agentPubkey : String) : LedgerFile :=
  ⟨FILE_VERSION, relayUrl, agentPubkey, 0, 0, [], [], []⟩

def loaded (disk : Option LedgerFile) (relayUrl agentPubkey : String) : LedgerFile :=
  (readFile disk relayUrl agentPubkey).getD (blankFile relayUrl agentPubkey)

theorem loaded_cases (disk : Option LedgerFile) (relayUrl agentPubkey : String) :
    loaded disk relayUrl agentPubkey = blankFile relayUrl agentPubkey ∨
      disk = some (loaded disk relayUrl agentPubkey) := by
  unfold loaded
  cases hread : readFile disk relayUrl agentPubkey with
  | none => exact .inl rfl
  | some f => exact .inr (Option.filter_eq_some_iff.1 hread).1

theorem fileSound_blankFile (relayUrl agentPubkey : String) :
    FileSound p (blankFile relayUrl agentPubkey) :=
  ⟨by simp [blankFile], by simp [blankFile], by simp [blankFile], by simp [blankFile]⟩

/-- What opening a file leaves: events it lists as handled or given up on, or whose backoff runs,
are known; the other unfinished ones are delivered again. -/
structure Opened (p : Published) (f : LedgerFile) (now : Nat) (l : WakeLedger) : Prop where
  sound : l.Sound p
  floor : f.evictedFloor ≤ l.evictedFloor
  known : ∀ id ∈ l.handledIds, p.event id ∈ f.handled ∨ p.event id ∈ f.abandoned ∨
    ∃ x ∈ f.inFlight, x.id = id ∧ recovery now x ≠ .deliver
  kept : ∀ id, (p.event id ∈ f.handled ∨ p.event id ∈ f.abandoned ∨
    ∃ x ∈ f.inFlight, x.id = id ∧ recovery now x ≠ .deliver) → id ∈ l.handledIds ∨ l.Sealed p id
  committed : l.committed = ∅
  trackOther : ∀ id, (∀ x ∈ f.inFlight, x.id ≠ id) → l.track id = ⟨none, none, none⟩
  track : ∀ x ∈ f.inFlight, l.track x.id =
    match recovery now x with
    | .giveUp => ⟨none, none, none⟩
    | .pause => ⟨some x, none, none⟩
    | .deliver => ⟨none, some (x.restarts + 1), some x.createdAt⟩
  abandoned : ∀ y ∈ l.abandoned, y ∈ f.abandoned ∨
    ∃ x ∈ f.inFlight, recovery now x = .giveUp ∧ x.id = y.id
  stopped : ∀ x ∈ f.inFlight, recovery now x = .giveUp → ⟨x.id, x.createdAt⟩ ∈ l.stopped
  turns : l.turns = []
  written : l.written = none

theorem Opened.congr {f : LedgerFile} {now : Nat} (h : Opened p f now l) (since : Option Nat)
    (baseline : Nat) : Opened p f now { l with catchUpSince := since, baseline := baseline } :=
  ⟨⟨h.sound.ids, h.sound.times, h.sound.nodup, h.sound.inFlight,
    h.sound.released, h.sound.abandoned⟩, h.floor, h.known, h.kept, h.committed, h.trackOther,
    h.track, h.abandoned, h.stopped, h.turns, h.written⟩

theorem Opened.cases {f : LedgerFile} {now : Nat} (h : Opened p f now l) (e : EventId) :
    ((∀ x ∈ f.inFlight, x.id ≠ e) ∧ l.track e = ⟨none, none, none⟩) ∨
      ∃ x ∈ f.inFlight, x.id = e ∧
        ((recovery now x = .giveUp ∧ l.track e = ⟨none, none, none⟩) ∨
          (recovery now x = .pause ∧ l.track e = ⟨some x, none, none⟩) ∨
          (recovery now x = .deliver ∧
            l.track e = ⟨none, some (x.restarts + 1), some x.createdAt⟩)) := by
  by_cases hin : ∃ x ∈ f.inFlight, x.id = e
  · obtain ⟨x, hx, rfl⟩ := hin
    have htrack := h.track x hx
    refine .inr ⟨x, hx, rfl, ?_⟩
    cases hr : recovery now x with
    | giveUp => exact .inl ⟨rfl, by rw [htrack, hr]⟩
    | pause => exact .inr (.inl ⟨rfl, by rw [htrack, hr]⟩)
    | deliver => exact .inr (.inr ⟨rfl, by rw [htrack, hr]⟩)
  · have hnone : ∀ x ∈ f.inFlight, x.id ≠ e := fun x hx heq => hin ⟨x, hx, heq⟩
    exact .inl ⟨hnone, h.trackOther e hnone⟩

theorem Opened.not_known_of_deliver {f : LedgerFile} {now : Nat} (h : Opened p f now l)
    (hf : FileSound p f) {x : InFlightEvent} (hx : x ∈ f.inFlight)
    (hr : recovery now x = .deliver) (hhandled : p.event x.id ∉ f.handled)
    (habandoned : p.event x.id ∉ f.abandoned) : x.id ∉ l.handledIds := by
  intro hk
  rcases h.known x.id hk with hin | hin | ⟨y, hy, hid, hne⟩
  · exact hhandled hin
  · exact habandoned hin
  · rw [List.inj_on_of_nodup_map hf.nodup hy hx hid] at hne
    exact hne hr

section Open

variable (f : LedgerFile) (now : Nat)

def load (l : WakeLedger) : WakeLedger :=
  (f.abandoned.foldl rememberAbandoned (f.handled.foldl remember l)).recoverInterrupted f.inFlight now

variable {f}

theorem opened_load (hf : FileSound p f) (hsound : l.Sound p) (hids : l.handledIds = ∅)
    (hcommitted : l.committed = ∅) (hfloor : l.evictedFloor = f.evictedFloor)
    (htrack : ∀ id, l.track id = ⟨none, none, none⟩) (habandoned : l.abandoned = [])
    (hturns : l.turns = []) (hwritten : l.written = none) :
    Opened p f now (load f now l) := by
  unfold load
  obtain ⟨hsound₁, hfades₁, hs₁, ids₁, cs₁, fl₁, heq₁⟩ := foldl_remember hsound hf.handled
  generalize f.handled.foldl remember l = l₁ at *
  obtain ⟨hsound₂, hfades₂, hs₂, ids₂, cs₂, fl₂, heq₂⟩ :=
    foldl_rememberAbandoned hsound₁ hf.abandoned
  generalize f.abandoned.foldl rememberAbandoned l₁ = l₂ at *
  obtain ⟨hsound₃, hfades₃⟩ := recoverInterrupted_sound now hsound₂ hf.inFlight
  have hblank : ∀ id, l₂.track id = ⟨none, none, none⟩ := by
    intro id
    rw [heq₂, heq₁, ← htrack id]
    rfl
  have habandoned₂ : l₂.abandoned = f.abandoned := by
    rw [heq₂, heq₁]
    simp [habandoned]
  have hfades := (hfades₁.trans hfades₂).trans hfades₃
  have hnew : ∀ id, id ∈ (f.handled.map (·.id) ++ f.abandoned.map (·.id)) ++
      (f.inFlight.filter fun x => !decide (recovery now x = .deliver)).map (·.id) ↔
      p.event id ∈ f.handled ∨ p.event id ∈ f.abandoned ∨
        ∃ x ∈ f.inFlight, x.id = id ∧ recovery now x ≠ .deliver := by
    intro id
    rw [List.mem_append, List.mem_append, mem_map_id hf.handled, mem_map_id hf.abandoned, or_assoc]
    simp only [List.mem_map, List.mem_filter, Bool.not_eq_true', decide_eq_false_iff_not, and_assoc]
    exact or_congr_right (or_congr_right (exists_congr fun x => and_congr_right fun _ => and_comm))
  obtain ⟨_, _, _, _, _, _, _, _, _, heq₃⟩ := recoverInterrupted_eq now l₂ f.inFlight
  constructor
  case sound => exact hsound₃
  case floor => exact hfloor ▸ hfades.floor
  case known =>
    intro id hid
    refine (hnew id).1 ((hfades.known id hid).resolve_left ?_)
    simp [hids]
  case kept => exact fun id hid => hfades.kept id (.inr ((hnew id).2 hid))
  case committed =>
    refine Finset.eq_empty_of_forall_notMem fun id hid => ?_
    have hin := hfades.committed id hid
    simp [hcommitted] at hin
  case trackOther =>
    exact fun id hid => (track_recoverInterrupted_of_notMem now l₂ hid).trans (hblank id)
  case track =>
    intro x hx
    rw [track_recoverInterrupted now l₂ hf.nodup hx, hblank]
  case abandoned =>
    intro y hy
    rw [← habandoned₂]
    exact mem_abandoned_recoverInterrupted now hy
  case stopped => exact fun x hx hup => mem_stopped_recoverInterrupted now hx hup
  case turns => rw [heq₃, heq₂, heq₁, hturns]
  case written => rw [heq₃, heq₂, heq₁, hwritten]

end Open

section OpenFile

variable {disk : Option LedgerFile} {relayUrl agentPubkey : String} (now watermark : Nat)

theorem load_eq (l : WakeLedger) {f : LedgerFile} (hf : FileSound p f) (hsound : l.Sound p) :
    ∃ hs ids cs fl rs fs ks as ss, load f now l =
      { l with
        handled := hs, handledIds := ids, committed := cs, evictedFloor := fl, released := rs,
        inFlight := fs, carried := ks, abandoned := as, stopped := ss } := by
  obtain ⟨hsound₁, -, hs₁, ids₁, cs₁, fl₁, heq₁⟩ := foldl_remember hsound hf.handled
  obtain ⟨-, -, hs₂, ids₂, cs₂, fl₂, heq₂⟩ := foldl_rememberAbandoned hsound₁ hf.abandoned
  obtain ⟨hs, ids, cs, fl, rs, fs, ks, as, ss, heq₃⟩ := recoverInterrupted_eq now
    (f.abandoned.foldl rememberAbandoned (f.handled.foldl remember l)) f.inFlight
  refine ⟨hs, ids, cs, fl, rs, fs, ks, as, ss, ?_⟩
  rw [load, heq₃, heq₂, heq₁]

theorem elim_readFile (g : LedgerFile → α) :
    (readFile disk relayUrl agentPubkey).elim (g (blankFile relayUrl agentPubkey)) g =
      g (loaded disk relayUrl agentPubkey) := by
  unfold loaded
  cases readFile disk relayUrl agentPubkey <;> rfl

theorem openFile_spec (hf : FileSound p (loaded disk relayUrl agentPubkey)) :
    Opened p (loaded disk relayUrl agentPubkey) now
        (openFile disk relayUrl agentPubkey now watermark) ∧
      (openFile disk relayUrl agentPubkey now watermark).relayUrl = relayUrl ∧
      (openFile disk relayUrl agentPubkey now watermark).agentPubkey = agentPubkey ∧
      (openFile disk relayUrl agentPubkey now watermark).catchUpSince =
        (readFile disk relayUrl agentPubkey).map fun f =>
          max (max (min (max (now - MAX_LOOKBACK_SECS) (min f.floor now)) watermark) f.evictedFloor)
            (openFile disk relayUrl agentPubkey now watermark).evictedFloor := by
  have hhandled : _ = (loaded disk relayUrl agentPubkey).handled := elim_readFile _
  have habandoned : _ = (loaded disk relayUrl agentPubkey).abandoned := elim_readFile _
  have hinFlight : _ = (loaded disk relayUrl agentPubkey).inFlight := elim_readFile _
  have hfloor : _ = (loaded disk relayUrl agentPubkey).evictedFloor := elim_readFile _
  unfold openFile
  dsimp only
  erw [hhandled, habandoned, hinFlight, hfloor]
  generalize hblank : (WakeLedger.mk relayUrl agentPubkey _ _ _ _ _ _ _ _ _ _ _ _ _ _ _ _ _) = blank
  have hsound : blank.Sound p := by
    subst hblank
    exact ⟨by simp, by simp, List.nodup_nil, by simp, by simp, by simp⟩
  have hopened : Opened p (loaded disk relayUrl agentPubkey) now
      (load (loaded disk relayUrl agentPubkey) now blank) := by
    subst hblank
    exact opened_load now hf hsound rfl rfl rfl (fun _ => rfl) rfl rfl rfl
  obtain ⟨_, _, _, _, _, _, _, _, _, hload⟩ := load_eq now blank hf hsound
  have hrelay : (load (loaded disk relayUrl agentPubkey) now blank).relayUrl = relayUrl := by
    rw [hload, ← hblank]
  have hagent : (load (loaded disk relayUrl agentPubkey) now blank).agentPubkey = agentPubkey := by
    rw [hload, ← hblank]
  have hsince : (load (loaded disk relayUrl agentPubkey) now blank).catchUpSince =
      (readFile disk relayUrl agentPubkey).map fun f =>
        max (min (max (now - MAX_LOOKBACK_SECS) (min f.floor now)) watermark)
          (loaded disk relayUrl agentPubkey).evictedFloor := by
    rw [hload, ← hblank]
  unfold load at hopened hrelay hagent hsince
  cases hread : readFile disk relayUrl agentPubkey with
  | none =>
    rw [hread, Option.map_none] at hsince
    simp only [hsince]
    exact ⟨hopened, hrelay, hagent, rfl⟩
  | some f =>
    rw [hread, Option.map_some] at hsince
    have hloaded : loaded disk relayUrl agentPubkey = f := by rw [loaded, hread]; rfl
    simp only [hsince]
    refine ⟨hopened.congr _ _, hrelay, hagent, ?_⟩
    rw [hloaded]
    rfl

end OpenFile

end WakeLedger

end Colony.Acp
