import Colony.Defs.Acp.WakeRuns

namespace Colony.Acp

open Colony.Data Colony.Core

namespace World

variable {p : Published} {w w' : World} {e : EventId}

def Unfinished (l : WakeLedger) (pending : List EventId) (e : EventId) : Prop :=
  (e ∈ pending ∧ e ∉ l.committed) ∨ l.inFlight.lookup e ≠ none ∨ l.released.lookup e ≠ none

instance (l : WakeLedger) (pending : List EventId) (e : EventId) :
    Decidable (Unfinished l pending e) := inferInstanceAs (Decidable (_ ∨ _ ∨ _))

/-- No turn is started for an event that was given up on, or that was handed back and not received
since; and none that was given up on is kept waiting or handed back. -/
def Careful (p : Published) (w : World) (call : WakeCall) : Prop :=
  (∀ id ∈ starting call, p.event id ∉ w.ledger.abandoned ∧ w.ledger.released.lookup id = none) ∧
    ∀ id ∈ waiting call ++ forgetting call, p.event id ∉ w.ledger.abandoned

instance (p : Published) (w : World) (call : WakeCall) : Decidable (w.Careful p call) :=
  inferInstanceAs (Decidable (_ ∧ _))

structure Placed (p : Published) (w : World) (e : EventId) : Prop where
  released : (w.ledger.track e).released ≠ none → e ∉ w.ledger.handledIds
  abandoned : p.event e ∈ w.ledger.abandoned →
    (w.ledger.track e).inFlight = none ∧ (w.ledger.track e).released = none

def FilePlaced (p : Published) (f : LedgerFile) (e : EventId) : Prop :=
  ∀ x ∈ f.inFlight, x.id = e → p.event e ∉ f.handled ∧ p.event e ∉ f.abandoned

structure Replays (p : Published) (e : EventId) (w : World) : Prop where
  good : w.Good p
  placed : w.Placed p e
  file : ∀ f, w.disk = some f → FilePlaced p f e

theorem Placed.of_blank (htrack : w.ledger.track e = ⟨none, none, none⟩) : w.Placed p e := by
  refine ⟨fun hne => ?_, fun _ => ?_⟩
  · rw [htrack] at hne
    exact absurd rfl hne
  · rw [htrack]
    exact ⟨rfl, rfl⟩

theorem Good.placed_restart (h : w.Good p) (hf : ∀ f, w.disk = some f → FilePlaced p f e)
    (now watermark : Nat) : (w.restart now watermark).Placed p e := by
  obtain ⟨-, hopened⟩ := h.restart now watermark
  have hplaced : FilePlaced p (WakeLedger.loaded w.disk w.ledger.relayUrl w.ledger.agentPubkey) e := by
    rcases WakeLedger.loaded_cases w.disk w.ledger.relayUrl w.ledger.agentPubkey with heq | hdisk
    · rw [heq]
      simp [FilePlaced, WakeLedger.blankFile]
    · exact hf _ hdisk
  have hsound := h.loaded
  generalize WakeLedger.loaded w.disk w.ledger.relayUrl w.ledger.agentPubkey = f at *
  rcases hopened.cases e with ⟨-, htrack⟩ | ⟨x, hx, rfl, hx'⟩
  · exact .of_blank htrack
  · obtain ⟨hnh, hna⟩ := hplaced x hx rfl
    have hgave : WakeLedger.recovery now x ≠ .giveUp →
        p.event x.id ∉ (w.restart now watermark).ledger.abandoned := by
      intro hne hab
      rcases hopened.abandoned _ hab with hin | ⟨y, hy, hup, hid⟩
      · exact hna hin
      · rw [List.inj_on_of_nodup_map hsound.nodup hy hx hid] at hup
        exact hne hup
    rcases hx' with ⟨-, htrack⟩ | ⟨hr, htrack⟩ | ⟨hr, -⟩
    · exact .of_blank htrack
    · refine ⟨fun hne => ?_, fun hab => absurd hab (hgave (by rw [hr]; decide))⟩
      rw [htrack] at hne
      exact absurd rfl hne
    · exact ⟨fun _ => hopened.not_known_of_deliver hsound hx hr hnh hna,
        fun hab => absurd hab (hgave (by rw [hr]; decide))⟩

theorem Placed.step (hp : w.Placed p e) {call : WakeCall} (hcareful : w.Careful p call)
    (heffect : Effect p e w call w') (hrun : ∀ now watermark, call ≠ .restart now watermark) :
    w'.Placed p e := by
  cases heffect with
  | restarted now watermark hcall => exact absurd hcall (hrun now watermark)
  | kept moved =>
    constructor
    · rw [moved.track]
      exact fun hr hk => hp.released hr ((moved.known hk).resolve_right id)
    · rw [moved.track, moved.abandoned]
      exact hp.abandoned
  | admitted now hcall moved =>
    constructor
    · rw [moved.track]
      exact fun hr => absurd rfl hr
    · rw [moved.track, moved.abandoned]
      exact fun hab => ⟨(hp.abandoned hab).1, rfl⟩
  | began listed t moved track =>
    obtain ⟨hna, hnr⟩ := hcareful.1 e listed
    have hrel : t.released = none := by
      rcases track with ⟨-, rfl⟩ | ⟨-, _, rfl⟩ <;> exact hnr
    constructor
    · rw [moved.track, hrel]
      exact fun hr => absurd rfl hr
    · rw [moved.abandoned]
      exact fun hab => absurd hab hna
  | tried listed t moved released =>
    obtain ⟨hna, hnr⟩ := hcareful.1 e listed
    constructor
    · rw [moved.track, released]
      exact fun hr => absurd hnr hr
    · rw [moved.abandoned]
      exact fun hab => absurd hab hna
  | ended hcall t moved track =>
    constructor
    · rw [moved.track, track.2]
      exact fun hr hk => hp.released hr ((moved.known hk).resolve_right id)
    · rw [moved.track, track.1, track.2, moved.abandoned]
      exact fun hab => ⟨rfl, (hp.abandoned hab).2⟩
  | returned hcall floor unknown received abandoned =>
    refine ⟨fun _ => unknown, fun hab => ?_⟩
    obtain ⟨hab, hin⟩ := abandoned hab
    exact absurd hab (hcareful.2 e (List.mem_append_right _ hin))

theorem filePlaced_snapshot (h : w.Good p) (hp : w.Placed p e) (pending : List EventId)
    (now : Nat) : FilePlaced p (w.ledger.snapshot (pending.map p.event) now) e := by
  rintro x hx rfl
  have hlook := (WakeLedger.mem_inFlight_snapshot h.ledger pending now x).1 hx
  have hne : (w.ledger.track x.id).inFlight ≠ none := fun hnone => by
    rw [show w.ledger.inFlight.lookup x.id = none from hnone] at hlook
    cases hlook
  refine ⟨fun hin => ?_, fun hin => hne (hp.abandoned hin).1⟩
  exact hne ((WakeLedger.mem_handled_snapshot h.ledger pending now x.id).1 hin).2.2

theorem Replays.step (h : w.Replays p e) {call : WakeCall} (hcareful : w.Careful p call) :
    (w.step p call).Replays p e := by
  have hgood := h.good.step call
  have hplaced : (w.step p call).Placed p e := by
    by_cases hrun : ∃ now watermark, call = .restart now watermark
    · obtain ⟨now, watermark, rfl⟩ := hrun
      exact h.good.placed_restart h.file now watermark
    · exact h.placed.step hcareful (effect_step h.good e call) fun now watermark hcall =>
        hrun ⟨now, watermark, hcall⟩
  refine ⟨hgood, hplaced, fun f hf => ?_⟩
  rcases saves_step h.good call with ⟨hdisk, -⟩ | ⟨now, hdisk, -⟩
  · exact h.file f (hdisk ▸ hf)
  · rw [hdisk] at hf
    cases hf
    exact filePlaced_snapshot hgood hplaced _ now

theorem replays_start (relayUrl agentPubkey : String) (now watermark : Nat) :
    (start relayUrl agentPubkey now watermark).Replays p e := by
  obtain ⟨hgood, htrack, -⟩ := start_spec (p := p) relayUrl agentPubkey now watermark
  exact ⟨hgood, .of_blank (htrack e), fun f hf => (Option.some_ne_none f hf.symm).elim⟩

/-- A ledger opened at `now` replays the event as new, from a time no later than the event and the
start of the look-back; or keeps it paused; or says that it stopped. -/
def Revived (p : Published) (l : WakeLedger) (now : Nat) (e : EventId) : Prop :=
  ((∀ seenAt, (l.admitEvent (p.event e) seenAt).1 ≠ .duplicate) ∧
    ∃ since, l.catchUpSince = some since ∧
      since ≤ max (p.createdAt e) (now - MAX_LOOKBACK_SECS)) ∨
  l.inFlight.lookup e ≠ none ∨ p.event e ∈ l.stopped

theorem opened_unfinished {f : LedgerFile} {l : WakeLedger} {now watermark : Nat}
    (hf : WakeLedger.FileSound p f) (hopened : WakeLedger.Opened p f now l)
    (hsince : l.catchUpSince = some (max (max (min (max (now - MAX_LOOKBACK_SECS) (min f.floor now))
      watermark) f.evictedFloor) l.evictedFloor))
    (hhandled : p.event e ∉ f.handled) (habandoned : p.event e ∉ f.abandoned)
    (hfloor : f.floor ≤ p.createdAt e) :
    p.createdAt e < l.evictedFloor ∨ Revived p l now e := by
  by_cases hbelow : p.createdAt e < l.evictedFloor
  · exact .inl hbelow
  · have hreplay : e ∉ l.handledIds →
        (∀ seenAt, (l.admitEvent (p.event e) seenAt).1 ≠ .duplicate) ∧
        ∃ since, l.catchUpSince = some since ∧
          since ≤ max (p.createdAt e) (now - MAX_LOOKBACK_SECS) := by
      intro hk
      refine ⟨fun seenAt hdup =>
        hk ((WakeLedger.admit_duplicate_iff seenAt l (p.event e)).1 hdup), _, hsince, ?_⟩
      have hle := hopened.floor
      generalize MAX_LOOKBACK_SECS = lookback
      omega
    rcases hopened.cases e with ⟨hnone, -⟩ | ⟨x, hx, rfl, ⟨hr, -⟩ | ⟨-, htrack⟩ | ⟨hr, -⟩⟩
    · refine .inr (.inl (hreplay fun hk => ?_))
      rcases hopened.known e hk with hin | hin | ⟨x, hx, hid, -⟩
      · exact hhandled hin
      · exact habandoned hin
      · exact hnone x hx hid
    · refine .inr (.inr (.inr ?_))
      have hstopped := hopened.stopped x hx hr
      rwa [hf.inFlight x hx] at hstopped
    · refine .inr (.inr (.inl ?_))
      rw [show l.inFlight.lookup x.id = some x from congrArg WakeLedger.Track.inFlight htrack]
      exact Option.some_ne_none x
    · exact .inr (.inl (hreplay (hopened.not_known_of_deliver hf hx hr hhandled habandoned)))

theorem not_abandoned_of_unfinished (h : w.Replays p e) {call : WakeCall}
    (hcareful : w.Careful p call) (hun : Unfinished (w.step p call).ledger (waiting call) e) :
    p.event e ∉ (w.step p call).ledger.abandoned := by
  intro hab
  obtain ⟨hf, hr⟩ := (h.step hcareful).placed.abandoned hab
  rcases hun with ⟨hin, -⟩ | hne | hne
  · have hrun : ∀ now watermark, call ≠ .restart now watermark := by
      rintro now watermark rfl
      exact List.not_mem_nil hin
    exact hcareful.2 e (List.mem_append_left _ hin)
      ((effect_step h.good e call).abandoned_of hrun hab)
  · exact hne hf
  · exact hne hr

theorem readFile_snapshot (l : WakeLedger) {pending : List HandledEvent} {now : Nat}
    (hfits : (l.snapshot pending now).jsonLen ≤ MAX_FILE_BYTES) :
    WakeLedger.readFile (some (l.snapshot pending now)) l.relayUrl l.agentPubkey =
      some (l.snapshot pending now) := by
  refine Option.filter_eq_some_iff.2 ⟨rfl, ?_⟩
  simp only [Bool.and_eq_true, decide_eq_true_eq]
  exact ⟨⟨⟨hfits, rfl⟩, rfl⟩, rfl⟩

theorem Replays.not_handled_snapshot (h : w.Replays p e) {pending : List EventId}
    (hun : Unfinished w.ledger pending e) (now : Nat) :
    p.event e ∉ (w.ledger.snapshot (pending.map p.event) now).handled := by
  intro hin
  obtain ⟨hk, hp, hf⟩ := (WakeLedger.mem_handled_snapshot h.good.ledger pending now e).1 hin
  rcases hun with hun | hun | hun
  · exact hp hun
  · exact hun hf
  · exact h.placed.released hun hk

def begunOnce : List WakeCall := [.admitEvent mention 100]

theorem openFile_of_long {f : LedgerFile} (hlong : MAX_FILE_BYTES < f.jsonLen)
    (relayUrl agentPubkey : String) (now watermark : Nat) :
    (WakeLedger.openFile (some f) relayUrl agentPubkey now watermark).catchUpSince = none ∧
      (WakeLedger.openFile (some f) relayUrl agentPubkey now watermark).inFlight = ∅ ∧
      (WakeLedger.openFile (some f) relayUrl agentPubkey now watermark).stopped = [] := by
  have hread : WakeLedger.readFile (some f) relayUrl agentPubkey = none := by
    simp [WakeLedger.readFile, Nat.not_le.2 hlong]
  simp only [WakeLedger.openFile, hread]
  exact ⟨rfl, rfl, rfl⟩

theorem length_le_jsonStringLen (s : String) : s.toList.length ≤ jsonStringLen s := by
  have hchar : ∀ c : Char, 1 ≤ jsonCharLen c := by
    intro c
    have := c.utf8Size_pos
    unfold jsonCharLen
    split
    · omega
    · split <;> omega
  have hsum : ∀ cs : List Char, cs.length ≤ (cs.map jsonCharLen).sum := by
    intro cs
    induction cs with
    | nil => exact Nat.le_refl _
    | cons c cs ih =>
      have := hchar c
      simp only [List.length_cons, List.map_cons, List.sum_cons]
      omega
  exact Nat.le_trans (hsum s.toList) (Nat.le_add_left _ _)

theorem relayUrl_lt_jsonLen (f : LedgerFile) : f.relayUrl.toList.length < f.jsonLen := by
  have := length_le_jsonStringLen f.relayUrl
  simp only [LedgerFile.jsonLen, jsonObjectLen, List.map_cons, List.sum_cons]
  omega

/-- Interrupted in four runs and given up on at the start of the fifth. -/
def givenUp : List WakeCall :=
  [.admitEvent mention 100, .commit [mention] [] 100 true,
    .restart 200 200, .admitEvent mention 200, .commit [mention] [] 200 true,
    .restart 1000 1000, .admitEvent mention 1000, .commit [mention] [] 1000 true,
    .restart 2000 2000, .admitEvent mention 2000, .commit [mention] [] 2000 true,
    .restart 3000 3000]

def Dropped (call : WakeCall) : Prop :=
  let w := runFrom (step atHundred) firstOpen (givenUp ++ [call])
  let f := w.ledger.snapshot ((waiting call).map atHundred.event) 3000
  let l := WakeLedger.openFile (some f) "wss://relay" "agent" 4000 4000
  Unfinished w.ledger (waiting call) mention ∧ w.disk = some f ∧ f.evictedFloor ≤ 100 ∧
    f.jsonLen ≤ MAX_FILE_BYTES ∧ (l.admitEvent (atHundred.event mention) 4000).1 = .duplicate ∧
    l.inFlight.lookup mention = none ∧ l.stopped = []

instance (call : WakeCall) : Decidable (Dropped call) := inferInstanceAs (Decidable (_ ∧ _))

/-- Handed back by a restart, then started and answered without being received again. -/
def startedUnreceived : List WakeCall :=
  [.admitEvent mention 100, .commit [mention] [] 100 true, .restart 200 200,
    .commit [mention] [] 200 true, .attachToTurn "turn" [mention],
    .finishTurn "turn" true [] 200 true]

def receivedOnly : List WakeCall := [.admitEvent mention 100, .sync [mention] 100 true]

theorem saved_received (url : String) :
    (runFrom (step p) (start url "agent" 100 100) receivedOnly).ledger.relayUrl = url ∧
      (runFrom (step p) (start url "agent" 100 100) receivedOnly).disk =
        some ((runFrom (step p) (start url "agent" 100 100) receivedOnly).ledger.snapshot
          [p.event mention] 100) := by
  obtain ⟨_, _, _, _, _, _, heq⟩ :=
    WakeLedger.admit_eq 100 (start url "agent" 100 100).ledger (p.event mention)
  have hretry : (start url "agent" 100 100).ledger.retryAt = none := rfl
  have hwritten : (start url "agent" 100 100).ledger.written = none := rfl
  simp only [receivedOnly, runFrom_cons, runFrom_nil, step, save, heq, WakeLedger.sync, hretry,
    WakeLedger.writeSnapshot, hwritten, Option.any_none, Bool.false_eq_true, reduceCtorEq, if_false,
    if_true]
  exact ⟨rfl, rfl⟩

def longUrl (n : Nat) : String := String.ofList (List.replicate n 'a')

theorem length_longUrl (n : Nat) : (longUrl n).toList.length = n := by
  rw [longUrl, String.toList_ofList, List.length_replicate]

def longFirst : World := start (longUrl MAX_FILE_BYTES) "agent" 100 100

theorem long_received : MAX_FILE_BYTES <
    ((runFrom (step atHundred) longFirst receivedOnly).ledger.snapshot [atHundred.event mention]
      100).jsonLen := by
  have hlt := relayUrl_lt_jsonLen
    ((runFrom (step atHundred) longFirst receivedOnly).ledger.snapshot [atHundred.event mention] 100)
  have hurl : ((runFrom (step atHundred) longFirst receivedOnly).ledger.snapshot
      [atHundred.event mention] 100).relayUrl = longUrl MAX_FILE_BYTES := (saved_received _).1
  rwa [hurl, length_longUrl] at hlt

end World

end Colony.Acp
