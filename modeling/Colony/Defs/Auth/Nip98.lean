import Colony.Defs.Core.Uuid
import Colony.Defs.Data.Run
import Mathlib.Algebra.Order.Floor.Ring
import Mathlib.Data.Rat.Floor

namespace Colony.Auth

open Colony.Core Colony.Data

/-- What other libraries do: signature and id of an event, the parsing of a URL, a digest.  An
id is a digest of what is signed, so that it stands for one `created_at`. -/
structure Library where
  verifyEvent : Event → Bool
  normalizeUrl : String → String
  sha256Hex : List UInt8 → String
  createdAt_eq : ∀ e e', verifyEvent e = true → verifyEvent e' = true → e.id = e'.id →
    e.createdAt = e'.createdAt

def timestampToleranceSecs : Nat := 60

def defaultReplayTtlSecs : Nat := 120

def maxReplayTtlSecs : Nat := 3600

def httpAuthKind : Kind := 27235

def tagsOf (e : Event) (kind : String) : List Tag := e.tags.filter fun t => t.kind = kind

def eqIgnoreAsciiCase (s t : String) : Bool :=
  s.toList.map Char.toLower = t.toList.map Char.toLower

variable (L : Library)

def verifyTimestamp (now : Int) (e : Event) : Except String Unit :=
  let delta := (now - e.createdAt).natAbs
  if delta > timestampToleranceSecs then
    .error s!"event timestamp outside ±60s window (delta: {delta}s)"
  else .ok ()

def verifyUrl (e : Event) (expectedUrl : String) : Except String Unit :=
  match tagsOf e "u" with
  | [t] =>
    match t.content with
    | none => .error "missing `u` tag"
    | some u =>
      if L.normalizeUrl u ≠ L.normalizeUrl expectedUrl then
        .error s!"URL mismatch: event has `{u}`, expected `{expectedUrl}`"
      else .ok ()
  | ts => .error s!"expected exactly one `u` tag, got {ts.length}"

def verifyMethod (e : Event) (expectedMethod : String) : Except String Unit :=
  match tagsOf e "method" with
  | [t] =>
    match t.content with
    | none => .error "missing `method` tag"
    | some m =>
      if !eqIgnoreAsciiCase m expectedMethod then
        .error s!"method mismatch: event has `{m}`, expected `{expectedMethod}`"
      else .ok ()
  | ts => .error s!"expected exactly one `method` tag, got {ts.length}"

def verifyPayload (e : Event) (body : Option (List UInt8)) : Except String Unit :=
  match tagsOf e "payload", body with
  | [], _ => .ok ()
  | [_], none => .ok ()
  | [t], some bytes =>
    match t.content with
    | none => .error "payload tag is missing its SHA-256 hash"
    | some hex =>
      if L.sha256Hex bytes ≠ hex then
        .error "payload tag SHA-256 mismatch: request body does not match signed hash"
      else .ok ()
  | ts, _ => .error s!"at most one `payload` tag allowed, got {ts.length}"

def verifyNip98Event (now : Int) (e : Event) (expectedUrl expectedMethod : String)
    (body : Option (List UInt8)) : Except String PublicKey := do
  if e.kind ≠ httpAuthKind then throw s!"expected kind 27235, got {e.kind.toNat}"
  if !L.verifyEvent e then throw "invalid Schnorr signature"
  verifyTimestamp now e
  verifyUrl L e expectedUrl
  verifyMethod e expectedMethod
  verifyPayload L e body
  return e.pubkey

/-- A request, with the moments at which its event is verified and its `SET` reaches Redis.
`guardFails` is a pool or a command that fails. -/
structure Request (R : Type) [LE R] where
  scope : String
  event : Event
  url : String
  method : String
  body : Option (List UInt8)
  requirePayload : Bool
  guardFails : Bool
  verifiedAt : R
  markedAt : R
  order : verifiedAt ≤ markedAt

def nip98ReplayKeyForScope (scope : String) (id : EventId) : String :=
  s!"buzz:{scope}:nip98:{id.toHex}"

section Pods

variable {R : Type} [Ring R] [LinearOrder R] [FloorRing R]

/-- `keys` are the markers with the moment they expire; `accepted` are the events for which a
request was let through. -/
structure Relay (R : Type) where
  clock : R
  keys : Dict String R
  accepted : List (String × EventId)

def clampTtl (ttlSecs : Nat) : Nat := min (max ttlSecs defaultReplayTtlSecs) maxReplayTtlSecs

def tryMarkInScope (s : Relay R) (scope : String) (id : EventId) (now : R) (ttlSecs : Nat) :
    Relay R × Bool :=
  let key := nip98ReplayKeyForScope scope id
  if (s.keys.lookup key).any fun expiry => now < expiry then (s, false)
  else ({ s with keys := s.keys.insert key (now + (clampTtl ttlSecs : Nat)) }, true)

def zeroId : EventId := ⟨0⟩

def checkNip98Replay (s : Relay R) (r : Request R) : Relay R × Except String Unit :=
  if r.event.id = zeroId then (s, .ok ())
  else if r.guardFails then (s, .error "NIP-98: replay check unavailable")
  else
    match tryMarkInScope s r.scope r.event.id r.markedAt defaultReplayTtlSecs with
    | (s, true) => (s, .ok ())
    | (s, false) => (s, .error "NIP-98: replay detected")

def verifyRequest (r : Request R) : Except String PublicKey :=
  if r.requirePayload && (tagsOf r.event "payload").isEmpty then
    .error "NIP-98: missing payload tag"
  else verifyNip98Event L ⌊r.verifiedAt⌋ r.event r.url r.method r.body

def serve (s : Relay R) (r : Request R) : Relay R :=
  if r.markedAt < s.clock then s
  else
    match verifyRequest L r with
    | .error _ => s
    | .ok _ =>
      match checkNip98Replay { s with clock := r.markedAt } r with
      | (s, .ok ()) => { s with accepted := s.accepted ++ [(r.scope, r.event.id)] }
      | (s, .error _) => s

def Relay.start : Relay R := ⟨0, ∅, []⟩

end Pods

theorem nip98ReplayKeyForScope_inj {scope scope' : String} {id id' : EventId}
    (h : nip98ReplayKeyForScope scope id = nip98ReplayKeyForScope scope' id') :
    scope = scope' ∧ id = id' := by
  have hl : ("buzz:".toList ++ scope.toList ++ ":nip98:".toList) ++ id.toHex.toList =
      ("buzz:".toList ++ scope'.toList ++ ":nip98:".toList) ++ id'.toHex.toList := by
    simpa [nip98ReplayKeyForScope, ← String.toList_inj, toString] using h
  obtain ⟨hs, hid⟩ := List.append_inj' hl (by simp [EventId.toHex])
  refine ⟨String.toList_inj.1 ?_, EventId.toHex_inj (String.toList_inj.1 hid)⟩
  exact List.append_cancel_left (List.append_cancel_right hs)

section Once

variable {R : Type} [Ring R] [LinearOrder R] [FloorRing R] {s : Relay R} {r : Request R}

theorem verifyNip98Event_ok {now : Int} {e : Event} {url method : String}
    {body : Option (List UInt8)} {p : PublicKey}
    (h : verifyNip98Event L now e url method body = .ok p) :
    L.verifyEvent e = true ∧ (now - e.createdAt).natAbs ≤ 60 := by
  unfold verifyNip98Event at h
  by_cases hk : e.kind = httpAuthKind
  · by_cases hv : L.verifyEvent e = true
    · refine ⟨hv, ?_⟩
      by_contra hd
      have ht : verifyTimestamp now e =
          .error s!"event timestamp outside ±60s window (delta: {(now - e.createdAt).natAbs}s)" :=
        if_pos (by simpa [timestampToleranceSecs] using hd)
      simp [hk, hv, ht, bind, Except.bind] at h
    · simp [hk, hv, throw, throwThe, MonadExceptOf.throw, bind, Except.bind] at h
  · simp [hk, throw, throwThe, MonadExceptOf.throw, bind, Except.bind] at h

def Relay.Live (s : Relay R) (scope : String) (id : EventId) (now : R) : Prop :=
  ∃ expiry, s.keys.lookup (nip98ReplayKeyForScope scope id) = some expiry ∧ now < expiry

theorem serve_cases (s : Relay R) (r : Request R) (hz : r.event.id ≠ zeroId) :
    ((serve L s r).keys = s.keys ∧ (serve L s r).accepted = s.accepted) ∨
      ((∃ p, verifyRequest L r = .ok p) ∧ ¬ s.Live r.scope r.event.id r.markedAt ∧
        (serve L s r).keys =
          s.keys.insert (nip98ReplayKeyForScope r.scope r.event.id) (r.markedAt + 120) ∧
        (serve L s r).accepted = s.accepted ++ [(r.scope, r.event.id)]) := by
  have httl : clampTtl defaultReplayTtlSecs = 120 := by decide
  unfold serve
  split
  · exact .inl ⟨rfl, rfl⟩
  · cases hv : verifyRequest L r with
    | error m => exact .inl ⟨rfl, rfl⟩
    | ok p =>
      simp only [checkNip98Replay, hz, if_false, tryMarkInScope]
      by_cases hg : r.guardFails = true
      · simp [hg]
      · by_cases hl : s.Live r.scope r.event.id r.markedAt
        · obtain ⟨expiry, hkey, hlt⟩ := hl
          simp [hg, hkey, hlt]
        · right
          have hkey : (s.keys.lookup (nip98ReplayKeyForScope r.scope r.event.id)).any
              (fun expiry => r.markedAt < expiry) = false := by
            cases hk : s.keys.lookup (nip98ReplayKeyForScope r.scope r.event.id) with
            | none => rfl
            | some expiry => simpa using fun hlt => hl ⟨expiry, hk, hlt⟩
          simp [hg, hkey, httl, hl]

variable [IsStrictOrderedRing R]

theorem verifyRequest_ok {p : PublicKey} (h : verifyRequest L r = .ok p) :
    L.verifyEvent r.event = true ∧ (r.event.createdAt : R) ≤ r.verifiedAt + 60 := by
  unfold verifyRequest at h
  split at h
  · cases h
  · obtain ⟨hv, hd⟩ := verifyNip98Event_ok L h
    have hf : (r.event.createdAt : Int) ≤ ⌊r.verifiedAt⌋ + 60 := by omega
    refine ⟨hv, ?_⟩
    calc (r.event.createdAt : R) = ((r.event.createdAt : Int) : R) := by simp
      _ ≤ ((⌊r.verifiedAt⌋ + 60 : Int) : R) := Int.cast_le.2 hf
      _ = (⌊r.verifiedAt⌋ : R) + 60 := by simp
      _ ≤ r.verifiedAt + 60 := by gcongr; exact Int.floor_le _

structure Relay.Marked (s : Relay R) : Prop where
  nodup : s.accepted.Nodup
  outlives : ∀ p ∈ s.accepted, ∃ e expiry, L.verifyEvent e = true ∧ e.id = p.2 ∧
    s.keys.lookup (nip98ReplayKeyForScope p.1 p.2) = some expiry ∧
    (e.createdAt : R) + 60 ≤ expiry

/-- A request with an event that has been marked in its scope is in time, or finds the marker. -/
def InTime (s : Relay R) (r : Request R) : Prop :=
  r.event.id ≠ zeroId ∧ ∀ expiry ∈ s.keys.lookup (nip98ReplayKeyForScope r.scope r.event.id),
    r.markedAt < r.event.createdAt + 60 ∨ r.markedAt < expiry

theorem Relay.Marked.serve (h : s.Marked L) (hr : InTime s r) : (serve L s r).Marked L := by
  obtain ⟨hk, ha⟩ | ⟨⟨p, hp⟩, hlive, hk, ha⟩ := serve_cases L s r hr.1
  · exact ⟨ha ▸ h.nodup, by rw [hk, ha]; exact h.outlives⟩
  · obtain ⟨hv, hc⟩ := verifyRequest_ok L hp
    -- An accepted event of this id has its marker until after the request's time is over.
    have hfresh : (r.scope, r.event.id) ∉ s.accepted := by
      intro hmem
      obtain ⟨e, expiry, he, hid, hkey, hexp⟩ := h.outlives _ hmem
      have hsame : e.createdAt = r.event.createdAt := L.createdAt_eq e r.event he hv hid
      refine hlive ⟨expiry, hkey, (hr.2 expiry hkey).elim (fun hlt => ?_) id⟩
      exact hlt.trans_le (hsame ▸ hexp)
    refine ⟨?_, fun q hq => ?_⟩
    · rw [ha]
      exact List.nodup_append.2 ⟨h.nodup, by simp, by grind⟩
    · rw [ha] at hq
      rw [hk]
      rcases List.mem_append.1 hq with hq | hq
      · obtain ⟨e, expiry, he, hid, hkey, hexp⟩ := h.outlives q hq
        refine ⟨e, expiry, he, hid, ?_, hexp⟩
        rw [Dict.lookup_insert_if, if_neg, hkey]
        intro hkeys
        obtain ⟨hscope, hid'⟩ := nip98ReplayKeyForScope_inj hkeys
        exact hfresh (by rw [← hscope, ← hid']; exact hq)
      · obtain rfl := List.mem_singleton.1 hq
        refine ⟨r.event, r.markedAt + 120, hv, rfl, by simp, ?_⟩
        calc (r.event.createdAt : R) + 60 ≤ r.verifiedAt + 60 + 60 := by gcongr
          _ = r.verifiedAt + 120 := by rw [add_assoc]; norm_num
          _ ≤ r.markedAt + 120 := by gcongr; exact r.order

/-- If every request with an event that was marked before comes less than sixty seconds after the
event was made, or while the marker stands, an event is accepted at most once in each scope. -/
theorem run_accepted_nodup {requests : List (Request R)}
    (h : Along (serve L) InTime Relay.start requests) :
    (runFrom (serve L) Relay.start requests).accepted.Nodup :=
  (h.preserves (fun _ _ hs hr => Relay.Marked.serve L hs hr)
    (show (Relay.start : Relay R).Marked L from ⟨List.nodup_nil, nofun⟩)).nodup

end Once

def sampleUrl : String := "relay/query"

def sampleEvent : Event where
  id := ⟨1⟩
  pubkey := ⟨7⟩
  createdAt := 1000
  kind := httpAuthKind
  tags := [⟨"u", [sampleUrl]⟩, ⟨"method", ["POST"]⟩]
  content := ""

def sampleLibrary : Library where
  verifyEvent e := decide (e = sampleEvent)
  normalizeUrl := id
  sha256Hex _ := ""
  createdAt_eq e e' h h' _ := by
    rw [of_decide_eq_true h, of_decide_eq_true h']

def sampleRequest (time : ℚ) : Request ℚ where
  scope := "community"
  event := sampleEvent
  url := sampleUrl
  method := "post"
  body := none
  requirePayload := false
  guardFails := false
  verifiedAt := time
  markedAt := time
  order := le_rfl

def sampleRequests : List (Request ℚ) := [sampleRequest 1000, sampleRequest 1059, sampleRequest 1060]

theorem run_accepted_nodup_sample :
    Along (serve sampleLibrary) InTime Relay.start sampleRequests ∧
      (runFrom (serve sampleLibrary) Relay.start sampleRequests).accepted.Nodup :=
  have h : Along (serve sampleLibrary) InTime Relay.start sampleRequests :=
    ⟨⟨by decide, by decide +kernel⟩, ⟨by decide, by decide +kernel⟩, ⟨by decide, by decide +kernel⟩,
      trivial⟩
  ⟨h, run_accepted_nodup sampleLibrary h⟩

theorem accepted_twice :
    (runFrom (serve sampleLibrary) Relay.start
      [sampleRequest 940, sampleRequest 1060]).accepted =
        [("community", sampleEvent.id), ("community", sampleEvent.id)] := by
  decide +kernel

end Colony.Auth
