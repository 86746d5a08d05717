import Colony.Defs.Data.Framing
import Mathlib.Data.List.Infix

namespace Colony.Git.Report

open Colony.Data

def hexVal (b : UInt8) : Option Nat :=
  if 48 ≤ b ∧ b ≤ 57 then some (b.toNat - 48)
  else if 97 ≤ b ∧ b ≤ 102 then some (b.toNat - 87)
  else if 65 ≤ b ∧ b ≤ 70 then some (b.toNat - 55)
  else none

def readLength (a b c d : UInt8) : Option Nat := do
  let a ← if a = 43 then some 0 else hexVal a
  let b ← hexVal b
  let c ← hexVal c
  let d ← hexVal d
  return ((a * 16 + b) * 16 + c) * 16 + d

/-- `PktLineIter`: it passes over control packets and stops at a malformed length or a frame
that is cut off. -/
def pktLines : Nat → List UInt8 → List (List UInt8)
  | fuel + 1, a :: b :: c :: d :: rest =>
    match readLength a b c d with
    | none => []
    | some len =>
      if len < 4 then pktLines fuel rest
      else if rest.length < len - 4 then []
      else rest.take (len - 4) :: pktLines fuel (rest.drop (len - 4))
  | _, _ => []

def payloads (buf : List UInt8) : List (List UInt8) := pktLines buf.length buf

def startsNg (line : List UInt8) : Bool := [110, 103, 32].isPrefixOf line

def packetRejects (payload : List UInt8) : Bool :=
  if payload.head? = some 1 then (payloads payload.tail).any startsNg
  else if payload.head? = some 2 ∨ payload.head? = some 3 then false
  else startsNg payload

def receivePackReportRejected (stdout : List UInt8) : Bool := (payloads stdout).any packetRejects

def hexByte (n : Nat) : UInt8 := (Nat.digitChar n).toNat.toUInt8

def pktLine (payload : List UInt8) : List UInt8 :=
  digits hexByte 16 4 (payload.length + 4) ++ payload

def flush : List UInt8 := [48, 48, 48, 48]

structure StatusLine where
  bytes : List UInt8
  fits : bytes.length + 4 < 16 ^ 4
  text : ∀ b ∈ bytes.head?, 32 ≤ b

def stream (lines : List StatusLine) : List UInt8 := lines.flatMap fun line => pktLine line.bytes

inductive Packet
  | data (chunk : List UInt8)
  | progress (text : List UInt8)
  | error (text : List UInt8)
  | control

def Packet.payload : Packet → List UInt8
  | .data chunk => 1 :: chunk
  | .progress text => 2 :: text
  | .error text => 3 :: text
  | .control => []

def Packet.encode : Packet → List UInt8
  | .control => flush
  | p => pktLine p.payload

def Packet.Fits (p : Packet) : Prop := p.payload.length + 4 < 16 ^ 4

def Packet.chunk : Packet → Option (List UInt8)
  | .data chunk => some chunk
  | _ => none

theorem stream_append (l₁ l₂ : List StatusLine) : stream (l₁ ++ l₂) = stream l₁ ++ stream l₂ :=
  List.flatMap_append

theorem pktLines_short {fuel : Nat} {buf : List UInt8} (h : buf.length < 4) :
    pktLines fuel buf = [] := by
  match fuel, buf, h with
  | 0, _, _ => rfl
  | _ + 1, [], _ => rfl
  | _ + 1, [_], _ => rfl
  | _ + 1, [_, _], _ => rfl
  | _ + 1, [_, _, _], _ => rfl

theorem exists_header {buf : List UInt8} (h : ¬ buf.length < 4) :
    ∃ a b c d rest, buf = a :: b :: c :: d :: rest := by
  match buf with
  | a :: b :: c :: d :: rest => exact ⟨a, b, c, d, rest, rfl⟩
  | [] | [_] | [_, _] | [_, _, _] => simp at h

theorem pktLines_fuel {fuel : Nat} {buf : List UInt8} (h : buf.length ≤ fuel) :
    pktLines fuel buf = payloads buf := by
  have hsame : ∀ (n m : Nat) (buf : List UInt8), buf.length ≤ n → buf.length ≤ m →
      pktLines n buf = pktLines m buf := by
    intro n
    induction n with
    | zero =>
      intro m buf hn _
      rw [List.length_eq_zero_iff.1 (Nat.le_zero.1 hn)]
      cases m <;> rfl
    | succ n ih =>
      intro m buf hn hm
      by_cases hshort : buf.length < 4
      · rw [pktLines_short hshort, pktLines_short hshort]
      · obtain ⟨a, b, c, d, rest, rfl⟩ := exists_header hshort
        simp only [List.length_cons] at hn hm
        obtain ⟨m, rfl⟩ := Nat.exists_eq_add_of_le' (by omega : 1 ≤ m)
        simp only [pktLines]
        rw [ih m rest (by omega) (by omega)]
        cases readLength a b c d with
        | none => rfl
        | some len =>
          simp only
          rw [ih m (rest.drop (len - 4)) (by rw [List.length_drop]; omega)
            (by rw [List.length_drop]; omega)]
  exact hsame fuel buf.length buf h le_rfl

theorem payloads_cons (a b c d : UInt8) (rest : List UInt8) :
    payloads (a :: b :: c :: d :: rest) =
      match readLength a b c d with
      | none => []
      | some len =>
        if len < 4 then payloads rest
        else if rest.length < len - 4 then []
        else rest.take (len - 4) :: payloads (rest.drop (len - 4)) := by
  rw [payloads, List.length_cons, pktLines, pktLines_fuel (by simp only [List.length_cons]; omega)]
  cases readLength a b c d with
  | none => rfl
  | some len =>
    simp only
    rw [pktLines_fuel (by simp only [List.length_cons, List.length_drop]; omega)]

theorem payloads_whole {a b c d : UInt8} {payload : List UInt8}
    (h : readLength a b c d = some (payload.length + 4)) (rest : List UInt8) :
    payloads (a :: b :: c :: d :: (payload ++ rest)) = payload :: payloads rest := by
  simp only [payloads_cons, h]
  rw [if_neg (by omega), if_neg (by simp), Nat.add_sub_cancel, List.take_left' rfl,
    List.drop_left' rfl]

theorem payloads_control {a b c d : UInt8} {len : Nat} (h : readLength a b c d = some len)
    (hlen : len < 4) (rest : List UInt8) : payloads (a :: b :: c :: d :: rest) = payloads rest := by
  simp only [payloads_cons, h, if_pos hlen]

theorem hexVal_hexByte : ∀ n < 16, hexVal (hexByte n) = some n ∧ hexByte n ≠ 43 := by decide

theorem digits_readLength {n : Nat} (h : n < 16 ^ 4) :
    ∃ a b c d, digits hexByte 16 4 n = [a, b, c, d] ∧ readLength a b c d = some n := by
  refine ⟨_, _, _, _, rfl, ?_⟩
  have hdigit (i : Nat) := hexVal_hexByte (n / 16 ^ i % 16) (Nat.mod_lt _ (by decide))
  have hvalue : ((n / 16 ^ 3 % 16 * 16 + n / 16 ^ 2 % 16) * 16 + n / 16 ^ 1 % 16) * 16 +
      n / 16 ^ 0 % 16 = n := by omega
  simp only [readLength, if_neg (hdigit 3).2, (hdigit 3).1, (hdigit 2).1, (hdigit 1).1,
    (hdigit 0).1, Option.bind_eq_bind, Option.bind_some, Option.pure_def, hvalue]

theorem payloads_pktLine {payload : List UInt8} (h : payload.length + 4 < 16 ^ 4)
    (rest : List UInt8) : payloads (pktLine payload ++ rest) = payload :: payloads rest := by
  obtain ⟨a, b, c, d, hdigits, hlen⟩ := digits_readLength h
  rw [pktLine, hdigits, List.append_assoc]
  exact payloads_whole hlen rest

theorem payloads_flush (rest : List UInt8) : payloads (flush ++ rest) = payloads rest :=
  payloads_control (show readLength 48 48 48 48 = some 0 by decide) (by decide) rest

theorem payloads_of_cut {payload buf : List UInt8} (h : payload.length + 4 < 16 ^ 4)
    (hpre : buf <+: pktLine payload) (hcut : buf.length < (pktLine payload).length) :
    payloads buf = [] := by
  by_cases hshort : buf.length < 4
  · exact pktLines_short hshort
  · obtain ⟨a, b, c, d, hdigits, hlen⟩ := digits_readLength h
    obtain ⟨rest, hrest⟩ := hpre
    obtain ⟨a', b', c', d', buf, rfl⟩ := exists_header hshort
    rw [pktLine, hdigits] at hrest hcut
    simp only [List.cons_append, List.nil_append, List.cons.injEq] at hrest
    obtain ⟨rfl, rfl, rfl, rfl, -⟩ := hrest
    simp only [List.cons_append, List.nil_append, List.length_cons] at hcut
    simp only [payloads_cons, hlen]
    rw [if_neg (by omega), if_pos (by omega)]

theorem not_reserved (line : StatusLine) : packetRejects line.bytes = startsNg line.bytes := by
  have hne (b : UInt8) (hb : ¬ 32 ≤ b) : line.bytes.head? ≠ some b :=
    fun h => hb (line.text b h)
  rw [packetRejects, if_neg (hne 1 (by decide)), if_neg]
  rintro (h | h)
  · exact hne 2 (by decide) h
  · exact hne 3 (by decide) h

theorem payloads_stream (lines : List StatusLine) (rest : List UInt8) :
    payloads (stream lines ++ rest) = lines.map StatusLine.bytes ++ payloads rest := by
  induction lines with
  | nil => rfl
  | cons line lines ih =>
    rw [stream, List.flatMap_cons, List.append_assoc, payloads_pktLine line.fits, ← stream, ih]
    rfl

theorem payloads_packets {packets : List Packet} (h : ∀ p ∈ packets, p.Fits) :
    (payloads (packets.flatMap Packet.encode)).any packetRejects =
      (packets.filterMap Packet.chunk).any fun chunk => (payloads chunk).any startsNg := by
  induction packets with
  | nil => rfl
  | cons p packets ih =>
    obtain ⟨hp, hpackets⟩ := List.forall_mem_cons.1 h
    rw [List.flatMap_cons]
    cases p with
    | data chunk =>
      rw [show (Packet.data chunk).encode = pktLine (Packet.data chunk).payload from rfl,
        payloads_pktLine hp, List.any_cons, ih hpackets]
      rfl
    | progress text =>
      rw [show (Packet.progress text).encode = pktLine (Packet.progress text).payload from rfl,
        payloads_pktLine hp, List.any_cons, ih hpackets]
      rfl
    | error text =>
      rw [show (Packet.error text).encode = pktLine (Packet.error text).payload from rfl,
        payloads_pktLine hp, List.any_cons, ih hpackets]
      rfl
    | control =>
      rw [show Packet.control.encode = flush from rfl, payloads_flush, ih hpackets]
      rfl

inductive Reaches : List UInt8 → Prop
  | here {a b c d : UInt8} {payload rest : List UInt8} :
      readLength a b c d = some (payload.length + 4) → startsNg payload = true →
        Reaches (a :: b :: c :: d :: (payload ++ rest))
  | next {a b c d : UInt8} {payload rest : List UInt8} :
      readLength a b c d = some (payload.length + 4) → Reaches rest →
        Reaches (a :: b :: c :: d :: (payload ++ rest))
  | control {a b c d : UInt8} {len : Nat} {rest : List UInt8} :
      readLength a b c d = some len → len < 4 → Reaches rest → Reaches (a :: b :: c :: d :: rest)

theorem reaches_iff {buf : List UInt8} : Reaches buf ↔ (payloads buf).any startsNg = true := by
  constructor
  · intro h
    induction h with
    | here hlen hng => rw [payloads_whole hlen, List.any_cons, hng, Bool.true_or]
    | next hlen _ ih => rw [payloads_whole hlen, List.any_cons, ih, Bool.or_true]
    | control hlen hlt _ ih => rw [payloads_control hlen hlt, ih]
  · intro h
    induction hn : buf.length using Nat.strongRecOn generalizing buf with
    | ind n ih =>
      by_cases hshort : buf.length < 4
      · rw [payloads, pktLines_short hshort] at h
        simp at h
      · obtain ⟨a, b, c, d, rest, rfl⟩ := exists_header hshort
        simp only [List.length_cons] at hn
        rw [payloads_cons] at h
        cases hlen : readLength a b c d with
        | none => simp [hlen] at h
        | some len =>
          simp only [hlen] at h
          split_ifs at h with hcontrol hcut
          · exact .control hlen hcontrol (ih rest.length (by omega) h rfl)
          · simp at h
          · have hpayload : (rest.take (len - 4)).length + 4 = len := by
              rw [List.length_take]
              omega
            rw [List.any_cons, Bool.or_eq_true] at h
            rw [← List.take_append_drop (len - 4) rest]
            rcases h with hng | hrest
            · exact .here (by rw [hpayload, hlen]) hng
            · exact .next (by rw [hpayload, hlen])
                (ih (rest.drop (len - 4)).length (by rw [List.length_drop]; omega) hrest rfl)

def AtBoundary (lines : List StatusLine) (before : List UInt8) : Prop :=
  ∃ l₁ l₂, lines = l₁ ++ l₂ ∧ before = stream l₁

def SeenWhole (lines : List StatusLine) (chunks : List (List UInt8)) : Prop :=
  ∃ pre chunk post l₁ l₂ line l₃, chunks = pre ++ chunk :: post ∧
    lines = l₁ ++ (l₂ ++ line :: l₃) ∧ pre.flatten = stream l₁ ∧
    stream l₂ ++ pktLine line.bytes <+: chunk ∧ startsNg line.bytes = true

def SeenByAccident (lines : List StatusLine) (chunks : List (List UInt8)) : Prop :=
  ∃ pre chunk post, chunks = pre ++ chunk :: post ∧ ¬ AtBoundary lines pre.flatten ∧ Reaches chunk

theorem payloads_of_boundary {lines : List StatusLine} {chunk rest : List UInt8}
    (h : chunk ++ rest = stream lines ++ flush) : (payloads chunk).any startsNg = true ↔
      ∃ l₂ line l₃, lines = l₂ ++ line :: l₃ ∧ stream l₂ ++ pktLine line.bytes <+: chunk ∧
        startsNg line.bytes = true := by
  induction lines generalizing chunk with
  | nil =>
    have hlen := congrArg List.length h
    have hnone : payloads chunk = [] := by
      by_cases hshort : chunk.length < 4
      · exact pktLines_short hshort
      · have hchunk : chunk = flush :=
          (List.append_inj (h.trans (List.append_nil flush).symm) (by
            simp [stream, flush] at hlen ⊢
            omega)).1
        rw [hchunk]
        rfl
    simp [hnone]
  | cons line lines ih =>
    have hpre : chunk <+: stream (line :: lines) ++ flush := ⟨rest, h⟩
    rw [show stream (line :: lines) = pktLine line.bytes ++ stream lines from rfl,
      List.append_assoc] at h
    by_cases hcut : chunk.length < (pktLine line.bytes).length
    · have hshort : chunk <+: pktLine line.bytes :=
        List.prefix_of_prefix_length_le hpre ⟨stream lines ++ flush, by
          rw [← List.append_assoc]; rfl⟩ hcut.le
      rw [payloads_of_cut line.fits hshort hcut]
      simp only [List.any_nil, Bool.false_eq_true, false_iff]
      rintro ⟨l₂, line', l₃, hlines, hwhole, -⟩
      have hlen := hwhole.length_le
      cases l₂ with
      | nil =>
        cases hlines
        simp only [stream, List.flatMap_nil, List.nil_append] at hlen
        omega
      | cons line'' l₂ =>
        cases hlines
        simp only [stream, List.flatMap_cons, List.length_append] at hlen
        omega
    · obtain ⟨chunk, rfl⟩ : ∃ chunk', chunk = pktLine line.bytes ++ chunk' := by
        obtain ⟨chunk', hchunk⟩ := List.prefix_of_prefix_length_le
          ⟨stream lines ++ flush, h.symm⟩ (List.prefix_append chunk rest) (Nat.not_lt.1 hcut)
        exact ⟨chunk', hchunk.symm⟩
      rw [List.append_assoc] at h
      rw [payloads_pktLine line.fits, List.any_cons, Bool.or_eq_true, ih (List.append_cancel_left h)]
      constructor
      · rintro (hng | ⟨l₂, line', l₃, rfl, hwhole, hng⟩)
        · exact ⟨[], line, lines, rfl, List.prefix_append _ _, hng⟩
        · refine ⟨line :: l₂, line', l₃, rfl, ?_, hng⟩
          rw [show stream (line :: l₂) = pktLine line.bytes ++ stream l₂ from rfl,
            List.append_assoc]
          exact (List.prefix_append_right_inj _).2 hwhole
      · rintro ⟨l₂, line', l₃, hlines, hwhole, hng⟩
        cases l₂ with
        | nil =>
          cases hlines
          exact .inl hng
        | cons line'' l₂ =>
          cases hlines
          rw [show stream (line :: l₂) = pktLine line.bytes ++ stream l₂ from rfl,
            List.append_assoc] at hwhole
          exact .inr ⟨l₂, line', l₃, rfl, (List.prefix_append_right_inj _).1 hwhole, hng⟩

theorem rejected_iff_seen {lines : List StatusLine} {packets : List Packet}
    (hfits : ∀ p ∈ packets, p.Fits)
    (hcut : (packets.filterMap Packet.chunk).flatten = stream lines ++ flush) :
    receivePackReportRejected (packets.flatMap Packet.encode) = true ↔
      SeenWhole lines (packets.filterMap Packet.chunk) ∨
        SeenByAccident lines (packets.filterMap Packet.chunk) := by
  rw [receivePackReportRejected, payloads_packets hfits]
  -- what comes after a packet that starts at a boundary is the rest of the report
  have hafter {pre : List (List UInt8)} {chunk : List UInt8} {post : List (List UInt8)}
      {l₁ l₂ : List StatusLine} (hchunks : packets.filterMap Packet.chunk = pre ++ chunk :: post)
      (hlines : lines = l₁ ++ l₂) (hpre : pre.flatten = stream l₁) :
      chunk ++ post.flatten = stream l₂ ++ flush := by
    rw [hchunks, List.flatten_append, List.flatten_cons, hpre, hlines, stream_append,
      List.append_assoc] at hcut
    exact List.append_cancel_left hcut
  constructor
  · intro h
    obtain ⟨chunk, hmem, hchunk⟩ := List.any_eq_true.1 h
    obtain ⟨pre, post, hchunks⟩ := List.append_of_mem hmem
    by_cases hboundary : AtBoundary lines pre.flatten
    · obtain ⟨l₁, l₂, hlines, hpre⟩ := hboundary
      obtain ⟨l₃, line, l₄, rfl, hwhole, hng⟩ :=
        (payloads_of_boundary (hafter hchunks hlines hpre)).1 hchunk
      exact .inl ⟨pre, chunk, post, l₁, l₃, line, l₄, hchunks, hlines, hpre, hwhole, hng⟩
    · exact .inr ⟨pre, chunk, post, hchunks, hboundary, reaches_iff.2 hchunk⟩
  · rintro (⟨pre, chunk, post, l₁, l₂, line, l₃, hchunks, hlines, hpre, hwhole, hng⟩ |
      ⟨pre, chunk, post, hchunks, -, hreaches⟩)
    · refine List.any_eq_true.2 ⟨chunk, by rw [hchunks]; simp, ?_⟩
      exact (payloads_of_boundary (hafter hchunks hlines hpre)).2 ⟨l₂, line, l₃, rfl, hwhole, hng⟩
    · exact List.any_eq_true.2 ⟨chunk, by rw [hchunks]; simp, reaches_iff.1 hreaches⟩

theorem rejected_without_sideband (lines : List StatusLine) :
    receivePackReportRejected (stream lines ++ flush) = true ↔
      ∃ line ∈ lines, startsNg line.bytes = true := by
  rw [receivePackReportRejected, payloads_stream, show payloads flush = [] from rfl,
    List.append_nil, List.any_map, List.any_eq_true]
  simp only [Function.comp_apply, not_reserved]

theorem report_rejected_iff (lines : List StatusLine) :
    (∀ packets : List Packet, (∀ p ∈ packets, p.Fits) →
      (packets.filterMap Packet.chunk).flatten = stream lines ++ flush →
      ((receivePackReportRejected (packets.flatMap Packet.encode) = true ↔
          ∃ line ∈ lines, startsNg line.bytes = true) ↔
        ((∃ line ∈ lines, startsNg line.bytes = true) →
          SeenWhole lines (packets.filterMap Packet.chunk) ∨
            SeenByAccident lines (packets.filterMap Packet.chunk)) ∧
        (SeenByAccident lines (packets.filterMap Packet.chunk) →
          ∃ line ∈ lines, startsNg line.bytes = true))) ∧
      (receivePackReportRejected (stream lines ++ flush) = true ↔
        ∃ line ∈ lines, startsNg line.bytes = true) := by
  refine ⟨fun packets hfits hcut => ?_, rejected_without_sideband lines⟩
  rw [rejected_iff_seen hfits hcut]
  have hwhole : SeenWhole lines (packets.filterMap Packet.chunk) →
      ∃ line ∈ lines, startsNg line.bytes = true := by
    rintro ⟨pre, chunk, post, l₁, l₂, line, l₃, -, rfl, -, -, hng⟩
    exact ⟨line, by simp, hng⟩
  constructor
  · intro h
    exact ⟨h.2, fun haccident => h.1 (.inr haccident)⟩
  · rintro ⟨hseen, haccident⟩
    exact ⟨fun h => h.elim hwhole haccident, hseen⟩

def lineBytes (s : String) : List UInt8 := s.toList.map fun c => c.toNat.toUInt8

def declined : List StatusLine :=
  [⟨lineBytes "unpack ok\n", by decide +kernel, by decide +kernel⟩,
    ⟨lineBytes "ng refs/heads/main pre-receive hook declined\n", by decide +kernel,
      by decide +kernel⟩]

def cutAt (n : Nat) : List Packet :=
  [.data ((stream declined ++ flush).take n), .progress (lineBytes "remote: declined\n"),
    .data ((stream declined ++ flush).drop n), .control]

theorem cutAt_flatten (n : Nat) :
    ((cutAt n).filterMap Packet.chunk).flatten = stream declined ++ flush := by
  have hchunks : (cutAt n).filterMap Packet.chunk =
      [(stream declined ++ flush).take n, (stream declined ++ flush).drop n] := rfl
  rw [hchunks, List.flatten_cons, List.flatten_cons, List.flatten_nil, List.append_nil,
    List.take_append_drop]

theorem report_rejected_missed : ((cutAt 24).filterMap Packet.chunk).flatten =
    stream declined ++ flush ∧ (∃ line ∈ declined, startsNg line.bytes = true) ∧
      receivePackReportRejected ((cutAt 24).flatMap Packet.encode) = false :=
  ⟨cutAt_flatten 24, ⟨declined[1], by simp [declined], by decide⟩, by decide +kernel⟩

theorem report_rejected_seen : (receivePackReportRejected ((cutAt 14).flatMap Packet.encode) = true ↔
    ∃ line ∈ declined, startsNg line.bytes = true) := by
  have hfits : ∀ p ∈ cutAt 14, p.Fits := by
    simp only [cutAt, List.forall_mem_cons, Packet.Fits]
    decide +kernel
  refine ((report_rejected_iff declined).1 (cutAt 14) hfits (cutAt_flatten 14)).2 ⟨fun _ => .inl ?_,
    fun _ => ⟨declined[1], by simp [declined], by decide⟩⟩
  exact ⟨[_], _, [], [declined[0]], [], declined[1], [], rfl, rfl, by decide +kernel,
    ⟨flush, by decide +kernel⟩, by decide⟩

end Colony.Git.Report
