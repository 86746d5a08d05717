import Colony.Defs.Core.Event
import Colony.Defs.Data.Framing
import Mathlib

namespace Colony.ReadState

open Colony.Core Colony.Data

abbrev JsString := List UInt16

instance : LawfulBEq JsString := inferInstance

def ascii (s : String) : JsString := s.toList.map fun c => UInt16.ofNat c.toNat

def msgPrefix : JsString := ascii "msg:"

def threadPrefix : JsString := ascii "thread:"

def isMsg (key : JsString) : Bool := msgPrefix.isPrefixOf key

def isThread (key : JsString) : Bool := threadPrefix.isPrefixOf key

def isHigh (u : UInt16) : Bool := 0xD800 ≤ u && u < 0xDC00

def isLow (u : UInt16) : Bool := 0xDC00 ≤ u && u < 0xE000

def unitLength (u : UInt16) : Nat := if u < 0x80 then 1 else if u < 0x800 then 2 else 3

def encodedLength : JsString → Nat
  | [] => 0
  | [u] => unitLength u
  | u :: v :: rest =>
    if isHigh u && isLow v then 4 + encodedLength rest else unitLength u + encodedLength (v :: rest)

theorem isHigh_of_ascii {u : UInt16} (h : u < 0x80) : isHigh u = false := by
  have : u.toNat < 0x80 := h
  simp only [isHigh, Bool.and_eq_false_iff, decide_eq_false_iff_not, UInt16.le_iff_toNat_le]
  left
  change ¬ 0xD800 ≤ u.toNat
  omega

theorem encodedLength_append {a : JsString} (ha : ∀ u ∈ a, isHigh u = false) (b : JsString) :
    encodedLength (a ++ b) = (a.map unitLength).sum + encodedLength b := by
  induction a with
  | nil => simp
  | cons u a ih =>
    obtain ⟨hu, ha⟩ := List.forall_mem_cons.1 ha
    have hcons (rest : JsString) : encodedLength (u :: rest) = unitLength u + encodedLength rest := by
      cases rest with
      | nil => rfl
      | cons v rest => simp [encodedLength, hu]
    rw [List.cons_append, hcons, ih ha, List.map_cons, List.sum_cons, Nat.add_assoc]

theorem encodedLength_ascii {a : JsString} (ha : ∀ u ∈ a, u < 0x80) (b : JsString) :
    encodedLength (a ++ b) = a.length + encodedLength b := by
  have hone : a.map unitLength = List.replicate a.length 1 :=
    List.eq_replicate_iff.2 ⟨by simp, by
      intro n hn
      obtain ⟨u, hu, rfl⟩ := List.mem_map.1 hn
      rw [unitLength, if_pos (ha u hu)]⟩
  rw [encodedLength_append (fun u hu => isHigh_of_ascii (ha u hu)), hone]
  simp

def quoteUnit (u : UInt16) : JsString :=
  if u = 0x08 then ascii "\\b"
  else if u = 0x09 then ascii "\\t"
  else if u = 0x0A then ascii "\\n"
  else if u = 0x0C then ascii "\\f"
  else if u = 0x0D then ascii "\\r"
  else if u = 0x22 then ascii "\\\""
  else if u = 0x5C then ascii "\\\\"
  else if u < 0x20 || isHigh u || isLow u then
    ascii "\\u" ++ (hexDigits 4 u.toNat).map fun c => UInt16.ofNat c.toNat
  else [u]

def quoteUnits : JsString → JsString
  | [] => []
  | [u] => quoteUnit u
  | u :: v :: rest =>
    if isHigh u && isLow v then u :: v :: quoteUnits rest else quoteUnit u ++ quoteUnits (v :: rest)

def quote (s : JsString) : JsString := ascii "\"" ++ quoteUnits s ++ ascii "\""

theorem quoteUnit_spec (u : UInt16) : (∀ v ∈ quoteUnit u, isHigh v = false) ∧ quoteUnit u ≠ [] := by
  have hdigit : ∀ n < 16, isHigh (UInt16.ofNat (Nat.digitChar n).toNat) = false := by decide
  unfold quoteUnit
  iterate 7
    split
    · exact ⟨List.all_iff_forall_prop.1 (by decide), by decide⟩
  split
  next =>
    refine ⟨?_, by simp [ascii]⟩
    intro v hv
    rcases List.mem_append.1 hv with hv | hv
    · have hescape : ∀ v ∈ ascii "\\u", isHigh v = false := List.all_iff_forall_prop.1 (by decide)
      exact hescape v hv
    · obtain ⟨c, hc, rfl⟩ := List.mem_map.1 hv
      obtain ⟨i, -, rfl⟩ := List.mem_map.1 hc
      exact hdigit _ (Nat.mod_lt _ (by decide))
  next h =>
    simp only [Bool.or_eq_true, not_or, Bool.not_eq_true] at h
    simp [h.1.2]

theorem unitLength_pos (u : UInt16) : 0 < unitLength u := by
  unfold unitLength
  split_ifs <;> decide

theorem encodedLength_quoteUnit (u : UInt16) : ∃ n, 0 < n ∧
    ∀ b, encodedLength (quoteUnit u ++ b) = n + encodedLength b := by
  obtain ⟨hhigh, hne⟩ := quoteUnit_spec u
  refine ⟨_, ?_, encodedLength_append hhigh⟩
  obtain ⟨v, rest, hv⟩ := List.exists_cons_of_ne_nil hne
  rw [hv, List.map_cons, List.sum_cons]
  exact Nat.add_pos_left (unitLength_pos v) _

theorem encodedLength_quoteUnits (s : JsString) : ∃ n, s.length ≤ n ∧
    ∀ b, encodedLength (quoteUnits s ++ b) = n + encodedLength b := by
  induction s using quoteUnits.induct with
  | case1 => exact ⟨0, le_rfl, by simp [quoteUnits]⟩
  | case2 u =>
    obtain ⟨n, hn, h⟩ := encodedLength_quoteUnit u
    exact ⟨n, hn, h⟩
  | case3 u v rest hpair ih =>
    obtain ⟨n, hn, h⟩ := ih
    refine ⟨4 + n, by simp; omega, fun b => ?_⟩
    simp only [quoteUnits, hpair, if_true, List.cons_append, encodedLength, h]
    omega
  | case4 u v rest hpair ih =>
    obtain ⟨m, hm, hu⟩ := encodedLength_quoteUnit u
    obtain ⟨n, hn, h⟩ := ih
    refine ⟨m + n, by simp at hn ⊢; omega, fun b => ?_⟩
    rw [quoteUnits, if_neg hpair, List.append_assoc, hu, h]
    omega

def quotedLength (s : JsString) : Nat := encodedLength (quote s)

theorem encodedLength_quote (s b : JsString) :
    encodedLength (quote s ++ b) = quotedLength s + encodedLength b := by
  obtain ⟨n, -, h⟩ := encodedLength_quoteUnits s
  have hmark : ∀ u ∈ ascii "\"", u < 0x80 := List.all_iff_forall_prop.1 (by decide)
  have hlast : encodedLength (ascii "\"") = (ascii "\"").length := by decide
  simp only [quotedLength, quote, List.append_assoc, encodedLength_ascii hmark, h, hlast]
  omega

theorem length_le_quotedLength (s : JsString) : s.length + 2 ≤ quotedLength s := by
  obtain ⟨n, hn, h⟩ := encodedLength_quoteUnits s
  have hmark : ∀ u ∈ ascii "\"", u < 0x80 := List.all_iff_forall_prop.1 (by decide)
  rw [quotedLength, quote, List.append_assoc, encodedLength_ascii hmark, h]
  have hlast : encodedLength (ascii "\"") = 1 := by decide
  have hfirst : (ascii "\"").length = 1 := by decide
  omega

/-- How the engine writes a number: in JSON and as a text alike, in characters of ASCII. -/
structure Numbers where
  text : Nat → JsString
  text_ascii : ∀ n, ∀ u ∈ text n, u < 0x80

/-- A record or a map, its keys in the order they were first set. An engine lists the keys of a
record that are array indices first: that order is of no effect on sizes, and none of the keys
`msg:…` and `thread:…` is one. -/
abbrev Contexts := List (JsString × Nat)

namespace Contexts

variable (c : Contexts)

def keys : List JsString := c.map Prod.fst

def set (key : JsString) (ts : Nat) : Contexts :=
  if key ∈ c.keys then c.map fun e => if e.1 = key then (key, ts) else e else c ++ [(key, ts)]

def proto : JsString := ascii "__proto__"

def assign (key : JsString) (ts : Nat) : Contexts := if key = proto then c else c.set key ts

def delete (key : JsString) : Contexts := c.filter fun e => e.1 ≠ key

end Contexts

variable (N : Numbers) (clientId : JsString)

def entryText (e : JsString × Nat) : JsString := quote e.1 ++ ascii ":" ++ N.text e.2

def blobFor (contexts : Contexts) : JsString :=
  ascii "\x7b\"v\":1,\"client_id\":" ++ quote clientId ++ ascii ",\"contexts\":\x7b" ++
    joinWith 44 (contexts.map (entryText N)) ++ ascii "\x7d\x7d"

def blobBytes (contexts : Contexts) : Nat := encodedLength (blobFor N clientId contexts)

def entryBytes (e : JsString × Nat) : Nat := quotedLength e.1 + 1 + (N.text e.2).length

theorem encodedLength_entryText (e : JsString × Nat) (b : JsString) :
    encodedLength (entryText N e ++ b) = entryBytes N e + encodedLength b := by
  have hcolon : ∀ u ∈ ascii ":", u < 0x80 := List.all_iff_forall_prop.1 (by decide)
  have hlength : (ascii ":").length = 1 := by decide
  rw [entryText, List.append_assoc, List.append_assoc, encodedLength_quote, encodedLength_ascii hcolon,
    encodedLength_ascii (N.text_ascii e.2), entryBytes, hlength]
  omega

theorem encodedLength_entries (contexts : Contexts) (b : JsString) :
    encodedLength (joinWith 44 (contexts.map (entryText N)) ++ b) =
      (contexts.map (entryBytes N)).sum + (contexts.length - 1) + encodedLength b := by
  induction contexts with
  | nil => simp [joinWith]
  | cons e contexts ih =>
    cases contexts with
    | nil => simp [joinWith, encodedLength_entryText]
    | cons e' contexts =>
      have hcomma : ∀ u ∈ ([44] : JsString), u < 0x80 := List.all_iff_forall_prop.1 (by decide)
      rw [List.map_cons] at ih
      simp only [List.map_cons, joinWith, List.append_assoc, encodedLength_entryText, List.cons_append,
        List.sum_cons, List.length_cons] at ih ⊢
      rw [← List.singleton_append, encodedLength_ascii hcomma, ih]
      simp
      omega

theorem blobBytes_eq : ∃ frame, ∀ contexts : Contexts,
    blobBytes N clientId contexts = frame + (contexts.map (entryBytes N)).sum + (contexts.length - 1) := by
  have hopen : ∀ u ∈ ascii "\x7b\"v\":1,\"client_id\":", u < 0x80 :=
    List.all_iff_forall_prop.1 (by decide)
  have hcontexts : ∀ u ∈ ascii ",\"contexts\":\x7b", u < 0x80 :=
    List.all_iff_forall_prop.1 (by decide)
  refine ⟨(ascii "\x7b\"v\":1,\"client_id\":").length + (quotedLength clientId +
    ((ascii ",\"contexts\":\x7b").length + encodedLength (ascii "\x7d\x7d"))), fun contexts => ?_⟩
  simp only [blobBytes, blobFor, List.append_assoc, encodedLength_ascii hopen, encodedLength_quote,
    encodedLength_ascii hcontexts, encodedLength_entries]
  omega

theorem blobBytes_perm {c c' : Contexts} (h : c.Perm c') :
    blobBytes N clientId c = blobBytes N clientId c' := by
  obtain ⟨frame, hframe⟩ := blobBytes_eq N clientId
  rw [hframe, hframe, (h.map _).sum_eq, h.length_eq]

end Colony.ReadState
