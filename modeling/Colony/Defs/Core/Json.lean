import Colony.Defs.Core.Uuid
import Mathlib.Data.List.Sort
import Mathlib.Data.String.Basic

namespace Colony.Core

open Colony.Data

inductive Json (N : Type)
  | null
  | bool (b : Bool)
  | number (n : N)
  | string (s : String)
  | array (items : List (Json N))
  | object (members : List (String × Json N))

structure NumberFormat (N : Type) where
  text : N → List Char
  inj : Function.Injective text
  nonempty : ∀ n, text n ≠ []
  symbols : ∀ n, ∀ c ∈ text n, c.isDigit = true ∨ c ∈ ['-', '+', '.', 'e', 'E']
  starts : ∀ n, ∀ c ∈ (text n).head?, c.isDigit = true ∨ c = '-'

namespace Json

def escapeChar (c : Char) : List Char :=
  if c = '"' then ['\\', '"']
  else if c = '\\' then ['\\', '\\']
  else if c = '\x08' then ['\\', 'b']
  else if c = '\x0c' then ['\\', 'f']
  else if c = '\n' then ['\\', 'n']
  else if c = '\r' then ['\\', 'r']
  else if c = '\t' then ['\\', 't']
  else if c.toNat < 32 then ['\\', 'u', '0', '0'] ++ hexDigits 2 c.toNat
  else [c]

def quote (s : String) : List Char := '"' :: s.toList.flatMap escapeChar ++ ['"']

variable {N : Type} (F : NumberFormat N)

def member (m : String × List Char) : List Char := quote m.1 ++ ':' :: m.2

def sortMembers (ms : List (String × List Char)) : List (String × List Char) :=
  ms.insertionSort fun m m' => m.1 ≤ m'.1

mutual

def canonical : Json N → List Char
  | .null => "null".toList
  | .bool true => "true".toList
  | .bool false => "false".toList
  | .number n => F.text n
  | .string s => quote s
  | .array items => '[' :: joinWith ',' (canonicalItems items) ++ [']']
  | .object members =>
    '{' :: joinWith ',' ((sortMembers (canonicalMembers members)).map member) ++ ['}']

def canonicalItems : List (Json N) → List (List Char)
  | [] => []
  | v :: items => canonical v :: canonicalItems items

def canonicalMembers : List (String × Json N) → List (String × List Char)
  | [] => []
  | (k, v) :: members => (k, canonical v) :: canonicalMembers members

end

mutual

def Sorted : Json N → Prop
  | .array items => SortedItems items
  | .object members => (members.map Prod.fst).Pairwise (· < ·) ∧ SortedMembers members
  | _ => True

def SortedItems : List (Json N) → Prop
  | [] => True
  | v :: items => Sorted v ∧ SortedItems items

def SortedMembers : List (String × Json N) → Prop
  | [] => True
  | (_, v) :: members => Sorted v ∧ SortedMembers members

end

theorem induct {motive : Json N → Prop} (null : motive .null) (bool : ∀ b, motive (.bool b))
    (number : ∀ n, motive (.number n)) (string : ∀ s, motive (.string s))
    (array : ∀ items, (∀ v ∈ items, motive v) → motive (.array items))
    (object : ∀ members, (∀ m ∈ members, motive m.2) → motive (.object members)) (v : Json N) :
    motive v :=
  @Json.rec N motive (fun items => ∀ v ∈ items, motive v) (fun members => ∀ m ∈ members, motive m.2)
    (fun m => motive m.2) null bool number string array object nofun
    (fun _ _ hv hitems => List.forall_mem_cons.2 ⟨hv, hitems⟩) nofun
    (fun _ _ hm hmembers => List.forall_mem_cons.2 ⟨hm, hmembers⟩) (fun _ _ hv => hv) v

theorem canonicalItems_eq (items : List (Json N)) :
    canonicalItems F items = items.map (canonical F) := by
  induction items with
  | nil => simp [canonicalItems]
  | cons v items ih => simp [canonicalItems, ih]

theorem canonicalMembers_eq (members : List (String × Json N)) :
    canonicalMembers F members = members.map fun m => (m.1, canonical F m.2) := by
  induction members with
  | nil => simp [canonicalMembers]
  | cons m members ih => simp [canonicalMembers, ih]

theorem sortedItems_iff {items : List (Json N)} : SortedItems items ↔ ∀ v ∈ items, Sorted v := by
  induction items with
  | nil => simp [SortedItems]
  | cons v items ih => simp [SortedItems, ih]

theorem sortedMembers_iff {members : List (String × Json N)} :
    SortedMembers members ↔ ∀ m ∈ members, Sorted m.2 := by
  induction members with
  | nil => simp [SortedMembers]
  | cons m members ih => simp [SortedMembers, ih]

def memberText (m : String × Json N) : List Char := quote m.1 ++ ':' :: canonical F m.2

theorem canonical_object {members : List (String × Json N)}
    (h : (members.map Prod.fst).Pairwise (· < ·)) :
    canonical F (.object members) = '{' :: joinWith ',' (members.map (memberText F)) ++ ['}'] := by
  have hsorted : (members.map fun m => (m.1, canonical F m.2)).Pairwise
      fun m m' => m.1 ≤ m'.1 := by
    rw [List.pairwise_map] at h ⊢
    exact h.imp fun h => le_of_lt h
  rw [canonical, canonicalMembers_eq, sortMembers, hsorted.insertionSort_eq, List.map_map]
  rfl

def hexValue (c : Char) : Nat := if c.isDigit then c.toNat - 48 else c.toNat - 87

theorem hexValue_digitChar : ∀ n < 16, hexValue (Nat.digitChar n) = n := by decide

def unescape : List Char → Option (Char × List Char)
  | '\\' :: 'b' :: r => some ('\x08', r)
  | '\\' :: 'f' :: r => some ('\x0c', r)
  | '\\' :: 'n' :: r => some ('\n', r)
  | '\\' :: 'r' :: r => some ('\r', r)
  | '\\' :: 't' :: r => some ('\t', r)
  | '\\' :: 'u' :: '0' :: '0' :: high :: low :: r =>
    some (Char.ofNat (16 * hexValue high + hexValue low), r)
  | '\\' :: c :: r => some (c, r)
  | c :: r => some (c, r)
  | [] => none

theorem unescape_escapeChar (c : Char) (r : List Char) :
    unescape (escapeChar c ++ r) = some (c, r) := by
  unfold escapeChar
  split_ifs with h₁ h₂ h₃ h₄ h₅ h₆ h₇ h₈
  · rw [h₁]; rfl
  · rw [h₂]; rfl
  · rw [h₃]; rfl
  · rw [h₄]; rfl
  · rw [h₅]; rfl
  · rw [h₆]; rfl
  · rw [h₇]; rfl
  · have hhex : hexDigits 2 c.toNat =
        [Nat.digitChar (c.toNat / 16 % 16), Nat.digitChar (c.toNat % 16)] := by
      simp [hexDigits, List.range_succ]
    have hvalue : 16 * (c.toNat / 16 % 16) + c.toNat % 16 = c.toNat := by omega
    simp only [hhex, List.cons_append, List.nil_append, unescape,
      hexValue_digitChar _ (Nat.mod_lt _ (by decide : 0 < 16)), hvalue, Char.ofNat_toNat]
  · cases r <;> simp [unescape, h₂]

theorem escapeChar_delimits : Delimits (fun _ => True) escapeChar :=
  delimits_of_reader fun c r _ => unescape_escapeChar c r

theorem quote_delimits : Delimits (fun _ => True) quote := by
  intro s s' r r' _ _ h
  have hstart (c : Char) : ∃ b l, escapeChar c = b :: l ∧ b ≠ '"' := by
    unfold escapeChar
    split_ifs with h <;> simp [h]
  obtain ⟨hs, rfl⟩ := escapeChar_delimits.flatMap hstart s.toList s'.toList r r' (by
    simpa [quote] using h)
  exact ⟨String.toList_inj.1 hs, rfl⟩

def headKind (c : Char) : Nat :=
  if c = 'n' then 0 else if c = 't' then 1 else if c = 'f' then 2 else if c = '"' then 3
  else if c = '[' then 4 else if c = '{' then 5 else 6

def kind : Json N → Nat
  | .null => 0
  | .bool b => if b then 1 else 2
  | .string _ => 3
  | .array _ => 4
  | .object _ => 5
  | .number _ => 6

theorem canonical_head (v : Json N) :
    ∃ c l, canonical F v = c :: l ∧ headKind c = v.kind ∧ c ≠ ']' := by
  cases v with
  | null => exact ⟨'n', "ull".toList, by simp [canonical], rfl, by decide⟩
  | bool b =>
    cases b with
    | true => exact ⟨'t', "rue".toList, by simp [canonical], rfl, by decide⟩
    | false => exact ⟨'f', "alse".toList, by simp [canonical], rfl, by decide⟩
  | string s => exact ⟨'"', _, by simp only [canonical, quote, List.cons_append]; rfl, rfl, by decide⟩
  | array items => exact ⟨'[', _, by simp only [canonical, List.cons_append]; rfl, rfl, by decide⟩
  | object members =>
    exact ⟨'{', _, by simp only [canonical, List.cons_append]; rfl, rfl, by decide⟩
  | number n =>
    obtain ⟨c, l, hn⟩ := List.exists_cons_of_ne_nil (F.nonempty n)
    have hc : c.isDigit = true ∨ c = '-' := F.starts n c (by simp [hn])
    have hother (d : Char) (hd : d.isDigit = false) (hminus : d ≠ '-') : c ≠ d := by
      rintro rfl
      simp_all
    refine ⟨c, l, by simpa [canonical] using hn, ?_, hother ']' rfl (by decide)⟩
    simp only [headKind, kind, hother 'n' rfl (by decide), hother 't' rfl (by decide),
      hother 'f' rfl (by decide), hother '"' rfl (by decide), hother '[' rfl (by decide),
      hother '{' rfl (by decide), if_false]

def isNumberSymbol (c : Char) : Prop := c.isDigit = true ∨ c ∈ ['-', '+', '.', 'e', 'E']

theorem kind_eq_of_canonical {v v' : Json N} {r r' : List Char}
    (h : canonical F v ++ r = canonical F v' ++ r') : v.kind = v'.kind := by
  obtain ⟨c, l, hv, hc, -⟩ := canonical_head F v
  obtain ⟨c', l', hv', hc', -⟩ := canonical_head F v'
  rw [hv, hv', List.cons_append, List.cons_append, List.cons.injEq] at h
  rw [← hc, ← hc', h.1]

theorem stops_comma (r : List Char) : StopsBefore isNumberSymbol (',' :: r) := by
  simp [isNumberSymbol]

theorem stops_bracket (r : List Char) : StopsBefore isNumberSymbol (']' :: r) := by
  simp [isNumberSymbol]

theorem stops_brace (r : List Char) : StopsBefore isNumberSymbol ('}' :: r) := by
  simp [isNumberSymbol]

theorem canonical_delimits (v v' : Json N) (hv : Sorted v) (hv' : Sorted v') (r r' : List Char)
    (hr : StopsBefore isNumberSymbol r) (hr' : StopsBefore isNumberSymbol r')
    (h : canonical F v ++ r = canonical F v' ++ r') : v = v' ∧ r = r' := by
  have hkind := kind_eq_of_canonical F h
  induction v using induct generalizing v' r r' with
  | null =>
    cases v' with
    | null => exact ⟨rfl, List.append_cancel_left h⟩
    | bool b => cases b <;> cases hkind
    | _ => cases hkind
  | bool b =>
    cases v' with
    | bool b' =>
      obtain rfl : b = b' := by
        cases b <;> cases b' <;> first | rfl | cases hkind
      exact ⟨rfl, List.append_cancel_left h⟩
    | _ => cases b <;> cases hkind
  | number n =>
    cases v' with
    | number n' =>
      rw [canonical, canonical] at h
      obtain ⟨rfl, rfl⟩ := delimits_of_class F.inj F.symbols n n' r r' hr hr' h
      exact ⟨rfl, rfl⟩
    | bool b => cases b <;> cases hkind
    | _ => cases hkind
  | string s =>
    cases v' with
    | string s' =>
      rw [canonical, canonical] at h
      obtain ⟨rfl, rfl⟩ := quote_delimits s s' r r' trivial trivial h
      exact ⟨rfl, rfl⟩
    | bool b => cases b <;> cases hkind
    | _ => cases hkind
  | array items ih =>
    cases v' with
    | array items' =>
      rw [Sorted, sortedItems_iff] at hv hv'
      simp only [canonical, canonicalItems_eq, List.cons_append, List.append_assoc,
        List.nil_append, List.cons.injEq, true_and] at h
      obtain ⟨rfl, rfl⟩ := joinWith_inj (by decide) stops_comma stops_bracket
        (fun v => (canonical_head F v).imp fun c => Exists.imp fun l hc => ⟨hc.1, hc.2.2⟩)
        (fun v hmem v' hmem' r r' hr hr' h => ih v hmem v' (hv v hmem) (hv' v' hmem') r r' hr hr' h
          (kind_eq_of_canonical F h)) h
      exact ⟨rfl, rfl⟩
    | bool b => cases b <;> cases hkind
    | _ => cases hkind
  | object members ih =>
    cases v' with
    | object members' =>
      rw [Sorted, sortedMembers_iff] at hv hv'
      simp only [canonical_object F hv.1, canonical_object F hv'.1, List.cons_append,
        List.append_assoc, List.nil_append, List.cons.injEq, true_and] at h
      obtain ⟨rfl, rfl⟩ := joinWith_inj (by decide) stops_comma stops_brace
        (fun m => ⟨'"', _, by simp only [memberText, quote, List.cons_append]; rfl, by decide⟩)
        (fun m hmem m' hmem' r r' hr hr' h => by
          simp only [memberText, List.append_assoc, List.cons_append] at h
          obtain ⟨hkey, hvalue⟩ := quote_delimits m.1 m'.1 _ _ trivial trivial h
          have htext := (List.cons.inj hvalue).2
          obtain ⟨hm, hrest⟩ := ih m hmem m'.2 (hv.2 m hmem) (hv'.2 m' hmem') r r' hr hr' htext
            (kind_eq_of_canonical F htext)
          exact ⟨Prod.ext hkey hm, hrest⟩) h
      exact ⟨rfl, rfl⟩
    | bool b => cases b <;> cases hkind
    | _ => cases hkind

theorem canonical_inj {v v' : Json N} (hv : Sorted v) (hv' : Sorted v')
    (h : canonical F v = canonical F v') : v = v' :=
  (canonical_delimits F v v' hv hv' [] [] stopsBefore_nil stopsBefore_nil (by rw [h])).1

end Json

end Colony.Core
