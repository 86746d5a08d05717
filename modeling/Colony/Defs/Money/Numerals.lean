import Colony.Defs.Core.Decimal
import Colony.Defs.Money.Notice
import Mathlib

namespace Colony.Money

open Colony.Core

def minorToDecimal (minor : Int) (exponent : Nat) : String :=
  if exponent = 0 then toString minor
  else
    let sign := if minor < 0 then "-" else ""
    let scale := 10 ^ exponent % 2 ^ 64
    let frac := toString (minor.natAbs % scale)
    sign ++ toString (minor.natAbs / scale) ++ "." ++
      String.ofList (List.replicate (exponent - frac.toList.length) '0') ++ frac

structure Written (text whole frac : List Char) : Prop where
  text : text = whole ∧ frac = [] ∨ text = whole ++ '.' :: frac
  ne : whole ≠ []
  digits : ∀ c ∈ whole, c.isDigit = true
  places : ∀ c ∈ frac, c.isDigit = true

def Denotes (text : List Char) (q : ℚ) : Prop :=
  ∃ whole frac, Written text whole frac ∧
    q = digitsValue whole + digitsValue frac / 10 ^ frac.length

section Digits

theorem digitsValue_append (l r : List Char) :
    digitsValue (l ++ r) = digitsValue l * 10 ^ r.length + digitsValue r := by
  change Nat.ofDigitChars 10 (l ++ r) 0 = _
  rw [Nat.ofDigitChars_append, Nat.ofDigitChars_eq_ofDigitChars_zero, Nat.mul_comm]
  rfl

theorem digitsValue_replicate (n : Nat) : digitsValue (List.replicate n '0') = 0 := by
  induction n with
  | zero => rfl
  | succ n ih => rw [List.replicate_succ', digitsValue_append, ih]; rfl

theorem digitsValue_toString (n : Nat) : digitsValue (toString n).toList = n := by
  rw [toList_toString]
  exact Nat.ofDigitChars_toDigits (by decide) (by decide)

theorem digit_value_lt {c : Char} (h : c.isDigit = true) : c.toNat - '0'.toNat < 10 := by
  simp only [Char.isDigit, ge_iff_le, Bool.and_eq_true, decide_eq_true_eq, UInt32.le_iff_toNat_le]
    at h
  have hle : c.toNat ≤ 57 := h.2
  have hzero : '0'.toNat = 48 := rfl
  omega

theorem digitsValue_lt {l : List Char} (h : ∀ c ∈ l, c.isDigit = true) :
    digitsValue l < 10 ^ l.length := by
  induction l using List.reverseRecOn with
  | nil => decide
  | append_singleton l c ih =>
    have ih := ih fun c' hc' => h c' (List.mem_append_left _ hc')
    have hc := digit_value_lt (h c (by simp))
    have hval : digitsValue [c] = c.toNat - '0'.toNat := by simp [digitsValue]
    rw [digitsValue_append, hval, List.length_append, List.length_singleton, pow_one,
      pow_succ]
    omega

theorem digitsValue_eq_zero {l : List Char} (h : ∀ c ∈ l, c.isDigit = true) :
    digitsValue l = 0 ↔ l.any (· != '0') = false := by
  induction l using List.reverseRecOn with
  | nil => simp [digitsValue]
  | append_singleton l c ih =>
    have ih := ih fun c' hc' => h c' (List.mem_append_left _ hc')
    have hc := h c (by simp)
    have hval : digitsValue [c] = 0 ↔ c = '0' := by
      have hzero : '0'.toNat = 48 := rfl
      simp only [Char.isDigit, ge_iff_le, Bool.and_eq_true, decide_eq_true_eq,
        UInt32.le_iff_toNat_le] at hc
      have hge : 48 ≤ c.toNat := hc.1
      simp only [digitsValue, List.foldl_cons, List.foldl_nil]
      refine ⟨fun hz => Char.toNat_inj.1 ?_, fun hz => by rw [hz]; rfl⟩
      omega
    rw [digitsValue_append, List.any_append, Bool.or_eq_false_iff, ← ih]
    simp [hval]

theorem parseI64_digits {l : List Char} (hne : l ≠ []) (h : ∀ c ∈ l, c.isDigit = true) :
    parseI64 (String.ofList l) = if digitsValue l < 2 ^ 63 then some (digitsValue l : Int)
      else none := by
  have hall : l.all Char.isDigit = true := List.all_eq_true.2 h
  have hsign {s : Char} {cs : List Char} (heq : l = s :: cs) : s.isDigit = true :=
    h s (heq ▸ List.mem_cons_self)
  unfold parseI64
  rw [String.toList_ofList]
  split
  next negative digits hread =>
  split at hread
  · exact absurd (hsign rfl) (by decide)
  · exact absurd (hsign rfl) (by decide)
  · cases hread
    simp only [hall, List.isEmpty_eq_false_iff.2 hne, Bool.not_true, Bool.or_self,
      Bool.false_eq_true, if_false]
    refine if_congr ?_ rfl rfl
    omega

end Digits

section Point

variable {whole frac : List Char} {exponent : Nat}

def minorDigits (whole frac : List Char) (exponent : Nat) : List Char :=
  whole ++ frac.take exponent ++ List.replicate (exponent - (frac.take exponent).length) '0'

theorem minorDigits_exact (places : ∀ c ∈ frac, c.isDigit = true) (m : Nat) :
    ((frac.drop exponent).any (· != '0') = false ∧ digitsValue (minorDigits whole frac exponent) = m) ↔
      (digitsValue whole * 10 ^ frac.length + digitsValue frac) * 10 ^ exponent =
        m * 10 ^ frac.length := by
  have hextra : ∀ c ∈ frac.drop exponent, c.isDigit = true :=
    fun c hc => places c (List.mem_of_mem_drop hc)
  rw [← digitsValue_eq_zero hextra]
  have hcut : digitsValue frac = digitsValue (frac.take exponent) *
      10 ^ (frac.drop exponent).length + digitsValue (frac.drop exponent) := by
    rw [← digitsValue_append, List.take_append_drop]
  have hlt := digitsValue_lt hextra
  rw [minorDigits, digitsValue_append, digitsValue_append, digitsValue_replicate,
    List.length_replicate, Nat.add_zero, hcut]
  generalize digitsValue (frac.drop exponent) = x at hlt ⊢
  generalize digitsValue (frac.take exponent) = k
  generalize digitsValue whole = w
  rcases Nat.le_total frac.length exponent with hle | hle
  · rw [List.drop_eq_nil_of_le hle, List.length_nil, pow_zero] at hlt
    obtain rfl : x = 0 := Nat.lt_one_iff.1 hlt
    rw [List.drop_eq_nil_of_le hle, List.take_of_length_le hle, List.length_nil, pow_zero, Nat.mul_one,
      Nat.add_zero]
    obtain ⟨d, rfl⟩ := Nat.exists_eq_add_of_le hle
    rw [Nat.add_sub_cancel_left, pow_add, mul_comm (10 ^ frac.length) (10 ^ d), ← mul_assoc,
      Nat.mul_left_inj (by positivity)]
    simp
  · obtain ⟨d, hd⟩ := Nat.exists_eq_add_of_le hle
    rw [List.length_drop, List.length_take, Nat.min_eq_left hle, Nat.sub_self, pow_zero, Nat.mul_one] at *
    rw [hd, Nat.add_sub_cancel_left] at hlt ⊢
    rw [show (w * 10 ^ (exponent + d) + (k * 10 ^ d + x)) * 10 ^ exponent =
        ((w * 10 ^ exponent + k) * 10 ^ d + x) * 10 ^ exponent by ring,
      show m * 10 ^ (exponent + d) = m * 10 ^ d * 10 ^ exponent by ring,
      Nat.mul_left_inj (by positivity)]
    generalize w * 10 ^ exponent + k = n
    constructor
    · rintro ⟨rfl, rfl⟩
      rw [Nat.add_zero]
    · intro h
      have hn : n = m := by
        have := congrArg (· / 10 ^ d) h
        simpa [Nat.add_div_of_dvd_right, Nat.div_eq_of_lt hlt] using this
      subst hn
      exact ⟨by omega, rfl⟩

theorem Written.splitOnce {s : String} (h : Written s.toList whole frac) :
    (splitOnce s '.').getD (s, "") = (String.ofList whole, String.ofList frac) := by
  have hpoint : ∀ c ∈ whole, (c != '.') = true := fun c hc => by
    refine bne_iff_ne.2 fun heq => ?_
    rw [heq] at hc
    cases h.digits _ hc
  have htake : whole.takeWhile (· != '.') = whole := List.takeWhile_eq_self_iff.2 hpoint
  unfold Money.splitOnce
  rcases h.text with ⟨htext, rfl⟩ | htext
  · rw [htext, htake, if_neg (Nat.lt_irrefl _), ← htext, String.ofList_toList]
    rfl
  · have hhead : s.toList.takeWhile (· != '.') = whole := by
      rw [htext, List.takeWhile_append_of_pos hpoint]
      simp
    rw [hhead, htext, if_pos (by simp)]
    simp

theorem splitOnce_text (s : String) :
    s.toList = ((splitOnce s '.').getD (s, "")).1.toList ∧
        ((splitOnce s '.').getD (s, "")).2.toList = [] ∨
      s.toList = ((splitOnce s '.').getD (s, "")).1.toList ++
        '.' :: ((splitOnce s '.').getD (s, "")).2.toList := by
  unfold splitOnce
  simp only
  split
  · next hlt =>
    refine .inr ?_
    have hparts := List.takeWhile_append_dropWhile (p := (· != '.')) (l := s.toList)
    cases hrest : s.toList.dropWhile (· != '.') with
    | nil =>
      rw [hrest, List.append_nil] at hparts
      rw [hparts] at hlt
      exact absurd hlt (Nat.lt_irrefl _)
    | cons c rest =>
      have hc : c = '.' := by
        have hstop := List.head_dropWhile_not (· != '.') (by simp [hrest] : s.toList.dropWhile _ ≠ [])
        simpa [hrest] using hstop
      rw [hrest, hc] at hparts
      generalize s.toList.takeWhile (· != '.') = head at hparts
      rw [← hparts]
      simp
  · exact .inl ⟨rfl, rfl⟩

theorem minorDigits_ne_nil (h : whole ≠ []) : minorDigits whole frac exponent ≠ [] := by
  simp [minorDigits, h]

theorem isDigit_minorDigits (hdigits : ∀ c ∈ whole, c.isDigit = true)
    (hplaces : ∀ c ∈ frac, c.isDigit = true) :
    ∀ c ∈ minorDigits whole frac exponent, c.isDigit = true := by
  intro c hc
  rw [minorDigits, List.mem_append, List.mem_append] at hc
  rcases hc with (hc | hc) | hc
  · exact hdigits c hc
  · exact hplaces c (List.mem_of_mem_take hc)
  · rw [List.eq_of_mem_replicate hc]
    decide

theorem decimalToMinor_written {text : String} {m : Int} : decimalToMinor text exponent = some m ↔
    ∃ whole frac, Written (trim text).toList whole frac ∧
      (frac.drop exponent).any (· != '0') = false ∧
      (digitsValue (minorDigits whole frac exponent) : Int) = m ∧ m < 2 ^ 63 := by
  unfold decimalToMinor
  simp only
  generalize trim text = s
  constructor
  · intro h
    split at h
    · cases h
    · split at h
      · cases h
      · next hread =>
        simp only [Bool.or_eq_true, Bool.not_eq_true', not_or, Bool.not_eq_true, Bool.not_eq_false,
          List.isEmpty_eq_false_iff, List.all_eq_true] at hread
        split at h
        · cases h
        · next hextra =>
          obtain ⟨⟨hne, hdigits⟩, hplaces⟩ := hread
          refine ⟨_, _, ⟨splitOnce_text s, hne, hdigits, hplaces⟩, Bool.eq_false_iff.2 hextra, ?_⟩
          change parseI64 (String.ofList (minorDigits _ _ _)) = _ at h
          rw [parseI64_digits (minorDigits_ne_nil hne) (isDigit_minorDigits hdigits hplaces)] at h
          split at h
          · next hlt =>
            cases h
            exact ⟨rfl, by omega⟩
          · cases h
  · rintro ⟨whole, frac, hw, hextra, hvalue, hlt⟩
    rw [hw.splitOnce]
    simp only [String.toList_ofList]
    rw [if_neg, if_neg, if_neg (by rw [hextra]; exact Bool.false_ne_true)]
    · change parseI64 (String.ofList (minorDigits _ _ _)) = _
      rw [parseI64_digits (minorDigits_ne_nil hw.ne) (isDigit_minorDigits hw.digits hw.places),
        if_pos (by omega), hvalue]
    · simpa [hw.ne] using ⟨hw.digits, hw.places⟩
    · -- a digit stands in front
      obtain ⟨c, cs, hcs⟩ := List.exists_cons_of_ne_nil hw.ne
      have hc : c.isDigit = true := hw.digits c (hcs ▸ List.mem_cons_self)
      have hs : ∃ r, s.toList = c :: r := by
        rcases hw.text with ⟨htext, -⟩ | htext
        · exact ⟨cs, htext.trans hcs⟩
        · exact ⟨cs ++ '.' :: frac, by rw [htext, hcs, List.cons_append]⟩
      obtain ⟨r, hs⟩ := hs
      have hminus : ('-' == c) = false := beq_false_of_ne fun heq => by
        rw [← heq] at hc
        cases hc
      have hplus : ('+' == c) = false := beq_false_of_ne fun heq => by
        rw [← heq] at hc
        cases hc
      simp [startsWith, hs, List.isPrefixOf, hminus, hplus]

theorem Written.value_eq_iff {text : List Char} (h : Written text whole frac) (m : Nat) :
    (digitsValue whole + digitsValue frac / 10 ^ frac.length : ℚ) = m / 10 ^ exponent ↔
      (frac.drop exponent).any (· != '0') = false ∧
        digitsValue (minorDigits whole frac exponent) = m := by
  rw [minorDigits_exact h.places, ← Nat.cast_inj (R := ℚ)]
  push_cast
  have hlen : (10 : ℚ) ^ frac.length ≠ 0 := by positivity
  have hexp : (10 : ℚ) ^ exponent ≠ 0 := by positivity
  rw [add_div' _ _ _ hlen, div_eq_div_iff hlen hexp]

theorem decimalToMinor_iff {text : String} {m : Int} : decimalToMinor text exponent = some m ↔
    Denotes (trim text).toList (m / 10 ^ exponent) ∧ m < 2 ^ 63 := by
  rw [decimalToMinor_written]
  constructor
  · rintro ⟨whole, frac, hw, hextra, rfl, hlt⟩
    exact ⟨⟨whole, frac, hw, ((hw.value_eq_iff _).2 ⟨hextra, rfl⟩).symm⟩, hlt⟩
  · rintro ⟨⟨whole, frac, hw, hq⟩, hlt⟩
    have hnonneg : 0 ≤ m := by
      have hexp : (0 : ℚ) < 10 ^ exponent := by positivity
      have hquot : (0 : ℚ) ≤ m / 10 ^ exponent := hq ▸ by positivity
      have hm : (0 : ℚ) ≤ m := by simpa using (le_div_iff₀ hexp).1 hquot
      exact_mod_cast hm
    obtain ⟨n, rfl⟩ := Int.eq_ofNat_of_zero_le hnonneg
    obtain ⟨hextra, hvalue⟩ := (hw.value_eq_iff n).1 hq.symm
    exact ⟨whole, frac, hw, hextra, by rw [hvalue], hlt⟩

end Point

section Rendering

theorem isWhitespace_of_isDigit {c : Char} (h : c.isDigit = true ∨ c = '.') :
    isWhitespace c = false := by
  rcases h with h | rfl
  · simp only [Char.isDigit, ge_iff_le, Bool.and_eq_true, decide_eq_true_eq, UInt32.le_iff_toNat_le]
      at h
    have hle : 48 ≤ c.toNat := h.1
    have hge : c.toNat ≤ 57 := h.2
    simp only [isWhitespace, Bool.or_eq_false_iff, Bool.and_eq_false_iff, decide_eq_false_iff_not,
      beq_eq_false_iff_ne]
    omega
  · decide

theorem trim_of_solid {s : String} (h : ∀ c ∈ s.toList, isWhitespace c = false) : trim s = s := by
  have hkeep {l : List Char} (hl : ∀ c ∈ l, isWhitespace c = false) :
      l.dropWhile isWhitespace = l := by
    cases l with
    | nil => rfl
    | cons c l => rw [List.dropWhile_cons_of_neg (by simp [hl c])]
  rw [trim, hkeep h, hkeep fun c hc => h c (List.mem_reverse.1 hc), List.reverse_reverse,
    String.ofList_toList]

theorem Written.trim {s : String} {whole frac : List Char} (h : Written s.toList whole frac) :
    Core.trim s = s := by
  refine trim_of_solid fun c hc => isWhitespace_of_isDigit ?_
  rcases h.text with ⟨htext, -⟩ | htext
  · exact .inl (h.digits c (htext ▸ hc))
  · rw [htext, List.mem_append, List.mem_cons] at hc
    rcases hc with hc | hc | hc
    · exact .inl (h.digits c hc)
    · exact .inr hc
    · exact .inl (h.places c hc)

def paddedPlaces (n exponent : Nat) : List Char :=
  List.replicate (exponent - (toString n).toList.length) '0' ++ (toString n).toList

theorem length_paddedPlaces {n exponent : Nat} (hpos : 0 < exponent) (h : n < 10 ^ exponent) :
    (paddedPlaces n exponent).length = exponent := by
  have hle := Nat.toDigits_length 10 n exponent hpos h
  rw [← toList_toString] at hle
  rw [paddedPlaces, List.length_append, List.length_replicate]
  omega

theorem written_minorToDecimal (n : Nat) {exponent : Nat} (he : exponent ≤ 3) :
    ∃ whole frac, Written (minorToDecimal n exponent).toList whole frac ∧
      (n / 10 ^ exponent : ℚ) = digitsValue whole + digitsValue frac / 10 ^ frac.length := by
  have hdigits (k : Nat) : ∀ c ∈ (toString k).toList, c.isDigit = true := fun _ => isDigit_toString
  rcases Nat.eq_zero_or_pos exponent with rfl | hpos
  · refine ⟨(toString n).toList, [], ⟨.inl ⟨rfl, rfl⟩, toString_ne_empty n, hdigits n, by simp⟩, ?_⟩
    rw [digitsValue_toString]
    simp [digitsValue]
  · have hscale : 10 ^ exponent % 2 ^ 64 = 10 ^ exponent := by
      refine Nat.mod_eq_of_lt ((Nat.pow_le_pow_right (by decide) he).trans_lt (by decide))
    have hfrac := Nat.mod_lt n (show 0 < 10 ^ exponent by positivity)
    refine ⟨(toString (n / 10 ^ exponent)).toList, paddedPlaces (n % 10 ^ exponent) exponent,
      ⟨.inr ?_, toString_ne_empty _, hdigits _, fun c hc => ?_⟩, ?_⟩
    · rw [minorToDecimal, if_neg hpos.ne', hscale]
      simp [paddedPlaces]
    · rcases List.mem_append.1 hc with hc | hc
      · rw [List.eq_of_mem_replicate hc]
        decide
      · exact hdigits _ c hc
    · rw [digitsValue_toString, length_paddedPlaces hpos hfrac, paddedPlaces, digitsValue_append,
        digitsValue_replicate, digitsValue_toString, Nat.zero_mul, Nat.zero_add,
        add_div' _ _ _ (by positivity)]
      congr 1
      exact_mod_cast (Nat.div_add_mod' n (10 ^ exponent)).symm

end Rendering

/-- What is written as a decimal text is read back, and a text is read only as what it stands for. -/
theorem decimalToMinor_exact {exponent : Nat} (he : exponent ≤ 3) :
    (∀ m : Int, 0 ≤ m → m < 2 ^ 63 → decimalToMinor (minorToDecimal m exponent) exponent = some m) ∧
    ∀ text : String,
      (∀ m, decimalToMinor text exponent = some m →
        0 ≤ m ∧ Denotes (trim text).toList (m / 10 ^ exponent)) ∧
      ∀ q, Denotes (trim text).toList q →
        (¬ ∃ m : Int, q = m / 10 ^ exponent ∧ m < 2 ^ 63) → decimalToMinor text exponent = none := by
  refine ⟨fun m hm hlt => ?_, fun text => ⟨fun m hread => ?_, fun q hq hnone => ?_⟩⟩
  · obtain ⟨n, rfl⟩ := Int.eq_ofNat_of_zero_le hm
    obtain ⟨whole, frac, hw, hvalue⟩ := written_minorToDecimal n he
    refine decimalToMinor_iff.2 ⟨⟨whole, frac, hw.trim.symm ▸ hw, ?_⟩, hlt⟩
    rw [Int.cast_natCast]
    exact hvalue
  · refine ⟨?_, (decimalToMinor_iff.1 hread).1⟩
    obtain ⟨whole, frac, -, -, rfl, -⟩ := decimalToMinor_written.1 hread
    exact Int.natCast_nonneg _
  · refine Option.eq_none_iff_forall_ne_some.2 fun m hread => hnone ?_
    obtain ⟨⟨whole, frac, hw, hm⟩, hlt⟩ := decimalToMinor_iff.1 hread
    obtain ⟨whole', frac', hw', rfl⟩ := hq
    have hsame := hw.splitOnce.symm.trans hw'.splitOnce
    simp only [Prod.mk.injEq, String.ofList_inj] at hsame
    exact ⟨m, by rw [hm, hsame.1, hsame.2], hlt⟩

theorem decimalToMinor_exact_cents : (2 : Nat) ≤ 3 ∧
    decimalToMinor (minorToDecimal 375000 2) 2 = some 375000 :=
  ⟨by decide, (decimalToMinor_exact (by decide)).1 375000 (by decide) (by decide)⟩

section Age

def checkedDistance (now parsed : Int) : Option Int :=
  if -2 ^ 63 ≤ now - parsed ∧ now - parsed < 2 ^ 63 ∧ |now - parsed| < 2 ^ 63 then
    some |now - parsed|
  else none

theorem checkedDistance_isSome {now parsed : Int} :
    (checkedDistance now parsed).isSome = true ↔ |now - parsed| < 2 ^ 63 := by
  unfold checkedDistance
  split
  · next h => exact ⟨fun _ => h.2.2, fun _ => rfl⟩
  · next h =>
    refine ⟨fun hsome => (by cases hsome), fun hlt => absurd ?_ h⟩
    have habs := abs_lt.1 hlt
    exact ⟨habs.1.le, habs.2, hlt⟩

theorem bmod_of_abs_lt {x : Int} (h : |x| < 2 ^ 63) : Int.bmod x (2 ^ 64) = x := by
  have habs := abs_lt.1 h
  refine Int.bmod_eq_of_le ?_ ?_ <;> norm_num <;> omega

theorem wrappedDistance_eq {now parsed : Int} (h : |now - parsed| < 2 ^ 63) :
    wrappedDistance now parsed = |now - parsed| := by
  unfold wrappedDistance
  rw [bmod_of_abs_lt h, ← Int.abs_eq_natAbs]
  exact bmod_of_abs_lt (by rwa [abs_abs])

def signedAt (config : SignatureConfig) (headerValue : Option String) : Option Int :=
  if config.signedPayload = .timestampBody then do
    let value ← (headerValue.map trim).filter fun value => !value.toList.isEmpty
    let pair ← ((headerPairs value).filter (·.1 == config.timestampField.getD "t")).getLast?
    parseI64 pair.2
  else none

def SignatureConfig.tolerance (config : SignatureConfig) : Nat :=
  min (config.toleranceSecs.getD DEFAULT_TOLERANCE_SECS) MAX_TOLERANCE_SECS

theorem wrappedDistance_of_verified {lib : NoticeLibs} {config : SignatureConfig} {secret : Bytes}
    {headerValue : Option String} {body : Bytes} {now : Int}
    (h : verifySignature lib config secret headerValue body now = .verified)
    (hpayload : config.signedPayload = .timestampBody) :
    ∃ parsed ∈ signedAt config headerValue, wrappedDistance now parsed ≤ config.tolerance := by
  unfold verifySignature at h
  split at h
  · cases h
  · next value hvalue =>
    simp only [hpayload] at h
    split at h
    · next hverified =>
      unfold verifyTimestampBody at hverified
      simp only at hverified
      split at hverified
      · next text parsed htime =>
        obtain ⟨raw, hraw, hparsed⟩ := Option.bind_eq_some_iff.1 htime
        obtain ⟨pair, hpair, rfl⟩ := Option.map_eq_some_iff.1 hraw
        obtain ⟨n, hn, heq⟩ := Option.map_eq_some_iff.1 hparsed
        cases heq
        refine ⟨parsed, ?_, of_decide_eq_true (Bool.and_eq_true_iff.1 hverified).1⟩
        simp only [signedAt, hpayload, if_true, hvalue, Option.bind_eq_bind, Option.bind_some, hpair,
          Option.mem_def, hn]
      · cases hverified
    · cases h

/-- A notice is verified within the tolerance and without overflow when the time it was signed at
is less than 2^63 seconds away. -/
theorem verifySignature_age_iff (lib : NoticeLibs) (config : SignatureConfig) (secret : Bytes)
    (headerValue : Option String) (body : Bytes) (now : Int) :
    ((∀ parsed ∈ signedAt config headerValue, (checkedDistance now parsed).isSome = true) ∧
      (verifySignature lib config secret headerValue body now = .verified →
        config.signedPayload = .timestampBody →
          ∃ parsed ∈ signedAt config headerValue, |now - parsed| ≤ config.tolerance)) ↔
      ∀ parsed ∈ signedAt config headerValue, |now - parsed| < 2 ^ 63 := by
  constructor
  · rintro ⟨hchecked, -⟩ parsed hparsed
    exact checkedDistance_isSome.1 (hchecked parsed hparsed)
  · intro hnear
    refine ⟨fun parsed hparsed => checkedDistance_isSome.2 (hnear parsed hparsed), ?_⟩
    intro hverified hpayload
    obtain ⟨parsed, hparsed, hle⟩ := wrappedDistance_of_verified hverified hpayload
    exact ⟨parsed, hparsed, wrappedDistance_eq (hnear parsed hparsed) ▸ hle⟩

def trustingLibs : NoticeLibs where
  fromSlice _ := none
  fromUtf8Lossy _ := ""
  toUtf8 _ := []
  sha256Hex _ := ""
  hmacMatches _ _ _ := true
  hexDecode _ := some []
  base64Decode _ := some []

def timestamped : SignatureConfig := ⟨"signature", .hex, none, .timestampBody, none, none, none⟩

theorem verified_of_old_signature :
    verifySignature trustingLibs timestamped [] (some "t=-9223372035154775808,v1=00") [] 1700000000 =
        .verified ∧
      signedAt timestamped (some "t=-9223372035154775808,v1=00") = some (-9223372035154775808) ∧
      checkedDistance 1700000000 (-9223372035154775808) = none := by
  decide +kernel

end Age

end Colony.Money
