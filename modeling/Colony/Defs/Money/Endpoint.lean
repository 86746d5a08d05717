import Colony.Defs.Data.Split
import Colony.Defs.Money.Connection
import Colony.Defs.Money.Render

namespace Colony.Money

open Colony.Core Colony.Data ConnectionConfig

structure Symbol where
  source : List Char
  char : Char
  deriving DecidableEq

namespace Symbol

def plain (c : Char) : Symbol := ⟨[c], c⟩

def Escaped (s : Symbol) : Prop := s.source ≠ [s.char]

end Symbol

def decoded (symbols : List Symbol) : List Char := symbols.map Symbol.char

def hexValueOf (c : Char) : Nat :=
  if c.isDigit then c.toNat - 48 else if c.toNat < 97 then c.toNat - 55 else c.toNat - 87

def percentSymbols : List Char → List Symbol
  | '%' :: a :: b :: rest =>
    if isAsciiHexDigit a && isAsciiHexDigit b then
      ⟨['%', a, b], .ofNat (16 * hexValueOf a + hexValueOf b)⟩ :: percentSymbols rest
    else .plain '%' :: percentSymbols (a :: b :: rest)
  | c :: rest => .plain c :: percentSymbols rest
  | [] => []

def percentDecode (text : List Char) : List Char := decoded (percentSymbols text)

def dots : List (List Char) := [['.'], ['%', '2', 'e'], ['%', '2', 'E']]

def dotTexts : List (List Char) := dots ++ dots.flatMap fun d => dots.map (d ++ ·)

def DotSegment (segment : List Char) : Prop :=
  percentDecode segment = ['.'] ∨ percentDecode segment = ['.', '.']

theorem hexDigit_cases {c : Char} (h : isAsciiHexDigit c = true) :
    48 ≤ c.toNat ∧ c.toNat ≤ 57 ∧ hexValueOf c = c.toNat - 48 ∨
      65 ≤ c.toNat ∧ c.toNat ≤ 70 ∧ hexValueOf c = c.toNat - 55 ∨
      97 ≤ c.toNat ∧ c.toNat ≤ 102 ∧ hexValueOf c = c.toNat - 87 := by
  simp only [isAsciiHexDigit, Bool.or_eq_true, Bool.and_eq_true, decide_eq_true_eq] at h
  have hdigit : c.isDigit = true ↔ 48 ≤ c.toNat ∧ c.toNat ≤ 57 := by
    simp only [Char.isDigit, ge_iff_le, Bool.and_eq_true, decide_eq_true_eq,
      UInt32.le_iff_toNat_le]
    exact Iff.rfl
  have hlower : 'a' ≤ c ∧ c ≤ 'f' ↔ 97 ≤ c.toNat ∧ c.toNat ≤ 102 := Iff.rfl
  have hupper : 'A' ≤ c ∧ c ≤ 'F' ↔ 65 ≤ c.toNat ∧ c.toNat ≤ 70 := Iff.rfl
  rw [hlower, hupper] at h
  unfold hexValueOf
  by_cases hd : c.isDigit = true
  · rw [if_pos hd]
    have := hdigit.1 hd
    omega
  · rw [if_neg hd]
    have hrest := h.imp_left fun h' => h'.resolve_left hd
    split <;> omega

theorem escaped_dot {a b : Char} (ha : isAsciiHexDigit a = true) (hb : isAsciiHexDigit b = true)
    (h : Char.ofNat (16 * hexValueOf a + hexValueOf b) = '.') : a = '2' ∧ (b = 'e' ∨ b = 'E') := by
  have ha' := hexDigit_cases ha
  have hb' := hexDigit_cases hb
  have hvalue : 16 * hexValueOf a + hexValueOf b = 46 := by
    have hto := congrArg Char.toNat h
    rwa [Char.toNat_ofNat, if_pos (.inl (by omega))] at hto
  have hnat {c : Char} {d : Char} (hcd : c.toNat = d.toNat) : c = d := Char.toNat_inj.1 hcd
  refine ⟨hnat (?_ : a.toNat = 50), ?_⟩
  · omega
  · rcases (by omega : b.toNat = 101 ∨ b.toNat = 69) with hb | hb
    · exact .inl (hnat hb)
    · exact .inr (hnat hb)

theorem percentDecode_dot {text r : List Char} (h : percentDecode text = '.' :: r) :
    ∃ d ∈ dots, ∃ rest, text = d ++ rest ∧ percentDecode rest = r := by
  unfold percentDecode percentSymbols decoded at h
  split at h
  · next a b rest =>
    split at h
    · next hhex =>
      obtain ⟨ha, hb⟩ := Bool.and_eq_true_iff.1 hhex
      obtain ⟨hdot, hrest⟩ := List.cons.inj h
      obtain ⟨rfl, rfl | rfl⟩ := escaped_dot ha hb hdot
      · exact ⟨['%', '2', 'e'], by simp [dots], rest, rfl, hrest⟩
      · exact ⟨['%', '2', 'E'], by simp [dots], rest, rfl, hrest⟩
    · cases h
  · obtain ⟨rfl, hrest⟩ := List.cons.inj h
    exact ⟨['.'], by simp [dots], _, rfl, hrest⟩
  · cases h

theorem percentDecode_eq_nil {text : List Char} (h : percentDecode text = []) : text = [] := by
  unfold percentDecode percentSymbols decoded at h
  split at h
  · split at h <;> cases h
  · cases h
  · rfl

theorem dotSegment_iff {segment : List Char} : DotSegment segment ↔ segment ∈ dotTexts := by
  constructor
  · rintro (h | h)
    · obtain ⟨d, hd, rest, rfl, hrest⟩ := percentDecode_dot h
      rw [percentDecode_eq_nil hrest, List.append_nil]
      exact List.mem_append_left _ hd
    · obtain ⟨d, hd, rest, rfl, hrest⟩ := percentDecode_dot h
      obtain ⟨d', hd', rest', rfl, hrest'⟩ := percentDecode_dot hrest
      rw [percentDecode_eq_nil hrest', List.append_nil]
      exact List.mem_append_right _ (List.mem_flatMap.2 ⟨d, hd, List.mem_map_of_mem hd'⟩)
  · revert segment
    unfold DotSegment
    decide

def Piece.plain (values : RenderValues) : Piece → List Char
  | .text c => [c]
  | .hole name => ((valueOf (String.ofList name) values).toOption.getD "").toList

/-- A segment of a template that becomes a dot segment: with the values put in as they are it is
one, and every escape in it is the template's own. -/
def WritesDots (values : RenderValues) (segment : List Piece) : Prop :=
  segment.flatMap (Piece.plain values) ∈ dotTexts ∧
    ∀ name, .hole name ∈ segment → '%' ∉ (Piece.hole name).plain values

instance (values : RenderValues) (segment : List Piece) : Decidable (WritesDots values segment) :=
  haveI : Decidable (∀ name, .hole name ∈ segment → '%' ∉ (Piece.hole name).plain values) :=
    decidable_of_iff (∀ p ∈ segment, p.name?.isSome → '%' ∉ p.plain values)
      ⟨fun h name hname => h _ hname rfl, fun h p hp hname => by
        cases p with
        | text c => cases hname
        | hole name => exact h name hp⟩
  inferInstanceAs (Decidable (_ ∧ _))

def Recipe.pathSegments (recipe : Recipe) : List (List Piece) :=
  ((pieces recipe.path).getD []).splitOn (.text '/')

def RenderedRequest.pathSegments (request : RenderedRequest) : List (List Char) :=
  (request.pathAndQuery.toList.takeWhile (· ≠ '?')).splitOn '/'

section Dots

variable {lib : Libs} {values : RenderValues} {segment : List Piece} {c : Char}

theorem filled_hole (name : List Char) : (Piece.hole name).filled lib values .path =
    ((Piece.hole name).plain values).flatMap lib.percentEncode := by
  rw [Piece.filled, Piece.fill, Piece.plain]
  cases valueOf (String.ofList name) values <;> rfl

theorem filled_eq_plain (hlib : lib.PercentEncodes) (h : ∀ name, .hole name ∈ segment →
      ∀ c ∈ (Piece.hole name).plain values, isUnreserved c = true) :
    segment.flatMap (Piece.filled lib values .path) = segment.flatMap (Piece.plain values) := by
  refine List.flatMap_congr fun p hp => ?_
  cases p with
  | text c => rfl
  | hole name =>
    rw [filled_hole]
    have hsingle : ∀ c ∈ (Piece.hole name).plain values, lib.percentEncode c = [c] :=
      fun c hc => hlib.unreserved c (h name hp c hc)
    rw [List.flatMap_congr hsingle, List.flatMap_singleton']

theorem infix_dotText : ∀ text ∈ dotTexts, ∀ n < 16, ∀ m < 16,
    ['%', upperHex n, upperHex m] <:+: text → n = 2 ∧ m = 14 := by
  decide +kernel

theorem mem_dotText : ∀ text ∈ dotTexts, ∀ c ∈ text, c ∈ ['.', '2', 'e', 'E'] ∨ c = '%' := by
  simp [dotTexts, dots]

theorem unreserved_dotText : ∀ c ∈ ['.', '2', 'e', 'E'], isUnreserved c = true := by
  simp [isUnreserved, isAsciiAlphanumeric, isAsciiLowercase, isAsciiUppercase]

theorem unreserved_of_dotText (hlib : lib.PercentEncodes) {text : List Char} (htext : text ∈ dotTexts)
    (h : lib.percentEncode c <:+: text) : isUnreserved c = true := by
  by_contra hc
  obtain ⟨b, bytes, heq, hbytes⟩ := hlib.reserved c (Bool.eq_false_iff.2 hc)
  obtain ⟨hlt, hreserved⟩ := hbytes b List.mem_cons_self
  rw [heq, List.flatMap_cons] at h
  obtain ⟨hhigh, hlow⟩ := infix_dotText text htext _ (by omega) _ (by omega)
    ((List.prefix_append _ _).isInfix.trans h)
  obtain rfl : b = 46 := by omega
  exact absurd hreserved (by decide)

theorem filled_mem_dotTexts (hlib : lib.PercentEncodes) : segment.flatMap (Piece.filled lib values .path) ∈ dotTexts ↔
    WritesDots values segment := by
  constructor
  · intro h
    have hunreserved : ∀ name, .hole name ∈ segment →
        ∀ c ∈ (Piece.hole name).plain values, isUnreserved c = true := by
      intro name hname c hc
      refine unreserved_of_dotText hlib h ((List.infix_flatMap_of_mem hc lib.percentEncode).trans ?_)
      rw [← filled_hole]
      exact List.infix_of_mem_flatten (List.mem_map_of_mem hname)
    refine ⟨filled_eq_plain hlib hunreserved ▸ h, fun name hname hpercent => ?_⟩
    exact absurd (hunreserved name hname _ hpercent) (by decide)
  · rintro ⟨hplain, hpercent⟩
    rw [filled_eq_plain hlib]
    · exact hplain
    · intro name hname c hc
      rcases mem_dotText _ hplain c (List.mem_flatMap.2 ⟨_, hname, hc⟩) with h | rfl
      · exact unreserved_dotText c h
      · exact absurd hc (hpercent name hname)

end Dots

section Path

variable {lib : Libs} {recipe : Recipe} {values : RenderValues} {request : RenderedRequest}
  {hosts : List String} {ps : List Piece}

theorem render_path (h : render lib recipe values = .ok request) :
    ∃ path rest, substitute lib values .path recipe.path = .ok path ∧
      request.pathAndQuery.toList = path.toList ++ rest ∧ (rest = [] ∨ ∃ r, rest = '?' :: r) := by
  unfold render at h
  obtain ⟨path, hpath, h⟩ := bind_eq_ok.1 h
  obtain ⟨parts, -, h⟩ := bind_eq_ok.1 h
  obtain ⟨headers, -, h⟩ := bind_eq_ok.1 h
  obtain ⟨body, -, h⟩ := bind_eq_ok.1 h
  cases h
  dsimp only
  split
  · exact ⟨path, [], hpath, (List.append_nil _).symm, .inl rfl⟩
  · refine ⟨path, '?' :: (String.intercalate "&" parts).toList, hpath, ?_, .inr ⟨_, rfl⟩⟩
    rw [String.toList_append, String.toList_append, List.append_assoc]
    rfl

theorem notMem_of_validPath {path : String} (h : Recipe.validPath path = true) :
    '?' ∉ path.toList := by
  simp only [Recipe.validPath, Bool.and_eq_true, Bool.not_eq_true', contains,
    decide_eq_false_iff_not] at h
  intro hmem
  obtain ⟨before, after, hsplit⟩ := List.append_of_mem hmem
  exact h.1.1.2 ⟨before, after, by rw [hsplit, List.append_assoc]; rfl⟩

theorem pathSegments_rendered (hlib : lib.PercentEncodes)
    (hvalid : validateRecipe recipe hosts = .ok ())
    (h : render lib recipe values = .ok request) : request.pathSegments =
      recipe.pathSegments.map (·.flatMap (Piece.filled lib values .path)) := by
  obtain ⟨-, hpath, htemplates⟩ := validateRecipe_ok hvalid
  obtain ⟨ps, hps, hnames⟩ := htemplates recipe.path (by simp [Recipe.templates])
  obtain ⟨path, rest, hsub, hrequest, hrest⟩ := render_path h
  obtain ⟨-, hfilled⟩ := (substitute_ok_iff hps).1 hsub
  have hholes {d : Char} (hd : isUnreserved d = false ∧ d ≠ '%') (name : List Char) :
      d ∉ (Piece.hole name).filled lib values .path := by
    intro hmem
    rcases mem_filled hlib (.inl rfl) hmem with hu | hp
    · simp [hu] at hd
    · exact hd.2 hp
  have hquestion : '?' ∉ path.toList := by
    rw [hfilled, List.mem_flatMap]
    rintro ⟨p, hp, hmem⟩
    cases p with
    | text c =>
      have hc : '?' = c := List.mem_singleton.1 hmem
      refine notMem_of_validPath hpath ?_
      have hsource := source_piecesFrom hps
      rw [opened, List.nil_append] at hsource
      rw [← hsource]
      exact List.mem_flatMap.2 ⟨_, hp, hc ▸ List.mem_singleton_self _⟩
    | hole name => exact hholes (by decide) name hmem
  have htake : request.pathAndQuery.toList.takeWhile (· ≠ '?') = path.toList := by
    rw [hrequest, List.takeWhile_append_of_pos]
    · rcases hrest with rfl | ⟨r, rfl⟩ <;> simp
    · intro c hc
      simpa using fun heq : c = '?' => hquestion (heq ▸ hc)
  rw [RenderedRequest.pathSegments, htake, hfilled, Recipe.pathSegments, hps, Option.getD_some]
  refine splitOn_flatMap (a := Piece.text '/') (b := '/') rfl fun p hp hne => ?_
  cases p with
  | text c =>
    intro hmem
    exact hne (congrArg Piece.text (List.mem_singleton.1 hmem).symm)
  | hole name => exact hholes (by decide) name

theorem pathSegments_length (hvalid : validateRecipe recipe hosts = .ok ()) :
    recipe.pathSegments.length = (recipe.path.toList.splitOn '/').length := by
  obtain ⟨-, -, htemplates⟩ := validateRecipe_ok hvalid
  obtain ⟨ps, hps, hnames⟩ := htemplates recipe.path (by simp [Recipe.templates])
  have hsource := source_piecesFrom hps
  rw [opened, List.nil_append] at hsource
  rw [← hsource, Recipe.pathSegments, hps, Option.getD_some]
  suffices h : ∀ p ∈ ps, p ≠ .text '/' → '/' ∉ p.source by
    rw [splitOn_flatMap (f := Piece.source) (a := Piece.text '/') (b := '/') rfl h, List.length_map]
  intro p hp hne
  cases p with
  | text c =>
    intro hmem
    exact hne (congrArg Piece.text (List.mem_singleton.1 hmem).symm)
  | hole name =>
    intro hmem
    have hname := (hnames name hp).1 '/'
    simp only [Piece.source, List.cons_append, List.mem_cons, List.mem_append, List.not_mem_nil,
      or_false] at hmem
    have hslash : '/' ∈ name := by simpa using hmem
    exact absurd (hname hslash) (by decide)

/-- The request goes to the endpoint of the template unless a segment of it becomes a dot
segment. -/
theorem render_endpoint_iff (hlib : lib.PercentEncodes) (hvalid : validateRecipe recipe hosts = .ok ())
    (h : render lib recipe values = .ok request) :
    ((∀ segment ∈ request.pathSegments, ¬DotSegment segment) ∧
      request.pathSegments.length = (recipe.path.toList.splitOn '/').length) ↔
      ∀ segment ∈ recipe.pathSegments, ¬WritesDots values segment := by
  rw [pathSegments_rendered hlib hvalid h, List.length_map, pathSegments_length hvalid]
  simp only [and_true, List.forall_mem_map, dotSegment_iff, filled_mem_dotTexts hlib]

end Path

section Sample

def escapeReserved (c : Char) : List Char :=
  if isUnreserved c then [c] else ((String.utf8EncodeChar c).map UInt8.toNat).flatMap percentByte

theorem reserved_utf8 {c : Char} (hc : isUnreserved c = false) {b : UInt8}
    (hb : b ∈ String.utf8EncodeChar c) : isUnreserved (.ofNat b.toNat) = false := by
  have hbyte : ∀ n < 256, 128 ≤ n → isUnreserved (.ofNat n) = false := by decide +kernel
  have hto (n : Nat) : (UInt8.ofNat n).toNat = n % 256 := rfl
  unfold String.utf8EncodeChar at hb
  simp only at hb
  split at hb
  · obtain rfl := List.mem_singleton.1 hb
    have hsmall : c.val.toNat % 256 = c.toNat := Nat.mod_eq_of_lt (by omega)
    rw [hto, hsmall, Char.ofNat_toNat]
    exact hc
  · refine hbyte _ b.toNat_lt ?_
    split at hb
    · simp only [List.mem_cons, List.not_mem_nil, or_false] at hb
      rcases hb with rfl | rfl <;> rw [hto] <;> omega
    · split at hb <;> simp only [List.mem_cons, List.not_mem_nil, or_false] at hb
      · rcases hb with rfl | rfl | rfl <;> rw [hto] <;> omega
      · rcases hb with rfl | rfl | rfl | rfl <;> rw [hto] <;> omega

def renderLibs : Libs := { signedLibs with percentEncode := escapeReserved }

theorem renderLibs_percentEncodes : renderLibs.PercentEncodes where
  unreserved c hc := if_pos hc
  reserved c hc := by
    cases hbytes : String.utf8EncodeChar c with
    | nil => exact (String.utf8EncodeChar_ne_nil hbytes).elim
    | cons b bytes =>
      refine ⟨b.toNat, bytes.map UInt8.toNat, ?_, fun x hx => ?_⟩
      · change escapeReserved c = _
        rw [escapeReserved, if_neg (by simp [hc]), hbytes, List.map_cons]
      · rw [← List.map_cons, ← hbytes] at hx
        obtain ⟨y, hy, rfl⟩ := List.mem_map.1 hx
        exact ⟨y.toNat_lt, reserved_utf8 hc hy⟩

def answered (reference : String) : RenderValues where
  amountMinor := 1000
  currency := "EUR"
  purpose := "Invoice"
  cardRef := "card"
  invoiceNumber := "1"
  recipientName := "Customer"
  expiresAtUnix := 0
  providerReference := some reference

end Sample

theorem render_endpoint_answered : (∀ segment ∈ lookupRecipe.pathSegments,
      ¬WritesDots (answered "pay_1") segment) ∧
    ∃ request, render renderLibs lookupRecipe (answered "pay_1") = .ok request ∧
      ∀ segment ∈ request.pathSegments, ¬DotSegment segment := by
  have hvalid : validateRecipe lookupRecipe ["api.provider.com"] = .ok () := by decide +kernel
  have hdots : ∀ segment ∈ lookupRecipe.pathSegments, ¬WritesDots (answered "pay_1") segment := by
    decide +kernel
  have hok : (render renderLibs lookupRecipe (answered "pay_1")).isOk = true := by decide +kernel
  cases hrequest : render renderLibs lookupRecipe (answered "pay_1") with
  | error e =>
    rw [hrequest] at hok
    cases hok
  | ok request =>
    exact ⟨hdots, request, rfl, ((render_endpoint_iff renderLibs_percentEncodes hvalid hrequest).2 hdots).1⟩

theorem reference_leaves_endpoint :
    validateRecipe lookupRecipe ["api.provider.com"] = .ok () ∧
      ∃ request, render renderLibs lookupRecipe (answered "..") = .ok request ∧
        ∃ segment ∈ request.pathSegments, DotSegment segment := by
  refine ⟨by decide +kernel, ?_⟩
  have hok : (render renderLibs lookupRecipe (answered "..")).isOk = true := by decide +kernel
  cases hrequest : render renderLibs lookupRecipe (answered "..") with
  | error e =>
    rw [hrequest] at hok
    cases hok
  | ok request =>
    have hpath := congrArg (fun r => r.toOption.map RenderedRequest.pathSegments) hrequest
    have hsegments : some request.pathSegments =
        some ["".toList, "v1".toList, "payments".toList, "..".toList] :=
      hpath.symm.trans (by decide +kernel)
    refine ⟨request, rfl, "..".toList, ?_, .inr (by decide +kernel)⟩
    rw [Option.some.inj hsegments]
    simp

def jsonEscape : Char → Option Char
  | '"' => some '"'
  | '\\' => some '\\'
  | '/' => some '/'
  | 'b' => some '\x08'
  | 'f' => some '\x0c'
  | 'n' => some '\n'
  | 'r' => some '\r'
  | 't' => some '\t'
  | _ => none

def jsonSymbols : List Char → List Symbol
  | '\\' :: 'u' :: a :: b :: c :: d :: rest =>
    if [a, b, c, d].all isAsciiHexDigit then
      ⟨['\\', 'u', a, b, c, d], .ofNat (16 * (16 * (16 * hexValueOf a + hexValueOf b) +
        hexValueOf c) + hexValueOf d)⟩ :: jsonSymbols rest
    else .plain '\\' :: jsonSymbols ('u' :: a :: b :: c :: d :: rest)
  | '\\' :: e :: rest => match jsonEscape e with
    | some c => ⟨['\\', e], c⟩ :: jsonSymbols rest
    | none => .plain '\\' :: jsonSymbols (e :: rest)
  | c :: rest => .plain c :: jsonSymbols rest
  | [] => []

namespace Recipe

def sent (recipe : Recipe) : List (List Symbol) :=
  percentSymbols recipe.path.toList ::
    recipe.query.map (fun pair => percentSymbols pair.value.toList) ++
    [if recipe.bodyEncoding = .json then jsonSymbols recipe.body.toList
      else recipe.body.toList.map .plain] ++
    (recipe.query.map NameValue.name ++ recipe.headers.flatMap fun pair =>
      [pair.name, pair.value]).map (·.toList.map .plain)

end Recipe

def CarriesWord (symbols : List Symbol) : Prop :=
  ∃ entry ∈ FORBIDDEN_WORDS, contains (squeeze (String.ofList (decoded symbols))) entry.1 = true

def EscapesWord (symbols : List Symbol) : Prop :=
  ∃ stretch, stretch <:+: symbols ∧ (∃ s ∈ stretch, s.Escaped) ∧
    ∃ entry ∈ FORBIDDEN_WORDS, squeeze (String.ofList (decoded stretch)) = entry.1

section Words

variable {symbols : List Symbol} {recipe : Recipe} {text : String}

theorem percentSymbols_source (text : List Char) :
    (percentSymbols text).flatMap Symbol.source = text := by
  fun_induction percentSymbols text with
  | case1 a b rest h ih => simp [ih]
  | case2 a b rest h ih => simp [ih, Symbol.plain]
  | case3 c rest h ih => simp [ih, Symbol.plain]
  | case4 => rfl

theorem jsonSymbols_source (text : List Char) : (jsonSymbols text).flatMap Symbol.source = text := by
  fun_induction jsonSymbols text with
  | case1 a b c d rest h ih => simp [ih]
  | case2 a b c d rest h ih => simp [ih, Symbol.plain]
  | case3 e rest h c hc ih => simp [ih]
  | case4 e rest h hc ih => simp [ih, Symbol.plain]
  | case5 c rest h h' ih => simp [ih, Symbol.plain]
  | case6 => rfl

theorem plain_source (text : List Char) :
    (text.map Symbol.plain).flatMap Symbol.source = text := by
  simp [List.flatMap_map, Symbol.plain]

theorem source_of_sent (h : symbols ∈ recipe.sent) :
    ∃ text ∈ recipe.texts, symbols.flatMap Symbol.source = text.toList := by
  simp only [Recipe.sent, List.cons_append, List.mem_cons, List.mem_append, List.mem_map,
    List.mem_flatMap, List.not_mem_nil, or_false] at h
  simp only [Recipe.texts, List.mem_append, List.mem_cons, List.mem_flatMap, List.not_mem_nil,
    or_false]
  rcases h with rfl | (⟨pair, hpair, rfl⟩ | rfl) | ⟨text, htext, rfl⟩
  · exact ⟨recipe.path, by simp, percentSymbols_source _⟩
  · exact ⟨pair.value, .inl (.inr ⟨pair, .inl hpair, .inr rfl⟩), percentSymbols_source _⟩
  · refine ⟨recipe.body, by simp, ?_⟩
    split
    · exact jsonSymbols_source _
    · exact plain_source _
  · refine ⟨text, .inl (.inr ?_), plain_source _⟩
    rcases htext with ⟨pair, hpair, rfl⟩ | ⟨pair, hpair, h⟩
    · exact ⟨pair, .inl hpair, .inl rfl⟩
    · exact ⟨pair, .inr hpair, h⟩

theorem findForbidden_none {readOnly : Bool} (h : findForbidden text readOnly = none) :
    ∀ entry ∈ FORBIDDEN_WORDS, contains (squeeze text) entry.1 = false := by
  unfold findForbidden at h
  simp only at h
  split at h
  · cases h
  · next hfind =>
    intro entry hentry
    simpa using List.find?_eq_none.1 hfind entry hentry

theorem checkRecipe_ok (h : checkRecipe recipe = .ok ()) (htext : text ∈ recipe.texts) :
    ∀ entry ∈ FORBIDDEN_WORDS, contains (squeeze text) entry.1 = false := by
  unfold checkRecipe at h
  simp only at h
  cases hfind : recipe.texts.findSome? fun text =>
      findForbidden text (toAsciiUppercase recipe.method == "GET") with
  | none => exact findForbidden_none (List.findSome?_eq_none_iff.1 hfind text htext)
  | some refusal =>
    rw [hfind] at h
    split at h <;> split at h <;> cases h

theorem squeeze_infix {cs ds : List Char} (h : cs <:+: ds) :
    contains (squeeze (String.ofList ds)) (squeeze (String.ofList cs)) = true := by
  simp only [contains, squeeze, String.toList_ofList, decide_eq_true_eq]
  exact (h.filter _).map _

theorem stretch_of_contains {word : String}
    (h : contains (squeeze (String.ofList (decoded symbols))) word = true) :
    ∃ stretch, stretch <:+: symbols ∧ squeeze (String.ofList (decoded stretch)) = word := by
  simp only [contains, squeeze, String.toList_ofList, decide_eq_true_eq] at h
  obtain ⟨before, after, hsplit⟩ := h
  rw [List.append_assoc] at hsplit
  obtain ⟨_, rest, hfilter, -, hrest⟩ := List.map_eq_append_iff.1 hsplit.symm
  obtain ⟨spelled, _, rfl, hspelled, -⟩ := List.map_eq_append_iff.1 hrest
  obtain ⟨_, tail, hdecoded, -, htail⟩ := List.filter_eq_append_iff.1 hfilter
  obtain ⟨letters, _, rfl, hletters, -⟩ := List.filter_eq_append_iff.1 htail
  obtain ⟨first, last, rfl, -, hlast⟩ := List.map_eq_append_iff.1 hdecoded
  obtain ⟨stretch, last, rfl, hstretch, -⟩ := List.map_eq_append_iff.1 hlast
  refine ⟨stretch, ⟨first, last, by simp⟩, ?_⟩
  rw [decoded, hstretch, squeeze, String.toList_ofList, hletters, hspelled, String.ofList_toList]

theorem source_eq_decoded (h : ∀ s ∈ symbols, ¬s.Escaped) :
    symbols.flatMap Symbol.source = decoded symbols := by
  rw [List.flatMap_congr fun s hs => not_not.1 (h s hs), decoded]
  exact List.flatMap_pure_eq_map _ _

theorem carriesWord_iff (htext : symbols.flatMap Symbol.source = text.toList)
    (hclean : ∀ entry ∈ FORBIDDEN_WORDS, contains (squeeze text) entry.1 = false) :
    CarriesWord symbols ↔ EscapesWord symbols := by
  constructor
  · rintro ⟨entry, hentry, hcontains⟩
    obtain ⟨stretch, hstretch, hspells⟩ := stretch_of_contains hcontains
    refine ⟨stretch, hstretch, ?_, entry, hentry, hspells⟩
    -- a stretch without an escape stands in the text itself, which the check has read
    by_contra hplain
    push Not at hplain
    have hinfix : decoded stretch <:+: text.toList := by
      rw [← source_eq_decoded hplain, ← htext]
      exact hstretch.flatMap _
    have hsqueezed := squeeze_infix hinfix
    rw [hspells, String.ofList_toList, hclean entry hentry] at hsqueezed
    cases hsqueezed
  · rintro ⟨stretch, hstretch, -, entry, hentry, hspells⟩
    exact ⟨entry, hentry, hspells ▸ squeeze_infix (hstretch.map _)⟩

/-- A recipe that was accepted sends no forbidden word unless one is spelled with an escape. -/
theorem validateRecipe_words_iff {hosts : List String}
    (hvalid : validateRecipe recipe hosts = .ok ()) :
    (∀ symbols ∈ recipe.sent, ¬CarriesWord symbols) ↔
      ∀ symbols ∈ recipe.sent, ¬EscapesWord symbols := by
  refine forall₂_congr fun symbols hsymbols => not_congr ?_
  obtain ⟨text, htext, hsource⟩ := source_of_sent hsymbols
  exact carriesWord_iff hsource (checkRecipe_ok (validateRecipe_ok hvalid).1 htext)

end Words

theorem validateRecipe_words_lookup :
    validateRecipe lookupRecipe ["api.provider.com"] = .ok () ∧
      ((∀ symbols ∈ lookupRecipe.sent, ¬CarriesWord symbols) ↔
        ∀ symbols ∈ lookupRecipe.sent, ¬EscapesWord symbols) :=
  have hvalid : validateRecipe lookupRecipe ["api.provider.com"] = .ok () := by decide +kernel
  ⟨hvalid, validateRecipe_words_iff hvalid⟩

def escapedLookup : Recipe := { lookupRecipe with path := "/v1/%72efunds/{{provider_reference}}" }

theorem escapedLookup_accepted :
    validateRecipe escapedLookup ["api.provider.com"] = .ok () ∧
      ∃ symbols ∈ escapedLookup.sent, CarriesWord symbols :=
  ⟨by decide +kernel, percentSymbols escapedLookup.path.toList, List.mem_cons_self,
    ("refund", "refund_path"), by decide, by decide +kernel⟩

end Colony.Money
