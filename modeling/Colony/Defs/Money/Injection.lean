import Colony.Defs.Money.Endpoint

namespace Colony.Money

open Colony.Core Colony.Data ConnectionConfig

def hexValue4 (a b c d : Char) : Nat :=
  16 * (16 * (16 * hexValueOf a + hexValueOf b) + hexValueOf c) + hexValueOf d

/-- What stands between the quotes of a string, and the characters and holes it denotes. -/
inductive StringText : List Piece → List Piece → Prop
  | done : StringText [] []
  | char {c : Char} {s out : List Piece} (hc : c ≠ '"' ∧ c ≠ '\\' ∧ 32 ≤ c.toNat)
      (h : StringText s out) : StringText (.text c :: s) (.text c :: out)
  | escape {e c : Char} {s out : List Piece} (he : jsonEscape e = some c) (h : StringText s out) :
      StringText (.text '\\' :: .text e :: s) (.text c :: out)
  | unicode {a b c d : Char} {s out : List Piece} (hhex : [a, b, c, d].all isAsciiHexDigit = true)
      (hscalar : (hexValue4 a b c d).isValidChar) (h : StringText s out) :
      StringText (['\\', 'u', a, b, c, d].map .text ++ s) (.text (.ofNat (hexValue4 a b c d)) :: out)
  | pair {a b c d a' b' c' d' : Char} {s out : List Piece}
      (hhex : [a, b, c, d, a', b', c', d'].all isAsciiHexDigit = true)
      (hhigh : 0xD800 ≤ hexValue4 a b c d ∧ hexValue4 a b c d < 0xDC00)
      (hlow : 0xDC00 ≤ hexValue4 a' b' c' d' ∧ hexValue4 a' b' c' d' < 0xE000)
      (h : StringText s out) :
      StringText (['\\', 'u', a, b, c, d, '\\', 'u', a', b', c', d'].map .text ++ s)
        (.text (.ofNat (0x10000 + 0x400 * (hexValue4 a b c d - 0xD800) +
          (hexValue4 a' b' c' d' - 0xDC00))) :: out)
  | hole {name : List Char} {s out : List Piece} (h : StringText s out) :
      StringText (.hole name :: s) (.hole name :: out)

def isNumber (word : List Char) : Bool :=
  let unsigned := if word.head? = some '-' then word.drop 1 else word
  let whole := unsigned.takeWhile Char.isDigit
  let rest := unsigned.dropWhile Char.isDigit
  let fraction := if rest.head? = some '.' then (rest.drop 1).takeWhile Char.isDigit else []
  let power := if rest.head? = some '.' then (rest.drop 1).dropWhile Char.isDigit else rest
  let digits := (power.drop 1).dropWhile fun c => c == '+' || c == '-'
  !whole.isEmpty && (whole == ['0'] || whole.head? != some '0') &&
    (rest.head? != some '.' || !fraction.isEmpty) &&
    (power.isEmpty || ((power.head? == some 'e' || power.head? == some 'E') &&
      digits.length + 2 ≥ power.length && !digits.isEmpty && digits.all Char.isDigit))

def isAtom (word : List Char) : Bool :=
  word == "true".toList || word == "false".toList || word == "null".toList || isNumber word

def isJsonSpace (c : Char) : Bool := c == ' ' || c == '\t' || c == '\n' || c == '\r'

inductive JsonTree
  | atom (word : List Char)
  | str (content : List Piece)
  | array (items : JsonTree)
  | object (members : JsonTree)
  | done
  | item (value rest : JsonTree)
  | member (key : List Piece) (value rest : JsonTree)

inductive JsonPart
  | value
  | items
  | members

inductive Reads : JsonPart → List Piece → JsonTree → Prop
  | spaceBefore {c : Char} {s : List Piece} {v : JsonTree} (hc : isJsonSpace c = true)
      (h : Reads .value s v) : Reads .value (.text c :: s) v
  | spaceAfter {c : Char} {s : List Piece} {v : JsonTree} (hc : isJsonSpace c = true)
      (h : Reads .value s v) : Reads .value (s ++ [.text c]) v
  | atom {word : List Char} (h : isAtom word = true) : Reads .value (word.map .text) (.atom word)
  | str {s content : List Piece} (h : StringText s content) :
      Reads .value (.text '"' :: s ++ [.text '"']) (.str content)
  | emptyArray {space : List Char} (h : space.all isJsonSpace = true) :
      Reads .value (.text '[' :: space.map .text ++ [.text ']']) (.array .done)
  | array {s : List Piece} {v : JsonTree} (h : Reads .items s v) :
      Reads .value (.text '[' :: s ++ [.text ']']) (.array v)
  | emptyObject {space : List Char} (h : space.all isJsonSpace = true) :
      Reads .value (.text '{' :: space.map .text ++ [.text '}']) (.object .done)
  | object {s : List Piece} {v : JsonTree} (h : Reads .members s v) :
      Reads .value (.text '{' :: s ++ [.text '}']) (.object v)
  | lastItem {s : List Piece} {v : JsonTree} (h : Reads .value s v) :
      Reads .items s (.item v .done)
  | item {s t : List Piece} {v rest : JsonTree} (h : Reads .value s v)
      (hrest : Reads .items t rest) : Reads .items (s ++ .text ',' :: t) (.item v rest)
  | lastMember {k s key : List Piece} {v : JsonTree} (hkey : Reads .value k (.str key))
      (h : Reads .value s v) : Reads .members (k ++ .text ':' :: s) (.member key v .done)
  | member {k s t key : List Piece} {v rest : JsonTree} (hkey : Reads .value k (.str key))
      (h : Reads .value s v) (hrest : Reads .members t rest) :
      Reads .members (k ++ .text ':' :: s ++ .text ',' :: t) (.member key v rest)

theorem StringText.append {a a' s out : List Piece} (h : StringText a a') (hs : StringText s out) :
    StringText (a ++ s) (a' ++ out) := by
  induction h with
  | done => exact hs
  | char hc _ ih => exact .char hc ih
  | escape he _ ih => exact .escape he ih
  | unicode hhex hscalar _ ih =>
    rw [List.append_assoc]
    exact .unicode hhex hscalar ih
  | pair hhex hhigh hlow _ ih =>
    rw [List.append_assoc]
    exact .pair hhex hhigh hlow ih
  | hole _ ih => exact .hole ih

/-- The JSON of a string is a string that denotes it. -/
def Libs.WritesStrings (lib : Libs) : Prop := ∀ s, ∃ text : List Char,
  (lib.jsonString s).toList = '"' :: text ++ ['"'] ∧ StringText (text.map .text) (s.toList.map .text)

theorem encode_bodyJson {lib : Libs} (hlib : lib.WritesStrings) (value : String) :
    ∃ text, encode lib value .bodyJson = .ok text ∧
      StringText (text.map .text) (value.toList.map .text) := by
  obtain ⟨text, heq, htext⟩ := hlib value
  refine ⟨text, ?_, htext⟩
  rw [encode, heq]
  simp

section Fill

variable (lib : Libs) (values : RenderValues)

def Piece.insert (p : Piece) : List Piece := (p.plain values).map .text

def JsonTree.insert : JsonTree → JsonTree
  | .atom word => .atom word
  | .str content => .str (content.flatMap (Piece.insert values))
  | .array items => .array items.insert
  | .object members => .object members.insert
  | .done => .done
  | .item value rest => .item value.insert rest.insert
  | .member key value rest =>
    .member (key.flatMap (Piece.insert values)) value.insert rest.insert

def Piece.render (p : Piece) : List Piece := (p.filled lib values .bodyJson).map .text

@[simp] theorem render_text (c : Char) : (Piece.text c).render lib values = [.text c] := rfl

@[simp] theorem insert_text (c : Char) : (Piece.text c).insert values = [.text c] := rfl

@[simp] theorem flatMap_render_text (cs : List Char) :
    (cs.map Piece.text).flatMap (Piece.render lib values) = cs.map .text := by
  rw [List.flatMap_map]
  exact List.flatMap_pure_eq_map _ _

variable {lib} (hlib : lib.WritesStrings)
include hlib

theorem stringText_hole (name : List Char) {s out : List Piece} (h : StringText s out) :
    StringText ((Piece.hole name).render lib values ++ s) ((Piece.hole name).insert values ++ out) := by
  refine StringText.append ?_ h
  rw [Piece.render, Piece.insert, Piece.filled, Piece.fill, Piece.plain]
  cases valueOf (String.ofList name) values with
  | error e => exact .done
  | ok value =>
    obtain ⟨text, heq, htext⟩ := encode_bodyJson hlib value
    change StringText (((encode lib value .bodyJson).toOption.getD []).map .text) _
    rw [heq]
    exact htext

theorem stringText_render {s content : List Piece} (h : StringText s content) :
    StringText (s.flatMap (Piece.render lib values)) (content.flatMap (Piece.insert values)) := by
  induction h with
  | done => exact .done
  | char hc _ ih => exact .char hc ih
  | escape he _ ih => exact .escape he ih
  | unicode hhex hscalar _ ih =>
    rw [List.flatMap_append, flatMap_render_text]
    exact .unicode hhex hscalar ih
  | pair hhex hhigh hlow _ ih =>
    rw [List.flatMap_append, flatMap_render_text]
    exact .pair hhex hhigh hlow ih
  | hole _ ih => exact stringText_hole values hlib _ ih

theorem reads_render {part : JsonPart} {s : List Piece} {tree : JsonTree} (h : Reads part s tree) :
    Reads part (s.flatMap (Piece.render lib values)) (tree.insert values) := by
  induction h with
  | spaceBefore hc _ ih => exact .spaceBefore hc ih
  | spaceAfter hc _ ih =>
    rw [List.flatMap_append]
    exact .spaceAfter hc ih
  | atom hatom =>
    rw [flatMap_render_text]
    exact .atom hatom
  | str hstr =>
    rw [List.cons_append, List.flatMap_cons, List.flatMap_append]
    exact .str (stringText_render values hlib hstr)
  | emptyArray hspace =>
    rw [List.cons_append, List.flatMap_cons, List.flatMap_append, flatMap_render_text]
    exact .emptyArray hspace
  | array _ ih =>
    rw [List.cons_append, List.flatMap_cons, List.flatMap_append]
    exact .array ih
  | emptyObject hspace =>
    rw [List.cons_append, List.flatMap_cons, List.flatMap_append, flatMap_render_text]
    exact .emptyObject hspace
  | object _ ih =>
    rw [List.cons_append, List.flatMap_cons, List.flatMap_append]
    exact .object ih
  | lastItem _ ih => exact .lastItem ih
  | item _ _ ih ihrest =>
    rw [List.flatMap_append, List.flatMap_cons]
    exact .item ih ihrest
  | lastMember _ _ ihkey ih =>
    rw [List.flatMap_append, List.flatMap_cons]
    exact .lastMember ihkey ih
  | member _ _ _ ihkey ih ihrest =>
    rw [List.flatMap_append, List.flatMap_append, List.flatMap_cons, List.flatMap_cons]
    exact .member ihkey ih ihrest

end Fill

def Provides (recipe : Recipe) (values : RenderValues) : Prop :=
  ∀ template ∈ recipe.templates, ∀ ps, pieces template = some ps →
    .hole "provider_reference".toList ∈ ps → values.providerReference.isSome

def delimiters : List Char := ['&', '=', '+', '#']

section Rendering

variable {lib : Libs} {recipe : Recipe} {values : RenderValues} {hosts : List String}
  {template : String} {ps : List Piece}

theorem valueOf_allowed {name : String} (h : recipe.allows name = true)
    (hreference : name = "provider_reference" → values.providerReference.isSome) :
    ∃ value, valueOf name values = .ok value := by
  have hname : name ∈ PLACEHOLDERS := by
    simpa using (Bool.and_eq_true_iff.1 h).1
  simp only [PLACEHOLDERS, List.mem_cons, List.not_mem_nil, or_false] at hname
  rcases hname with rfl | rfl | rfl | rfl | rfl | rfl | rfl | rfl | rfl | rfl
  case inr.inr.inr.inr.inr.inr.inr.inr.inr =>
    obtain ⟨reference, href⟩ := Option.isSome_iff_exists.1 (hreference rfl)
    exact ⟨reference, by simp [valueOf, href]⟩
  all_goals exact ⟨_, rfl⟩

theorem accepted_pieces (hvalid : validateRecipe recipe hosts = .ok ())
    (hprovides : Provides recipe values) (htemplate : template ∈ recipe.templates) :
    ∃ ps, pieces template = some ps ∧ ∀ name, .hole name ∈ ps → ValidName name ∧
      ∃ value, valueOf (String.ofList name) values = .ok value := by
  obtain ⟨-, -, htemplates⟩ := validateRecipe_ok hvalid
  obtain ⟨ps, hps, hnames⟩ := htemplates template htemplate
  refine ⟨ps, hps, fun name hname => ⟨(hnames name hname).1, valueOf_allowed (hnames name hname).2 ?_⟩⟩
  intro heq
  refine hprovides template htemplate ps hps ?_
  rwa [← heq, String.toList_ofList]

/-- One pass over a template, in which a value stands for its placeholder and is not read again. -/
def FilledOnce (lib : Libs) (values : RenderValues) (context : Context) (template : String)
    (out : String) : Prop :=
  ∃ ps, pieces template = some ps ∧ (∀ name, .hole name ∈ ps → ValidName name) ∧
    out.toList = ps.flatMap (Piece.filled lib values context)

theorem fillAll_error {context : Context} {e : MoneyError}
    (hps : ∀ name, .hole name ∈ ps → ∃ value, valueOf (String.ofList name) values = .ok value)
    (h : fillAll lib values context ps = .error e) : context = .header ∧ e = headerControl := by
  induction ps with
  | nil => cases h
  | cons p ps ih =>
    have hrest := ih fun name hname => hps name (List.mem_cons_of_mem _ hname)
    cases hp : p.fill lib values context with
    | ok text =>
      cases hall : fillAll lib values context ps with
      | ok out => rw [fillAll, hp, hall] at h; cases h
      | error e' =>
        rw [fillAll, hp, hall] at h
        cases h
        exact hrest hall
    | error e' =>
      rw [fillAll, hp] at h
      cases h
      cases p with
      | text c => cases hp
      | hole name =>
        obtain ⟨value, hvalue⟩ := hps name List.mem_cons_self
        rw [Piece.fill, hvalue] at hp
        change encode lib value context = .error e at hp
        unfold encode at hp
        split at hp
        · cases hp
        · cases hp
        · cases hp
        · split at hp
          · cases hp; exact ⟨rfl, rfl⟩
          · cases hp
        · cases hp

theorem source_pieces (hps : pieces template = some ps) :
    ps.flatMap Piece.source = template.toList :=
  source_piecesFrom hps

theorem substitute_ok (lib : Libs) {context : Context} (hcontext : context ≠ .header)
    (hvalid : validateRecipe recipe hosts = .ok ()) (hprovides : Provides recipe values)
    (htemplate : template ∈ recipe.templates) (hps : pieces template = some ps) :
    ∃ out, substitute lib values context template = .ok out ∧
      out.toList = ps.flatMap (Piece.filled lib values context) := by
  obtain ⟨ps', hps', hnames⟩ := accepted_pieces hvalid hprovides htemplate
  obtain rfl : ps = ps' := Option.some.inj (hps.symm.trans hps')
  cases hsub : substitute lib values context template with
  | ok out => exact ⟨out, rfl, ((substitute_ok_iff hps).1 hsub).2⟩
  | error e =>
    rw [substitute, substituteFrom_pieces lib values context hps, map_eq_error] at hsub
    exact absurd (fillAll_error (fun name hname => (hnames name hname).2) hsub).1 hcontext

theorem substitute_error {context : Context} {e : MoneyError}
    (hvalid : validateRecipe recipe hosts = .ok ()) (hprovides : Provides recipe values)
    (htemplate : template ∈ recipe.templates) (h : substitute lib values context template = .error e) :
    e = headerControl := by
  obtain ⟨ps, hps, hnames⟩ := accepted_pieces hvalid hprovides htemplate
  rw [substitute, substituteFrom_pieces lib values context hps, map_eq_error] at h
  exact (fillAll_error (fun name hname => (hnames name hname).2) h).2

theorem count_filled (hlib : lib.PercentEncodes) {context : Context} (hcontext : context = .query ∨ context = .bodyForm)
    (hvalid : ∀ name, .hole name ∈ ps → ValidName name) {d : Char} (hd : d ∈ delimiters) :
    (ps.flatMap (Piece.filled lib values context)).count d = (ps.flatMap Piece.source).count d := by
  rw [List.count_flatMap, List.count_flatMap]
  refine congrArg List.sum (List.map_congr_left fun p hp => ?_)
  cases p with
  | text c => rfl
  | hole name =>
    have hreserved : ∀ d ∈ delimiters, ¬(isUnreserved d = true ∨ d = '%') := by
      simp [delimiters, isUnreserved, isAsciiAlphanumeric, isAsciiLowercase, isAsciiUppercase]
    have hname : ∀ d ∈ delimiters, ¬(isAsciiLowercase d = true ∨ d = '_') ∧ d ≠ '{' ∧ d ≠ '}' := by
      simp [delimiters, isAsciiLowercase]
    obtain ⟨hletter, hopen, hclose⟩ := hname d hd
    have hfilled : d ∉ (Piece.hole name).filled lib values context :=
      fun h => hreserved d hd (mem_filled hlib (.inr hcontext) h)
    have hsource : d ∉ (Piece.hole name).source := by
      simp only [Piece.source, List.cons_append, List.mem_cons, List.mem_append, List.not_mem_nil,
        or_false, hopen, hclose, false_or]
      exact fun h => hletter (hvalid name hp d h)
    simp only [Function.comp_apply]
    rw [List.count_eq_zero.2 hfilled, List.count_eq_zero.2 hsource]

theorem substitute_count (hlib : lib.PercentEncodes) {context : Context} (hcontext : context = .query ∨ context = .bodyForm)
    (hvalid : validateRecipe recipe hosts = .ok ()) (hprovides : Provides recipe values)
    (htemplate : template ∈ recipe.templates) :
    ∃ out, substitute lib values context template = .ok out ∧
      ∀ d ∈ delimiters, out.toList.count d = template.toList.count d := by
  obtain ⟨ps, hps, hnames⟩ := accepted_pieces hvalid hprovides htemplate
  have hheader : context ≠ .header := by rcases hcontext with rfl | rfl <;> decide
  obtain ⟨out, hout, hfilled⟩ := substitute_ok lib hheader hvalid hprovides htemplate hps
  refine ⟨out, hout, fun d hd => ?_⟩
  rw [hfilled, ← source_pieces hps]
  exact count_filled hlib hcontext (fun name hname => (hnames name hname).1) hd

theorem render_error {e : MoneyError} (hvalid : validateRecipe recipe hosts = .ok ())
    (hprovides : Provides recipe values) (h : render lib recipe values = .error e) :
    e = headerControl := by
  have hsub {template : String} (htemplate : template ∈ recipe.templates) {context : Context}
      (h : substitute lib values context template = .error e) : e = headerControl :=
    substitute_error hvalid hprovides htemplate h
  unfold render at h
  rcases bind_eq_error.1 h with h | ⟨path, -, h⟩
  · exact hsub (by simp [Recipe.templates]) h
  rcases bind_eq_error.1 h with h | ⟨parts, -, h⟩
  · obtain ⟨pair, hpair, h⟩ := mapM_eq_error h
    refine hsub ?_ (map_eq_error.1 h)
    simp only [Recipe.templates, List.mem_append, List.mem_map]
    exact .inl (.inr ⟨pair, hpair, rfl⟩)
  rcases bind_eq_error.1 h with h | ⟨headers, -, h⟩
  · obtain ⟨pair, hpair, h⟩ := mapM_eq_error h
    refine hsub ?_ (map_eq_error.1 h)
    simp only [Recipe.templates, List.mem_append, List.mem_map]
    exact .inr ⟨pair, hpair, rfl⟩
  rcases bind_eq_error.1 h with h | ⟨body, -, h⟩
  · have hbody : recipe.body ∈ recipe.templates := by simp [Recipe.templates]
    unfold renderBody at h
    split at h
    · cases h
    · exact hsub hbody (map_eq_error.1 h)
    · exact hsub hbody (map_eq_error.1 h)
  · cases h

/-- A card's values cannot change what was approved: every template is filled in one pass, a JSON
body keeps its shape, queries and forms keep their delimiters, and only a control character in a
header makes rendering fail. -/
theorem render_injection_free (hpercent : lib.PercentEncodes) (hstrings : lib.WritesStrings)
    (hvalid : validateRecipe recipe hosts = .ok ()) (hprovides : Provides recipe values) :
    (∀ template ∈ recipe.templates, ∀ context out, substitute lib values context template = .ok out →
      FilledOnce lib values context template out) ∧
    (recipe.bodyEncoding = .json → ∀ ps tree, pieces recipe.body = some ps →
      Reads .value ps tree → ∃ out, renderBody lib recipe values = .ok (some out) ∧
        Reads .value (out.toList.map .text) (tree.insert values)) ∧
    (∀ pair ∈ recipe.query, ∃ out, substitute lib values .query pair.value = .ok out ∧
      ∀ d ∈ delimiters, out.toList.count d = pair.value.toList.count d) ∧
    (recipe.bodyEncoding = .form → ∃ out, renderBody lib recipe values = .ok (some out) ∧
      ∀ d ∈ delimiters, out.toList.count d = recipe.body.toList.count d) ∧
    ∀ e, render lib recipe values = .error e → e = headerControl := by
  have hbody : recipe.body ∈ recipe.templates := by simp [Recipe.templates]
  refine ⟨?_, ?_, ?_, ?_, fun e => render_error hvalid hprovides⟩
  · intro template htemplate context out hout
    obtain ⟨ps, hps, hnames⟩ := accepted_pieces hvalid hprovides htemplate
    exact ⟨ps, hps, fun name hname => (hnames name hname).1,
      ((substitute_ok_iff hps).1 hout).2⟩
  · intro hjson ps tree hps htree
    have hcontext : Context.bodyJson ≠ .header := by decide
    obtain ⟨out, hout, hfilled⟩ := substitute_ok lib hcontext hvalid hprovides hbody hps
    refine ⟨out, by rw [renderBody, hjson]; simp [hout, Except.map], ?_⟩
    rw [hfilled, List.map_flatMap]
    exact reads_render values hstrings htree
  · intro pair hpair
    refine substitute_count hpercent (.inl rfl) hvalid hprovides ?_
    simp only [Recipe.templates, List.mem_append, List.mem_map]
    exact .inl (.inr ⟨pair, hpair, rfl⟩)
  · intro hform
    obtain ⟨out, hout, hcount⟩ := substitute_count hpercent (.inr rfl) hvalid hprovides hbody
    exact ⟨out, by rw [renderBody, hform]; simp [hout, Except.map], hcount⟩

end Rendering

section Sample

def jsonChar (c : Char) : List Char :=
  if c == '"' then ['\\', '"']
  else if c == '\\' then ['\\', '\\']
  else if c.toNat == 8 then ['\\', 'b']
  else if c.toNat == 9 then ['\\', 't']
  else if c.toNat == 10 then ['\\', 'n']
  else if c.toNat == 12 then ['\\', 'f']
  else if c.toNat == 13 then ['\\', 'r']
  else if c.toNat < 0x20 then
    ['\\', 'u', '0', '0', Nat.digitChar (c.toNat / 16), Nat.digitChar (c.toNat % 16)]
  else [c]

theorem stringText_jsonChar (c : Char) {s out : List Piece} (h : StringText s out) :
    StringText ((jsonChar c).map .text ++ s) (.text c :: out) := by
  have hnat {n : Nat} (hn : (c.toNat == n) = true) {d : Char} (hd : d.toNat = n) : c = d :=
    Char.toNat_inj.1 ((beq_iff_eq.1 hn).trans hd.symm)
  unfold jsonChar
  split
  · next hc =>
    obtain rfl := beq_iff_eq.1 hc
    exact .escape rfl h
  split
  · next hc =>
    obtain rfl := beq_iff_eq.1 hc
    exact .escape rfl h
  split
  · next hc => exact hnat hc (d := '\x08') rfl ▸ .escape rfl h
  split
  · next hc => exact hnat hc (d := '\t') rfl ▸ .escape rfl h
  split
  · next hc => exact hnat hc (d := '\n') rfl ▸ .escape rfl h
  split
  · next hc => exact hnat hc (d := '\x0c') rfl ▸ .escape rfl h
  split
  · next hc => exact hnat hc (d := '\r') rfl ▸ .escape rfl h
  split
  · next hc =>
    have hdigits : ∀ n < 32, ['0', '0', Nat.digitChar (n / 16), Nat.digitChar (n % 16)].all
          isAsciiHexDigit = true ∧
        hexValue4 '0' '0' (Nat.digitChar (n / 16)) (Nat.digitChar (n % 16)) = n := by
      decide +kernel
    obtain ⟨hhex, hvalue⟩ := hdigits c.toNat hc
    have hunicode := StringText.unicode hhex (hvalue.symm ▸ c.valid) h
    rwa [hvalue, Char.ofNat_toNat] at hunicode
  · next hquote hslash _ _ _ _ _ hcontrol =>
    exact .char ⟨by simpa using hquote, by simpa using hslash, by omega⟩ h

def jsonLibs : Libs :=
  { renderLibs with
    jsonString := fun s => "\"" ++ String.ofList (s.toList.flatMap jsonChar) ++ "\"" }

theorem jsonLibs_percentEncodes : jsonLibs.PercentEncodes :=
  ⟨renderLibs_percentEncodes.unreserved, renderLibs_percentEncodes.reserved⟩

theorem jsonLibs_writesStrings : jsonLibs.WritesStrings := by
  intro s
  refine ⟨s.toList.flatMap jsonChar, ?_, ?_⟩
  · simp only [jsonLibs, String.toList_append, String.toList_ofList]
    rfl
  · induction s.toList with
    | nil => exact .done
    | cons c text ih =>
      rw [List.flatMap_cons, List.map_append]
      exact stringText_jsonChar c ih

def jsonRecipe : Recipe where
  recipeId := "create"
  title := "Create a payment link"
  purpose := .createLink
  method := "POST"
  host := "api.provider.com"
  path := "/v1/links"
  query := [⟨"note", "a-\x7b\x7bpurpose\x7d\x7d"⟩]
  headers := []
  bodyEncoding := .json
  body := "[\"\x7b\x7bpurpose\x7d\x7d\"]"
  extract :=
    { url := some "/url"
      reference := some "/id"
      amount := some ⟨"/amount", .minor⟩
      currency := some "/currency"
      paid := none }

def formRecipe : Recipe :=
  { jsonRecipe with
    bodyEncoding := .form
    body := "note=\x7b\x7bpurpose\x7d\x7d&x=1" }

-- A purpose that would close the string, start another parameter and open a placeholder.
def hostile : String := "\"]&=#\x7b\x7bcurrency\x7d\x7d"

def hostileValues : RenderValues := { answered "pay_1" with purpose := hostile }

def jsonPieces : List Piece :=
  [.text '[', .text '"', .hole "purpose".toList, .text '"', .text ']']

end Sample

theorem render_injection_free_lookup :
    (∃ out, renderBody jsonLibs jsonRecipe hostileValues = .ok (some out) ∧
      Reads .value (out.toList.map .text) (.array (.item (.str (hostile.toList.map .text)) .done))) ∧
    (∃ out, substitute jsonLibs hostileValues .query "a-\x7b\x7bpurpose\x7d\x7d" = .ok out ∧
      out.toList.count '&' = 0) ∧
    ∃ out, renderBody jsonLibs formRecipe hostileValues = .ok (some out) ∧ out.toList.count '&' = 1 := by
  have hjson := render_injection_free jsonLibs_percentEncodes jsonLibs_writesStrings
    (show validateRecipe jsonRecipe ["api.provider.com"] = .ok () by decide +kernel)
    (show Provides jsonRecipe hostileValues from fun _ _ _ _ _ => rfl)
  have hform := render_injection_free jsonLibs_percentEncodes jsonLibs_writesStrings
    (show validateRecipe formRecipe ["api.provider.com"] = .ok () by decide +kernel)
    (show Provides formRecipe hostileValues from fun _ _ _ _ _ => rfl)
  have htree : Reads .value jsonPieces (.array (.item (.str [.hole "purpose".toList]) .done)) :=
    .array (.lastItem (.str (.hole .done)))
  refine ⟨hjson.2.1 rfl jsonPieces _ (by decide +kernel) htree, ?_, ?_⟩
  · obtain ⟨out, hout, hcount⟩ := hjson.2.2.1 _ List.mem_cons_self
    exact ⟨out, hout, hcount '&' (by simp [delimiters])⟩
  · obtain ⟨out, hout, hcount⟩ := hform.2.2.2.1 rfl
    exact ⟨out, hout, hcount '&' (by simp [delimiters])⟩

end Colony.Money
