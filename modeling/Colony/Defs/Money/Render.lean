import Colony.Defs.Money.Numerals

namespace Colony.Money

open Colony.Core Colony.Data

structure RenderValues where
  amountMinor : Int
  currency : String
  purpose : String
  cardRef : String
  invoiceNumber : String
  recipientName : String
  expiresAtUnix : Int
  providerReference : Option String

structure RenderedRequest where
  method : String
  host : String
  pathAndQuery : String
  headers : List (String × String)
  body : Option String

inductive Context
  | path
  | query
  | header
  | bodyJson
  | bodyForm
  deriving DecidableEq

def valueOf (name : String) (values : RenderValues) : Except MoneyError String :=
  match name with
  | "amount_minor" => .ok (toString values.amountMinor)
  | "amount_decimal" =>
    .ok (minorToDecimal values.amountMinor (currencyExponent values.currency))
  | "currency" => .ok values.currency
  | "currency_lower" => .ok (toAsciiLowercase values.currency)
  | "purpose" => .ok values.purpose
  | "card_ref" => .ok values.cardRef
  | "invoice_number" => .ok values.invoiceNumber
  | "recipient_name" => .ok values.recipientName
  | "expires_at_unix" => .ok (toString values.expiresAtUnix)
  | "provider_reference" => match values.providerReference with
    | some reference => .ok reference
    | none => .error (.invalid "recipe_placeholder" "this recipe needs a provider reference")
  | _ => .error (.invalid "recipe_placeholder" "unknown placeholder")

def isUnreserved (c : Char) : Bool :=
  isAsciiAlphanumeric c || c == '-' || c == '.' || c == '_' || c == '~'

def headerControl : MoneyError :=
  .invalid "recipe_header" "a value for a header has a control character"

def encode (lib : Libs) (value : String) : Context → Except MoneyError (List Char)
  | .path | .query | .bodyForm => .ok (value.toList.flatMap lib.percentEncode)
  | .header => if value.toList.any isControl then .error headerControl else .ok value.toList
  | .bodyJson => .ok ((lib.jsonString value).toList.drop 1).dropLast

section Substitute

variable (lib : Libs) (values : RenderValues) (context : Context)

/-- The loop over a template: `none` outside of a placeholder, `some name` after its opening
braces. -/
def substituteFrom : Option (List Char) → List Char → Except MoneyError (List Char)
  | none, '{' :: '{' :: rest => substituteFrom (some []) rest
  | none, c :: rest => (substituteFrom none rest).map (c :: ·)
  | none, [] => .ok []
  | some name, '}' :: '}' :: rest => do
    let value ← valueOf (String.ofList name) values
    let text ← encode lib value context
    (substituteFrom none rest).map (text ++ ·)
  | some name, c :: rest => substituteFrom (some (name ++ [c])) rest
  | some _, [] => .error (.invalid "recipe_placeholder" "a \x7b\x7b placeholder is not closed")

def substitute (template : String) : Except MoneyError String :=
  (substituteFrom lib values context none template.toList).map String.ofList

end Substitute

def renderQuery (lib : Libs) (values : RenderValues) (pair : NameValue) : Except MoneyError String :=
  (substitute lib values .query pair.value).map fun value =>
    String.ofList (pair.name.toList.flatMap lib.percentEncode) ++ "=" ++ value

def renderHeader (lib : Libs) (values : RenderValues) (pair : NameValue) :
    Except MoneyError (String × String) :=
  (substitute lib values .header pair.value).map fun value => (pair.name, value)

def renderBody (lib : Libs) (recipe : Recipe) (values : RenderValues) : Except MoneyError (Option String) :=
  match recipe.bodyEncoding with
  | .none => .ok none
  | .json => (substitute lib values .bodyJson recipe.body).map some
  | .form => (substitute lib values .bodyForm recipe.body).map some

def contentType (encoding : BodyEncoding) : String × String :=
  ("Content-Type",
    if encoding = .json then "application/json" else "application/x-www-form-urlencoded")

def render (lib : Libs) (recipe : Recipe) (values : RenderValues) : Except MoneyError RenderedRequest := do
  let path ← substitute lib values .path recipe.path
  let parts ← recipe.query.mapM (renderQuery lib values)
  let headers ← recipe.headers.mapM (renderHeader lib values)
  let body ← renderBody lib recipe values
  return {
    method := toAsciiUppercase recipe.method
    host := recipe.host
    pathAndQuery := if recipe.query.isEmpty then path else path ++ "?" ++ String.intercalate "&" parts
    headers :=
      if body.isSome && !headers.any fun header => toAsciiLowercase header.1 == "content-type" then
        headers ++ [contentType recipe.bodyEncoding]
      else headers
    body }

inductive Piece
  | text (c : Char)
  | hole (name : List Char)
  deriving DecidableEq

namespace Piece

def source : Piece → List Char
  | text c => [c]
  | hole name => '{' :: '{' :: name ++ ['}', '}']

def name? : Piece → Option String
  | text _ => none
  | hole name => some (String.ofList name)

variable (lib : Libs) (values : RenderValues) (context : Context)

def fill : Piece → Except MoneyError (List Char)
  | text c => .ok [c]
  | hole name => do encode lib (← valueOf (String.ofList name) values) context

end Piece

def piecesFrom : Option (List Char) → List Char → Option (List Piece)
  | none, '{' :: '{' :: rest => piecesFrom (some []) rest
  | none, c :: rest => (piecesFrom none rest).map (.text c :: ·)
  | none, [] => some []
  | some name, '}' :: '}' :: rest => (piecesFrom none rest).map (.hole name :: ·)
  | some name, c :: rest => piecesFrom (some (name ++ [c])) rest
  | some _, [] => none

def pieces (template : String) : Option (List Piece) := piecesFrom none template.toList

def fillAll (lib : Libs) (values : RenderValues) (context : Context) : List Piece → Except MoneyError (List Char)
  | [] => .ok []
  | p :: ps => do
    let text ← p.fill lib values context
    (fillAll lib values context ps).map (text ++ ·)

def opened : Option (List Char) → List Char
  | none => []
  | some name => '{' :: '{' :: name

theorem source_piecesFrom {state : Option (List Char)} {template : List Char} {ps : List Piece}
    (h : piecesFrom state template = some ps) :
    ps.flatMap Piece.source = opened state ++ template := by
  fun_induction piecesFrom state template generalizing ps with
  | case1 rest ih => simpa [opened] using ih h
  | case2 c rest hno ih =>
    obtain ⟨ps', hps, rfl⟩ := Option.map_eq_some_iff.1 h
    simpa [opened, Piece.source] using ih hps
  | case3 => cases h; rfl
  | case4 name rest ih =>
    obtain ⟨ps', hps, rfl⟩ := Option.map_eq_some_iff.1 h
    simpa [opened, Piece.source] using ih hps
  | case5 name c rest hno ih => simpa [opened] using ih h
  | case6 => cases h

theorem substituteFrom_pieces (lib : Libs) (values : RenderValues) (context : Context)
    {state : Option (List Char)} {template : List Char} {ps : List Piece}
    (h : piecesFrom state template = some ps) :
    substituteFrom lib values context state template = fillAll lib values context ps := by
  fun_induction piecesFrom state template generalizing ps with
  | case1 rest ih => rw [substituteFrom, ih h]
  | case2 c rest hno ih =>
    obtain ⟨ps', hps, rfl⟩ := Option.map_eq_some_iff.1 h
    rw [substituteFrom.eq_2 _ _ _ _ _ hno, ih hps]
    rfl
  | case3 => cases h; rfl
  | case4 name rest ih =>
    obtain ⟨ps', hps, rfl⟩ := Option.map_eq_some_iff.1 h
    rw [substituteFrom, ih hps, fillAll, Piece.fill]
    cases valueOf (String.ofList name) values <;> rfl
  | case5 name c rest hno ih => rw [substituteFrom.eq_5 _ _ _ _ _ _ hno, ih h]
  | case6 => cases h

def ValidName (name : List Char) : Prop := ∀ c ∈ name, isAsciiLowercase c = true ∨ c = '_'

theorem pieces_of_placeholders {state : Option (List Char)} {template : List Char}
    {names : List String} (h : placeholdersFrom state template = .ok names) :
    ∃ ps, piecesFrom state template = some ps ∧ ps.filterMap Piece.name? = names ∧
      ∀ name, .hole name ∈ ps → ValidName name := by
  fun_induction placeholdersFrom state template generalizing names with
  | case1 rest ih => exact ih h
  | case2 c rest hno ih =>
    obtain ⟨ps, hps, hnames, hvalid⟩ := ih h
    refine ⟨.text c :: ps, ?_, hnames, fun name hname => hvalid name ?_⟩
    · rw [piecesFrom.eq_2 _ _ hno, hps]
      rfl
    · simpa using hname
  | case3 => cases h; exact ⟨[], rfl, rfl, by simp⟩
  | case4 name rest ih =>
    obtain ⟨_, hensure, h⟩ := bind_eq_ok.1 h
    obtain ⟨found, hfound, h⟩ := bind_eq_ok.1 h
    cases h
    obtain ⟨ps, hps, hnames, hvalid⟩ := ih hfound
    refine ⟨.hole name :: ps, ?_, by simp [Piece.name?, hnames], fun name' hname => ?_⟩
    · rw [piecesFrom, hps]
      rfl
    · rcases List.mem_cons.1 hname with heq | hname
      · cases heq
        simp only [ensure_eq_ok, Bool.and_eq_true, List.all_eq_true, Bool.or_eq_true,
          beq_iff_eq] at hensure
        exact hensure.2
      · exact hvalid name' hname
  | case5 name c rest hno ih =>
    rw [piecesFrom.eq_5 _ _ _ hno]
    exact ih h
  | case6 => cases h

section Accepted

variable {lib : Libs} {recipe : Recipe} {template : String} {values : RenderValues} {context : Context}
  {ps : List Piece}

theorem Recipe.checkTemplate_ok (h : recipe.checkTemplate template = .ok ()) :
    ∃ ps, pieces template = some ps ∧
      ∀ name, .hole name ∈ ps → ValidName name ∧ recipe.allows (String.ofList name) = true := by
  unfold Recipe.checkTemplate at h
  obtain ⟨names, hnames, h⟩ := bind_eq_ok.1 h
  obtain ⟨_, hloop, -⟩ := bind_eq_ok.1 h
  obtain ⟨ps, hps, rfl, hvalid⟩ := pieces_of_placeholders hnames
  refine ⟨ps, hps, fun name hname => ⟨hvalid name hname, ?_⟩⟩
  exact ensure_eq_ok.1 (forIn_eq_ok.1 hloop _ (List.mem_filterMap.2 ⟨_, hname, rfl⟩))

theorem validateRecipe_ok {hosts : List String} (h : validateRecipe recipe hosts = .ok ()) :
    checkRecipe recipe = .ok () ∧ Recipe.validPath recipe.path = true ∧
      ∀ template ∈ recipe.templates, ∃ ps, pieces template = some ps ∧
        ∀ name, .hole name ∈ ps → ValidName name ∧ recipe.allows (String.ofList name) = true := by
  unfold validateRecipe at h
  simp only [bind_eq_ok, ensure_eq_ok] at h
  obtain ⟨-, -, -, -, _, hcheck, -, -, -, hpath, -, -, -, -, -, -, -, -, -, -, -, -, _, hloop, -⟩ := h
  refine ⟨?_, hpath, fun template htemplate => ?_⟩
  · cases hrecipe : checkRecipe recipe with
    | ok => rfl
    | error e => rw [hrecipe] at hcheck; cases hcheck
  · exact Recipe.checkTemplate_ok (forIn_eq_ok.1 hloop template htemplate)

def Piece.filled (lib : Libs) (values : RenderValues) (context : Context) (p : Piece) : List Char :=
  (p.fill lib values context).toOption.getD []

theorem fillAll_ok_iff {out : List Char} : fillAll lib values context ps = .ok out ↔
    (∀ p ∈ ps, ∃ text, p.fill lib values context = .ok text) ∧
      out = ps.flatMap (Piece.filled lib values context) := by
  induction ps generalizing out with
  | nil =>
    simp only [fillAll, Except.ok.injEq, List.not_mem_nil, false_imp_iff, implies_true, true_and,
      List.flatMap_nil]
    exact eq_comm
  | cons p ps ih =>
    simp only [fillAll, bind_eq_ok, map_eq_ok, ih, List.mem_cons, forall_eq_or_imp,
      List.flatMap_cons]
    constructor
    · rintro ⟨text, htext, _, ⟨hall, rfl⟩, rfl⟩
      exact ⟨⟨⟨text, htext⟩, hall⟩, by simp [Piece.filled, htext, Except.toOption]⟩
    · rintro ⟨⟨⟨text, htext⟩, hall⟩, rfl⟩
      exact ⟨text, htext, _, ⟨hall, rfl⟩, by simp [Piece.filled, htext, Except.toOption]⟩

theorem substitute_ok_iff {out : String} (hps : pieces template = some ps) :
    substitute lib values context template = .ok out ↔
      (∀ p ∈ ps, ∃ text, p.fill lib values context = .ok text) ∧
        out.toList = ps.flatMap (Piece.filled lib values context) := by
  rw [substitute, substituteFrom_pieces lib values context hps, map_eq_ok]
  constructor
  · rintro ⟨text, htext, rfl⟩
    rw [String.toList_ofList]
    exact fillAll_ok_iff.1 htext
  · intro h
    exact ⟨_, fillAll_ok_iff.2 h, String.ofList_toList⟩

def upperHex (n : Nat) : Char := (Nat.digitChar n).toUpper

def percentByte (b : Nat) : List Char := ['%', upperHex (b / 16), upperHex (b % 16)]

/-- An unreserved character stands for itself; of every other one each byte is escaped, and none of
its bytes is that of an unreserved character. -/
structure Libs.PercentEncodes (lib : Libs) : Prop where
  unreserved : ∀ c, isUnreserved c = true → lib.percentEncode c = [c]
  reserved : ∀ c, isUnreserved c = false → ∃ b bytes,
    lib.percentEncode c = (b :: bytes).flatMap percentByte ∧
      ∀ x ∈ b :: bytes, x < 256 ∧ isUnreserved (.ofNat x) = false

theorem mem_percentEncode (hlib : lib.PercentEncodes) {c d : Char} (h : d ∈ lib.percentEncode c) :
    isUnreserved d = true ∨ d = '%' := by
  have hhex : ∀ n < 16, isUnreserved (upperHex n) = true := by decide
  cases hc : isUnreserved c with
  | true =>
    rw [hlib.unreserved c hc] at h
    exact .inl (List.mem_singleton.1 h ▸ hc)
  | false =>
    obtain ⟨b, bytes, heq, hbytes⟩ := hlib.reserved c hc
    rw [heq] at h
    obtain ⟨x, hx, hd⟩ := List.mem_flatMap.1 h
    have hlt := (hbytes x hx).1
    simp only [percentByte, List.mem_cons, List.not_mem_nil, or_false] at hd
    rcases hd with rfl | rfl | rfl
    · exact .inr rfl
    · exact .inl (hhex _ (by omega))
    · exact .inl (hhex _ (by omega))

theorem mem_filled (hlib : lib.PercentEncodes) {name : List Char} {d : Char}
    (hcontext : context = .path ∨ context = .query ∨ context = .bodyForm)
    (h : d ∈ (Piece.hole name).filled lib values context) :
    isUnreserved d = true ∨ d = '%' := by
  rw [Piece.filled, Piece.fill] at h
  cases hvalue : valueOf (String.ofList name) values with
  | error e =>
    rw [hvalue] at h
    cases h
  | ok value =>
    rw [hvalue] at h
    have hencoded : d ∈ value.toList.flatMap lib.percentEncode := by
      rcases hcontext with rfl | rfl | rfl <;> exact h
    obtain ⟨c, -, hd⟩ := List.mem_flatMap.1 hencoded
    exact mem_percentEncode hlib hd

end Accepted

end Colony.Money
