import Colony.Defs.Money.Link

namespace Colony.Money

open Colony.Core

def PLACEHOLDERS : List String :=
  ["amount_minor", "amount_decimal", "currency", "currency_lower", "purpose", "card_ref",
    "invoice_number", "recipient_name", "expires_at_unix", "provider_reference"]

def FORBIDDEN_HEADERS : List String :=
  ["authorization", "proxy-authorization", "cookie", "set-cookie", "host", "content-length",
    "transfer-encoding", "connection", "upgrade", "te", "trailer", "x-forwarded-for",
    "x-forwarded-host", "x-real-ip"]

inductive RecipePurpose
  | createLink
  | lookupPayment
  deriving DecidableEq

inductive BodyEncoding
  | none
  | json
  | form
  deriving DecidableEq

structure NameValue where
  name : String
  value : String
  deriving DecidableEq

inductive AmountScale
  | minor
  | decimal
  deriving DecidableEq

structure AmountPointer where
  pointer : String
  scale : AmountScale
  deriving DecidableEq

structure EqualsPointer where
  pointer : String
  equals : String
  deriving DecidableEq

structure Extract where
  url : Option String
  reference : Option String
  amount : Option AmountPointer
  currency : Option String
  paid : Option EqualsPointer
  deriving DecidableEq

structure Recipe where
  recipeId : String
  title : String
  purpose : RecipePurpose
  method : String
  host : String
  path : String
  query : List NameValue
  headers : List NameValue
  bodyEncoding : BodyEncoding
  body : String
  extract : Extract
  deriving DecidableEq

section Json

variable (lib : Libs)

def jsonObject (fields : List (String × String)) : String :=
  "\x7b" ++ String.intercalate "," (fields.map fun f => lib.jsonString f.1 ++ ":" ++ f.2) ++ "\x7d"

def jsonArray (items : List String) : String := "[" ++ String.intercalate "," items ++ "]"

def jsonField {α : Type} (name : String) (value : Option α) (json : α → String) :
    List (String × String) :=
  (value.map fun a => (name, json a)).toList

def RecipePurpose.toJson : RecipePurpose → String
  | .createLink => lib.jsonString "create_link"
  | .lookupPayment => lib.jsonString "lookup_payment"

def BodyEncoding.toJson : BodyEncoding → String
  | .none => lib.jsonString "none"
  | .json => lib.jsonString "json"
  | .form => lib.jsonString "form"

def AmountScale.toJson : AmountScale → String
  | .minor => lib.jsonString "minor"
  | .decimal => lib.jsonString "decimal"

def NameValue.toJson (pair : NameValue) : String :=
  jsonObject lib [("name", lib.jsonString pair.name), ("value", lib.jsonString pair.value)]

def AmountPointer.toJson (amount : AmountPointer) : String :=
  jsonObject lib [("pointer", lib.jsonString amount.pointer), ("scale", amount.scale.toJson lib)]

def EqualsPointer.toJson (rule : EqualsPointer) : String :=
  jsonObject lib [("pointer", lib.jsonString rule.pointer), ("equals", lib.jsonString rule.equals)]

def Extract.toJson (ex : Extract) : String :=
  jsonObject lib (jsonField "url" ex.url lib.jsonString ++ jsonField "reference" ex.reference lib.jsonString ++
    jsonField "amount" ex.amount (AmountPointer.toJson lib) ++
    jsonField "currency" ex.currency lib.jsonString ++ jsonField "paid" ex.paid (EqualsPointer.toJson lib))

def Recipe.toJson (recipe : Recipe) : String :=
  jsonObject lib [("recipeId", lib.jsonString recipe.recipeId), ("title", lib.jsonString recipe.title),
    ("purpose", recipe.purpose.toJson lib), ("method", lib.jsonString recipe.method),
    ("host", lib.jsonString recipe.host), ("path", lib.jsonString recipe.path),
    ("query", jsonArray (recipe.query.map (NameValue.toJson lib))),
    ("headers", jsonArray (recipe.headers.map (NameValue.toJson lib))),
    ("bodyEncoding", recipe.bodyEncoding.toJson lib), ("body", lib.jsonString recipe.body),
    ("extract", recipe.extract.toJson lib)]

end Json

def recipeHash (lib : Libs) (recipe : Recipe) : String := lib.sha256Hex (recipe.toJson lib)

section Refusal

def FORBIDDEN_WORDS : List (String × String) :=
  [("refund", "refund_path"), ("payout", "payout_path"), ("transfer", "transfer_path"),
    ("withdraw", "withdraw_path"), ("disburse", "disburse_path"), ("reversal", "reversal_path"),
    ("chargeback", "chargeback_path"), ("remit", "remit_path")]

def BALANCE_WORD : String × String := ("balance", "balance_path")

structure Refusal where
  code : String
  word : String
  deriving DecidableEq

def Refusal.intoError (refusal : Refusal) : MoneyError :=
  .forbidden refusal.code
    (if refusal.word.toList.isEmpty then
      "Colony only asks providers for money. This request is not a create link or lookup."
    else "Colony only asks providers for money. A request that mentions \"" ++ refusal.word ++
      "\" can move money out, so it is never allowed.")

def squeeze (text : String) : String :=
  String.ofList ((text.toList.filter isAsciiAlphanumeric).map Char.toLower)

def findForbidden (text : String) (readOnly : Bool) : Option Refusal :=
  let squeezed := squeeze text
  match FORBIDDEN_WORDS.find? fun entry => contains squeezed entry.1 with
  | some (word, code) => some ⟨code, word⟩
  | none =>
    if !readOnly && contains squeezed BALANCE_WORD.1 then some ⟨BALANCE_WORD.2, BALANCE_WORD.1⟩
    else none

def Recipe.texts (recipe : Recipe) : List String :=
  [recipe.title, recipe.recipeId, recipe.path, recipe.body] ++
    (recipe.query ++ recipe.headers).flatMap (fun pair => [pair.name, pair.value]) ++
    recipe.extract.url.toList

def checkRecipe (recipe : Recipe) : Except Refusal Unit :=
  let method := toAsciiUppercase recipe.method
  let methodOk := match recipe.purpose with
    | .createLink => method == "POST"
    | .lookupPayment => method == "GET"
  if !methodOk then .error ⟨"method_not_allowed", ""⟩
  else match recipe.texts.findSome? fun text => findForbidden text (method == "GET") with
    | some refusal => .error refusal
    | none => .ok ()

end Refusal

section Template

/-- Reads the placeholders of a template in one pass: `none` outside of one, `some name` after its
opening braces. -/
def placeholdersFrom : Option (List Char) → List Char → Except MoneyError (List String)
  | none, '{' :: '{' :: rest => placeholdersFrom (some []) rest
  | none, _ :: rest => placeholdersFrom none rest
  | none, [] => .ok []
  | some name, '}' :: '}' :: rest => do
    ensure (!name.isEmpty && name.length ≤ 32 && name.all fun c => isAsciiLowercase c || c == '_')
      (MoneyError.invalid "recipe_placeholder" "a placeholder name is not valid")
    let found ← placeholdersFrom none rest
    return String.ofList name :: found
  | some name, c :: rest => placeholdersFrom (some (name ++ [c])) rest
  | some _, [] =>
    .error (.invalid "recipe_placeholder" "a \x7b\x7b placeholder is not closed")

def placeholdersIn (template : String) : Except MoneyError (List String) :=
  placeholdersFrom none template.toList

end Template

def validSlug (value : String) : Bool :=
  let cs := value.toList
  cs.length ≤ 48 && (cs.head?.any isAsciiAlphanumeric) &&
    cs.all fun c => isAsciiLowercase c || c.isDigit || c == '-'

def validPointer (pointer : String) : Bool :=
  startsWith pointer "/" && pointer.utf8ByteSize ≤ 200 && !pointer.toList.any isControl

namespace Recipe

def validPath (path : String) : Bool :=
  startsWith path "/" && path.utf8ByteSize ≤ 512 && !contains path ".." && !contains path "//" &&
    !contains path "@" && !contains path "\\" && !contains path "?" && !contains path "#" &&
    !path.toList.any fun c => isControl c || isWhitespace c

def validQuery (pair : NameValue) : Bool :=
  cleanText pair.name 64 && pair.value.toList.length ≤ 512

def validHeader (pair : NameValue) : Bool :=
  !pair.name.toList.isEmpty && pair.name.toList.length ≤ 64 &&
    (pair.name.toList.all fun c => isAsciiAlphanumeric c || c == '-') &&
    !FORBIDDEN_HEADERS.contains (toAsciiLowercase pair.name) &&
    pair.value.toList.length ≤ 512 && !pair.value.toList.any isControl

def allows (recipe : Recipe) (name : String) : Bool :=
  PLACEHOLDERS.contains name && (name != "provider_reference" || recipe.purpose == .lookupPayment)

def templates (recipe : Recipe) : List String :=
  [recipe.path, recipe.body] ++ recipe.query.map NameValue.value ++
    recipe.headers.map NameValue.value

def checkTemplate (recipe : Recipe) (template : String) : Except MoneyError Unit := do
  for name in ← placeholdersIn template do
    ensure (recipe.allows name) (MoneyError.invalid "recipe_placeholder"
      ("placeholder \x7b\x7b" ++ name ++ "\x7d\x7d is not allowed in this recipe"))

end Recipe

def validateExtract (recipe : Recipe) : Except MoneyError Unit := do
  let ex := recipe.extract
  let pointers := [ex.url, ex.reference, ex.amount.map AmountPointer.pointer, ex.currency,
    ex.paid.map EqualsPointer.pointer]
  ensure (pointers.all fun pointer => pointer.all validPointer) (MoneyError.invalid "recipe_extract"
    "extract pointers must be JSON pointers starting with /")
  match recipe.purpose with
  | .createLink =>
    ensure (ex.url.isSome && ex.reference.isSome && ex.amount.isSome && ex.currency.isSome)
      (MoneyError.invalid "recipe_extract" "a create link recipe must say where to read url, reference, amount and currency, so Colony can check the link before it is sent")
  | .lookupPayment =>
    ensure (ex.reference.isSome && ex.amount.isSome && ex.currency.isSome && ex.paid.isSome)
      (MoneyError.invalid "recipe_extract"
        "a lookup recipe must say where to read reference, amount, currency and the paid flag")

def validateRecipe (recipe : Recipe) (apiHosts : List String) : Except MoneyError Unit := do
  ensure (validSlug recipe.recipeId) (MoneyError.invalid "recipe_id"
    "recipe id must be lower case letters, digits and dashes, up to 48 characters")
  ensure (cleanText recipe.title 120)
    (MoneyError.invalid "recipe_title" "recipe title must be 1 to 120 characters")
  (checkRecipe recipe).mapError Refusal.intoError
  ensure (validHost recipe.host && apiHosts.contains recipe.host)
    (MoneyError.forbidden "host_not_allowed"
      "recipe host is not one of the provider API hosts chosen when the key was connected")
  ensure (Recipe.validPath recipe.path) (MoneyError.invalid "recipe_path"
    "recipe path must start with / and carry no query, fragment or odd characters")
  ensure (recipe.query.length ≤ 16 && recipe.headers.length ≤ 16)
    (MoneyError.invalid "recipe_size" "recipe has too many query parameters or headers")
  ensure (recipe.query.all Recipe.validQuery)
    (MoneyError.invalid "recipe_query" "query parameter name or value is not valid")
  ensure (recipe.headers.all Recipe.validHeader) (MoneyError.invalid "recipe_header"
    "a recipe header is not allowed: the relay sets authentication and framing")
  ensure (recipe.body.utf8ByteSize ≤ 8 * 1024)
    (MoneyError.invalid "recipe_size" "recipe body is larger than 8 KiB")
  ensure ((recipe.bodyEncoding == .none) == recipe.body.toList.isEmpty)
    (MoneyError.invalid "recipe_body"
      "set bodyEncoding to json or form when there is a body, and none when there is not")
  ensure (!(toAsciiUppercase recipe.method == "GET" && !recipe.body.toList.isEmpty))
    (MoneyError.invalid "recipe_body" "a lookup recipe has no body")
  for template in recipe.templates do
    recipe.checkTemplate template
  validateExtract recipe

end Colony.Money
