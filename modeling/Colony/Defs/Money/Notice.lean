import Colony.Defs.Money.Recipe

namespace Colony.Money

open Colony.Core

abbrev Bytes := List UInt8

/-- A JSON document as `serde_json` holds it. A number is kept as the text it is written as. -/
inductive Value
  | null
  | bool (flag : Bool)
  | number (text : String)
  | string (text : String)
  | array (items : List Value)
  | object (fields : List (String × Value))

namespace Value

def replacePair (a b c : Char) : List Char → List Char
  | x :: y :: rest =>
    if x = a ∧ y = b then c :: replacePair a b c rest else x :: replacePair a b c (y :: rest)
  | rest => rest

def parseIndex (token : String) : Option Nat :=
  if startsWith token "+" || (startsWith token "0" && token.utf8ByteSize != 1) then none
  else parseU64 token

def child (token : String) : Value → Option Value
  | .object fields => fields.lookup token
  | .array items => do items[← parseIndex token]?
  | _ => none

def pointer (value : Value) (path : String) : Option Value :=
  if path.toList.isEmpty then some value
  else if !startsWith path "/" then none
  else ((path.toList.splitOn '/').drop 1).foldlM (fun target token =>
    target.child (String.ofList (replacePair '~' '0' '~' (replacePair '~' '1' '/' token)))) value

def textAt (value : Value) (path : String) : Option String :=
  match value.pointer path with
  | some (.string text) => some text
  | some (.number text) => some text
  | some (.bool flag) => some (toString flag)
  | _ => none

end Value

structure NoticeLibs where
  fromSlice : Bytes → Option Value
  fromUtf8Lossy : Bytes → String
  toUtf8 : String → Bytes
  sha256Hex : Bytes → String
  hmacMatches : (secret payload expected : Bytes) → Bool
  hexDecode : String → Option Bytes
  base64Decode : String → Option Bytes

section Signature

def MAX_TOLERANCE_SECS : Nat := 600
def DEFAULT_TOLERANCE_SECS : Nat := 300

inductive SignatureEncoding
  | hex
  | base64
  deriving DecidableEq

inductive SignedPayload
  | body
  | timestampBody
  deriving DecidableEq

structure SignatureConfig where
  header : String
  encoding : SignatureEncoding
  textPrefix : Option String
  signedPayload : SignedPayload
  timestampField : Option String
  signatureField : Option String
  toleranceSecs : Option Nat
  deriving DecidableEq

inductive SignatureState
  | verified
  | invalid
  | unsigned
  | noSecret
  deriving DecidableEq

variable (lib : NoticeLibs)

def decodeSignature (text : String) : SignatureEncoding → Option Bytes
  | .hex => lib.hexDecode text
  | .base64 => lib.base64Decode text

def headerPairs (value : String) : List (String × String) :=
  (value.toList.splitOn ',').filterMap fun pair => splitOnce (trim (String.ofList pair)) '='

def wrappedDistance (now parsed : Int) : Int :=
  Int.bmod (Int.natAbs (Int.bmod (now - parsed) (2 ^ 64))) (2 ^ 64)

def verifyBody (config : SignatureConfig) (secret : Bytes) (value : String) (body : Bytes) : Bool :=
  let text := match config.textPrefix with
    | some front => if startsWith value front then
        String.ofList (value.toList.drop front.toList.length) else value
    | none => value
  (decodeSignature lib text config.encoding).any fun expected => lib.hmacMatches secret body expected

def verifyTimestampBody (config : SignatureConfig) (secret : Bytes) (value : String) (body : Bytes)
    (now : Int) : Bool :=
  let timestampField := config.timestampField.getD "t"
  let signatureField := config.signatureField.getD "v1"
  let pairs := headerPairs value
  let timestamp := ((pairs.filter (·.1 == timestampField)).getLast?).map (·.2)
  let signatures := (pairs.filter fun pair =>
    pair.1 != timestampField && pair.1 == signatureField).map (·.2)
  let tolerance := min (config.toleranceSecs.getD DEFAULT_TOLERANCE_SECS) MAX_TOLERANCE_SECS
  match timestamp.bind fun text => (parseI64 text).map fun parsed => (text, parsed) with
  | some (text, parsed) =>
    wrappedDistance now parsed ≤ tolerance && signatures.any fun signature =>
      (decodeSignature lib signature config.encoding).any fun expected =>
        lib.hmacMatches secret (lib.toUtf8 text ++ lib.toUtf8 "." ++ body) expected
  | none => false

def verifySignature (config : SignatureConfig) (secret : Bytes) (headerValue : Option String)
    (body : Bytes) (now : Int) : SignatureState :=
  match (headerValue.map trim).filter fun value => !value.toList.isEmpty with
  | none => .unsigned
  | some value =>
    let verified := match config.signedPayload with
      | .body => verifyBody lib config secret value body
      | .timestampBody => verifyTimestampBody lib config secret value body now
    if verified then .verified else .invalid

end Signature

structure NoticeMap where
  eventId : Option String := none
  reference : Option String := none
  amount : Option AmountPointer := none
  currency : Option String := none
  occurredAt : Option String := none
  successWhen : List EqualsPointer := []
  deriving DecidableEq

namespace NoticeMap

def pointers (map : NoticeMap) : List String :=
  map.eventId.toList ++ map.reference.toList ++ (map.amount.map AmountPointer.pointer).toList ++
    map.currency.toList ++ map.occurredAt.toList ++ map.successWhen.map EqualsPointer.pointer

def toJson (lib : Libs) (map : NoticeMap) : String :=
  jsonObject lib (jsonField "eventId" map.eventId lib.jsonString ++
    jsonField "reference" map.reference lib.jsonString ++
    jsonField "amount" map.amount (AmountPointer.toJson lib) ++
    jsonField "currency" map.currency lib.jsonString ++
    jsonField "occurredAt" map.occurredAt lib.jsonString ++
    [("successWhen", jsonArray (map.successWhen.map (EqualsPointer.toJson lib)))])

end NoticeMap

def validateNoticeMap (map : NoticeMap) : Except MoneyError Unit :=
  ensure (map.successWhen.length ≤ 4 &&
      (map.successWhen.all fun rule =>
        !rule.equals.toList.isEmpty && rule.equals.utf8ByteSize ≤ 200) &&
      map.pointers.all validPointer)
    (MoneyError.invalid "notice_map"
      "the notice map has a pointer or a success rule that is not valid")

def noticeMapHash (lib : Libs) (map : NoticeMap) : String := lib.sha256Hex (map.toJson lib)

inductive NoticeKind
  | success
  | notSuccess
  | unknown
  deriving DecidableEq

structure NoticeRead where
  eventId : Option String
  reference : Option String
  amountMinor : Option Int
  currency : Option String
  occurredAt : Option Int
  kind : NoticeKind
  deriving DecidableEq

def NoticeRead.empty : NoticeRead := ⟨none, none, none, none, none, .unknown⟩

section Reading

def boundedId (text : String) : Bool := !text.toList.isEmpty && text.utf8ByteSize ≤ 200

def readAmount (value : Value) (currency : Option String) (currencyHint : String)
    (amount : AmountPointer) : Option Int := do
  let text ← value.textAt amount.pointer
  match amount.scale with
  | .minor => parseI64 text
  | .decimal => decimalToMinor text (currencyExponent (currency.getD currencyHint))

def readKind (value : Value) (rules : List EqualsPointer) : NoticeKind :=
  if rules.isEmpty then .unknown
  else if rules.all fun rule => value.textAt rule.pointer == some rule.equals then .success
  else .notSuccess

def readValue (value : Value) (map : NoticeMap) (currencyHint : String) : NoticeRead :=
  let currency := ((map.currency.bind value.textAt).map toAsciiUppercase).filter validCurrency
  { eventId := (map.eventId.bind value.textAt).filter boundedId
    reference := (map.reference.bind value.textAt).filter boundedId
    amountMinor := map.amount.bind (readAmount value currency currencyHint)
    currency
    occurredAt := (map.occurredAt.bind value.textAt).bind parseI64
    kind := readKind value map.successWhen }

variable (lib : NoticeLibs)

def readNotice (body : Bytes) (map : Option NoticeMap) (currencyHint : String) : NoticeRead :=
  match map, lib.fromSlice body with
  | some map, some value => readValue value map currencyHint
  | _, _ => .empty

def dedupeKey (read : NoticeRead) (body : Bytes) : String :=
  match read.eventId with
  | some id => "event:" ++ id
  | none => "sha256:" ++ lib.sha256Hex body

end Reading

structure MatchKeys where
  cardRef : String
  providerReference : Option String
  deriving DecidableEq

namespace MatchKeys

def named (keys : MatchKeys) (reference : String) : Bool :=
  reference == keys.cardRef || keys.providerReference == some reference

def mentioned (keys : MatchKeys) (text : String) : Bool :=
  contains text keys.cardRef ||
    keys.providerReference.any fun reference =>
      6 ≤ reference.utf8ByteSize && contains text reference

end MatchKeys

/-- Whether a notice belongs to a card: the reference it gives is the card's, or its raw body
contains one of the card's references. -/
def matchesCard (lib : NoticeLibs) (body : Bytes) (read : NoticeRead) (keys : MatchKeys) : Bool :=
  (read.reference.any keys.named) || keys.mentioned (lib.fromUtf8Lossy body)

structure LookupResult where
  reference : Option String
  amountMinor : Option Int
  currency : Option String
  paid : Option Bool
  deriving DecidableEq

inductive Judgement
  | ignore
  | reported (mismatch : Option Mismatch)
  | verified (method : VerifiedBy)
  deriving DecidableEq

def judgeNotice (signature : SignatureState) (read : NoticeRead) (lookup : Option LookupResult)
    (cardAmountMinor : Int) (cardCurrency : String) (providerReference : Option String) :
    Judgement :=
  if read.kind = .notSuccess then .ignore
  else if signature = .invalid ∨ signature = .unsigned then .ignore
  else if read.amountMinor.any (· != cardAmountMinor) then .reported (some .amount)
  else if read.currency.any (· != cardCurrency) then .reported (some .currency)
  else if signature = .verified ∧ read.kind = .success then .verified .hmac
  else match lookup with
    | none => .reported none
    | some result =>
      let sameReference := providerReference.all fun reference => result.reference == some reference
      let sameAmount := result.amountMinor == some cardAmountMinor
      let sameCurrency := result.currency == some cardCurrency
      if result.paid == some true && sameReference && sameAmount && sameCurrency then
        .verified .lookup
      else if result.amountMinor.isSome && !sameAmount then .reported (some .amount)
      else if result.currency.isSome && !sameCurrency then .reported (some .currency)
      else .reported none

end Colony.Money
