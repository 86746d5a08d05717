import Colony.Defs.Core.Event
import Colony.Defs.Core.Text
import Colony.Defs.Data.Except

namespace Colony.Money

open Colony.Core

def MONEY_RAILS_SCHEMA_VERSION : Nat := 1
def BROWSER_GRANT_SECS : Int := 15 * 60
def DEFAULT_EXPIRES_DAYS : Nat := 14
def MAX_EXPIRES_DAYS : Nat := 90
def MAX_SHORT_TEXT_CHARS : Nat := 200
def MAX_MESSAGE_CHARS : Nat := 1000
def MAX_AMOUNT_MINOR : Int := 1000000000000

inductive ActorRole
  | ownerAdmin
  | ownedAgent
  | other
  deriving DecidableEq

def ActorRole.isOwnerAdmin (role : ActorRole) : Bool := role == .ownerAdmin

def ActorRole.mayPrepare : ActorRole → Bool
  | .ownerAdmin | .ownedAgent => true
  | .other => false

inductive ErrorKind
  | invalid
  | forbidden
  | conflict
  deriving DecidableEq

structure MoneyError where
  kind : ErrorKind
  code : String
  message : String
  deriving DecidableEq

def MoneyError.invalid (code message : String) : MoneyError := ⟨.invalid, code, message⟩
def MoneyError.forbidden (code message : String) : MoneyError := ⟨.forbidden, code, message⟩
def MoneyError.conflict (code message : String) : MoneyError := ⟨.conflict, code, message⟩

inductive Route
  | api
  | browser
  deriving DecidableEq

inductive RecipientChannel
  | whatsapp
  | email
  deriving DecidableEq

inductive ConnectionStatus
  | connected
  | needsAttention
  | disconnected
  deriving DecidableEq

structure Url where
  scheme : String
  host : Option String
  username : String
  password : Option String

/-- What other libraries compute: SHA-256 with what is derived from its bytes, JSON strings, the
percent encoding of a character, and URL parsing. -/
structure Libs where
  sha256Hex : String → String
  cardRef : Uuid → String
  derivedEventId : String → Uuid → Nat → String
  jsonString : String → String
  percentEncode : Char → List Char
  parseUrl : String → Option Url

section Checks

variable {α β ε : Type}

def ensure (p : Prop) [Decidable p] (e : ε) : Except ε Unit := if p then .ok () else .error e

def need (value : Option α) (name : String) : Except MoneyError α :=
  match value with
  | some a => .ok a
  | none => .error (.invalid "money_invalid_input" (name ++ " is required"))

def orRefuse (value : Option α) (e : ε) : Except ε α :=
  match value with
  | some a => .ok a
  | none => .error e

@[simp] theorem ensure_eq_ok {p : Prop} [Decidable p] {e : ε} {u : Unit} :
    ensure p e = .ok u ↔ p := by
  unfold ensure
  split <;> simp_all

@[simp] theorem need_eq_ok {value : Option α} {name : String} {a : α} :
    need value name = .ok a ↔ value = some a := by
  cases value <;> simp [need]

@[simp] theorem orRefuse_eq_ok {value : Option α} {e : ε} {a : α} :
    orRefuse value e = .ok a ↔ value = some a := by
  cases value <;> simp [orRefuse]

end Checks

def isControl (c : Char) : Bool := c.toNat < 0x20 || (0x7F ≤ c.toNat && c.toNat < 0xA0)

def isAsciiLowercase (c : Char) : Bool := 'a' ≤ c && c ≤ 'z'
def isAsciiUppercase (c : Char) : Bool := 'A' ≤ c && c ≤ 'Z'

def isAsciiAlphanumeric (c : Char) : Bool := c.isDigit || isAsciiLowercase c || isAsciiUppercase c

def toAsciiLowercase (s : String) : String := String.ofList (s.toList.map Char.toLower)
def toAsciiUppercase (s : String) : String := String.ofList (s.toList.map Char.toUpper)

def contains (s pattern : String) : Bool := decide (pattern.toList <:+: s.toList)

def startsWith (s pattern : String) : Bool := pattern.toList.isPrefixOf s.toList
def endsWith (s pattern : String) : Bool := pattern.toList.isSuffixOf s.toList

def splitOnce (s : String) (c : Char) : Option (String × String) :=
  let head := s.toList.takeWhile (· != c)
  if head.length < s.toList.length then
    some (String.ofList head, String.ofList (s.toList.drop (head.length + 1)))
  else none

def isHexId (value : String) : Bool :=
  value.toList.length == 64 && value.toList.all fun c => c.isDigit || ('a' ≤ c && c ≤ 'f')

def validCurrency (code : String) : Bool :=
  code.toList.length == 3 && code.toList.all isAsciiUppercase

def currencyExponent (code : String) : Nat :=
  if code ∈ ["BIF", "CLP", "DJF", "GNF", "ISK", "JPY", "KMF", "KRW", "PYG", "RWF", "UGX", "UYI",
      "VND", "VUV", "XAF", "XOF", "XPF"] then 0
  else if code ∈ ["BHD", "IQD", "JOD", "KWD", "LYD", "OMR", "TND"] then 3
  else 2

/-- The minor units a plain decimal text denotes. Digits past the exponent must be zero. -/
def decimalToMinor (text : String) (exponent : Nat) : Option Int :=
  let text := trim text
  if text.toList.isEmpty || startsWith text "-" || startsWith text "+" then none
  else
    let (whole, frac) := (splitOnce text '.').getD (text, "")
    if whole.toList.isEmpty || !whole.toList.all Char.isDigit || !frac.toList.all Char.isDigit then
      none
    else
      let kept := frac.toList.take exponent
      let extra := frac.toList.drop exponent
      if extra.any (· != '0') then none
      else parseI64 (String.ofList
        (whole.toList ++ kept ++ List.replicate (exponent - kept.length) '0'))

def cleanText (text : String) (max : Nat) : Bool :=
  !text.toList.isEmpty && text.toList.length ≤ max && !text.toList.any isControl

def validLabel (label : String) : Bool :=
  let cs := label.toList
  !cs.isEmpty && cs.length ≤ 63 && cs.head? != some '-' && cs.getLast? != some '-' &&
    cs.all fun c => isAsciiLowercase c || c.isDigit || c == '-'

def validHost (host : String) : Bool :=
  !host.toList.isEmpty && host.utf8ByteSize ≤ 253 && contains host "." &&
    !(endsWith host ".local" || endsWith host ".localhost" || endsWith host ".internal") &&
    let labels := (host.toList.splitOn '.').map String.ofList
    labels.all validLabel &&
      (labels.getLast?.any fun last => last.toList.any isAsciiLowercase)

def normalizeWhatsapp (address : String) : Option String :=
  let all := address.toList.filter Char.isDigit
  let digits :=
    if ['0', '0'].isPrefixOf (address.toList.dropWhile isWhitespace) && ['0', '0'].isPrefixOf all
    then all.drop 2 else all
  let allowed := address.toList.all fun c =>
    c.isDigit || c == '+' || c == ' ' || c == '-' || c == '(' || c == ')'
  if allowed && 6 ≤ digits.length && digits.length ≤ 15 then some (String.ofList digits) else none

def validEmail (address : String) : Bool :=
  let address := trim address
  !(address.utf8ByteSize < 5 || 254 < address.utf8ByteSize || address.toList.any isWhitespace) &&
    match splitOnce address '@' with
    | some (userPart, domain) =>
      !userPart.toList.isEmpty && !contains domain "@" && contains domain "." &&
        !startsWith domain "." && !endsWith domain "."
    | none => false

def maskRecipient (channel : RecipientChannel) (address : String) : String :=
  match channel with
  | .whatsapp =>
    let digits := address.toList.filter Char.isDigit
    if 8 ≤ digits.length then
      "+" ++ String.ofList (digits.take 2) ++ " " ++ String.ofList ((digits.drop 2).take 2) ++
        " *** " ++ String.ofList (digits.drop (digits.length - 4))
    else "*** ****"
  | .email => match splitOnce address '@' with
    | some (userPart, domain) => String.ofList (userPart.toList.take 1) ++ "***@" ++ domain
    | none => "***"

end Colony.Money
