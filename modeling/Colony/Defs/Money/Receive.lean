import Mathlib.Data.List.Sort
import Colony.Defs.Money.Connection

namespace Colony.Money

open Colony.Core Colony.Data

def MAX_PER_MINUTE : Nat := 60
def MAX_HELD : Nat := 1000
def NOTICE_MAX_BYTES : Nat := 64 * 1024

def LinkHead.matchKeys (head : LinkHead) : MatchKeys where
  cardRef := head.cardRef
  providerReference := head.link.bind CreatedLink.providerReference

def candidateCards (connectionId : Uuid) (stored : List LinkHead) : List LinkHead :=
  (stored.filter fun head => head.connectionId == connectionId && decide head.linkExists).insertionSort
    fun a b => b.updatedAt ≤ a.updatedAt

inductive NoticeError
  | notFound
  | tooLarge
  | rateLimited
  deriving DecidableEq

/-- What the relay finds for a post: the connection of the address with its opened signing secret,
how many notices it holds, which keys were stored before, and the cards. -/
structure Inbox where
  connection : Option (Uuid × ConnectionConfig)
  secret : Option Bytes
  recent : Nat
  held : Nat
  seen : String → Bool
  stored : List LinkHead
  lookup : LinkHead → String → Option LookupResult

structure NoticeOutcome where
  duplicate : Bool
  judgement : String
  linkId : Option Uuid
  op : Option SystemOp

section Receive

variable (lib : NoticeLibs)

def signatureState (config : ConnectionConfig) (secret : Option Bytes)
    (header : String → Option String) (body : Bytes) (now : Int) : SignatureState :=
  match config.signature, secret with
  | some signature, some secret =>
    verifySignature lib signature secret (header (toAsciiLowercase signature.header)) body now
  | _, _ => .noSecret

def selectCard (body : Bytes) (read : NoticeRead) (cards : List LinkHead) : Option LinkHead :=
  cards.find? fun head => matchesCard lib body read head.matchKeys

def lookedUp (signature : SignatureState) (head : LinkHead)
    (lookup : LinkHead → String → Option LookupResult) : Option LookupResult :=
  match head.matchKeys.providerReference with
  | some reference => if signature = .verified then none else lookup head reference
  | none => none

def judgeCard (signature : SignatureState) (read : NoticeRead) (head : LinkHead)
    (lookup : LinkHead → String → Option LookupResult) : Judgement :=
  judgeNotice signature read (lookedUp signature head lookup) head.amountMinor head.currency
    head.matchKeys.providerReference

def Judgement.label : Judgement → String
  | .ignore => "ignored"
  | .reported _ => "reported"
  | .verified _ => "verified"

def noticeOp (judgement : Judgement) (storedId : Uuid) (read : NoticeRead) (head : LinkHead)
    (now : Int) : Option SystemOp :=
  let op (verifiedBy : Option VerifiedBy) (mismatch : Option Mismatch) : SystemOp :=
    .notice storedId verifiedBy (read.reference.or head.matchKeys.providerReference)
      read.amountMinor read.currency (read.occurredAt.getD now) mismatch
  match judgement with
  | .ignore => none
  | .reported mismatch => some (op none mismatch)
  | .verified method => some (op (some method) none)

/-- The notice is read again with the currency of the card it was found to be about. -/
def cardOp (signature : SignatureState) (map : Option NoticeMap) (body : Bytes) (storedId : Uuid)
    (now : Int) (lookup : LinkHead → String → Option LookupResult) (head : LinkHead) :
    Judgement × Option SystemOp :=
  let read := readNotice lib body map head.currency
  let judgement := judgeCard signature read head lookup
  (judgement, noticeOp judgement storedId read head now)

def noticeKey (signature : SignatureState) (read : NoticeRead) (body : Bytes) : String :=
  if signature = .verified then dedupeKey lib read body else "sha256:" ++ lib.sha256Hex body

def receive (inbox : Inbox) (header : String → Option String) (body : Bytes) (storedId : Uuid)
    (now : Int) : Except NoticeError NoticeOutcome := do
  ensure (body.length ≤ NOTICE_MAX_BYTES) NoticeError.tooLarge
  let (connectionId, config) ← orRefuse inbox.connection NoticeError.notFound
  ensure (inbox.recent < MAX_PER_MINUTE ∧ inbox.held < MAX_HELD) NoticeError.rateLimited
  let signature := signatureState lib config inbox.secret header body now
  let map := config.approvedNoticeMap
  let read := readNotice lib body map ""
  if inbox.seen (noticeKey lib signature read body) then return ⟨true, "unmatched", none, none⟩
  match selectCard lib body read (candidateCards connectionId inbox.stored) with
  | none => return ⟨false, "unmatched", none, none⟩
  | some head =>
    let (judgement, op) := cardOp lib signature map body storedId now inbox.lookup head
    return ⟨false, judgement.label, some head.linkId, op⟩

end Receive

section Selection

variable {nlib : NoticeLibs} {body : Bytes} {read : NoticeRead} {cards : List LinkHead}
  {card head : LinkHead} {r text : String} {map : NoticeMap}

def LinkHead.named (head : LinkHead) (r : String) : Prop := head.matchKeys.named r = true

def LinkHead.mentioned (head : LinkHead) (text : String) : Prop :=
  head.matchKeys.mentioned text = true

instance (head : LinkHead) (r : String) : Decidable (head.named r) :=
  inferInstanceAs (Decidable (head.matchKeys.named r = true))

instance (head : LinkHead) (text : String) : Decidable (head.mentioned text) :=
  inferInstanceAs (Decidable (head.matchKeys.mentioned text = true))

def LinkHead.payable (head : LinkHead) : Prop :=
  head.linkExists ∧ head.takesPayment = true ∧ ¬head.paymentIs .verified

def NamesOnly (r : String) (cards : List LinkHead) (card : LinkHead) : Prop :=
  card ∈ cards ∧ card.named r ∧ ∀ other ∈ cards, other.named r → other = card

/-- The first card that the text mentions or the reference names is one that it names, unless
that card takes no payment and the reference does not name exactly one card. -/
def Clear (text r : String) (cards : List LinkHead) : Prop :=
  ∀ earlier card later, cards = earlier ++ card :: later →
    (∀ c ∈ earlier, ¬c.named r ∧ ¬c.mentioned text) → card.mentioned text → ¬card.named r →
      ¬card.payable ∧ ¬∃ only, NamesOnly r cards only

theorem selectCard_eq_some (hread : read.reference = some r) :
    selectCard nlib body read cards = some card ↔
      (card.named r ∨ card.mentioned (nlib.fromUtf8Lossy body)) ∧ ∃ earlier later,
        cards = earlier ++ card :: later ∧
          ∀ c ∈ earlier, ¬c.named r ∧ ¬c.mentioned (nlib.fromUtf8Lossy body) := by
  simp [selectCard, List.find?_eq_some_iff_append, matchesCard, hread, LinkHead.named,
    LinkHead.mentioned]

def NoticeMap.countsReference (map : NoticeMap) (r : String) : NoticeMap where
  reference := map.reference
  successWhen := (map.reference.map fun pointer => ⟨pointer, r⟩).toList

theorem countsReference_read (hvalid : validateNoticeMap map = .ok ())
    (hread : (readNotice nlib body (some map) "").reference = some r) :
    validateNoticeMap (map.countsReference r) = .ok () ∧ ∀ hint,
      readNotice nlib body (some (map.countsReference r)) hint =
        { NoticeRead.empty with reference := some r, kind := .success } := by
  unfold readNotice at hread ⊢
  cases hvalue : nlib.fromSlice body with
  | none => simp [hvalue, NoticeRead.empty] at hread
  | some value =>
    simp only [hvalue, readValue, Option.filter_eq_some_iff, Option.bind_eq_some_iff] at hread
    obtain ⟨⟨pointer, hpointer, htext⟩, hbound⟩ := hread
    have hok : validPointer pointer = true := by
      simp only [validateNoticeMap, ensure_eq_ok, Bool.and_eq_true, List.all_eq_true] at hvalid
      exact hvalid.2 pointer (by simp [NoticeMap.pointers, hpointer])
    refine ⟨?_, fun hint => ?_⟩
    · simpa [validateNoticeMap, NoticeMap.countsReference, NoticeMap.pointers, hpointer, hok,
        boundedId] using hbound
    · simp [readValue, NoticeMap.countsReference, hpointer, htext, hbound, readKind,
        NoticeRead.empty]

theorem cardOp_countsReference (hvalid : validateNoticeMap map = .ok ())
    (hread : (readNotice nlib body (some map) "").reference = some r) {storedId : Uuid} {now : Int}
    {lookup : LinkHead → String → Option LookupResult} :
    cardOp nlib .verified (some (map.countsReference r)) body storedId now lookup head =
      (.verified .hmac, some (.notice storedId (some .hmac) (some r) none none now none)) := by
  rw [cardOp, (countsReference_read hvalid hread).2]
  simp [judgeCard, judgeNotice, noticeOp, NoticeRead.empty]

variable {lib : Libs}

theorem LinkHead.payable.confirmed (hpayable : head.payable) (storedId : Uuid) (now : Int)
    (reference : Option String) (paidAt : Int) (sourceEventId : String) :
    ∃ head' effects, applySystem lib head
      (.notice storedId (some .hmac) reference none none paidAt none) now sourceEventId =
        .ok (.changed head' effects) ∧ head'.paymentIs .verified := by
  obtain ⟨hlink, htakes, hopen⟩ := hpayable
  let confirmed := head.verifiedBy VerifiedBy.hmac.source reference paidAt (some storedId)
  refine ⟨confirmed.1.touch now sourceEventId, confirmed.2, ?_, _, rfl, rfl⟩
  simp only [applySystem, hlink, htakes, hopen, and_self, not_true_eq_false, if_false, stored]
  rfl

theorem payable_of_notice {storedId : Uuid} {verifiedBy : Option VerifiedBy}
    {reference currency : Option String} {amountMinor : Option Int} {mismatch : Option Mismatch}
    {paidAt now : Int} {sourceEventId : String} {head' : LinkHead} {effects : List LinkEffect}
    (happly : applySystem lib head
      (.notice storedId verifiedBy reference amountMinor currency paidAt mismatch) now sourceEventId =
        .ok (.changed head' effects)) : head.payable := by
  simp only [applySystem] at happly
  split at happly
  · cases happly
  · next htakes =>
    split at happly
    · cases happly
    · next hopen =>
      obtain ⟨hlink, htakes⟩ := not_not.1 htakes
      exact ⟨hlink, htakes, hopen⟩

/-- A notice that is judged verified by its signature confirms a payment on the card. -/
def Credits (lib : Libs) (nlib : NoticeLibs) (signature : SignatureState) (map : NoticeMap) (body : Bytes) (cards : List LinkHead)
    (head : LinkHead) : Prop :=
  selectCard nlib body (readNotice nlib body (some map) "") cards = some head ∧
    ∃ storedId now lookup op sourceEventId head' effects,
      cardOp nlib signature (some map) body storedId now lookup head = (.verified .hmac, some op) ∧
        applySystem lib head op now sourceEventId = .ok (.changed head' effects) ∧
          head'.paymentIs .verified

theorem Credits.payable {signature : SignatureState} (h : Credits lib nlib signature map body cards head) :
    head.payable := by
  obtain ⟨-, storedId, now, lookup, op, sourceEventId, head', effects, hop, happly, -⟩ := h
  have hjudged := congrArg Prod.fst hop
  have hnotice := congrArg Prod.snd hop
  simp only [cardOp] at hjudged hnotice
  rw [hjudged, noticeOp] at hnotice
  cases hnotice
  exact payable_of_notice happly

/-- A notice with the reference `r` selects the one card that `r` names, and its signature confirms
payments only on cards that `r` names, whatever the map and the signature, exactly if no other card
that the body mentions comes first. -/
theorem selects_named_iff (lib : Libs) (nlib : NoticeLibs) (body : Bytes) (r : String)
    (cards : List LinkHead) (hread : ∃ map, validateNoticeMap map = .ok () ∧
      (readNotice nlib body (some map) "").reference = some r) :
    (∀ map signature, validateNoticeMap map = .ok () →
      (readNotice nlib body (some map) "").reference = some r →
        (∀ card, NamesOnly r cards card →
          selectCard nlib body (readNotice nlib body (some map) "") cards = some card) ∧
        ∀ card, Credits lib nlib signature map body cards card → card.named r) ↔
      Clear (nlib.fromUtf8Lossy body) r cards := by
  constructor
  · obtain ⟨map, hvalid, href⟩ := hread
    intro hall earlier card later hsplit hfirst hmentioned hnamed
    refine ⟨fun hpayable => ?_, ?_⟩
    · obtain ⟨hvalid', hread'⟩ := countsReference_read hvalid href
      have href' : (readNotice nlib body (some (map.countsReference r)) "").reference = some r := by
        rw [hread']
      have hselect : selectCard nlib body (readNotice nlib body (some (map.countsReference r)) "")
          cards = some card :=
        (selectCard_eq_some href').2 ⟨.inr hmentioned, earlier, later, hsplit, hfirst⟩
      obtain ⟨head', effects, happly, hverified⟩ := hpayable.confirmed ⟨0⟩ 0 (some r) 0 ""
      refine hnamed ((hall _ .verified hvalid' href').2 card ⟨hselect, ⟨0⟩, 0, fun _ _ => none, _, "",
        head', effects, cardOp_countsReference hvalid href, happly, hverified⟩)
    · rintro ⟨only, honly⟩
      have hselect : selectCard nlib body (readNotice nlib body (some map) "") cards = some card :=
        (selectCard_eq_some href).2 ⟨.inr hmentioned, earlier, later, hsplit, hfirst⟩
      cases hselect.symm.trans ((hall map .verified hvalid href).1 only honly)
      exact hnamed honly.2.1
  · intro hclear map signature hvalid href
    refine ⟨fun card honly => ?_, fun card hcredits => ?_⟩
    · have hmatch : ∃ c ∈ cards,
          matchesCard nlib body (readNotice nlib body (some map) "") c.matchKeys = true :=
        ⟨card, honly.1, by simpa [matchesCard, href] using .inl honly.2.1⟩
      obtain ⟨first, hfirst⟩ := Option.isSome_iff_exists.1 (List.find?_isSome.2 hmatch)
      obtain ⟨hmatches, earlier, later, hsplit, hearlier⟩ := (selectCard_eq_some href).1 hfirst
      by_cases hnamed : first.named r
      · have hmem : first ∈ cards := List.mem_of_find?_eq_some hfirst
        rw [← honly.2.2 first hmem hnamed]
        exact hfirst
      · exact absurd ⟨card, honly⟩
          (hclear earlier first later hsplit hearlier (hmatches.resolve_left hnamed) hnamed).2
    · obtain ⟨hmatches, earlier, later, hsplit, hearlier⟩ := (selectCard_eq_some href).1 hcredits.1
      by_contra hnamed
      exact (hclear earlier card later hsplit hearlier (hmatches.resolve_left hnamed) hnamed).1
        hcredits.payable

end Selection

deriving instance DecidableEq for SystemOp

section Sample

def noticeBody : Bytes :=
  "\x7b\"ref\":\"plink_12\"\x7d".toList.map fun c => UInt8.ofNat c.toNat

def noticeLibs : NoticeLibs where
  fromSlice bytes := if bytes = noticeBody then some (.object [("ref", .string "plink_12")]) else none
  fromUtf8Lossy bytes := String.ofList (bytes.map fun byte => Char.ofNat byte.toNat)
  toUtf8 text := text.toList.map fun c => UInt8.ofNat c.toNat
  sha256Hex _ := "sha256"
  hmacMatches _ _ expected := expected == [1]
  hexDecode text := if text = "01" then some [1] else none
  base64Decode _ := none

def noticeMap : NoticeMap where
  reference := some "/ref"
  successWhen := [⟨"/ref", "plink_12"⟩]

def sentCard (id : Nat) (reference : String) (updatedAt : Int) : LinkHead where
  schemaVersion := 1
  linkId := ⟨id⟩
  cardRef := "PL-" ++ toString id
  version := 4
  state := .sent
  partyId := "party"
  clientId := ⟨2⟩
  invoiceId := ⟨4⟩
  invoiceNumber := "INV-1"
  customerName := "Client"
  amountMinor := 50000
  currency := "ZAR"
  purpose := "Work"
  connectionId := ⟨3⟩
  providerLabel := "Provider"
  route := .api
  recipientRef := ⟨5⟩
  recipientChannel := .email
  recipientName := "Client"
  recipientDisplay := "c***@example.com"
  message := "Pay here"
  messageHash := ""
  expiresInDays := 1
  expiresAt := some 86400
  waitingFor := none
  draftedBy := "owner"
  draftedAt := 0
  approval := none
  approvalVoided := false
  browserGrant := none
  link := some ⟨"https://pay.example/1", some reference, 10, 50000, "ZAR", 10⟩
  delivery := none
  payment := none
  failure := none
  cancelReason := none
  updatedAt
  sourceEventId := "relay"

def twoCards : Inbox where
  connection := some (⟨3⟩,
    { label := "Provider", route := .api, status := .connected, isDefault := true
      apiHosts := [], recipes := [], hasApiKey := true, hasSigningSecret := true, version := 1
      noticeMap := some ⟨noticeMap, .approved, "", "owner", some "owner"⟩
      signature := some ⟨"X-Signature", .hex, none, .body, none, none, none⟩ })
  secret := some [7]
  recent := 0
  held := 0
  seen _ := false
  stored := [sentCard 12 "plink_12" 20, sentCard 1 "plink_1" 30]
  lookup _ _ := none

def signedHeader (name : String) : Option String := if name = "x-signature" then some "01" else none

end Sample

-- The card of plink_1 is mentioned too, but comes after the one that is named.
def threeCards : List LinkHead :=
  [sentCard 7 "plink_77" 40, sentCard 12 "plink_12" 20, sentCard 1 "plink_1" 10]

theorem selects_named_iff_one :
    (∃ card ∈ threeCards, card.mentioned (noticeLibs.fromUtf8Lossy noticeBody) ∧
        ¬card.named "plink_12") ∧
      selectCard noticeLibs noticeBody (readNotice noticeLibs noticeBody (some noticeMap) "")
        threeCards = some (sentCard 12 "plink_12" 20) := by
  have hvalid : validateNoticeMap noticeMap = .ok () := by decide +kernel
  have href : (readNotice noticeLibs noticeBody (some noticeMap) "").reference = some "plink_12" := by
    decide +kernel
  have hnamed : (sentCard 12 "plink_12" 20).named "plink_12" := by decide +kernel
  have hunmentioned :
      ¬(sentCard 7 "plink_77" 40).mentioned (noticeLibs.fromUtf8Lossy noticeBody) := by decide +kernel
  have hclear : Clear (noticeLibs.fromUtf8Lossy noticeBody) "plink_12" threeCards := by
    intro earlier card later hsplit hearlier hmentioned hunnamed
    rcases earlier with _ | ⟨first, _ | ⟨second, rest⟩⟩
    · obtain rfl := (List.cons.inj hsplit).1
      exact absurd hmentioned hunmentioned
    · obtain rfl := (List.cons.inj (List.cons.inj hsplit).2).1
      exact absurd hnamed hunnamed
    · obtain rfl := (List.cons.inj (List.cons.inj hsplit).2).1
      exact absurd hnamed (hearlier _ (by simp)).1
  have hall := (selects_named_iff ConnectionConfig.signedLibs noticeLibs noticeBody "plink_12"
    threeCards ⟨noticeMap, hvalid, href⟩).2 hclear
  refine ⟨⟨sentCard 1 "plink_1" 10, by simp [threeCards], by decide +kernel, by decide +kernel⟩,
    (hall noticeMap .verified hvalid href).1 _ ⟨by simp [threeCards], hnamed, fun other hother h => ?_⟩⟩
  simp only [threeCards, List.mem_cons, List.not_mem_nil, or_false] at hother
  rcases hother with rfl | rfl | rfl
  · exact absurd h (by decide +kernel)
  · rfl
  · exact absurd h (by decide +kernel)

theorem substring_credits_other :
    (readNotice noticeLibs noticeBody (some noticeMap) "").reference = some "plink_12" ∧
      (∀ card ∈ twoCards.stored, card.matchKeys.named "plink_12" = true ↔ card.linkId = ⟨12⟩) ∧
      ((receive noticeLibs twoCards signedHeader noticeBody ⟨9⟩ 100).toOption.map fun outcome =>
        (outcome.linkId, outcome.judgement, outcome.op)) = some (some ⟨1⟩, "verified",
          some (.notice ⟨9⟩ (some .hmac) (some "plink_12") none none 100 none)) := by
  decide +kernel

end Colony.Money
