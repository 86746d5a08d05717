import Colony.Defs.Core.Text
import Colony.Defs.Data.Except
import Colony.Defs.Data.Split
import Colony.Defs.Pairing.Session
import Mathlib

namespace Colony.Pairing.Qr

open Colony.Core Colony.Data

structure Url where
  scheme : String
  host : Option String
  deriving DecidableEq

/-- What the codes take from their libraries: hexadecimal texts, the percent encoding of all but
letters and digits with its lossy reading, and URLs. -/
structure Readers where
  hex : Hex
  urlEncode : String → List Char
  urlDecode : List Char → String
  parseUrl : String → Option Url
  urlDecode_urlEncode : ∀ s, urlDecode (urlEncode s) = s
  urlEncode_chars : ∀ s, ∀ c ∈ urlEncode s, c.isAlphanum = true ∨ c = '%'

variable (lib : Readers)

structure QrPayload where
  sourcePubkey : PublicKey
  sessionSecret : Bytes32
  relays : List String
  version : Nat
  deriving DecidableEq

def scheme : List Char := "nostrpair://".toList

def encodeQr (payload : QrPayload) : String :=
  let pubkeyHex := (lib.hex.encode payload.sourcePubkey.bits).toList
  let secretHex := (lib.hex.encode payload.sessionSecret).toList
  String.ofList (scheme ++ pubkeyHex ++ "?secret=".toList ++ secretHex ++
    payload.relays.flatMap (fun relay => "&relay=".toList ++ lib.urlEncode relay) ++ "&v=1".toList)

inductive InvalidQr
  | tooLong (length : Nat)
  | wrongScheme
  | missingQuery
  | badPubkey (text : List Char)
  | unsupportedVersion (version : Nat)
  | missingSecret
  | badSecret (text : List Char)
  | zeroSecret
  | noRelay
  | invalidRelay (relay : String)
  | relayScheme (scheme : String)
  | relayWithoutHost (relay : String)
  deriving DecidableEq

def splitOnce (c : Char) (s : List Char) : Option (List Char × List Char) :=
  match s.dropWhile (· ≠ c) with
  | [] => none
  | _ :: rest => some (s.takeWhile (· ≠ c), rest)

def isLowercaseHex (c : Char) : Bool := c.isDigit || ('a' ≤ c && c ≤ 'f')

def parseHex (text : List Char) (bad : List Char → InvalidQr) : Except InvalidQr Bytes32 :=
  if text.length ≠ 64 || !text.all isLowercaseHex then .error (bad text)
  else match lib.hex.decode (String.ofList text) with
    | some bytes => .ok bytes
    | none => .error (bad text)

def parseU32 (value : List Char) : Option Nat :=
  (parseU64 (String.ofList value)).filter (· < 2 ^ 32)

def splitUri (uri : List Char) : Except InvalidQr (List Char × List Char) :=
  if scheme.isPrefixOf uri then
    match splitOnce '?' (uri.drop scheme.length) with
    | some parts => .ok parts
    | none => .error .missingQuery
  else .error .wrongScheme

structure Params where
  secretHex : Option (List Char) := none
  relays : List String := []
  version : Option Nat := none

def Params.read (params : Params) (pair : List Char) : Params :=
  match splitOnce '=' pair with
  | none => params
  | some (key, value) =>
    if key = "secret".toList then { params with secretHex := some value }
    else if key = "relay".toList then { params with relays := params.relays ++ [lib.urlDecode value] }
    else if key = "v".toList then { params with version := parseU32 value }
    else params

def checkRelay (relay : String) : Except InvalidQr Unit :=
  match lib.parseUrl relay with
  | none => .error (.invalidRelay relay)
  | some url =>
    if url.scheme ≠ "wss" ∧ url.scheme ≠ "ws" then .error (.relayScheme url.scheme)
    else if url.host = none then .error (.relayWithoutHost relay)
    else .ok ()

def readQuery (query : List Char) : Params := (query.splitOn '&').foldl (Params.read lib) {}

def decodeQr (uri : String) : Except InvalidQr QrPayload :=
  if 2048 < uri.utf8ByteSize then .error (.tooLong uri.utf8ByteSize)
  else do
    let (pubkeyHex, query) ← splitUri uri.toList
    let sourcePubkey ← parseHex lib pubkeyHex .badPubkey
    let params := readQuery lib query
    let version := params.version.getD 1
    if version ≠ 1 then .error (.unsupportedVersion version)
    else match params.secretHex with
      | none => .error .missingSecret
      | some secretHex => do
        let sessionSecret ← parseHex lib secretHex .badSecret
        if sessionSecret = 0 then .error .zeroSecret
        else if params.relays = [] then .error .noRelay
        else do
          for relay in params.relays do
            checkRelay lib relay
          pure ⟨⟨sourcePubkey⟩, sessionSecret, params.relays, version⟩

theorem separator_not_mem_urlEncode (s : String) : '&' ∉ lib.urlEncode s :=
  fun h => absurd (lib.urlEncode_chars s '&' h) (by decide)

theorem splitOnce_append {c : Char} {xs : List Char} (hc : c ∉ xs) (ys : List Char) :
    splitOnce c (xs ++ c :: ys) = some (xs, ys) := by
  have hne : ∀ x ∈ xs, decide (x ≠ c) = true := by
    intro x hx
    have : x ≠ c := fun h => hc (h ▸ hx)
    exact decide_eq_true this
  rw [splitOnce, List.dropWhile_append_of_pos hne, List.takeWhile_append_of_pos hne]
  simp

theorem isLowercaseHex_encode (b : Bytes32) {c : Char} (hc : c ∈ (lib.hex.encode b).toList) :
    isLowercaseHex c = true := by
  simpa [isLowercaseHex] using lib.hex.encode_lower b c hc

theorem not_mem_encode (b : Bytes32) {c : Char} (hc : isLowercaseHex c = false) :
    c ∉ (lib.hex.encode b).toList := fun h => by
  rw [isLowercaseHex_encode lib b h] at hc
  cases hc

@[simp] theorem parseHex_encode (b : Bytes32) (bad : List Char → InvalidQr) :
    parseHex lib (lib.hex.encode b).toList bad = .ok b := by
  have hall : (lib.hex.encode b).toList.all isLowercaseHex = true :=
    List.all_eq_true.2 fun _ hc => isLowercaseHex_encode lib b hc
  simp [parseHex, lib.hex.encode_length, hall, lib.hex.decode_encode]

section Params

variable (params : Params)

theorem Params.read_secret (value : List Char) :
    params.read lib ("secret=".toList ++ value) = { params with secretHex := some value } := by
  have h : splitOnce '=' ("secret".toList ++ '=' :: value) = some ("secret".toList, value) :=
    splitOnce_append (by decide) value
  rw [Params.read, show "secret=".toList ++ value = "secret".toList ++ '=' :: value from rfl, h]
  exact if_pos rfl

theorem Params.read_relay (relay : String) :
    params.read lib ("relay=".toList ++ lib.urlEncode relay) =
      { params with relays := params.relays ++ [relay] } := by
  have h : splitOnce '=' ("relay".toList ++ '=' :: lib.urlEncode relay) =
      some ("relay".toList, lib.urlEncode relay) := splitOnce_append (by decide) _
  rw [Params.read, show "relay=".toList ++ lib.urlEncode relay = "relay".toList ++ '=' :: lib.urlEncode relay
    from rfl, h]
  simp [lib.urlDecode_urlEncode]

theorem Params.read_relays (relays : List String) :
    (relays.map fun relay => "relay=".toList ++ lib.urlEncode relay).foldl (Params.read lib) params =
      { params with relays := params.relays ++ relays } := by
  induction relays generalizing params with
  | nil => simp
  | cons relay relays ih =>
    rw [List.map_cons, List.foldl_cons, Params.read_relay, ih]
    simp

theorem Params.read_version : params.read lib "v=1".toList = { params with version := some 1 } := by
  rfl

end Params

theorem decodeQr_eq_ok {uri : String} {payload : QrPayload} :
    decodeQr lib uri = .ok payload ↔ uri.utf8ByteSize ≤ 2048 ∧ ∃ pubkeyHex query secretHex,
      splitUri uri.toList = .ok (pubkeyHex, query) ∧
      parseHex lib pubkeyHex .badPubkey = .ok payload.sourcePubkey.bits ∧
      (readQuery lib query).version.getD 1 = 1 ∧ payload.version = 1 ∧
      (readQuery lib query).secretHex = some secretHex ∧
      parseHex lib secretHex .badSecret = .ok payload.sessionSecret ∧ payload.sessionSecret ≠ 0 ∧
      (readQuery lib query).relays = payload.relays ∧ payload.relays ≠ [] ∧
      ∀ relay ∈ payload.relays, checkRelay lib relay = .ok () := by
  obtain ⟨⟨sourcePubkey⟩, sessionSecret, relays, version⟩ := payload
  unfold decodeQr
  constructor
  · intro h
    split at h
    · cases h
    next hsize =>
    obtain ⟨⟨pubkeyHex, query⟩, hsplit, h⟩ := bind_eq_ok.1 h
    obtain ⟨key, hkey, h⟩ := bind_eq_ok.1 h
    simp only at h
    split at h
    · cases h
    next hversion =>
    split at h
    · cases h
    next secretHex hsecret =>
    obtain ⟨secret, hparse, h⟩ := bind_eq_ok.1 h
    split at h
    · cases h
    next hzero =>
    split at h
    · cases h
    next hrelays =>
    obtain ⟨u, hloop, h⟩ := bind_eq_ok.1 h
    cases h
    exact ⟨not_lt.1 hsize, pubkeyHex, query, secretHex, hsplit, hkey, not_not.1 hversion,
      not_not.1 hversion, hsecret, hparse, hzero, rfl, hrelays, forIn_eq_ok.1 hloop⟩
  · rintro ⟨hsize, pubkeyHex, query, secretHex, hsplit, hkey, hversion, rfl, hsecret, hparse, hzero,
      rfl, hrelays, hcheck⟩
    rw [if_neg (not_lt.2 hsize), hsplit]
    refine bind_eq_ok.2 ⟨_, rfl, bind_eq_ok.2 ⟨_, hkey, ?_⟩⟩
    simp only [hversion, ne_eq, not_true_eq_false, if_false, hsecret]
    refine bind_eq_ok.2 ⟨_, hparse, ?_⟩
    rw [if_neg hzero, if_neg hrelays]
    exact bind_eq_ok.2 ⟨PUnit.unit, forIn_eq_ok.2 hcheck, rfl⟩

def IsRelayUrl (relay : String) : Prop :=
  ∃ url, lib.parseUrl relay = some url ∧ (url.scheme = "wss" ∨ url.scheme = "ws") ∧ url.host.isSome

theorem checkRelay_eq_ok {relay : String} :
    checkRelay lib relay = .ok () ↔ IsRelayUrl lib relay := by
  unfold checkRelay IsRelayUrl
  cases lib.parseUrl relay with
  | none => simp
  | some url =>
    simp only [Option.some.injEq, exists_eq_left', Option.isSome_iff_ne_none]
    split_ifs with hscheme hhost
    · simpa using fun h => absurd h (by tauto)
    · simp [hhost]
    · simpa [hhost] using by tauto

theorem decodeQr_encodeQr {payload : QrPayload} (hversion : payload.version = 1)
    (hsecret : payload.sessionSecret ≠ 0) (hrelays : payload.relays ≠ [])
    (hurl : ∀ relay ∈ payload.relays, IsRelayUrl lib relay)
    (hsize : (encodeQr lib payload).utf8ByteSize ≤ 2048) :
    decodeQr lib (encodeQr lib payload) = .ok payload := by
  set key := (lib.hex.encode payload.sourcePubkey.bits).toList with hkey
  set secret := (lib.hex.encode payload.sessionSecret).toList with hsecretHex
  let parts := payload.relays.map (fun relay => "relay=".toList ++ lib.urlEncode relay) ++ ["v=1".toList]
  let query := "secret=".toList ++ secret ++ parts.flatMap ('&' :: ·)
  have hfirst : '&' ∉ "secret=".toList ++ secret := by
    rw [List.mem_append, not_or]
    exact ⟨by decide, not_mem_encode lib _ rfl⟩
  have hparts : ∀ part ∈ parts, '&' ∉ part := by
    intro part hpart
    rcases List.mem_append.1 hpart with h | h
    · obtain ⟨relay, -, rfl⟩ := List.mem_map.1 h
      rw [List.mem_append, not_or]
      exact ⟨by decide, separator_not_mem_urlEncode lib relay⟩
    · rw [List.mem_singleton.1 h]
      decide
  have hread : readQuery lib query = ⟨some secret, payload.relays, some 1⟩ := by
    rw [readQuery, splitOn_parts hfirst hparts, List.foldl_cons, Params.read_secret, List.foldl_append,
      Params.read_relays, List.foldl_cons, Params.read_version]
    simp
  have huri : (encodeQr lib payload).toList = scheme ++ (key ++ '?' :: query) := by
    simp [encodeQr, query, parts, ← hkey, ← hsecretHex, List.flatMap_map]
  have hsplit : splitUri (encodeQr lib payload).toList = .ok (key, query) := by
    have hmark : '?' ∉ key := not_mem_encode lib _ rfl
    rw [splitUri, huri, if_pos (by simp), List.drop_left, splitOnce_append hmark]
  refine (decodeQr_eq_ok lib).2 ⟨hsize, key, query, secret, hsplit, parseHex_encode lib _ _, ?_, hversion,
    ?_, parseHex_encode lib _ _, hsecret, ?_, hrelays, fun relay h => (checkRelay_eq_ok lib).2 (hurl relay h)⟩ <;>
    rw [hread]
  rfl

def vValue (pair : List Char) : Option (List Char) :=
  (splitOnce '=' pair).bind fun (key, value) => if key = "v".toList then some value else none

def vParameters (uri : String) : List (List Char) :=
  match splitUri uri.toList with
  | .ok (_, query) => (query.splitOn '&').filterMap vValue
  | .error _ => []

theorem Params.version_read (params : Params) (pair : List Char) :
    (params.read lib pair).version = ((vValue pair).map parseU32).getD params.version := by
  unfold Params.read vValue
  cases splitOnce '=' pair with
  | none => rfl
  | some parameter =>
    obtain ⟨key, value⟩ := parameter
    simp only [Option.bind_some]
    split_ifs <;> simp_all

theorem version_readQuery (pairs : List (List Char)) (params : Params) :
    (pairs.foldl (Params.read lib) params).version =
      (((pairs.filterMap vValue).getLast?).map parseU32).getD params.version := by
  induction pairs using List.reverseRecOn with
  | nil => rfl
  | append_singleton pairs pair ih =>
    rw [List.foldl_append, List.foldl_cons, List.foldl_nil, Params.version_read, ih,
      List.filterMap_append]
    cases h : vValue pair with
    | none => simp [h]
    | some value => simp [h]

theorem vParameters_iff {uri : String} {payload : QrPayload} (h : decodeQr lib uri = .ok payload) :
    (∀ v ∈ vParameters uri, parseU32 v = some 1) ↔
      (∀ v ∈ vParameters uri, (parseU32 v).isSome) ∧
        ∀ v ∈ vParameters uri, ∀ w ∈ vParameters uri, parseU32 v = parseU32 w := by
  obtain ⟨-, pubkeyHex, query, secretHex, hsplit, -, hone, -⟩ := (decodeQr_eq_ok lib).1 h
  have hvs : vParameters uri = (query.splitOn '&').filterMap vValue := by rw [vParameters, hsplit]
  rw [readQuery, version_readQuery, ← hvs] at hone
  constructor
  · intro hall
    refine ⟨fun v hv => by rw [hall v hv]; rfl, fun v hv w hw => ?_⟩
    rw [hall v hv, hall w hw]
  · rintro ⟨hsome, hsame⟩ v hv
    obtain ⟨last, hlast⟩ := Option.isSome_iff_exists.1
      (List.getLast?_isSome.2 (List.ne_nil_of_mem hv))
    have hmem : last ∈ vParameters uri := List.mem_of_getLast? hlast
    obtain ⟨n, hn⟩ := Option.isSome_iff_exists.1 (hsome last hmem)
    rw [hlast, Option.map_some, Option.getD_some, hn, Option.getD_some] at hone
    rw [hsame v hv last hmem, hn, hone]

/-- A code that is written is read back, and of the URIs that are accepted those say version 1 in
each of their `v` parameters whose `v` parameters are all numbers of 32 bits and agree. -/
theorem qr_round_trip_version :
    (∀ payload : QrPayload, payload.version = 1 → payload.sessionSecret ≠ 0 → payload.relays ≠ [] →
      (∀ relay ∈ payload.relays, IsRelayUrl lib relay) → (encodeQr lib payload).utf8ByteSize ≤ 2048 →
      decodeQr lib (encodeQr lib payload) = .ok payload) ∧
    ∀ uri payload, decodeQr lib uri = .ok payload →
      ((∀ v ∈ vParameters uri, parseU32 v = some 1) ↔
        (∀ v ∈ vParameters uri, (parseU32 v).isSome) ∧
          ∀ v ∈ vParameters uri, ∀ w ∈ vParameters uri, parseU32 v = parseU32 w) :=
  ⟨fun _ hversion hsecret hrelays hurl hsize => decodeQr_encodeQr lib hversion hsecret hrelays hurl hsize,
    fun _ _ => vParameters_iff lib⟩

section Sample

-- The percent encoding itself, so that real codes can be read below; bytes that are not UTF-8 are
-- read as no text.
def utf8 (s : List Char) : Bytes := s.flatMap String.utf8EncodeChar

def isAlphanumeric (b : UInt8) : Bool :=
  (48 ≤ b && b ≤ 57) || (65 ≤ b && b ≤ 90) || (97 ≤ b && b ≤ 122)

def upperDigit (n : Nat) : Char := Char.ofNat (if n < 10 then 48 + n else 55 + n)

def encodeByte (b : UInt8) : List Char :=
  if isAlphanumeric b then [Char.ofNat b.toNat]
  else ['%', upperDigit (b.toNat / 16), upperDigit (b.toNat % 16)]

def urlEncode (s : String) : List Char := (utf8 s.toList).flatMap encodeByte

def hexOf (b : UInt8) : Option Nat := hexValue (Char.ofNat b.toNat)

def percentDecode : Bytes → Bytes
  | [] => []
  | [b] => [b]
  | [b, c] => [b, c]
  | b :: h :: l :: rest =>
    if b = 37 then
      match hexOf h, hexOf l with
      | some x, some y => UInt8.ofNat (x * 16 + y) :: percentDecode rest
      | _, _ => b :: percentDecode (h :: l :: rest)
    else b :: percentDecode (h :: l :: rest)

def urlDecode (s : List Char) : String :=
  ((percentDecode (utf8 s)).toByteArray.utf8Decode?.map fun chars => String.ofList chars.toList).getD ""

theorem percentDecode_plain {b : UInt8} (hb : b ≠ 37) (rest : Bytes) :
    percentDecode (b :: rest) = b :: percentDecode rest := by
  match rest with
  | [] => rfl
  | [c] => rfl
  | h :: l :: rest => rw [percentDecode, if_neg hb]

theorem percentDecode_escape {h l : UInt8} {x y : Nat} (hh : hexOf h = some x) (hl : hexOf l = some y)
    (rest : Bytes) :
    percentDecode (37 :: h :: l :: rest) = UInt8.ofNat (x * 16 + y) :: percentDecode rest := by
  rw [percentDecode, if_pos rfl, hh, hl]

theorem utf8_append (s t : List Char) : utf8 (s ++ t) = utf8 s ++ utf8 t := by
  simp [utf8]

theorem utf8_alphanumeric : ∀ n : Fin 256, isAlphanumeric (UInt8.ofNat n) = true →
    utf8 [Char.ofNat (UInt8.ofNat n).toNat] = [UInt8.ofNat n] ∧ UInt8.ofNat n ≠ 37 := by
  decide +kernel

theorem utf8_upperDigit : ∀ n < 16,
    utf8 [upperDigit n] = [UInt8.ofNat (upperDigit n).toNat] ∧
      hexOf (UInt8.ofNat (upperDigit n).toNat) = some n := by
  decide +kernel

theorem percentDecode_encodeByte (b : UInt8) (rest : Bytes) :
    percentDecode (utf8 (encodeByte b) ++ rest) = b :: percentDecode rest := by
  have hlt : b.toNat < 256 := b.toNat_lt
  unfold encodeByte
  split
  next halpha =>
    have h := utf8_alphanumeric ⟨b.toNat, hlt⟩
    rw [UInt8.ofNat_toNat] at h
    obtain ⟨hutf8, hne⟩ := h halpha
    rw [hutf8, List.singleton_append, percentDecode_plain hne]
  next =>
    obtain ⟨hhigh, hx⟩ := utf8_upperDigit (b.toNat / 16) (by omega)
    obtain ⟨hlow, hy⟩ := utf8_upperDigit (b.toNat % 16) (by omega)
    have hutf8 : utf8 ['%', upperDigit (b.toNat / 16), upperDigit (b.toNat % 16)] =
        [37] ++ utf8 [upperDigit (b.toNat / 16)] ++ utf8 [upperDigit (b.toNat % 16)] := by
      simp [utf8]
      rfl
    rw [hutf8, hhigh, hlow]
    simp only [List.cons_append, List.nil_append]
    rw [percentDecode_escape hx hy, Nat.div_add_mod', UInt8.ofNat_toNat]

theorem percentDecode_encode (bytes : Bytes) :
    percentDecode (utf8 (bytes.flatMap encodeByte)) = bytes := by
  induction bytes with
  | nil => rfl
  | cons b bytes ih =>
    rw [List.flatMap_cons, utf8_append, percentDecode_encodeByte, ih]

theorem urlDecode_urlEncode (s : String) : urlDecode (urlEncode s) = s := by
  have hdecode : (utf8 s.toList).toByteArray.utf8Decode? = some s.toList.toArray :=
    List.utf8Decode?_utf8Encode
  rw [urlDecode, urlEncode, percentDecode_encode, hdecode]
  simp

theorem urlEncode_chars (s : String) : ∀ c ∈ urlEncode s, c.isAlphanum = true ∨ c = '%' := by
  have hbyte : ∀ n : Fin 256,
      (encodeByte (UInt8.ofNat n)).all (fun c => c.isAlphanum || c == '%') = true := by decide +kernel
  intro c h
  obtain ⟨b, -, hb⟩ := List.mem_flatMap.1 h
  have hb' := hbyte ⟨b.toNat, b.toNat_lt⟩
  rw [UInt8.ofNat_toNat] at hb'
  simpa using List.all_eq_true.1 hb' c hb

def oneRelay : Readers where
  hex := lowerHex
  urlEncode := urlEncode
  urlDecode := urlDecode
  urlDecode_urlEncode := urlDecode_urlEncode
  urlEncode_chars := urlEncode_chars
  parseUrl s := if s = "wss://relay.example" then some ⟨"wss", some "relay.example"⟩ else none

def sampleCode : QrPayload := ⟨⟨7⟩, 5, ["wss://relay.example"], 1⟩

def sampleUri (versions : String) : String :=
  String.ofList (scheme ++ hexDigits 64 7 ++ "?secret=".toList ++ hexDigits 64 5 ++
    "&relay=wss%3A%2F%2Frelay%2Eexample".toList ++ versions.toList)

end Sample

theorem qr_round_trip_version_sample :
    decodeQr oneRelay (encodeQr oneRelay sampleCode) = .ok sampleCode ∧
      ∀ v ∈ vParameters (encodeQr oneRelay sampleCode), parseU32 v = some 1 := by
  have hcode := (qr_round_trip_version oneRelay).1 sampleCode rfl (by decide) (by decide)
    (fun relay h => ⟨⟨"wss", some "relay.example"⟩, by rw [List.mem_singleton.1 h]; rfl, .inl rfl, rfl⟩)
    (by decide +kernel)
  exact ⟨hcode, ((qr_round_trip_version oneRelay).2 _ _ hcode).2 (by decide +kernel)⟩

theorem versions_accepted :
    (decodeQr oneRelay (sampleUri "&v=4294967297")).toOption = some sampleCode ∧
      "4294967297".toList ∈ vParameters (sampleUri "&v=4294967297") ∧
      parseU32 "4294967297".toList ≠ some 1 ∧
      (decodeQr oneRelay (sampleUri "&v=2&v=1")).toOption = some sampleCode ∧
      "2".toList ∈ vParameters (sampleUri "&v=2&v=1") ∧ parseU32 "2".toList ≠ some 1 := by
  decide +kernel

end Colony.Pairing.Qr
