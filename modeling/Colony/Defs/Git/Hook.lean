import Colony.Defs.Core.Ascii
import Colony.Defs.Core.Decimal
import Colony.Defs.Core.Event
import Colony.Defs.Data.Framing
import Colony.Defs.Git.Manifest

namespace Colony.Git

open Colony.Core Colony.Data

structure HookRefUpdate where
  oldOid : String
  newOid : String
  refName : String
  isAncestor : Bool
  deriving DecidableEq

structure HookCallbackRequest where
  repoId : String
  repoOwner : String
  communityId : String
  pusherPubkey : String
  refUpdates : List HookRefUpdate
  timestamp : Nat
  signature : String
  deriving DecidableEq

def isPubkeyText (s : String) : Bool :=
  s.utf8ByteSize = 64 && s.toList.all fun c => isAsciiHexDigit c && !('A' ≤ c && c ≤ 'Z')

structure UuidLib where
  parseStr : String → Option Uuid
  -- It takes the plain, hyphenated, braced and urn forms.
  parseStr_chars : ∀ s, (parseStr s).isSome = true →
    ∀ c ∈ s.toList, isAsciiHexDigit c = true ∨ c ∈ ['-', '{', '}', 'u', 'r', 'n', ':', 'i']

def isOidText (s : String) : Bool := s.utf8ByteSize = 40 && s.toList.all isAsciiHexDigit

def isRefNameText (s : String) : Bool :=
  s ≠ "" && s.utf8ByteSize ≤ 256 && "refs/".toList.isPrefixOf s.toList &&
    !containsInfix "..".toList s.toList && !s.toList.any fun c => c.toNat ≤ 0x20 || c.toNat = 0x7f

def checkRefUpdates : List HookRefUpdate → Option String
  | [] => none
  | r :: rs =>
    if !isOidText r.oldOid then some "invalid old_oid"
    else if !isOidText r.newOid then some "invalid new_oid"
    else if !isRefNameText r.refName then some "invalid ref_name"
    else checkRefUpdates rs

namespace HookCallbackRequest

def structuralDenial (lib : UuidLib) (req : HookCallbackRequest) : Option String :=
  if req.repoId = "" ∨ 64 < req.repoId.utf8ByteSize then some "invalid repo_id"
  else if !isPubkeyText req.repoOwner then some "invalid repo_owner"
  else if !isPubkeyText req.pusherPubkey then some "invalid pusher_pubkey"
  else if (lib.parseStr req.communityId).isNone then some "invalid community_id"
  else if req.refUpdates = [] ∨ 500 < req.refUpdates.length then some "invalid ref_updates count"
  else checkRefUpdates req.refUpdates

end HookCallbackRequest

def lengthPrefixed (s : String) : List Char := (toString s.utf8ByteSize).toList ++ ':' :: s.toList

def HookRefUpdate.signed (r : HookRefUpdate) : List Char :=
  r.oldOid.toList ++ (r.newOid.toList ++ (lengthPrefixed r.refName ++
    [if r.isAncestor then '1' else '0']))

namespace HookCallbackRequest

def refsSorted (req : HookCallbackRequest) : List HookRefUpdate :=
  req.refUpdates.insertionSort fun r r' => r.refName ≤ r'.refName

def signed (req : HookCallbackRequest) : List Char :=
  lengthPrefixed req.repoId ++ '|' :: (req.repoOwner.toList ++ '|' :: (req.communityId.toList ++
    '|' :: (req.pusherPubkey.toList ++ '|' :: (req.refsSorted.flatMap HookRefUpdate.signed ++
      '|' :: (toString req.timestamp).toList))))

def macInput (req : HookCallbackRequest) : ByteArray := (String.ofList req.signed).toUTF8

end HookCallbackRequest

theorem lengthPrefixed_delimits : Delimits (fun _ => True) lengthPrefixed := by
  intro s s' r r' _ _ h
  simp only [lengthPrefixed, List.append_assoc, List.cons_append] at h
  have hcolon (l : List Char) : StopsBefore (fun c => Char.isDigit c = true) (':' :: l) :=
    stopsBefore_cons.2 (by decide)
  obtain ⟨hsize, hrest⟩ := append_inj_of_class (fun c hc => isDigit_toString hc)
    (fun c hc => isDigit_toString hc) (hcolon _) (hcolon _) h
  have hbytes : s.utf8ByteSize = s'.utf8ByteSize := toString_nat_inj (String.toList_inj.1 hsize)
  have hlen : String.utf8Len s.toList = String.utf8Len s'.toList := by
    rwa [← String.utf8ByteSize_ofList, ← String.utf8ByteSize_ofList, String.ofList_toList,
      String.ofList_toList]
  obtain ⟨htext, hr⟩ := append_inj_of_utf8Len hlen (List.cons.inj hrest).2
  exact ⟨String.toList_inj.1 htext, hr⟩

theorem length_of_hex {s : String} {n : Nat} (hsize : s.utf8ByteSize = n)
    (hhex : ∀ c ∈ s.toList, isAsciiHexDigit c = true) : s.toList.length = n := by
  rw [← utf8ByteSize_of_alphanum fun c hc => alphanum_of_hex (hhex c hc), hsize]

theorem isOidText_iff {s : String} (h : isOidText s = true) :
    s.toList.length = 40 ∧ ∀ c ∈ s.toList, isAsciiHexDigit c = true := by
  simp only [isOidText, Bool.and_eq_true, decide_eq_true_eq, List.all_eq_true] at h
  exact ⟨length_of_hex h.1 h.2, h.2⟩

theorem length_of_isPubkeyText {s : String} (h : isPubkeyText s = true) : s.toList.length = 64 := by
  simp only [isPubkeyText, Bool.and_eq_true, decide_eq_true_eq, List.all_eq_true] at h
  exact length_of_hex h.1 fun c hc => (h.2 c hc).1

structure HookRefUpdate.Checked (r : HookRefUpdate) : Prop where
  oldOid : isOidText r.oldOid = true
  newOid : isOidText r.newOid = true
  refName : isRefNameText r.refName = true

theorem checkRefUpdates_eq_none {rs : List HookRefUpdate} :
    checkRefUpdates rs = none ↔ ∀ r ∈ rs, r.Checked := by
  induction rs with
  | nil => simp [checkRefUpdates]
  | cons r rs ih =>
    rw [checkRefUpdates, List.forall_mem_cons, ← ih]
    split_ifs with hold hnew hname
    · exact ⟨nofun, fun h => by simp [h.1.oldOid] at hold⟩
    · exact ⟨nofun, fun h => by simp [h.1.newOid] at hnew⟩
    · exact ⟨nofun, fun h => by simp [h.1.refName] at hname⟩
    · simp only [Bool.not_eq_true', Bool.not_eq_false] at hold hnew hname
      exact ⟨fun h => ⟨⟨hold, hnew, hname⟩, h⟩, fun h => h.2⟩

structure HookCallbackRequest.Checked (lib : UuidLib) (req : HookCallbackRequest) : Prop where
  repoOwner : isPubkeyText req.repoOwner = true
  pusherPubkey : isPubkeyText req.pusherPubkey = true
  communityId : (lib.parseStr req.communityId).isSome = true
  refUpdates : ∀ r ∈ req.refUpdates, r.Checked

theorem HookCallbackRequest.checked_of_structuralDenial {lib : UuidLib} {req : HookCallbackRequest}
    (h : req.structuralDenial lib = none) : req.Checked lib := by
  unfold structuralDenial at h
  split_ifs at h with hrepo howner hpusher hcommunity hcount
  simp only [Bool.not_eq_true', Bool.not_eq_false] at howner hpusher
  exact ⟨howner, hpusher, by simpa [Option.isNone_iff_eq_none, Option.isSome_iff_ne_none] using hcommunity,
    checkRefUpdates_eq_none.1 h⟩

theorem signed_delimits {r r' : HookRefUpdate} (h : r.Checked) (h' : r'.Checked)
    {l l' : List Char} (heq : r.signed ++ l = r'.signed ++ l') : r = r' ∧ l = l' := by
  simp only [HookRefUpdate.signed, List.append_assoc, List.cons_append, List.nil_append] at heq
  obtain ⟨hold, heq⟩ := List.append_inj heq
    ((isOidText_iff h.oldOid).1.trans (isOidText_iff h'.oldOid).1.symm)
  obtain ⟨hnew, heq⟩ := List.append_inj heq
    ((isOidText_iff h.newOid).1.trans (isOidText_iff h'.newOid).1.symm)
  obtain ⟨hname, heq⟩ := lengthPrefixed_delimits _ _ _ _ trivial trivial heq
  obtain ⟨hflag, hrest⟩ := List.cons.inj heq
  have hancestor : r.isAncestor = r'.isAncestor := by
    cases hr : r.isAncestor <;> cases hr' : r'.isAncestor <;> simp_all
  refine ⟨?_, hrest⟩
  cases r
  cases r'
  simp_all [String.toList_inj]

theorem signed_start {r : HookRefUpdate} (h : r.Checked) :
    ∃ c l, r.signed = c :: l ∧ c ≠ '|' := by
  obtain ⟨hlen, hhex⟩ := isOidText_iff h.oldOid
  obtain ⟨c, cs, hold⟩ := List.exists_cons_of_length_pos (by omega : 0 < r.oldOid.toList.length)
  refine ⟨c, _, by rw [HookRefUpdate.signed, hold, List.cons_append], ?_⟩
  rintro rfl
  exact absurd (hhex '|' (by rw [hold]; simp)) (by decide)

theorem signedRefs_inj {rs rs' : List HookRefUpdate} (h : ∀ r ∈ rs, r.Checked)
    (h' : ∀ r ∈ rs', r.Checked) {l l' : List Char}
    (heq : rs.flatMap HookRefUpdate.signed ++ '|' :: l =
      rs'.flatMap HookRefUpdate.signed ++ '|' :: l') : rs = rs' ∧ l = l' := by
  -- the library lemma at the type of checked updates
  have hdelimits : Delimits (fun _ => True)
      fun r : { r : HookRefUpdate // r.Checked } => r.1.signed :=
    fun r r' l l' _ _ heq =>
      (signed_delimits r.2 r'.2 heq).imp_left Subtype.ext
  have hval (rs : List HookRefUpdate) (h : ∀ r ∈ rs, r.Checked) :
      (rs.attachWith _ h).flatMap (fun r => r.1.signed) = rs.flatMap HookRefUpdate.signed := by
    rw [List.flatMap_def, List.flatMap_def, List.attachWith_map_val]
  rw [← hval rs h, ← hval rs' h'] at heq
  obtain ⟨hattached, hrest⟩ := hdelimits.flatMap (fun r => signed_start r.2) _ _ _ _ heq
  refine ⟨?_, hrest⟩
  have hlists := congrArg (List.map Subtype.val) hattached
  simpa using hlists

theorem bar_notMem_of_parseStr {lib : UuidLib} {s : String} (h : (lib.parseStr s).isSome = true) :
    '|' ∉ s.toList := fun hmem => absurd (lib.parseStr_chars s h '|' hmem) (by decide)

theorem macInput_inj (lib : UuidLib) {req req' : HookCallbackRequest}
    (h : req.structuralDenial lib = none) (h' : req'.structuralDenial lib = none) (heq : req.macInput = req'.macInput) :
    req.repoId = req'.repoId ∧ req.repoOwner = req'.repoOwner ∧
      req.communityId = req'.communityId ∧ req.pusherPubkey = req'.pusherPubkey ∧
      req.timestamp = req'.timestamp ∧ req.refUpdates.Perm req'.refUpdates := by
  have hreq := HookCallbackRequest.checked_of_structuralDenial h
  have hreq' := HookCallbackRequest.checked_of_structuralDenial h'
  have htext : req.signed = req'.signed := String.ofList_injective (String.toByteArray_inj.1 heq)
  obtain ⟨hrepo, htext⟩ := lengthPrefixed_delimits _ _ _ _ trivial trivial htext
  obtain ⟨howner, htext⟩ := List.append_inj (List.cons.inj htext).2
    ((length_of_isPubkeyText hreq.repoOwner).trans (length_of_isPubkeyText hreq'.repoOwner).symm)
  have hbar (l : List Char) : StopsBefore (fun c => c ≠ '|') ('|' :: l) :=
    stopsBefore_cons.2 (by simp)
  obtain ⟨hcommunity, htext⟩ := append_inj_of_class
    (fun c hc => ne_of_mem_of_not_mem hc (bar_notMem_of_parseStr hreq.communityId))
    (fun c hc => ne_of_mem_of_not_mem hc (bar_notMem_of_parseStr hreq'.communityId))
    (hbar _) (hbar _) (List.cons.inj htext).2
  obtain ⟨hpusher, htext⟩ := List.append_inj (List.cons.inj htext).2
    ((length_of_isPubkeyText hreq.pusherPubkey).trans
      (length_of_isPubkeyText hreq'.pusherPubkey).symm)
  have hsorted (req : HookCallbackRequest) : req.refsSorted.Perm req.refUpdates :=
    List.perm_insertionSort _ _
  obtain ⟨hrefs, htime⟩ := signedRefs_inj
    (fun r hr => hreq.refUpdates r ((hsorted req).mem_iff.1 hr))
    (fun r hr => hreq'.refUpdates r ((hsorted req').mem_iff.1 hr)) (List.cons.inj htext).2
  exact ⟨hrepo, String.toList_inj.1 howner, String.toList_inj.1 hcommunity,
    String.toList_inj.1 hpusher, toString_nat_inj (String.toList_inj.1 htime),
    (hsorted req).symm.trans (hrefs ▸ hsorted req')⟩

def nilUuid : String := String.ofList (List.replicate 32 '0')

theorem toList_nilUuid : nilUuid.toList = List.replicate 32 '0' := String.toList_ofList

theorem eq_zero_of_mem_nilUuid {c : Char} (h : c ∈ nilUuid.toList) : c = '0' := by
  rw [toList_nilUuid] at h
  exact List.eq_of_mem_replicate h

def readsNil : UuidLib where
  parseStr s := if s = nilUuid then some ⟨0⟩ else none
  parseStr_chars s h c hc := by
    by_cases heq : s = nilUuid
    · rw [heq] at hc
      exact eq_zero_of_mem_nilUuid hc ▸ .inl rfl
    · rw [if_neg heq] at h
      cases h

def pushTo (refName : String) (digit : Char) : HookRefUpdate where
  oldOid := String.ofList (List.replicate 40 '0')
  newOid := String.ofList (List.replicate 40 digit)
  refName
  isAncestor := false

def sampleRequest (refUpdates : List HookRefUpdate) (signature : String) : HookCallbackRequest where
  repoId := "a|b"
  repoOwner := String.ofList (List.replicate 64 'a')
  communityId := nilUuid
  pusherPubkey := String.ofList (List.replicate 64 'b')
  refUpdates
  timestamp := 1700000000
  signature

-- The updates are signed in the order of their names, whatever order they came in.
theorem macInput_inj_sample :
    let req := sampleRequest [pushTo "refs/heads/x|1" 'c', pushTo "refs/heads/a" 'd'] ""
    let req' := sampleRequest [pushTo "refs/heads/a" 'd', pushTo "refs/heads/x|1" 'c'] "00"
    req.structuralDenial readsNil = none ∧ req'.structuralDenial readsNil = none ∧
      req.refUpdates ≠ req'.refUpdates ∧ req.refUpdates.Perm req'.refUpdates := by
  intro req req'
  have hreq : req.structuralDenial readsNil = none := by decide +kernel
  have hreq' : req'.structuralDenial readsNil = none := by decide +kernel
  have hsorted : req.refsSorted = req'.refsSorted := by decide +kernel
  have hsame : req.macInput = req'.macInput := by
    rw [HookCallbackRequest.macInput, HookCallbackRequest.signed, hsorted]
    rfl
  exact ⟨hreq, hreq', by decide +kernel, (macInput_inj readsNil hreq hreq' hsame).2.2.2.2.2⟩

end Colony.Git
