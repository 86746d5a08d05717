import Colony.Defs.Git.Manifest
import Mathlib.Data.List.Perm.Basic

namespace Colony.Git

open Colony.Core

inductive MemberRole
  | owner
  | admin
  | member
  | guest
  | bot
  deriving DecidableEq

namespace MemberRole

def asStr : MemberRole → String
  | owner => "owner"
  | admin => "admin"
  | member => "member"
  | guest => "guest"
  | bot => "bot"

def permissionLevel : MemberRole → Nat
  | owner => 4
  | admin => 3
  | member => 2
  | guest => 1
  | bot => 0

def hasAtLeast (role required : MemberRole) : Bool :=
  required.permissionLevel ≤ role.permissionLevel

def fromStr (s : String) : Option MemberRole :=
  [owner, admin, member, guest, bot].find? fun role => role.asStr = s

end MemberRole

def MAX_PROTECTION_RULES : Nat := 50

def MAX_PATTERN_LENGTH : Nat := 256

def MAX_WILDCARDS_PER_PATTERN : Nat := 3

inductive PatternSegment
  | literal (s : String)
  | wildcard
  | recursiveWildcard
  deriving DecidableEq

inductive PatternError
  | empty
  | tooLong
  | missingRefsPrefix
  | invalidSegment (s : String)
  | tooManyWildcards
  deriving DecidableEq

structure RefPattern where
  raw : String
  segments : List PatternSegment
  recursive_last : .recursiveWildcard ∉ segments.dropLast

def splitSlash (s : String) : List String := (s.toList.splitOn '/').map String.ofList

def isLiteralChar (c : Char) : Bool := c.isAlphanum || c = '.' || c = '_' || c = '-'

def parseSegments (wildcards : Nat) : List String → Except PatternError (List PatternSegment)
  | [] => .ok []
  | part :: parts =>
    if part = "**" then
      if parts ≠ [] then .error (.invalidSegment "** must be the last segment")
      else if MAX_WILDCARDS_PER_PATTERN < wildcards + 1 then .error .tooManyWildcards
      else .ok [.recursiveWildcard]
    else if part = "*" then
      if MAX_WILDCARDS_PER_PATTERN < wildcards + 1 then .error .tooManyWildcards
      else (parseSegments (wildcards + 1) parts).map (.wildcard :: ·)
    else if part = "" then .error (.invalidSegment "")
    else if part.toList.any fun c => c = '*' || c = '?' || c = '[' || c = ']' then
      .error (.invalidSegment part)
    else if !part.toList.all isLiteralChar then .error (.invalidSegment part)
    else (parseSegments wildcards parts).map (.literal part :: ·)

theorem parseSegments_recursive {wildcards : Nat} {parts : List String}
    {segments : List PatternSegment} (h : parseSegments wildcards parts = .ok segments) :
    .recursiveWildcard ∉ segments.dropLast := by
  have hcons {segment : PatternSegment} {wildcards : Nat} {parts : List String}
      {segments : List PatternSegment} (hne : segment ≠ .recursiveWildcard)
      (ih : ∀ {segments}, parseSegments wildcards parts = .ok segments →
        .recursiveWildcard ∉ segments.dropLast)
      (h : (parseSegments wildcards parts).map (segment :: ·) = .ok segments) :
      .recursiveWildcard ∉ segments.dropLast := by
    cases hrest : parseSegments wildcards parts with
    | error e => simp [hrest, Except.map] at h
    | ok rest =>
      simp only [hrest, Except.map, Except.ok.injEq] at h
      subst h
      cases rest with
      | nil => simp
      | cons next rest =>
        rw [List.dropLast_cons_of_ne_nil (List.cons_ne_nil _ _), List.mem_cons, not_or]
        exact ⟨hne.symm, ih hrest⟩
  induction parts generalizing wildcards segments with
  | nil =>
    cases h
    exact List.not_mem_nil
  | cons part parts ih =>
    rw [parseSegments] at h
    split_ifs at h
    · cases h
      exact List.not_mem_nil
    · exact @hcons .wildcard _ _ _ nofun ih h
    · exact @hcons (.literal part) _ _ _ nofun ih h

namespace RefPattern

def parse (pattern : String) : Except PatternError RefPattern :=
  if pattern = "" then .error .empty
  else if MAX_PATTERN_LENGTH < pattern.utf8ByteSize then .error .tooLong
  else if !"refs/".toList.isPrefixOf pattern.toList then .error .missingRefsPrefix
  else
    match h : parseSegments 0 (splitSlash pattern) with
    | .error e => .error e
    | .ok segments => .ok ⟨pattern, segments, parseSegments_recursive h⟩

def segmentMatches : PatternSegment → String → Bool
  | .wildcard, _ => true
  | .literal lit, seg => lit = seg
  | .recursiveWildcard, _ => false

def matchesRef (p : RefPattern) (refName : String) : Bool :=
  let refSegments := splitSlash refName
  if p.segments.getLast? = some .recursiveWildcard then
    let prefixLen := p.segments.length - 1
    if refSegments.length ≤ prefixLen then false
    else ((p.segments.take prefixLen).zip (refSegments.take prefixLen)).all
      fun (pat, seg) => segmentMatches pat seg
  else if refSegments.length ≠ p.segments.length then false
  else (p.segments.zip refSegments).all fun (pat, seg) => segmentMatches pat seg

end RefPattern

inductive UpdateKind
  | create
  | fastForward
  | nonFastForward
  | delete
  deriving DecidableEq

structure RefUpdate where
  refName : String
  kind : UpdateKind
  oldOid : String
  newOid : String

structure ProtectionRule where
  pattern : RefPattern
  pushRole : Option MemberRole
  noForcePush : Bool
  noDelete : Bool
  requirePatch : Bool

inductive RuleParseError
  | tooFewValues
  | tooManyRules
  | invalidPattern (e : PatternError)
  | invalidRole (s : String)

def stricter (existing : Option MemberRole) (role : MemberRole) : Option MemberRole :=
  match existing with
  | none => some role
  | some existing =>
    some (if existing.permissionLevel < role.permissionLevel then role else existing)

/-- The values after the pattern, one by one; rules that are not known are collected. -/
def parseRules (rule : ProtectionRule) (unknown : List String) :
    List String → Except RuleParseError (ProtectionRule × List String)
  | [] => .ok (rule, unknown)
  | value :: values =>
    if "push:".toList.isPrefixOf value.toList then
      let roleStr := String.ofList (value.toList.drop 5)
      match MemberRole.fromStr roleStr with
      | none => .error (.invalidRole roleStr)
      | some role =>
        if role = .bot ∨ role = .guest then .error (.invalidRole roleStr)
        else parseRules { rule with pushRole := stricter rule.pushRole role } unknown values
    else if value = "no-force-push" then parseRules { rule with noForcePush := true } unknown values
    else if value = "no-delete" then parseRules { rule with noDelete := true } unknown values
    else if value = "require-patch" then parseRules { rule with requirePatch := true } unknown values
    else parseRules rule (unknown ++ [value]) values

def parseProtectionTagWithWarnings : List String →
    Except RuleParseError (ProtectionRule × List String)
  | pattern :: value :: values =>
    match RefPattern.parse pattern with
    | .error e => .error (.invalidPattern e)
    | .ok p => parseRules ⟨p, none, false, false, false⟩ [] (value :: values)
  | _ => .error .tooFewValues

/-- The tags of a repository announcement: its rules, and the rules that were skipped. -/
def parseProtectionTags (rules : List ProtectionRule) (unknown : List String) :
    List (List String) → Except RuleParseError (List ProtectionRule × List String)
  | [] => .ok (rules, unknown)
  | tag :: tags =>
    if tag.head? ≠ some "buzz-protect" then parseProtectionTags rules unknown tags
    else if MAX_PROTECTION_RULES ≤ rules.length then .error .tooManyRules
    else
      match parseProtectionTagWithWarnings tag.tail with
      | .error e => .error e
      | .ok (rule, more) => parseProtectionTags (rules ++ [rule]) (unknown ++ more) tags

def defaultMinRole (refName : String) (kind : UpdateKind) : MemberRole :=
  let isBranch := "refs/heads/".toList.isPrefixOf refName.toList
  let isTag := "refs/tags/".toList.isPrefixOf refName.toList
  match kind with
  | .create => if isBranch || isTag then .member else .admin
  | .fastForward => if isBranch then .member else .admin
  | .nonFastForward => .admin
  | .delete => .admin

structure EffectiveRules where
  pushRole : Option MemberRole
  noForcePush : Bool
  noDelete : Bool
  requirePatch : Bool
  hasExplicitMatch : Bool
  deriving DecidableEq

namespace EffectiveRules

def none : EffectiveRules := ⟨.none, false, false, false, false⟩

def add (refName : String) (e : EffectiveRules) (rule : ProtectionRule) : EffectiveRules :=
  if !rule.pattern.matchesRef refName then e
  else
    { pushRole := match rule.pushRole with
        | some role => stricter e.pushRole role
        | .none => e.pushRole
      noForcePush := e.noForcePush || rule.noForcePush
      noDelete := e.noDelete || rule.noDelete
      requirePatch := e.requirePatch || rule.requirePatch
      hasExplicitMatch := true }

def forRef (refName : String) (rules : List ProtectionRule) : EffectiveRules :=
  rules.foldl (add refName) none

end EffectiveRules

structure Denial where
  refName : String
  reason : String
  deriving DecidableEq

def minRole (explicit : Option MemberRole) (default_ : MemberRole) : MemberRole :=
  match explicit with
  | some explicit =>
    if default_.permissionLevel ≤ explicit.permissionLevel then explicit else default_
  | none => default_

def evaluateRefUpdate (update : RefUpdate) (role : MemberRole) (rules : List ProtectionRule) :
    Option Denial :=
  let effective := EffectiveRules.forRef update.refName rules
  let default_ := defaultMinRole update.refName update.kind
  if !effective.hasExplicitMatch then
    if !role.hasAtLeast default_ then
      some ⟨update.refName, "requires " ++ default_.asStr ++ " role (you have " ++ role.asStr ++
        "), using built-in defaults"⟩
    else none
  else if effective.requirePatch then
    some ⟨update.refName, "direct push denied: require-patch is set, submit a NIP-34 patch"⟩
  else
    let min := minRole effective.pushRole default_
    if !role.hasAtLeast min then
      some ⟨update.refName, "requires " ++ min.asStr ++ " role (you have " ++ role.asStr ++ ")"⟩
    else if effective.noForcePush ∧ update.kind = .nonFastForward then
      some ⟨update.refName, "non-fast-forward update denied: no-force-push is set"⟩
    else if effective.noDelete ∧ update.kind = .delete then
      some ⟨update.refName, "ref deletion denied: no-delete is set"⟩
    else none

def evaluatePush (updates : List RefUpdate) (role : MemberRole) (rules : List ProtectionRule) :
    Except (List Denial) Unit :=
  let denials := updates.filterMap fun update => evaluateRefUpdate update role rules
  if denials = [] then .ok () else .error denials

end Colony.Git
