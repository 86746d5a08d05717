import Colony.Defs.Data.Dict

namespace Colony.Core

open Colony.Data

def hexDigits (count n : Nat) : List Char :=
  (List.range count).reverse.map fun i => Nat.digitChar (n / 16 ^ i % 16)

structure Uuid where
  bits : BitVec 128
  deriving DecidableEq

def Uuid.toText (u : Uuid) : String :=
  let h := hexDigits 32 u.bits.toNat
  String.ofList (h.take 8 ++ ['-'] ++ (h.drop 8).take 4 ++ ['-'] ++ (h.drop 12).take 4 ++
    ['-'] ++ (h.drop 16).take 4 ++ ['-'] ++ h.drop 20)

abbrev CommunityId := Uuid

structure EventId where
  bits : BitVec 256
  deriving DecidableEq

def EventId.toHex (id : EventId) : String := String.ofList (hexDigits 64 id.bits.toNat)

structure PublicKey where
  bits : BitVec 256
  deriving DecidableEq

abbrev Kind := UInt16

structure Tag where
  kind : String
  values : List String
  deriving DecidableEq

def Tag.content (t : Tag) : Option String := t.values.head?

structure Event where
  id : EventId
  pubkey : PublicKey
  createdAt : Nat
  kind : Kind
  tags : List Tag
  content : String
  deriving DecidableEq

structure StoredEvent where
  event : Event
  channelId : Option Uuid
  deriving DecidableEq

structure SingleLetterTag where
  character : Fin 26
  uppercase : Bool
  deriving DecidableEq

def SingleLetterTag.toText (t : SingleLetterTag) : String :=
  String.ofList [Char.ofNat ((if t.uppercase then 65 else 97) + t.character)]

structure Filter where
  ids : Option (List EventId)
  authors : Option (List PublicKey)
  kinds : Option (List Kind)
  since : Option Nat
  «until» : Option Nat
  genericTags : Dict SingleLetterTag (List String)

def pTag : SingleLetterTag := ⟨15, false⟩

@[simp] theorem toText_pTag : pTag.toText = "p" := by decide

end Colony.Core
