import RecordLinkage.Text.Hex
import RecordLinkage.Uuid.Basic

namespace RecordLinkage.Uuid

def hyphenate (h : List Char) : List Char :=
  h.take 8 ++ '-' :: (h.drop 8).take 4 ++ '-' :: (h.drop 12).take 4 ++ '-' :: (h.drop 16).take 4 ++
    '-' :: h.drop 20

def unhyphenate? (cs : List Char) : Option (List Char) :=
  if cs.length = 36 ∧ cs[8]? = some '-' ∧ cs[13]? = some '-' ∧ cs[18]? = some '-' ∧
      cs[23]? = some '-' then
    some (cs.take 8 ++ (cs.drop 9).take 4 ++ (cs.drop 14).take 4 ++ (cs.drop 19).take 4 ++
      cs.drop 24)
  else none

def chars (u : Uuid) : List Char := hyphenate (Hex.digits 32 u.bits.toNat)

def text (u : Uuid) : String := String.ofList u.chars

def ofPlain? (cs : List Char) : Option Uuid :=
  if cs.length = 32 then (Hex.number? 16 cs).map fun n => ⟨BitVec.ofNat 128 n⟩ else none

def ofHyphenated? (cs : List Char) : Option Uuid := (unhyphenate? cs).bind ofPlain?

/-- Every accepted spelling: plain digits, the hyphenated form, that form in braces, and that form
after `urn:uuid:` in letters of either case. -/
def ofChars? (cs : List Char) : Option Uuid :=
  if cs.length = 32 then ofPlain? cs
  else if cs.length = 38 ∧ cs.head? = some '{' ∧ cs.getLast? = some '}' then
    ofHyphenated? (cs.drop 1).dropLast
  else if (cs.take 9).map Char.toLower = ['u', 'r', 'n', ':', 'u', 'u', 'i', 'd', ':'] then
    ofHyphenated? (cs.drop 9)
  else ofHyphenated? cs

def ofText? (s : String) : Option Uuid := ofChars? s.toList

end RecordLinkage.Uuid
