import RecordLinkage.Sorted.List

namespace RecordLinkage

abbrev SortedMap (κ ν : Type) [SortKey κ] := SortedBy (Prod.fst : κ × ν → κ)

abbrev SortedSet (κ : Type) [SortKey κ] := SortedBy (id : κ → κ)

namespace SortedMap

variable {κ ν : Type} [SortKey κ]

def get? (m : SortedMap κ ν) (k : κ) : Option ν := (m.find? k).map Prod.snd

def put (m : SortedMap κ ν) (k : κ) (v : ν) : SortedMap κ ν := m.insert (k, v)

/-- The value at `k` is replaced by `f` of it; `none` stands for an absent key on both sides. -/
def alter (m : SortedMap κ ν) (k : κ) (f : Option ν → Option ν) : SortedMap κ ν :=
  match f (m.get? k) with
  | some v => m.put k v
  | none => m.erase k

def keys (m : SortedMap κ ν) : List κ := m.toList.map Prod.fst

end SortedMap

namespace SortedSet

variable {κ : Type} [SortKey κ]

def union (s t : SortedSet κ) : SortedSet κ := s.insertAll t.toList

def inter (s t : SortedSet κ) : SortedSet κ := s.filter t.contains

def diff (s t : SortedSet κ) : SortedSet κ := s.filter fun a => !t.contains a

end SortedSet

end RecordLinkage
