import RecordLinkage.Proofs.Sorted.Ext

namespace RecordLinkage.SortedMap

variable {κ ν μ : Type} [SortKey κ]

def mapValues (f : ν → μ) (m : SortedMap κ ν) : SortedMap κ μ :=
  ⟨m.toList.map fun p => (p.1, f p.2), List.pairwise_map.mpr m.ascending⟩

@[simp] theorem get?_mapValues (f : ν → μ) (m : SortedMap κ ν) (k : κ) :
    get? (mapValues f m) k = (get? m k).map f := by
  rw [get?, get?, SortedBy.find?, SortedBy.find?, mapValues, List.find?_map, Option.map_map,
    Option.map_map]
  rfl

@[simp] theorem size_mapValues (f : ν → μ) (m : SortedMap κ ν) : (mapValues f m).size = m.size :=
  List.length_map _

@[simp] theorem contains_mapValues (f : ν → μ) (m : SortedMap κ ν) (k : κ) :
    (mapValues f m).contains k = m.contains k := by
  rw [← get?_isSome, get?_mapValues, Option.isSome_map, get?_isSome]

variable [DecidableEq κ]

theorem mapValues_put (f : ν → μ) (m : SortedMap κ ν) (k : κ) (v : ν) :
    mapValues f (put m k v) = put (mapValues f m) k (f v) := by
  apply ext_get?
  intro j
  rw [get?_mapValues, get?_put, get?_put, get?_mapValues]
  split <;> rfl

theorem mapValues_erase (f : ν → μ) (m : SortedMap κ ν) (k : κ) :
    mapValues f (m.erase k) = (mapValues f m).erase k := by
  apply ext_get?
  intro j
  rw [get?_mapValues, get?_erase, get?_erase, get?_mapValues]
  split <;> rfl

end RecordLinkage.SortedMap
