import RecordLinkage.Proofs.Sorted.Map
import Mathlib.Data.Finset.Card

namespace RecordLinkage

namespace SortedMap

variable {κ ν : Type} [SortKey κ]

theorem keys_nodup (m : SortedMap κ ν) : (keys m).Nodup := List.pairwise_map.mpr m.keys_distinct

variable [DecidableEq κ]

def domain (m : SortedMap κ ν) : Finset κ := (keys m).toFinset

@[simp] theorem mem_domain {m : SortedMap κ ν} {k : κ} :
    k ∈ domain m ↔ (get? m k).isSome = true := by
  rw [domain, List.mem_toFinset, mem_keys]

theorem card_domain (m : SortedMap κ ν) : (domain m).card = m.size := by
  rw [domain, List.toFinset_card_of_nodup (keys_nodup m), keys, List.length_map, SortedBy.size]

theorem domain_put (m : SortedMap κ ν) (k : κ) (v : ν) :
    domain (put m k v) = insert k (domain m) := by
  ext k'
  rw [mem_domain, get?_put, Finset.mem_insert, mem_domain]
  by_cases h : k = k'
  · simp [h]
  · simp [h, Ne.symm h]

end SortedMap

namespace SortedSet

variable {κ : Type} [SortKey κ] [DecidableEq κ]

def toFinset (s : SortedSet κ) : Finset κ := s.toList.toFinset

@[simp] theorem mem_toFinset {s : SortedSet κ} {a : κ} : a ∈ toFinset s ↔ a ∈ s :=
  List.mem_toFinset

theorem card_toFinset (s : SortedSet κ) : (toFinset s).card = s.size :=
  List.toFinset_card_of_nodup s.keys_distinct

theorem toFinset_union (s t : SortedSet κ) : toFinset (union s t) = toFinset s ∪ toFinset t := by
  ext a
  rw [Finset.mem_union, mem_toFinset, mem_toFinset, mem_toFinset, mem_union]

theorem toFinset_inter (s t : SortedSet κ) : toFinset (inter s t) = toFinset s ∩ toFinset t := by
  ext a
  rw [Finset.mem_inter, mem_toFinset, mem_toFinset, mem_toFinset, inter, SortedBy.mem_filter,
    contains_iff]

end SortedSet

end RecordLinkage
