import RecordLinkage.Proofs.Sorted.Find

namespace RecordLinkage

namespace SortedMap

variable {κ ν : Type} [SortKey κ]

theorem get?_eq_some_iff {m : SortedMap κ ν} {k : κ} {v : ν} : get? m k = some v ↔ (k, v) ∈ m := by
  rw [get?, Option.map_eq_some_iff]
  constructor
  · rintro ⟨⟨k', v'⟩, h, rfl⟩
    obtain ⟨hm, hk⟩ := SortedBy.find?_eq_some_iff.mp h
    exact hk ▸ hm
  · intro h
    exact ⟨(k, v), SortedBy.find?_eq_some_iff.mpr ⟨h, rfl⟩, rfl⟩

/-- The entries of a map are what it gives for their keys. -/
theorem mem_toList {m : SortedMap κ ν} {p : κ × ν} : p ∈ m.toList ↔ get? m p.1 = some p.2 :=
  get?_eq_some_iff.symm

@[simp] theorem get?_put_self (m : SortedMap κ ν) (k : κ) (v : ν) : get? (put m k v) k = some v := by
  rw [get?, put, SortedBy.find?_insert_self m (k, v)]
  rfl

theorem get?_put_of_ne {m : SortedMap κ ν} {k k' : κ} (v : ν) (h : k ≠ k') :
    get? (put m k v) k' = get? m k' := by
  rw [get?, put, SortedBy.find?_insert_of_ne h]
  rfl

theorem get?_put [DecidableEq κ] (m : SortedMap κ ν) (k k' : κ) (v : ν) :
    get? (put m k v) k' = if k = k' then some v else get? m k' := by
  split
  · rename_i h
    rw [h, get?_put_self]
  · rename_i h
    exact get?_put_of_ne v h

@[simp] theorem get?_erase_self (m : SortedMap κ ν) (k : κ) : get? (m.erase k) k = none := by
  rw [get?, SortedBy.find?_erase_self]
  rfl

theorem get?_erase_of_ne {m : SortedMap κ ν} {k k' : κ} (h : k ≠ k') :
    get? (m.erase k) k' = get? m k' := by
  rw [get?, SortedBy.find?_erase_of_ne h]
  rfl

theorem get?_erase [DecidableEq κ] (m : SortedMap κ ν) (k k' : κ) :
    get? (m.erase k) k' = if k = k' then none else get? m k' := by
  split
  · rename_i h
    rw [h, get?_erase_self]
  · rename_i h
    exact get?_erase_of_ne h

theorem get?_alter_self (m : SortedMap κ ν) (k : κ) (f : Option ν → Option ν) :
    get? (alter m k f) k = f (get? m k) := by
  rw [alter]
  split
  · rename_i v h
    rw [get?_put_self, h]
  · rename_i h
    rw [get?_erase_self, h]

theorem get?_alter_of_ne {m : SortedMap κ ν} {k k' : κ} (f : Option ν → Option ν) (h : k ≠ k') :
    get? (alter m k f) k' = get? m k' := by
  rw [alter]
  split
  · exact get?_put_of_ne _ h
  · exact get?_erase_of_ne h

theorem get?_isSome (m : SortedMap κ ν) (k : κ) : (get? m k).isSome = m.contains k := by
  rw [get?, Option.isSome_map, SortedBy.contains]

theorem mem_keys {m : SortedMap κ ν} {k : κ} : k ∈ keys m ↔ (get? m k).isSome = true := by
  rw [Option.isSome_iff_exists, keys, List.mem_map]
  constructor
  · rintro ⟨⟨k', v⟩, h, rfl⟩
    exact ⟨v, get?_eq_some_iff.mpr h⟩
  · rintro ⟨v, h⟩
    exact ⟨(k, v), get?_eq_some_iff.mp h, rfl⟩

theorem get?_ofList_eq_some {l : List (κ × ν)} {k : κ} {v : ν}
    (h : l.Pairwise fun p q => p.1 ≠ q.1) :
    get? (.ofList l : SortedMap κ ν) k = some v ↔ (k, v) ∈ l := by
  rw [get?_eq_some_iff, SortedBy.mem_ofList h]

/-- A map made by giving a value to some members of a set. -/
theorem get?_ofList_toList (m : SortedMap κ ν) (k : κ) :
    get? (.ofList m.toList : SortedMap κ ν) k = get? m k := by
  apply Option.ext
  intro v
  rw [get?_ofList_eq_some m.keys_distinct, mem_toList]

theorem get?_ofList_filterMap (s : SortedSet κ) (f : κ → Option ν) (k : κ) [Decidable (k ∈ s)] :
    get? (.ofList (s.toList.filterMap fun u => (f u).map fun v => (u, v)) : SortedMap κ ν) k =
      if k ∈ s then f k else none := by
  have hd : (s.toList.filterMap fun u => (f u).map fun v => (u, v)).Pairwise
      fun p q => p.1 ≠ q.1 := by
    apply List.Pairwise.filterMap _ _ s.keys_distinct
    intro a b hab p hp q hq
    obtain ⟨v, -, rfl⟩ := Option.map_eq_some_iff.mp hp
    obtain ⟨w, -, rfl⟩ := Option.map_eq_some_iff.mp hq
    exact hab
  apply Option.ext
  intro v
  rw [get?_ofList_eq_some hd, List.mem_filterMap]
  constructor
  · rintro ⟨u, hu, h⟩
    obtain ⟨w, hw, e⟩ := Option.map_eq_some_iff.mp h
    cases e
    have hk : k ∈ s := hu
    rw [if_pos hk, hw]
  · intro h
    split at h
    · rename_i hk
      exact ⟨k, hk, by rw [h]; rfl⟩
    · cases h

end SortedMap

namespace SortedSet

variable {κ : Type} [SortKey κ]

theorem contains_iff {s : SortedSet κ} {a : κ} : s.contains a = true ↔ a ∈ s := by
  rw [SortedBy.contains_iff]
  constructor
  · rintro ⟨b, hb, rfl⟩
    exact hb
  · exact fun h => ⟨a, h, rfl⟩

theorem mem_insert {s : SortedSet κ} {a x : κ} : x ∈ s.insert a ↔ x = a ∨ x ∈ s := by
  rw [SortedBy.mem_insert]
  constructor
  · rintro (h | ⟨h, -⟩)
    · exact .inl h
    · exact .inr h
  · rintro (h | h)
    · exact .inl h
    · rcases Classical.em (x = a) with e | e
      · exact .inl e
      · exact .inr ⟨h, e⟩

theorem mem_erase {s : SortedSet κ} {a x : κ} : x ∈ s.erase a ↔ x ∈ s ∧ x ≠ a := SortedBy.mem_erase

theorem mem_insertAll {s : SortedSet κ} {l : List κ} {x : κ} : x ∈ s.insertAll l ↔ x ∈ l ∨ x ∈ s := by
  induction l generalizing s with
  | nil => simp [SortedBy.insertAll]
  | cons b l ih =>
    change x ∈ (s.insert b).insertAll l ↔ _
    rw [ih, mem_insert, List.mem_cons, or_left_comm, or_assoc]

@[simp] theorem mem_ofList {l : List κ} {x : κ} : x ∈ (.ofList l : SortedSet κ) ↔ x ∈ l := by
  rw [SortedBy.ofList, mem_insertAll]
  exact or_iff_left (SortedBy.not_mem_empty x)

@[simp] theorem mem_union {s t : SortedSet κ} {x : κ} : x ∈ union s t ↔ x ∈ s ∨ x ∈ t := by
  rw [union, mem_insertAll, SortedBy.mem_def, SortedBy.mem_def, or_comm]

end SortedSet

end RecordLinkage
