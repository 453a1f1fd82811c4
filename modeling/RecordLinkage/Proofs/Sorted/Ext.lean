import RecordLinkage.Proofs.Sorted.Map
import Mathlib.Data.List.Induction
import Mathlib.Data.List.Perm.Basic

namespace RecordLinkage

/-- Elements determine the list that they are kept in. -/
theorem SortedBy.ext_mem {α κ : Type} [SortKey κ] {key : α → κ} {s t : SortedBy key}
    (h : ∀ a, a ∈ s ↔ a ∈ t) : s = t := by
  have hnodup (s : SortedBy key) : s.toList.Nodup :=
    s.ascending.imp fun hlt heq => SortKey.ne_of_lt hlt (congrArg key heq)
  have hperm : s.toList.Perm t.toList := (List.perm_ext_iff_of_nodup (hnodup s) (hnodup t)).mpr h
  have hlist : s.toList = t.toList := by
    refine List.Perm.eq_of_pairwise ?_ s.ascending t.ascending hperm
    intro a b _ _ hab hba
    exact absurd hba (by rw [SortKey.lt_asymm hab]; decide)
  obtain ⟨l, hl⟩ := s
  obtain ⟨l', hl'⟩ := t
  cases hlist
  rfl

@[simp] theorem SortedBy.ofList_toList {α κ : Type} [SortKey κ] {key : α → κ} (s : SortedBy key) :
    ofList s.toList = s :=
  ext_mem fun _ => mem_ofList s.keys_distinct

namespace SortedMap

variable {κ ν : Type} [SortKey κ]

/-- What a map gives for its keys determines it. -/
theorem ext_get? {m m' : SortedMap κ ν} (h : ∀ k, get? m k = get? m' k) : m = m' := by
  apply SortedBy.ext_mem
  intro a
  rw [SortedBy.mem_def, SortedBy.mem_def, mem_toList, mem_toList, h]

variable [DecidableEq κ]

theorem put_put (m : SortedMap κ ν) (k : κ) (v v' : ν) : put (put m k v) k v' = put m k v' := by
  apply ext_get?
  intro k'
  simp only [get?_put]
  split <;> rfl

theorem put_comm (m : SortedMap κ ν) {k k' : κ} (v v' : ν) (h : k ≠ k') :
    put (put m k v) k' v' = put (put m k' v') k v := by
  apply ext_get?
  intro j
  simp only [get?_put]
  split
  · rename_i hj
    subst hj
    rw [if_neg h]
  · rfl

theorem get?_alter (m : SortedMap κ ν) (k k' : κ) (f : Option ν → Option ν) :
    get? (alter m k f) k' = if k = k' then f (get? m k) else get? m k' := by
  split
  · rename_i h
    rw [← h, get?_alter_self]
  · rename_i h
    exact get?_alter_of_ne f h

/-- Of the values listed for a key the last one stays. -/
theorem get?_ofList (l : List (κ × ν)) (k : κ) :
    get? (.ofList l : SortedMap κ ν) k = l.reverse.lookup k := by
  induction l using List.reverseRecOn with
  | nil => rfl
  | append_singleton l p ih =>
    have hput : (.ofList (l ++ [p]) : SortedMap κ ν) = put (.ofList l) p.1 p.2 :=
      List.foldl_concat ..
    rw [hput, get?_put, ih, List.reverse_append, List.reverse_singleton,
      List.singleton_append, List.lookup_cons]
    by_cases h : p.1 = k
    · simp [h]
    · rw [if_neg h, beq_false_of_ne (Ne.symm h)]

end SortedMap

end RecordLinkage
