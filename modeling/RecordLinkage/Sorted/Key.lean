namespace RecordLinkage

/-- A type whose `compare` is a total order that agrees with equality. -/
class SortKey (κ : Type) extends Ord κ where
  trans : Std.TransOrd κ
  lawful : Std.LawfulEqOrd κ

namespace SortKey

instance {κ : Type} [k : SortKey κ] : Std.TransOrd κ := k.trans

instance {κ : Type} [k : SortKey κ] : Std.LawfulEqOrd κ := k.lawful

instance : SortKey Nat := ⟨inferInstance, inferInstance⟩

instance : SortKey Int := ⟨inferInstance, inferInstance⟩

instance : SortKey String := ⟨inferInstance, inferInstance⟩

instance {n : Nat} : SortKey (BitVec n) := ⟨inferInstance, inferInstance⟩

@[reducible] def byKey {α κ : Type} [SortKey κ] (key : α → κ)
    (injective : ∀ a b, key a = key b → a = b) : SortKey α where
  compare a b := compare (key a) (key b)
  trans :=
    { eq_swap := fun {a b} => @Std.OrientedCmp.eq_swap κ compare _ (key a) (key b)
      isLE_trans := fun {a b c} => @Std.TransCmp.isLE_trans κ compare _ (key a) (key b) (key c) }
  lawful :=
    { compare_self := fun {a} => @Std.ReflCmp.compare_self κ compare _ (key a)
      eq_of_compare := fun h => injective _ _ (Std.compare_eq_iff_eq.mp h) }

instance {α β : Type} [SortKey α] [SortKey β] : SortKey (α × β) where
  compare := compareLex (compareOn Prod.fst) (compareOn Prod.snd)
  trans := inferInstanceAs (Std.TransCmp (compareLex (compareOn Prod.fst) (compareOn Prod.snd)))
  lawful :=
    { compare_self := by simp [compareLex, compareOn, Std.compare_self]
      eq_of_compare := by
        intro a b h
        simp only [compareLex, compareOn, Ordering.then_eq_eq, Std.compare_eq_iff_eq] at h
        exact Prod.ext h.1 h.2 }

variable {κ : Type} [SortKey κ] {a b c : κ}

theorem compare_eq_eq : compare a b = .eq ↔ a = b := Std.compare_eq_iff_eq

theorem lt_trans (h : compare a b = .lt) (h' : compare b c = .lt) : compare a c = .lt :=
  Std.TransCmp.lt_trans h h'

theorem lt_asymm (h : compare a b = .lt) : compare b a = .gt := Std.OrientedCmp.gt_of_lt h

theorem lt_of_gt (h : compare a b = .gt) : compare b a = .lt := Std.OrientedCmp.lt_of_gt h

theorem lt_irrefl : compare a a ≠ .lt := by simp [Std.compare_self]

theorem ne_of_lt (h : compare a b = .lt) : a ≠ b := fun e => lt_irrefl (e ▸ h)

end SortKey

end RecordLinkage
