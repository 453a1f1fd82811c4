import RecordLinkage.Proofs.Weight.Binary64

namespace RecordLinkage

namespace Binary64

variable {x y p q w : Binary64}

/-- Weights that are stored lie from zero up to, but not at, infinity. -/
theorem storable_iff_numericKey : Weight.storable x = true ↔
    0 ≤ x.numericKey ∧ x.numericKey < infinityMagnitude := by
  have hinfinity : infinityMagnitude = 0x7ff0000000000000 := rfl
  rw [storable_iff, numericKey]
  split
  · rename_i hneg
    simp only [hneg, forall_const]
    omega
  · rename_i hneg
    simp only [hneg, Bool.false_eq_true, false_implies, and_true]
    omega

theorem storable_add_iff (hx : Weight.storable x = true) (hy : Weight.storable y = true) :
    Weight.storable (add x y) = true ↔ (add x y).isInfinite = false := by
  have hinfinity : infinityMagnitude = 0x7ff0000000000000 := rfl
  have hkey := (add_of_storable hx hy).2
  have hle := nearest_le (x.units + y.units)
  rw [storable_iff_numericKey, isInfinite, decide_eq_false_iff_not]
  rw [numericKey] at hkey ⊢
  split at hkey
  · rename_i hneg
    rw [if_pos hneg]
    omega
  · rename_i hneg
    rw [if_neg hneg]
    omega

theorem numericKey_add_nonneg (hx : Weight.storable x = true) (hy : Weight.storable y = true) :
    0 ≤ (add x y).numericKey := by
  rw [(add_of_storable hx hy).2]
  omega

/-- What is not above a stored weight is stored, if it is not negative. -/
theorem storable_of_le (hp : Weight.storable p = true) (h0 : 0 ≤ x.numericKey)
    (hle : x.numericKey ≤ p.numericKey) : Weight.storable x = true := by
  have hkey := (storable_iff_numericKey.mp hp).2
  exact storable_iff_numericKey.mpr ⟨h0, by omega⟩

/-- The lesser of a stored weight and a sum is stored, even if the sum is infinite. -/
theorem storable_min_add (hp : Weight.storable p = true) (hx : Weight.storable x = true)
    (hy : Weight.storable y = true) : Weight.storable (Weight.min p (add x y)) = true ∧
      Weight.storable (Weight.min (add x y) p) = true := by
  have nadd : Weight.Number (add x y) := LawfulWeight.number_add x y hx hy
  have np := Weight.number_of_storable hp
  have hsum := numericKey_add_nonneg hx hy
  rw [LawfulWeight.min_eq _ _ np nadd, LawfulWeight.min_eq _ _ nadd np]
  constructor
  · split
    · rename_i hlt
      have hkey := (lt_iff.mp hlt).2.2
      exact storable_of_le hp hsum (by omega)
    · exact hp
  · split
    · exact hp
    · rename_i hlt
      exact storable_of_le hp hsum (numericKey_of_le (number_iff.mp nadd) (number_iff.mp np)
        (eq_false_of_ne_true hlt))

theorem add_le_add {x' y' : Binary64} (hx : Weight.storable x = true)
    (hy : Weight.storable y = true) (hx' : Weight.storable x' = true)
    (hy' : Weight.storable y' = true) (hxx : Weight.le x x') (hyy : Weight.le y y') :
    (add x y).numericKey ≤ (add x' y').numericKey := by
  rw [(add_of_storable hx hy).2, (add_of_storable hx' hy').2]
  exact Int.ofNat_le.mpr (nearest_mono (Nat.add_le_add (units_le hx hx' hxx) (units_le hy hy' hyy)))

theorem max_add_of_infinite (hp : Weight.storable p = true) (hx : Weight.storable x = true)
    (hy : Weight.storable y = true) (h : (add x y).isInfinite = true) :
    Weight.max p (add x y) = add x y ∧ Weight.max (add x y) p = add x y := by
  have nadd : Weight.Number (add x y) := LawfulWeight.number_add x y hx hy
  have np := Weight.number_of_storable hp
  have hkey := (storable_iff_numericKey.mp hp).2
  have hsum := numericKey_add_nonneg hx hy
  have hnot : ¬ Weight.storable (add x y) = true := by
    rw [storable_add_iff hx hy, h]
    decide
  rw [storable_iff_numericKey] at hnot
  have hlt : Weight.lt p (add x y) = true :=
    lt_iff.mpr ⟨number_iff.mp np, number_iff.mp nadd, by omega⟩
  rw [LawfulWeight.max_eq _ _ np nadd, if_pos hlt, LawfulWeight.max_eq _ _ nadd np,
    LawfulWeight.lt_asymm _ _ hlt]
  exact ⟨rfl, rfl⟩

end Binary64

open Binary64

variable {a b : Option Binary64} {p w x : Binary64}

/-- A vertex that touches both parts of a union is linked to it at a weight that is stored. -/
theorem storable_linkage_both {p q : Binary64} (hp : Weight.storable p = true)
    (hq : Weight.storable q = true) (hw : Weight.storable w = true) :
    ∃ x, linkage (some p) (some q) w = some x ∧ Weight.storable x = true :=
  ⟨_, rfl, Weight.storable_max (storable_min_add hp hq hw).1 (storable_min_add hq hp hw).2⟩

/-- A vertex that touches one part is linked to the union at a weight that is stored, unless the sum
is infinite. -/
theorem linkage_one (hp : Weight.storable p = true) (hw : Weight.storable w = true)
    (hone : a = some p ∧ b = none ∨ a = none ∧ b = some p) (hx : linkage a b w = some x) :
    Weight.storable x = true ∧ (add p w).isInfinite = false ∨
      x = add p w ∧ (add p w).isInfinite = true := by
  have hx' : x = Weight.max p (add p w) ∨ x = Weight.max (add p w) p := by
    rcases hone with ⟨rfl, rfl⟩ | ⟨rfl, rfl⟩ <;> cases hx
    · exact .inl rfl
    · exact .inr rfl
  cases hinfinite : (add p w).isInfinite with
  | true =>
    obtain ⟨hleft, hright⟩ := max_add_of_infinite hp hp hw hinfinite
    right
    rcases hx' with rfl | rfl
    · exact ⟨hleft, rfl⟩
    · exact ⟨hright, rfl⟩
  | false =>
    have hadd := (storable_add_iff hp hw).mpr hinfinite
    left
    rcases hx' with rfl | rfl
    · exact ⟨Weight.storable_max hp hadd, rfl⟩
    · exact ⟨Weight.storable_max hadd hp, rfl⟩

/-- If a bound on the distances and one on the weight of the link have a finite sum, the sum is a
bound on the distances to the union. -/
theorem linkage_le {c t : Binary64} (hw : Weight.storable w = true) (hwt : Weight.le w t)
    (ht : Weight.storable t = true) (hc : Weight.storable c = true)
    (ha : ∀ p, a = some p → Weight.storable p = true ∧ Weight.le p c)
    (hb : ∀ p, b = some p → Weight.storable p = true ∧ Weight.le p c)
    (hx : linkage a b w = some x) : Weight.le x (add c t) := by
  -- Rounding keeps the order, so every sum in the linkage is below the sum of the bounds.
  have hsum (p : Binary64) (hp : Weight.storable p = true ∧ Weight.le p c) :
      Weight.Number p ∧ Weight.Number (add p w) ∧ Weight.le p (add c t) ∧
        Weight.le (add p w) (add c t) := by
    have hcover := le_of_numericKey (add_le_add hp.1 hw hc ht hp.2 hwt)
    have hnumber : Weight.Number (add p w) := LawfulWeight.number_add p w hp.1 hw
    exact ⟨Weight.number_of_storable hp.1, hnumber,
      Weight.le_trans hnumber (LawfulWeight.le_add p w hp.1 hw) hcover, hcover⟩
  cases a with
  | none =>
    cases b with
    | none => cases hx
    | some q =>
      obtain ⟨nq, nqw, hq, hqw⟩ := hsum q (hb q rfl)
      cases hx
      exact Weight.max_le nqw nq hqw hq
  | some p =>
    obtain ⟨np, npw, hp, hpw⟩ := hsum p (ha p rfl)
    cases b with
    | none =>
      cases hx
      exact Weight.max_le np npw hp hpw
    | some q =>
      obtain ⟨nq, nqw, hq, -⟩ := hsum q (hb q rfl)
      cases hx
      apply Weight.max_le (Weight.number_min np nqw) (Weight.number_min npw nq)
      · exact Weight.le_trans np (Weight.min_le_left np nqw) hp
      · exact Weight.le_trans nq (Weight.min_le_right npw nq) hq

end RecordLinkage
