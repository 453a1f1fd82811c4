import RecordLinkage.Proofs.Weight.Rounding

namespace RecordLinkage

namespace Binary64

variable {x y z : Binary64}

theorem lt_iff : lt x y = true ↔
    x.isNaN = false ∧ y.isNaN = false ∧ x.numericKey < y.numericKey := by
  simp [lt, and_assoc]

theorem isNaN_of_isFinite (h : x.isFinite = true) : x.isNaN = false := by
  simp only [isFinite, isNaN, decide_eq_true_eq, decide_eq_false_iff_not] at h ⊢
  omega

/-- Infinity is above all that is finite, and zero is below infinity. -/
theorem number_iff : Weight.Number x ↔ x.isNaN = false := by
  constructor
  · intro h
    obtain ⟨v, h | h⟩ := h
    · exact (lt_iff.mp h).1
    · exact (lt_iff.mp h).2.1
  · intro h
    by_cases hx : x.numericKey < infinityMagnitude
    · refine ⟨infinity, .inl (lt_iff.mpr ⟨h, by decide, ?_⟩)⟩
      have hkey : infinity.numericKey = infinityMagnitude := by decide
      rw [hkey]
      exact hx
    · refine ⟨zero, .inr (lt_iff.mpr ⟨by decide, h, ?_⟩)⟩
      have hkey : zero.numericKey = 0 := by decide
      have hinfinity : infinityMagnitude = 0x7ff0000000000000 := rfl
      omega

theorem compare_eq_totalKey (x y : Binary64) : compare x y = compare x.totalKey y.totalKey := rfl

theorem compare_of_lt (h : lt x y = true) : compare x y = .lt := by
  obtain ⟨-, -, hkey⟩ := lt_iff.mp h
  rw [compare_eq_totalKey]
  show compareOfLessAndEq _ _ = _
  rw [compareOfLessAndEq, if_pos]
  simp only [numericKey, totalKey] at hkey ⊢
  split at hkey <;> split at hkey <;> simp_all <;> omega

/-- Weights that are stored are counts of units: a negative zero counts nothing. -/
theorem storable_iff : Weight.storable x = true ↔
    x.magnitude < infinityMagnitude ∧ (x.negative = true → x.magnitude = 0) := by
  have hfinite : Weight.finite x = x.isFinite := rfl
  have hlt : Weight.lt x Weight.zero = lt x zero := rfl
  rw [Weight.storable, hfinite, hlt, Bool.and_eq_true, isFinite, decide_eq_true_eq]
  apply and_congr_right
  intro hmagnitude
  have hx : x.isNaN = false := isNaN_of_isFinite (by rw [isFinite, decide_eq_true_eq]; exact hmagnitude)
  have hkey : zero.numericKey = 0 := by decide
  rw [Bool.not_eq_true', ← Bool.not_eq_true, lt_iff, hkey, numericKey]
  simp only [hx, true_and, show zero.isNaN = false from by decide]
  split <;> rename_i hneg
  · simp only [hneg, forall_const]
    omega
  · simp only [hneg, Bool.false_eq_true, false_implies, iff_true]
    omega

theorem isNaN_of_storable (h : Weight.storable x = true) : x.isNaN = false := by
  obtain ⟨hmagnitude, -⟩ := storable_iff.mp h
  simp only [isNaN, decide_eq_false_iff_not]
  omega

theorem numericKey_of_storable (h : Weight.storable x = true) :
    x.numericKey = nearest x.units 1 := by
  obtain ⟨hmagnitude, hneg⟩ := storable_iff.mp h
  rw [units, nearest_unitsOf hmagnitude, numericKey]
  split
  · rename_i hx
    rw [hneg hx]
    rfl
  · rfl

theorem signedUnits_of_storable (h : Weight.storable x = true) : x.signedUnits = x.units := by
  obtain ⟨-, hneg⟩ := storable_iff.mp h
  rw [signedUnits]
  split
  · rename_i hx
    rw [units, hneg hx]
    rfl
  · rfl

theorem magnitude_ofMagnitude {b : Bool} {m : Nat} (hm : m ≤ infinityMagnitude) :
    (ofMagnitude b m).magnitude = m := by
  have hinfinity : infinityMagnitude = 0x7ff0000000000000 := rfl
  simp only [ofMagnitude, magnitude, BitVec.toNat_ofNat]
  split <;> omega

theorem numericKey_ofMagnitude {m : Nat} (hm : m ≤ infinityMagnitude) :
    (ofMagnitude false m).numericKey = m := by
  have hinfinity : infinityMagnitude = 0x7ff0000000000000 := rfl
  have hpositive : (ofMagnitude false m).negative = false := by
    simp only [ofMagnitude, negative, BitVec.toNat_ofNat, decide_eq_false_iff_not]
    rw [if_neg (by decide)]
    omega
  rw [numericKey, hpositive, if_neg (by decide), magnitude_ofMagnitude hm]

theorem nearest_le (n : Nat) : nearest n 1 ≤ infinityMagnitude := by
  rw [nearest_one]
  exact Nat.min_le_right _ _

/-- Stored weights are added as counts of units, and the sum is rounded. -/
theorem add_of_storable (hx : Weight.storable x = true) (hy : Weight.storable y = true) :
    (add x y).isNaN = false ∧ (add x y).numericKey = nearest (x.units + y.units) 1 := by
  have hfinite (z : Binary64) (hz : Weight.storable z = true) : z.isInfinite = false := by
    obtain ⟨hmagnitude, -⟩ := storable_iff.mp hz
    simp only [isInfinite, decide_eq_false_iff_not]
    omega
  have hnumber (b : Bool) (m : Nat) (hm : m ≤ infinityMagnitude) :
      (ofMagnitude b m).isNaN = false := by
    rw [isNaN, magnitude_ofMagnitude hm, decide_eq_false_iff_not]
    omega
  have hsum : add x y =
      ofUnits (x.negative && y.negative) ((x.units + y.units : Nat) : Int) := by
    rw [add, isNaN_of_storable hx, isNaN_of_storable hy, hfinite x hx, hfinite y hy,
      signedUnits_of_storable hx, signedUnits_of_storable hy]
    simp
  rw [hsum, ofUnits]
  split
  · rename_i hzero
    have hunits : x.units + y.units = 0 := by omega
    rw [hunits]
    refine ⟨hnumber _ 0 (by decide), ?_⟩
    have hnearest : nearest 0 1 = 0 := by decide
    rw [hnearest, numericKey, magnitude_ofMagnitude (by decide)]
    split <;> rfl
  · have hpositive : decide (((x.units + y.units : Nat) : Int) < 0) = false := by
      rw [decide_eq_false_iff_not]
      omega
    rw [hpositive, Int.natAbs_natCast]
    exact ⟨hnumber _ _ (nearest_le _), numericKey_ofMagnitude (nearest_le _)⟩

theorem le_of_numericKey (h : x.numericKey ≤ y.numericKey) : Weight.le x y := by
  rw [Weight.le]
  apply eq_false_of_ne_true
  intro hlt
  have hkey := (lt_iff.mp hlt).2.2
  omega

theorem numericKey_of_le (hx : x.isNaN = false) (hy : y.isNaN = false) (h : Weight.le x y) :
    x.numericKey ≤ y.numericKey := by
  apply Int.not_lt.mp
  intro hkey
  have hlt : lt y x = true := lt_iff.mpr ⟨hy, hx, hkey⟩
  rw [Weight.le] at h
  exact absurd (h.symm.trans hlt) (by decide)

/-- Rounding does not confuse stored weights, so their order is that of their units. -/
theorem units_le (hx : Weight.storable x = true) (hy : Weight.storable y = true)
    (h : Weight.le x y) : x.units ≤ y.units := by
  have hkey := numericKey_of_le (isNaN_of_storable hx) (isNaN_of_storable hy) h
  rw [numericKey_of_storable hx, numericKey_of_storable hy] at hkey
  apply Nat.le_of_not_lt
  intro hlt
  have hmono := nearest_mono (Nat.le_of_lt hlt)
  have hround (z : Binary64) (hz : Weight.storable z = true) : nearest z.units 1 = z.magnitude :=
    nearest_unitsOf (storable_iff.mp hz).1
  rw [hround x hx, hround y hy] at hkey hmono
  -- Rounding gives both their own magnitudes back.
  have hsame : x.magnitude = y.magnitude := by omega
  rw [units, units, hsame] at hlt
  omega

instance : LawfulWeight Binary64 where
  lt_asymm a b h := by
    apply eq_false_of_ne_true
    intro h'
    have hab := (lt_iff.mp h).2.2
    have hba := (lt_iff.mp h').2.2
    omega
  lt_cotrans a b c hb h := by
    obtain ⟨ha, hc, hac⟩ := lt_iff.mp h
    have hb := number_iff.mp hb
    by_cases hab : a.numericKey < b.numericKey
    · exact .inl (lt_iff.mpr ⟨ha, hb, hab⟩)
    · exact .inr (lt_iff.mpr ⟨hb, hc, by omega⟩)
  compare_of_lt a b h := compare_of_lt h
  number_of_finite w h := number_iff.mpr (isNaN_of_isFinite h)
  number_add a b ha hb := number_iff.mpr (add_of_storable ha hb).1
  le_add a b ha hb := by
    apply le_of_numericKey
    rw [numericKey_of_storable ha]
    show _ ≤ (add a b).numericKey
    rw [(add_of_storable ha hb).2]
    exact Int.ofNat_le.mpr (nearest_mono (Nat.le_add_right _ _))
  min_eq a b ha hb := by
    show Binary64.min a b = _
    rw [Binary64.min, number_iff.mp ha, if_neg (by decide)]
    rfl
  max_eq a b ha hb := by
    show Binary64.max a b = _
    rw [Binary64.max, number_iff.mp ha, if_neg (by decide)]
    rfl

end Binary64

end RecordLinkage
