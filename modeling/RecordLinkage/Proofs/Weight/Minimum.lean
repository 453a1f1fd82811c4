import RecordLinkage.Proofs.Weight.Ranks
import Mathlib.Data.Set.Image
import Mathlib.Order.Bounds.Basic

namespace RecordLinkage.Binary64

variable {x y v w : Binary64}

theorem isFinite_eq_false (hw : w.isNaN = true ∨ w = infinity) : w.isFinite = false := by
  rcases hw with hnan | rfl
  · apply eq_false_of_ne_true
    intro hfinite
    rw [isNaN_of_isFinite hfinite] at hnan
    cases hnan
  · decide

theorem lt_iff_signedUnits (hx : x.isFinite = true) (hy : y.isFinite = true) :
    lt x y = true ↔ x.signedUnits < y.signedUnits := by
  have hstrict {m n : Nat} (hn : n ≤ infinityMagnitude) (h : m < n) : unitsOf m < unitsOf n := by
    refine lt_of_le_of_ne (unitsOf_mono h.le hn) fun heq => h.ne ?_
    rw [← nearest_unitsOf_le (h.le.trans hn), heq, nearest_unitsOf_le hn]
  have hiff {m n : Nat} (hm : m ≤ infinityMagnitude) (hn : n ≤ infinityMagnitude) :
      m < n ↔ unitsOf m < unitsOf n :=
    ⟨hstrict hn, fun h => Nat.lt_of_not_le fun hle => absurd (unitsOf_mono hle hm) (by omega)⟩
  have hzero : unitsOf 0 = 0 := by decide
  simp only [isFinite, decide_eq_true_eq] at hx hy
  have hxy := hiff hx.le hy.le
  have hyx := hiff hy.le hx.le
  have hx0 := hiff (Nat.zero_le _) hx.le
  have hy0 := hiff (Nat.zero_le _) hy.le
  rw [hzero] at hx0 hy0
  have hnan : x.isNaN = false ∧ y.isNaN = false := by
    simp only [isNaN, decide_eq_false_iff_not]
    omega
  rw [lt_iff, numericKey, numericKey, signedUnits, signedUnits, units, units]
  simp only [hnan, true_and]
  cases x.negative <;> cases y.negative <;> simp only [if_true, Bool.false_eq_true, if_false] <;>
    omega

def numbers (ws : Set Binary64) : Set ℤ := signedUnits '' {w | w ∈ ws ∧ w.isFinite = true}

theorem numbers_union (ws ws' : Set Binary64) : numbers (ws ∪ ws') = numbers ws ∪ numbers ws' := by
  rw [numbers, numbers, numbers, ← Set.image_union]
  congr 1
  ext w
  exact or_and_right

/-- The minimum, as a number, of those weights that are finite, if there is one. -/
def IsMinimum (ws : Set Binary64) : Option Binary64 → Prop
  | none => numbers ws = ∅
  | some v => v.isFinite = true ∧ IsLeast (numbers ws) v.signedUnits

theorem isMinimum_singleton (hw : w.isFinite = true) : IsMinimum {w} (some w) := by
  refine ⟨hw, ⟨w, ⟨rfl, hw⟩, rfl⟩, ?_⟩
  rintro _ ⟨_, ⟨rfl, -⟩, rfl⟩
  exact le_rfl

/-- Weights without a number among them change nothing. -/
theorem IsMinimum.union_left {ws ws' : Set Binary64} {m : Option Binary64} (hm : IsMinimum ws m)
    (h : numbers ws' = ∅) : IsMinimum (ws ∪ ws') m := by
  have hnumbers : numbers (ws ∪ ws') = numbers ws := by rw [numbers_union, h, Set.union_empty]
  cases m with
  | none => exact hnumbers.trans hm
  | some v =>
    refine ⟨hm.1, ?_⟩
    rw [hnumbers]
    exact hm.2

theorem numbers_of_not_finite (hw : w.isFinite = false) : numbers {w} = ∅ := by
  rw [numbers, Set.image_eq_empty, Set.eq_empty_iff_forall_notMem]
  rintro _ ⟨rfl, h⟩
  rw [hw] at h
  cases h

end RecordLinkage.Binary64
