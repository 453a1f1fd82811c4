import RecordLinkage.Proofs.Weight.Detour
import RecordLinkage.Proofs.Weight.Exact
import Mathlib.Data.ENNReal.Operations

namespace RecordLinkage

open scoped NNReal ENNReal

/-- Exact distances, where what is missing is infinitely far away. -/
noncomputable instance : Detour ℝ≥0∞ where
  plus a w := a + w
  le_plus _ _ := le_self_add
  plus_mono w _ _ h := add_le_add_left h w
  plus_bot := add_zero
  lt_plus a w hzero htop hle := by
    rcases eq_or_ne a ⊤ with rfl | ha
    · rw [top_add]
      exact lt_top_iff_ne_top.mpr htop
    · exact hle.trans_lt (ENNReal.lt_add_right ha hzero)

namespace Linkage

/-- The way to the union from the first part, as the rule of linkage states it: where the first part
is not touched it leads through the second. -/
noncomputable def fromFirst (a b w : ℝ≥0∞) : ℝ≥0∞ :=
  if a = ⊤ then b + w else if b = ⊤ then a else min a (b + w)

noncomputable def fromSecond (a b w : ℝ≥0∞) : ℝ≥0∞ :=
  if a = ⊤ then b else if b = ⊤ then a + w else min (a + w) b

/-- Read with infinity for what is missing, the three cases of the rule are one. -/
theorem max_eq_joined (a b w : ℝ≥0∞) :
    max (fromFirst a b w) (fromSecond a b w) = Detour.joined a b w := by
  by_cases ha : a = ⊤
  · rw [fromFirst, fromSecond, if_pos ha, if_pos ha, ha, Detour.top_joined]
    exact max_eq_left le_self_add
  · rw [fromFirst, fromSecond, if_neg ha, if_neg ha]
    by_cases hb : b = ⊤
    · rw [if_pos hb, if_pos hb, hb, Detour.joined_top]
      exact max_eq_right le_self_add
    · rw [if_neg hb, if_neg hb]
      rfl

variable {ω : Type} [Weight ω] [ExactWeight ω]

open ExactWeight

noncomputable def reach : Option ω → ℝ≥0∞
  | some w => value w
  | none => ⊤

theorem reach_linkage (a b : Option ω) (w : ω) :
    reach (linkage a b w) = Detour.joined (reach a) (reach b) (value w) := by
  cases a with
  | none =>
    rw [show reach (none : Option ω) = ⊤ from rfl, Detour.top_joined]
    cases b with
    | none => exact (top_add _).symm
    | some q =>
      show (value (Weight.max (Weight.add q w) q) : ℝ≥0∞) = value q + value w
      rw [value_max, value_add, max_eq_left le_self_add, ENNReal.coe_add]
  | some p =>
    cases b with
    | none =>
      show (value (Weight.max p (Weight.add p w)) : ℝ≥0∞) = Detour.joined _ ⊤ _
      rw [Detour.joined_top, value_max, value_add, max_eq_right le_self_add]
      exact ENNReal.coe_add _ _
    | some q =>
      show (value (Weight.max (Weight.min p (Weight.add q w)) (Weight.min (Weight.add p w) q)) :
        ℝ≥0∞) = _
      rw [value_max, value_min, value_min, value_add, value_add, ENNReal.coe_max, ENNReal.coe_min,
        ENNReal.coe_min, ENNReal.coe_add, ENNReal.coe_add]
      rfl

theorem joined_mono {a a' b b' w w' : ℝ≥0∞} (ha : a ≤ a') (hb : b ≤ b') (hw : w ≤ w') :
    Detour.joined a b w ≤ Detour.joined a' b' w' := by
  rw [Detour.joined_eq, Detour.joined_eq]
  exact min_le_min (add_le_add (min_le_min ha hb) hw) (max_le_max ha hb)

end Linkage

open Linkage

/-- The rule of linkage on exact weights, with infinity for a part that is not touched: the nearer
part and the cost of joining, cut off at the farther part. -/
theorem linkage_closed_form {ω : Type} [Weight ω] [ExactWeight ω] (a b : Option ω) (w : ω) :
    (linkage a b w = none ↔ a = none ∧ b = none) ∧
    reach (linkage a b w) =
      min (min (reach a) (reach b) + ExactWeight.value w) (max (reach a) (reach b)) ∧
    reach (linkage a b w) = reach (linkage b a w) ∧
    (∀ (a' b' : Option ω) (w' : ω), reach a ≤ reach a' → reach b ≤ reach b' →
      ExactWeight.value w ≤ ExactWeight.value w' →
      reach (linkage a b w) ≤ reach (linkage a' b' w')) ∧
    min (reach a) (reach b) ≤ reach (linkage a b w) ∧
    reach (linkage a b w) ≤ min (reach a) (reach b) + ExactWeight.value w ∧
    (∀ p q, a = some p → b = some q → ∃ x, linkage a b w = some x ∧
      ExactWeight.value x ≤ max (ExactWeight.value p) (ExactWeight.value q)) ∧
    reach (linkage a b w) =
      max (fromFirst (reach a) (reach b) (ExactWeight.value w))
        (fromSecond (reach a) (reach b) (ExactWeight.value w)) := by
  -- All other laws are read off the closed form or off the order of detours.
  have hclosed := Detour.joined_eq (reach a) (reach b) (ExactWeight.value w : ℝ≥0∞)
  rw [← reach_linkage] at hclosed
  refine ⟨?_, hclosed, ?_, ?_, ?_, ?_, ?_, ?_⟩
  · cases a <;> cases b <;> simp [linkage]
  · rw [reach_linkage, reach_linkage, Detour.joined_comm]
  · intro a' b' w' ha hb hw
    rw [reach_linkage, reach_linkage]
    exact joined_mono ha hb (ENNReal.coe_le_coe.mpr hw)
  · rw [reach_linkage]
    exact Detour.le_joined (min_le_left _ _) (min_le_right _ _)
  · rw [hclosed]
    exact min_le_left _ _
  · rintro p q rfl rfl
    obtain ⟨x, hx⟩ : ∃ x, linkage (some p) (some q) w = some x := ⟨_, rfl⟩
    rw [hx] at hclosed
    refine ⟨x, hx, ENNReal.coe_le_coe.mp ?_⟩
    rw [ENNReal.coe_max]
    exact hclosed.trans_le (min_le_right _ _)
  · rw [max_eq_joined, reach_linkage]

/-- Losing sight of one part and joining at a higher cost moves the union away. -/
theorem linkage_mono_over_missing :
    reach (some (1 / 5 : ℚ≥0)) ≤ reach (none : Option ℚ≥0) ∧
    linkage (some (1 / 5)) (some (3 / 10)) (1 / 20 : ℚ≥0) = some (1 / 4) ∧
    linkage none (some (3 / 10)) (1 / 10 : ℚ≥0) = some (2 / 5) ∧
    reach (linkage (some (1 / 5)) (some (3 / 10)) (1 / 20 : ℚ≥0)) ≤
      reach (linkage none (some (3 / 10)) (1 / 10 : ℚ≥0)) := by
  have hcost : ExactWeight.value (1 / 20 : ℚ≥0) ≤ ExactWeight.value (1 / 10 : ℚ≥0) :=
    NNRat.cast_le.mpr (by decide +kernel)
  refine ⟨le_top, by decide +kernel, by decide +kernel, ?_⟩
  exact (linkage_closed_form _ _ _).2.2.2.1 _ _ _ le_top le_rfl hcost

end RecordLinkage
