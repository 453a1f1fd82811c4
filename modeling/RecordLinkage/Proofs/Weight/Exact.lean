import RecordLinkage.Proofs.Weight.Laws
import Mathlib.Data.NNReal.Defs

namespace RecordLinkage

open scoped NNReal

/-- Weights that are read as exact numbers: nothing is rounded. -/
class ExactWeight (ω : Type) [Weight ω] where
  value : ω → ℝ≥0
  value_add : ∀ a b : ω, value (Weight.add a b) = value a + value b
  value_min : ∀ a b : ω, value (Weight.min a b) = min (value a) (value b)
  value_max : ∀ a b : ω, value (Weight.max a b) = max (value a) (value b)

instance : SortKey ℚ≥0 := ⟨inferInstance, inferInstance⟩

instance : Weight ℚ≥0 where
  zero := 0
  add a b := a + b
  min a b := min a b
  max a b := max a b
  lt a b := decide (a < b)
  finite _ := true
  text a := toString a.val

noncomputable instance : ExactWeight ℚ≥0 where
  value a := a
  value_add := NNRat.cast_add
  value_min := NNRat.cast_min
  value_max := NNRat.cast_max

variable {ω : Type} [Weight ω]

variable [ExactWeight ω] {a b : Option ω} {w x p : ω} {s s' slack : ℝ≥0} {lengths lengths' : Set ℝ≥0}

open ExactWeight

/-- The union is at most the cost of the joining link farther away than either part. -/
theorem value_linkage_le (hx : linkage a b w = some x) (hp : a = some p ∨ b = some p) :
    value x ≤ value p + value w := by
  cases a <;> cases b <;> simp only [linkage, Option.some.injEq, reduceCtorEq, or_false, false_or]
    at hx hp
  · subst hx hp
    simp [value_add, value_max]
  · subst hx hp
    simp [value_add, value_max]
  · rcases hp with rfl | rfl <;> subst hx <;> simp [value_add, value_min, value_max]

/-- The union is not nearer than the nearer part. -/
theorem le_value_linkage (hx : linkage a b w = some x) :
    ∃ p, (a = some p ∨ b = some p) ∧ value p ≤ value x := by
  cases a <;> cases b <;> simp only [linkage, Option.some.injEq, reduceCtorEq] at hx
  · rename_i q
    exact ⟨q, .inr rfl, by simp [← hx, value_max]⟩
  · rename_i p
    exact ⟨p, .inl rfl, by simp [← hx, value_max]⟩
  · rename_i p q
    rcases le_total (value p) (value q) with hpq | hqp
    · refine ⟨p, .inl rfl, ?_⟩
      have hdetour : value p ≤ value q + value w := hpq.trans le_self_add
      simp [← hx, value_add, value_min, value_max, hdetour]
    · refine ⟨q, .inr rfl, ?_⟩
      have hdetour : value q ≤ value p + value w := hqp.trans le_self_add
      simp [← hx, value_add, value_min, value_max, hdetour]

/-- A weight stands for some lengths: there is one just when there are lengths, and it is not below
the least of them, nor above it by more than a slack. -/
def Estimates (lengths : Set ℝ≥0) (slack : ℝ≥0) (a : Option ω) : Prop :=
  (a.isSome = true ↔ lengths.Nonempty) ∧
    ∀ w, a = some w → ∃ d, IsLeast lengths d ∧ d ≤ value w ∧ value w ≤ d + slack

namespace Estimates

theorem exists_isLeast (h : Estimates lengths slack a) (hne : lengths.Nonempty) :
    ∃ d, IsLeast lengths d := by
  obtain ⟨w, hw⟩ := Option.isSome_iff_exists.mp (h.1.mpr hne)
  obtain ⟨d, hd, -⟩ := h.2 w hw
  exact ⟨d, hd⟩

/-- A length is reached within the slack of the weight that stands for it. -/
theorem le_add (h : Estimates lengths slack a) {d : ℝ≥0} (hd : d ∈ lengths) :
    ∃ p, a = some p ∧ value p ≤ d + slack := by
  obtain ⟨p, hp⟩ := Option.isSome_iff_exists.mp (h.1.mpr ⟨d, hd⟩)
  obtain ⟨least, hleast, -, hle⟩ := h.2 p hp
  exact ⟨p, hp, hle.trans (add_le_add_left (hleast.2 hd) slack)⟩

theorem exists_le (h : Estimates lengths slack (some p)) : ∃ d ∈ lengths, d ≤ value p := by
  obtain ⟨d, hd, hle, -⟩ := h.2 p rfl
  exact ⟨d, hd.1, hle⟩

theorem linkage (ha : Estimates lengths s a) (hb : Estimates lengths' s' b)
    (hs : s + value w ≤ slack) (hs' : s' + value w ≤ slack) :
    Estimates (lengths ∪ lengths') slack (linkage a b w) := by
  constructor
  · rw [isSome_linkage, Set.union_nonempty, ha.1, hb.1]
  intro x hx
  have hleast : ∃ d, IsLeast (lengths ∪ lengths') d := by
    have hsome : (RecordLinkage.linkage a b w).isSome = true := by rw [hx]; rfl
    rw [isSome_linkage, ha.1, hb.1] at hsome
    by_cases hl : lengths.Nonempty
    · obtain ⟨d, hd⟩ := ha.exists_isLeast hl
      by_cases hl' : lengths'.Nonempty
      · obtain ⟨d', hd'⟩ := hb.exists_isLeast hl'
        exact ⟨min d d', hd.union hd'⟩
      · rw [Set.not_nonempty_iff_eq_empty.mp hl', Set.union_empty]
        exact ⟨d, hd⟩
    · rw [Set.not_nonempty_iff_eq_empty.mp hl, Set.empty_union]
      exact hb.exists_isLeast (hsome.resolve_left hl)
  obtain ⟨d, hd⟩ := hleast
  refine ⟨d, hd, ?_, ?_⟩
  · obtain ⟨p, hp, hle⟩ := le_value_linkage hx
    rcases hp with rfl | rfl
    · obtain ⟨d', hd', hle'⟩ := ha.exists_le
      exact (hd.2 (.inl hd')).trans (hle'.trans hle)
    · obtain ⟨d', hd', hle'⟩ := hb.exists_le
      exact (hd.2 (.inr hd')).trans (hle'.trans hle)
  -- The least length belongs to one part, and from that part the detour over the link is enough.
  · rcases hd.1 with hmem | hmem
    · obtain ⟨p, hp, hle⟩ := ha.le_add hmem
      calc value x ≤ value p + value w := value_linkage_le hx (.inl hp)
        _ ≤ d + s + value w := add_le_add_left hle _
        _ = d + (s + value w) := add_assoc d s _
        _ ≤ d + slack := add_le_add_right hs d
    · obtain ⟨p, hp, hle⟩ := hb.le_add hmem
      calc value x ≤ value p + value w := value_linkage_le hx (.inr hp)
        _ ≤ d + s' + value w := add_le_add_left hle _
        _ = d + (s' + value w) := add_assoc d s' _
        _ ≤ d + slack := add_le_add_right hs' d

end Estimates

end RecordLinkage
