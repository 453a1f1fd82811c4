import RecordLinkage.Proofs.Weight.Laws
import Mathlib.Tactic.Ring

namespace RecordLinkage

namespace Binary64

/-- The significand that a count of units rounds to, in steps of `2 ^ s` units. -/
def significand (n s : Nat) : Nat :=
  if 2 ^ s < 2 * (n % 2 ^ s) ∨ (2 ^ s = 2 * (n % 2 ^ s) ∧ n / 2 ^ s % 2 = 1) then n / 2 ^ s + 1
  else n / 2 ^ s

theorem nearest_one (n : Nat) :
    nearest n 1 = Min.min ((n.log2 - 52) * binade + significand n (n.log2 - 52)) infinityMagnitude := by
  simp only [nearest, significand, Nat.div_one, Nat.one_mul, Nat.pow_eq]

theorem le_significand (n s : Nat) : n / 2 ^ s ≤ significand n s := by
  unfold significand
  split <;> omega

theorem significand_le (n s : Nat) : significand n s ≤ n / 2 ^ s + 1 := by
  unfold significand
  split <;> omega

theorem significand_mono {n m : Nat} (s : Nat) (h : n ≤ m) : significand n s ≤ significand m s := by
  have hdiv : n / 2 ^ s ≤ m / 2 ^ s := Nat.div_le_div_right h
  by_cases hlow : n / 2 ^ s = m / 2 ^ s
  -- Within one step the remainders decide, and they are in order, too.
  · have hmod : n % 2 ^ s ≤ m % 2 ^ s := by
      have hn := Nat.div_add_mod n (2 ^ s)
      have hm := Nat.div_add_mod m (2 ^ s)
      rw [hlow] at hn
      omega
    unfold significand
    rw [hlow]
    split <;> split <;> omega
  · have hlow' := le_significand m s
    have hhigh := significand_le n s
    omega

/-- What is rounded in steps larger than one unit fills a binade. -/
theorem significand_bounds {n s : Nat} (hs : s = n.log2 - 52) (hpos : 0 < s) :
    binade ≤ significand n s ∧ significand n s ≤ 2 * binade := by
  have hn : n ≠ 0 := by
    intro hn
    subst hn
    simp at hs
    omega
  have hlog : n.log2 = 52 + s := by omega
  have hlow : binade * 2 ^ s ≤ n := by
    have h := Nat.log2_self_le hn
    rw [hlog, pow_add] at h
    exact h
  have hhigh : n < 2 * binade * 2 ^ s := by
    have h := Nat.lt_log2_self (n := n)
    rw [hlog] at h
    calc n < 2 ^ (52 + s + 1) := h
      _ = 2 * binade * 2 ^ s := by
        rw [pow_succ, pow_add, binade]
        ring
  have hstep : 0 < 2 ^ s := Nat.two_pow_pos s
  constructor
  · exact (Nat.le_div_iff_mul_le hstep).mpr hlow |>.trans (le_significand n s)
  · have hdiv : n / 2 ^ s < 2 * binade := (Nat.div_lt_iff_lt_mul hstep).mpr hhigh
    have hup := significand_le n s
    omega

theorem nearest_mono {n m : Nat} (h : n ≤ m) : nearest n 1 ≤ nearest m 1 := by
  rw [nearest_one, nearest_one]
  have hshift : n.log2 - 52 ≤ m.log2 - 52 := by
    have hlog : n.log2 ≤ m.log2 := by
      by_cases hn : n = 0
      · simp [hn]
      · have hm : m ≠ 0 := by omega
        exact (Nat.le_log2 hm).mpr ((Nat.log2_self_le hn).trans h)
    omega
  have hvalue : (n.log2 - 52) * binade + significand n (n.log2 - 52) ≤
      (m.log2 - 52) * binade + significand m (m.log2 - 52) := by
    -- Within one step size the significands compare.
    by_cases hs : n.log2 - 52 = m.log2 - 52
    · rw [hs]
      have hmono := significand_mono (m.log2 - 52) h
      omega
    · -- The larger number lies in a higher binade.
      have hm := (significand_bounds (n := m) rfl (by omega)).1
      have hn : significand n (n.log2 - 52) ≤ 2 * binade := by
        by_cases hpos : 0 < n.log2 - 52
        · exact (significand_bounds rfl hpos).2
        · have hzero : n.log2 - 52 = 0 := by omega
          have hsmall : n < 2 ^ (52 + 1) := by
            have hlt := Nat.lt_log2_self (n := n)
            exact hlt.trans_le (Nat.pow_le_pow_right (by omega) (by omega))
          have hup := significand_le n 0
          rw [pow_zero, Nat.div_one] at hup
          rw [hzero, binade]
          omega
      have hmul : (n.log2 - 52 + 1) * binade ≤ (m.log2 - 52) * binade :=
        Nat.mul_le_mul_right binade (by omega)
      rw [Nat.add_mul] at hmul
      omega
  omega

/-- A finite number needs no rounding. -/
theorem nearest_unitsOf {m : Nat} (h : m < infinityMagnitude) : nearest (unitsOf m) 1 = m := by
  rw [nearest_one]
  have hexact (low s : Nat) : significand (low * 2 ^ s) s = low := by
    have hstep : 0 < 2 ^ s := Nat.two_pow_pos s
    rw [significand, Nat.mul_mod_left, Nat.mul_div_cancel _ hstep]
    rw [if_neg (by omega)]
  unfold unitsOf
  split
  · rename_i hm
    -- Below the first full binade a step is one unit.
    have hlog : m.log2 - 52 = 0 := by
      by_cases hzero : m = 0
      · simp [hzero]
      · have hlt : m.log2 < 52 := (Nat.log2_lt hzero).mpr hm
        omega
    have hlow := hexact m 0
    rw [pow_zero, Nat.mul_one] at hlow
    rw [hlog, hlow]
    omega
  · rename_i hm
    rw [Nat.pow_eq]
    have hdiv : 1 ≤ m / binade := (Nat.one_le_div_iff (by decide)).mpr (by omega)
    have hmod : m % binade < binade := Nat.mod_lt m (by decide)
    -- In a higher binade the step is the scale of the binade itself.
    have hlog : ((binade + m % binade) * 2 ^ (m / binade - 1)).log2 - 52 = m / binade - 1 := by
      have hstep : 0 < 2 ^ (m / binade - 1) := Nat.two_pow_pos _
      have hlow : 2 ^ 52 * 2 ^ (m / binade - 1) ≤ (binade + m % binade) * 2 ^ (m / binade - 1) :=
        Nat.mul_le_mul_right _ (by rw [binade]; omega)
      have hhigh : (binade + m % binade) * 2 ^ (m / binade - 1) < 2 ^ 53 * 2 ^ (m / binade - 1) :=
        Nat.mul_lt_mul_of_pos_right (by rw [binade] at hmod ⊢; omega) hstep
      rw [← pow_add] at hlow hhigh
      have hbit : ((binade + m % binade) * 2 ^ (m / binade - 1)).log2 = 52 + (m / binade - 1) := by
        have hpos : 0 < 2 ^ (52 + (m / binade - 1)) := Nat.two_pow_pos _
        apply (Nat.log2_eq_iff (by omega)).mpr
        refine ⟨hlow, hhigh.trans_le (Nat.pow_le_pow_right (by omega) (by omega))⟩
      omega
    rw [hlog, hexact]
    have hm := Nat.div_add_mod m binade
    have hmul : (m / binade - 1) * binade + binade = binade * (m / binade) := by
      rw [Nat.mul_comm binade, ← Nat.succ_mul]
      congr 1
      omega
    omega

end Binary64

end RecordLinkage
