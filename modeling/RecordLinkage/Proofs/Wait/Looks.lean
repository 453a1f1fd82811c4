import RecordLinkage.Progress.Wait
import Mathlib.Logic.Function.Iterate

namespace RecordLinkage

variable {σ : Type}

def Surroundings.reading (around : Surroundings σ) (s : σ) (sleeps : Nat) : Nat :=
  around.remaining (around.sleep^[sleeps] s)

namespace Wait

/-- How many readings in a row, the last one being that after `k` sleeps, showed no decrease. -/
def idle (reading : Nat → Nat) : Nat → Nat
  | 0 => 0
  | k + 1 => if reading (k + 1) < reading k then 0 else idle reading k + 1

theorem idle_succ_le (reading : Nat → Nat) (k : Nat) :
    idle reading (k + 1) ≤ idle reading k + 1 := by
  rw [idle]
  split <;> omega

def look? (around : Surroundings σ) (maxStalls : Nat) (s : σ) (k : Nat) : Option Verdict :=
  let now := around.sleep^[k] s
  let reading := around.reading s
  if reading k = 0 then some .complete
  else if maxStalls ≤ idle reading k then
    some (.stalled ⟨reading k, idle reading k, around.failed now⟩)
  else if around.cancelled now then some (.cancelled (reading k))
  else none

def EndsAfter (around : Surroundings σ) (maxStalls : Nat) (s : σ) (sleeps : Nat) (v : Verdict) :
    Prop :=
  (∀ n < sleeps, (within around maxStalls n s).1 = none) ∧
    ∀ n, sleeps ≤ n → within around maxStalls n s = (some v, around.sleep^[sleeps] s)

def Endless (around : Surroundings σ) (maxStalls : Nat) (s : σ) : Prop :=
  ∀ n, (within around maxStalls n s).1 = none

variable {around : Surroundings σ} {maxStalls : Nat} {s : σ}

theorem EndsAfter.unique {k k' : Nat} {v v' : Verdict} (h : EndsAfter around maxStalls s k v)
    (h' : EndsAfter around maxStalls s k' v') : k = k' ∧ v = v' := by
  have not_before {k k' : Nat} {v v' : Verdict} (h : EndsAfter around maxStalls s k v)
      (h' : EndsAfter around maxStalls s k' v') : k ≤ k' := by
    by_contra hlt
    have hnone := h.1 k' (by omega)
    rw [h'.2 k' (Nat.le_refl k')] at hnone
    cases hnone
  have hk := Nat.le_antisymm (not_before h h') (not_before h' h)
  subst hk
  have hv := (h.2 k (Nat.le_refl k)).symm.trans (h'.2 k (Nat.le_refl k))
  exact ⟨rfl, by cases hv; rfl⟩

/-- A wait that looks on with the figures of its last look. -/
def resume (around : Surroundings σ) (maxStalls : Nat) (s : σ) (sleeps k : Nat) :
    Option Verdict × σ :=
  poll around maxStalls sleeps (around.reading s k) (idle (around.reading s) k) (around.sleep^[k] s)

theorem look?_eq_none {k : Nat} : look? around maxStalls s k = none ↔
    around.reading s k ≠ 0 ∧ idle (around.reading s) k < maxStalls ∧
      around.cancelled (around.sleep^[k] s) = false := by
  rw [look?]
  split
  · simp_all
  · split
    · rename_i hstall
      simp [Nat.not_lt.mpr hstall]
    · split <;> simp_all

/-- Where too few readings stand still a wait ends if nothing is left or it is called off. -/
theorem resume_of_look {k : Nat} {v : Verdict} (calm : idle (around.reading s) k < maxStalls)
    (h : look? around maxStalls s k = some v) (sleeps : Nat) :
    resume around maxStalls s sleeps k = (some v, around.sleep^[k] s) := by
  rw [look?] at h
  rw [resume]
  split at h
  · rename_i hzero
    cases h
    cases sleeps <;> rw [poll, if_pos hzero]
  · rename_i hleft
    rw [if_neg (Nat.not_le.mpr calm)] at h
    split at h
    · rename_i hcancel
      cases h
      cases sleeps <;> rw [poll, if_neg hleft, if_pos hcancel]
    · cases h

theorem resume_zero {k : Nat} (h : look? around maxStalls s k = none) :
    resume around maxStalls s 0 k = (none, around.sleep^[k] s) := by
  obtain ⟨hleft, -, hcancel⟩ := look?_eq_none.mp h
  rw [resume, poll, if_neg hleft, if_neg (by simp [hcancel])]

theorem resume_succ {k : Nat} (h : look? around maxStalls s k = none) (sleeps : Nat) :
    resume around maxStalls s (sleeps + 1) k =
      match look? around maxStalls s (k + 1) with
      | some v => (some v, around.sleep^[k + 1] s)
      | none => resume around maxStalls s sleeps (k + 1) := by
  obtain ⟨hleft, -, hcancel⟩ := look?_eq_none.mp h
  rw [resume, poll, if_neg hleft, if_neg (by simp [hcancel])]
  simp only [← Function.iterate_succ_apply' around.sleep]
  -- The reading and the count that the loop goes on with are those of the next look.
  change (if around.reading s (k + 1) = 0 then _ else
    if maxStalls ≤ idle (around.reading s) (k + 1) then _
    else resume around maxStalls s sleeps (k + 1)) = _
  by_cases hzero : around.reading s (k + 1) = 0
  · rw [if_pos hzero, look?, if_pos hzero]
  · rw [if_neg hzero]
    by_cases hstall : maxStalls ≤ idle (around.reading s) (k + 1)
    · rw [if_pos hstall, look?, if_neg hzero, if_pos hstall]
      rfl
    · rw [if_neg hstall]
      cases hlook : look? around maxStalls s (k + 1) with
      | some v => exact resume_of_look (Nat.not_le.mp hstall) hlook sleeps
      | none => rfl

theorem within_eq_resume (around : Surroundings σ) (maxStalls : Nat) (s : σ) (sleeps : Nat) :
    within around maxStalls sleeps s = resume around maxStalls s sleeps 0 := rfl

/-- A wait comes as far as its looks decide nothing. -/
theorem within_of_quiet {k : Nat} (h : ∀ j ≤ k, look? around maxStalls s j = none) (sleeps : Nat) :
    within around maxStalls (sleeps + k) s = resume around maxStalls s sleeps k := by
  induction k generalizing sleeps with
  | zero => rfl
  | succ k ih =>
    rw [show sleeps + (k + 1) = sleeps + 1 + k by omega, ih fun j hj => h j (by omega),
      resume_succ (h k (by omega)), h (k + 1) (Nat.le_refl _)]

theorem within_eq_none {k : Nat} (h : ∀ j ≤ k, look? around maxStalls s j = none) :
    (within around maxStalls k s).1 = none := by
  have hfar := within_of_quiet h 0
  rw [Nat.zero_add] at hfar
  rw [hfar, resume_zero (h k (Nat.le_refl k))]

theorem endsAfter_of_first (hm : 0 < maxStalls) {k : Nat} {v : Verdict}
    (quiet : ∀ j < k, look? around maxStalls s j = none) (h : look? around maxStalls s k = some v) :
    EndsAfter around maxStalls s k v := by
  refine ⟨fun n hn => within_eq_none fun j hj => quiet j (by omega), fun n hn => ?_⟩
  cases k with
  | zero =>
    rw [within_eq_resume]
    exact resume_of_look hm h n
  | succ k =>
    obtain ⟨more, rfl⟩ := Nat.exists_eq_add_of_le hn
    rw [show k + 1 + more = more + 1 + k by omega,
      within_of_quiet (fun j hj => quiet j (by omega)), resume_succ (quiet k (by omega)), h]

theorem endless_of_quiet (h : ∀ k, look? around maxStalls s k = none) :
    Endless around maxStalls s :=
  fun _ => within_eq_none fun j _ => h j

end Wait

end RecordLinkage
