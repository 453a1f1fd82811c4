import RecordLinkage.Proofs.Wait.Stalls

namespace RecordLinkage.Wait

variable {σ : Type} {around : Surroundings σ} {s : σ} {m j k : Nat} {v : Verdict}

/-- The first look that finds a wait called off is the one after `j` sleeps: it was called off in
the `j`-th sleep, or before the wait if `j` is zero. -/
def CalledOff (around : Surroundings σ) (s : σ) (j : Nat) : Prop :=
  IsLeast {k | around.cancelled (around.sleep^[k] s) = true} j

def Undisturbed (around : Surroundings σ) (s : σ) (k : Nat) : Prop :=
  ∀ j < k, around.cancelled (around.sleep^[j] s) = false

theorem calledOff_iff : CalledOff around s j ↔
    around.cancelled (around.sleep^[j] s) = true ∧ Undisturbed around s j := by
  apply and_congr_right
  intro _
  constructor
  · intro hleast k hk
    apply eq_false_of_ne_true
    intro hset
    exact Nat.not_le_of_lt hk (hleast hset)
  · intro hquiet k hset
    apply Nat.le_of_not_lt
    intro hk
    exact Bool.false_ne_true ((hquiet k hk).symm.trans hset)

/-- Before a look that decides there was no zero, no standstill, and no call to give up. -/
theorem quiet_iff : (∀ j < k, look? around m s j = none) ↔
    Undecided (around.reading s) m k ∧ Undisturbed around s k := by
  rw [Undecided, Undisturbed, ← forall₂_and]
  exact forall₂_congr fun j _ => by rw [look?_eq_none, idle_lt_iff, and_assoc]

theorem lasts_iff (hm : 0 < m) : (∀ n < k, (within around m n s).1 = none) ↔
    ∀ j < k, look? around m s j = none := by
  constructor
  · intro hlasts j hj
    by_contra hsome
    obtain ⟨i, hi, hdecides, hfirst⟩ := exists_isLeast (p := fun i => look? around m s i ≠ none) hsome
    obtain ⟨v, hv⟩ := Option.ne_none_iff_exists'.mp hdecides
    have hends : EndsAfter around m s i v := by
      apply endsAfter_of_first hm _ hv
      intro i' hi'
      by_contra hearly
      exact Nat.not_le_of_lt hi' (hfirst hearly)
    have hnone := hlasts i (by omega)
    simp [hends.2 i (Nat.le_refl i)] at hnone
  · intro hquiet n hn
    exact within_eq_none fun j hj => hquiet j (by omega)

theorem endsAfter_iff (hm : 0 < m) : EndsAfter around m s k v ↔
    (Undecided (around.reading s) m k ∧ Undisturbed around s k) ∧ look? around m s k = some v := by
  rw [← quiet_iff, ← lasts_iff hm]
  constructor
  · intro h
    have hquiet := (lasts_iff hm).mp h.1
    refine ⟨h.1, ?_⟩
    cases hlook : look? around m s k with
    | none =>
      have hlater : ∀ j ≤ k, look? around m s j = none := by
        intro j hj
        rcases Nat.lt_or_eq_of_le hj with hj | rfl
        · exact hquiet j hj
        · exact hlook
      have hnone := within_eq_none hlater
      simp [h.2 k (Nat.le_refl k)] at hnone
    | some v' => rw [(h.unique (endsAfter_of_first hm hquiet hlook)).2]
  · rintro ⟨hlasts, hlook⟩
    exact endsAfter_of_first hm ((lasts_iff hm).mp hlasts) hlook

theorem endsAfter_complete_iff_undisturbed (hm : 0 < m) : EndsAfter around m s k .complete ↔
    CompletesAt (around.reading s) m k ∧ Undisturbed around s k := by
  have hlook : look? around m s k = some .complete ↔ around.reading s k = 0 := by
    rw [look?]
    split_ifs with hzero <;> simp [hzero]
  rw [endsAfter_iff hm, completesAt_iff hm, hlook, and_comm, ← and_assoc]

theorem endsAfter_stalled_iff (hm : 0 < m) {stall : Stall} :
    EndsAfter around m s k (.stalled stall) ↔
      StallsAt (around.reading s) m k ∧ Undisturbed around s k ∧
        stall = ⟨around.reading s k, m, around.failed (around.sleep^[k] s)⟩ := by
  have hlook : look? around m s k = some (.stalled stall) ↔
      (around.reading s k ≠ 0 ∧ Stuck (around.reading s) m k) ∧
        stall = ⟨around.reading s k, idle (around.reading s) k,
          around.failed (around.sleep^[k] s)⟩ := by
    rw [look?, ← le_idle_iff]
    split_ifs with hzero hstuck
    · simp [hzero]
    · simp [hzero, hstuck, eq_comm]
    · simp [hstuck]
    · simp [hstuck]
  rw [endsAfter_iff hm, hlook, stallsAt_iff]
  -- The standstill is the first one, so its count is the limit.
  constructor
  · rintro ⟨⟨hundecided, hquiet⟩, ⟨hleft, hstuck⟩, rfl⟩
    rw [idle_eq_of_first hm hstuck fun j hj => (hundecided j hj).2]
    exact ⟨⟨hstuck, hleft, hundecided⟩, hquiet, rfl⟩
  · rintro ⟨⟨hstuck, hleft, hundecided⟩, hquiet, rfl⟩
    rw [idle_eq_of_first hm hstuck fun j hj => (hundecided j hj).2]
    exact ⟨⟨hundecided, hquiet⟩, ⟨hleft, hstuck⟩, rfl⟩

theorem undecided_succ {reading : Nat → Nat} :
    Undecided reading m (k + 1) ↔ Undecided reading m k ∧ reading k ≠ 0 ∧ ¬ Stuck reading m k :=
  Nat.forall_lt_succ_right

/-- A look minds a call to give up only where it finds neither zero nor a standstill. -/
theorem endsAfter_cancelled_iff (hm : 0 < m) {left : Nat} :
    EndsAfter around m s k (.cancelled left) ↔
      CalledOff around s k ∧ Undecided (around.reading s) m (k + 1) ∧
        left = around.reading s k := by
  have hlook : look? around m s k = some (.cancelled left) ↔
      (around.reading s k ≠ 0 ∧ ¬ Stuck (around.reading s) m k) ∧
        around.cancelled (around.sleep^[k] s) = true ∧ left = around.reading s k := by
    rw [look?, ← le_idle_iff]
    split_ifs with hzero hstuck hcancel
    · simp [hzero]
    · simp [hstuck]
    · simp [hzero, hstuck, hcancel, eq_comm]
    · simp [hcancel]
  rw [endsAfter_iff hm, hlook, calledOff_iff, undecided_succ]
  constructor
  · rintro ⟨⟨hundecided, hquiet⟩, hopen, hset, hleft⟩
    exact ⟨⟨hset, hquiet⟩, ⟨hundecided, hopen⟩, hleft⟩
  · rintro ⟨⟨hset, hquiet⟩, ⟨hundecided, hopen⟩, hleft⟩
    exact ⟨⟨hundecided, hquiet⟩, hopen, hset, hleft⟩

/-- A wait that is called off in a sleep that it reaches ends after that sleep, unless nothing is
left: as cancelled, but if the look after the sleep completes a standstill of `m` readings it ends as
stalled, for the look finds that first. Called off before its first look a wait does not sleep. In
general zero is looked for before a standstill, and a standstill before a call to give up, and the
first look that finds one of them ends the wait. -/
theorem cancellation_yields_to_zero_and_standstill (around : Surroundings σ) (s : σ) {m : Nat}
    (hm : 0 < m) :
    let reading := around.reading s
    let stall (k : Nat) : Stall := ⟨reading k, m, around.failed (around.sleep^[k] s)⟩
    (∀ j, CalledOff around s j → (∀ n < j, (within around m n s).1 = none) → reading j ≠ 0 →
      (¬ Stuck reading m j → EndsAfter around m s j (.cancelled (reading j))) ∧
        (Stuck reading m j → EndsAfter around m s j (.stalled (stall j)))) ∧
    (around.cancelled s = true → reading 0 ≠ 0 →
      EndsAfter around m s 0 (.cancelled (reading 0))) ∧
    (∀ k, EndsAfter around m s k .complete ↔
      CompletesAt reading m k ∧ Undisturbed around s k) ∧
    (∀ k stalled, EndsAfter around m s k (.stalled stalled) ↔
      StallsAt reading m k ∧ Undisturbed around s k ∧ stalled = stall k) ∧
    ∀ k left, EndsAfter around m s k (.cancelled left) ↔
      CalledOff around s k ∧ Undecided reading m (k + 1) ∧ left = reading k := by
  intro reading stall
  refine ⟨?_, ?_, fun k => endsAfter_complete_iff_undisturbed hm,
    fun k stalled => endsAfter_stalled_iff hm, fun k left => endsAfter_cancelled_iff hm⟩
  · intro j hcalled hlasts hleft
    obtain ⟨hundecided, hquiet⟩ := quiet_iff.mp ((lasts_iff hm).mp hlasts)
    constructor
    · intro hmoves
      exact (endsAfter_cancelled_iff hm).mpr
        ⟨hcalled, undecided_succ.mpr ⟨hundecided, hleft, hmoves⟩, rfl⟩
    · intro hstuck
      exact (endsAfter_stalled_iff hm).mpr
        ⟨stallsAt_iff.mpr ⟨hstuck, hleft, hundecided⟩, hquiet, rfl⟩
  -- No sleep comes before the first look, so nothing can stand still.
  · intro hset hleft
    have hcalled : CalledOff around s 0 := ⟨hset, fun _ _ => Nat.zero_le _⟩
    have hmoves : ¬ Stuck reading m 0 := fun hstuck => absurd hstuck.1 (by omega)
    exact (endsAfter_cancelled_iff hm).mpr
      ⟨hcalled, undecided_succ.mpr ⟨fun j hj => by omega, hleft, hmoves⟩, rfl⟩

def lateCancel : Scripted Countdown :=
  ⟨.start 3, [[.complete 1], [.fail "late"], [.cancel]], 0, false⟩

theorem lateCancel_calledOff : CalledOff Countdown.around lateCancel 3 :=
  calledOff_iff.mpr ⟨by decide, by unfold Undisturbed; decide⟩

theorem lateCancel_heeded : 0 < 3 ∧ CalledOff Countdown.around lateCancel 3 ∧
    EndsAfter Countdown.around 3 lateCancel 3 (.cancelled 2) := by
  have hends := (cancellation_yields_to_zero_and_standstill Countdown.around lateCancel
    (m := 3) (by decide)).1 3 lateCancel_calledOff (by decide) (by decide)
  exact ⟨by decide, lateCancel_calledOff, hends.1 (by decide)⟩

/-- A wait that bears one look without progress less ends in the same sleep, and does not tell that
it was called off. -/
theorem lateCancel_unheeded : 0 < 2 ∧ CalledOff Countdown.around lateCancel 3 ∧
    (∀ n < 3, (within Countdown.around 2 n lateCancel).1 = none) ∧
    Countdown.around.reading lateCancel 3 ≠ 0 ∧
    EndsAfter Countdown.around 2 lateCancel 3 (.stalled ⟨2, 2, 1⟩) ∧
    ¬ EndsAfter Countdown.around 2 lateCancel 3 (.cancelled 2) := by
  have hstalls : StallsAt (Countdown.around.reading lateCancel) 2 3 :=
    stallsAt_iff.mpr ⟨by decide, by decide, by unfold Undecided; decide⟩
  have hends : EndsAfter Countdown.around 2 lateCancel 3 (.stalled ⟨2, 2, 1⟩) :=
    (endsAfter_stalled_iff (by decide)).mpr ⟨hstalls, (calledOff_iff.mp lateCancel_calledOff).2, rfl⟩
  refine ⟨by decide, lateCancel_calledOff, hends.1, by decide, hends, ?_⟩
  intro hcancelled
  cases (hends.unique hcancelled).2

end RecordLinkage.Wait
