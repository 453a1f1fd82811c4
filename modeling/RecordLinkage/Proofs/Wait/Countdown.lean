import RecordLinkage.Proofs.Wait.Stalls
import Mathlib.Order.Monotone.Basic

namespace RecordLinkage

namespace Countdown

theorem remaining_act_le (e : WaitEvent) (c : Countdown) : (act e c).remaining ≤ c.remaining := by
  cases e with
  | complete n => exact Nat.sub_le _ _
  | fail | cancel | run => exact Nat.le_refl _

theorem remaining_acts_le (events : List WaitEvent) (c : Countdown) :
    (events.foldl (fun c e => act e c) c).remaining ≤ c.remaining := by
  induction events generalizing c with
  | nil => exact Nat.le_refl _
  | cons e events ih => exact (ih _).trans (remaining_act_le e c)

end Countdown

variable {σ : Type}

/-- What is waited for is a countdown, and events happen to it while the waiter sleeps. -/
structure Surroundings.Counts (around : Surroundings σ) (counter : σ → Countdown) : Prop where
  reads : ∀ s, around.remaining s = (counter s).remaining
  acts : ∀ s, ∃ events : List WaitEvent,
    counter (around.sleep s) = events.foldl (fun c e => Countdown.act e c) (counter s)

theorem Surroundings.Counts.antitone {around : Surroundings σ} {counter : σ → Countdown}
    (h : around.Counts counter) (s : σ) : Antitone (around.reading s) := by
  apply antitone_nat_of_succ_le
  intro k
  obtain ⟨events, hevents⟩ := h.acts (around.sleep^[k] s)
  rw [Surroundings.reading, Surroundings.reading, Function.iterate_succ_apply', h.reads, h.reads,
    hevents]
  exact Countdown.remaining_acts_le events _

theorem Countdown.counts_around : Countdown.around.Counts Scripted.state :=
  ⟨fun _ => rfl, fun w => ⟨w.script.headD [], rfl⟩⟩

namespace Wait

section Readings

variable {reading : Nat → Nat} {m : Nat}

def Unchanged (reading : Nat → Nat) (m k : Nat) : Prop :=
  m ≤ k ∧ ∀ i, k - m ≤ i → i ≤ k → reading i = reading k

/-- Where readings never rise, they stand still where they do not change. -/
theorem stuck_iff_unchanged (falling : Antitone reading) {k : Nat} :
    Stuck reading m k ↔ Unchanged reading m k := by
  constructor
  · rintro ⟨hm, hwindow⟩
    refine ⟨hm, fun i hlow hhigh => Nat.le_antisymm ?_ (falling hhigh)⟩
    have hback (d : Nat) (hd : d ≤ m) : reading (k - d) ≤ reading k := by
      induction d with
      | zero => exact Nat.le_refl _
      | succ d ih =>
        have hstep := hwindow (k - d) (by omega) (by omega)
        rw [Nat.sub_sub] at hstep
        exact hstep.trans (ih (by omega))
    have hstart := hback (k - i) (by omega)
    rwa [Nat.sub_sub_self hhigh] at hstart
  · rintro ⟨hm, hwindow⟩
    refine ⟨hm, fun i hlow hhigh => ?_⟩
    rw [hwindow (i - 1) (by omega) (by omega), hwindow i (by omega) hhigh]

/-- Each reading that a wait loses pays for `m` sleeps at most. -/
theorem sleeps_le (falling : Antitone reading) {k : Nat} (calm : ∀ j < k, idle reading j < m) :
    k + reading k * m ≤ reading 0 * m + idle reading k := by
  -- A decrease pays for `m` sleeps and clears the count; any other sleep raises the count.
  induction k with
  | zero => simp
  | succ k ih =>
    have hpaid := ih fun j hj => calm j (by omega)
    have hidle := calm k (by omega)
    rw [idle]
    split
    · rename_i hless
      have hlost : (reading (k + 1) + 1) * m ≤ reading k * m := Nat.mul_le_mul_right m hless
      rw [Nat.succ_mul] at hlost
      omega
    · rename_i hnotLess
      have hsame : reading (k + 1) = reading k :=
        Nat.le_antisymm (falling (Nat.le_succ k)) (Nat.not_lt.mp hnotLess)
      rw [hsame]
      omega

end Readings

variable {around : Surroundings σ} {s : σ} {m : Nat}

/-- A wait for readings that never rise ends in time. -/
theorem exists_endsAfter (hm : 0 < m) (falling : Antitone (around.reading s)) :
    ∃ k v, k ≤ around.reading s 0 * m ∧ EndsAfter around m s k v := by
  have hlook : ∃ k ≤ around.reading s 0 * m, look? around m s k ≠ none := by
    by_contra hquiet
    have hnone (j : Nat) (hj : j ≤ around.reading s 0 * m) : look? around m s j = none := by
      by_contra hsome
      exact hquiet ⟨j, hj, hsome⟩
    have hcalm (j : Nat) (hj : j < around.reading s 0 * m) : idle (around.reading s) j < m :=
      (look?_eq_none.mp (hnone j (by omega))).2.1
    have hpaid := sleeps_le falling hcalm
    obtain ⟨hleft, hidle, -⟩ := look?_eq_none.mp (hnone _ (Nat.le_refl _))
    have hmore := Nat.le_mul_of_pos_left m (Nat.pos_of_ne_zero hleft)
    omega
  obtain ⟨k, hk, hsome⟩ := hlook
  obtain ⟨j, hj, hdecides, hfirst⟩ := exists_isLeast (p := fun k => look? around m s k ≠ none) hsome
  obtain ⟨v, hv⟩ := Option.ne_none_iff_exists'.mp hdecides
  refine ⟨j, v, hj.trans hk, endsAfter_of_first hm (fun i hi => ?_) hv⟩
  by_contra hearly
  have := hfirst hearly
  omega

/-- A wait that is not called off ends well where zero comes first, and only there. -/
theorem endsAfter_complete_iff (hm : 0 < m)
    (heedless : ∀ k, around.cancelled (around.sleep^[k] s) = false) :
    (∃ k, EndsAfter around m s k .complete) ↔ ∃ z, CompletesAt (around.reading s) m z := by
  constructor
  · rintro ⟨k, hk⟩
    by_contra hzero
    by_cases hstall : ∃ j, StallsAt (around.reading s) m j
    · obtain ⟨j, hj⟩ := hstall
      cases (hk.unique (endsAfter_stalled hm heedless hj)).2
    · have hendless := endless_of_never hm heedless (not_exists.mp hzero)
        (not_exists.mp hstall) k
      rw [hk.2 k (Nat.le_refl k)] at hendless
      cases hendless
  · rintro ⟨z, hz⟩
    exact ⟨z, endsAfter_complete hm heedless hz⟩

/-- Where readings never rise, a wait ends well if they reach zero and did not stay unchanged over
`m` sleeps before. -/
theorem completesAt_iff_unchanged (hm : 0 < m) {reading : Nat → Nat} (falling : Antitone reading)
    {z : Nat} : CompletesAt reading m z ↔
      IsLeast {k | reading k = 0} z ∧ ∀ k < z, ¬ Unchanged reading m k := by
  rw [completesAt_iff hm]
  constructor
  · rintro ⟨hzero, hundecided⟩
    refine ⟨⟨hzero, fun j hj => ?_⟩, fun k hk => ?_⟩
    · by_contra hlt
      exact (hundecided j (by omega)).1 hj
    · rw [← stuck_iff_unchanged falling]
      exact (hundecided k hk).2
  · rintro ⟨⟨hzero, hleast⟩, hmoved⟩
    refine ⟨hzero, fun j hj => ⟨fun h => ?_, ?_⟩⟩
    · have := hleast h
      omega
    · rw [stuck_iff_unchanged falling]
      exact hmoved j hj

/-- A wait for readings that never rise, such as those of a countdown whatever happens to it, ends
after at most as many sleeps as the first reading times `m`, called off or not. If it is not called
off it ends well where the readings reach zero without staying unchanged over `m` sleeps before. -/
theorem wait_for_countdown_ends (around : Surroundings σ) (s : σ) {m : Nat} (hm : 0 < m) :
    let reading := around.reading s
    (Antitone reading →
      (∃ k v, k ≤ around.remaining s * m ∧ EndsAfter around m s k v) ∧
      ((∀ k, around.cancelled (around.sleep^[k] s) = false) →
        ((∃ k, EndsAfter around m s k .complete) ↔
          ∃ z, IsLeast {k | reading k = 0} z ∧ ∀ k < z, ¬ Unchanged reading m k))) ∧
    ∀ counter, around.Counts counter → Antitone reading := by
  intro reading
  refine ⟨fun falling => ⟨exists_endsAfter hm falling, fun heedless => ?_⟩,
    fun counter hcounts => hcounts.antitone s⟩
  rw [endsAfter_complete_iff hm heedless]
  exact exists_congr fun z => completesAt_iff_unchanged hm falling

/-- A countdown of two pairs, each of which takes as long as a wait bears that has three looks. -/
def slowPairs : Scripted Countdown :=
  ⟨.start 2, [[], [.fail "late"], [.complete 1], [], [.cancel], [.complete 1]], 0, false⟩

theorem slowPairs_end :
    0 < 3 ∧ (∃ k v, k ≤ 2 * 3 ∧ EndsAfter Countdown.around 3 slowPairs k v) ∧
    ∃ k, EndsAfter (steadfast Countdown.around) 3 slowPairs k .complete := by
  obtain ⟨hends, hfalls⟩ := wait_for_countdown_ends Countdown.around slowPairs (m := 3) (by decide)
  obtain ⟨hwell, -⟩ :=
    wait_for_countdown_ends (steadfast Countdown.around) slowPairs (m := 3) (by decide)
  have falling := hfalls Scripted.state Countdown.counts_around
  have hcompletes : CompletesAt (Countdown.around.reading slowPairs) 3 6 :=
    (completesAt_iff (by decide)).mpr ⟨by decide, by unfold Undecided; decide⟩
  exact ⟨by decide, (hends falling).1, ((hwell falling).2 fun _ => rfl).mpr
    ⟨6, (completesAt_iff_unchanged (by decide) falling).mp hcompletes⟩⟩

def slowest (total m : Nat) : Surroundings Nat :=
  ⟨fun k => total - k / m, fun _ => 0, fun _ => false, (· + 1)⟩

theorem reading_slowest (total m : Nat) : (slowest total m).reading 0 = fun k => total - k / m := by
  funext k
  have hslept : (slowest total m).sleep^[k] 0 = k := by
    induction k with
    | zero => rfl
    | succ k ih =>
      rw [Function.iterate_succ_apply', ih]
      rfl
  rw [Surroundings.reading, hslept]
  rfl

/-- The bound is reached for every countdown and every patience. -/
theorem slowest_countdown_completes {m : Nat} (hm : 0 < m) (total : Nat) :
    EndsAfter (slowest total m) m 0 (total * m) .complete := by
  apply endsAfter_complete hm fun _ => rfl
  rw [reading_slowest, completesAt_iff hm]
  refine ⟨by rw [Nat.mul_div_cancel _ hm, Nat.sub_self], fun j hj => ?_⟩
  have hdone : j / m < total := (Nat.div_lt_iff_lt_mul hm).mpr hj
  refine ⟨Nat.sub_ne_zero_of_lt hdone, ?_⟩
  -- Among `m` sleeps there is one whose number `m` divides, and it brought a decrease.
  rintro ⟨hlate, hwindow⟩
  have hturn : m ≤ j / m * m := Nat.le_mul_of_pos_left m (Nat.div_pos hlate hm)
  have hrest := Nat.mod_lt j hm
  have hparts := Nat.div_add_mod' j m
  have hbefore : (j / m * m - 1) / m < j / m := (Nat.div_lt_iff_lt_mul hm).mpr (by omega)
  have hless := hwindow (j / m * m) (by omega) (by omega)
  simp only [Nat.mul_div_cancel _ hm] at hless
  omega

end Wait

end RecordLinkage
