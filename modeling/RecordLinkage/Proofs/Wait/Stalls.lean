import RecordLinkage.Progress.Scripted
import RecordLinkage.Proofs.Wait.Looks
import RecordLinkage.Settings.Basic
import Mathlib.Order.Nat

namespace RecordLinkage

/-- Settings that pass their test bear a look without progress. -/
theorem Settings.maxStalls_pos_of_valid {settings settings' : Settings}
    (valid : settings.validate = .ok settings') : 0 < settings.pollPolicy.maxStalls := by
  rw [Nat.pos_iff_ne_zero]
  intro hzero
  change settings.maxStalls = 0 at hzero
  simp only [Settings.validate, if_pos hzero] at valid
  repeat' split at valid
  all_goals cases valid

namespace Wait

section Readings

variable {reading : Nat → Nat} {m : Nat}

def Stuck (reading : Nat → Nat) (m k : Nat) : Prop :=
  m ≤ k ∧ ∀ i, k - m < i → i ≤ k → reading (i - 1) ≤ reading i

/-- The count that a wait keeps knows about all windows. -/
theorem le_idle_iff {k : Nat} : m ≤ idle reading k ↔ Stuck reading m k := by
  induction k generalizing m with
  | zero => exact ⟨fun h => ⟨h, fun i _ _ => by omega⟩, And.left⟩
  | succ k ih =>
    rw [idle]
    split
    · rename_i hless
      constructor
      · intro h
        exact ⟨by omega, fun i _ _ => by omega⟩
      · rintro ⟨hm, hwindow⟩
        by_contra hpos
        have hlast := hwindow (k + 1) (by omega) (Nat.le_refl _)
        rw [Nat.add_sub_cancel] at hlast
        omega
    · rename_i hnotLess
      cases m with
      | zero => exact ⟨fun _ => ⟨Nat.zero_le _, fun i _ _ => by omega⟩, fun _ => Nat.zero_le _⟩
      | succ m =>
        -- A window that ends here is a shorter one that ended a look before.
        rw [Nat.add_le_add_iff_right, ih]
        constructor
        · rintro ⟨hm, hwindow⟩
          refine ⟨by omega, fun i hlow hhigh => ?_⟩
          by_cases hlast : i = k + 1
          · subst hlast
            exact Nat.not_lt.mp hnotLess
          · exact hwindow i (by omega) (by omega)
        · rintro ⟨hm, hwindow⟩
          exact ⟨by omega, fun i hlow hhigh => hwindow i (by omega) (by omega)⟩

instance (reading : Nat → Nat) (m k : Nat) : Decidable (Stuck reading m k) :=
  decidable_of_iff (m ≤ idle reading k) le_idle_iff

theorem idle_lt_iff {k : Nat} : idle reading k < m ↔ ¬ Stuck reading m k := by
  rw [← Nat.not_le, le_idle_iff]

/-- The first standstill is no longer than it must be. -/
theorem idle_eq_of_first (hm : 0 < m) {k : Nat} (h : Stuck reading m k)
    (hfirst : ∀ j < k, ¬ Stuck reading m j) : idle reading k = m := by
  cases k with
  | zero => exact absurd h.1 (by omega)
  | succ k =>
    have hbefore := idle_lt_iff.mpr (hfirst k (by omega))
    have hnow := le_idle_iff.mpr h
    have hstep := idle_succ_le reading k
    omega

/-- The first reading of zero comes before the first standstill of `m` readings. -/
def CompletesAt (reading : Nat → Nat) (m z : Nat) : Prop :=
  IsLeast {k | reading k = 0} z ∧ ∀ k, IsLeast {k | Stuck reading m k} k → z < k

/-- The first standstill of `m` readings comes before the first reading of zero. -/
def StallsAt (reading : Nat → Nat) (m k : Nat) : Prop :=
  IsLeast {k | Stuck reading m k} k ∧ ∀ z, IsLeast {z | reading z = 0} z → k < z

def Undecided (reading : Nat → Nat) (m k : Nat) : Prop :=
  ∀ j < k, reading j ≠ 0 ∧ ¬ Stuck reading m j

theorem exists_isLeast {p : Nat → Prop} {k : Nat} (h : p k) : ∃ j ≤ k, IsLeast {j | p j} j := by
  classical
  have hsome : ∃ j, p j := ⟨k, h⟩
  exact ⟨Nat.find hsome, Nat.find_min' hsome h, Nat.isLeast_find hsome⟩

theorem completesAt_iff (hm : 0 < m) {z : Nat} :
    CompletesAt reading m z ↔ reading z = 0 ∧ Undecided reading m z := by
  constructor
  · rintro ⟨⟨hzero, hleast⟩, hbefore⟩
    refine ⟨hzero, fun j hj => ⟨fun h => ?_, fun h => ?_⟩⟩
    · have := hleast h
      omega
    · obtain ⟨k, hk, hfirst⟩ := exists_isLeast h
      have := hbefore k hfirst
      omega
  · rintro ⟨hzero, hundecided⟩
    refine ⟨⟨hzero, fun j hj => ?_⟩, fun k hk => ?_⟩
    · by_contra hlt
      exact (hundecided j (by omega)).1 hj
    · by_contra hle
      by_cases heq : k = z
      · -- A standstill that ends at zero began there.
        subst heq
        have hlast := hk.1.2 k (by have := hk.1.1; omega) (Nat.le_refl k)
        have := hk.1.1
        exact (hundecided (k - 1) (by omega)).1 (by omega)
      · exact (hundecided k (by omega)).2 hk.1

theorem stallsAt_iff {k : Nat} :
    StallsAt reading m k ↔ Stuck reading m k ∧ reading k ≠ 0 ∧ Undecided reading m k := by
  constructor
  · rintro ⟨⟨hstuck, hleast⟩, hbefore⟩
    have hnonzero (j : Nat) (hj : j ≤ k) : reading j ≠ 0 := by
      intro hzero
      obtain ⟨z, hz, hfirst⟩ := exists_isLeast (p := fun j => reading j = 0) hzero
      have := hbefore z hfirst
      omega
    refine ⟨hstuck, hnonzero k (Nat.le_refl k), fun j hj => ⟨hnonzero j (by omega), fun h => ?_⟩⟩
    have := hleast h
    omega
  · rintro ⟨hstuck, hnonzero, hundecided⟩
    refine ⟨⟨hstuck, fun j hj => ?_⟩, fun z hz => ?_⟩
    · by_contra hlt
      exact (hundecided j (by omega)).2 hj
    · by_contra hle
      by_cases heq : z = k
      · exact hnonzero (heq ▸ hz.1)
      · exact (hundecided z (by omega)).1 hz.1

theorem undecided_of_never (hm : 0 < m) (hzero : ∀ z, ¬ CompletesAt reading m z)
    (hstall : ∀ k, ¬ StallsAt reading m k) (k : Nat) : Undecided reading m k := by
  induction k with
  | zero => intro j hj; omega
  | succ k ih =>
    intro j hj
    by_cases hjk : j < k
    · exact ih j hjk
    · obtain rfl : j = k := by omega
      have hnonzero : reading j ≠ 0 := fun h => hzero j ((completesAt_iff hm).mpr ⟨h, ih⟩)
      exact ⟨hnonzero, fun h => hstall j (stallsAt_iff.mpr ⟨h, hnonzero, ih⟩)⟩

end Readings

variable {σ : Type} {around : Surroundings σ} {s : σ} {m : Nat}

/-- A wait that is not called off looks for zero and for a standstill. -/
theorem quiet_iff_undecided (heedless : ∀ k, around.cancelled (around.sleep^[k] s) = false)
    {k : Nat} : (∀ j < k, look? around m s j = none) ↔ Undecided (around.reading s) m k :=
  forall₂_congr fun j _ => by rw [look?_eq_none, idle_lt_iff, and_iff_left (heedless j)]

theorem endsAfter_complete (hm : 0 < m)
    (heedless : ∀ k, around.cancelled (around.sleep^[k] s) = false) {z : Nat}
    (h : CompletesAt (around.reading s) m z) : EndsAfter around m s z .complete := by
  obtain ⟨hzero, hundecided⟩ := (completesAt_iff hm).mp h
  refine endsAfter_of_first hm ((quiet_iff_undecided heedless).mpr hundecided) ?_
  rw [look?, if_pos hzero]

theorem endsAfter_stalled (hm : 0 < m)
    (heedless : ∀ k, around.cancelled (around.sleep^[k] s) = false) {k : Nat}
    (h : StallsAt (around.reading s) m k) :
    EndsAfter around m s k
      (.stalled ⟨around.reading s k, m, around.failed (around.sleep^[k] s)⟩) := by
  obtain ⟨hstuck, hnonzero, hundecided⟩ := stallsAt_iff.mp h
  refine endsAfter_of_first hm ((quiet_iff_undecided heedless).mpr hundecided) ?_
  rw [look?, if_neg hnonzero, if_pos (le_idle_iff.mpr hstuck),
    idle_eq_of_first hm hstuck fun j hj => (hundecided j hj).2]

theorem endless_of_never (hm : 0 < m)
    (heedless : ∀ k, around.cancelled (around.sleep^[k] s) = false)
    (hzero : ∀ z, ¬ CompletesAt (around.reading s) m z)
    (hstall : ∀ k, ¬ StallsAt (around.reading s) m k) : Endless around m s :=
  endless_of_quiet fun k => (quiet_iff_undecided heedless).mpr
    (undecided_of_never hm hzero hstall (k + 1)) k (by omega)

/-- A wait whose count of looks without progress is a word of 32 bits. `none` where the count would
leave its word. -/
def pollWord (around : Surroundings σ) (maxStalls : UInt32) :
    (sleeps last : Nat) → (stalls : UInt32) → σ → Option (Option Verdict × σ)
  | sleeps, last, stalls, s =>
    if last = 0 then some (some .complete, s)
    else if around.cancelled s then some (some (.cancelled last), s)
    else
      match sleeps with
      | 0 => some (none, s)
      | sleeps + 1 =>
        let s := around.sleep s
        let now := around.remaining s
        if now = 0 then some (some .complete, s)
        else
          let count := if now < last then 0 else stalls.toNat + 1
          if UInt32.size ≤ count then none
          else
            let stalls := UInt32.ofNat count
            if maxStalls ≤ stalls then
              some (some (.stalled ⟨now, stalls.toNat, around.failed s⟩), s)
            else pollWord around maxStalls sleeps now stalls s

theorem pollWord_eq (around : Surroundings σ) {maxStalls stalls : UInt32}
    (calm : stalls < maxStalls) (sleeps last : Nat) (s : σ) :
    pollWord around maxStalls sleeps last stalls s =
      some (poll around maxStalls.toNat sleeps last stalls.toNat s) := by
  induction sleeps generalizing last stalls s with
  | zero =>
    rw [pollWord, poll]
    split
    · rfl
    · split <;> rfl
  | succ sleeps ih =>
    have hless := UInt32.lt_iff_toNat_lt.mp calm
    have hlimit := maxStalls.toNat_lt_size
    rw [pollWord, poll]
    split
    · rfl
    · split
      · rfl
      · dsimp only
        split
        · rfl
        -- The new count is at most the limit, which fits in its word.
        · generalize hcount :
            (if around.remaining (around.sleep s) < last then 0 else stalls.toNat + 1) = count
          have hfits : count < UInt32.size := by
            subst hcount
            split <;> omega
          have hword : (UInt32.ofNat count).toNat = count := UInt32.toNat_ofNat_of_lt hfits
          rw [if_neg (Nat.not_le.mpr hfits)]
          simp only [UInt32.le_iff_toNat_le, hword]
          split
          · rfl
          · rename_i hmore
            rw [ih (UInt32.lt_iff_toNat_lt.mpr (by omega)), hword]

/-- A wait that is not called off ends at the first reading of zero or at the first standstill of
`m` readings, whichever comes before the other, and after as many sleeps. Where neither comes it
lasts. Its count never leaves a word of 32 bits. -/
theorem wait_ends_at_zero_or_standstill (around : Surroundings σ) (s : σ) {m : Nat} (hm : 0 < m)
    (watch : Surroundings σ)
    (heedless : watch = steadfast around ∨
      watch = around ∧ ∀ k, around.cancelled (around.sleep^[k] s) = false) :
    let reading := around.reading s
    (∀ z, CompletesAt reading m z → EndsAfter watch m s z .complete) ∧
    (∀ k, StallsAt reading m k →
      EndsAfter watch m s k (.stalled ⟨reading k, m, around.failed (around.sleep^[k] s)⟩)) ∧
    ((∀ z, ¬ CompletesAt reading m z) → (∀ k, ¬ StallsAt reading m k) → Endless watch m s) ∧
    ∀ word : UInt32, word.toNat = m → ∀ n,
      pollWord watch word n (watch.remaining s) 0 s = some (within watch m n s) := by
  intro reading
  have hword (word : UInt32) (hvalue : word.toNat = m) (n : Nat) :
      pollWord watch word n (watch.remaining s) 0 s = some (within watch m n s) := by
    subst hvalue
    exact pollWord_eq watch (UInt32.lt_iff_toNat_lt.mpr (by simpa using hm)) n (watch.remaining s) s
  rcases heedless with rfl | ⟨rfl, heedless⟩
  · have hnever (k : Nat) :
        (steadfast around).cancelled ((steadfast around).sleep^[k] s) = false := rfl
    exact ⟨fun z => endsAfter_complete hm hnever, fun k => endsAfter_stalled hm hnever,
      endless_of_never hm hnever, hword⟩
  · exact ⟨fun z => endsAfter_complete hm heedless, fun k => endsAfter_stalled hm heedless,
      endless_of_never hm heedless, hword⟩

def risingReadings : Scripted Readings := ⟨⟨[4, 3, 3, 5, 5, 6, 7], 2⟩, [], 0, false⟩

theorem risingReadings_stall :
    0 < Settings.default.pollPolicy.maxStalls ∧
    EndsAfter (steadfast Readings.around) Settings.default.pollPolicy.maxStalls risingReadings 6
      (.stalled ⟨7, 5, 2⟩) := by
  have valid : Settings.default.validate = .ok Settings.default := by decide +kernel
  have hstalls : StallsAt (Readings.around.reading risingReadings) 5 6 :=
    stallsAt_iff.mpr ⟨by decide, by decide, by unfold Undecided; decide⟩
  exact ⟨Settings.maxStalls_pos_of_valid valid, (wait_ends_at_zero_or_standstill Readings.around
    risingReadings (Settings.maxStalls_pos_of_valid valid) _ (.inl rfl)).2.1 6 hstalls⟩

end Wait

end RecordLinkage
