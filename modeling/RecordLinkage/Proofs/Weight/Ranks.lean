import RecordLinkage.Proofs.Weight.Binary64
import RecordLinkage.Proofs.Weight.Detour
import Mathlib.Order.Fin.Basic

namespace RecordLinkage

/-- Two weights are the same number, or both are missing. -/
def SameWeight {ω : Type} [Weight ω] : Option ω → Option ω → Prop
  | none, none => True
  | some v, some v' => Weight.le v v' ∧ Weight.le v' v
  | _, _ => False

instance {ω : Type} [Weight ω] (v w : ω) : Decidable (Weight.le v w) :=
  inferInstanceAs (Decidable (_ = false))

instance {ω : Type} [Weight ω] : DecidableRel (SameWeight (ω := ω)) := fun
  | none, none => isTrue trivial
  | some v, some v' => inferInstanceAs (Decidable (Weight.le v v' ∧ Weight.le v' v))
  | none, some _ => isFalse id
  | some _, none => isFalse id

theorem SameWeight.symm {ω : Type} [Weight ω] {a b : Option ω} (h : SameWeight a b) :
    SameWeight b a := by
  cases a <;> cases b
  · trivial
  · exact h
  · exact h
  · exact And.symm h

namespace Binary64

theorem nearest_unitsOf_le {m : Nat} (h : m ≤ infinityMagnitude) : nearest (unitsOf m) 1 = m := by
  rcases Nat.lt_or_eq_of_le h with hlt | rfl
  · exact nearest_unitsOf hlt
  · decide +kernel

theorem unitsOf_mono {m n : Nat} (h : m ≤ n) (hn : n ≤ infinityMagnitude) :
    unitsOf m ≤ unitsOf n := by
  apply Nat.le_of_not_lt
  intro hlt
  have hle := nearest_mono (Nat.le_of_lt hlt)
  rw [nearest_unitsOf_le hn, nearest_unitsOf_le (h.trans hn)] at hle
  rw [Nat.le_antisymm h hle] at hlt
  exact Nat.lt_irrefl _ hlt

/-- The next number is at most twice as large. -/
theorem unitsOf_succ_le {m : Nat} (hm : 0 < m) : unitsOf (m + 1) ≤ 2 * unitsOf m := by
  have hbinade : binade = 0x10000000000000 := rfl
  simp only [unitsOf, Nat.pow_eq]
  -- Below the first binade magnitudes are units; at its start they still agree.
  by_cases hlow : m + 1 < binade
  · rw [if_pos hlow, if_pos (by omega)]
    omega
  rw [if_neg hlow]
  by_cases hfirst : m < binade
  · have hm : m + 1 = binade := by omega
    rw [if_pos hfirst, hm, Nat.mod_self, Nat.div_self (by omega)]
    simp only [Nat.sub_self, pow_zero]
    omega
  rw [if_neg hfirst]
  have hdiv : 1 ≤ m / binade := (Nat.one_le_div_iff (by omega)).mpr (by omega)
  have hmod : m % binade < binade := Nat.mod_lt m (by omega)
  by_cases hcarry : m % binade = binade - 1
  · -- A carry doubles the step and starts at its first number.
    have hm := Nat.div_add_mod m binade
    have hnext : m + 1 = binade * (m / binade + 1) := by
      rw [Nat.mul_succ]
      omega
    have hquotient : (m + 1) / binade - 1 = m / binade - 1 + 1 := by
      rw [hnext, Nat.mul_div_cancel_left _ (by omega)]
      omega
    have hremainder : (m + 1) % binade = 0 := by rw [hnext, Nat.mul_mod_right]
    rw [hquotient, hremainder, pow_succ]
    calc (binade + 0) * (2 ^ (m / binade - 1) * 2)
        = 2 * (binade * 2 ^ (m / binade - 1)) := by ring
      _ ≤ 2 * ((binade + m % binade) * 2 ^ (m / binade - 1)) :=
        Nat.mul_le_mul_left 2 (Nat.mul_le_mul_right _ (Nat.le_add_right _ _))
  -- Inside a binade the next number is one step away, and the number itself has many.
  · have hm := Nat.div_add_mod m binade
    have hquotient : (m + 1) / binade = m / binade := by
      rw [← hm, Nat.add_assoc, Nat.mul_add_div (by omega), Nat.mul_add_div (by omega),
        Nat.div_eq_of_lt (show m % binade + 1 < binade by omega), Nat.div_eq_of_lt hmod]
    have hremainder : (m + 1) % binade = m % binade + 1 := by
      rw [← hm, Nat.add_assoc, Nat.mul_add_mod, Nat.mul_add_mod, Nat.mod_mod,
        Nat.mod_eq_of_lt (show m % binade + 1 < binade by omega)]
    rw [hquotient, hremainder, ← Nat.mul_assoc]
    exact Nat.mul_le_mul_right _ (by omega)

def Rank := Fin (infinityMagnitude + 1)

def Rank.plus (a b : Rank) : Rank :=
  ⟨nearest (unitsOf a.val + unitsOf b.val) 1, Nat.lt_succ_of_le (nearest_le _)⟩

theorem Rank.le (a : Rank) : a.val ≤ infinityMagnitude := Nat.le_of_lt_succ a.isLt

instance : LinearOrder Rank := inferInstanceAs (LinearOrder (Fin (infinityMagnitude + 1)))

theorem Rank.lt_iff {a b : Rank} : a < b ↔ a.val < b.val := Iff.rfl

instance : BoundedOrder Rank where
  top := ⟨infinityMagnitude, Nat.lt_succ_self _⟩
  le_top := Rank.le
  bot := ⟨0, Nat.succ_pos _⟩
  bot_le a := Nat.zero_le a.val

instance : Detour Rank where
  plus := Rank.plus
  le_plus a w := by
    show a.val ≤ nearest (unitsOf a.val + unitsOf w.val) 1
    conv_lhs => rw [← nearest_unitsOf_le a.le]
    exact nearest_mono (Nat.le_add_right _ _)
  plus_mono w a b h := nearest_mono (Nat.add_le_add_right (unitsOf_mono h b.le) _)
  plus_bot a := by
    apply Fin.ext
    show nearest (unitsOf a.val + unitsOf 0) 1 = a.val
    exact nearest_unitsOf_le a.le
  lt_plus a w hbot htop hle := by
    have hpos : 0 < w.val := Nat.pos_of_ne_zero fun h => hbot (Fin.ext h)
    have hlt : w.val < infinityMagnitude :=
      Nat.lt_of_le_of_ne w.le fun h => htop (Fin.ext h)
    have hsum : unitsOf (w.val + 1) ≤ unitsOf a.val + unitsOf w.val := by
      have hdouble := unitsOf_succ_le hpos
      have hmono := unitsOf_mono hle a.le
      omega
    show w.val < nearest (unitsOf a.val + unitsOf w.val) 1
    have hround := nearest_mono hsum
    rw [nearest_unitsOf_le hlt] at hround
    exact hround

def Ranked (x : Binary64) : Prop := x.isNaN = false ∧ 0 ≤ x.numericKey

def rank (x : Binary64) : Rank :=
  ⟨Min.min x.numericKey.toNat infinityMagnitude, Nat.lt_succ_of_le (Nat.min_le_right _ _)⟩

variable {x y : Binary64}

theorem Ranked.magnitude (h : x.Ranked) : x.magnitude ≤ infinityMagnitude ∧
    x.numericKey = x.magnitude := by
  obtain ⟨hnumber, hkey⟩ := h
  simp only [isNaN, decide_eq_false_iff_not] at hnumber
  rw [numericKey] at hkey ⊢
  split at hkey
  · rename_i hneg
    rw [if_pos hneg]
    omega
  · rename_i hneg
    rw [if_neg hneg]
    omega

theorem Ranked.val_rank (h : x.Ranked) : (rank x).val = x.magnitude := by
  obtain ⟨hle, hkey⟩ := h.magnitude
  show Min.min x.numericKey.toNat infinityMagnitude = x.magnitude
  rw [hkey, Int.toNat_natCast, Nat.min_eq_left hle]

theorem ranked_of_storable (h : Weight.storable x = true) : x.Ranked := by
  refine ⟨isNaN_of_storable h, ?_⟩
  rw [numericKey_of_storable h]
  exact Int.natCast_nonneg _

theorem rank_ne_top (h : Weight.storable x = true) : rank x ≠ ⊤ := by
  intro htop
  have hval := (ranked_of_storable h).val_rank
  rw [htop] at hval
  have hlt := (storable_iff.mp h).1
  rw [← hval] at hlt
  exact Nat.lt_irrefl _ hlt

theorem lt_iff_rank (hx : x.Ranked) (hy : y.Ranked) : lt x y = true ↔ rank x < rank y := by
  rw [lt_iff, Rank.lt_iff, hx.val_rank, hy.val_rank, hx.magnitude.2, hy.magnitude.2, Int.ofNat_lt]
  simp [hx.1, hy.1]

theorem le_iff_rank (hx : x.Ranked) (hy : y.Ranked) : Weight.le x y ↔ rank x ≤ rank y := by
  rw [← not_lt, ← lt_iff_rank hy hx, Bool.not_eq_true]
  rfl

theorem ranked_add (hx : x.Ranked) (hy : y.Ranked) :
    (add x y).Ranked ∧ rank (add x y) = Detour.plus (rank x) (rank y) := by
  have hinfinite {z : Binary64} (hz : z.Ranked) (h : z.isInfinite = true) :
      rank z = ⊤ ∧ z.negative = false := by
    have hval := hz.val_rank
    have hkey := hz.magnitude.2
    simp only [isInfinite, decide_eq_true_eq] at h
    refine ⟨Fin.ext (hval.trans h), ?_⟩
    rw [numericKey] at hkey
    split at hkey
    · have hpositive : infinityMagnitude = 0x7ff0000000000000 := rfl
      omega
    · rename_i hneg
      exact eq_false_of_ne_true hneg
  have hstorable {z : Binary64} (hz : z.Ranked) (h : z.isInfinite = false) :
      Weight.storable z = true := by
    obtain ⟨hle, hkey⟩ := hz.magnitude
    simp only [isInfinite, decide_eq_false_iff_not] at h
    refine storable_iff.mpr ⟨Nat.lt_of_le_of_ne hle h, fun hneg => ?_⟩
    rw [numericKey, if_pos hneg] at hkey
    omega
  have hnumbers : (x.isNaN || y.isNaN) = false := by rw [hx.1, hy.1]; rfl
  -- An infinite summand absorbs the other one, on both sides of the equation.
  cases hxi : x.isInfinite with
  | true =>
    obtain ⟨hrank, hneg⟩ := hinfinite hx hxi
    have hsum : add x y = x := by
      rw [add, hnumbers, if_neg (by decide), hxi, if_pos rfl]
      split
      · rename_i hboth
        rw [Bool.and_eq_true] at hboth
        rw [hneg, (hinfinite hy hboth.1).2] at hboth
        exact absurd hboth.2 (by decide)
      · rfl
    rw [hsum, hrank, Detour.plus_top]
    exact ⟨hx, rfl⟩
  | false =>
    cases hyi : y.isInfinite with
    | true =>
      have hrank := (hinfinite hy hyi).1
      have hsum : add x y = y := by
        rw [add, hnumbers, if_neg (by decide), hxi, if_neg (by decide), hyi, if_pos rfl]
      rw [hsum, hrank]
      refine ⟨hy, Fin.ext ?_⟩
      show infinityMagnitude = nearest (unitsOf (rank x).val + unitsOf infinityMagnitude) 1
      apply Nat.le_antisymm
      · conv_lhs => rw [← nearest_unitsOf_le (Nat.le_refl infinityMagnitude)]
        exact nearest_mono (Nat.le_add_left _ _)
      · exact nearest_le _
    | false =>
      -- Two finite summands are counts of units, and the sum is their rounded sum.
      have hsx := hstorable hx hxi
      have hsy := hstorable hy hyi
      obtain ⟨hnumber, hkey⟩ := add_of_storable hsx hsy
      have hranked : (add x y).Ranked := ⟨hnumber, by rw [hkey]; exact Int.natCast_nonneg _⟩
      refine ⟨hranked, Fin.ext ?_⟩
      have hmagnitude : (add x y).magnitude = nearest (x.units + y.units) 1 := by
        have := hranked.magnitude.2.symm.trans hkey
        omega
      rw [hranked.val_rank, hmagnitude]
      show _ = nearest (unitsOf (rank x).val + unitsOf (rank y).val) 1
      rw [hx.val_rank, hy.val_rank]
      rfl

theorem number_of_ranked (h : x.Ranked) : Weight.Number x := number_iff.mpr h.1

theorem ranked_min (hx : x.Ranked) (hy : y.Ranked) :
    (Weight.min x y).Ranked ∧ rank (Weight.min x y) = Min.min (rank x) (rank y) := by
  rw [LawfulWeight.min_eq _ _ (number_of_ranked hx) (number_of_ranked hy)]
  have hlt := lt_iff_rank hy hx
  split
  · rename_i h
    exact ⟨hy, (min_eq_right (le_of_lt (hlt.mp h))).symm⟩
  · rename_i h
    exact ⟨hx, (min_eq_left (le_of_not_gt (mt hlt.mpr h))).symm⟩

theorem ranked_max (hx : x.Ranked) (hy : y.Ranked) :
    (Weight.max x y).Ranked ∧ rank (Weight.max x y) = Max.max (rank x) (rank y) := by
  rw [LawfulWeight.max_eq _ _ (number_of_ranked hx) (number_of_ranked hy)]
  have hlt := lt_iff_rank hx hy
  split
  · rename_i h
    exact ⟨hy, (max_eq_right (le_of_lt (hlt.mp h))).symm⟩
  · rename_i h
    exact ⟨hx, (max_eq_left (le_of_not_gt (mt hlt.mpr h))).symm⟩

/-- The rank of a distance. What is not linked is farther than everything. -/
def rank? : Option Binary64 → Rank
  | none => ⊤
  | some w => rank w

def Ranked? (d : Option Binary64) : Prop := ∀ w, d = some w → w.Ranked

variable {a b : Option Binary64} {w : Binary64}

/-- The linkage rule sees nothing of weights but their ranks. -/
theorem ranked_linkage (ha : Ranked? a) (hb : Ranked? b) (hw : w.Ranked) :
    Ranked? (linkage a b w) ∧
      rank? (linkage a b w) = Detour.joined (rank? a) (rank? b) (rank w) := by
  have hone {p : Binary64} (hp : p.Ranked) : Max.max (rank p) (Detour.plus (rank p) (rank w)) =
      Detour.plus (rank p) (rank w) := max_eq_right (Detour.le_plus _ _)
  -- A missing side has the highest rank, which disappears in the minima.
  cases a with
  | none =>
    cases b with
    | none => exact ⟨nofun, by rw [rank?, Detour.joined_top, Detour.plus_top]; rfl⟩
    | some q =>
      have hq := hb q rfl
      obtain ⟨hsum, hrank⟩ := ranked_add hq hw
      obtain ⟨hmax, hrank'⟩ := ranked_max hsum hq
      refine ⟨fun x hx => by cases hx; exact hmax, ?_⟩
      show rank (Weight.max (add q w) q) = Detour.joined ⊤ (rank q) (rank w)
      rw [hrank', hrank, max_comm, hone hq, Detour.top_joined]
  | some p =>
    have hp := ha p rfl
    obtain ⟨hpw, hrankp⟩ := ranked_add hp hw
    cases b with
    | none =>
      obtain ⟨hmax, hrank'⟩ := ranked_max hp hpw
      refine ⟨fun x hx => by cases hx; exact hmax, ?_⟩
      show rank (Weight.max p (add p w)) = Detour.joined (rank p) ⊤ (rank w)
      rw [hrank', hrankp, hone hp, Detour.joined_top]
    | some q =>
      have hq := hb q rfl
      obtain ⟨hqw, hrankq⟩ := ranked_add hq hw
      obtain ⟨hleft, hrankl⟩ := ranked_min hp hqw
      obtain ⟨hright, hrankr⟩ := ranked_min hpw hq
      obtain ⟨hmax, hrank'⟩ := ranked_max hleft hright
      refine ⟨fun x hx => by cases hx; exact hmax, ?_⟩
      show rank (Weight.max (Weight.min p (add q w)) (Weight.min (add p w) q)) = _
      rw [hrank', hrankl, hrankr, hrankp, hrankq]
      rfl

theorem sameWeight_iff {a b : Option Binary64} (ha : Ranked? a) (hb : Ranked? b) :
    SameWeight a b ↔ a.isSome = b.isSome ∧ rank? a = rank? b := by
  cases a with
  | none => cases b <;> simp [SameWeight, rank?]
  | some v =>
    cases b with
    | none => simp [SameWeight]
    | some v' =>
      have hv := ha v rfl
      have hv' := hb v' rfl
      simp only [SameWeight, le_iff_rank hv hv', le_iff_rank hv' hv, rank?, Option.isSome_some,
        true_and, le_antisymm_iff]

/-- What comes of two pairs in either order is ranked, and its rank is that of the detours. -/
theorem ranked_crossing {p q r s : Option Binary64} (hp : Ranked? p) (hq : Ranked? q)
    (hr : Ranked? r) (hs : Ranked? s) (hw : w.Ranked) :
    Ranked? (linkage (linkage p q w) (linkage r s w) w) ∧
      rank? (linkage (linkage p q w) (linkage r s w) w) =
        Detour.joined (Detour.joined (rank? p) (rank? q) (rank w))
          (Detour.joined (rank? r) (rank? s) (rank w)) (rank w) := by
  obtain ⟨hpq, hrank⟩ := ranked_linkage hp hq hw
  obtain ⟨hrs, hrank'⟩ := ranked_linkage hr hs hw
  obtain ⟨hboth, hrank''⟩ := ranked_linkage hpq hrs hw
  rw [hrank, hrank'] at hrank''
  exact ⟨hboth, hrank''⟩

theorem same_iff_rank (hx : x.Ranked) (hy : y.Ranked) : x.same y = true ↔ rank x = rank y := by
  have hkey : rank x = rank y ↔ x.numericKey = y.numericKey := by
    rw [hx.magnitude.2, hy.magnitude.2, Int.natCast_inj, ← hx.val_rank, ← hy.val_rank]
    exact Fin.ext_iff
  rw [same, hx.1, hy.1, hkey]
  simp

theorem same_comm (x y : Binary64) : x.same y = y.same x := by
  rw [same, same, Bool.and_comm (!x.isNaN)]
  exact congrArg _ (decide_eq_decide.mpr eq_comm)

theorem lt_congr_rank {t : Binary64} (hx : x.Ranked) (hy : y.Ranked) (ht : t.Ranked)
    (h : rank x = rank y) : Weight.lt x t = Weight.lt y t := by
  rw [Bool.eq_iff_iff]
  show lt x t = true ↔ lt y t = true
  rw [lt_iff_rank hx ht, lt_iff_rank hy ht, h]

theorem storable_of_rank (hx : x.Ranked) (htop : rank x ≠ ⊤) : Weight.storable x = true := by
  obtain ⟨hle, hkey⟩ := hx.magnitude
  have hfinite : x.magnitude ≠ infinityMagnitude :=
    fun heq => htop (Fin.ext (hx.val_rank.trans heq))
  refine storable_iff.mpr ⟨Nat.lt_of_le_of_ne hle hfinite, fun hneg => ?_⟩
  rw [numericKey, if_pos hneg] at hkey
  omega

/-- The linkage rule cannot tell numbers apart that are the same, nor its two sides. -/
theorem sameWeight_linkage {c d : Option Binary64} {w' : Binary64} (ha : Ranked? a)
    (hb : Ranked? b) (hc : Ranked? c) (hd : Ranked? d) (hw : w.Ranked) (hw' : w'.Ranked)
    (hac : SameWeight a c) (hbd : SameWeight b d) (hww : rank w = rank w') :
    SameWeight (linkage a b w) (linkage c d w') ∧ SameWeight (linkage a b w) (linkage d c w') := by
  obtain ⟨hac, hrank⟩ := (sameWeight_iff ha hc).mp hac
  obtain ⟨hbd, hrank'⟩ := (sameWeight_iff hb hd).mp hbd
  obtain ⟨hab, hjoined⟩ := ranked_linkage ha hb hw
  obtain ⟨hcd, hjoined'⟩ := ranked_linkage hc hd hw'
  obtain ⟨hdc, hjoined''⟩ := ranked_linkage hd hc hw'
  have hsome (p q : Option Binary64) (w : Binary64) :
      (linkage p q w).isSome = (p.isSome || q.isSome) := by
    cases p <;> cases q <;> rfl
  rw [sameWeight_iff hab hcd, sameWeight_iff hab hdc, hjoined, hjoined', hjoined'', hrank, hrank',
    hww, hsome, hsome, hsome, hac, hbd]
  exact ⟨⟨rfl, rfl⟩, Bool.or_comm .., Detour.joined_comm ..⟩

end Binary64

end RecordLinkage
