import RecordLinkage.Linkage

namespace RecordLinkage

namespace Weight

variable {ω : Type} [Weight ω]

def Number (w : ω) : Prop := ∃ v, lt w v = true ∨ lt v w = true

def le (a b : ω) : Prop := lt b a = false

end Weight

open Weight

theorem isSome_linkage {ω : Type} [Weight ω] (a b : Option ω) (w : ω) :
    (linkage a b w).isSome = true ↔ a.isSome = true ∨ b.isSome = true := by
  cases a <;> cases b <;> simp [linkage]

/-- What clustering relies on. Sums may be rounded and may be too large to be stored, but they are
numbers, and adding never leads down. -/
class LawfulWeight (ω : Type) [Weight ω] : Prop where
  lt_asymm : ∀ a b : ω, lt a b = true → lt b a = false
  lt_cotrans : ∀ a b c : ω, Number b → lt a c = true → lt a b = true ∨ lt b c = true
  compare_of_lt : ∀ a b : ω, lt a b = true → compare a b = .lt
  number_of_finite : ∀ w : ω, finite w = true → Number w
  number_add : ∀ a b : ω, storable a = true → storable b = true → Number (add a b)
  le_add : ∀ a b : ω, storable a = true → storable b = true → le a (add a b)
  min_eq : ∀ a b : ω, Number a → Number b → min a b = if lt b a then b else a
  max_eq : ∀ a b : ω, Number a → Number b → max a b = if lt a b then b else a

namespace Weight

variable {ω : Type} [Weight ω] [LawfulWeight ω] {a b c p w x : ω}

theorem number_of_storable (h : storable w = true) : Number w := by
  rw [storable, Bool.and_eq_true] at h
  exact LawfulWeight.number_of_finite w h.1

theorem storable_of_bounding (h : bounding w = true) : storable w = true := by
  rw [bounding, Bool.and_eq_true] at h
  rw [storable, h.1, LawfulWeight.lt_asymm _ _ h.2]
  rfl

theorem le_refl (a : ω) : le a a := by
  rw [le]
  cases h : lt a a with
  | false => rfl
  | true => exact h.symm.trans (LawfulWeight.lt_asymm a a h)

theorem le_of_lt (h : lt a b = true) : le a b := LawfulWeight.lt_asymm a b h

theorem le_total (a b : ω) : le a b ∨ le b a := by
  cases h : lt a b with
  | true => exact .inl (le_of_lt h)
  | false => exact .inr h

theorem le_trans (hb : Number b) (hab : le a b) (hbc : le b c) : le a c := by
  rw [le]
  apply eq_false_of_ne_true
  intro hca
  rcases LawfulWeight.lt_cotrans c b a hb hca with h | h
  · rw [le, h] at hbc
    cases hbc
  · rw [le, h] at hab
    cases hab

theorem lt_of_le_of_lt (ha : Number a) (hab : le a b) (hbc : lt b c = true) : lt a c = true := by
  rcases LawfulWeight.lt_cotrans b a c ha hbc with h | h
  · rw [le, h] at hab
    cases hab
  · exact h

/-- The order of the indexes respects the order of numbers. -/
theorem le_of_compare (h : compare a b ≠ .gt) : le a b := by
  rw [le]
  apply eq_false_of_ne_true
  intro hba
  exact h (Std.OrientedCmp.gt_of_lt (LawfulWeight.compare_of_lt b a hba))

theorem min_of_le (ha : Number a) (hb : Number b) (h : le a b) : min a b = a := by
  rw [LawfulWeight.min_eq a b ha hb, if_neg (by rw [h]; decide)]

theorem min_of_lt (ha : Number a) (hb : Number b) (h : lt b a = true) : min a b = b := by
  rw [LawfulWeight.min_eq a b ha hb, if_pos h]

theorem number_min (ha : Number a) (hb : Number b) : Number (min a b) := by
  rw [LawfulWeight.min_eq a b ha hb]
  split
  · exact hb
  · exact ha

theorem min_eq_or (ha : Number a) (hb : Number b) : min a b = a ∨ min a b = b := by
  rw [LawfulWeight.min_eq a b ha hb]
  split
  · exact .inr rfl
  · exact .inl rfl

theorem min_le_left (ha : Number a) (hb : Number b) : le (min a b) a := by
  rcases le_total a b with h | h
  · rw [min_of_le ha hb h]
    exact le_refl a
  · rw [LawfulWeight.min_eq a b ha hb]
    split
    · exact h
    · exact le_refl a

theorem min_le_right (ha : Number a) (hb : Number b) : le (min a b) b := by
  rw [LawfulWeight.min_eq a b ha hb]
  split
  · exact le_refl b
  · rename_i h
    rw [le]
    exact eq_false_of_ne_true h

theorem le_max_left (ha : Number a) (hb : Number b) : le a (max a b) := by
  rw [LawfulWeight.max_eq a b ha hb]
  split
  · rename_i h
    exact le_of_lt h
  · exact le_refl a

theorem le_max_right (ha : Number a) (hb : Number b) : le b (max a b) := by
  rw [LawfulWeight.max_eq a b ha hb]
  split
  · exact le_refl b
  · rename_i h
    rw [le]
    exact eq_false_of_ne_true h

theorem max_eq_or (ha : Number a) (hb : Number b) : max a b = a ∨ max a b = b := by
  rw [LawfulWeight.max_eq a b ha hb]
  split
  · exact .inr rfl
  · exact .inl rfl

theorem max_le (ha : Number a) (hb : Number b) (hac : le a c) (hbc : le b c) : le (max a b) c := by
  rcases max_eq_or ha hb with h | h <;> rw [h]
  · exact hac
  · exact hbc

/-- A sum of stored weights that is finite is one that is stored. -/
theorem storable_add (hp : storable p = true) (hw : storable w = true)
    (hsum : finite (add p w) = true) : storable (add p w) = true := by
  have hpos : le zero p := by
    rw [storable, Bool.and_eq_true, Bool.not_eq_true'] at hp
    exact hp.2
  have hle : le zero (add p w) :=
    le_trans (number_of_storable hp) hpos (LawfulWeight.le_add p w hp hw)
  rw [le] at hle
  rw [storable, hsum, hle]
  rfl

theorem storable_min (ha : storable p = true) (hx : storable x = true) :
    storable (min p x) = true := by
  rcases min_eq_or (number_of_storable ha) (number_of_storable hx) with h | h <;> rw [h]
  · exact ha
  · exact hx

theorem storable_max (ha : storable p = true) (hx : storable x = true) :
    storable (max p x) = true := by
  rcases max_eq_or (number_of_storable ha) (number_of_storable hx) with h | h <;> rw [h]
  · exact ha
  · exact hx

/-- As long as all sums are finite, the weights to a union are stored. -/
theorem storable_linkage {a b : Option ω} (hw : storable w = true)
    (ha : ∀ p, a = some p → storable p = true ∧ finite (add p w) = true)
    (hb : ∀ p, b = some p → storable p = true ∧ finite (add p w) = true)
    (hx : linkage a b w = some x) : storable x = true := by
  have hsum (p : ω) (hp : storable p = true ∧ finite (add p w) = true) :
      storable (add p w) = true := storable_add hp.1 hw hp.2
  cases a with
  | none =>
    cases b with
    | none => cases hx
    | some q =>
      cases hx
      exact storable_max (hsum q (hb q rfl)) (hb q rfl).1
  | some p =>
    cases b with
    | none =>
      cases hx
      exact storable_max (ha p rfl).1 (hsum p (ha p rfl))
    | some q =>
      cases hx
      exact storable_max (storable_min (ha p rfl).1 (hsum q (hb q rfl)))
        (storable_min (hsum p (ha p rfl)) (hb q rfl).1)

/-- From a vertex that touches both parts, the union is not nearer than the nearer part and not
farther than the farther one. -/
theorem linkage_between (ha : storable a = true) (hb : storable b = true)
    (hw : storable w = true) : ∃ x, linkage (some a) (some b) w = some x ∧
      (le a x ∨ le b x) ∧ (le x a ∨ le x b) := by
  have na := number_of_storable ha
  have nb := number_of_storable hb
  have naw := LawfulWeight.number_add a w ha hw
  have nbw := LawfulWeight.number_add b w hb hw
  have nleft := number_min na nbw
  have nright := number_min naw nb
  refine ⟨_, rfl, ?_, ?_⟩
  · -- The nearer part is reached directly, whatever the detour costs.
    cases hba : lt b a with
    | false =>
      have hleft : min a (add b w) = a :=
        min_of_le na nbw (le_trans nb hba (LawfulWeight.le_add b w hb hw))
      left
      have hmax := le_max_left nleft nright
      rwa [hleft] at hmax ⊢
    | true =>
      have hright : min (add a w) b = b := by
        apply min_of_lt naw nb
        rcases LawfulWeight.lt_cotrans b (add a w) a naw hba with h | h
        · exact h
        · have hle := LawfulWeight.le_add a w ha hw
          rw [le, h] at hle
          cases hle
      right
      have hmax := le_max_right nleft nright
      rwa [hright] at hmax ⊢
  · rcases max_eq_or nleft nright with h | h
    · left
      rw [h]
      exact min_le_left na nbw
    · right
      rw [h]
      exact min_le_right naw nb

end Weight

end RecordLinkage
