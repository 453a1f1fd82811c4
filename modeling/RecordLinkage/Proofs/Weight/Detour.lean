import Mathlib.Order.BoundedOrder.Monotone
import Mathlib.Order.MinMax

namespace RecordLinkage

/-- Ranks of distances, with the lowest for those that cost nothing and the highest for those that
are not there, and what a rank becomes on a detour. Sums may be rounded, up to the highest rank. -/
class Detour (α : Type) [LinearOrder α] [BoundedOrder α] where
  plus : α → α → α
  le_plus : ∀ a w : α, a ≤ plus a w
  plus_mono : ∀ w : α, Monotone fun a => plus a w
  plus_bot : ∀ a : α, plus a ⊥ = a
  lt_plus : ∀ a w : α, w ≠ ⊥ → w ≠ ⊤ → w ≤ a → w < plus a w

namespace Detour

variable {α : Type} [LinearOrder α] [BoundedOrder α] [Detour α] {a b c d w : α}

@[simp] theorem plus_top (w : α) : plus ⊤ w = ⊤ := top_le_iff.mp (le_plus ⊤ w)

def joined (a b w : α) : α := max (min a (plus b w)) (min (plus a w) b)

theorem joined_comm (a b w : α) : joined a b w = joined b a w := by
  rw [joined, joined, max_comm, min_comm (plus a w), min_comm a]

theorem joined_of_le (h : a ≤ b) : joined a b w = min (plus a w) b := by
  rw [joined, min_eq_left (h.trans (le_plus b w)), max_eq_right (le_min (le_plus a w) h)]

/-- The union is reached from the nearer part, and is not farther than the farther one. -/
theorem joined_eq (a b w : α) : joined a b w = min (plus (min a b) w) (max a b) := by
  rcases le_total a b with h | h
  · rw [joined_of_le h, min_eq_left h, max_eq_right h]
  · rw [joined_comm, joined_of_le h, min_eq_right h, max_eq_left h]

theorem joined_top (a w : α) : joined a ⊤ w = plus a w := by
  rw [joined_of_le le_top, min_eq_left le_top]

theorem top_joined (a w : α) : joined ⊤ a w = plus a w := by rw [joined_comm, joined_top]

theorem joined_bot (a b : α) : joined a b ⊥ = min a b := by
  rcases le_total a b with h | h
  · rw [joined_of_le h, plus_bot]
  · rw [joined_comm, joined_of_le h, plus_bot, min_comm]

/-- What is as near to both parts stays so near to their union. -/
@[simp] theorem joined_self (a w : α) : joined a a w = a := by
  rw [joined_of_le le_rfl, min_eq_right (le_plus a w)]

theorem le_joined (ha : c ≤ a) (hb : c ≤ b) : c ≤ joined a b w := by
  rcases le_total a b with h | h
  · rw [joined_of_le h]
    exact le_min (ha.trans (le_plus a w)) hb
  · rw [joined_comm, joined_of_le h]
    exact le_min (hb.trans (le_plus b w)) ha

/-- Nothing else comes to lie as near as two clusters that cost something to join. -/
theorem eq_of_joined_eq (hbot : w ≠ ⊥) (htop : w ≠ ⊤) (ha : w ≤ a) (hb : w ≤ b)
    (h : joined a b w = w) : a = w ∧ b = w := by
  have hfarther {x y : α} (hx : w ≤ x) (hxy : x ≤ y) (hjoined : joined x y w = w) : y = w := by
    rw [joined_of_le hxy] at hjoined
    rcases min_choice (plus x w) y with hmin | hmin
    · rw [hmin] at hjoined
      exact absurd hjoined (lt_plus x w hbot htop hx).ne'
    · exact hmin.symm.trans hjoined
  rcases le_total a b with hab | hba
  · have hbw := hfarther ha hab h
    exact ⟨le_antisymm (hbw ▸ hab) ha, hbw⟩
  · have haw := hfarther hb hba ((joined_comm b a w).trans h)
    exact ⟨haw, le_antisymm (haw ▸ hba) hb⟩

/-- A detour may be made before two clusters are joined or afterwards. -/
theorem joined_plus (a b w : α) : joined (plus a w) (plus b w) w = plus (joined a b w) w := by
  rcases le_total a b with h | h
  · rw [joined_of_le h, joined_of_le (plus_mono w h), (plus_mono w).map_min]
  · rw [joined_comm, joined_comm a, joined_of_le h, joined_of_le (plus_mono w h),
      (plus_mono w).map_min]

/-- Two pairs of clusters, with their four distances across, are joined in either order. -/
def Interchange (a b c d w : α) : Prop :=
  joined (joined a b w) (joined c d w) w = joined (joined a c w) (joined b d w) w

theorem Interchange.symm (h : Interchange a b c d w) : Interchange a c b d w := Eq.symm h

theorem Interchange.swap (h : Interchange a b c d w) : Interchange b a d c w := by
  rw [Interchange, joined_comm b, joined_comm d, h, joined_comm]

theorem interchange_bot (a b c d : α) : Interchange a b c d ⊥ := by
  simp only [Interchange, joined_bot]
  exact min_min_min_comm a b c d

theorem interchange_self (a w : α) : Interchange a a a a w := rfl

/-- At most two links between the pairs do no harm, wherever they run. -/
theorem interchange_of_two_top (h : a = ⊤ ∧ b = ⊤ ∨ a = ⊤ ∧ c = ⊤ ∨ a = ⊤ ∧ d = ⊤ ∨ b = ⊤ ∧ c = ⊤ ∨
    b = ⊤ ∧ d = ⊤ ∨ c = ⊤ ∧ d = ⊤) : Interchange a b c d w := by
  have hpath (x y : α) : Interchange x y ⊤ ⊤ w := by
    simp only [Interchange, joined_top, plus_top, joined_plus]
  have hfork (x y : α) : Interchange ⊤ x y ⊤ w := by
    simp only [Interchange, joined_top, top_joined]
    rw [joined_comm]
  have hflip {x y z v : α} (h : Interchange x y z v w) : Interchange z v x y w := h.symm.swap.symm
  rcases h with ⟨rfl, rfl⟩ | ⟨rfl, rfl⟩ | ⟨rfl, rfl⟩ | ⟨rfl, rfl⟩ | ⟨rfl, rfl⟩ | ⟨rfl, rfl⟩
  · exact hflip (hpath c d)
  · exact (hflip (hpath b d)).symm
  · exact hfork b c
  · exact hflip (hfork d a)
  · exact (hpath a c).symm
  · exact hpath a b

end Detour

end RecordLinkage
