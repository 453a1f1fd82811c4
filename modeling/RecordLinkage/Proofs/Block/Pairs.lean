import RecordLinkage.Proofs.Block.Scored
import Mathlib.Data.List.Sym

namespace RecordLinkage

section Lists

variable {α : Type}

theorem pairsOf_cons (a : α) (l : List α) :
    pairsOf (a :: l) = (a :: l).map (fun b => (a, b)) ++ pairsOf l := rfl

theorem pairsOf_eq_nil_iff {l : List α} : pairsOf l = [] ↔ l = [] := by
  cases l <;> simp [pairsOf]

theorem length_pairsOf (l : List α) : (pairsOf l).length = l.length * (l.length + 1) / 2 := by
  induction l with
  | nil => simp [pairsOf]
  | cons a l ih =>
    have hdouble : (l.length + 1) * (l.length + 1 + 1) =
        l.length * (l.length + 1) + 2 * (l.length + 1) := by
      rw [← Nat.add_mul, Nat.mul_comm]
    simp only [pairsOf_cons, List.length_cons, List.length_append, List.length_map, ih]
    omega

/-- Without their order the pairs are the unordered pairs of the list. -/
theorem map_mk_pairsOf (l : List α) : (pairsOf l).map (fun p => s(p.1, p.2)) = l.sym2 := by
  induction l with
  | nil => rfl
  | cons a l ih =>
    rw [pairsOf_cons, List.map_append, List.map_map, ih]
    rfl

variable [SortKey α]

theorem pairsOf_ascending {l : List α} (h : l.Pairwise fun a b => compare a b = .lt) :
    (pairsOf l).Pairwise fun p q => compare p q = .lt := by
  induction l with
  | nil => exact .nil
  | cons a l ih =>
    obtain ⟨ha, hl⟩ := List.pairwise_cons.mp h
    rw [pairsOf_cons, List.pairwise_append, List.pairwise_map]
    refine ⟨h.imp fun {b c} hlt => ?_, ih hl, ?_⟩
    · show (compare a a).then (compare b c) = .lt
      rw [Std.compare_self, hlt]
      rfl
    · -- The first parts that come later are greater.
      rintro p hp ⟨b, c⟩ hq
      obtain ⟨b', -, rfl⟩ := List.mem_map.mp hp
      have hlt := ha b ((mem_pairsOf hl).mp hq).1
      show (compare a b).then (compare b' c) = .lt
      rw [hlt]
      rfl

theorem nodup_pairsOf {l : List α} (h : l.Pairwise fun a b => compare a b = .lt) :
    (pairsOf l).Nodup := (pairsOf_ascending h).imp SortKey.ne_of_lt

end Lists

theorem length_candidatePairs (entities : SortedSet EntityKey) :
    (candidatePairs entities).length = entities.size * (entities.size + 1) / 2 :=
  length_pairsOf entities.toList

theorem candidatePairs_ascending (entities : SortedSet EntityKey) :
    (candidatePairs entities).Pairwise fun p q => compare p q = .lt :=
  pairsOf_ascending entities.ascending

/-- Half of the even factor times the other one is half of the product. -/
theorem half_mul_succ (n : Nat) :
    (if n % 2 = 0 then n / 2 * (n + 1) else n * (n / 2 + 1)) = n * (n + 1) / 2 := by
  split
  · rename_i heven
    rw [Nat.div_mul_right_comm (Nat.dvd_of_mod_eq_zero heven)]
  · rename_i hodd
    have hnext : n / 2 + 1 = (n + 1) / 2 := by omega
    rw [hnext, Nat.mul_div_assoc n (by omega)]

theorem pairCount_eq_min (n : Nat) : pairCount n = min (n * (n + 1) / 2) counterMax := by
  rw [pairCount, half_mul_succ]

theorem pairCount_eq {n : Nat} (h : n * (n + 1) / 2 < 18446744073709551616) :
    pairCount n = n * (n + 1) / 2 := by
  rw [pairCount_eq_min]
  exact Nat.min_eq_left (by rw [counterMax]; omega)

/-- The next word of 64 bits; there is none after the largest. -/
def nextWord (n : UInt64) : Option UInt64 := if n.toNat = counterMax then none else some (n + 1)

def mulWord (a b : UInt64) : UInt64 := .ofNat (min (a.toNat * b.toNat) counterMax)

/-- The number of pairs in words of 64 bits. `none` where a sum would leave its word. -/
def pairCountWord (n : UInt64) : Option UInt64 :=
  if n % 2 = 0 then (nextWord n).map (mulWord (n / 2)) else (nextWord (n / 2)).map (mulWord n)

theorem toNat_mulWord (a b : UInt64) : (mulWord a b).toNat = min (a.toNat * b.toNat) counterMax := by
  have hmax : min (a.toNat * b.toNat) counterMax < UInt64.size :=
    Nat.lt_of_le_of_lt (Nat.min_le_right ..) (by decide)
  exact UInt64.toNat_ofNat_of_lt hmax

theorem nextWord_eq_some {n : UInt64} (h : n.toNat < counterMax) :
    ∃ n', nextWord n = some n' ∧ n'.toNat = n.toNat + 1 := by
  refine ⟨n + 1, if_neg (Nat.ne_of_lt h), ?_⟩
  rw [UInt64.toNat_add, UInt64.toNat_one, Nat.mod_eq_of_lt]
  rw [counterMax] at h
  omega

/-- No sum leaves its word, since the largest word is odd. -/
theorem pairCountWord_eq (n : UInt64) :
    ∃ c, pairCountWord n = some c ∧ c.toNat = pairCount n.toNat := by
  have hhalf : (n / 2).toNat = n.toNat / 2 := UInt64.toNat_div n 2
  have hmod : n % 2 = 0 ↔ n.toNat % 2 = 0 := by
    rw [← UInt64.toNat_inj, UInt64.toNat_mod]
    rfl
  have hlimit : n.toNat ≤ counterMax := Nat.le_of_lt_succ n.toNat_lt_size
  rw [pairCountWord, pairCount]
  split
  · rename_i heven
    have hless : n.toNat < counterMax := by
      have hodd : counterMax % 2 = 1 := rfl
      rw [hmod] at heven
      omega
    obtain ⟨n', hnext, hvalue⟩ := nextWord_eq_some hless
    refine ⟨_, by rw [hnext]; rfl, ?_⟩
    rw [toNat_mulWord, hvalue, hhalf, if_pos (hmod.mp heven)]
  · rename_i hodd
    have hless : (n / 2).toNat < counterMax := by
      have hpos : 0 < counterMax := by decide
      omega
    obtain ⟨n', hnext, hvalue⟩ := nextWord_eq_some hless
    refine ⟨_, by rw [hnext]; rfl, ?_⟩
    rw [toNat_mulWord, hvalue, hhalf, if_neg (mt hmod.mpr hodd)]

example : pairCountWord 0xffffffff = some 0x7fffffff80000000 := by decide

end RecordLinkage
