import RecordLinkage.Proofs.Uuid.Version

namespace RecordLinkage

namespace Uuid

theorem stamp_stamp (v : BitVec 4) (raw : BitVec 128) : stamp v (stamp v raw).bits = stamp v raw := by
  have hhigh : (stamp v raw).bits.extractLsb' 80 48 = raw.extractLsb' 80 48 := by
    ext i hi
    simp only [stamp, BitVec.getElem_extractLsb', BitVec.getLsbD_append]
    have h0 : ¬ 80 + i < 62 := by omega
    have h1 : ¬ 80 + i - 62 < 2 := by omega
    have h2 : ¬ 80 + i - 62 - 2 < 12 := by omega
    have h3 : ¬ 80 + i - 62 - 2 - 12 < 4 := by omega
    have h4 : 80 + i - 62 - 2 - 12 - 4 = i := by omega
    simp [h0, h1, h2, h3, h4, hi]
  have hmiddle : (stamp v raw).bits.extractLsb' 64 12 = raw.extractLsb' 64 12 := by
    ext i hi
    simp only [stamp, BitVec.getElem_extractLsb', BitVec.getLsbD_append]
    have h0 : ¬ 64 + i < 62 := by omega
    have h1 : ¬ 64 + i - 62 < 2 := by omega
    have h2 : 64 + i - 62 - 2 = i := by omega
    simp [h0, h1, h2, hi]
  have hlow : (stamp v raw).bits.extractLsb' 0 62 = raw.extractLsb' 0 62 := by
    ext i hi
    simp only [stamp, BitVec.getElem_extractLsb', BitVec.getLsbD_append]
    simp [hi]
  rw [stamp, hhigh, hmiddle, hlow, stamp]

end Uuid

namespace IdSource

variable {taken : Uuid → Bool} {attempts n : Nat} {s s' : IdSource} {u : Uuid}

def drawnWithin (taken : Uuid → Bool) : Nat → IdSource → List Uuid
  | 0, _ => []
  | attempts + 1, s =>
    s.draw.1 :: if taken s.draw.1 then drawnWithin taken attempts s.draw.2 else []

/-- The identifiers that are drawn for one vertex, those that turn out to be taken included. -/
def drawn (s : IdSource) (taken : Uuid → Bool) (takenCount : Nat) : List Uuid :=
  drawnWithin taken (s.listed.length + takenCount + 1) s

theorem draw_listed (s : IdSource) (rest : List Uuid) (x : BitVec 64) :
    draw ⟨s.draw.1 :: rest, x⟩ = (s.draw.1, ⟨rest, x⟩) := by
  obtain ⟨raw, hraw⟩ : ∃ raw, s.draw.1 = .random raw := by
    rw [draw]
    split <;> exact ⟨_, rfl⟩
  rw [hraw]
  exact congrArg (·, _) (Uuid.stamp_stamp 4 raw)

theorem drawFreeWithin_listed (h : drawFreeWithin taken attempts s = some (u, s'))
    (hn : (drawnWithin taken attempts s).length ≤ n) (rest : List Uuid) (x : BitVec 64) :
    drawFreeWithin taken n ⟨drawnWithin taken attempts s ++ rest, x⟩ = some (u, ⟨rest, x⟩) := by
  induction attempts generalizing s n with
  | zero => cases h
  | succ attempts ih =>
    rw [drawnWithin, List.length_cons] at hn
    obtain ⟨n, rfl⟩ := Nat.exists_eq_succ_of_ne_zero (Nat.ne_of_gt (Nat.zero_lt_of_lt hn))
    rw [drawFreeWithin] at h
    rw [drawnWithin, List.cons_append, drawFreeWithin, draw_listed]
    dsimp only at h ⊢
    split at h
    · rename_i htaken
      rw [if_pos htaken] at hn
      rw [if_pos htaken, if_pos htaken]
      exact ih h (Nat.le_of_succ_le_succ hn)
    · rename_i hfree
      cases h
      rw [if_neg hfree, if_neg hfree, List.nil_append]

/-- A source that lists what was drawn serves as well as the one it was drawn from. -/
theorem drawFree_listed (h : s.drawFree taken n = some (u, s')) (rest : List Uuid) (x : BitVec 64) :
    drawFree ⟨s.drawn taken n ++ rest, x⟩ taken n = some (u, ⟨rest, x⟩) := by
  refine drawFreeWithin_listed h ?_ rest x
  show (s.drawn taken n).length ≤ (s.drawn taken n ++ rest).length + n + 1
  rw [List.length_append]
  omega

end IdSource

end RecordLinkage
