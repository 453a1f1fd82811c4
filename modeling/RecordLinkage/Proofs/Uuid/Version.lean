import RecordLinkage.Key
import RecordLinkage.Uuid.Source

namespace RecordLinkage

namespace Uuid

theorem version_eq (u : Uuid) : u.version = (u.bits.extractLsb' 76 4).toNat := by
  rw [version, BitVec.extractLsb'_toNat, Nat.shiftRight_eq_div_pow]

theorem extract_stamp (v : BitVec 4) (raw : BitVec 128) :
    (stamp v raw).bits.extractLsb' 76 4 = v := by
  ext i hi
  simp only [stamp, BitVec.getElem_extractLsb', BitVec.getLsbD_append]
  have h0 : ¬ 76 + i < 62 := by omega
  have h1 : ¬ 76 + i - 62 < 2 := by omega
  have h2 : ¬ 76 + i - 62 - 2 < 12 := by omega
  have h3 : 76 + i - 62 - 2 - 12 = i := by omega
  simp [h0, h1, h2, h3, hi]

theorem version_stamp (v : BitVec 4) (raw : BitVec 128) : (stamp v raw).version = v.toNat := by
  rw [version_eq, extract_stamp]

@[simp] theorem version_random (raw : BitVec 128) : (random raw).version = 4 := version_stamp 4 raw

@[simp] theorem version_named (space : Uuid) (name : List UInt8) : (named space name).version = 5 :=
  version_stamp 5 _

end Uuid

theorem EntityKey.version_singletonId (e : EntityKey) (g : GraphId) :
    (e.singletonId g).uuid.version = 5 := Uuid.version_named _ _

namespace IdSource

theorem version_draw (s : IdSource) : s.draw.1.version = 4 := by
  rw [draw]
  split <;> exact Uuid.version_random _

theorem drawFreeWithin_spec {taken : Uuid → Bool} {attempts : Nat} {s s' : IdSource} {u : Uuid}
    (h : drawFreeWithin taken attempts s = some (u, s')) : taken u = false ∧ u.version = 4 := by
  induction attempts generalizing s with
  | zero => cases h
  | succ n ih =>
    rw [drawFreeWithin] at h
    dsimp only at h
    split at h
    · exact ih h
    · rename_i hfree
      cases h
      exact ⟨by simpa using hfree, version_draw s⟩

/-- A drawn identifier is free, and of the version of random ones. -/
theorem drawFree_spec {s s' : IdSource} {taken : Uuid → Bool} {n : Nat} {u : Uuid}
    (h : s.drawFree taken n = some (u, s')) : taken u = false ∧ u.version = 4 :=
  drawFreeWithin_spec h

end IdSource

end RecordLinkage
