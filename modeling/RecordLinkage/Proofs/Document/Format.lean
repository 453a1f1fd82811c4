import RecordLinkage.Document.Basic
import RecordLinkage.Proofs.Uuid.Text
import Mathlib.Data.List.Nodup

namespace RecordLinkage

variable {W : Type} {F : Format W} {fields fields' extra : List (String × W)} {names : List String}
  {n : String} {w : W}

theorem lookup_eq_some_iff_mem (h : fields.countP (·.1 == n) ≤ 1) :
    fields.lookup n = some w ↔ (n, w) ∈ fields := by
  induction fields with
  | nil => simp
  | cons p fields ih =>
    obtain ⟨m, e⟩ := p
    rw [List.lookup_cons, List.mem_cons]
    rw [List.countP_cons] at h
    by_cases hm : m = n
    · subst hm
      simp only [beq_self_eq_true, if_true] at h ⊢
      have hnone : (m, w) ∉ fields := by
        intro hw
        have hzero : fields.countP (·.1 == m) = 0 := by omega
        exact List.countP_eq_zero.mp hzero _ hw (by simp)
      simp [hnone, eq_comm]
    · have hne : (n == m) = false := by simpa using Ne.symm hm
      simp only [hne, beq_eq_false_iff_ne.mpr hm] at h ⊢
      rw [ih (by simpa using h)]
      simp [Ne.symm hm]

theorem countP_eq_of_perm (hperm : fields'.Perm (fields ++ extra))
    (hextra : ∀ p ∈ extra, p.1 ≠ n) : fields'.countP (·.1 == n) = fields.countP (·.1 == n) := by
  have hzero : extra.countP (·.1 == n) = 0 :=
    List.countP_eq_zero.mpr fun p hp he => hextra p hp (eq_of_beq he)
  rw [hperm.countP_eq, List.countP_append, hzero, Nat.add_zero]

/-- What stands once is found in any order and among any others. -/
theorem lookup_eq_of_perm (hperm : fields'.Perm (fields ++ extra)) (hextra : ∀ p ∈ extra, p.1 ≠ n)
    (honce : fields.countP (·.1 == n) ≤ 1) : fields'.lookup n = fields.lookup n := by
  have honce' : fields'.countP (·.1 == n) ≤ 1 := by rwa [countP_eq_of_perm hperm hextra]
  refine Option.ext fun w => ?_
  rw [lookup_eq_some_iff_mem honce', lookup_eq_some_iff_mem honce, hperm.mem_iff, List.mem_append]
  exact or_iff_left fun hw => hextra _ hw rfl

theorem countP_le_one_of_nodup (h : (fields.map Prod.fst).Nodup) (n : String) :
    fields.countP (·.1 == n) ≤ 1 := by
  have hcount : (fields.map Prod.fst).count n ≤ 1 := List.nodup_iff_count_le_one.mp h n
  rwa [List.count, List.countP_map] at hcount

namespace Format

/-- What is relied on in a format: its readers read what its writers wrote. Records are read by the
names of their fields, identifiers at least in the text in which they are written. Nothing is said
of real numbers. -/
structure Lawful (F : Format W) : Prop where
  text_read : ∀ s, F.text? (F.text s) = some s
  nat_read : ∀ {largest n : Nat}, n ≤ largest → F.nat? largest (F.nat n) = some n
  nat_le : ∀ {largest n : Nat} {w : W}, F.nat? largest w = some n → n ≤ largest
  list_read : ∀ items, F.list? (F.list items) = some items
  fields_read : ∀ {names : List String} {fields : List (String × W)},
    (∀ n ∈ names, fields.countP (·.1 == n) ≤ 1) →
      F.fields? names (F.record fields) = some fun n => if n ∈ names then fields.lookup n else none
  entries_read : ∀ {fields : List (String × W)}, (fields.map Prod.fst).Nodup →
    F.entries? (F.record fields) = some fields
  name_read : ∀ {names : List String} {n : String}, n ∈ names →
    F.name? names (F.text n) = some n
  tagged_read : ∀ {tag n : String} {fields : List (String × W)},
    fields.countP (·.1 == tag) = 1 → fields.lookup tag = some (F.text n) →
      F.tagged? tag (F.record fields) = some (n, F.record (fields.filter (·.1 != tag)))
  uuid_read : ∀ u, F.uuid? (F.uuid u) = some u

/-- The format gives a number back as it was. -/
def Returns (F : Format W) (x : Binary64) : Prop := F.real? (F.real x) = some x

theorem Lawful.uuid_injective (h : F.Lawful) : Function.Injective F.uuid := fun u v huv =>
  Option.some.inj ((h.uuid_read u).symm.trans (huv ▸ h.uuid_read v))

/-- The fields of a record are read in any order and among any others. -/
theorem Lawful.fields_eq_of_perm (h : F.Lawful) (honce : ∀ n ∈ names, fields.countP (·.1 == n) ≤ 1)
    (hperm : fields'.Perm (fields ++ extra)) (hextra : ∀ p ∈ extra, p.1 ∉ names) :
    F.fields? names (F.record fields') = F.fields? names (F.record fields) := by
  have hother : ∀ n ∈ names, ∀ p ∈ extra, p.1 ≠ n := fun n hn p hp he => hextra p hp (he ▸ hn)
  have honce' : ∀ n ∈ names, fields'.countP (·.1 == n) ≤ 1 := fun n hn => by
    rw [countP_eq_of_perm hperm (hother n hn)]
    exact honce n hn
  rw [h.fields_read honce, h.fields_read honce']
  refine congrArg some (funext fun n => ?_)
  split
  · rename_i hn
    exact lookup_eq_of_perm hperm (hother n hn) (honce n hn)
  · rfl

end Format

namespace Document

theorem nat?_eq_some {largest k : Nat} {d : Document} :
    nat? largest d = some k ↔ d = .int k ∧ k ≤ largest := by
  cases d with
  | int i =>
    rw [nat?, Document.int.injEq]
    split_ifs with h
    · rw [Option.some.injEq]
      omega
    · refine iff_of_false (by simp) ?_
      rintro ⟨rfl, hk⟩
      omega
  | _ => simp [nat?]

theorem fields?_record {names : List String} {fields : List (String × Document)}
    (h : ∀ n ∈ names, fields.countP (·.1 == n) ≤ 1) :
    fields? names (.record fields) =
      some fun n => if n ∈ names then fields.lookup n else none := by
  rw [fields?, if_pos h]

theorem name?_text {names : List String} {n : String} (h : n ∈ names) :
    name? names (.text n) = some n := by
  rw [name?, Option.guard, if_pos (List.contains_iff_mem.mpr h)]

theorem tagged?_record {tag n : String} {fields : List (String × Document)}
    (honce : fields.countP (·.1 == tag) = 1) (hname : fields.lookup tag = some (.text n)) :
    tagged? tag (.record fields) = some (n, .record (fields.filter (·.1 != tag))) := by
  rw [tagged?, if_pos honce, hname]
  rfl

theorem format_lawful : format.Lawful where
  text_read _ := rfl
  nat_read h := nat?_eq_some.mpr ⟨rfl, h⟩
  nat_le h := (nat?_eq_some.mp h).2
  list_read _ := rfl
  fields_read := fields?_record
  entries_read _ := rfl
  name_read := name?_text
  tagged_read := tagged?_record
  uuid_read u := by
    simp only [format, Uuid.ofText?_text]

/-- The finite numbers are those that documents keep. -/
theorem format_returns {x : Binary64} : format.Returns x ↔ x.isFinite = true := by
  show real? (if x.isFinite then .real x else .null) = some x ↔ _
  split
  · rename_i h
    simp [real?, Option.guard, h]
  · rename_i h
    simp [real?, h]

end Document

end RecordLinkage
