import RecordLinkage.Scoring.Features
import RecordLinkage.Proofs.Sorted.Domain
import RecordLinkage.Proofs.Sorted.Ext
import Mathlib.Data.NNRat.Floor
import Mathlib.Tactic.FieldSimp
import Mathlib.Tactic.Positivity

namespace RecordLinkage

namespace Binary64

/-- Numerator and denominator may share a factor. -/
theorem nearest_mul_left {k : Nat} (hk : 0 < k) (num den : Nat) :
    nearest (k * num) (k * den) = nearest num den := by
  have hup (step low rest : Nat) :
      (k * step < 2 * (k * rest) ∨ k * step = 2 * (k * rest) ∧ low % 2 = 1) ↔
        (step < 2 * rest ∨ step = 2 * rest ∧ low % 2 = 1) := by
    rw [Nat.mul_left_comm 2 k rest, Nat.mul_lt_mul_left hk, Nat.mul_right_inj hk.ne']
  simp only [nearest, Nat.mul_assoc k den, Nat.mul_div_mul_left num _ hk, Nat.mul_mod_mul_left, hup]

def ofExact (q : ℚ≥0) : Binary64 := ofRatio q.num q.den

theorem ofExact_div (num : ℕ) {den : ℕ} (hden : den ≠ 0) :
    ofExact (num / den) = ofRatio num den := by
  have hcross : (num / den : ℚ≥0).num * den = num * (num / den : ℚ≥0).den := by
    have h := NNRat.num_div_den (num / den : ℚ≥0)
    rw [div_eq_div_iff (by positivity) (by positivity)] at h
    exact_mod_cast h
  have hpos := (num / den : ℚ≥0).den_pos
  have hnum : den * ((num / den : ℚ≥0).num * unitsPerOne) =
      (num / den : ℚ≥0).den * (num * unitsPerOne) := by
    rw [← Nat.mul_assoc, Nat.mul_comm den, hcross, Nat.mul_comm num, Nat.mul_assoc]
  rw [ofExact, ofRatio, ofRatio, ← nearest_mul_left hden.bot_lt, hnum, Nat.mul_comm den,
    nearest_mul_left hpos]

theorem ofExact_one : ofExact 1 = ofNat 1 := by
  have h := ofExact_div 1 one_ne_zero
  rwa [Nat.cast_one, div_one] at h

theorem ofExact_zero : ofExact 0 = zero := by
  have h := ofExact_div 0 one_ne_zero
  rw [Nat.cast_zero, zero_div, ofRatio, Nat.zero_mul] at h
  exact h.trans (by decide)

end Binary64

namespace PropertyIndex

variable {l : List PropertyId} {seen : SortedSet PropertyId} {p : PropertyId}

theorem mem_distinct : p ∈ distinct l seen ↔ p ∈ l ∧ ¬ p ∈ seen := by
  induction l generalizing seen with
  | nil => simp [distinct]
  | cons q l ih =>
    rw [distinct]
    split
    · rename_i hq
      rw [SortedSet.contains_iff] at hq
      rw [ih, List.mem_cons]
      constructor
      · rintro ⟨hp, hseen⟩
        exact ⟨.inr hp, hseen⟩
      · rintro ⟨rfl | hp, hseen⟩
        · exact absurd hq hseen
        · exact ⟨hp, hseen⟩
    · rename_i hq
      rw [SortedSet.contains_iff] at hq
      rw [List.mem_cons, ih, SortedSet.mem_insert, not_or, List.mem_cons]
      constructor
      · rintro (rfl | ⟨hp, -, hseen⟩)
        · exact ⟨.inl rfl, hq⟩
        · exact ⟨.inr hp, hseen⟩
      · rintro ⟨rfl | hp, hseen⟩
        · exact .inl rfl
        · by_cases hpq : p = q
          · exact .inl hpq
          · exact .inr ⟨hp, hpq, hseen⟩

theorem distinct_ordered :
    (distinct l seen).Pairwise fun p q => l.idxOf p < l.idxOf q := by
  induction l generalizing seen with
  | nil => exact .nil
  | cons p l ih =>
    have hlater {q r : PropertyId} (hq : q ≠ p) (hr : r ≠ p) (h : l.idxOf q < l.idxOf r) :
        (p :: l).idxOf q < (p :: l).idxOf r := by
      rw [List.idxOf_cons_ne _ hq.symm, List.idxOf_cons_ne _ hr.symm]
      exact Nat.succ_lt_succ h
    rw [distinct]
    split
    · rename_i hp
      rw [SortedSet.contains_iff] at hp
      have hne {q : PropertyId} (hq : q ∈ distinct l seen) : q ≠ p := by
        rintro rfl
        exact (mem_distinct.mp hq).2 hp
      exact ih.imp_of_mem fun hq hr => hlater (hne hq) (hne hr)
    · have hne {q : PropertyId} (hq : q ∈ distinct l (seen.insert p)) : q ≠ p := by
        rintro rfl
        exact (mem_distinct.mp hq).2 (SortedSet.mem_insert.mpr (.inl rfl))
      refine List.pairwise_cons.mpr ⟨fun q hq => ?_, ih.imp_of_mem fun hq hr => hlater (hne hq) (hne hr)⟩
      rw [List.idxOf_cons_self, List.idxOf_cons_ne _ (hne hq).symm]
      exact Nat.succ_pos _

end PropertyIndex

namespace Entity

def values (e : Entity) (p : PropertyId) : SortedSet String := (e.values? p).getD ∅

/-- Every property that is listed has a value. -/
def Tidy (e : Entity) : Prop := ∀ p s, e.values? p = some s → ∃ v, v ∈ s

variable {e e' : Entity} {p q : PropertyId} {v w : String} {l l' : List (PropertyId × String)}

theorem values?_insert (e : Entity) (p q : PropertyId) (v : String) :
    (e.insert p v).values? q = if p = q then some ((e.values p).insert v) else e.values? q :=
  SortedMap.get?_alter e.properties p q _

theorem mem_values_insert : w ∈ (e.insert p v).values q ↔ (q, w) = (p, v) ∨ w ∈ e.values q := by
  rw [values, values?_insert, Prod.mk.injEq]
  split
  · rename_i h
    subst h
    rw [Option.getD_some, SortedSet.mem_insert]
    simp
  · rename_i h
    simp [Ne.symm h, values]

theorem Tidy.insert (h : e.Tidy) : (e.insert p v).Tidy := by
  intro q s hq
  rw [values?_insert] at hq
  split at hq
  · cases hq
    exact ⟨v, SortedSet.mem_insert.mpr (.inl rfl)⟩
  · exact h q s hq

/-- The values of tidy entities determine them. -/
theorem Tidy.ext (h : e.Tidy) (h' : e'.Tidy) (hv : ∀ p v, v ∈ e.values p ↔ v ∈ e'.values p) :
    e = e' := by
  suffices hproperties : e.properties = e'.properties by
    cases e
    cases e'
    cases hproperties
    rfl
  apply SortedMap.ext_get?
  intro p
  show e.values? p = e'.values? p
  have hp := hv p
  simp only [values] at hp
  -- A property without values is not listed, so that no values and an absent property are the same.
  cases he : e.values? p with
  | none =>
    cases he' : e'.values? p with
    | none => rfl
    | some s' =>
      obtain ⟨v, hs'⟩ := h' p s' he'
      rw [he, he'] at hp
      exact absurd ((hp v).mpr hs') (SortedBy.not_mem_empty v)
  | some s =>
    obtain ⟨v, hs⟩ := h p s he
    cases he' : e'.values? p with
    | none =>
      rw [he, he'] at hp
      exact absurd ((hp v).mp hs) (SortedBy.not_mem_empty v)
    | some s' =>
      rw [he, he'] at hp
      exact congrArg some (SortedBy.ext_mem hp)

theorem tidy_ofList (l : List (PropertyId × String)) : (ofList l).Tidy := by
  induction l using List.reverseRecOn with
  | nil =>
    intro p s h
    cases h
  | append_singleton l x ih =>
    rw [ofList, List.foldl_append]
    exact ih.insert

def inserted (l : List (PropertyId × String)) (p : PropertyId) : Finset String :=
  ((l.filter fun x => x.1 = p).map Prod.snd).toFinset

theorem mem_inserted : v ∈ inserted l p ↔ (p, v) ∈ l := by
  simp [inserted]

theorem mem_values_ofList : v ∈ (ofList l).values p ↔ (p, v) ∈ l := by
  induction l using List.reverseRecOn with
  | nil => exact iff_of_false (SortedBy.not_mem_empty v) List.not_mem_nil
  | append_singleton l x ih =>
    rw [ofList, List.foldl_append, List.foldl_cons, List.foldl_nil, mem_values_insert, List.mem_append,
      List.mem_singleton, or_comm]
    exact or_congr ih Iff.rfl

theorem toFinset_values (l : List (PropertyId × String)) (p : PropertyId) :
    SortedSet.toFinset ((ofList l).values p) = inserted l p := by
  ext v
  rw [SortedSet.mem_toFinset, mem_values_ofList, mem_inserted]

/-- Neither the order of insertions counts nor how often one is made. -/
theorem ofList_congr (h : ∀ x, x ∈ l ↔ x ∈ l') : ofList l = ofList l' :=
  (tidy_ofList l).ext (tidy_ofList l') fun p v => by
    rw [mem_values_ofList, mem_values_ofList, h]

end Entity

namespace Overlap

def exactMatch (A B : Finset String) : ℚ≥0 := if (A ∩ B).Nonempty then 1 else 0

/-- The shared part of two sets; of two empty ones nothing is shared. -/
def jaccard (A B : Finset String) : ℚ≥0 := (A ∩ B).card / (A ∪ B).card

variable {A B : Finset String}

theorem row_ofSets (s t : SortedSet String) : (ofSets s t).row =
    [.ofExact (exactMatch (SortedSet.toFinset s) (SortedSet.toFinset t)),
     .ofExact (jaccard (SortedSet.toFinset s) (SortedSet.toFinset t))] := by
  have hshared : (ofSets s t).shared = (SortedSet.toFinset s ∩ SortedSet.toFinset t).card := by
    rw [← SortedSet.toFinset_inter, SortedSet.card_toFinset, ofSets]
  have htotal : (ofSets s t).total = (SortedSet.toFinset s ∪ SortedSet.toFinset t).card := by
    rw [← SortedSet.toFinset_union, SortedSet.card_toFinset, ofSets]
  have hexact : (if (ofSets s t).exact then .ofNat 1 else .zero) =
      Binary64.ofExact (exactMatch (SortedSet.toFinset s) (SortedSet.toFinset t)) := by
    rw [exact, exactMatch, hshared]
    simp only [decide_eq_true_eq, Finset.card_pos]
    split
    · exact Binary64.ofExact_one.symm
    · exact Binary64.ofExact_zero.symm
  have hjaccard : (if (ofSets s t).total = 0 then .zero
      else .ofRatio (ofSets s t).shared (ofSets s t).total) =
      Binary64.ofExact (jaccard (SortedSet.toFinset s) (SortedSet.toFinset t)) := by
    rw [jaccard, ← hshared, ← htotal]
    split
    · rename_i hzero
      rw [hzero, Nat.cast_zero, div_zero, Binary64.ofExact_zero]
    · rename_i hzero
      rw [Binary64.ofExact_div _ hzero]
  rw [row, hexact, hjaccard]

theorem exactMatch_comm (A B : Finset String) : exactMatch A B = exactMatch B A := by
  rw [exactMatch, exactMatch, Finset.inter_comm]

theorem jaccard_comm (A B : Finset String) : jaccard A B = jaccard B A := by
  rw [jaccard, jaccard, Finset.inter_comm, Finset.union_comm]

theorem jaccard_pos_iff : 0 < jaccard A B ↔ (A ∩ B).Nonempty := by
  rw [jaccard, ← Finset.card_pos]
  constructor
  · intro h
    by_contra hzero
    rw [Nat.eq_zero_of_not_pos hzero, Nat.cast_zero, zero_div] at h
    exact lt_irrefl _ h
  · intro h
    have htotal := h.trans_le (Finset.card_le_card Finset.inter_subset_union)
    positivity

theorem jaccard_le_one : jaccard A B ≤ 1 := by
  rw [jaccard]
  exact div_le_one_of_le₀ (Nat.cast_le.mpr (Finset.card_le_card Finset.inter_subset_union))
    zero_le

theorem jaccard_le_exactMatch : jaccard A B ≤ exactMatch A B := by
  rw [exactMatch]
  split
  · exact jaccard_le_one
  · rename_i h
    exact not_lt.mp (jaccard_pos_iff.not.mpr h)

theorem exactMatch_le_one : exactMatch A B ≤ 1 := by
  rw [exactMatch]
  split
  · exact le_rfl
  · exact zero_le_one

theorem exactMatch_eq_one_iff : exactMatch A B = 1 ↔ (A ∩ B).Nonempty := by
  rw [exactMatch]
  split
  · rename_i h
    exact iff_of_true rfl h
  · rename_i h
    exact iff_of_false zero_ne_one h

/-- All is shared just if the sets are equal and there is something to share. -/
theorem jaccard_eq_one_iff : jaccard A B = 1 ↔ A = B ∧ A.Nonempty := by
  constructor
  · intro h
    have hmeet : (A ∩ B).Nonempty := jaccard_pos_iff.mp (by rw [h]; exact zero_lt_one)
    have htotal : ((A ∪ B).card : ℚ≥0) ≠ 0 := by
      intro hzero
      rw [jaccard, hzero, div_zero] at h
      exact zero_ne_one h
    rw [jaccard, div_eq_one_iff_eq htotal, Nat.cast_inj] at h
    have hsame := Finset.eq_of_subset_of_card_le Finset.inter_subset_union h.ge
    have hAB : A = B := inf_eq_sup.mp hsame
    rw [← hAB, Finset.inter_self] at hmeet
    exact ⟨hAB, hmeet⟩
  · rintro ⟨rfl, hA⟩
    rw [jaccard, Finset.inter_self, Finset.union_self]
    exact div_self (Nat.cast_ne_zero.mpr hA.card_pos.ne')

end Overlap

theorem overlapFeatures_ofList (la lb : List (PropertyId × String)) (index : PropertyIndex) :
    overlapFeatures (.ofList la) (.ofList lb) index = .ok (index.properties.map fun p =>
      [.ofExact (Overlap.exactMatch (Entity.inserted la p) (Entity.inserted lb p)),
       .ofExact (Overlap.jaccard (Entity.inserted la p) (Entity.inserted lb p))]) := by
  rw [overlapFeatures, overlaps, List.map_map]
  refine congrArg Outcome.ok (List.map_congr_left fun p _ => ?_)
  rw [← Entity.toFinset_values, ← Entity.toFinset_values]
  exact Overlap.row_ofSets _ _

/-- The features of two entities compare the sets of their values, property by property, in the order
in which the properties occur first. -/
theorem features_compare_value_sets (properties : List PropertyId)
    (la lb : List (PropertyId × String)) :
    (∀ p, p ∈ (PropertyIndex.ofList properties).properties ↔ p ∈ properties) ∧
    (PropertyIndex.ofList properties).properties.Pairwise
      (fun p q => properties.idxOf p < properties.idxOf q) ∧
    overlapFeatures (.ofList la) (.ofList lb) (.ofList properties) =
      .ok ((PropertyIndex.ofList properties).properties.map fun p =>
        [.ofExact (Overlap.exactMatch (Entity.inserted la p) (Entity.inserted lb p)),
         .ofExact (Overlap.jaccard (Entity.inserted la p) (Entity.inserted lb p))]) ∧
    overlapFeatures (.ofList lb) (.ofList la) (.ofList properties) =
      overlapFeatures (.ofList la) (.ofList lb) (.ofList properties) ∧
    (∀ la', (∀ x, x ∈ la' ↔ x ∈ la) → Entity.ofList la' = Entity.ofList la) ∧
    ∀ p, let exact := Overlap.exactMatch (Entity.inserted la p) (Entity.inserted lb p)
      let jaccard := Overlap.jaccard (Entity.inserted la p) (Entity.inserted lb p)
      0 ≤ jaccard ∧ jaccard ≤ exact ∧ exact ≤ 1 ∧ (exact = 1 ↔ 0 < jaccard) ∧
      (0 < jaccard ↔ ∃ v, (p, v) ∈ la ∧ (p, v) ∈ lb) ∧
      (jaccard = 1 ↔ (∀ v, (p, v) ∈ la ↔ (p, v) ∈ lb) ∧ ∃ v, (p, v) ∈ la) := by
  have hrows (p : PropertyId) : p ∈ (PropertyIndex.ofList properties).properties ↔ p ∈ properties :=
    PropertyIndex.mem_distinct.trans (and_iff_left (SortedBy.not_mem_empty p))
  refine ⟨hrows, PropertyIndex.distinct_ordered, overlapFeatures_ofList la lb _, ?_, ?_, ?_⟩
  · rw [overlapFeatures_ofList, overlapFeatures_ofList]
    refine congrArg Outcome.ok (List.map_congr_left fun p _ => ?_)
    rw [Overlap.exactMatch_comm, Overlap.jaccard_comm]
  · exact fun la' h => Entity.ofList_congr h
  · intro p exact jaccard
    have hmeet : (Entity.inserted la p ∩ Entity.inserted lb p).Nonempty ↔
        ∃ v, (p, v) ∈ la ∧ (p, v) ∈ lb :=
      exists_congr fun v => by rw [Finset.mem_inter, Entity.mem_inserted, Entity.mem_inserted]
    have hsame : Entity.inserted la p = Entity.inserted lb p ↔ ∀ v, (p, v) ∈ la ↔ (p, v) ∈ lb := by
      rw [Finset.ext_iff]
      exact forall_congr' fun v => by rw [Entity.mem_inserted, Entity.mem_inserted]
    have hvalue : (Entity.inserted la p).Nonempty ↔ ∃ v, (p, v) ∈ la :=
      exists_congr fun v => Entity.mem_inserted
    refine ⟨zero_le, Overlap.jaccard_le_exactMatch, Overlap.exactMatch_le_one,
      Overlap.exactMatch_eq_one_iff.trans Overlap.jaccard_pos_iff.symm,
      Overlap.jaccard_pos_iff.trans hmeet, ?_⟩
    rw [← hsame, ← hvalue]
    exact Overlap.jaccard_eq_one_iff

/-- Two names and a date, put in twice in different orders, against one of the names: the date comes
first in the index. -/
theorem repeatedInserts_alike :
    let name : PropertyId := ⟨⟨1⟩⟩
    let born : PropertyId := ⟨⟨2⟩⟩
    let told := [(name, "ann"), (name, "anne"), (born, "1970")]
    let retold := [(born, "1970"), (name, "anne"), (name, "ann"), (name, "anne")]
    (∀ x, x ∈ retold ↔ x ∈ told) ∧ Entity.ofList retold = Entity.ofList told ∧
      overlaps (.ofList retold) (.ofList [(name, "anne")]) (.ofList [born, name, born]) =
        [⟨0, 1⟩, ⟨1, 2⟩] := by
  intro name born told retold
  have hsame : ∀ x, x ∈ retold ↔ x ∈ told := by
    intro x
    simp only [retold, told, List.mem_cons, List.not_mem_nil, or_false]
    tauto
  exact ⟨hsame, (features_compare_value_sets [born, name, born] told [(name, "anne")]).2.2.2.2.1
    retold hsame, by decide +kernel⟩

end RecordLinkage
