import RecordLinkage.Sorted.Map

namespace RecordLinkage.SortedBy

variable {α κ : Type} [SortKey κ] {key : α → κ}

instance : Membership α (SortedBy key) := ⟨fun s a => a ∈ s.toList⟩

theorem mem_def {s : SortedBy key} {a : α} : a ∈ s ↔ a ∈ s.toList := Iff.rfl

@[simp] theorem not_mem_empty (a : α) : ¬ a ∈ (∅ : SortedBy key) := List.not_mem_nil

theorem eq_of_key_eq {s : SortedBy key} {a b : α} (ha : a ∈ s) (hb : b ∈ s)
    (h : key a = key b) : a = b := by
  obtain ⟨l, hl⟩ := s
  rw [mem_def] at ha hb
  dsimp only at ha hb
  induction l with
  | nil => cases ha
  | cons c l ih =>
    rw [List.pairwise_cons] at hl
    rcases List.mem_cons.mp ha with rfl | ha' <;> rcases List.mem_cons.mp hb with rfl | hb'
    · rfl
    · exact absurd h (SortKey.ne_of_lt (hl.1 b hb'))
    · exact absurd h.symm (SortKey.ne_of_lt (hl.1 a ha'))
    · exact ih hl.2 ha' hb'

theorem find?_eq_some_iff {s : SortedBy key} {k : κ} {a : α} :
    s.find? k = some a ↔ a ∈ s ∧ key a = k := by
  constructor
  · intro h
    have hk : compare (key a) k = .eq := by simpa using List.find?_some h
    exact ⟨List.mem_of_find?_eq_some h, SortKey.compare_eq_eq.mp hk⟩
  · rintro ⟨ha, rfl⟩
    have hs : (s.find? (key a)).isSome := by
      refine List.find?_isSome.mpr ⟨a, ha, ?_⟩
      simp [Std.compare_self]
    obtain ⟨b, hb⟩ := Option.isSome_iff_exists.mp hs
    have hk : compare (key b) (key a) = .eq := by simpa using List.find?_some hb
    have hba := eq_of_key_eq (List.mem_of_find?_eq_some hb) ha (SortKey.compare_eq_eq.mp hk)
    rw [hb, hba]

theorem find?_eq_none_iff {s : SortedBy key} {k : κ} :
    s.find? k = none ↔ ∀ a ∈ s, key a ≠ k := by
  rw [Option.eq_none_iff_forall_not_mem]
  constructor
  · intro h a ha hk
    exact h a (find?_eq_some_iff.mpr ⟨ha, hk⟩)
  · intro h a ha
    obtain ⟨hm, hk⟩ := find?_eq_some_iff.mp ha
    exact h a hm hk

/-- Two finds agree when the same elements are found. -/
theorem find?_congr {s t : SortedBy key} {k : κ}
    (h : ∀ a, key a = k → (a ∈ s ↔ a ∈ t)) : s.find? k = t.find? k := by
  apply Option.ext
  intro a
  rw [find?_eq_some_iff, find?_eq_some_iff]
  constructor
  · rintro ⟨ha, hk⟩
    exact ⟨(h a hk).mp ha, hk⟩
  · rintro ⟨ha, hk⟩
    exact ⟨(h a hk).mpr ha, hk⟩

theorem contains_iff {s : SortedBy key} {k : κ} : s.contains k = true ↔ ∃ a ∈ s, key a = k := by
  rw [contains, Option.isSome_iff_exists]
  simp only [find?_eq_some_iff]

theorem mem_place_iff {a x : α} {l : List α}
    (h : l.Pairwise fun a b => compare (key a) (key b) = .lt) :
    x ∈ place key a l ↔ x = a ∨ x ∈ l ∧ key x ≠ key a := by
  induction l with
  | nil => simp [place]
  | cons b l ih =>
    rw [List.pairwise_cons] at h
    have hne : ∀ y ∈ l, compare (key a) (key b) = .lt ∨ key a = key b → key y ≠ key a := by
      intro y hy hab e
      rcases hab with hab | hab
      · exact SortKey.lt_irrefl (e ▸ SortKey.lt_trans hab (h.1 y hy))
      · exact SortKey.lt_irrefl (hab ▸ e ▸ h.1 y hy)
    simp only [place]
    split
    · rename_i hlt
      have hb : key b ≠ key a := fun e => SortKey.ne_of_lt hlt e.symm
      simp only [List.mem_cons]
      constructor
      · rintro (rfl | rfl | hx)
        · exact .inl rfl
        · exact .inr ⟨.inl rfl, hb⟩
        · exact .inr ⟨.inr hx, hne x hx (.inl hlt)⟩
      · rintro (rfl | ⟨hx, -⟩)
        · exact .inl rfl
        · exact .inr hx
    · rename_i heq
      rw [SortKey.compare_eq_eq] at heq
      simp only [List.mem_cons]
      constructor
      · rintro (rfl | hx)
        · exact .inl rfl
        · exact .inr ⟨.inr hx, hne x hx (.inr heq)⟩
      · rintro (rfl | ⟨rfl | hx, hk⟩)
        · exact .inl rfl
        · exact absurd heq.symm hk
        · exact .inr hx
    · rename_i hgt
      have hb : key b ≠ key a := SortKey.ne_of_lt (SortKey.lt_of_gt hgt)
      rw [List.mem_cons, ih h.2, List.mem_cons]
      constructor
      · rintro (rfl | rfl | ⟨hx, hk⟩)
        · exact .inr ⟨.inl rfl, hb⟩
        · exact .inl rfl
        · exact .inr ⟨.inr hx, hk⟩
      · rintro (rfl | ⟨rfl | hx, hk⟩)
        · exact .inr (.inl rfl)
        · exact .inl rfl
        · exact .inr (.inr ⟨hx, hk⟩)

theorem mem_insert {s : SortedBy key} {a x : α} :
    x ∈ s.insert a ↔ x = a ∨ x ∈ s ∧ key x ≠ key a := mem_place_iff s.ascending

theorem mem_filter {s : SortedBy key} {p : α → Bool} {x : α} :
    x ∈ s.filter p ↔ x ∈ s ∧ p x = true := List.mem_filter

theorem mem_erase {s : SortedBy key} {k : κ} {x : α} : x ∈ s.erase k ↔ x ∈ s ∧ key x ≠ k := by
  rw [erase, mem_filter]
  simp

theorem find?_insert_self (s : SortedBy key) (a : α) : (s.insert a).find? (key a) = some a :=
  find?_eq_some_iff.mpr ⟨mem_insert.mpr (.inl rfl), rfl⟩

theorem find?_insert_of_ne {s : SortedBy key} {a : α} {k : κ} (h : key a ≠ k) :
    (s.insert a).find? k = s.find? k := by
  apply find?_congr
  rintro x rfl
  rw [mem_insert]
  constructor
  · rintro (rfl | ⟨hx, -⟩)
    · exact absurd rfl h
    · exact hx
  · exact fun hx => .inr ⟨hx, Ne.symm h⟩

theorem find?_erase_self (s : SortedBy key) (k : κ) : (s.erase k).find? k = none := by
  rw [find?_eq_none_iff]
  intro a ha
  exact (mem_erase.mp ha).2

theorem find?_erase_of_ne {s : SortedBy key} {k k' : κ} (h : k ≠ k') :
    (s.erase k).find? k' = s.find? k' := by
  apply find?_congr
  rintro x rfl
  rw [mem_erase]
  exact and_iff_left h.symm

/-- Putting in a list whose keys are distinct keeps every element of it. -/
theorem mem_insertAll {s : SortedBy key} {l : List α} {x : α}
    (h : l.Pairwise fun a b => key a ≠ key b) :
    x ∈ s.insertAll l ↔ x ∈ l ∨ x ∈ s ∧ ∀ a ∈ l, key x ≠ key a := by
  induction l generalizing s with
  | nil => simp [insertAll]
  | cons b l ih =>
    rw [List.pairwise_cons] at h
    change x ∈ (s.insert b).insertAll l ↔ _
    rw [ih h.2, mem_insert, List.mem_cons, List.forall_mem_cons]
    constructor
    · rintro (hx | ⟨rfl | ⟨hx, hb⟩, hl⟩)
      · exact .inl (.inr hx)
      · exact .inl (.inl rfl)
      · exact .inr ⟨hx, hb, hl⟩
    · rintro ((rfl | hx) | ⟨hx, hb, hl⟩)
      · exact .inr ⟨.inl rfl, h.1⟩
      · exact .inl hx
      · exact .inr ⟨.inr ⟨hx, hb⟩, hl⟩

theorem mem_ofList {l : List α} {x : α} (h : l.Pairwise fun a b => key a ≠ key b) :
    x ∈ (ofList l : SortedBy key) ↔ x ∈ l := by
  rw [ofList, mem_insertAll h]
  exact or_iff_left fun hx => not_mem_empty x hx.1

theorem keys_distinct (s : SortedBy key) : s.toList.Pairwise fun a b => key a ≠ key b :=
  s.ascending.imp SortKey.ne_of_lt

end RecordLinkage.SortedBy
