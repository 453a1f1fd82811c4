import RecordLinkage.Scoring.Pair
import RecordLinkage.Proofs.Weight.Laws

namespace RecordLinkage

variable {ω : Type} [Weight ω]

namespace MinWeight

/-- Two running minima are the same number, or both have seen nothing yet. -/
def Same (m m' : MinWeight ω) : Prop :=
  (m.least = none ∧ m'.least = none) ∨
    ∃ v v', m.least = some v ∧ m'.least = some v' ∧ Weight.le v v' ∧ Weight.le v' v

structure Least (m : MinWeight ω) (ws : List ω) (v : ω) : Prop where
  number : Weight.Number v
  attained : m.least = some v ∨ v ∈ ws
  le_start : ∀ u, m.least = some u → Weight.le v u
  le_weight : ∀ w ∈ ws, Weight.le v w

variable {m : MinWeight ω} {ws ws' : List ω} {v w : ω}

/-- Nothing is below what is not a number. -/
theorem foldl_observe_of_not_number (hv : m.least = some v) (hnumber : ¬ Weight.Number v) :
    ws.foldl observe m = m := by
  induction ws with
  | nil => rfl
  | cons w ws ih =>
    have hlt : Weight.lt w v = false := by
      apply eq_false_of_ne_true
      intro hlt
      exact hnumber ⟨w, .inr hlt⟩
    have hsame : m.observe w = m := by
      rw [observe, hv]
      simp only [hlt, Bool.false_eq_true, if_false]
    rw [List.foldl_cons, hsame, ih]

variable [LawfulWeight ω]

theorem observe_least (hw : Weight.storable w = true)
    (hstart : ∀ u, m.least = some u → Weight.Number u) :
    ∃ v, (m.observe w).least = some v ∧ m.Least [w] v := by
  have hnumber := Weight.number_of_storable hw
  rw [observe]
  cases hm : m.least with
  | none =>
    have hcountable : countable w = true := by
      rw [Weight.storable, Bool.and_eq_true] at hw
      rw [countable, hw.1, Bool.true_or]
    refine ⟨w, by simp only [hcountable, if_true], hnumber, .inr (List.mem_singleton.mpr rfl), ?_, ?_⟩
    · rw [hm]
      rintro u ⟨⟩
    · simpa using Weight.le_refl w
  | some v =>
    cases hlt : Weight.lt w v with
    | true =>
      refine ⟨w, by simp only [hlt, if_true], hnumber, .inr (List.mem_singleton.mpr rfl), ?_, ?_⟩
      · rw [hm]
        rintro u ⟨⟩
        exact Weight.le_of_lt hlt
      · simpa using Weight.le_refl w
    | false =>
      refine ⟨v, by simp only [hlt, Bool.false_eq_true, if_false, hm], hstart v hm, .inl hm, ?_, ?_⟩
      · rw [hm]
        rintro u ⟨⟩
        exact Weight.le_refl v
      · simpa [Weight.le] using hlt

/-- A running minimum is the least of what it has seen. -/
theorem foldl_observe_least (hws : ∀ w ∈ ws, Weight.storable w = true)
    (hstart : ∀ u, m.least = some u → Weight.Number u) :
    (ws = [] ∧ m.least = none) ∨ ∃ v, (ws.foldl observe m).least = some v ∧ m.Least ws v := by
  induction ws generalizing m with
  | nil =>
    cases hm : m.least with
    | none => exact .inl ⟨rfl, rfl⟩
    | some v =>
      refine .inr ⟨v, hm, hstart v hm, .inl hm, ?_, nofun⟩
      rw [hm]
      rintro u ⟨⟩
      exact Weight.le_refl v
  | cons w ws ih =>
    rw [List.forall_mem_cons] at hws
    obtain ⟨v, hv, hleast⟩ := observe_least hws.1 hstart
    have hw := hleast.le_weight w List.mem_cons_self
    have hnext (u : ω) (hu : (m.observe w).least = some u) : Weight.Number u := by
      rw [hv] at hu
      cases hu
      exact hleast.number
    refine .inr ?_
    -- The least of the later weights and of what was seen first is below both.
    rcases ih hws.2 hnext with ⟨rfl, hnone⟩ | ⟨v', hv', hleast'⟩
    · exact ⟨v, hv, hleast⟩
    · have hle := hleast'.le_start v hv
      refine ⟨v', hv', hleast'.number, ?_, ?_, ?_⟩
      · rcases hleast'.attained with heq | hmem
        · rw [hv] at heq
          cases heq
          refine hleast.attained.imp_right fun hmem => ?_
          exact List.mem_cons.mpr (.inl (List.mem_singleton.mp hmem))
        · exact .inr (List.mem_cons_of_mem w hmem)
      · exact fun u hu => Weight.le_trans hleast.number hle (hleast.le_start u hu)
      · rw [List.forall_mem_cons]
        exact ⟨Weight.le_trans hleast.number hle hw, hleast'.le_weight⟩

omit [LawfulWeight ω] in
/-- Two least values of the same weights are the same number. -/
theorem Least.le (hmem : ∀ w, w ∈ ws ↔ w ∈ ws') {v v' : ω} (h : m.Least ws v)
    (h' : m.Least ws' v') : Weight.le v v' := by
  rcases h'.attained with hstart | hweight
  · exact h.le_start v' hstart
  · exact h.le_weight v' ((hmem v').mpr hweight)

/-- What was seen counts, not how often and in which order. -/
theorem same_foldl_observe (m : MinWeight ω) (hmem : ∀ w, w ∈ ws ↔ w ∈ ws')
    (hws : ∀ w ∈ ws, Weight.storable w = true) :
    (ws.foldl observe m).Same (ws'.foldl observe m) := by
  by_cases hstart : ∀ u, m.least = some u → Weight.Number u
  · rcases foldl_observe_least hws hstart with ⟨rfl, hm⟩ | ⟨v, hv, hleast⟩
    · have hnil : ws' = [] := List.eq_nil_iff_forall_not_mem.mpr fun w hw =>
        List.not_mem_nil ((hmem w).mpr hw)
      rw [hnil]
      exact .inl ⟨hm, hm⟩
    · rcases foldl_observe_least (fun w hw => hws w ((hmem w).mpr hw)) hstart with
        ⟨rfl, hm⟩ | ⟨v', hv', hleast'⟩
      · rcases hleast.attained with heq | hw
        · rw [hm] at heq
          cases heq
        · cases (hmem v).mp hw
      · exact .inr ⟨v, v', hv, hv', hleast.le hmem hleast',
          hleast'.le (fun w => (hmem w).symm) hleast⟩
  · rw [Classical.not_forall] at hstart
    obtain ⟨u, hu⟩ := hstart
    rw [Classical.not_imp] at hu
    rw [foldl_observe_of_not_number hu.1 hu.2, foldl_observe_of_not_number hu.1 hu.2]
    exact .inr ⟨u, u, hu.1, hu.1, Weight.le_refl u, Weight.le_refl u⟩

end MinWeight

end RecordLinkage
