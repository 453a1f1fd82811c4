import RecordLinkage.Scoring.MinWeight
import RecordLinkage.Proofs.Weight.Minimum
import Mathlib.Data.Fin.VecNotation
import Mathlib.Data.Fintype.Basic
import Mathlib.Logic.Function.Basic
import Mathlib.Tactic.FinCases
import Mathlib.Tactic.IntervalCases

namespace RecordLinkage

namespace MinWeight

open Binary64

variable {m : MinWeight Binary64} {ws ws' : Set Binary64} {w : Binary64}

theorem get?_of_isMinimum (hm : IsMinimum ws m.least) : m.get? = m.least := by
  rw [get?]
  cases h : m.least with
  | none => rfl
  | some v =>
    rw [h] at hm
    exact Option.filter_some_pos hm.1

/-- Infinity and NaN leave no trace. -/
theorem observe_of_not_finite (hm : IsMinimum ws m.least) (hw : w.isNaN = true ∨ w = infinity) :
    m.observe w = m := by
  have hlt (v : Binary64) (hv : v.isFinite = true) : Weight.lt w v = false := by
    apply eq_false_of_ne_true
    intro h
    obtain ⟨hnumber, -, hkey⟩ := lt_iff.mp h
    rcases hw with hnan | rfl
    · rw [hnan] at hnumber
      cases hnumber
    · have hinfinity : infinity.numericKey = infinityMagnitude := by decide
      rw [isFinite, decide_eq_true_eq] at hv
      rw [hinfinity, numericKey] at hkey
      split at hkey <;> omega
  rw [observe]
  cases h : m.least with
  | none =>
    have hcountable : countable w = false := by
      rw [countable, hlt Weight.zero (by decide), Bool.or_false]
      exact isFinite_eq_false hw
    simp only [hcountable, Bool.false_eq_true, if_false]
  | some v =>
    rw [h] at hm
    simp only [hlt v hm.1, Bool.false_eq_true, if_false]

/-- Taking in the minimum of some weights takes in all of them. -/
theorem isMinimum_observe (hm : IsMinimum ws m.least) (hw : IsMinimum ws' (some w)) :
    IsMinimum (ws ∪ ws') (m.observe w).least := by
  obtain ⟨hfinite, hleast⟩ := hw
  rw [observe]
  cases h : m.least with
  | none =>
    rw [h] at hm
    have hcountable : countable w = true := by
      rw [countable, Bool.or_eq_true]
      exact .inl hfinite
    simp only [hcountable, if_true]
    refine ⟨hfinite, ?_⟩
    rw [numbers_union, show numbers ws = ∅ from hm, Set.empty_union]
    exact hleast
  | some v =>
    rw [h] at hm
    have hboth := hm.2.union hleast
    rw [← numbers_union] at hboth
    by_cases hlt : Weight.lt w v = true
    · simp only [if_pos hlt]
      rw [min_eq_right ((lt_iff_signedUnits hfinite hm.1).mp hlt).le] at hboth
      exact ⟨hfinite, hboth⟩
    · simp only [if_neg hlt, h]
      have hle : v.signedUnits ≤ w.signedUnits :=
        not_lt.mp fun hunits => hlt ((lt_iff_signedUnits hfinite hm.1).mpr hunits)
      rw [min_eq_left hle] at hboth
      exact ⟨hm.1, hboth⟩

theorem isMinimum_observe_weight (hm : IsMinimum ws m.least)
    (hw : w.isFinite = true ∨ w.isNaN = true ∨ w = infinity) :
    IsMinimum (ws ∪ {w}) (m.observe w).least := by
  rcases hw with hfinite | hw
  · exact isMinimum_observe hm (isMinimum_singleton hfinite)
  · rw [observe_of_not_finite hm hw]
    exact hm.union_left (numbers_of_not_finite (isFinite_eq_false hw))

end MinWeight

/-- What callers do with trackers that they share. Combining two of them takes a caller two acts: it
reads the one, and later folds into the other what it has read. -/
inductive TrackerAct (ι κ : Type) where
  | observe (tracker : ι) (w : Binary64)
  | read (caller : κ) (tracker : ι)
  | fold (caller : κ) (tracker : ι)
  deriving DecidableEq

structure Trackers (ι κ : Type) where
  tracker : ι → MinWeight Binary64
  held : κ → Option Binary64

namespace Trackers

variable {ι κ : Type} {history : List (TrackerAct ι κ)} {n k first last : ℕ} {c : κ} {i j : ι}
  {w : Binary64}

/-- One tracker is combined into another between two moments: a caller reads the one and folds into
the other, and reads nothing else in between. -/
def Combines (history : List (TrackerAct ι κ)) (first last : ℕ) (j i : ι) : Prop :=
  first < last ∧ ∃ c, history[first]? = some (.read c j) ∧ history[last]? = some (.fold c i) ∧
    ∀ m, first < m → m < last → ∀ k, history[m]? ≠ some (.read c k)

/-- Which weights come to a tracker before a moment: those observed on it, and those that had come to
another one when that was read to be combined into it. -/
inductive Reaches (history : List (TrackerAct ι κ)) : ℕ → ι → Binary64 → Prop
  | observed {n k : ℕ} {i : ι} {w : Binary64} :
      history[k]? = some (.observe i w) → k < n → Reaches history n i w
  | combined {n first last : ℕ} {j i : ι} {w : Binary64} :
      Combines history first last j i → last < n → Reaches history first j w → Reaches history n i w

def Carried (history : List (TrackerAct ι κ)) (n : ℕ) (c : κ) (w : Binary64) : Prop :=
  ∃ first j, first < n ∧ history[first]? = some (.read c j) ∧
    (∀ m, first < m → m < n → ∀ k, history[m]? ≠ some (.read c k)) ∧ Reaches history first j w

theorem Reaches.mono (h : Reaches history k i w) (hle : k ≤ n) : Reaches history n i w := by
  cases h with
  | observed hk hlt => exact .observed hk (hlt.trans_le hle)
  | combined hc hlt hj => exact .combined hc (hlt.trans_le hle) hj

theorem reaches_succ : Reaches history (n + 1) i w ↔ Reaches history n i w ∨
    history[n]? = some (.observe i w) ∨
    ∃ c, history[n]? = some (.fold c i) ∧ Carried history n c w := by
  constructor
  · intro h
    cases h with
    | observed hk hlt =>
      rcases Nat.lt_succ_iff_lt_or_eq.mp hlt with hlt | rfl
      · exact .inl (.observed hk hlt)
      · exact .inr (.inl hk)
    | combined hc hlt hj =>
      rcases Nat.lt_succ_iff_lt_or_eq.mp hlt with hlt | rfl
      · exact .inl (.combined hc hlt hj)
      · obtain ⟨hfirst, c, hread, hfold, hquiet⟩ := hc
        exact .inr (.inr ⟨c, hfold, _, _, hfirst, hread, hquiet, hj⟩)
  · rintro (h | h | ⟨c, hfold, first, j, hfirst, hread, hquiet, hj⟩)
    · exact h.mono (Nat.le_succ n)
    · exact .observed h (Nat.lt_succ_self n)
    · exact .combined ⟨hfirst, c, hread, hfold, hquiet⟩ (Nat.lt_succ_self n) hj

theorem carried_of_read (h : history[n]? = some (.read c j)) :
    {w | Carried history (n + 1) c w} = {w | Reaches history n j w} := by
  ext w
  constructor
  · rintro ⟨first, j', hfirst, hread, hquiet, hj⟩
    rcases Nat.lt_succ_iff_lt_or_eq.mp hfirst with hlt | rfl
    · exact absurd h (hquiet n hlt (Nat.lt_succ_self n) j)
    · rw [h] at hread
      cases hread
      exact hj
  · intro hj
    exact ⟨n, j, Nat.lt_succ_self n, h, fun m hm hm' => by omega, hj⟩

theorem carried_of_quiet (h : ∀ k, history[n]? ≠ some (.read c k)) :
    {w | Carried history (n + 1) c w} = {w | Carried history n c w} := by
  ext w
  constructor
  · rintro ⟨first, j, hfirst, hread, hquiet, hj⟩
    rcases Nat.lt_succ_iff_lt_or_eq.mp hfirst with hlt | rfl
    · exact ⟨first, j, hlt, hread, fun m hm hm' => hquiet m hm (hm'.trans (Nat.lt_succ_self n)), hj⟩
    · exact absurd hread (h j)
  · rintro ⟨first, j, hfirst, hread, hquiet, hj⟩
    refine ⟨first, j, hfirst.trans (Nat.lt_succ_self n), hread, fun m hm hm' => ?_, hj⟩
    rcases Nat.lt_succ_iff_lt_or_eq.mp hm' with hlt | rfl
    · exact hquiet m hm hlt
    · exact h

theorem reached_of_idle (hobserve : ∀ w, history[n]? ≠ some (.observe i w))
    (hfold : ∀ c, history[n]? ≠ some (.fold c i)) :
    {w | Reaches history (n + 1) i w} = {w | Reaches history n i w} := by
  ext w
  constructor
  · intro h
    rcases reaches_succ.mp h with h | h | ⟨c, h, -⟩
    · exact h
    · exact absurd h (hobserve w)
    · exact absurd h (hfold c)
  · exact fun h => reaches_succ.mpr (.inl h)

theorem reached_of_observe (he : history[n]? = some (.observe i w)) :
    {w | Reaches history (n + 1) i w} = {w | Reaches history n i w} ∪ {w} := by
  ext x
  constructor
  · intro h
    rcases reaches_succ.mp h with h | h | ⟨c, h, -⟩
    · exact .inl h
    · rw [he] at h
      cases h
      exact .inr rfl
    · rw [he] at h
      cases h
  · rintro (h | rfl)
    · exact reaches_succ.mpr (.inl h)
    · exact reaches_succ.mpr (.inr (.inl he))

theorem reached_of_fold (he : history[n]? = some (.fold c i)) :
    {w | Reaches history (n + 1) i w} =
      {w | Reaches history n i w} ∪ {w | Carried history n c w} := by
  ext x
  constructor
  · intro h
    rcases reaches_succ.mp h with h | h | ⟨c', h, hcarried⟩
    · exact .inl h
    · rw [he] at h
      cases h
    · rw [he] at h
      cases h
      exact .inr hcarried
  · rintro (h | h)
    · exact reaches_succ.mpr (.inl h)
    · exact reaches_succ.mpr (.inr (.inr ⟨c, he, h⟩))

theorem Reaches.observed_somewhere (h : Reaches history n i w) : ∃ i, .observe i w ∈ history := by
  induction h with
  | observed hk _ => exact ⟨_, List.mem_of_getElem? hk⟩
  | combined _ _ _ ih => exact ih

/-- From a moment on every tracker but the root of a tree is combined into its parent, and not before
its own children have been combined into it. -/
structure ChildrenFirst (history : List (TrackerAct ι κ)) (since : ℕ) (root : ι) (parent : ι → ι)
    (first last : ι → ℕ) : Prop where
  combined : ∀ i, i ≠ root → since ≤ first i ∧ Combines history (first i) (last i) i (parent i)
  children_first : ∀ i, i ≠ root → parent i ≠ root → last i < first (parent i)

/-- What a tracker holds when it is combined into its parent goes up the tree to the root. -/
theorem ChildrenFirst.reaches_root {since : ℕ} {root i : ι} {parent : ι → ι} {first last : ι → ℕ}
    (h : ChildrenFirst history since root parent first last) (hi : i ≠ root)
    (hw : Reaches history (first i) i w) : Reaches history history.length root w := by
  obtain ⟨-, hcombined⟩ := h.combined i hi
  have hlast : last i < history.length := by
    obtain ⟨-, c, -, hfold, -⟩ := hcombined
    exact (List.getElem?_eq_some_iff.mp hfold).1
  by_cases hparent : parent i = root
  · exact .combined (hparent ▸ hcombined) hlast hw
  · have hnext := h.children_first i hi hparent
    have hfirst := hcombined.1
    exact reaches_root h hparent (.combined hcombined hnext hw)
termination_by history.length - first i

variable [DecidableEq ι] [DecidableEq κ]

def start : Trackers ι κ := ⟨fun _ => .empty, fun _ => none⟩

def observe (s : Trackers ι κ) (i : ι) (w : Binary64) : Trackers ι κ :=
  { s with tracker := Function.update s.tracker i ((s.tracker i).observe w) }

def act (s : Trackers ι κ) : TrackerAct ι κ → Trackers ι κ
  | .observe i w => s.observe i w
  | .read c i => { s with held := Function.update s.held c (s.tracker i).get? }
  | .fold c i =>
    match s.held c with
    | some w => s.observe i w
    | none => s

def after (history : List (TrackerAct ι κ)) (n : ℕ) : Trackers ι κ :=
  (history.take n).foldl act start

variable {s : Trackers ι κ} {c' : κ}

omit [DecidableEq κ] in
theorem tracker_observe_self : (s.observe i w).tracker i = (s.tracker i).observe w :=
  Function.update_self _ _ _

omit [DecidableEq κ] in
theorem tracker_observe_of_ne (h : j ≠ i) : (s.observe i w).tracker j = s.tracker j :=
  Function.update_of_ne h _ _

theorem held_act_read_self : (s.act (.read c i)).held c = (s.tracker i).get? :=
  Function.update_self _ _ _

theorem held_act_read_of_ne (h : c' ≠ c) : (s.act (.read c i)).held c' = s.held c' :=
  Function.update_of_ne h _ _

theorem act_read_fold (s : Trackers ι κ) (c : κ) (i j : ι) :
    ((s.act (.read c j)).act (.fold c i)).tracker =
      Function.update s.tracker i ((s.tracker i).combine (s.tracker j)) := by
  rw [MinWeight.combine]
  simp only [act, Function.update_self]
  cases (s.tracker j).get? with
  | none => exact (Function.update_eq_self i s.tracker).symm
  | some w => rfl

theorem after_succ (n : ℕ) : after history (n + 1) =
    match history[n]? with
    | some e => (after history n).act e
    | none => after history n := by
  rw [after, List.take_add_one, List.foldl_append]
  cases history[n]? <;> rfl

/-- Trackers, and callers that have read them, hold the minima of what has come to them. -/
structure Exact (history : List (TrackerAct ι κ)) (n : ℕ) : Prop where
  tracker : ∀ i, Binary64.IsMinimum {w | Reaches history n i w} ((after history n).tracker i).least
  held : ∀ c, Binary64.IsMinimum {w | Carried history n c w} ((after history n).held c)

theorem exact_zero (history : List (TrackerAct ι κ)) : Exact history 0 := by
  have hempty (ws : Set Binary64) (h : ∀ w, w ∉ ws) : Binary64.IsMinimum ws none := by
    show Binary64.numbers ws = ∅
    rw [Set.eq_empty_of_forall_notMem h, Binary64.numbers]
    simp
  constructor
  · intro i
    apply hempty
    intro w hw
    cases hw with
    | observed hk hlt => exact absurd hlt (Nat.not_lt_zero _)
    | combined hc hlt hj => exact absurd hlt (Nat.not_lt_zero _)
  · intro c
    apply hempty
    rintro w ⟨first, j, hfirst, -⟩
    exact absurd hfirst (Nat.not_lt_zero _)

theorem Exact.succ (h : Exact history n) (hobserved : ∀ i w, history[n]? = some (.observe i w) →
    w.isFinite = true ∨ w.isNaN = true ∨ w = .infinity) : Exact history (n + 1) := by
  have hcarried (hquiet : ∀ c k, history[n]? ≠ some (.read c k)) (c : κ) :
      Binary64.IsMinimum {w | Carried history (n + 1) c w} ((after history n).held c) := by
    rw [carried_of_quiet (hquiet c)]
    exact h.held c
  have hidle (i : ι) (hobserve : ∀ w, history[n]? ≠ some (.observe i w))
      (hfold : ∀ c, history[n]? ≠ some (.fold c i)) : Binary64.IsMinimum
        {w | Reaches history (n + 1) i w} ((after history n).tracker i).least := by
    rw [reached_of_idle hobserve hfold]
    exact h.tracker i
  -- Only the tracker or the caller that the act is about can change, and what reaches it changes
  -- alike.
  cases he : history[n]? with
  | none =>
    have hafter : after history (n + 1) = after history n := by rw [after_succ, he]
    constructor
    · intro i
      rw [hafter]
      exact hidle i (by simp [he]) (by simp [he])
    · rw [hafter]
      exact hcarried (by simp [he])
  | some e =>
    have hafter : after history (n + 1) = (after history n).act e := by rw [after_succ, he]
    cases e with
    | observe i w =>
      constructor
      · intro j
        rw [hafter, act]
        by_cases hj : j = i
        · subst hj
          rw [tracker_observe_self, reached_of_observe he]
          exact MinWeight.isMinimum_observe_weight (h.tracker j) (hobserved j w he)
        · rw [tracker_observe_of_ne hj]
          exact hidle j (by simp [he, Ne.symm hj]) (by simp [he])
      · rw [hafter]
        exact hcarried (by simp [he])
    | read c i =>
      constructor
      · intro j
        rw [hafter]
        exact hidle j (by simp [he]) (by simp [he])
      · intro c'
        rw [hafter]
        by_cases hc : c' = c
        · subst hc
          rw [held_act_read_self, MinWeight.get?_of_isMinimum (h.tracker i), carried_of_read he]
          exact h.tracker i
        · rw [held_act_read_of_ne hc, carried_of_quiet (by simp [he, Ne.symm hc])]
          exact h.held c'
    | fold c i =>
      have hheld := h.held c
      constructor
      · intro j
        rw [hafter, act]
        by_cases hj : j = i
        · subst hj
          rw [reached_of_fold he]
          -- A caller that has read nothing folds nothing in.
          cases hc : (after history n).held c with
          | none =>
            rw [hc] at hheld
            exact (h.tracker j).union_left hheld
          | some w =>
            rw [hc] at hheld
            simp only [tracker_observe_self]
            exact MinWeight.isMinimum_observe (h.tracker j) hheld
        · have hsame := hidle j (by simp [he]) (by simp [he, Ne.symm hj])
          cases hc : (after history n).held c with
          | none => exact hsame
          | some w =>
            simp only [tracker_observe_of_ne hj]
            exact hsame
      · intro c'
        have hsame := hcarried (by simp [he]) c'
        rw [hafter, act]
        cases hc : (after history n).held c <;> exact hsame

theorem exact_after (hobserved : ∀ i w, .observe i w ∈ history →
    w.isFinite = true ∨ w.isNaN = true ∨ w = .infinity) (n : ℕ) : Exact history n := by
  induction n with
  | zero => exact exact_zero history
  | succ n ih => exact ih.succ fun i w h => hobserved i w (List.mem_of_getElem? h)

/-- At every moment a tracker gives the least finite weight that has come to it. When all trackers
are combined up a tree after the last observation, the root gives the least of all. -/
theorem trackers_hold_minima (history : List (TrackerAct ι κ))
    (hobserved : ∀ i w, .observe i w ∈ history →
      w.isFinite = true ∨ w.isNaN = true ∨ w = .infinity) :
    (∀ n i, Binary64.IsMinimum {w | Reaches history n i w} ((after history n).tracker i).get?) ∧
    (∀ since root parent first last, (∀ k i w, history[k]? = some (.observe i w) → k < since) →
      ChildrenFirst history since root parent first last →
      Binary64.IsMinimum {w | ∃ i, .observe i w ∈ history}
        ((after history history.length).tracker root).get?) ∧
    ∀ (s : Trackers ι κ) (c : κ) (i j : ι), ((s.act (.read c j)).act (.fold c i)).tracker =
      Function.update s.tracker i ((s.tracker i).combine (s.tracker j)) := by
  have hget (n : ℕ) (i : ι) :
      Binary64.IsMinimum {w | Reaches history n i w} ((after history n).tracker i).get? := by
    have h := (exact_after hobserved n).tracker i
    rw [MinWeight.get?_of_isMinimum h]
    exact h
  refine ⟨hget, ?_, act_read_fold⟩
  intro since root parent first last hbefore htree
  have hall : {w | ∃ i, .observe i w ∈ history} = {w | Reaches history history.length root w} := by
    ext w
    constructor
    · rintro ⟨i, hi⟩
      obtain ⟨k, hk⟩ := List.mem_iff_getElem?.mp hi
      have hsince := hbefore k i w hk
      by_cases hroot : i = root
      · exact hroot ▸ .observed hk (List.getElem?_eq_some_iff.mp hk).1
      · exact htree.reaches_root hroot (.observed hk (hsince.trans_le (htree.combined i hroot).1))
    · exact fun h => h.observed_somewhere
  rw [hall]
  exact hget history.length root

/-- Two callers combine three trackers at the same time: one up to the root `0`, over `1`, and one
from the root back to `2`. -/
def crossedCombines : List (TrackerAct (Fin 3) (Fin 2)) :=
  [.observe 2 ⟨0x3ff0000000000000⟩, .observe 1 .nan, .observe 2 (.ofMagnitude true 0),
   .observe 1 .infinity, .observe 0 ⟨0x4000000000000000⟩, .read 0 2, .read 1 0, .fold 0 1,
   .fold 1 2, .read 0 1, .fold 0 0]

theorem crossedCombines_minimum :
    (∀ i w, .observe i w ∈ crossedCombines →
      w.isFinite = true ∨ w.isNaN = true ∨ w = .infinity) ∧
    ChildrenFirst crossedCombines 5 0 ![0, 0, 1] ![0, 9, 5] ![0, 10, 7] ∧
    ((after crossedCombines 11).tracker 0).get? = some (.ofMagnitude true 0) ∧
    Binary64.IsMinimum {w | ∃ i, .observe i w ∈ crossedCombines} (some (.ofMagnitude true 0)) := by
  have hobserved : ∀ i w, .observe i w ∈ crossedCombines →
      w.isFinite = true ∨ w.isNaN = true ∨ w = .infinity := by
    intro i w h
    simp only [crossedCombines, List.mem_cons, TrackerAct.observe.injEq, reduceCtorEq, or_false,
      List.not_mem_nil] at h
    rcases h with ⟨-, rfl⟩ | ⟨-, rfl⟩ | ⟨-, rfl⟩ | ⟨-, rfl⟩ | ⟨-, rfl⟩ <;> decide +kernel
  have hget : ((after crossedCombines 11).tracker 0).get? = some (.ofMagnitude true 0) := by
    decide +kernel
  have htree : ChildrenFirst crossedCombines 5 0 ![0, 0, 1] ![0, 9, 5] ![0, 10, 7] := by
    constructor
    · intro i hi
      fin_cases i
      · exact absurd rfl hi
      · refine ⟨by decide, by decide, 0, rfl, rfl, fun m h h' k => ?_⟩
        change 9 < m at h
        change m < 10 at h'
        omega
      · refine ⟨by decide, by decide, 0, rfl, rfl, fun m h h' k => ?_⟩
        change 5 < m at h
        change m < 7 at h'
        obtain rfl : m = 6 := by omega
        decide +revert
    · decide
  refine ⟨hobserved, htree, hget, ?_⟩
  rw [← hget]
  refine (trackers_hold_minima crossedCombines hobserved).2.1 5 0 _ _ _ ?_ htree
  intro k i w hk
  by_contra hlate
  have hlength := (List.getElem?_eq_some_iff.mp hk).1
  change k < 11 at hlength
  interval_cases k <;> cases hk

end Trackers

end RecordLinkage
