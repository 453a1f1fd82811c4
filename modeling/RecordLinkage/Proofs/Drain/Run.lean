import RecordLinkage.Proofs.Drain.Step
import RecordLinkage.Proofs.Program.Rules

namespace RecordLinkage

namespace Step

variable {ω : Type}

def isMerge : Step ω → Bool
  | .merged _ => true
  | _ => false

def isStale : Step ω → Bool
  | .stale _ => true
  | _ => false

end Step

namespace Drain

open Program

variable {ω : Type} {g : GraphId} {t : ω}

theorem edgeWithin_ends (g : GraphId) (a b : VertexId) :
    (edgeWithin g a b : Program ω Edge).Ends FailsInStore := ends_ofStore _

theorem unlink_ends (v : VertexId) (l : List VertexId) :
    (unlink g v l : Program ω Unit).Ends FailsInStore :=
  ends_forM (fun u => (edgeWithin_ends g v u).then fun _ => (ends_call _).discard) l

theorem replaceParts_ends (e : Edge) (k : VertexId) (links fromA fromB : SortedMap VertexId ω) :
    (replaceParts e k links fromA fromB).Ends FailsInStore := by
  unfold replaceParts
  refine Ends.then (ends_forM (fun p => ?_) _) fun _ => ?_
  · exact (edgeWithin_ends e.graph k p.1).then fun _ => ends_call _
  refine (unlink_ends e.link.src _).then fun _ => ?_
  refine (unlink_ends e.link.dst _).then fun _ => ?_
  refine Ends.then (Ends.discard (ends_call _)) fun _ => ?_
  refine Ends.then (Ends.discard (ends_call _)) fun _ => ?_
  exact Ends.discard (ends_call _)

theorem stale_ends (e : Edge) :
    (do discard (removeEdge e); return .stale e : Program ω (Step ω)).Ends FailsInStore :=
  (ends_call _).discard.then fun _ => ends_pure _

variable [Weight ω]

theorem neighbors_ends (k : VertexKey) :
    (Program.neighbors k : Program ω _).Ends FailsInStore :=
  (ends_call _).then fun _ => (ends_call _).then fun _ => ends_pure _

theorem merge_ends (e : Edge) (w : ω) : (merge e w).Ends FailsInStore := by
  unfold merge
  apply (neighbors_ends _).then
  intro fromA
  apply (neighbors_ends _).then
  intro fromB r
  rcases r with cause | k
  · cases cause with
    | vertexNotFound missing => exact stale_ends e
    | graphMismatch | selfLoop | invalidWeight | backend => exact .inr ⟨_, rfl⟩
  · exact (replaceParts_ends e k.vertex _ _ _).then fun _ => ends_pure _

/-- With a threshold in order, only the store makes a step fail. -/
theorem step_ends (ht : Weight.bounding t = true) : (step g t).Ends FailsInStore := by
  unfold step
  rw [checkThreshold, if_pos ht]
  apply (ends_pure ()).then
  intro _
  apply (ends_call _).then
  intro found
  cases found with
  | none => exact ends_pure _
  | some p =>
    obtain ⟨e, w⟩ := p
    dsimp only
    split
    · exact ends_pure _
    · have hend (both : Bool) : (if both = true then merge e w else do
          discard (removeEdge e)
          return .stale e : Program ω (Step ω)).Ends FailsInStore := by
        split
        · exact merge_ends e w
        · exact stale_ends e
      apply ((ends_call _).then fun _ => ends_pure _).then
      intro srcLive
      split
      · exact ((ends_call _).then fun _ => ends_pure _).then hend
      · exact (ends_pure _).then hend

theorem run_step_of_not_bounding (ht : Weight.bounding t = false) (m : Memory ω) :
    (step g t).run m = (.error (.validation (.threshold t)), m) := by
  unfold step
  rw [checkThreshold, if_neg (by simp [ht])]
  rfl

inductive Steps (g : GraphId) (t : ω) : Memory ω → List (Step ω) → Memory ω → Prop where
  | nil (m : Memory ω) : Steps g t m [] m
  | cons {m m' m'' : Memory ω} {s : Step ω} {rest : List (Step ω)} (first : Stepped m g t s m')
    (later : Steps g t m' rest m'') : Steps g t m (s :: rest) m''

def steps (g : GraphId) (t : ω) : Nat → Program ω (List (Step ω))
  | 0 => return []
  | n + 1 => do
    let s ← step g t
    return s :: (← steps g t n)

theorem run_steps_ok {n : Nat} {m m' : Memory ω} {history : List (Step ω)}
    (h : (steps g t n).run m = (.ok history, m')) : Steps g t m history m' := by
  induction n generalizing m history with
  | zero =>
    cases h
    exact .nil _
  | succ n ih =>
    obtain ⟨s, m₁, hstep, h⟩ := run_bind_eq_ok.mp h
    obtain ⟨rest, m₂, hrest, hdone⟩ := run_bind_eq_ok.mp h
    cases hdone
    exact .cons (run_step_ok hstep).2 (ih hrest)

theorem Steps.induct {P : Memory ω → Prop}
    (step : ∀ m s m', P m → Stepped m g t s m' → P m') {m m' : Memory ω} {steps : List (Step ω)}
    (h : Steps g t m steps m') (hm : P m) : P m' := by
  induction h with
  | nil m => exact hm
  | cons first later ih => exact ih (step _ _ _ hm first)

theorem Steps.stopped {earlier : List (Step ω)} {stop : StopReason ω} {m m' : Memory ω}
    (h : Steps g t m (earlier ++ [.done stop]) m') : Stepped m' g t (.done stop) m' := by
  induction earlier generalizing m with
  | nil =>
    cases h with
    | cons first later =>
      cases later
      cases first with
      | exhausted lightest => exact .exhausted lightest
      | reached lightest weight => exact .reached lightest weight
  | cons s earlier ih =>
    cases h with
    | cons first later => exact ih later

/-- A drain that the store does not fail is a sequence of steps; if it ends, then with a last step
that tells why. -/
theorem run_loop {n merges stale : Nat} {m m' : Memory ω}
    {r : Outcome (Error ω) (Nat × Nat × StopReason ω)}
    (h : (loop g t n merges stale).run m = (r, m')) (hr : ∀ cause, r ≠ .error (.store cause)) :
    ∃ steps, Steps g t m steps m' ∧ ∀ result, r = .ok result → ∃ earlier stop,
      steps = earlier ++ [.done stop] ∧
        result = (merges + earlier.countP Step.isMerge, stale + earlier.countP Step.isStale, stop) := by
  induction n generalizing m merges stale with
  | zero =>
    cases h
    exact ⟨[], .nil _, nofun⟩
  | succ n ih =>
    unfold loop at h
    cases ht : Weight.bounding t with
    | false =>
      rw [run_bind, run_step_of_not_bounding ht] at h
      cases h
      exact ⟨[], .nil _, nofun⟩
    | true =>
      -- A step ends well or is failed by the store, and the latter is ruled out by `hr`.
      have hends := (step_ends (g := g) ht).run m
      rcases hstep : (step g t).run m with ⟨result, m₁⟩
      rw [hstep] at hends
      rcases hends with ⟨s, rfl⟩ | ⟨cause, rfl⟩
      · rw [run_bind_of_ok hstep] at h
        have hstepped := (run_step_ok hstep).2
        cases s with
        | merged merge =>
          obtain ⟨steps, hsteps, hend⟩ := ih h
          refine ⟨_, .cons hstepped hsteps, ?_⟩
          intro result hresult
          obtain ⟨earlier, stop, rfl, rfl⟩ := hend result hresult
          refine ⟨.merged merge :: earlier, stop, rfl, ?_⟩
          rw [List.countP_cons_of_pos rfl, List.countP_cons_of_neg (by simp [Step.isStale])]
          rw [Nat.add_right_comm, Nat.add_assoc]
        | stale edge =>
          obtain ⟨steps, hsteps, hend⟩ := ih h
          refine ⟨_, .cons hstepped hsteps, ?_⟩
          intro result hresult
          obtain ⟨earlier, stop, rfl, rfl⟩ := hend result hresult
          refine ⟨.stale edge :: earlier, stop, rfl, ?_⟩
          rw [List.countP_cons_of_neg (by simp [Step.isMerge]), List.countP_cons_of_pos rfl]
          rw [Nat.add_right_comm, Nat.add_assoc]
        | done stop =>
          cases h
          refine ⟨_, .cons hstepped (.nil _), ?_⟩
          intro result hresult
          cases hresult
          exact ⟨[], stop, rfl, rfl⟩
      · rw [run_bind, hstep] at h
        cases h
        exact absurd rfl (hr cause)

theorem run_cluster {n : Nat} {m m' : Memory ω} {r : Outcome (Error ω) (DrainReport ω)}
    (h : (cluster n g t).run m = (r, m')) (hr : ∀ cause, r ≠ .error (.store cause)) :
    ∃ steps, Steps g t m steps m' ∧ ∀ report, r = .ok report → ∃ earlier stop,
      steps = earlier ++ [.done stop] ∧
        report = ⟨g, t, earlier.countP Step.isMerge, earlier.countP Step.isStale, stop,
          m'.store.clusters g⟩ := by
  unfold cluster at h
  rw [checkThreshold] at h
  cases ht : Weight.bounding t with
  | false =>
    rw [ht] at h
    cases h
    refine ⟨[], .nil _, ?_⟩
    intro report hreport
    cases hreport
  | true =>
    rw [if_pos ht, Program.pure_bind, run_bind] at h
    rcases hloop : (loop g t n 0 0).run m with ⟨result, m₁⟩
    rw [hloop] at h
    -- A drain fails or crashes where its loop does, and otherwise only lists the clusters.
    rcases result with ⟨merges, stale, stop⟩ | cause | _
    · cases h
      obtain ⟨steps, hsteps, hend⟩ := run_loop hloop fun cause hcause => by cases hcause
      refine ⟨steps, hsteps, ?_⟩
      intro report hreport
      cases hreport
      obtain ⟨earlier, stop', rfl, hresult⟩ := hend _ rfl
      refine ⟨earlier, stop', rfl, ?_⟩
      simp only [Nat.zero_add, Prod.mk.injEq] at hresult
      obtain ⟨rfl, rfl, rfl⟩ := hresult
      rfl
    · cases h
      obtain ⟨steps, hsteps, -⟩ := run_loop hloop (fun c hc => hr c (by cases hc; rfl))
      refine ⟨steps, hsteps, ?_⟩
      intro report hreport
      cases hreport
    · cases h
      obtain ⟨steps, hsteps, -⟩ := run_loop hloop fun cause hcause => by cases hcause
      refine ⟨steps, hsteps, ?_⟩
      intro report hreport
      cases hreport

/-- A drain that ends well has stopped after its steps, and reports them. -/
theorem run_cluster_ok {n : Nat} {m m' : Memory ω} {report : DrainReport ω}
    (h : (cluster n g t).run m = (.ok report, m')) :
    ∃ earlier stop, Steps g t m (earlier ++ [.done stop]) m' ∧
      report = ⟨g, t, earlier.countP Step.isMerge, earlier.countP Step.isStale, stop,
        m'.store.clusters g⟩ := by
  obtain ⟨steps, hsteps, hreport⟩ := run_cluster h fun cause hcause => by cases hcause
  obtain ⟨earlier, stop, rfl, hresult⟩ := hreport report rfl
  exact ⟨earlier, stop, hsteps, hresult⟩

end Drain

end RecordLinkage
