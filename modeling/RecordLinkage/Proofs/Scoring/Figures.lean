import RecordLinkage.Proofs.Scoring.Failed
import RecordLinkage.Session.Basic

namespace RecordLinkage

variable {ω α : Type} [Weight ω]

/-- A procedure does what `p` does, and takes what `p` ends with into the figures. -/
def Tallied.Follows (q : Tallied ω (PairOutcome ω)) (p : Program ω (PairOutcome ω)) : Prop :=
  ∀ t, q t = p.attempt >>= fun r => pure (r, t.after r)

/-- Steps without figures may go first. -/
theorem Tallied.follows_lift_bind {p : Program ω α} {q : α → Tallied ω (PairOutcome ω)}
    {p' : α → Program ω (PairOutcome ω)} (h : ∀ a, (q a).Follows (p' a)) :
    (lift p >>= q).Follows (p >>= p') := by
  intro t
  induction p with
  | done r =>
    cases r with
    | ok a => exact h a t
    | error e => rfl
    | crash => rfl
  | ask c next ih => exact congrArg (Program.ask c) (funext fun r => ih r)

open Tallied in
theorem Scorer.score_follows (s : Scorer ω) (g : GraphId) (a : EntityKey) (entityA : Entity)
    (b : EntityKey) (entityB : Entity) (index : PropertyIndex) :
    (s.score g a entityA b entityB index).Follows (s.record g a entityA b entityB index) := by
  unfold score record
  split
  · exact follows_lift_bind fun k t => rfl
  · refine follows_lift_bind fun x => follows_lift_bind fun y => follows_lift_bind fun w => ?_
    exact follows_lift_bind fun e => follows_lift_bind fun _ t => rfl

namespace PairTask

variable (t : PairTask) (source : EntitySource ω) (scorer : Scorer ω)

theorem score_follows : (t.score source scorer).Follows (t.process source scorer) :=
  Tallied.follows_lift_bind fun p => scorer.score_follows t.graph t.a p.1 t.b p.2 t.context.index

variable {t source scorer}

/-- Where a pair ends with an edge, the edge is stored. -/
theorem weight?_of_edge {m : Memory ω} {e : Edge} {w : ω}
    (h : ((t.process source scorer).run m).1 = .ok (.edge e w)) :
    ((t.process source scorer).run m).2.store.weight? e = some w := by
  obtain ⟨x, y, hread⟩ := entities_of_ok h
  have hrecorded := recorded hread scorer m
  have hdistinct : t.a ≠ t.b := by
    intro hsame
    generalize (t.process source scorer).run m = r at h hrecorded
    cases hrecorded with
    | firstGone | self | secondGone => cases h
    | scored distinct => exact distinct hsame
  obtain ⟨l, v, hv, -, he, -, -, hleft⟩ := hrecorded.linked hdistinct h
  cases he
  rw [hleft]
  exact Call.weight?_after_putEdge _ (Scorer.weigh_storable hv)

end PairTask

/-- Scoring a pair changes the figures at the very end: an error or a crash anywhere on the way
leaves them as they were, and when an edge is counted it is stored already. Apart from the figures
it is what `process` does, whoever acts between its calls. -/
theorem figures_change_last (t : PairTask) (source : EntitySource ω) (scorer : Scorer ω) :
    (∀ tally, t.score source scorer tally =
      (t.process source scorer).attempt >>= fun r => pure (r, tally.after r)) ∧
    ∀ (tally : Tally ω) (m : Memory ω), ∃ r tally' m',
      (t.score source scorer tally).run m = (.ok (r, tally'), m') ∧
      (t.process source scorer).run m = (r, m') ∧
      ((∀ e w, r ≠ .ok (.edge e w)) → tally' = tally) ∧
      ∀ e w, r = .ok (.edge e w) →
        tally' = ⟨tally.least.observe w, tally.edges + 1⟩ ∧ m'.store.weight? e = some w := by
  have htree := t.score_follows source scorer
  refine ⟨htree, fun tally m => ⟨((t.process source scorer).run m).1,
    tally.after ((t.process source scorer).run m).1, ((t.process source scorer).run m).2,
    ?_, rfl, fun hnone => ?_, fun e w hr => ⟨?_, PairTask.weight?_of_edge hr⟩⟩⟩
  · rw [htree, Program.run_bind_of_ok (Program.run_attempt _ m)]
    rfl
  · rcases hr : ((t.process source scorer).run m).1 with (_ | ⟨e, w⟩) | _ | _
    · rfl
    · exact absurd hr (hnone e w)
    · rfl
    · rfl
  · rw [hr]
    rfl

/-- What a procedure ends with does not matter to a disturbed store, nor to who holds it there. -/
theorem FaultyMemory.complete_attempt_bind {β : Type} (p : Program ω α)
    (f : Outcome (Error ω) α → β) (m : FaultyMemory ω) :
    m.complete (p.attempt >>= fun r => pure (f r)) =
      match m.run p with
      | (.ended r, m') => (.ok (f r), m')
      | (.held _, m') => (.crash, m') := by
  induction p generalizing m with
  | done r => rfl
  | ask c next ih =>
    change m.complete (.ask c fun r => (next r).attempt >>= fun r => pure (f r)) = _
    rw [complete, run, run]
    rcases attend c (m.moments c.kind) none _ with ⟨reply | _, m'⟩
    · exact ih reply m'
    · rfl

/-- In a session that may be disturbed, too, only the outcome of a pair tells in its figures. -/
theorem Session.process_eq (s : Session ω) (t : PairTask) :
    s.process t = ((s.execute (t.process s.source s.scorer)).1,
      { (s.execute (t.process s.source s.scorer)).2 with
        tally := s.tally.after (s.execute (t.process s.source s.scorer)).1 }) := by
  rw [process, executeTallied, t.score_follows, FaultyMemory.complete_attempt_bind, execute,
    FaultyMemory.complete]
  rcases s.memory.run (t.process s.source s.scorer) with ⟨_ | _, m⟩ <;> rfl

end RecordLinkage
