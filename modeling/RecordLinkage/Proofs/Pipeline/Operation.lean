import RecordLinkage.Proofs.Drain.Run
import RecordLinkage.Proofs.Program.Kinds

namespace RecordLinkage

/-- A whole operation of the library on a store. A drain may be given any number of steps. -/
inductive Operation (ω : Type) where
  | singleton (g : GraphId) (e : EntityKey)
  | record (scorer : Scorer ω) (g : GraphId) (a : EntityKey) (entityA : Entity) (b : EntityKey)
    (entityB : Entity) (index : PropertyIndex)
  | process (source : EntitySource ω) (scorer : Scorer ω) (task : PairTask)
  | block (source : EntitySource ω) (scorer : Scorer ω) (tally : Tally ω) (g : GraphId)
    (entries : List BlockEntry) (context : BlockContext)
  | step (g : GraphId) (t : ω)
  | cluster (allowance : Nat) (g : GraphId) (t : ω)
  | sweep (g : GraphId)

namespace Operation

variable {ω : Type} [Weight ω]

def program : Operation ω → Program ω Unit
  | singleton g e => discard (Program.singleton g e)
  | record scorer g a entityA b entityB index =>
    discard (scorer.record g a entityA b entityB index)
  | process source scorer task => discard (task.process source scorer)
  | block source scorer tally g entries context =>
    discard (recordBlock source scorer tally g entries context)
  | step g t => discard (Drain.step g t)
  | cluster allowance g t => discard (Drain.cluster allowance g t)
  | sweep g => discard (Sweep.sweep g)

def runAll : List (Operation ω) → Memory ω → Memory ω
  | [], m => m
  | op :: rest, m => runAll rest (op.program.run m).2

def traceAll : List (Operation ω) → Memory ω → List (Event ω)
  | [], _ => []
  | op :: rest, m => op.program.trace m ++ traceAll rest (op.program.run m).2

/-- Whether an operation is a drain, or a step of one, that the store fails. -/
def fails (op : Operation ω) (m : Memory ω) : Bool :=
  match op with
  | step _ _ | cluster _ _ _ =>
    match (op.program.run m).1 with
    | .error (.store _) => true
    | _ => false
  | _ => false

def unfailing : List (Operation ω) → Memory ω → Bool
  | [], _ => true
  | op :: rest, m => !op.fails m && unfailing rest (op.program.run m).2

/-- What every operation preserves holds after any number of them. -/
theorem runAll_induct {I : List (Event ω) → Memory ω → Prop}
    (step : ∀ h m (op : Operation ω), op.fails m = false → I h m →
      I (h ++ op.program.trace m) (op.program.run m).2)
    {ops : List (Operation ω)} {h : List (Event ω)} {m : Memory ω}
    (healthy : unfailing ops m = true) (hI : I h m) : I (h ++ traceAll ops m) (runAll ops m) := by
  induction ops generalizing h m with
  | nil => simpa [traceAll, runAll] using hI
  | cons op rest ih =>
    rw [unfailing, Bool.and_eq_true, Bool.not_eq_true'] at healthy
    have hrest := ih healthy.2 (step h m op healthy.1 hI)
    rw [List.append_assoc] at hrest
    exact hrest

theorem unfailing_take {ops : List (Operation ω)} {m : Memory ω} (h : unfailing ops m = true)
    (n : Nat) : unfailing (ops.take n) m = true := by
  induction ops generalizing m n with
  | nil => simpa using h
  | cons op rest ih =>
    cases n with
    | zero => rfl
    | succ n =>
      rw [unfailing, Bool.and_eq_true] at h
      rw [List.take_succ_cons, unfailing, Bool.and_eq_true]
      exact ⟨h.1, ih h.2 n⟩

theorem traceAll_take (ops : List (Operation ω)) (m : Memory ω) (n : Nat) :
    traceAll (ops.take n) m <+: traceAll ops m := by
  induction ops generalizing m n with
  | nil => simp
  | cons op rest ih =>
    cases n with
    | zero => exact List.nil_prefix
    | succ n =>
      rw [List.take_succ_cons, traceAll, traceAll, List.prefix_append_right_inj]
      exact ih _ n

/-- What a step does unless the store fails it; one with a threshold out of order does nothing. -/
theorem run_step {g : GraphId} {t : ω} {m : Memory ω}
    (h : (step g t : Operation ω).fails m = false) :
    ∃ steps, Drain.Steps g t m steps ((step g t : Operation ω).program.run m).2 := by
  have hrun := Program.run_bind (Drain.step g t) (fun _ => pure ()) m
  change (program (step g t)).run m = _ at hrun
  rw [fails, hrun] at h
  rw [hrun]
  cases ht : Weight.bounding t with
  | false =>
    rw [Drain.run_step_of_not_bounding ht]
    exact ⟨[], .nil _⟩
  | true =>
    have hends := (Drain.step_ends (g := g) ht).run m
    rcases hstep : (Drain.step g t).run m with ⟨r, m'⟩
    rw [hstep] at h hends
    rcases hends with ⟨s, rfl⟩ | ⟨cause, rfl⟩
    · exact ⟨[s], .cons (Drain.run_step_ok hstep).2 (.nil _)⟩
    · cases h

theorem run_cluster {allowance : Nat} {g : GraphId} {t : ω} {m : Memory ω}
    (h : (cluster allowance g t : Operation ω).fails m = false) :
    ∃ steps, Drain.Steps g t m steps ((cluster allowance g t : Operation ω).program.run m).2 := by
  have hrun := Program.run_bind (Drain.cluster allowance g t) (fun _ => pure ()) m
  change (program (cluster allowance g t)).run m = _ at hrun
  rw [fails, hrun] at h
  rw [hrun]
  rcases hcluster : (Drain.cluster allowance g t).run m with ⟨r, m'⟩
  rw [hcluster] at h
  have hr (cause : StoreError ω) : r ≠ .error (.store cause) := by
    rintro rfl
    cases h
  obtain ⟨steps, hsteps, -⟩ := Drain.run_cluster hcluster hr
  refine ⟨steps, ?_⟩
  rcases r with report | cause | _ <;> exact hsteps

end Operation

end RecordLinkage
