import RecordLinkage.Proofs.Recording.Progress

namespace RecordLinkage.Recording

variable {ω : Type} [Weight ω] {d : Dispatcher} {r r' : Recording ω} {i : Nat} {t : PairTask}
  {source : EntitySource ω} {scorer : Scorer ω}

def withMemory (r : Recording ω) (m : Memory ω) (history : List (Event ω)) : Recording ω :=
  { r with memory := m, history := history }

theorem exists_calls (d : Dispatcher) (source : EntitySource ω) (scorer : Scorer ω)
    {p : Program ω (PairOutcome ω)} {log : List (Exchange ω)}
    (held : r.pool.workers[i]? = some (.held ⟨t, log, p⟩)) :
    ∃ moves log' history, (∀ mv ∈ moves, mv.Served source scorer) ∧
      r.run d moves = (r.withMemory (p.run r.memory).2 history).setWorker i
        (.held ⟨t, log', .done (p.run r.memory).1⟩) := by
  induction p generalizing r log with
  | done o =>
    refine ⟨[], log, r.history, nofun, ?_⟩
    have hsame : r.pool.workers.set i (.held ⟨t, log, .done o⟩) = r.pool.workers := by
      obtain ⟨hi, heq⟩ := List.getElem?_eq_some_iff.mp held
      rw [← heq, List.set_getElem_self]
    show r = { r with pool := { r.pool with workers := r.pool.workers.set i (.held ⟨t, log, .done o⟩) } }
    rw [hsame]
  | ask c next ih =>
    have hheld := lookup_setWorker (r := r.carry c) held
      (.held ⟨t, log ++ [⟨c, .ofExcept (c.perform r.memory).1⟩],
        next (.ofExcept (c.perform r.memory).1)⟩)
    obtain ⟨moves, log', history, hserved, hrun⟩ := ih _ hheld
    refine ⟨.call i .served :: moves, log', history, ?_, ?_⟩
    · rw [List.forall_mem_cons]
      exact ⟨.call i, hserved⟩
    · show (r.move d (.call i .served)).run d moves = _
      rw [move_call held, hrun]
      simp only [setWorker, withMemory, List.set_set]
      rfl

/-- A free worker takes the next pair and is done with it before anything else happens. -/
theorem exists_turn (source : EntitySource ω) (scorer : Scorer ω)
    (free : r.pool.workers[i]? = some .free) (found : r.next? d = some (t, r')) :
    ∃ moves log history, (∀ mv ∈ moves, mv.Served source scorer) ∧
      r.run d moves = { r'.setWorker i
          (d.afterwards ((t.process source scorer).run r.memory).1) with
        memory := ((t.process source scorer).run r.memory).2
        tally := r.tally.after ((t.process source scorer).run r.memory).1
        countdown := d.settle r.countdown ((t.process source scorer).run r.memory).1
        ended := r.ended ++ [⟨t, log, ((t.process source scorer).run r.memory).1⟩]
        history := history } := by
  obtain ⟨hended, hcountdown, htally, hmemory, -, -, hworkers⟩ := next?_keeps found
  have hheld := lookup_setWorker (r := r') (hworkers ▸ free)
    (.held ⟨t, [], t.process source scorer⟩)
  obtain ⟨moves, log, history, hserved, hrun⟩ := exists_calls d source scorer hheld
  refine ⟨.take i source scorer :: moves ++ [.finish i], log, history, ?_, ?_⟩
  · rw [List.forall_mem_append, List.forall_mem_cons, List.forall_mem_singleton]
    exact ⟨⟨.take i, hserved⟩, .finish i⟩
  · rw [run_append]
    show ((r.move d (.take i source scorer)).run d moves).move d (.finish i) = _
    rw [move_take free found, hrun, move_finish (lookup_setWorker (by exact hheld) _)]
    simp only [setWorker, withMemory, List.set_set, hended, hcountdown, htally, hmemory]

/-- Who scores the pairs of a block one after another makes these moves. A crash ends them. -/
theorem run_recordAll_eq (source : EntitySource ω) (scorer : Scorer ω) {tasks : List PairTask}
    (hpending : r.pending = tasks) (hfree : r.pool.workers = [.free]) :
    ∃ moves crashed, (∀ mv ∈ moves, mv.Served source scorer) ∧
      (recordAll source scorer tasks ⟨r.tally, r.countdown, false⟩).run r.memory =
        (.ok ⟨(r.run .inline moves).tally, (r.run .inline moves).countdown, crashed⟩,
          (r.run .inline moves).memory) ∧
      (crashed = false → (r.run .inline moves).pending = [] ∧
        (r.run .inline moves).pool.workers = [.free]) ∧
      (r.run .inline moves).pool.queue = r.pool.queue := by
  induction tasks generalizing r with
  | nil => exact ⟨[], false, List.forall_mem_nil _, rfl, fun _ => ⟨hpending, hfree⟩, rfl⟩
  | cons t rest ih =>
    have hfound : r.next? .inline = some (t, { r with pending := rest }) := by
      rw [next?, hpending]
    have hlookup : r.pool.workers[0]? = some .free := by
      rw [hfree]
      rfl
    -- One pair is one turn of the only worker; the induction takes over after it.
    obtain ⟨moves, log, history, hserved, hrun⟩ := exists_turn source scorer hlookup hfound
    rcases hprocess : (t.process source scorer).run r.memory with ⟨o, m⟩
    rw [hprocess] at hrun
    unfold recordAll
    rw [Program.run_bind_of_ok (Program.run_attempt _ _), hprocess]
    by_cases hcrash : o = .crash
    · subst hcrash
      refine ⟨moves, true, hserved, ?_, fun h => absurd h (by decide), by rw [hrun]; rfl⟩
      rw [hrun]
      rfl
    -- A pair that does not crash leaves the caller free for the next one.
    · have hstate : (⟨r.tally, r.countdown, false⟩ : BlockState ω).after o =
          ⟨r.tally.after o, r.countdown.settle o, false⟩ := by
        cases o with
        | ok | error => rfl
        | crash => exact absurd rfl hcrash
      dsimp only
      rw [hstate]
      have hafter : (Dispatcher.inline.afterwards o : Worker (PairJob ω)) = .free := by
        cases o with
        | ok | error => rfl
        | crash => exact absurd rfl hcrash
      have hrest : (r.run .inline moves).pending = rest := by rw [hrun]; rfl
      have hstill : (r.run .inline moves).pool.workers = [.free] := by
        rw [hrun, hafter]
        show r.pool.workers.set 0 .free = _
        rw [hfree]
        rfl
      obtain ⟨more, crashed, hserved', hrun', hend, hqueue⟩ := ih hrest hstill
      refine ⟨moves ++ more, crashed, List.forall_mem_append.mpr ⟨hserved, hserved'⟩, ?_, ?_, ?_⟩
      · rw [run_append, ← hrun', hrun]
        rfl
      · rw [run_append]
        exact hend
      · rw [run_append, hqueue, hrun]
        rfl

theorem run_recordBlock_eq {g : GraphId} {entries : List BlockEntry} {context : BlockContext}
    {plan : BlockPlan} (hplan : BlockPlan.ofEntries (ω := ω) g entries context = .ok plan)
    (source : EntitySource ω) (scorer : Scorer ω) (m : Memory ω) (tally : Tally ω) :
    ∃ moves crashed, (∀ mv ∈ moves, mv.Served source scorer) ∧
      ∃ r, r = (start .inline m tally plan.total plan.tasks).run .inline moves ∧
        (recordBlock source scorer tally g entries context).run m =
          (.ok (plan, ⟨r.tally, r.countdown, crashed⟩), r.memory) ∧
        (crashed = false → r.Finished) := by
  obtain ⟨moves, crashed, hserved, hrun, hend, hqueue⟩ := run_recordAll_eq source scorer
    (r := start .inline m tally plan.total plan.tasks) rfl rfl
  refine ⟨moves, crashed, hserved, _, rfl, ?_, fun hcrash => ?_⟩
  · rw [recordBlock, hplan]
    exact Program.run_bind_of_ok hrun _
  · obtain ⟨hpending, hfree⟩ := hend hcrash
    refine ⟨hpending, hqueue, ?_⟩
    rw [inHand, hfree]
    rfl

end RecordLinkage.Recording
