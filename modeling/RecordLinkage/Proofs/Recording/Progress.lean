import RecordLinkage.Proofs.Recording.Ledger
import Mathlib.Algebra.GroupWithZero.Nat

namespace RecordLinkage

variable {ω : Type} [Weight ω]

def Move.Works : Move ω → Prop
  | .handOff | .take _ _ _ | .call _ _ | .finish _ => True
  | .close | .leave _ | .others _ => False

/-- Moves in which the store serves every call, nobody else uses it, and the entities, the features and
the oracle treat pairs in one way. -/
inductive Move.Served (source : EntitySource ω) (scorer : Scorer ω) : Move ω → Prop where
  | handOff : Served source scorer .handOff
  | take (i : Nat) : Served source scorer (.take i source scorer)
  | call (i : Nat) : Served source scorer (.call i .served)
  | finish (i : Nat) : Served source scorer (.finish i)
  | close : Served source scorer .close
  | leave (i : Nat) : Served source scorer (.leave i)

/-- The moves that a worker still makes for what it holds: at most five calls and the last one. -/
def Worker.effort (w : Worker (PairJob ω)) : Nat := (w.work.map fun job => 6 - job.log.length).sum

namespace Recording

def todo (r : Recording ω) : Nat :=
  8 * r.pending.length + 7 * r.pool.queue.length +
    ((r.pool.workers.flatMap Worker.work).map fun job => 6 - job.log.length).sum

variable {d : Dispatcher} {tasks : List PairTask} {r r' : Recording ω} {i : Nat}

theorem todo_setWorker {w : Worker (PairJob ω)} (h : r.pool.workers[i]? = some w)
    (w' : Worker (PairJob ω)) : w.effort + (r.setWorker i w').todo = w'.effort + r.todo := by
  have hsum := ((Worker.perm_work_set h w').map fun job : PairJob ω => 6 - job.log.length).sum_nat
  simp only [List.map_append, List.sum_append] at hsum
  simp only [todo, setWorker, Worker.effort]
  omega

theorem todo_handedOff {t : PairTask} {rest : List PairTask} (h : r.pending = t :: rest) :
    todo { r with pending := rest, pool := { r.pool with queue := r.pool.queue ++ [t] } } <
      r.todo := by
  simp only [todo, h, List.length_cons, List.length_append, List.length_nil]
  omega

theorem todo_taken {t : PairTask} {rest : Program ω (PairOutcome ω)}
    (free : r.pool.workers[i]? = some .free) (found : r.next? d = some (t, r')) :
    (r'.setWorker i (.held ⟨t, [], rest⟩)).todo < r.todo := by
  have hfree : r'.pool.workers[i]? = some .free := by
    rcases next?_eq_some found with ⟨rest, -, -, rfl⟩ | ⟨rest, -, -, rfl⟩ <;> exact free
  have htodo := todo_setWorker hfree (.held ⟨t, [], rest⟩)
  have hnext : r'.todo + 7 ≤ r.todo := by
    rcases next?_eq_some found with ⟨rest, hpending, -, rfl⟩ | ⟨rest, hqueue, -, rfl⟩
    · simp only [todo, hpending, List.length_cons]
      omega
    · simp only [todo, hqueue, List.length_cons]
      omega
  simp only [Worker.effort, Worker.work, List.map_cons, List.map_nil, List.sum_cons, List.sum_nil,
    List.length_nil] at htodo
  omega

theorem todo_called {t : PairTask} {log : List (Exchange ω)} {p p' : Program ω (PairOutcome ω)}
    (held : r.pool.workers[i]? = some (.held ⟨t, log, p⟩)) (hlog : log.length < 5)
    (x : Exchange ω) : (r.setWorker i (.held ⟨t, log ++ [x], p'⟩)).todo < r.todo := by
  have htodo := todo_setWorker held (.held ⟨t, log ++ [x], p'⟩)
  simp only [Worker.effort, Worker.work, List.map_cons, List.map_nil, List.sum_cons, List.sum_nil,
    List.length_append, List.length_cons, List.length_nil] at htodo
  omega

theorem todo_finished {t : PairTask} {log : List (Exchange ω)} {p : Program ω (PairOutcome ω)}
    (held : r.pool.workers[i]? = some (.held ⟨t, log, p⟩)) (hlog : log.length ≤ 5)
    (o : Outcome (Error ω) (PairOutcome ω)) : (r.setWorker i (d.afterwards o)).todo < r.todo := by
  have htodo := todo_setWorker held (d.afterwards o)
  rw [Worker.effort, Worker.effort, work_afterwards] at htodo
  simp only [Worker.work, List.map_cons, List.map_nil, List.sum_cons, List.sum_nil] at htodo
  omega

/-- No move makes more work, and one at the pairs changes nothing or leaves less to do. -/
theorem Changes.todo (h : r.Ledger d tasks) {mv : Move ω} (hchanges : r.Changes d mv r') :
    r'.todo ≤ r.todo ∧ (mv.Works → r' = r ∨ r'.todo < r.todo) := by
  have hless (hlt : r'.todo < r.todo) :
      r'.todo ≤ r.todo ∧ (mv.Works → r' = r ∨ r'.todo < r.todo) :=
    ⟨Nat.le_of_lt hlt, fun _ => .inr hlt⟩
  cases hchanges with
  | idle => exact ⟨Nat.le_refl _, fun _ => .inl rfl⟩
  | handedOff service unclosed pending room => exact hless (todo_handedOff pending)
  | taken free found => exact hless (todo_taken free found)
  | missed reply held faulty unserved =>
    exact hless (todo_called held (h.jobs _ (mem_work held)).obeys.1 _)
  | @carried i fate t log c next reply held answered served =>
    have hlog := (h.jobs _ (mem_work held)).obeys.1
    exact hless (todo_called (r := r.carry c) held hlog _)
  | @finished i t log o held =>
    exact hless (todo_finished held (h.jobs _ (mem_work held)).obeys.1 o)
  | closed | others => exact ⟨Nat.le_refl _, False.elim⟩
  | left service closed empty free =>
    have htodo := todo_setWorker free .gone
    simp only [Worker.effort, Worker.work, List.map_nil, List.sum_nil] at htodo
    exact ⟨by omega, False.elim⟩

theorem Ledger.todo_run (h : r.Ledger d tasks) (moves : List (Move ω)) :
    (r.run d moves).todo ≤ r.todo := by
  have hkept : (r.run d moves).Ledger d tasks ∧ (r.run d moves).todo ≤ r.todo :=
    run_induct (I := fun r' => r'.Ledger d tasks ∧ r'.todo ≤ r.todo)
      (fun _ _ _ (_ : True) hchanges h => ⟨h.1.changes hchanges,
        Nat.le_trans (hchanges.todo h.1).1 h.2⟩) ⟨h, Nat.le_refl _⟩ fun _ _ => trivial
  exact hkept.2

theorem todo_start (d : Dispatcher) (m : Memory ω) (tally : Tally ω) (total : Nat)
    (tasks : List PairTask) : (start d m tally total tasks).todo = 8 * tasks.length := by
  rw [todo, work_start, queue_start]
  rfl

/-- Who is there to work: workers are gone only when nothing is left for them, or when a caller who
scores by itself crashed. -/
structure Staffed (d : Dispatcher) (r : Recording ω) : Prop where
  staff : r.pool.workers ≠ []
  room : 0 < r.pool.capacity
  alone : d = .inline → r.pool.queue = []
  gone : .gone ∈ r.pool.workers →
    (d = .inline ∧ ∃ x ∈ r.ended, x.outcome = .crash) ∨
      (d ≠ .inline ∧ r.closed = true ∧ r.pool.queue = [])

theorem Staffed.start (d : Dispatcher) (m : Memory ω) (tally : Tally ω) (total : Nat)
    (tasks : List PairTask) : (start d m tally total tasks).Staffed d := by
  refine ⟨?_, ?_, ?_, ?_⟩
  · cases d <;> simp [Recording.start, Dispatcher.pool, Pool.start]
  · cases d <;> exact Nat.le_max_right _ _
  · rintro rfl
    rfl
  · intro hgone
    cases workers_start d m tally total tasks hgone

theorem mem_workers_setWorker {w w' : Worker (PairJob ω)}
    (h : w' ∈ (r.setWorker i w).pool.workers) : w' = w ∨ w' ∈ r.pool.workers :=
  (List.mem_or_eq_of_mem_set h).symm

theorem Staffed.changes (h : r.Staffed d) {mv : Move ω} (hchanges : r.Changes d mv r') :
    r'.Staffed d := by
  have hset (i : Nat) (w : Worker (PairJob ω)) : r.pool.workers.set i w ≠ [] := by
    rw [ne_eq, List.set_eq_nil_iff]
    exact h.staff
  cases hchanges with
  | idle | others => exact ⟨h.staff, h.room, h.alone, h.gone⟩
  -- The queue grows, but a pair is only handed off where somebody is left to take it.
  | handedOff service unclosed pending room =>
    have hservice : d ≠ .inline := by
      rw [service]
      exact nofun
    refine ⟨h.staff, h.room, fun hd => absurd hd hservice, fun hgone => ?_⟩
    rcases h.gone hgone with ⟨hd, -⟩ | ⟨-, hclosed, -⟩
    · exact absurd hd hservice
    · have hclosed : r.closed = true := hclosed
      rw [unclosed] at hclosed
      cases hclosed
  | @taken i source scorer t r₁ free found =>
    have hnext : r₁.Staffed d := by
      rcases next?_eq_some found with ⟨rest, -, hd, rfl⟩ | ⟨rest, hqueue, hd, rfl⟩
      · exact ⟨h.staff, h.room, h.alone, h.gone⟩
      · refine ⟨h.staff, h.room, fun hd' => absurd hd' hd, fun hgone => ?_⟩
        rcases h.gone hgone with ⟨hd', -⟩ | ⟨-, -, hempty⟩
        · exact absurd hd' hd
        · rw [hqueue] at hempty
          cases hempty
    refine ⟨?_, hnext.room, hnext.alone, fun hgone => ?_⟩
    · show r₁.pool.workers.set i _ ≠ []
      rw [(next?_keeps found).2.2.2.2.2.2]
      exact hset i _
    · rcases mem_workers_setWorker hgone with hw | hgone
      · cases hw
      · exact hnext.gone hgone
  | @missed i fate t log c next reply held faulty unserved =>
    refine ⟨hset i _, h.room, h.alone, fun hgone => ?_⟩
    rcases mem_workers_setWorker hgone with hw | hgone
    · cases hw
    · exact h.gone hgone
  | @carried i fate t log c next reply held answered served =>
    refine ⟨hset i _, h.room, h.alone, fun hgone => ?_⟩
    rcases mem_workers_setWorker hgone with hw | hgone
    · cases hw
    · exact h.gone hgone
  | @finished i t log o held =>
    refine ⟨hset i _, h.room, h.alone, fun hgone => ?_⟩
    rcases mem_workers_setWorker (r := r) hgone with hw | hgone
    · -- Only a crash of the caller takes a worker away.
      cases d with
      | workers => cases o <;> cases hw
      | inline =>
        cases o with
        | ok | error => cases hw
        | crash => exact .inl ⟨rfl, _, List.mem_append_right _ (List.mem_singleton.mpr rfl), rfl⟩
    · rcases h.gone hgone with ⟨hd, x, hx, hcrash⟩ | hleft
      · exact .inl ⟨hd, x, List.mem_append_left _ hx, hcrash⟩
      · exact .inr hleft
  | closed =>
    refine ⟨h.staff, h.room, h.alone, fun hgone => ?_⟩
    rcases h.gone hgone with hcrash | ⟨hd, -, hempty⟩
    · exact .inl hcrash
    · exact .inr ⟨hd, rfl, hempty⟩
  -- A worker leaves a closed service with an empty queue, which is what `gone` asks for.
  | @left i count capacity service closed empty free =>
    refine ⟨hset i _, h.room, h.alone, fun _ => .inr ⟨?_, closed, empty⟩⟩
    rw [service]
    exact nofun

theorem Staffed.run (h : r.Staffed d) (moves : List (Move ω)) : (r.run d moves).Staffed d :=
  run_induct (fun _ _ _ (_ : True) hchanges h => h.changes hchanges) h fun _ _ => trivial

theorem exists_held (h : r.inHand ≠ []) :
    ∃ (i : Nat) (job : PairJob ω), r.pool.workers[i]? = some (.held job) := by
  obtain ⟨t, ht⟩ := List.exists_mem_of_ne_nil _ h
  obtain ⟨job, hjob, -⟩ := List.mem_map.mp ht
  obtain ⟨w, hw, hwork⟩ := List.mem_flatMap.mp hjob
  obtain ⟨i, hi⟩ := List.mem_iff_getElem?.mp hw
  cases w with
  | held job' => exact ⟨i, job', hi⟩
  | free | gone => cases hwork

/-- Workers that hold nothing are free as long as a pair waits for them. -/
theorem Staffed.exists_free (h : r.Staffed d) (hunbroken : r.Unbroken d) (hidle : r.inHand = [])
    (hleft : r.pool.queue ≠ [] ∨ r.inHand ≠ [] ∨ r.closed = false ∧ r.pending ≠ []) :
    ∃ i : Nat, r.pool.workers[i]? = some .free := by
  obtain ⟨w, hw⟩ := List.exists_mem_of_ne_nil _ h.staff
  cases w with
  | free => exact List.mem_iff_getElem?.mp hw
  | held job =>
    obtain ⟨i, hi⟩ := List.mem_iff_getElem?.mp hw
    have hmem := List.mem_map_of_mem (f := PairJob.task) (mem_work hi)
    rw [← inHand, hidle] at hmem
    cases hmem
  | gone =>
    rcases h.gone hw with ⟨hd, x, hx, hcrash⟩ | ⟨-, hclosed, hqueue⟩
    · exact absurd hcrash (hunbroken hd x hx)
    · rcases hleft with hleft | hleft | ⟨hopen, -⟩
      · exact absurd hqueue hleft
      · exact absurd hidle hleft
      · rw [hclosed] at hopen
        cases hopen

theorem handOff_of_room {count capacity : Nat} {t : PairTask} {rest : List PairTask}
    (unclosed : r.closed = false) (pending : r.pending = t :: rest)
    (free : r.pool.workers[i]? = some .free) (room : r.pool.queue.length < r.pool.capacity) :
    r.handOff (.workers count capacity) =
      { r with pending := rest, pool := { r.pool with queue := r.pool.queue ++ [t] } } := by
  have hserved : r.pool.deserted = false := by
    rw [Pool.deserted, List.all_eq_false]
    exact ⟨.free, List.mem_of_getElem? free, by simp [Worker.isGone]⟩
  have hsubmit : r.pool.submit t = .ok { r.pool with queue := r.pool.queue ++ [t] } := by
    rw [Pool.submit, hserved, if_neg (by decide), if_neg (Nat.not_le_of_lt room)]
  simp only [handOff, unclosed, pending, hsubmit]

/-- As long as a pair waits or is in hand, a move makes progress, whatever the pairs meet. -/
theorem exists_move (h : r.Ledger d tasks) (hstaff : r.Staffed d) (hunbroken : r.Unbroken d)
    (source : EntitySource ω) (scorer : Scorer ω)
    (hleft : r.pool.queue ≠ [] ∨ r.inHand ≠ [] ∨ r.closed = false ∧ r.pending ≠ []) :
    ∃ mv : Move ω, mv.Works ∧ mv.Served source scorer ∧ (r.move d mv).todo < r.todo := by
  by_cases hidle : r.inHand = []
  · -- Whoever is still there is free.
    obtain ⟨i, hfree⟩ := hstaff.exists_free hunbroken hidle hleft
    have htake {t : PairTask} {r' : Recording ω} (found : r.next? d = some (t, r')) :
        (r.move d (.take i source scorer)).todo < r.todo := by
      rw [move_take hfree found]
      exact todo_taken hfree found
    -- A queued pair is taken; with an empty queue there is room for the next pair of the block.
    cases hqueue : r.pool.queue with
    | cons t rest =>
      cases d with
      | inline =>
        have hempty := hstaff.alone rfl
        rw [hqueue] at hempty
        cases hempty
      | workers count capacity =>
        exact ⟨.take i source scorer, trivial, .take i, htake (by rw [next?, hqueue])⟩
    | nil =>
      obtain ⟨hopen, hpending⟩ : r.closed = false ∧ r.pending ≠ [] := by
        rcases hleft with hleft | hleft | hleft
        · exact absurd hqueue hleft
        · exact absurd hidle hleft
        · exact hleft
      obtain ⟨t, rest, hpending⟩ := List.exists_cons_of_ne_nil hpending
      cases d with
      | inline => exact ⟨.take i source scorer, trivial, .take i, htake (by rw [next?, hpending])⟩
      | workers count capacity =>
        refine ⟨.handOff, trivial, .handOff, ?_⟩
        have hroom : r.pool.queue.length < r.pool.capacity := by
          rw [hqueue]
          exact hstaff.room
        show (r.handOff _).todo < _
        rw [handOff_of_room hopen hpending hfree hroom]
        exact todo_handedOff hpending
  -- A pair in hand makes its next call, or is done.
  · obtain ⟨i, job, held⟩ := exists_held hidle
    obtain ⟨t, log, rest⟩ := job
    have hobeys := (h.jobs _ (mem_work held)).obeys
    cases rest with
    | done o =>
      refine ⟨.finish i, trivial, .finish i, ?_⟩
      rw [move_finish held]
      exact todo_finished held hobeys.1 o
    | ask c next =>
      refine ⟨.call i .served, trivial, .call i, ?_⟩
      rw [move_call held]
      exact todo_called (r := r.carry c) held hobeys.1 _

theorem Changes.closed_eq {mv : Move ω} (h : r.Changes d mv r') (hworks : mv.Works) :
    r'.closed = r.closed := by
  cases h with
  | taken free found => exact (next?_keeps found).2.2.2.2.2.1
  | idle | handedOff | missed | carried | finished => rfl
  | closed | left | others => cases hworks

/-- Workers can always finish a block that is handed off to them. -/
theorem exists_finish (h : r.Ledger d tasks) (hstaff : r.Staffed d) (hd : d ≠ .inline)
    (hopen : r.closed = false) (source : EntitySource ω) (scorer : Scorer ω) :
    ∃ more : List (Move ω), (∀ mv ∈ more, mv.Served source scorer) ∧ (r.run d more).Finished := by
  induction hn : r.todo using Nat.strongRecOn generalizing r with
  | ind n ih =>
    by_cases hfinished : r.Finished
    · exact ⟨[], nofun, hfinished⟩
    · have hleft : r.pool.queue ≠ [] ∨ r.inHand ≠ [] ∨ r.closed = false ∧ r.pending ≠ [] := by
        by_cases hqueue : r.pool.queue = []
        · by_cases hhand : r.inHand = []
          · exact .inr (.inr ⟨hopen, fun hpending => hfinished ⟨hpending, hqueue, hhand⟩⟩)
          · exact .inr (.inl hhand)
        · exact .inl hqueue
      obtain ⟨mv, hworks, hserved, hless⟩ :=
        exists_move h hstaff (fun heq => absurd heq hd) source scorer hleft
      have hchanges := r.changes d mv
      obtain ⟨more, hmore, hend⟩ := ih _ (hn ▸ hless) (h.changes hchanges)
        (hstaff.changes hchanges) ((hchanges.closed_eq hworks).trans hopen) rfl
      exact ⟨mv :: more, List.forall_mem_cons.mpr ⟨hserved, hmore⟩, hend⟩

end Recording

end RecordLinkage
