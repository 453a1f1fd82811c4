import RecordLinkage.Proofs.Block.Recorded
import RecordLinkage.Proofs.Graph.Anchored
import RecordLinkage.Proofs.Recording.Counted
import RecordLinkage.Proofs.Recording.Inline
import RecordLinkage.Proofs.Recording.Script
import RecordLinkage.Proofs.Scoring.MinWeight
import RecordLinkage.Proofs.Store.Commute
import RecordLinkage.Proofs.Weight.Binary64

namespace RecordLinkage

variable {ω : Type} [Weight ω] {g : GraphId}

namespace Call

/-- Retired vertices are those from before. -/
theorem retired_after {c : Call ω} (hc : c.kind ∈ CallKind.scoring) (m : Memory ω) (g : GraphId) :
    ((after m c).store.graph g).retired = (m.store.graph g).retired := by
  cases c with
  | singleton g' e =>
    simp only [after, perform, Store.graph_singleton]
    split
    · rename_i hg
      rw [Graph.retired_ensure, hg]
    · rfl
  | cluster k => rfl
  | putEdge e w => exact (perform_quiet (c := .putEdge e w) trivial m g).2
  | _ => simp [Call.kind, CallKind.scoring] at hc

/-- Live vertices stay. -/
theorem live_after {c : Call ω} (hc : c.kind ∈ CallKind.scoring) {m : Memory ω} {g : GraphId}
    {v : VertexId} (h : (m.store.graph g).live v = true) :
    ((after m c).store.graph g).live v = true := by
  cases c with
  | singleton g' e =>
    simp only [after, perform, Store.graph_singleton]
    split
    · rename_i hg
      rw [hg]
      exact Graph.live_ensure e h
    · exact h
  | cluster k => exact h
  | putEdge e w =>
    rw [Graph.live, after, (perform_quiet (c := .putEdge e w) trivial m g).1]
    exact h
  | _ => simp [Call.kind, CallKind.scoring] at hc

theorem live_after_singleton {m : Memory ω} {e : EntityKey}
    (h : e.singletonId g ∉ (m.store.graph g).retired) :
    ((after m (.singleton g e)).store.graph g).live (e.singletonId g) = true := by
  simp only [after, perform, Store.graph_singleton, if_true]
  have htaken := (Graph.taken_ensure (m.store.graph g) (e.singletonId g) e _).mpr (.inr rfl)
  rw [Graph.taken_iff, Graph.retired_ensure] at htaken
  exact htaken.resolve_right h

end Call

def writtenWeight? : Outcome (Error ω) (PairOutcome ω) → Option ω
  | .ok (.edge _ w) => some w
  | _ => none

omit [Weight ω] in
theorem writtenWeight?_eq_some {o : Outcome (Error ω) (PairOutcome ω)} {w : ω} :
    writtenWeight? o = some w ↔ ∃ e, o = .ok (.edge e w) := by
  cases o with
  | ok r => cases r <;> simp [writtenWeight?]
  | error | crash => simp [writtenWeight?]

/-- The running minimum of a scorer is that of the weights it wrote. -/
theorem least_foldl_after (os : List (Outcome (Error ω) (PairOutcome ω))) (tally : Tally ω) :
    (os.foldl Tally.after tally).least =
      (os.filterMap writtenWeight?).foldl MinWeight.observe tally.least := by
  induction os generalizing tally with
  | nil => rfl
  | cons o os ih =>
    rw [List.foldl_cons, ih]
    cases o with
    | ok r => cases r <;> rfl
    | error | crash => rfl

/-- The scripts of a block whose entities are named apart agree. -/
theorem PairTask.script_agree {source : EntitySource ω} {scorer : Scorer ω}
    {context : BlockContext} {pairs : List (EntityKey × EntityKey)} (hapart : Graph.PairsApart g pairs)
    (hordered : ∀ p ∈ pairs, p.1 = p.2 ∨ compare p.1 p.2 = .lt) {t t' : PairTask}
    (ht : t ∈ pairs.map fun p => (⟨g, p.1, p.2, context⟩ : PairTask))
    (ht' : t' ∈ pairs.map fun p => (⟨g, p.1, p.2, context⟩ : PairTask)) {c c' : Call ω}
    (hc : c ∈ (t.script source scorer).1) (hc' : c' ∈ (t'.script source scorer).1) :
    Call.Agree g c c' := by
  obtain ⟨p, hp, rfl⟩ := List.mem_map.mp ht
  obtain ⟨q, hq, rfl⟩ := List.mem_map.mp ht'
  rcases mem_script hc with ⟨e, he, rfl | rfl⟩ | ⟨l, w, hne, -, hl, rfl, hend⟩
  · rcases mem_script hc' with ⟨e', he', rfl | rfl⟩ | ⟨l', w', -, -, -, rfl, -⟩
    · exact .vertices fun hname => hapart p hp q hq e e' he he' hname
    · exact .lookRight _ _
    · exact .vertexLink _ _ _
  · exact .lookLeft _ _
  · rcases mem_script hc' with ⟨e', he', rfl | rfl⟩ | ⟨l', w', hne', -, hl', rfl, hend'⟩
    · exact .linkVertex _ _ _
    · exact .lookRight _ _
    · refine .links fun hsame => ?_
      subst hsame
      -- A link between the same vertices belongs to the same pair.
      have hqp : q = p :=
        hapart.eq_of_names hordered hp hq hne hne' ((Link.between?_eq_iff hl).mp hl')
      subst hqp
      rw [hend] at hend'
      cases hend'
      rfl

namespace Recording

variable {d : Dispatcher} {tasks : List PairTask} {source : EntitySource ω} {scorer : Scorer ω}
  {r r' : Recording ω} {m : Memory ω} {tally : Tally ω}

def calls (r : Recording ω) : List (Call ω) := r.history.map Event.call

/-- Every call so far belongs to the script of a pair, and the vertices that the pairs have made sure
of are live. -/
structure Scripted (source : EntitySource ω) (scorer : Scorer ω) (g : GraphId) (m : Memory ω)
    (tasks : List PairTask) (r : Recording ω) : Prop where
  memory : r.memory = r.calls.foldl Call.after m
  scripted : ∀ c ∈ r.calls, ∃ t ∈ tasks, c ∈ (t.script source scorer).1
  unretired : ∀ t ∈ tasks, ∀ e, e = t.a ∨ e = t.b →
    e.singletonId g ∉ (r.memory.store.graph g).retired
  live : ∀ e, .singleton g e ∈ r.calls → (r.memory.store.graph g).live (e.singletonId g) = true

theorem calls_carry (r : Recording ω) (c : Call ω) : (r.carry c).calls = r.calls ++ [c] := by
  rw [calls, carry, List.map_append]
  rfl

theorem Scripted.carry (h : r.Scripted source scorer g m tasks) {t : PairTask} (ht : t ∈ tasks)
    (hgraph : t.graph = g) {c : Call ω} (hc : c ∈ (t.script source scorer).1) :
    (r.carry c).Scripted source scorer g m tasks := by
  have hform := PairTask.mem_script hc
  rw [hgraph] at hform
  -- Calls of scripts retire nothing, so what was live stays so.
  have hkind : c.kind ∈ CallKind.scoring := by
    rcases hform with ⟨e, -, rfl | rfl⟩ | ⟨l, w, -, -, -, rfl, -⟩ <;>
      simp [Call.kind, CallKind.scoring]
  refine ⟨?_, ?_, ?_, ?_⟩
  · rw [calls_carry, List.foldl_append, ← h.memory]
    rfl
  · rw [calls_carry, List.forall_mem_append, List.forall_mem_singleton]
    exact ⟨h.scripted, t, ht, hc⟩
  · intro t' ht' e he
    show _ ∉ ((Call.after r.memory c).store.graph g).retired
    rw [Call.retired_after hkind]
    exact h.unretired t' ht' e he
  · intro e he
    show ((Call.after r.memory c).store.graph g).live _ = true
    rw [calls_carry, List.mem_append, List.mem_singleton] at he
    rcases he with he | rfl
    · exact Call.live_after hkind (h.live e he)
    · apply Call.live_after_singleton
      rcases hform with ⟨e', he', heq | heq⟩ | ⟨l, w, -, -, -, heq, -⟩
      · cases heq
        exact h.unretired t ht e he'
      · cases heq
      · cases heq

/-- The next call of a pair is answered as its script expects. -/
theorem Scripted.expects (h : r.Scripted source scorer g m tasks) {t : PairTask}
    {c : Call ω} (hc : c ∈ (t.script source scorer).1)
    {made : List (Call ω)} (hmade : made ⊆ r.calls)
    (hprepared : ∀ k, c = .cluster k → ∃ e, k = ⟨g, e.singletonId g⟩ ∧ .singleton g e ∈ made) :
    c.expects (.ofExcept (c.perform r.memory).1) := by
  rcases PairTask.mem_script hc with ⟨e, -, rfl | rfl⟩ | ⟨l, w, -, hw, -, rfl, -⟩
  · exact rfl
  · obtain ⟨e', hk, he'⟩ := hprepared _ rfl
    obtain ⟨x, hx⟩ := Graph.live_iff.mp (h.live e' (hmade he'))
    exact ⟨x, by rw [hk]; exact congrArg Outcome.ok hx⟩
  · show Outcome.ofExcept (Call.perform _ _).1 = _
    simp only [Call.perform, Store.putEdge, Store.checkWeight, hw, if_true]
    rfl

structure Following (source : EntitySource ω) (scorer : Scorer ω) (g : GraphId) (tally : Tally ω)
    (r : Recording ω) : Prop where
  jobs : ∀ job ∈ r.pool.workers.flatMap Worker.work, ∃ left,
    (job.task.script source scorer).1 = job.log.map Sigma.fst ++ left ∧
      job.rest.Follows Call.expects (job.task.script source scorer).2 left ∧
      Prepared g (job.log.map Sigma.fst) left ∧ job.log.map Sigma.fst ⊆ r.calls
  ended : ∀ x ∈ r.ended, x.outcome = (x.task.script source scorer).2 ∧
    (x.task.script source scorer).1 ⊆ r.calls
  counted : r.tally = (r.ended.map PairResult.outcome).foldl Tally.after tally

theorem Scripted.congr (h : r.Scripted source scorer g m tasks) (hmemory : r'.memory = r.memory)
    (hhistory : r'.history = r.history) : r'.Scripted source scorer g m tasks := by
  have hcalls : r'.calls = r.calls := congrArg (List.map Event.call) hhistory
  refine ⟨?_, ?_, ?_, ?_⟩
  · rw [hmemory, hcalls]
    exact h.memory
  · rw [hcalls]
    exact h.scripted
  · rw [hmemory]
    exact h.unretired
  · rw [hmemory, hcalls]
    exact h.live

theorem Following.jobs_mono (hf : r.Following source scorer g tally) (hcalls : r.calls ⊆ r'.calls)
    {job : PairJob ω} (hjob : job ∈ r.pool.workers.flatMap Worker.work) : ∃ left,
    (job.task.script source scorer).1 = job.log.map Sigma.fst ++ left ∧
      job.rest.Follows Call.expects (job.task.script source scorer).2 left ∧
      Prepared g (job.log.map Sigma.fst) left ∧ job.log.map Sigma.fst ⊆ r'.calls := by
  obtain ⟨left, hscript, hfollows, hprepared, hmade⟩ := hf.jobs job hjob
  exact ⟨left, hscript, hfollows, hprepared, fun c hc => hcalls (hmade hc)⟩

theorem task_mem (hplaces : r.places.Perm tasks) {job : PairJob ω}
    (hjob : job ∈ r.pool.workers.flatMap Worker.work) : job.task ∈ tasks := by
  apply hplaces.mem_iff.mp
  refine List.mem_append_right _ (List.mem_append_right _ (List.mem_append_left _ ?_))
  exact List.mem_map_of_mem hjob

theorem mem_ended (hplaces : r.places.Perm tasks) (hend : r.Finished) {t : PairTask} :
    t ∈ r.ended.map PairResult.task ↔ t ∈ tasks := by
  obtain ⟨hpending, hqueue, hhand⟩ := hend
  rw [← hplaces.mem_iff, places, hpending, hqueue, hhand]
  rfl

/-- A schedule in which nothing goes wrong outside of the pairs keeps to the scripts. -/
theorem Scripted.changes (h : r.Scripted source scorer g m tasks)
    (hf : r.Following source scorer g tally) (hgraph : ∀ t ∈ tasks, t.graph = g)
    (hplaces : r.places.Perm tasks) {mv : Move ω} (hserved : mv.Served source scorer)
    (hchanges : r.Changes d mv r') :
    r'.Scripted source scorer g m tasks ∧ r'.Following source scorer g tally := by
  have hplaces' := hchanges.places.trans hplaces
  cases hchanges with
  | idle | handedOff | closed => exact ⟨h.congr rfl rfl, hf.jobs, hf.ended, hf.counted⟩
  -- The pair starts with its whole script ahead of it, and without any call.
  | @taken i source' scorer' t r₁ free found =>
    cases hserved
    obtain ⟨hended, -, htally, hmemory, hhistory, -, hworkers⟩ := next?_keeps found
    have hcalls : r₁.calls = r.calls := congrArg (List.map Event.call) hhistory
    refine ⟨h.congr hmemory hhistory, ?_, ?_, ?_⟩
    · intro job hjob
      rcases mem_work_setWorker hjob with hnew | hold
      · have ht := hgraph _ (task_mem hplaces' hjob)
        rw [Worker.work, List.mem_singleton] at hnew
        subst hnew
        exact ⟨_, rfl, t.process_follows source scorer, ht ▸ PairTask.script_prepared,
          List.nil_subset _⟩
      · rw [hworkers] at hold
        exact hf.jobs_mono (hcalls ▸ List.Subset.refl _) hold
    · show ∀ x ∈ r₁.ended, _ ∧ _ ⊆ r₁.calls
      rw [hended, hcalls]
      exact hf.ended
    · show r₁.tally = (r₁.ended.map _).foldl _ _
      rw [hended, htally]
      exact hf.counted
  | missed reply held faulty unserved =>
    cases hserved
    exact absurd rfl unserved
  -- The call is the next one of the script, so its reply is the expected one and the rest follows.
  | @carried i fate t log c next reply held answered served =>
    cases hserved
    obtain rfl := served rfl
    obtain ⟨left, hscript, ⟨rest, rfl, hnext⟩, hprepared, hmade⟩ := hf.jobs _ (mem_work held)
    have ht := task_mem hplaces (mem_work held)
    have hc : c ∈ (t.script source scorer).1 := by
      rw [hscript]
      exact List.mem_append_right _ List.mem_cons_self
    have hexpects := h.expects hc hmade hprepared.1
    have hkept : r.calls ⊆ (r.carry c).calls := by
      rw [calls_carry]
      exact List.subset_append_left _ _
    refine ⟨(h.carry ht (hgraph t ht) hc).congr rfl rfl, ?_, ?_, hf.counted⟩
    · intro job hjob
      rcases mem_work_setWorker hjob with hnew | hold
      · rw [Worker.work, List.mem_singleton] at hnew
        subst hnew
        refine ⟨rest, ?_, hnext _ hexpects, ?_, ?_⟩
        · simpa using hscript
        · simpa using hprepared.2
        · show (log ++ [_]).map Sigma.fst ⊆ (r.carry c).calls
          rw [List.map_append, calls_carry]
          exact List.append_subset.mpr ⟨fun c' hc' => List.mem_append_left _ (hmade hc'),
            List.subset_append_right _ _⟩
      · exact hf.jobs_mono hkept hold
    · intro x hx
      obtain ⟨houtcome, hscript'⟩ := hf.ended x hx
      exact ⟨houtcome, fun c' hc' => hkept (hscript' hc')⟩
  -- Nothing is left of the script, and the calls made are all of it.
  | @finished i t log o held =>
    obtain ⟨left, hscript, ⟨rfl, ho⟩, -, hmade⟩ := hf.jobs _ (mem_work held)
    rw [List.append_nil] at hscript
    refine ⟨h.congr rfl rfl, ?_, ?_, ?_⟩
    · intro job hjob
      rcases mem_work_setWorker (r := r) hjob with hnew | hold
      · rw [work_afterwards] at hnew
        cases hnew
      · exact hf.jobs job hold
    · rw [List.forall_mem_append, List.forall_mem_singleton]
      exact ⟨hf.ended, ho, hscript ▸ hmade⟩
    · dsimp only
      rw [List.map_append, List.foldl_append, ← hf.counted]
      rfl
  | left service closed empty free =>
    refine ⟨h.congr rfl rfl, ?_, hf.ended, hf.counted⟩
    intro job hjob
    rcases mem_work_setWorker hjob with hnew | hold
    · cases hnew
    · exact hf.jobs job hold
  | others => cases hserved

theorem Scripted.start (d : Dispatcher) (tally : Tally ω) (total : Nat)
    (hretired : ∀ t ∈ tasks, ∀ e, e = t.a ∨ e = t.b →
      e.singletonId g ∉ (m.store.graph g).retired) :
    (start d m tally total tasks).Scripted source scorer g m tasks :=
  ⟨rfl, nofun, hretired, nofun⟩

theorem Following.start (d : Dispatcher) (total : Nat) :
    (start d m tally total tasks).Following source scorer g tally := by
  refine ⟨?_, nofun, rfl⟩
  rw [work_start]
  exact nofun

theorem run_scripted (d : Dispatcher) (tally : Tally ω) (total : Nat)
    (hretired : ∀ t ∈ tasks, ∀ e, e = t.a ∨ e = t.b → e.singletonId g ∉ (m.store.graph g).retired)
    (hgraph : ∀ t ∈ tasks, t.graph = g) {moves : List (Move ω)}
    (hserved : ∀ mv ∈ moves, mv.Served source scorer) :
    ((start d m tally total tasks).run d moves).places.Perm tasks ∧
      ((start d m tally total tasks).run d moves).Scripted source scorer g m tasks ∧
      ((start d m tally total tasks).run d moves).Following source scorer g tally := by
  refine run_induct (I := fun r => r.places.Perm tasks ∧ r.Scripted source scorer g m tasks ∧
    r.Following source scorer g tally) (fun r mv r' hserved hchanges h => ?_) ⟨?_, ?_, ?_⟩ hserved
  · exact ⟨hchanges.places.trans h.1, h.2.1.changes h.2.2 hgraph h.1 hserved hchanges⟩
  · rw [places, inHand, work_start, queue_start]
    simp [start]
  · exact .start d tally total hretired
  · exact .start d total

theorem Scripted.mem_calls (h : r.Scripted source scorer g m tasks)
    (hf : r.Following source scorer g tally) (hplaces : r.places.Perm tasks) (hend : r.Finished)
    (c : Call ω) : c ∈ r.calls ↔ ∃ t ∈ tasks, c ∈ (t.script source scorer).1 := by
  constructor
  · exact h.scripted c
  · rintro ⟨t, ht, hc⟩
    obtain ⟨x, hx, rfl⟩ := List.mem_map.mp ((mem_ended hplaces hend).mpr ht)
    exact (hf.ended x hx).2 hc

/-- The weights that pairs wrote do not depend on the schedule. -/
theorem Following.weights (hf : r.Following source scorer g tally) (hplaces : r.places.Perm tasks)
    (hend : r.Finished) (w : ω) : w ∈ (r.ended.map PairResult.outcome).filterMap writtenWeight? ↔
      ∃ t ∈ tasks, writtenWeight? (t.script source scorer).2 = some w := by
  simp only [← mem_ended hplaces hend, List.mem_filterMap, List.mem_map]
  constructor
  · rintro ⟨-, ⟨x, hx, rfl⟩, hw⟩
    exact ⟨x.task, ⟨x, hx, rfl⟩, (hf.ended x hx).1 ▸ hw⟩
  · rintro ⟨-, ⟨x, hx, rfl⟩, hw⟩
    exact ⟨x.outcome, ⟨x, hx, rfl⟩, (hf.ended x hx).1 ▸ hw⟩

/-- Two recordings of the same pairs that have come to their end leave the same store and have seen
the same least weight. -/
theorem same_end [LawfulWeight ω] {tasks' : List PairTask} (hsame : ∀ t, t ∈ tasks ↔ t ∈ tasks')
    (hagree : ∀ t ∈ tasks, ∀ t' ∈ tasks, ∀ c ∈ (t.script source scorer).1,
      ∀ c' ∈ (t'.script source scorer).1, Call.Agree g c c')
    (hplaces : r.places.Perm tasks) (hscripted : r.Scripted source scorer g m tasks)
    (hfollowing : r.Following source scorer g tally) (hend : r.Finished)
    (hplaces' : r'.places.Perm tasks') (hscripted' : r'.Scripted source scorer g m tasks')
    (hfollowing' : r'.Following source scorer g tally) (hend' : r'.Finished) :
    r.memory = r'.memory ∧ r.tally.least.Same r'.tally.least := by
  constructor
  · rw [hscripted.memory, hscripted'.memory]
    apply Call.foldl_after_eq (g := g)
    · intro c
      rw [hscripted.mem_calls hfollowing hplaces hend,
        hscripted'.mem_calls hfollowing' hplaces' hend']
      simp only [hsame]
    · intro c hc c' hc'
      obtain ⟨t, ht, hc⟩ := hscripted.scripted c hc
      obtain ⟨t', ht', hc'⟩ := hscripted.scripted c' hc'
      exact hagree t ht t' ht' c hc c' hc'
  · rw [hfollowing.counted, hfollowing'.counted, least_foldl_after, least_foldl_after]
    apply MinWeight.same_foldl_observe
    · intro w
      rw [hfollowing.weights hplaces hend, hfollowing'.weights hplaces' hend']
      simp only [hsame]
    · intro w hw
      obtain ⟨t, -, hw⟩ := (hfollowing.weights hplaces hend w).mp hw
      obtain ⟨e, he⟩ := writtenWeight?_eq_some.mp hw
      exact PairTask.script_edge he

end Recording

/-- A block may be recorded in any order, by any number of workers and more than once: when the pairs
have all ended, the store and the least weight are those that one caller leaves who records the block
once. Singletons are named by digests, so it has to be assumed (`hnames`) that no two entities of the
block have the same name in the graph. -/
theorem block_recording_repeatable [LawfulWeight ω] {source : EntitySource ω} {scorer : Scorer ω}
    {tally : Tally ω} {entries : List BlockEntry} {context : BlockContext} {plan : BlockPlan}
    {state : BlockState ω} {m m' : Memory ω}
    (hinline : (recordBlock source scorer tally g entries context).run m = (.ok (plan, state), m'))
    (halive : state.crashed = false)
    (hretired : ∀ a ∈ entries, a.entity.singletonId g ∉ (m.store.graph g).retired)
    (hnames : ∀ a ∈ entries, ∀ b ∈ entries,
      a.entity.singletonId g = b.entity.singletonId g → a.entity = b.entity)
    {executions : List PairTask} (hexecutions : ∀ t, t ∈ executions ↔ t ∈ plan.tasks)
    (d : Dispatcher) {moves : List (Move ω)} (hserved : ∀ mv ∈ moves, mv.Served source scorer)
    {r : Recording ω}
    (hr : r = (Recording.start d m tally executions.length executions).run d moves) :
    (r.Finished → r.memory = m' ∧ r.tally.least.Same state.tally.least) ∧
      (d ≠ .inline → r.closed = false →
        ∃ more, (∀ mv ∈ more, mv.Served source scorer) ∧ (r.run d more).Finished) := by
  constructor
  · intro hfinished
    cases hplan : BlockPlan.ofEntries (ω := ω) g entries context with
    | error e =>
      rw [recordBlock, hplan] at hinline
      cases hinline
    | ok plan' =>
      obtain ⟨moves₀, crashed, hserved₀, r₀, hr₀, hrun, hend⟩ :=
        Recording.run_recordBlock_eq hplan source scorer m tally
      rw [hrun] at hinline
      cases hinline
      obtain htasks := congrArg BlockPlan.tasks (BlockPlan.ofEntries_eq_ok hplan)
      dsimp only at htasks
      have hblock (e : EntityKey) (he : e ∈ (.ofList (entries.map BlockEntry.entity) :
          SortedSet EntityKey)) : ∃ a ∈ entries, a.entity = e := by
        rw [SortedSet.mem_ofList, List.mem_map] at he
        exact he
      have hfrom (t : PairTask) (ht : t ∈ plan.tasks) (e : EntityKey) (he : e = t.a ∨ e = t.b) :
          t.graph = g ∧ ∃ a ∈ entries, a.entity = e := by
        rw [htasks, List.mem_map] at ht
        obtain ⟨p, hp, rfl⟩ := ht
        exact ⟨rfl, hblock e (candidatePairs_cover.mp ⟨p, hp, he⟩)⟩
      have hgraph (t : PairTask) (ht : t ∈ plan.tasks) : t.graph = g := (hfrom t ht _ (.inl rfl)).1
      have hretired' (t : PairTask) (ht : t ∈ plan.tasks) (e : EntityKey) (he : e = t.a ∨ e = t.b) :
          e.singletonId g ∉ (m.store.graph g).retired := by
        obtain ⟨-, a, ha, rfl⟩ := hfrom t ht e he
        exact hretired a ha
      have hapart : Graph.PairsApart g
          (candidatePairs (.ofList (entries.map BlockEntry.entity))) := by
        intro p hp q hq e e' he he' hname
        obtain ⟨a, ha, rfl⟩ := hblock e (candidatePairs_cover.mp ⟨p, hp, he⟩)
        obtain ⟨b, hb, rfl⟩ := hblock e' (candidatePairs_cover.mp ⟨q, hq, he'⟩)
        exact hnames a ha b hb hname
      -- Both recordings keep to the scripts of the same pairs, so that they make the same calls.
      obtain ⟨hplaces₀, hscripted₀, hfollowing₀⟩ :=
        Recording.run_scripted .inline tally plan.total hretired' hgraph hserved₀
      obtain ⟨hplaces, hscripted, hfollowing⟩ := Recording.run_scripted d tally executions.length
        (fun t ht => hretired' t ((hexecutions t).mp ht))
        (fun t ht => hgraph t ((hexecutions t).mp ht)) hserved
      rw [← hr₀] at hplaces₀ hscripted₀ hfollowing₀
      rw [← hr] at hplaces hscripted hfollowing
      refine Recording.same_end hexecutions ?_ hplaces hscripted hfollowing hfinished hplaces₀
        hscripted₀ hfollowing₀ (hend halive)
      -- Which call comes first does not matter, as the scripts of the block agree.
      intro t ht t' ht' c hc c' hc'
      have ht := (hexecutions t).mp ht
      have ht' := (hexecutions t').mp ht'
      rw [htasks] at ht ht'
      exact PairTask.script_agree hapart (fun p hp => (mem_candidatePairs.mp hp).2.2) ht ht' hc hc'
  · intro hd hopen
    have hledger := (Recording.Ledger.start d m tally executions).run moves
    have hstaff := (Recording.Staffed.start d m tally executions.length executions).run moves
    rw [← hr] at hledger hstaff
    exact Recording.exists_finish hledger hstaff hd hopen source scorer

def thirdEntries : List BlockEntry :=
  [⟨⟨⟨1⟩⟩, ⟨⟨⟨7⟩⟩, ⟨⟨1⟩⟩⟩⟩, ⟨⟨⟨1⟩⟩, ⟨⟨⟨7⟩⟩, ⟨⟨2⟩⟩⟩⟩, ⟨⟨⟨1⟩⟩, ⟨⟨⟨7⟩⟩, ⟨⟨3⟩⟩⟩⟩]

def lastUnread : EntitySource Binary64 := fun e _ => .ok (if e = ⟨⟨⟨7⟩⟩, ⟨⟨3⟩⟩⟩ then none else some ∅)

/-- A block of three entities of which the last cannot be read, recorded by its caller. -/
def missingThird : Outcome (Error Binary64) (BlockPlan × BlockState Binary64) × Memory Binary64 :=
  (recordBlock lastUnread ⟨overlapFeatures, .mismatchRate, .zero⟩ .empty ⟨⟨1⟩⟩ thirdEntries
    ⟨.ofList [(⟨⟨7⟩⟩, ⟨⟨1⟩⟩)], ⟨[]⟩⟩).run ⟨∅, ⟨[], 0⟩⟩

def inStep : List (Move Binary64) :=
  (List.replicate 6 (
    [.handOff, .handOff, .take 0 lastUnread ⟨overlapFeatures, .mismatchRate, .zero⟩,
      .take 1 lastUnread ⟨overlapFeatures, .mismatchRate, .zero⟩] ++
    (List.replicate 5 [.call 0 .served, .call 1 .served]).flatten ++
    [.finish 0, .finish 1])).flatten

def backAndForth (plan : BlockPlan) : Recording Binary64 :=
  let executions := plan.tasks.reverse ++ plan.tasks
  (Recording.start (.workers 2 2) ⟨∅, ⟨[], 0⟩⟩ .empty executions.length executions).run
    (.workers 2 2) inStep

/-- Half of the pairs fail. -/
theorem missingThird_repeated : ∃ plan state m', missingThird = (.ok (plan, state), m') ∧
    state.countdown.failed = 3 ∧ (backAndForth plan).Finished ∧ (backAndForth plan).memory = m' ∧
      (backAndForth plan).tally.least.Same state.tally.least := by
  have hrun : missingThird.1.meets (fun x =>
      decide (x.2.countdown.failed = 3 ∧ x.2.crashed = false ∧ (backAndForth x.1).pending = [] ∧
        (backAndForth x.1).pool.queue = [] ∧ (backAndForth x.1).inHand = [])) = true := by
    decide +kernel
  rw [Outcome.meets_iff] at hrun
  obtain ⟨⟨plan, state⟩, hok, hstate⟩ := hrun
  obtain ⟨hfailed, halive, hfinished⟩ := of_decide_eq_true hstate
  dsimp only at hfailed halive hfinished
  have hrecorded : missingThird = (.ok (plan, state), missingThird.2) := Prod.ext hok rfl
  have hserved : ∀ mv ∈ inStep,
      mv.Served lastUnread ⟨overlapFeatures, .mismatchRate, .zero⟩ := by
    intro mv hmv
    simp only [inStep, List.mem_flatten, List.mem_replicate] at hmv
    obtain ⟨l, ⟨-, rfl⟩, hmv⟩ := hmv
    simp only [List.mem_append, List.mem_flatten, List.mem_replicate, List.mem_cons,
      List.not_mem_nil, or_false] at hmv
    rcases hmv with ((rfl | rfl | rfl | rfl) | ⟨l, ⟨-, rfl⟩, hmv⟩) | rfl | rfl
    · exact .handOff
    · exact .handOff
    · exact .take 0
    · exact .take 1
    · simp only [List.mem_cons, List.not_mem_nil, or_false] at hmv
      rcases hmv with rfl | rfl
      · exact .call 0
      · exact .call 1
    · exact .finish 0
    · exact .finish 1
  have hnames : ∀ a ∈ thirdEntries, ∀ b ∈ thirdEntries,
      a.entity.singletonId ⟨⟨1⟩⟩ = b.entity.singletonId ⟨⟨1⟩⟩ → a.entity = b.entity := by
    decide +kernel
  have htwice (t : PairTask) : t ∈ plan.tasks.reverse ++ plan.tasks ↔ t ∈ plan.tasks := by simp
  have hrepeated := block_recording_repeatable hrecorded halive
    (fun _ _ => Graph.not_mem_retired_empty _) hnames htwice (.workers 2 2) hserved
    (backAndForth.eq_1 plan)
  exact ⟨plan, state, _, hrecorded, hfailed, hfinished, hrepeated.1 hfinished⟩

end RecordLinkage
