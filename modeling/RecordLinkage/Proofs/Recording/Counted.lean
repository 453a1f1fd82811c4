import RecordLinkage.Progress.Wait
import RecordLinkage.Proofs.Block.Pairs
import RecordLinkage.Proofs.Block.Recorded
import RecordLinkage.Proofs.Recording.Progress

namespace RecordLinkage

/-- A wait that ends well has seen nothing outstanding, where sleeps keep what held before. -/
theorem Wait.poll_complete {σ : Type} {around : Surroundings σ} {I : σ → Prop}
    (hsleep : ∀ s, I s → I (around.sleep s)) {maxStalls sleeps stalls : Nat} {s s' : σ} (hs : I s)
    (h : poll around maxStalls sleeps (around.remaining s) stalls s = (some .complete, s')) :
    I s' ∧ around.remaining s' = 0 := by
  -- The wait ends well only where it has just read zero, before its sleeps or after one of them.
  induction sleeps generalizing s stalls with
  | zero =>
    rw [poll] at h
    split at h
    · rename_i hzero
      cases h
      exact ⟨hs, hzero⟩
    · split at h <;> cases h
  | succ sleeps ih =>
    rw [poll] at h
    split at h
    · rename_i hzero
      cases h
      exact ⟨hs, hzero⟩
    · split at h
      · cases h
      · dsimp only at h
        split at h
        · rename_i hzero
          cases h
          exact ⟨hsleep s hs, hzero⟩
        · split at h
          · split at h
            · cases h
            · exact ih (hsleep s hs) h
          · split at h
            · cases h
            · exact ih (hsleep s hs) h

variable {ω : Type} [Weight ω]

namespace Recording

def around (cancelled : Recording ω → Bool) (sleep : Recording ω → Recording ω) :
    Surroundings (Recording ω) where
  remaining r := r.countdown.remaining
  failed r := r.countdown.failed
  cancelled := cancelled
  sleep := sleep

variable {d : Dispatcher} {tasks : List PairTask} {r : Recording ω}

theorem Ledger.partition (h : r.Ledger d tasks) :
    (r.pending ++ (r.pool.queue ++ (r.inHand ++ (r.completed ++ r.failed)))).Perm tasks := by
  have hended : (r.completed ++ r.failed).Perm (r.ended.map PairResult.task) := by
    rw [completed, Recording.failed, ← List.map_append]
    exact (List.filter_append_perm _ _).map _
  exact (((hended.append_left _).append_left _).append_left _).trans h.places

theorem mem_failed {t : PairTask} :
    t ∈ r.failed ↔ ∃ x ∈ r.ended, x.outcome.isOk = false ∧ x.task = t := by
  simp [failed, and_assoc]

theorem Ledger.all_completed (h : r.Ledger d tasks) (hzero : r.countdown.remaining = 0) :
    r.countdown.failed = 0 ∧ ∀ t ∈ tasks, t.Written r.history := by
  have hremaining := h.remaining
  have hlength := h.partition.length_eq
  simp only [List.length_append] at hlength
  have hfailed : r.failed = [] := List.eq_nil_of_length_eq_zero (by omega)
  constructor
  · rw [h.failed, hfailed, List.length_nil]
    intro hd x hx hcrash
    have hmem : x.task ∈ r.failed := mem_failed.mpr ⟨x, hx, by rw [hcrash]; rfl, rfl⟩
    rw [hfailed] at hmem
    cases hmem
  · intro t ht
    have hmem := h.partition.mem_iff.mpr ht
    rw [List.eq_nil_of_length_eq_zero (l := r.pending) (by omega),
      List.eq_nil_of_length_eq_zero (l := r.pool.queue) (by omega),
      List.eq_nil_of_length_eq_zero (l := r.inHand) (by omega), hfailed, List.append_nil] at hmem
    exact h.written t hmem

theorem failed_run (d : Dispatcher) (r : Recording ω) (moves : List (Move ω)) :
    r.failed ⊆ (r.run d moves).failed := by
  have hended : r.ended ⊆ (r.run d moves).ended := by
    refine run_induct (I := fun r' => r.ended ⊆ r'.ended) (fun r₁ mv r₂ (_ : True) hchanges h => ?_)
      (List.Subset.refl _) fun _ _ => trivial
    rcases hchanges.counts with ⟨hsame, -⟩ | ⟨t, log, o, -, hmore, -⟩
    · exact hsame ▸ h
    · exact hmore ▸ List.Subset.trans h (List.subset_append_left _ _)
  intro t ht
  obtain ⟨x, hx, hfailed⟩ := mem_failed.mp ht
  exact mem_failed.mpr ⟨x, hended hx, hfailed⟩

/-- Once a pair has failed, something stays outstanding. -/
theorem Ledger.outstanding (h : r.Ledger d tasks) (hfailed : r.failed ≠ []) :
    r.countdown.remaining ≠ 0 := by
  have hremaining := h.remaining
  have hlength := h.partition.length_eq
  have hpos := List.length_pos_iff.mpr hfailed
  simp only [List.length_append] at hlength
  omega

end Recording

namespace BlockPlan

variable {g : GraphId} {entries : List BlockEntry} {context : BlockContext} {plan : BlockPlan}

omit [Weight ω] in
theorem ofEntries_eq_ok (h : ofEntries (ω := ω) g entries context = .ok plan) :
    plan = ⟨g, pairCount (SortedBy.ofList (entries.map BlockEntry.entity) : SortedSet EntityKey).size,
      (candidatePairs (.ofList (entries.map BlockEntry.entity))).map fun p =>
        ⟨g, p.1, p.2, context⟩⟩ := by
  unfold ofEntries at h
  split at h
  · cases h
  · cases h
    rfl

omit [Weight ω] in
theorem nodup_tasks (h : ofEntries (ω := ω) g entries context = .ok plan) : plan.tasks.Nodup := by
  obtain rfl := ofEntries_eq_ok h
  rw [List.Nodup, List.pairwise_map]
  refine (nodup_pairsOf (SortedBy.ascending _)).imp fun hne heq => hne ?_
  exact Prod.ext (congrArg PairTask.a heq) (congrArg PairTask.b heq)

omit [Weight ω] in
theorem total_eq (h : ofEntries (ω := ω) g entries context = .ok plan) {n : Nat}
    (hn : (SortedBy.ofList (entries.map BlockEntry.entity) : SortedSet EntityKey).size = n)
    (hsmall : n * (n + 1) / 2 < 18446744073709551616) :
    plan.tasks.length = n * (n + 1) / 2 ∧ plan.total = plan.tasks.length := by
  subst hn
  obtain rfl := ofEntries_eq_ok h
  have hlength := length_pairsOf
    (SortedBy.ofList (entries.map BlockEntry.entity) : SortedSet EntityKey).toList
  rw [List.length_map]
  exact ⟨hlength, (pairCount_eq hsmall).trans hlength.symm⟩

end BlockPlan

/-- However a block is dispatched and whatever its pairs meet, every pair is handed on once and ends
once: it is written and counts down, or it counts as failed. A wait that ends well has seen the whole
block written. -/
theorem block_pairs_counted_once {g : GraphId} {entries : List BlockEntry} {context : BlockContext}
    {plan : BlockPlan} {n : Nat} (hplan : BlockPlan.ofEntries (ω := ω) g entries context = .ok plan)
    (hn : (SortedBy.ofList (entries.map BlockEntry.entity) : SortedSet EntityKey).size = n)
    (hsmall : n * (n + 1) / 2 < 18446744073709551616) (d : Dispatcher) (m : Memory ω)
    (tally : Tally ω) (moves : List (Move ω)) {r : Recording ω}
    (hr : r = (Recording.start d m tally plan.total plan.tasks).run d moves) :
    -- Every pair is in one place, and the counter tells how many were completed and have failed.
    (plan.tasks.Nodup ∧ plan.tasks.length = n * (n + 1) / 2 ∧
      (r.pending ++ (r.pool.queue ++ (r.inHand ++ (r.completed ++ r.failed)))).Perm plan.tasks ∧
      r.countdown.remaining + r.completed.length = n * (n + 1) / 2 ∧
      (r.Unbroken d → r.countdown.failed = r.failed.length) ∧
      ∀ t ∈ r.completed, t.Written r.history) ∧
    -- Dispatcher and workers make a bounded number of moves, and when they can make no more every
    -- pair that was handed off has ended.
    (r.todo ≤ 8 * (n * (n + 1) / 2) ∧
      (∀ mv : Move ω, (r.move d mv).todo ≤ r.todo ∧
        (mv.Works → r.move d mv = r ∨ (r.move d mv).todo < r.todo)) ∧
      (r.Unbroken d → (∀ mv : Move ω, mv.Works → r.move d mv = r) →
        r.pool.queue = [] ∧ r.inHand = [] ∧ (r.closed = false → r.pending = []))) ∧
    -- A wait that ends well has seen everything written, and after a failure it never does.
    (∀ (cancelled : Recording ω → Bool) (sleep : Recording ω → Recording ω)
      (maxStalls sleeps : Nat) (r' : Recording ω), (∀ s, ∃ more, sleep s = s.run d more) →
        Wait.within (Recording.around cancelled sleep) maxStalls sleeps r = (some .complete, r') →
          r'.countdown.remaining = 0 ∧ r'.countdown.failed = 0 ∧
            ∀ t ∈ plan.tasks, t.Written r'.history) ∧
    (r.failed ≠ [] → ∀ more, (r.run d more).countdown.remaining ≠ 0) := by
  obtain ⟨hlength, htotal⟩ := BlockPlan.total_eq hplan hn hsmall
  have hstart := Recording.Ledger.start d m tally plan.tasks
  rw [← htotal] at hstart
  have hledger : r.Ledger d plan.tasks := hr ▸ hstart.run moves
  have hstaff : r.Staffed d := hr ▸ (Recording.Staffed.start d m tally _ _).run moves
  refine ⟨⟨BlockPlan.nodup_tasks hplan, hlength, hledger.partition, hlength ▸ hledger.remaining,
    hledger.failed, hledger.written⟩, ⟨?_, ?_, ?_⟩, ?_, ?_⟩
  · have htodo := hstart.todo_run moves
    rw [← hr, Recording.todo_start, hlength] at htodo
    exact htodo
  · exact fun mv => (r.changes d mv).todo hledger
  · intro hunbroken hstuck
    have hnone : ¬ (r.pool.queue ≠ [] ∨ r.inHand ≠ [] ∨ r.closed = false ∧ r.pending ≠ []) := by
      intro hleft
      obtain ⟨mv, hworks, -, hless⟩ := Recording.exists_move hledger hstaff hunbroken
        (fun _ _ => .crash) ⟨fun _ _ _ => .crash, fun _ => .crash, Weight.zero⟩ hleft
      rw [hstuck mv hworks] at hless
      exact Nat.lt_irrefl _ hless
    rw [not_or, not_or, not_ne_iff, not_ne_iff] at hnone
    refine ⟨hnone.1, hnone.2.1, fun hopen => ?_⟩
    by_contra hpending
    exact hnone.2.2 ⟨hopen, hpending⟩
  · intro cancelled sleep maxStalls sleeps r' hsleep hwait
    have hkept (s : Recording ω) (hs : s.Ledger d plan.tasks) : (sleep s).Ledger d plan.tasks := by
      obtain ⟨more, hmore⟩ := hsleep s
      exact hmore ▸ hs.run more
    obtain ⟨hledger', hzero⟩ := Wait.poll_complete hkept hledger hwait
    exact ⟨hzero, hledger'.all_completed hzero⟩
  · intro hfailed more
    have hstill := Recording.failed_run d r more
    apply (hledger.run more).outstanding
    intro hnil
    rw [hnil, List.subset_nil] at hstill
    exact hfailed hstill

def twoEntries : List BlockEntry :=
  [⟨⟨⟨1⟩⟩, ⟨⟨⟨7⟩⟩, ⟨⟨1⟩⟩⟩⟩, ⟨⟨⟨1⟩⟩, ⟨⟨⟨7⟩⟩, ⟨⟨2⟩⟩⟩⟩]

/-- Two workers at a block of two entities, whose pair crashes in the oracle. The service is dropped
while the third pair is in the queue. -/
def crashedPair : List (Move Binary64) :=
  let source : EntitySource Binary64 := fun _ _ => .ok (some ∅)
  let scorer : Scorer Binary64 := ⟨overlapFeatures, fun _ => .crash, .zero⟩
  [.handOff, .take 0 source scorer, .handOff, .take 1 source scorer, .handOff, .close,
    .call 0 .served, .call 1 .served, .call 1 .served, .call 0 .served, .call 1 .served, .finish 0,
    .call 1 .served, .finish 1, .take 1 source scorer, .call 1 .served, .call 1 .served, .finish 1,
    .leave 0, .leave 1]

theorem crashedPair_outstanding : ∃ plan, ∃ r : Recording Binary64,
    BlockPlan.ofEntries (ω := Binary64) ⟨⟨1⟩⟩ twoEntries ⟨.ofList [(⟨⟨7⟩⟩, ⟨⟨1⟩⟩)], ⟨[]⟩⟩ = .ok plan ∧
    r = (Recording.start (.workers 2 1) ⟨∅, ⟨[], 0⟩⟩ .empty plan.total plan.tasks).run
      (.workers 2 1) crashedPair ∧
    r.countdown.remaining = 1 ∧ r.countdown.failed = 1 ∧ r.pool.deserted = true ∧
    (∀ t ∈ r.completed, t.Written r.history) ∧
    ∀ more, (r.run (.workers 2 1) more).countdown.remaining ≠ 0 := by
  have hplan : BlockPlan.ofEntries (ω := Binary64) ⟨⟨1⟩⟩ twoEntries
    ⟨.ofList [(⟨⟨7⟩⟩, ⟨⟨1⟩⟩)], ⟨[]⟩⟩ = .ok _ := rfl
  refine ⟨_, _, hplan, rfl, by decide +kernel, by decide +kernel, by decide +kernel, ?_⟩
  have hcounted := block_pairs_counted_once hplan rfl (by decide) (.workers 2 1) ⟨∅, ⟨[], 0⟩⟩ .empty
    crashedPair rfl
  exact ⟨hcounted.1.2.2.2.2.2, hcounted.2.2.2 (by decide +kernel)⟩

end RecordLinkage
