import RecordLinkage.Session.Blocks
import RecordLinkage.Proofs.Block.Recorded
import RecordLinkage.Proofs.Recording.Counted

namespace RecordLinkage

variable {ω σ : Type}

/-- Whoever takes the pairs of a block over: how the progress counter of the block is made, and what
becomes of a pair that is handed over. Pairs may be scored and counted meanwhile. -/
structure PairDispatcher (ω σ : Type) where
  preset : Nat → σ → σ
  dispatch : PairTask → σ → Outcome (Error ω) Unit × σ

structure Handover (ω σ : Type) where
  taken : List PairTask
  outcome : Outcome (Error ω) Unit
  state : σ

namespace PairDispatcher

variable {d : PairDispatcher ω σ} {tasks : List PairTask} {s : σ}

/-- Hands pairs over one after the other, until one is not taken. -/
def handOver (d : PairDispatcher ω σ) : List PairTask → σ → Handover ω σ
  | [], s => ⟨[], .ok (), s⟩
  | t :: rest, s =>
    match d.dispatch t s with
    | (.ok (), s) => { handOver d rest s with taken := t :: (handOver d rest s).taken }
    | (r, s) => ⟨[], r, s⟩

def runPlan (d : PairDispatcher ω σ) (plan : BlockPlan) (s : σ) : Handover ω σ :=
  d.handOver plan.tasks (d.preset plan.total s)

/-- What was taken comes first among the pairs of a block; it is all of them just when no pair was
refused. -/
theorem handOver_taken (d : PairDispatcher ω σ) (tasks : List PairTask) (s : σ) :
    (d.handOver tasks s).taken <+: tasks ∧
      ((d.handOver tasks s).outcome = .ok () ↔ (d.handOver tasks s).taken = tasks) := by
  induction tasks generalizing s with
  | nil => exact ⟨List.prefix_rfl, iff_of_true rfl rfl⟩
  | cons t rest ih =>
    rw [handOver]
    rcases d.dispatch t s with ⟨_ | cause | _, s'⟩
    · obtain ⟨hstart, hall⟩ := ih s'
      exact ⟨(List.prefix_cons_inj t).mpr hstart, by simp [hall]⟩
    · exact ⟨List.nil_prefix, by simp⟩
    · exact ⟨List.nil_prefix, by simp⟩

theorem handOver_ok (h : ∀ t s, (d.dispatch t s).1 = .ok ()) :
    (d.handOver tasks s).outcome = .ok () := by
  induction tasks generalizing s with
  | nil => rfl
  | cons t rest ih =>
    rw [handOver]
    have hone := h t s
    rcases hd : d.dispatch t s with ⟨r, s'⟩
    rw [hd] at hone
    cases hone
    exact ih

end PairDispatcher

variable [Weight ω]

/-- The caller scores each pair as it is handed over. A crash takes him along. -/
def BlockState.dispatcher (source : EntitySource ω) (scorer : Scorer ω) :
    PairDispatcher ω (BlockState ω × Memory ω) where
  preset total s := (.start s.1.tally total, s.2)
  dispatch t s :=
    let r := (t.process source scorer).run s.2
    (if r.1 matches .crash then .crash else .ok (), s.1.after r.1, r.2)

/-- Scoring pairs one after another is handing them over to the caller. -/
theorem run_recordAll_eq_handOver (source : EntitySource ω) (scorer : Scorer ω)
    (tasks : List PairTask) {s : BlockState ω} (halive : s.crashed = false) (m : Memory ω) :
    let h := (BlockState.dispatcher source scorer).handOver tasks (s, m)
    (recordAll source scorer tasks s).run m = (.ok h.state.1, h.state.2) := by
  induction tasks generalizing s m with
  | nil => rfl
  | cons t rest ih =>
    unfold recordAll
    rw [Program.run_bind_of_ok (Program.run_attempt _ m), PairDispatcher.handOver]
    simp only [BlockState.dispatcher]
    rcases (t.process source scorer).run m with ⟨o | cause | _, m'⟩
    · have hstill : (s.after (.ok o)).crashed = false := by simp [BlockState.after, halive]
      simp only [hstill, Bool.false_eq_true, if_false]
      exact ih hstill m'
    · have hstill : (s.after (.error cause)).crashed = false := by simp [BlockState.after, halive]
      simp only [hstill, Bool.false_eq_true, if_false]
      exact ih hstill m'
    · have hgone : (s.after .crash).crashed = true := by simp [BlockState.after]
      simp only [hgone, if_true]
      rfl

/-- A block that its caller scores is handed over to him. -/
theorem run_recordBlock_eq_runPlan {g : GraphId} {entries : List BlockEntry}
    {context : BlockContext} {plan : BlockPlan}
    (hplan : BlockPlan.ofEntries (ω := ω) g entries context = .ok plan) (source : EntitySource ω)
    (scorer : Scorer ω) (tally : Tally ω) (m : Memory ω) :
    let h := (BlockState.dispatcher source scorer).runPlan plan (.start tally 0, m)
    (recordBlock source scorer tally g entries context).run m = (.ok (plan, h.state.1), h.state.2) := by
  unfold recordBlock
  rw [hplan]
  exact Program.run_bind_of_ok (run_recordAll_eq_handOver source scorer plan.tasks rfl m) _

namespace Session

variable {s s' : Session ω} {number : Nat} {plan : BlockPlan} {ticket : Ticket}

def preset (number total : Nat) (s : Session ω) : Session ω :=
  { s with counters := SortedMap.put s.counters number (.start total) }

def deferral (ω : Type) [Weight ω] (number : Nat) : PairDispatcher ω (Session ω) where
  preset := preset number
  dispatch t s := (.ok (), { s with deferred := s.deferred ++ [(t, number)] })

theorem handOver_deferral (tasks : List PairTask) (s : Session ω) :
    (deferral ω number).handOver tasks s =
      ⟨tasks, .ok (), { s with deferred := s.deferred ++ tasks.map fun t => (t, number) }⟩ := by
  induction tasks generalizing s with
  | nil => simp [PairDispatcher.handOver]
  | cons t rest ih =>
    show Handover.mk (t :: ((deferral ω number).handOver rest _).taken)
      ((deferral ω number).handOver rest _).outcome ((deferral ω number).handOver rest _).state = _
    rw [ih]
    simp

/-- A block that was handed over in full gets a ticket, which may be kept under a name. -/
def ticketed (ticket : Ticket) (name : Option String) (h : Handover ω (Session ω)) :
    Outcome (Error ω) Ticket × Session ω :=
  match h.outcome with
  | .ok () => (.ok ticket, h.state.keep name ticket)
  | .error e => (.error e, h.state)
  | .crash => (.crash, h.state)

def ordering (ω : Type) [Weight ω] (number : Nat) : PairDispatcher ω (Session ω) where
  preset := preset number
  dispatch t s :=
    match s.service with
    | none => (.error (.disconnected WorkPath.scoring.name), s)
    | some service =>
      match service.orderScore ⟨number, t⟩ with
      | .error e => (.error e, s)
      | .ok service => (.ok (), settle { s with service := some service })

theorem orderScores_eq_handOver (number : Nat) (tasks : List PairTask) (s : Session ω) :
    ((ordering ω number).handOver tasks s).outcome = .ofExcept (orderScores number tasks s).1 ∧
      ((ordering ω number).handOver tasks s).state = (orderScores number tasks s).2 := by
  induction tasks generalizing s with
  | nil => exact ⟨rfl, rfl⟩
  | cons t rest ih =>
    rw [orderScores, PairDispatcher.handOver]
    simp only [ordering]
    cases s.service with
    | none => exact ⟨rfl, rfl⟩
    | some service =>
      dsimp only
      cases service.orderScore ⟨number, t⟩ with
      | error cause => exact ⟨rfl, rfl⟩
      | ok service => exact ih _

theorem recordByService_eq (s : Session ω) (plan : BlockPlan) : s.recordByService plan =
    match orderScores s.counters.size plan.tasks (preset s.counters.size plan.total s) with
    | (.ok (), s') => (.ok ⟨plan.graph, plan.total, s.counters.size,
        s.service.any fun service => decide (1 < service.scoring.workers.length)⟩, s')
    | (.error e, s') => (.error e, s') := rfl

theorem recordByService_ok (h : s.recordByService plan = (.ok ticket, s')) :
    ticket.graph = plan.graph ∧ ticket.dispatched = plan.total := by
  rw [recordByService_eq] at h
  split at h <;> cases h
  exact ⟨rfl, rfl⟩

theorem recordInline_ok {accepted : Nat} (h : s.recordInline plan accepted = (.ok ticket, s')) :
    ticket.graph = plan.graph ∧ ticket.dispatched = plan.total := by
  unfold recordInline at h
  split at h
  · split at h <;> cases h
    exact ⟨rfl, rfl⟩
  · cases h
  · cases h

/-- A ticket tells the graph of its block and what the counter was set to. -/
theorem recordBlock_ok {g : GraphId} {entries : List BlockEntry} {context : BlockContext}
    {route : BlockRoute} {name : Option String}
    (h : s.recordBlock g entries context route name = (.ok ticket, s')) :
    ∃ plan, BlockPlan.ofEntries (ω := ω) g entries context = .ok plan ∧ ticket.graph = plan.graph ∧
      ticket.dispatched = plan.total := by
  unfold recordBlock at h
  split at h
  · cases h
  · rename_i plan hplan
    refine ⟨plan, hplan, ?_⟩
    cases route <;> dsimp only at h
    case inline =>
      rcases hrun : s.recordInline plan plan.tasks.length with ⟨_ | _ | _, s₁⟩ <;>
        rw [hrun] at h <;> cases h
      exact recordInline_ok hrun
    case deferred =>
      cases h
      exact ⟨rfl, rfl⟩
    case refusing accepted =>
      rcases hrun : s.recordInline plan accepted with ⟨_ | _ | _, s₁⟩ <;>
        rw [hrun] at h <;> cases h
      exact recordInline_ok hrun
    case service =>
      rcases hrun : s.recordByService plan with ⟨_ | _ | _, s₁⟩ <;> rw [hrun] at h <;> cases h
      exact recordByService_ok hrun

section Routes

variable {g : GraphId} {entries : List BlockEntry} {context : BlockContext}
  (hplan : BlockPlan.ofEntries (ω := ω) g entries context = .ok plan) (s : Session ω)
  (name : Option String)
include hplan

theorem recordBlock_deferred : s.recordBlock g entries context .deferred name =
    ticketed ⟨plan.graph, plan.total, s.counters.size, false⟩ name
      ((deferral ω s.counters.size).runPlan plan s) := by
  rw [recordBlock, hplan, PairDispatcher.runPlan, handOver_deferral]
  rfl

/-- A block for the service is handed over to it. -/
theorem recordBlock_service : s.recordBlock g entries context .service name =
    ticketed ⟨plan.graph, plan.total, s.counters.size,
        s.service.any fun service => decide (1 < service.scoring.workers.length)⟩ name
      ((ordering ω s.counters.size).runPlan plan s) := by
  have hrun : (ordering ω s.counters.size).runPlan plan s =
    (ordering ω s.counters.size).handOver plan.tasks (preset s.counters.size plan.total s) := rfl
  obtain ⟨houtcome, hstate⟩ := orderScores_eq_handOver s.counters.size plan.tasks
    (preset s.counters.size plan.total s)
  rw [recordBlock, hplan, hrun, ticketed, houtcome, hstate]
  dsimp only
  rw [recordByService_eq]
  rcases orderScores s.counters.size plan.tasks (preset s.counters.size plan.total s) with
    ⟨_ | _, s'⟩ <;> rfl

end Routes

end Session

namespace BlockPlan

variable {g : GraphId} {entries : List BlockEntry} {context : BlockContext}

omit [Weight ω] in
theorem ofEntries_of_one_graph (h : ∀ x ∈ entries, x.graph = g) (context : BlockContext) :
    let entities : SortedSet EntityKey := .ofList (entries.map BlockEntry.entity)
    ofEntries (ω := ω) g entries context = .ok ⟨g, pairCount entities.size,
      (candidatePairs entities).map fun p => ⟨g, p.1, p.2, context⟩⟩ := by
  have hnone : (entries.find? fun x => x.graph ≠ g) = none := by
    simpa [List.find?_eq_none] using h
  rw [ofEntries, hnone]

omit [Weight ω] in
theorem ofEntries_of_mixed (h : ∃ x ∈ entries, x.graph ≠ g) (context : BlockContext) :
    ∃ x, (entries.find? fun x => x.graph ≠ g) = some x ∧
      ofEntries (ω := ω) g entries context = .error (.mixedBlock g.text x.graph.text) := by
  obtain ⟨x, hx⟩ := Option.isSome_iff_exists.mp
    (List.find?_isSome (p := fun x : BlockEntry => x.graph ≠ g).mpr (by simpa using h))
  exact ⟨x, hx, by rw [ofEntries, hx]⟩

/-- Only an empty block has no pairs. -/
theorem candidatePairs_eq_nil_iff :
    candidatePairs (.ofList (entries.map BlockEntry.entity)) = [] ↔ entries = [] := by
  rw [candidatePairs, pairsOf_eq_nil_iff, List.eq_nil_iff_forall_not_mem,
    List.eq_nil_iff_forall_not_mem]
  simp only [← SortedBy.mem_def, SortedSet.mem_ofList, List.mem_map, not_exists, not_and]
  exact ⟨fun h x hx => h x.entity x hx rfl, fun h _ x hx _ => h x hx⟩

end BlockPlan

/-- A block lists every unordered pair of its entities once, in ascending order, and counts them
without leaving a word of 64 bits. Its counter is set to that number before the first pair is handed
over, so that it is the number of pairs taken unless one is refused. A block with an entry of
another graph is turned down, and nothing else happens. -/
theorem blocks_count_their_pairs :
    (∀ entities : SortedSet EntityKey,
      (∀ p ∈ candidatePairs entities,
        p.1 ∈ entities ∧ p.2 ∈ entities ∧ (p.1 = p.2 ∨ compare p.1 p.2 = .lt)) ∧
      ((candidatePairs entities).map fun p => s(p.1, p.2)).Nodup ∧
      (∀ z, z ∈ ((candidatePairs entities).map fun p => s(p.1, p.2)) ↔ ∀ e ∈ z, e ∈ entities) ∧
      ((candidatePairs entities).Pairwise fun p q => compare p q = .lt) ∧
      (candidatePairs entities).length = entities.size * (entities.size + 1) / 2) ∧
    (∀ n : UInt64, ∃ c, pairCountWord n = some c ∧ c.toNat = pairCount n.toNat ∧
      c.toNat = min (n.toNat * (n.toNat + 1) / 2) (2 ^ 64 - 1)) ∧
    (∀ g entries context n, (∀ x ∈ entries, x.graph = g) →
      (.ofList (entries.map BlockEntry.entity) : SortedSet EntityKey).size = n →
      n * (n + 1) / 2 < 2 ^ 64 → ∃ plan, BlockPlan.ofEntries (ω := ω) g entries context = .ok plan ∧
        plan.tasks = (candidatePairs (.ofList (entries.map BlockEntry.entity))).map
          (fun p => ⟨g, p.1, p.2, context⟩) ∧
        plan.total = n * (n + 1) / 2 ∧ (plan.total = 0 ↔ entries = []) ∧
        (∀ (σ : Type) (d : PairDispatcher ω σ) (s : σ),
          ((∀ t s, (d.dispatch t s).1 = .ok ()) → (d.runPlan plan s).outcome = .ok ()) ∧
          ((d.runPlan plan s).outcome = .ok () →
            (d.runPlan plan s).taken = plan.tasks ∧ (d.runPlan plan s).taken.length = plan.total)) ∧
        (∀ (s : Session ω) route name ticket s',
          s.recordBlock g entries context route name = (.ok ticket, s') →
            ticket.graph = g ∧ ticket.dispatched = plan.total) ∧
        (∀ (source : EntitySource ω) scorer tally m,
          let h := (BlockState.dispatcher source scorer).runPlan plan (.start tally 0, m)
          (recordBlock source scorer tally g entries context).run m =
            (.ok (plan, h.state.1), h.state.2)) ∧
        ∀ (s : Session ω) name,
          s.recordBlock g entries context .deferred name =
            Session.ticketed ⟨g, plan.total, s.counters.size, false⟩ name
              ((Session.deferral ω s.counters.size).runPlan plan s) ∧
          s.recordBlock g entries context .service name =
            Session.ticketed ⟨g, plan.total, s.counters.size,
                s.service.any fun service => decide (1 < service.scoring.workers.length)⟩ name
              ((Session.ordering ω s.counters.size).runPlan plan s)) ∧
    ∀ g entries context, (∃ x ∈ entries, x.graph ≠ g) →
      ∃ x, (entries.find? fun x => x.graph ≠ g) = some x ∧
        (∀ (source : EntitySource ω) scorer tally,
          recordBlock source scorer tally g entries context =
            Program.fail (.validation (.mixedBlock g.text x.graph.text))) ∧
        ∀ (s : Session ω) route name, s.recordBlock g entries context route name =
          (.error (.validation (.mixedBlock g.text x.graph.text)), s) := by
  refine ⟨?_, ?_, ?_, ?_⟩
  · intro entities
    refine ⟨fun p hp => mem_candidatePairs.mp hp, ?_, fun z => ?_,
      candidatePairs_ascending entities, length_candidatePairs entities⟩
    · rw [candidatePairs, map_mk_pairsOf]
      exact List.Nodup.sym2 (entities.ascending.imp SortKey.ne_of_lt)
    · rw [candidatePairs, map_mk_pairsOf, List.mem_sym2_iff]
      rfl
  · intro n
    obtain ⟨c, hc, hvalue⟩ := pairCountWord_eq n
    exact ⟨c, hc, hvalue, hvalue.trans (pairCount_eq_min n.toNat)⟩
  · rintro g entries context n hgraph rfl hsmall
    have hplan := BlockPlan.ofEntries_of_one_graph (ω := ω) hgraph context
    obtain ⟨hlength, htotal⟩ := BlockPlan.total_eq hplan rfl hsmall
    refine ⟨_, hplan, rfl, htotal.trans hlength, ?_, ?_, ?_, run_recordBlock_eq_runPlan hplan,
      fun s name => ⟨s.recordBlock_deferred hplan name, s.recordBlock_service hplan name⟩⟩
    · rw [htotal, List.length_eq_zero_iff, List.map_eq_nil_iff,
        BlockPlan.candidatePairs_eq_nil_iff]
    · intro σ d s
      refine ⟨PairDispatcher.handOver_ok, fun hok => ?_⟩
      -- Whoever takes pairs over takes them from the front, so that success means the whole list.
      have htaken := (d.handOver_taken _ _).2.mp hok
      exact ⟨htaken, (congrArg List.length htaken).trans htotal.symm⟩
    · intro s route name ticket s' h
      obtain ⟨plan, hplan', hg, hdispatched⟩ := Session.recordBlock_ok h
      rw [hplan] at hplan'
      cases hplan'
      exact ⟨hg, hdispatched⟩
  · intro g entries context hmixed
    obtain ⟨x, hx, hplan⟩ := BlockPlan.ofEntries_of_mixed (ω := ω) hmixed context
    refine ⟨x, hx, fun source scorer tally => ?_, fun s route name => ?_⟩
    · rw [recordBlock, hplan]
    · rw [Session.recordBlock, hplan]

end RecordLinkage
