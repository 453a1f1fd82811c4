import RecordLinkage.Proofs.Block.Scored
import RecordLinkage.Proofs.Drain.Anchored
import RecordLinkage.Proofs.Pipeline.Operation
import RecordLinkage.Proofs.Sweep.Exact

namespace RecordLinkage

open Program

variable {ω : Type} [Weight ω]

def Memory.Intact (m : Memory ω) : Prop := ∀ g, (m.store.graph g).Intact

namespace Memory

variable {m m' : Memory ω} {g : GraphId} {G : Graph ω}

theorem intact_empty (ids : IdSource) : (⟨∅, ids⟩ : Memory ω).Intact := fun _ => .empty

theorem Intact.becomes (h : m.Intact) (hG : G.Intact) (hm : m.Becomes g G m') : m'.Intact := by
  intro g'
  rw [hm g']
  split
  · exact hG
  · exact h g'

theorem Intact.putEdge (h : m.Intact) {l : Link} {w : ω} (hl : compare l.src l.dst = .lt)
    (hsrc : (m.store.graph g).live l.src = true) (hdst : (m.store.graph g).live l.dst = true) :
    ((Program.putEdge ⟨g, l⟩ w).run m).2.Intact := by
  rcases hput : (Program.putEdge ⟨g, l⟩ w).run m with ⟨_ | cause | _, m'⟩
  · obtain ⟨hw, hbecomes⟩ := Drain.run_putEdge_ok hput
    exact h.becomes ((h g).putLink hl hw hsrc hdst) hbecomes
  all_goals
    rw [Drain.run_putEdge] at hput
    split at hput <;> cases hput
    try exact h

theorem Intact.singleton (h : m.Intact) (g : GraphId) (e : EntityKey) :
    ((Program.singleton g e).run m).2.Intact :=
  h.becomes ((h g).ensure (e.singletonId g) e) (Store.graph_singleton m.store g e)

end Memory

namespace Scorer

variable {m m' : Memory ω} {g : GraphId} {e : EntityKey}

theorem liveSingleton_intact (h : m.Intact) (g : GraphId) (e : EntityKey) :
    ((liveSingleton g e).run m).2.Intact := by
  apply run_bind_keeps (h.singleton g e)
  intro k m₁ hk hm
  apply run_bind_keeps
  · rw [Drain.run_live]
    exact hm
  · intro live m₂ hlive hm
    split <;> exact hm

/-- What is handed out is live: a singleton that was merged away is refused. -/
theorem run_liveSingleton_live {k : VertexKey} (h : (liveSingleton g e).run m = (.ok k, m')) :
    (m'.store.graph g).live (e.singletonId g) = true := by
  have hkey := (run_liveSingleton_ok h).1
  unfold liveSingleton at h
  obtain ⟨k', m₁, -, h⟩ := run_bind_eq_ok.mp h
  obtain ⟨live, m₂, hlive, h⟩ := run_bind_eq_ok.mp h
  rw [Drain.run_live] at hlive
  cases hlive
  split at h
  · rename_i hlive
    cases h
    rwa [hkey] at hlive
  · cases h

/-- An edge is written between two live singletons, in normal form, with an accepted weight. -/
theorem record_intact (h : m.Intact) (s : Scorer ω) (g : GraphId) (a : EntityKey) (entityA : Entity)
    (b : EntityKey) (entityB : Entity) (index : PropertyIndex) :
    ((s.record g a entityA b entityB index).run m).2.Intact := by
  unfold record
  split
  · exact run_bind_keeps (liveSingleton_intact h g a) fun k m₁ hk hm => hm
  apply run_bind_keeps (liveSingleton_intact h g a)
  intro x m₁ hx hm₁
  apply run_bind_keeps (liveSingleton_intact hm₁ g b)
  intro y m₂ hy hm₂
  apply run_bind_keeps hm₂
  intro w m₃ hw _
  obtain rfl : m₂ = m₃ := congrArg Prod.snd hw
  obtain ⟨rfl, -⟩ := run_liveSingleton_ok hx
  obtain ⟨rfl, hbecomes⟩ := run_liveSingleton_ok hy
  -- Making the second singleton leaves the first one live.
  have hliveA : (m₂.store.graph g).live (a.singletonId g) = true := by
    rw [hbecomes.graph]
    exact Graph.live_ensure b (run_liveSingleton_live hx)
  have hliveB := run_liveSingleton_live hy
  apply run_bind_keeps
  · rw [run_ofStore]
    exact hm₂
  intro edge m₃ hedge _
  obtain ⟨l, hl, rfl, rfl⟩ := Drain.edgeWithin_eq_ok.mp hedge
  obtain ⟨hnormal, hends⟩ := Link.between?_spec hl
  have hlive : (m₃.store.graph g).live l.src = true ∧ (m₃.store.graph g).live l.dst = true := by
    rcases hends with ⟨hsrc, hdst⟩ | ⟨hsrc, hdst⟩ <;> rw [hsrc, hdst]
    · exact ⟨hliveA, hliveB⟩
    · exact ⟨hliveB, hliveA⟩
  have hput : ((putEdge ⟨g, l⟩ w).run m₃).2.Intact := hm₂.putEdge hnormal hlive.1 hlive.2
  exact run_bind_keeps hput fun _ m₄ hwritten hm => hm

end Scorer

theorem PairTask.process_intact {m : Memory ω} (h : m.Intact) (t : PairTask)
    (source : EntitySource ω) (scorer : Scorer ω) : ((t.process source scorer).run m).2.Intact := by
  apply run_bind_keeps h
  intro entities m' hread hm
  exact Scorer.record_intact hm scorer _ _ _ _ _ _

theorem recordAll_intact {m : Memory ω} (h : m.Intact) (source : EntitySource ω)
    (scorer : Scorer ω) (tasks : List PairTask) (s : BlockState ω) :
    ((recordAll source scorer tasks s).run m).2.Intact := by
  induction tasks generalizing m s with
  | nil => exact h
  | cons t rest ih =>
    apply run_bind_keeps
    · rw [run_attempt]
      exact t.process_intact h source scorer
    intro r m' hr hm
    dsimp only
    split
    · exact hm
    · exact ih hm _

theorem recordBlock_intact {m : Memory ω} (h : m.Intact) (source : EntitySource ω)
    (scorer : Scorer ω) (tally : Tally ω) (g : GraphId) (entries : List BlockEntry)
    (context : BlockContext) :
    ((recordBlock source scorer tally g entries context).run m).2.Intact := by
  unfold recordBlock
  split
  · exact h
  · rename_i plan hplan
    exact run_bind_keeps (recordAll_intact h source scorer plan.tasks (.start tally plan.total))
      fun s m' hs hm => hm

namespace Drain

variable {m m' : Memory ω} {g : GraphId} {t : ω} {s : Step ω} {steps : List (Step ω)}

/-- A merge brings no weight in that is not accepted. -/
theorem Stepped.intact (hs : Stepped m g t s m') (h : m.Intact) : m'.Intact := by
  obtain ⟨stop, -, rfl⟩ | ⟨l, w, x, y, k, hl, -, hsrc, hdst, hfree, hall, hbecomes, -⟩ :=
    hs.of_anchored (h g).toAnchored
  · exact h
  · exact h.becomes ((h g).contract hl hsrc hdst hfree hall) hbecomes

theorem Steps.intact (hs : Steps g t m steps m') (h : m.Intact) : m'.Intact :=
  hs.induct (P := Memory.Intact) (fun _ _ _ hm hs => hs.intact hm) h

end Drain

namespace Operation

theorem intact {m : Memory ω} (h : m.Intact) {op : Operation ω} (hop : op.fails m = false) :
    (op.program.run m).2.Intact := by
  cases op with
  | singleton g e =>
    rw [program, run_discard_snd]
    exact h.singleton g e
  | record scorer g a entityA b entityB index =>
    rw [program, run_discard_snd]
    exact Scorer.record_intact h scorer g a entityA b entityB index
  | process source scorer task =>
    rw [program, run_discard_snd]
    exact task.process_intact h source scorer
  | block source scorer tally g entries context =>
    rw [program, run_discard_snd]
    exact recordBlock_intact h source scorer tally g entries context
  | step g t =>
    obtain ⟨steps, hsteps⟩ := run_step hop
    exact hsteps.intact h
  | cluster allowance g t =>
    obtain ⟨steps, hsteps⟩ := run_cluster hop
    exact hsteps.intact h
  | sweep g =>
    obtain ⟨isolated, hsweep⟩ := Sweep.run_sweep_of_anchored (h g).toAnchored
    rw [program, run_discard_snd, hsweep]
    exact h

end Operation

/-- After any operations of which no drain fails, every edge of every graph is in normal form, has
an accepted weight and joins two live vertices, and no retired vertex is live. So no step of a drain
meets a stale edge, and a sweep finds nothing to remove. -/
theorem edges_join_live_vertices (ids : IdSource) (ops : List (Operation ω))
    (healthy : Operation.unfailing ops ⟨∅, ids⟩ = true) (n : Nat) :
    let m := Operation.runAll (ops.take n) ⟨∅, ids⟩
    (∀ g l w, (m.store.graph g).edges.weight? l = some w →
      compare l.src l.dst = .lt ∧ Weight.storable w = true ∧ m.store.live ⟨g, l.src⟩ = true ∧
        m.store.live ⟨g, l.dst⟩ = true) ∧
    (∀ g v, v ∈ (m.store.graph g).retired → m.store.live ⟨g, v⟩ = false) ∧
    (∀ g t s m', (Drain.step g t).run m = (.ok s, m') → s.isStale = false) ∧
    (∀ allowance g t report m', (Drain.cluster allowance g t).run m = (.ok report, m') →
      report.stale = 0) ∧
    ∀ g, ∃ isolated, (Sweep.sweep g).run m = (.ok ⟨0, isolated⟩, m) := by
  intro m
  have hm : m.Intact := by
    have hstart := Memory.intact_empty (ω := ω) ids
    exact Operation.runAll_induct (I := fun _ m => m.Intact) (h := [])
      (fun _ m op hop h => Operation.intact h hop) (Operation.unfailing_take healthy n) hstart
  refine ⟨?_, fun g v hv => (hm g).apart v hv, ?_,
    fun allowance g t report m' hcluster => Drain.stale_of_anchored hcluster (hm g).toAnchored,
    fun g => Sweep.run_sweep_of_anchored (hm g).toAnchored⟩
  · intro g l w hw
    obtain ⟨hsrc, hdst⟩ := (hm g).live l w hw
    exact ⟨(hm g).normal l w hw, (hm g).storable l w hw, hsrc, hdst⟩
  · intro g t s m' hstep
    exact (Drain.run_step_ok hstep).2.not_stale (hm g).toAnchored

/-- A block of three entities, two of them alike, is recorded again after a drain. -/
def rerunBlock : List (Operation Binary64) :=
  let e (n : BitVec 128) : EntityKey := ⟨⟨⟨7⟩⟩, ⟨⟨n⟩⟩⟩
  let source : EntitySource Binary64 := fun k _ =>
    .ok (some (.ofList [(⟨⟨3⟩⟩, if k = e 3 then "b" else "a")]))
  let block : Operation Binary64 := .block source ⟨overlapFeatures, .mismatchRate, .zero⟩ .empty
    ⟨⟨1⟩⟩ [⟨⟨⟨1⟩⟩, e 1⟩, ⟨⟨⟨1⟩⟩, e 2⟩, ⟨⟨⟨1⟩⟩, e 3⟩] ⟨.ofList [(⟨⟨7⟩⟩, ⟨⟨1⟩⟩)], ⟨[⟨⟨3⟩⟩]⟩⟩
  [block, .cluster 4 ⟨⟨1⟩⟩ defaultThreshold, block, .step ⟨⟨1⟩⟩ defaultThreshold, .sweep ⟨⟨1⟩⟩]

theorem rerunBlock_leaves_nothing_stale :
    Operation.unfailing rerunBlock ⟨∅, ⟨[], 0⟩⟩ = true ∧
      ((Operation.runAll (rerunBlock.take 3) ⟨∅, ⟨[], 0⟩⟩).store.clusters ⟨⟨1⟩⟩).length = 2 ∧
      ∃ isolated, (Sweep.sweep ⟨⟨1⟩⟩).run (Operation.runAll (rerunBlock.take 3) ⟨∅, ⟨[], 0⟩⟩) =
        (.ok ⟨0, isolated⟩, Operation.runAll (rerunBlock.take 3) ⟨∅, ⟨[], 0⟩⟩) := by
  have healthy : Operation.unfailing rerunBlock ⟨∅, ⟨[], 0⟩⟩ = true := by decide +kernel
  have hmerged : ((Operation.runAll (rerunBlock.take 3) ⟨∅, ⟨[], 0⟩⟩).store.clusters
    ⟨⟨1⟩⟩).length = 2 := by decide +kernel
  exact ⟨healthy, hmerged, (edges_join_live_vertices _ _ healthy 3).2.2.2.2 ⟨⟨1⟩⟩⟩

end RecordLinkage
