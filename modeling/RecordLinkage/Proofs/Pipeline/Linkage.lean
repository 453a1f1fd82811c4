import RecordLinkage.Proofs.Block.Recorded
import RecordLinkage.Proofs.Weight.Binary64

namespace RecordLinkage

variable {ω : Type} [Weight ω] [LawfulWeight ω]

namespace Drain

variable {m m' : Memory ω} {g : GraphId} {t : ω} {steps : List (Step ω)}
  {d : EntityKey → EntityKey → Option ω} {entities : EntityKey → Prop}

/-- A drain keeps a graph linked and its entities shared out. -/
theorem Steps.linked (h : Steps g t m steps m') (hd : ∀ x y, d x y = d y x)
    (hstored : ∀ x y w, d x y = some w → Weight.Number w) (hlinked : (m.store.graph g).Linked d t)
    (hpartitions : (m.store.graph g).Partitions entities) :
    (m'.store.graph g).Linked d t ∧ (m'.store.graph g).Partitions entities := by
  apply h.induct (P := fun m => (m.store.graph g).Linked d t ∧
    (m.store.graph g).Partitions entities)
  · exact fun m s m' hm hs => ⟨hm.1.step hd hstored hs, hm.2.step hs⟩
  · exact ⟨hlinked, hpartitions⟩

omit [LawfulWeight ω] in
/-- No edge below the threshold is left where a drain stops. -/
theorem Stepped.reaches {stop : StopReason ω} (h : Stepped m g t (.done stop) m') {l : Link} {w : ω}
    (hl : (m'.store.graph g).edges.lightest? = some (w, l)) : Weight.le t w := by
  cases h with
  | exhausted lightest =>
    rw [Store.lightest?, hl] at lightest
    cases lightest
  | reached lightest weight =>
    rw [Store.lightest?, hl] at lightest
    cases lightest
    exact weight

end Drain

/-- The clusters of a block lie between those of single and of complete linkage. Where every pair
was recorded in an empty graph and a drain follows, the final clusters share out the entities of
the block, inside a cluster chains of distances below the threshold lead everywhere, and any two
clusters hold entities at least the threshold apart. -/
theorem block_clusters_between_linkages {source : EntitySource ω} {scorer : Scorer ω}
    {tally : Tally ω} {g : GraphId} {entries : List BlockEntry} {context : BlockContext}
    {plan : BlockPlan} {state : BlockState ω} {allowance : Nat} {t : ω} {report : DrainReport ω}
    {m₀ m₁ m₂ : Memory ω} (fresh : m₀.store.graph g = ∅)
    (recorded : (recordBlock source scorer tally g entries context).run m₀ = (.ok (plan, state), m₁))
    (unfailing : state.countdown.failed = 0) (alive : state.crashed = false)
    (drained : (Drain.cluster allowance g t).run m₁ = (.ok report, m₂)) :
    let d := context.distance? source scorer
    (∀ a ∈ entries, ∀ b ∈ entries, a.entity ≠ b.entity → ∃ w, d a.entity b.entity = some w ∧
      (m₁.store.graph g).distance? (a.entity.singletonId g) (b.entity.singletonId g) = some w) ∧
    ((∀ e, (∃ p ∈ report.clusters, e ∈ p.2.members) ↔ ∃ b ∈ entries, b.entity = e) ∧
      (∀ p ∈ report.clusters, ∃ e, e ∈ p.2.members) ∧
      report.clusters.Pairwise fun p q => ∀ e, e ∈ p.2.members → ¬ e ∈ q.2.members) ∧
    (∀ p ∈ report.clusters, p.2.Chained d t) ∧
    report.clusters.Pairwise fun p q => ∃ x y w,
      x ∈ p.2.members ∧ y ∈ q.2.members ∧ d x y = some w ∧ Weight.le t w := by
  intro d
  obtain ⟨hlinked, hpartitions, hweights⟩ := run_recordBlock_ok recorded unfailing alive fresh t
  obtain ⟨steps, hsteps, hreport⟩ := Drain.run_cluster drained nofun
  obtain ⟨earlier, stop, rfl, rfl⟩ := hreport report rfl
  have hstored (x y : EntityKey) (w : ω) (hw : d x y = some w) : Weight.Number w :=
    Weight.number_of_storable (BlockContext.distance?_storable hw)
  -- What the recorded block has, every step of the drain keeps.
  obtain ⟨hlinked, hpartitions⟩ :=
    hsteps.linked (context.distance?_comm source scorer) hstored hlinked hpartitions
  -- The drain stopped with nothing below the threshold, which keeps the clusters apart.
  have hreached (l : Link) (w : ω) (hl : (m₂.store.graph g).edges.lightest? = some (w, l)) :
      Weight.le t w := hsteps.stopped.reaches hl
  have hmem {p : VertexKey × Cluster ω} (hp : p ∈ m₂.store.clusters g) :
      (m₂.store.graph g).cluster? p.1.vertex = some p.2 := (Store.mem_clusters.mp hp).2
  refine ⟨hweights, ⟨?_, ?_, ?_⟩, ?_, ?_⟩
  · intro e
    rw [← hpartitions.covers]
    constructor
    · intro he
      obtain ⟨p, hp, he⟩ := he
      exact ⟨_, _, hmem hp, he⟩
    · intro he
      obtain ⟨v, c, hv, he⟩ := he
      exact ⟨(⟨g, v⟩, c), Store.mem_clusters.mpr ⟨rfl, hv⟩, he⟩
  · intro p hp
    exact hpartitions.nonempty _ _ (hmem hp)
  · apply (Store.clusters_distinct m₂.store g).imp_of_mem
    intro p q hp hq hne
    exact hpartitions.disjoint _ _ _ _ hne (hmem hp) (hmem hq)
  · intro p hp
    exact hlinked.chained _ _ (hmem hp)
  · apply (Store.clusters_distinct m₂.store g).imp_of_mem
    intro p q hp hq hne
    exact hlinked.separated hreached hne (hmem hp) (hmem hq)

def twoAlike : Outcome (Error Binary64) (BlockPlan × BlockState Binary64) × Memory Binary64 :=
  let e (n : BitVec 128) : EntityKey := ⟨⟨⟨7⟩⟩, ⟨⟨n⟩⟩⟩
  let source : EntitySource Binary64 := fun k _ =>
    .ok (some (.ofList [(⟨⟨3⟩⟩, if k = e 3 then "b" else "a")]))
  (recordBlock source ⟨overlapFeatures, .mismatchRate, .zero⟩ .empty ⟨⟨1⟩⟩
    [⟨⟨⟨1⟩⟩, e 1⟩, ⟨⟨⟨1⟩⟩, e 2⟩, ⟨⟨⟨1⟩⟩, e 3⟩] ⟨.ofList [(⟨⟨7⟩⟩, ⟨⟨1⟩⟩)], ⟨[⟨⟨3⟩⟩]⟩⟩).run ⟨∅, ⟨[], 0⟩⟩

theorem twoAlike_clusters : ∃ plan state m₁ report m₂,
    twoAlike = (.ok (plan, state), m₁) ∧ state.countdown.failed = 0 ∧ state.crashed = false ∧
      (Drain.cluster 4 ⟨⟨1⟩⟩ defaultThreshold).run m₁ = (.ok report, m₂) ∧
      report.clusters.length = 2 ∧
      report.clusters.Pairwise fun p q => ∀ e, e ∈ p.2.members → ¬ e ∈ q.2.members := by
  have hrun : twoAlike.1.meets (fun x =>
      decide (x.2.countdown.failed = 0 ∧ x.2.crashed = false)) = true ∧
      ((Drain.cluster 4 ⟨⟨1⟩⟩ defaultThreshold).run twoAlike.2).1.meets
        (fun report => decide (report.clusters.length = 2)) = true := by decide +kernel
  rcases hrecorded : twoAlike with ⟨r, m₁⟩
  rw [hrecorded] at hrun
  obtain ⟨⟨plan, state⟩, rfl, hstate⟩ := Outcome.meets_iff.mp hrun.1
  obtain ⟨hfailed, halive⟩ := of_decide_eq_true hstate
  rcases hdrained : (Drain.cluster 4 ⟨⟨1⟩⟩ defaultThreshold).run m₁ with ⟨r, m₂⟩
  rw [hdrained] at hrun
  obtain ⟨report, rfl, hlength⟩ := Outcome.meets_iff.mp hrun.2
  have h := block_clusters_between_linkages rfl hrecorded hfailed halive hdrained
  exact ⟨plan, state, m₁, report, m₂, rfl, hfailed, halive, hdrained, of_decide_eq_true hlength,
    h.2.1.2.2⟩

end RecordLinkage
