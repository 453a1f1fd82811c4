import RecordLinkage.Proofs.Drain.Progress
import RecordLinkage.Proofs.Graph.Anchored

namespace RecordLinkage.Drain

variable {ω : Type} [Weight ω] {m m' : Memory ω} {g : GraphId} {t : ω} {s : Step ω}
  {history : List (Step ω)}

/-- Where all links join live vertices no edge is stale: a step stops or contracts a link. -/
theorem Stepped.of_anchored (hs : Stepped m g t s m') (h : (m.store.graph g).Anchored) :
    (∃ stop, s = .done stop ∧ m' = m) ∨ ∃ (l : Link) (w : ω) (x y : Cluster ω) (k : VertexId),
      (m.store.graph g).edges.weight? l = some w ∧ Weight.lt w t = true ∧
      (m.store.graph g).cluster? l.src = some x ∧ (m.store.graph g).cluster? l.dst = some y ∧
      (m.store.graph g).taken k = false ∧
      (∀ p ∈ ((m.store.graph g).relinks l w).toList, Weight.storable p.2 = true) ∧
      m.Becomes g ((m.store.graph g).contract l w x y k) m' ∧
      s = .merged ⟨⟨g, l.src⟩, ⟨g, l.dst⟩, ⟨g, k⟩, w, ((m.store.graph g).relinks l w).size⟩ := by
  cases hs with
  | exhausted => exact .inl ⟨_, rfl, rfl⟩
  | reached => exact .inl ⟨_, rfl, rfl⟩
  | stale lightest weight gone becomes =>
    have hthere := (h.coherent.lightest (lightest?_edges lightest)).1
    obtain ⟨hsrc, hdst⟩ := h.live _ _ hthere
    simp [hsrc, hdst] at gone
  | @merged e w x y k _ lightest weight joins relinks becomes =>
    obtain rfl := lightest?_graph lightest
    have hthere := (h.coherent.lightest (lightest?_edges lightest)).1
    have hk : k = ⟨e.graph, k.vertex⟩ := VertexKey.eq_of_parts joins.graph rfl
    refine .inr ⟨e.link, w, x, y, k.vertex, hthere, weight, joins.left, joins.right, joins.free,
      fun p hp => (relinks p hp).1, becomes, ?_⟩
    rw [← hk]
    rfl

theorem Stepped.anchored (hs : Stepped m g t s m') (h : (m.store.graph g).Anchored) :
    (m'.store.graph g).Anchored := by
  obtain ⟨stop, -, rfl⟩ | ⟨l, w, x, y, k, hl, -, hsrc, hdst, hfree, -, hbecomes, -⟩ :=
    hs.of_anchored h
  · exact h
  · rw [hbecomes.graph]
    exact h.contract hl hsrc hdst hfree

theorem Steps.anchored (hs : Steps g t m history m') (h : (m.store.graph g).Anchored) :
    (m'.store.graph g).Anchored :=
  hs.induct (P := fun m => (m.store.graph g).Anchored) (fun _ _ _ hm hs => hs.anchored hm) h

theorem Stepped.not_stale (hs : Stepped m g t s m') (h : (m.store.graph g).Anchored) :
    s.isStale = false := by
  obtain ⟨stop, rfl, -⟩ | ⟨l, w, x, y, k, -, -, -, -, -, -, -, rfl⟩ := hs.of_anchored h <;> rfl

theorem Steps.countP_isStale (hs : Steps g t m history m') (h : (m.store.graph g).Anchored) :
    history.countP Step.isStale = 0 := by
  induction hs with
  | nil => rfl
  | cons first later ih => simp [first.not_stale h, ih (first.anchored h)]

theorem stale_of_anchored {n : Nat} {report : DrainReport ω}
    (hrun : (cluster n g t).run m = (.ok report, m')) (h : (m.store.graph g).Anchored) :
    report.stale = 0 := by
  obtain ⟨earlier, stop, hsteps, rfl⟩ := run_cluster_ok hrun
  have hstale := hsteps.countP_isStale h
  rw [List.countP_append] at hstale
  exact (Nat.add_eq_zero_iff.mp hstale).1

end RecordLinkage.Drain
