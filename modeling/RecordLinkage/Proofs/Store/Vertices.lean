import RecordLinkage.Program
import RecordLinkage.Proofs.Graph.Coherent
import RecordLinkage.Proofs.Sorted.Map
import RecordLinkage.Proofs.Uuid.Version

namespace RecordLinkage

theorem VertexKey.eq_of_parts {k k' : VertexKey} (hg : k.graph = k'.graph)
    (hv : k.vertex = k'.vertex) : k = k' := by
  cases k
  cases k'
  cases hg
  cases hv
  rfl

variable {ω : Type} [Weight ω]

namespace Graph

variable {G : Graph ω} {u v : VertexId}

theorem live_eq_isSome (G : Graph ω) (v : VertexId) : G.live v = (G.cluster? v).isSome :=
  (SortedMap.get?_isSome G.clusters v).symm

theorem live_iff : G.live v = true ↔ ∃ c, G.cluster? v = some c := by
  rw [live_eq_isSome, Option.isSome_iff_exists]

theorem taken_iff : G.taken v = true ↔ G.live v = true ∨ v ∈ G.retired := by
  rw [taken, Bool.or_eq_true, SortedSet.contains_iff]

@[simp] theorem cluster?_empty (v : VertexId) : (∅ : Graph ω).cluster? v = none := rfl

@[simp] theorem not_mem_retired_empty (v : VertexId) : ¬ v ∈ (∅ : Graph ω).retired :=
  SortedBy.not_mem_empty v

theorem cluster?_ensure (G : Graph ω) (v : VertexId) (e : EntityKey) (u : VertexId) :
    (G.ensure v e).cluster? u =
      if G.taken v = false ∧ v = u then some (.singleton e) else G.cluster? u := by
  rw [ensure]
  split
  · rename_i h
    simp [h]
  · rename_i h
    simp only [Bool.not_eq_true] at h
    rw [cluster?, SortedMap.get?_put]
    simp only [h, true_and]
    rfl

@[simp] theorem retired_ensure (G : Graph ω) (v : VertexId) (e : EntityKey) :
    (G.ensure v e).retired = G.retired := by
  rw [ensure]
  split <;> rfl

theorem taken_ensure (G : Graph ω) (v : VertexId) (e : EntityKey) (u : VertexId) :
    (G.ensure v e).taken u = true ↔ G.taken u = true ∨ u = v := by
  rw [taken_iff, live_eq_isSome, cluster?_ensure, retired_ensure]
  by_cases hv : G.taken v = false ∧ v = u
  · rw [if_pos hv]
    simp [hv.2]
  · rw [if_neg hv, ← live_eq_isSome, ← taken_iff]
    constructor
    · exact .inl
    · intro h
      rcases h with h | rfl
      · exact h
      · simpa using hv

@[simp] theorem edges_ensure (G : Graph ω) (v : VertexId) (e : EntityKey) :
    (G.ensure v e).edges = G.edges := by
  rw [ensure]
  split <;> rfl

theorem cluster?_adjoin (G : Graph ω) (v : VertexId) (a b : Cluster ω) (w : ω) (u : VertexId) :
    (G.adjoin v a b w).cluster? u = if v = u then some (.merged a b w) else G.cluster? u := by
  rw [cluster?, adjoin, SortedMap.get?_put]
  rfl

theorem live_adjoin (G : Graph ω) (v : VertexId) (a b : Cluster ω) (w : ω) (u : VertexId) :
    (G.adjoin v a b w).live u = true ↔ u = v ∨ G.live u = true := by
  rw [live_eq_isSome, cluster?_adjoin, live_eq_isSome]
  by_cases h : v = u
  · simp [h]
  · simp [h, Ne.symm h]

@[simp] theorem retired_adjoin (G : Graph ω) (v : VertexId) (a b : Cluster ω) (w : ω) :
    (G.adjoin v a b w).retired = G.retired := rfl

theorem cluster?_retire (G : Graph ω) (v u : VertexId) :
    (G.retire v).cluster? u = if v = u then none else G.cluster? u := by
  rw [cluster?, retire, SortedMap.get?_erase]
  rfl

theorem mem_retired_retire : u ∈ (G.retire v).retired ↔ u = v ∨ u ∈ G.retired :=
  SortedSet.mem_insert

@[simp] theorem cluster?_eraseLink (G : Graph ω) (l : Link) (v : VertexId) :
    (G.eraseLink l).cluster? v = G.cluster? v := rfl

@[simp] theorem retired_eraseLink (G : Graph ω) (l : Link) : (G.eraseLink l).retired = G.retired :=
  rfl

@[simp] theorem edges_adjoin (G : Graph ω) (v : VertexId) (a b : Cluster ω) (w : ω) :
    (G.adjoin v a b w).edges = G.edges := rfl

@[simp] theorem edges_retire (G : Graph ω) (v : VertexId) : (G.retire v).edges = G.edges := rfl

@[simp] theorem edges_eraseLink (G : Graph ω) (l : Link) :
    (G.eraseLink l).edges = G.edges.erase l := rfl

end Graph

namespace Store

@[simp] theorem graph_empty (g : GraphId) : (∅ : Store ω).graph g = ∅ := rfl

theorem graph_setGraph (s : Store ω) (g : GraphId) (G : Graph ω) (h : GraphId) :
    (s.setGraph g G).graph h = if g = h then G else s.graph h := by
  rw [graph, setGraph, SortedMap.get?_put]
  split <;> rfl

theorem graph_of_hasGraph_eq_false {s : Store ω} {g : GraphId} (h : s.hasGraph g = false) :
    s.graph g = ∅ := by
  have hnone : SortedMap.get? s.graphs g = none := by
    rw [hasGraph, ← SortedMap.get?_isSome] at h
    simpa using h
  rw [graph, hnone]
  rfl

theorem graph_singleton (s : Store ω) (g : GraphId) (e : EntityKey) (h : GraphId) :
    (s.singleton g e).2.graph h =
      if g = h then (s.graph g).ensure (e.singletonId g) e else s.graph h :=
  graph_setGraph s g _ h

theorem mem_clusters {s : Store ω} {g : GraphId} {p : VertexKey × Cluster ω} :
    p ∈ s.clusters g ↔ p.1.graph = g ∧ (s.graph g).cluster? p.1.vertex = some p.2 := by
  rw [clusters, List.mem_map]
  constructor
  · intro h
    obtain ⟨q, hq, rfl⟩ := h
    exact ⟨rfl, SortedMap.mem_toList.mp hq⟩
  · intro h
    obtain ⟨⟨g', v⟩, c⟩ := p
    obtain ⟨rfl, hc⟩ := h
    exact ⟨(v, c), SortedMap.mem_toList.mpr hc, rfl⟩

theorem clusters_distinct (s : Store ω) (g : GraphId) :
    (s.clusters g).Pairwise fun p q => p.1.vertex ≠ q.1.vertex :=
  List.pairwise_map.mpr (s.graph g).clusters.keys_distinct

theorem graph_removeVertex (s : Store ω) (k : VertexKey) (h : GraphId) :
    (s.removeVertex k).2.graph h =
      if k.graph = h ∧ s.hasGraph k.graph = true then (s.graph k.graph).retire k.vertex
      else s.graph h := by
  rw [removeVertex]
  split
  · rename_i hk
    simp only [hk, and_true]
    exact graph_setGraph s k.graph _ h
  · rename_i hk
    simp [hk]

theorem putEdge_eq_ok {s s' : Store ω} {e : Edge} {w : ω} :
    s.putEdge e w = .ok s' ↔
      Weight.storable w = true ∧ s' = s.setGraph e.graph ((s.graph e.graph).putLink e.link w) := by
  rw [putEdge, checkWeight]
  split
  · rename_i hw
    simp only [hw, true_and]
    constructor
    · intro h
      cases h
      rfl
    · rintro rfl
      rfl
  · rename_i hw
    simp only [hw]
    constructor
    · intro h
      cases h
    · rintro ⟨h, -⟩
      cases h

theorem graph_removeEdge (s : Store ω) (e : Edge) (h : GraphId) :
    (s.removeEdge e).2.graph h =
      if e.graph = h then (s.graph e.graph).eraseLink e.link else s.graph h := by
  rw [removeEdge]
  split
  · exact graph_setGraph s e.graph _ h
  · rename_i hw
    have hnone : (s.graph e.graph).edges.weight? e.link = none := by
      simpa [weight?] using hw
    have herase : (s.graph e.graph).eraseLink e.link = s.graph e.graph := by
      rw [Graph.eraseLink, EdgeIndex.erase, hnone]
    rw [herase]
    split
    · rename_i hg
      rw [hg]
    · rfl

theorem weight?_putEdge {s s' : Store ω} {e : Edge} {w : ω} (h : s.putEdge e w = .ok s')
    (e' : Edge) : s'.weight? e' = if e = e' then some w else s.weight? e' := by
  obtain ⟨-, rfl⟩ := putEdge_eq_ok.mp h
  obtain ⟨g, l⟩ := e
  obtain ⟨g', l'⟩ := e'
  rw [weight?, graph_setGraph]
  by_cases hg : g = g'
  · subst hg
    simp [Graph.putLink, EdgeIndex.weight?_put, weight?]
  · simp [hg, weight?]

theorem weight?_removeEdge (s : Store ω) (e e' : Edge) :
    (s.removeEdge e).2.weight? e' = if e = e' then none else s.weight? e' := by
  obtain ⟨g, l⟩ := e
  obtain ⟨g', l'⟩ := e'
  rw [weight?, graph_removeEdge]
  dsimp only
  by_cases hg : g = g'
  · subst hg
    simp [Graph.edges_eraseLink, EdgeIndex.weight?_erase, weight?]
  · simp [hg, weight?]

end Store

structure Memory.Joins (m : Memory ω) (a b : VertexKey) (w : ω) (x y : Cluster ω) (k : VertexKey) :
    Prop where
  sameGraph : b.graph = a.graph
  distinct : a.vertex ≠ b.vertex
  storable : Weight.storable w = true
  left : (m.store.graph a.graph).cluster? a.vertex = some x
  right : (m.store.graph a.graph).cluster? b.vertex = some y
  graph : k.graph = a.graph
  free : (m.store.graph a.graph).taken k.vertex = false
  version : k.vertex.uuid.version = 4

namespace Memory

theorem mergeable_ok {s : Store ω} {a b : VertexKey} {w : ω} {x y : Cluster ω}
    (h : mergeable s a b w = .ok (x, y)) :
    a.graph = b.graph ∧ a ≠ b ∧ Weight.storable w = true ∧ s.cluster? a = some x ∧
      s.cluster? b = some y := by
  unfold mergeable at h
  by_cases hg : a.graph = b.graph
  · by_cases hab : a = b
    · rw [if_neg (not_not_intro hg), if_pos hab] at h
      cases h
    · rw [if_neg (not_not_intro hg), if_neg hab, Store.checkWeight] at h
      by_cases hw : Weight.storable w = true
      · rw [if_pos hw] at h
        cases hx : s.cluster? a with
        | none => rw [hx] at h; cases h
        | some x' =>
          cases hy : s.cluster? b with
          | none => rw [hx, hy] at h; cases h
          | some y' =>
            rw [hx, hy] at h
            cases h
            exact ⟨hg, hab, hw, rfl, rfl⟩
      · rw [if_neg hw] at h
        cases h
  · rw [if_pos hg] at h
    cases h

theorem mergeable_vertexNotFound {s : Store ω} {a b k : VertexKey} {w : ω}
    (h : mergeable s a b w = .error (.vertexNotFound k)) :
    s.cluster? a = none ∨ s.cluster? b = none := by
  unfold mergeable at h
  by_cases hg : a.graph = b.graph
  · by_cases hab : a = b
    · rw [if_neg (not_not_intro hg), if_pos hab] at h
      cases h
    · rw [if_neg (not_not_intro hg), if_neg hab, Store.checkWeight] at h
      by_cases hw : Weight.storable w = true
      · rw [if_pos hw] at h
        cases hx : s.cluster? a with
        | none => exact .inl rfl
        | some x =>
          cases hy : s.cluster? b with
          | none => exact .inr rfl
          | some y =>
            rw [hx, hy] at h
            cases h
      · rw [if_neg hw] at h
        cases h
  · rw [if_pos hg] at h
    cases h

theorem merge_ok {m m' : Memory ω} {a b k : VertexKey} {w : ω}
    (h : m.merge a b w = (.ok k, m')) :
    ∃ x y, m.Joins a b w x y k ∧
      m'.store = m.store.setGraph a.graph ((m.store.graph a.graph).adjoin k.vertex x y w) := by
  unfold merge at h
  split at h
  · cases h
  · rename_i x y hm
    obtain ⟨hg, hab, hw, hx, hy⟩ := mergeable_ok hm
    dsimp only at h
    split at h
    · cases h
    · rename_i u ids hu
      cases h
      obtain ⟨hfree, hversion⟩ := IdSource.drawFree_spec hu
      refine ⟨x, y, ⟨hg.symm, ?_, hw, hx, ?_, rfl, hfree, hversion⟩, rfl⟩
      · intro hv
        exact hab (VertexKey.eq_of_parts hg hv)
      · rw [Store.cluster?, ← hg] at hy
        exact hy

theorem merge_error {m m' : Memory ω} {a b : VertexKey} {w : ω} {e : StoreError ω}
    (h : m.merge a b w = (.error e, m')) : m' = m := by
  unfold merge at h
  split at h
  · cases h
    rfl
  · dsimp only at h
    split at h
    · cases h
      rfl
    · cases h

theorem merge_vertexNotFound {m m' : Memory ω} {a b k : VertexKey} {w : ω}
    (h : m.merge a b w = (.error (.vertexNotFound k), m')) :
    m.store.cluster? a = none ∨ m.store.cluster? b = none := by
  unfold merge at h
  split at h
  · rename_i hm
    cases h
    exact mergeable_vertexNotFound hm
  · dsimp only at h
    split at h <;> cases h

end Memory

/-- Calls that read, or that change edges only. -/
def Call.Quiet : Call ω → Prop
  | .singleton _ _ | .merge _ _ _ | .removeVertex _ => False
  | _ => True

theorem Call.perform_quiet {c : Call ω} (h : c.Quiet) (m : Memory ω) (g : GraphId) :
    ((c.perform m).2.store.graph g).clusters = (m.store.graph g).clusters ∧
      ((c.perform m).2.store.graph g).retired = (m.store.graph g).retired := by
  cases c with
  | singleton | merge | removeVertex => cases h
  | putEdge e w =>
    simp only [perform]
    split
    · rename_i s' hs
      obtain ⟨-, rfl⟩ := Store.putEdge_eq_ok.mp hs
      simp only [Store.graph_setGraph]
      split
      · rename_i hg
        subst hg
        exact ⟨rfl, rfl⟩
      · exact ⟨rfl, rfl⟩
    · exact ⟨rfl, rfl⟩
  | removeEdge e =>
    simp only [perform, Store.graph_removeEdge]
    split
    · rename_i hg
      subst hg
      exact ⟨rfl, rfl⟩
    · exact ⟨rfl, rfl⟩
  | cluster | clusters | weight | lightest | edges | destinations | sources => exact ⟨rfl, rfl⟩

end RecordLinkage
