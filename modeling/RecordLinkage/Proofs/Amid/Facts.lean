import RecordLinkage.Proofs.Amid.Turns
import RecordLinkage.Proofs.Store.Parts

namespace RecordLinkage

variable {ω : Type} [Weight ω]

def Call.tells (m : Memory ω) : Call ω → List (VertexId × ω)
  | .destinations k => (m.store.destinations k).toList
  | .sources k => (m.store.sources k).toList
  | _ => []

theorem Store.live_eq_isSome (s : Store ω) (k : VertexKey) : s.live k = (s.cluster? k).isSome :=
  Graph.live_eq_isSome _ _

namespace Memory

/-- All vertices are as they were, and so are all edges but `e`. -/
structure Spares (e : Edge) (m m' : Memory ω) : Prop where
  vertices : ∀ g, (m'.store.graph g).clusters = (m.store.graph g).clusters ∧
    (m'.store.graph g).retired = (m.store.graph g).retired
  edges : ∀ e', e' ≠ e → m'.store.weight? e' = m.store.weight? e'

theorem Spares.refl (e : Edge) (m : Memory ω) : Spares e m m := ⟨fun _ => ⟨rfl, rfl⟩, fun _ _ => rfl⟩

theorem spares_removeEdge (e : Edge) (m : Memory ω) :
    Spares e m (Call.perform (.removeEdge e) m).2 where
  vertices g := Call.perform_quiet (c := .removeEdge e) trivial m g
  edges e' he := (Store.weight?_removeEdge m.store e e').trans (if_neg he.symm)

/-- As long as there are identifiers, the ends of an edge fail to be joined only if one of them is not
there. -/
theorem merge_ends_error {m m' : Memory ω} {e : Edge} {w : ω} {cause : StoreError ω}
    (hw : Weight.storable w = true) (hne : e.link.src ≠ e.link.dst)
    (hfed : (Call.merge e.src e.dst w).starved m = false)
    (h : m.merge e.src e.dst w = (.error cause, m')) : ∃ k, cause = .vertexNotFound k := by
  have hends : e.src ≠ e.dst := fun hsame => hne (congrArg VertexKey.vertex hsame)
  have hgraph : ¬ e.src.graph ≠ e.dst.graph := not_not_intro rfl
  have hcheck : Store.checkWeight w = .ok () := by
    rw [Store.checkWeight, if_pos hw]
  rw [Call.starved, Call.perform, h] at hfed
  rw [merge, mergeable, if_neg hgraph, if_neg hends, hcheck] at h
  -- The checks before that of the ends are passed.
  cases hsrc : m.store.cluster? e.src with
  | none =>
    rw [hsrc] at h
    cases h
    exact ⟨_, rfl⟩
  | some x =>
    cases hdst : m.store.cluster? e.dst with
    | none =>
      rw [hsrc, hdst] at h
      cases h
      exact ⟨_, rfl⟩
    | some y =>
      rw [hsrc, hdst] at h
      dsimp only [bind, Except.bind, pure, Except.pure] at h
      split at h
      · cases h
        cases hfed
      · cases h

/-- A procedure took `e` for the lightest edge of a graph, at the weight `w`. -/
def Fetched (m : Memory ω) (g : GraphId) (h : List (Turn ω)) (e : Edge) (w : ω) : Prop :=
  ∃ m', m.Made h m' (.lightest g) ∧ m'.store.lightest? g = some (e, w)

def Told (m : Memory ω) (h : List (Turn ω)) (v : VertexId) (p : ω) : Prop :=
  ∃ m' c, m.Made h m' c ∧ (v, p) ∈ c.tells m'

/-- An end of `e` was not live when it was looked up, or when the ends were to be joined. -/
def Missed (m : Memory ω) (h : List (Turn ω)) (e : Edge) (w : ω) : Prop :=
  ∃ m' k, (k = e.src ∨ k = e.dst) ∧ m'.store.live k = false ∧
    (m.Made h m' (.cluster k) ∨ m.Made h m' (.merge e.src e.dst w))

/-- A vertex is retired and not live, and stays so whatever is asked next, short of clearing its
graph. -/
def Gone (m : Memory ω) (h : List (Turn ω)) (k : VertexKey) : Prop :=
  ∀ later : List (Request ω), .clear k.graph ∉ later →
    k.vertex ∈ ((Request.run (m.afterTurns h) later).store.graph k.graph).retired ∧
      (Request.run (m.afterTurns h) later).store.live k = false

section Facts

variable {m : Memory ω} {g : GraphId} {h h' : List (Turn ω)} {e : Edge} {w p : ω}
  {k : VertexKey} {v : VertexId}

theorem Fetched.mono (hfetched : m.Fetched g h e w) (hgrown : h <+: h') : m.Fetched g h' e w := by
  obtain ⟨m', hmade, hlightest⟩ := hfetched
  exact ⟨m', hmade.mono hgrown, hlightest⟩

theorem Gone.mono (hgone : m.Gone h k) (hgrown : h <+: h')
    (hkeep : .clear k.graph ∉ h'.map Turn.request) : m.Gone h' k := by
  obtain ⟨rest, rfl⟩ := hgrown
  intro later hlater
  rw [List.map_append, List.mem_append, not_or] at hkeep
  rw [afterTurns_append, afterTurns, ← Request.run_append]
  apply hgone
  rw [List.mem_append]
  exact not_or.mpr ⟨hkeep.2, hlater⟩

theorem hasGraph_of_lived (hk : m.Lived h k) (hkeep : .clear k.graph ∉ h.map Turn.request) :
    (m.afterTurns h).store.hasGraph k.graph = true := by
  cases hhas : (m.afterTurns h).store.hasGraph k.graph with
  | true => rfl
  | false =>
    have htaken := hk.taken hkeep
    rw [Store.graph_of_hasGraph_eq_false hhas] at htaken
    cases htaken

theorem Gone.removed (hk : m.Lived h k) (hkeep : .clear k.graph ∉ h.map Turn.request) :
    m.Gone (h ++ [.own (.removeVertex k)]) k := by
  intro later hlater
  have hgraph : (m.afterTurns (h ++ [.own (.removeVertex k)])).store.graph k.graph =
      ((m.afterTurns h).store.graph k.graph).retire k.vertex := by
    rw [afterTurns_own]
    simp only [Call.perform, Store.graph_removeVertex, hasGraph_of_lived hk hkeep, and_self, if_true]
  have hages := Request.ages_run (m.afterTurns (h ++ [.own (.removeVertex k)])) hlater
  rw [hgraph] at hages
  have hretired : k.vertex ∈ (((m.afterTurns h).store.graph k.graph).retire k.vertex).retired :=
    Graph.mem_retired_retire.mpr (.inl rfl)
  refine ⟨hages.retired _ hretired, hages.not_live hretired ?_⟩
  rw [Graph.live_eq_isSome, Graph.cluster?_retire, if_pos rfl]
  rfl

/-- While a graph is in use, a call tells of nothing but vertices that were live, at weights that are
stored. -/
theorem lived_of_tells {c : Call ω} (hm : m.Sound) (huse : m.InUse c.home h)
    (hp : (v, p) ∈ c.tells (m.afterTurns h)) :
    m.Lived h ⟨c.home, v⟩ ∧ Weight.storable p = true := by
  classical
  -- Both sides are read from an index, which may list what it likes.
  have hside {g : GraphId} (huse : m.InUse g h)
      {index : SortedMap VertexId (SortedSet VertexId)} {u : VertexId}
      (hp : (v, p) ∈ (((m.afterTurns h).store.graph g).edges.adjacent index u).toList) :
      m.Lived h ⟨g, v⟩ ∧ Weight.storable p = true := by
    have hseen := SortedMap.mem_toList.mp hp
    rw [Graph.get?_adjacent] at hseen
    split at hseen
    · obtain ⟨l, hl, hweight⟩ := Option.bind_eq_some_iff.mp hseen
      obtain ⟨hsrc, hdst⟩ := huse.lived l p hweight
      refine ⟨?_, (afterTurns_sound hm h g).storable l p hweight⟩
      rcases (Link.between?_spec hl).2 with ⟨-, rfl⟩ | ⟨rfl, -⟩
      · exact hdst
      · exact hsrc
    · cases hseen
  cases c with
  | destinations k | sources k => exact hside huse hp
  | _ => cases hp

end Facts

end Memory

end RecordLinkage
