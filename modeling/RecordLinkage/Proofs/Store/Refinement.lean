import RecordLinkage.Proofs.Graph.Contraction
import RecordLinkage.Proofs.Sorted.Values
import RecordLinkage.Proofs.Store.Entries
import RecordLinkage.Proofs.Store.Plain
import RecordLinkage.Proofs.Weight.Binary64

namespace RecordLinkage

variable {ω : Type} [Weight ω]

def Memory.plain (m : Memory ω) : PlainStore ω :=
  ⟨SortedMap.mapValues Graph.plain m.store.graphs, m.ids⟩

namespace Store

theorem removeVertex_fst (s : Store ω) (k : VertexKey) :
    (s.removeVertex k).1 = (s.cluster? k).isSome := by
  rw [removeVertex]
  split
  · exact Graph.live_eq_isSome _ _
  · rename_i h
    rw [cluster?, graph_of_hasGraph_eq_false (eq_false_of_ne_true h)]
    rfl

theorem removeEdge_fst (s : Store ω) (e : Edge) : (s.removeEdge e).1 = (s.weight? e).isSome := by
  rw [removeEdge]
  split
  · rename_i h
    rw [h]
  · rename_i h
    rw [eq_false_of_ne_true h]

/-- What a store says about its edges, put in terms of one map from edges to weights. -/
structure Shows (s : Store ω) (weightOf : Edge → Option ω) : Prop where
  weight : ∀ e, s.weight? e = weightOf e
  removed : ∀ e, (s.removeEdge e).1 = (weightOf e).isSome
  ascending : ∀ g, (s.edges g).Pairwise fun p q =>
    compare (p.2, p.1.link) (q.2, q.1.link) = .lt
  listed : ∀ g e w, (e, w) ∈ s.edges g ↔ e.graph = g ∧ weightOf e = some w
  first : ∀ g, s.lightest? g = (s.edges g).head?
  least : ∀ g e w, s.lightest? g = some (e, w) → ∀ e' w', e'.graph = g →
    weightOf e' = some w' → Weight.le w w'
  destinations : ∀ k u, SortedMap.get? (s.destinations k) u = weightOf ⟨k.graph, ⟨k.vertex, u⟩⟩
  sources : ∀ k u, SortedMap.get? (s.sources k) u = weightOf ⟨k.graph, ⟨u, k.vertex⟩⟩
  neighbors : ∀ k u w, SortedMap.get? (s.neighbors k) u = some w ↔
    weightOf ⟨k.graph, ⟨k.vertex, u⟩⟩ = some w ∨ weightOf ⟨k.graph, ⟨u, k.vertex⟩⟩ = some w

theorem shows [LawfulWeight ω] {s : Store ω} (h : ∀ g, (s.graph g).Canonical) :
    s.Shows s.weight? where
  weight _ := rfl
  removed := s.removeEdge_fst
  ascending g := List.pairwise_map.mpr (s.graph g).edges.byWeight.ascending
  listed g e w := by
    rw [edges, List.mem_map]
    constructor
    · rintro ⟨p, hp, heq⟩
      cases heq
      exact ⟨rfl, ((h g).coherent.byWeight _ _).mp hp⟩
    · rintro ⟨rfl, hw⟩
      exact ⟨(w, e.link), ((h e.graph).coherent.byWeight _ _).mpr hw, rfl⟩
  first g := by
    rw [edges, List.head?_map]
    rfl
  least g e w hl e' w' hg hw' := by
    subst hg
    obtain ⟨p, hp, heq⟩ := Option.map_eq_some_iff.mp hl
    cases heq
    exact (h e'.graph).coherent.le_of_lightest hp hw'
  destinations k u := (h k.graph).get?_destinations k.vertex u
  sources k u := (h k.graph).get?_sources k.vertex u
  neighbors k u w := by
    obtain ⟨g, v⟩ := k
    have hneighbors : SortedMap.get? (s.neighbors ⟨g, v⟩) u = (s.graph g).distance? v u :=
      (h g).get?_neighbors v u
    rw [hneighbors]
    constructor
    · intro hdistance
      obtain ⟨l, hl, hw⟩ := Option.bind_eq_some_iff.mp hdistance
      rcases (Link.between?_spec hl).2 with ⟨rfl, rfl⟩ | ⟨rfl, rfl⟩
      · exact .inl hw
      · exact .inr hw
    · rintro (hw | hw)
      · exact (h g).distance?_ends hw
      · rw [Graph.distance?_comm]
        exact (h g).distance?_ends hw

end Store

namespace Memory

variable (m : Memory ω) (g : GraphId) (k : VertexKey) (e : Edge)

theorem plain_graph : m.plain.graph g = (m.store.graph g).plain := by
  rw [PlainStore.graph, plain, SortedMap.get?_mapValues, Store.graph]
  cases SortedMap.get? m.store.graphs g <;> rfl

theorem plain_cluster? : m.plain.cluster? k = m.store.cluster? k := by
  rw [PlainStore.cluster?, plain_graph]
  rfl

theorem plain_weight? : m.plain.weight? e = m.store.weight? e := by
  rw [PlainStore.weight?, plain_graph]
  rfl

theorem plain_setGraph (G : Graph ω) (ids : IdSource) :
    (⟨m.store.setGraph g G, ids⟩ : Memory ω).plain =
      { m.plain.setGraph g G.plain with ids := ids } := by
  rw [plain, Store.setGraph, SortedMap.mapValues_put]
  rfl

theorem plain_singleton (e : EntityKey) :
    m.plain.singleton g e = (⟨(m.store.singleton g e).2, m.ids⟩ : Memory ω).plain := by
  rw [Store.singleton, plain_setGraph, PlainStore.singleton, plain_graph, Graph.ensure]
  have htaken (v : VertexId) : (m.store.graph g).plain.taken v = (m.store.graph g).taken v := rfl
  rw [htaken]
  split <;> rfl

theorem plain_merge (a b : VertexKey) (w : ω) :
    m.plain.merge a b w = ((m.merge a b w).1, (m.merge a b w).2.plain) := by
  rw [PlainStore.merge, plain_cluster?, plain_cluster?, plain_graph, merge, mergeable,
    Store.checkWeight]
  by_cases hg : a.graph = b.graph
  · rw [if_neg (not_not_intro hg), if_neg (not_not_intro hg)]
    by_cases hab : a = b
    · rw [if_pos hab, if_pos hab]
      rfl
    · rw [if_neg hab, if_neg hab]
      by_cases hw : Weight.storable w = true
      · rw [if_pos hw, hw]
        cases hx : m.store.cluster? a with
        | none => rfl
        | some x =>
          cases hy : m.store.cluster? b with
          | none => rfl
          | some y =>
            -- Both draw from one source, with the same identifiers taken.
            have hdraw : m.plain.ids.drawFree
                (fun u => (m.store.graph a.graph).plain.taken ⟨u⟩)
                ((m.store.graph a.graph).plain.clusters.size +
                  (m.store.graph a.graph).plain.retired.size) =
                m.ids.drawFree (fun u => (m.store.graph a.graph).taken ⟨u⟩)
                  ((m.store.graph a.graph).clusters.size +
                    (m.store.graph a.graph).retired.size) := rfl
            simp only [Bool.not_true, Bool.false_eq_true, if_false, hdraw, bind, Except.bind, pure,
              Except.pure]
            cases m.ids.drawFree (fun u => (m.store.graph a.graph).taken ⟨u⟩)
              ((m.store.graph a.graph).clusters.size + (m.store.graph a.graph).retired.size) with
            | none => rfl
            | some d =>
              refine congrArg (Prod.mk _) ?_
              exact (m.plain_setGraph a.graph ((m.store.graph a.graph).adjoin ⟨d.1⟩ x y w) d.2).symm
      · rw [if_neg hw, eq_false_of_ne_true hw]
        rfl
  · rw [if_pos hg, if_pos hg]
    rfl

theorem plain_removeVertex :
    m.plain.removeVertex k = (⟨(m.store.removeVertex k).2, m.ids⟩ : Memory ω).plain := by
  have hhas : m.plain.graphs.contains k.graph = m.store.hasGraph k.graph :=
    SortedMap.contains_mapValues _ _ _
  rw [Store.removeVertex, PlainStore.removeVertex, plain_graph, hhas]
  split
  · rw [plain_setGraph]
    rfl
  · rfl

theorem plain_putEdge (w : ω) : m.plain.putEdge e w =
    (((Call.putEdge e w).perform m).1, ((Call.putEdge e w).perform m).2.plain) := by
  rw [PlainStore.putEdge, plain_graph, Call.perform, Store.putEdge, Store.checkWeight]
  split
  · refine congrArg (Prod.mk _) ?_
    exact (m.plain_setGraph e.graph ((m.store.graph e.graph).putLink e.link w) m.ids).symm
  · rfl

theorem plain_removeEdge :
    m.plain.removeEdge e = (⟨(m.store.removeEdge e).2, m.ids⟩ : Memory ω).plain := by
  rw [Store.removeEdge, PlainStore.removeEdge, plain_graph, plain_weight?]
  cases hw : m.store.weight? e with
  | none => rfl
  | some w =>
    have herase : ((m.store.graph e.graph).eraseLink e.link).plain =
        { (m.store.graph e.graph).plain with
          weights := (m.store.graph e.graph).edges.weights.erase e.link } := by
      rw [Store.weight?] at hw
      rw [Graph.eraseLink, EdgeIndex.erase, hw]
      rfl
    simp only [Option.isSome_some, if_true]
    rw [plain_setGraph, herase]
    rfl

end Memory

namespace Request

variable {m : Memory ω}

/-- A store whose links are in normal form answers and changes as the reference does. -/
theorem answer_plain (hm : ∀ g, (m.store.graph g).Canonical) (r : Request ω) :
    r.answer m.plain = ((r.perform m).1, (r.perform m).2.plain) := by
  cases r with
  | present k =>
    rw [answer, Memory.plain_cluster?, perform, Store.live, Graph.live_eq_isSome]
    rfl
  | neighbors k =>
    rw [answer, PlainStore.scan, Memory.plain_graph, (hm k.graph).scan_other?]
    rfl
  | graphCount =>
    rw [answer, Memory.plain, SortedMap.size_mapValues]
    rfl
  | clear g =>
    rw [answer, Memory.plain, SortedMap.contains_mapValues, perform, Memory.plain, Store.clear,
      SortedMap.mapValues_erase]
    rfl
  | call c =>
    cases c with
    | singleton g e =>
      rw [answer, Memory.plain_singleton]
      rfl
    | cluster k =>
      rw [answer, Memory.plain_cluster?]
      rfl
    | clusters g =>
      rw [answer, Memory.plain_graph]
      rfl
    | merge a b w =>
      rw [answer, Memory.plain_merge]
      rfl
    | removeVertex k =>
      rw [answer, Memory.plain_cluster?, Memory.plain_removeVertex, ← Store.removeVertex_fst]
      rfl
    | putEdge e w =>
      rw [answer, Memory.plain_putEdge]
      rfl
    | weight e =>
      rw [answer, Memory.plain_weight?]
      rfl
    | removeEdge e =>
      rw [answer, Memory.plain_weight?, Memory.plain_removeEdge, ← Store.removeEdge_fst]
      rfl
    -- The index by weight, which lists nothing else than the sorted links, gives both.
    | lightest g =>
      rw [answer, PlainStore.edges, Memory.plain_graph, (hm g).coherent.ranked, List.head?_map]
      rfl
    | edges g =>
      rw [answer, PlainStore.edges, Memory.plain_graph, (hm g).coherent.ranked]
      rfl
    | destinations k =>
      rw [answer, PlainStore.scan, Memory.plain_graph, (hm k.graph).scan_dst?]
      rfl
    | sources k =>
      rw [answer, PlainStore.scan, Memory.plain_graph, (hm k.graph).scan_src?]
      rfl

theorem perform_error {r : Request ω} {cause : StoreError ω} (h : (r.perform m).1 = .error cause) :
    (r.perform m).2 = m := by
  cases r with
  | present | neighbors | graphCount | clear => cases h
  | call c =>
    cases c with
    | singleton | cluster | clusters | removeVertex | weight | removeEdge | lightest | edges
      | destinations | sources => cases h
    | merge a b w => exact Memory.merge_error (Prod.ext h rfl)
    | putEdge e w =>
      rw [perform, Call.perform] at h ⊢
      cases hput : m.store.putEdge e w with
      | ok s => rw [hput] at h; cases h
      | error err => rfl

theorem Changes.canonical {g : GraphId} {G G' : Graph ω} {r : Request ω} (h : Changes g G r G')
    (hnormal : ∀ e w, r = .call (.putEdge e w) → compare e.link.src e.link.dst = .lt)
    (hG : G.Canonical) : G'.Canonical := by
  cases h with
  | kept => exact hG
  | ensured e => exact hG.congr (Graph.edges_ensure ..)
  | adjoined | retired => exact hG.congr rfl
  | linked l => exact hG.putLink (hnormal ⟨g, l⟩ _ rfl) _
  | unlinked l => exact hG.eraseLink l
  | cleared => exact .empty

/-- The reference goes along with the store, request by request. -/
theorem answerAll_plain {rs : List (Request ω)}
    (hnormal : ∀ e w, .call (.putEdge e w) ∈ rs → compare e.link.src e.link.dst = .lt)
    (hm : ∀ g, (m.store.graph g).Canonical) :
    (∀ g, ((run m rs).store.graph g).Canonical) ∧ answerAll m.plain rs = (run m rs).plain := by
  induction rs generalizing m with
  | nil => exact ⟨hm, rfl⟩
  | cons r rs ih =>
    have hstep : (r.answer m.plain).2 = (after m r).plain :=
      congrArg Prod.snd (answer_plain hm r)
    rw [answerAll, List.foldl_cons, hstep]
    refine ih (fun e w he => hnormal e w (List.mem_cons_of_mem r he)) fun g => ?_
    refine (changes_after m r g).canonical (fun e w hr => ?_) (hm g)
    exact hnormal e w (hr ▸ List.mem_cons_self)

/-- The store with its indexes is as good as a reference without them. After any requests, with any
weights, whose edges come from the constructors, every request is answered as the reference answers
it, a refused one changes nothing, and all that is said about edges is what the map of the reference
says. -/
theorem store_refines_plain_map [LawfulWeight ω] (ids : IdSource) {rs : List (Request ω)}
    (hmade : ∀ e w, .call (.putEdge e w) ∈ rs →
      ∃ a b, (Edge.between a b : Except (StoreError ω) Edge) = .ok e) :
    (∀ r : Request ω,
      (r.perform (run ⟨∅, ids⟩ rs)).1 = (r.answer (answerAll ⟨∅, ids⟩ rs)).1) ∧
    (∀ (r : Request ω) (cause : StoreError ω),
      (r.perform (run ⟨∅, ids⟩ rs)).1 = .error cause →
        (r.perform (run ⟨∅, ids⟩ rs)).2 = run ⟨∅, ids⟩ rs) ∧
    (run ⟨∅, ids⟩ rs).store.Shows (answerAll ⟨∅, ids⟩ rs).weight? := by
  obtain ⟨hcanonical, hplain⟩ := answerAll_plain (m := ⟨∅, ids⟩)
    (fun e w he => Edge.exists_between.mp (hmade e w he)) (fun _ => .empty)
  have hstart : (⟨∅, ids⟩ : Memory ω).plain = ⟨∅, ids⟩ := rfl
  rw [hstart] at hplain
  refine ⟨fun r => ?_, fun r cause h => perform_error h, ?_⟩
  · rw [hplain, answer_plain hcanonical r]
  · have hmap : (answerAll ⟨∅, ids⟩ rs).weight? = (run ⟨∅, ids⟩ rs).store.weight? := by
      funext e
      rw [hplain, Memory.plain_weight?]
    rw [hmap]
    exact Store.shows hcanonical

/-- One edge is put and replaced by a negative zero, one is refused and put and removed, and the
graph of another is cleared. -/
def rewritten : List (Request Binary64) :=
  [.call (.putEdge (numberedEdge 2 3) (.ofDecimal false ⟨1, -1⟩)),
    .call (.putEdge (numberedEdge 2 4) .zero),
    .call (.putEdge (numberedEdge 2 3) (.ofMagnitude true 0)),
    .call (.putEdge (numberedEdge 3 4) .nan), .call (.putEdge (numberedEdge 3 4) .zero),
    .call (.removeEdge (numberedEdge 3 4)),
    .call (.putEdge ⟨⟨⟨2⟩⟩, (numberedEdge 3 4).link⟩ .zero), .clear ⟨⟨2⟩⟩]

theorem rewritten_as_plain :
    (∀ e w, .call (.putEdge e w) ∈ rewritten →
      ∃ a b, (Edge.between a b : Except (StoreError Binary64) Edge) = .ok e) ∧
    (run ⟨∅, ⟨[], 0⟩⟩ rewritten).store.edges ⟨⟨1⟩⟩ =
      [(numberedEdge 2 3, .ofMagnitude true 0), (numberedEdge 2 4, .zero)] ∧
    (run ⟨∅, ⟨[], 0⟩⟩ rewritten).store.Shows (answerAll ⟨∅, ⟨[], 0⟩⟩ rewritten).weight? ∧
    ((Request.graphCount : Request Binary64).answer (answerAll ⟨∅, ⟨[], 0⟩⟩ rewritten)).1 =
      .ok (1 : Nat) := by
  have hmade : ∀ e w, .call (.putEdge e w) ∈ rewritten →
      ∃ a b, (Edge.between a b : Except (StoreError Binary64) Edge) = .ok e := by
    intro e w he
    rw [Edge.exists_between]
    simp only [rewritten, List.mem_cons, List.not_mem_nil, or_false, call.injEq,
      Call.putEdge.injEq, reduceCtorEq, false_or] at he
    rcases he with ⟨rfl, -⟩ | ⟨rfl, -⟩ | ⟨rfl, -⟩ | ⟨rfl, -⟩ | ⟨rfl, -⟩ | ⟨rfl, -⟩ <;> rfl
  obtain ⟨hanswers, -, hshows⟩ := store_refines_plain_map ⟨[], 0⟩ hmade
  refine ⟨hmade, by decide +kernel, hshows, ?_⟩
  have hcount : (run ⟨∅, ⟨[], 0⟩⟩ rewritten).store.graphCount = 1 := by decide +kernel
  rw [← hanswers]
  exact congrArg Except.ok hcount

end Request

end RecordLinkage
