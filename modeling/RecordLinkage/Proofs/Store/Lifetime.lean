import RecordLinkage.Proofs.Store.Request

namespace RecordLinkage

variable {ω : Type} [Weight ω]

namespace Graph

variable {G G' G'' : Graph ω} {v : VertexId} {c : Cluster ω}

/-- What time does to the vertices of a graph that is not cleared: a live one stays as it is until
it is retired, and a retired one stays retired and does not come to life. -/
structure Ages (G G' : Graph ω) : Prop where
  kept : ∀ v c, G.cluster? v = some c →
    G'.cluster? v = some c ∨ G'.cluster? v = none ∧ v ∈ G'.retired
  retired : ∀ v ∈ G.retired, v ∈ G'.retired
  buried : ∀ v ∈ G'.retired, ∀ c, G'.cluster? v = some c →
    v ∈ G.retired ∧ ∃ c', G.cluster? v = some c'

namespace Ages

theorem refl (G : Graph ω) : Ages G G where
  kept _ _ h := .inl h
  retired _ h := h
  buried _ hv c hc := ⟨hv, c, hc⟩

theorem gone (h : Ages G G') (hv : v ∈ G.retired) (hgone : G.cluster? v = none) :
    G'.cluster? v = none := by
  cases hlive : G'.cluster? v with
  | none => rfl
  | some c =>
    obtain ⟨-, c', hc'⟩ := h.buried v (h.retired v hv) c hlive
    rw [hgone] at hc'
    cases hc'

theorem not_live (h : Ages G G') (hv : v ∈ G.retired) (hdead : G.live v = false) :
    G'.live v = false := by
  rw [live_eq_isSome, Option.isSome_eq_false_iff, Option.isNone_iff_eq_none] at hdead
  rw [live_eq_isSome, h.gone hv hdead]
  rfl

theorem retired_of_gone (h : Ages G G') (hlive : G.live v = true) (hdead : G'.live v = false) :
    v ∈ G'.retired := by
  obtain ⟨c, hc⟩ := live_iff.mp hlive
  rcases h.kept v c hc with hstill | ⟨-, hretired⟩
  · rw [live_iff.mpr ⟨c, hstill⟩] at hdead
    cases hdead
  · exact hretired

theorem taken (h : Ages G G') (hlive : G.live v = true) : G'.taken v = true := by
  obtain ⟨c, hc⟩ := live_iff.mp hlive
  rcases h.kept v c hc with hstill | ⟨-, hretired⟩
  · exact taken_iff.mpr (.inl (live_iff.mpr ⟨c, hstill⟩))
  · exact taken_iff.mpr (.inr hretired)

theorem between {c' : Cluster ω} (h : Ages G G') (h' : Ages G' G'') (hc : G.cluster? v = some c)
    (hc' : G''.cluster? v = some c') : c' = c ∧ G'.cluster? v = some c := by
  have hmiddle : G'.cluster? v = some c := by
    rcases h.kept v c hc with hlive | ⟨hgone, hretired⟩
    · exact hlive
    · -- A vertex that is gone in between is gone at the end.
      rw [h'.gone hretired hgone] at hc'
      cases hc'
  refine ⟨?_, hmiddle⟩
  rcases h'.kept v c hmiddle with hsame | ⟨hgone, -⟩
  · exact Option.some.inj (hc'.symm.trans hsame)
  · rw [hgone] at hc'
    cases hc'

/-- What is written to edges does not count. -/
theorem putLink (G : Graph ω) (l : Link) (w : ω) : Ages G (G.putLink l w) :=
  ⟨(refl G).kept, (refl G).retired, (refl G).buried⟩

theorem eraseLink (G : Graph ω) (l : Link) : Ages G (G.eraseLink l) :=
  ⟨(refl G).kept, (refl G).retired, (refl G).buried⟩

theorem trans (h : Ages G G') (h' : Ages G' G'') : Ages G G'' where
  kept v c hc := by
    rcases h.kept v c hc with hc' | ⟨hgone, hretired⟩
    · exact h'.kept v c hc'
    · exact .inr ⟨h'.gone hretired hgone, h'.retired v hretired⟩
  retired v hv := h'.retired v (h.retired v hv)
  buried v hv c hc := by
    obtain ⟨hv', c', hc'⟩ := h'.buried v hv c hc
    exact h.buried v hv' c' hc'

/-- Vertices are added where none is taken. -/
theorem of_added (hfree : G.taken v = false) (hretired : G'.retired = G.retired)
    (hadded : ∀ u, u ≠ v → G'.cluster? u = G.cluster? u) : Ages G G' := by
  have hnew {u : VertexId} (hu : G.taken u = true) : u ≠ v := by
    rintro rfl
    rw [hfree] at hu
    cases hu
  refine ⟨?_, ?_, ?_⟩
  · intro u c hc
    rw [hadded u (hnew (taken_iff.mpr (.inl (live_iff.mpr ⟨c, hc⟩))))]
    exact .inl hc
  · rw [hretired]
    exact fun u hu => hu
  · rw [hretired]
    intro u hu c hc
    rw [hadded u (hnew (taken_iff.mpr (.inr hu)))] at hc
    exact ⟨hu, c, hc⟩

theorem ensure (G : Graph ω) (v : VertexId) (e : EntityKey) : Ages G (G.ensure v e) := by
  cases hfree : G.taken v with
  | true =>
    rw [Graph.ensure, if_pos hfree]
    exact refl G
  | false =>
    refine of_added hfree (retired_ensure G v e) ?_
    intro u hu
    rw [cluster?_ensure, if_neg fun h => hu h.2.symm]

theorem adjoin {x y : Cluster ω} {w : ω} (hfree : G.taken v = false) :
    Ages G (G.adjoin v x y w) := by
  refine of_added hfree (retired_adjoin G v x y w) ?_
  intro u hu
  rw [cluster?_adjoin, if_neg fun h => hu h.symm]

theorem retire (G : Graph ω) (v : VertexId) : Ages G (G.retire v) where
  kept u c hc := by
    rw [cluster?_retire]
    split
    · rename_i h
      exact .inr ⟨rfl, mem_retired_retire.mpr (.inl h.symm)⟩
    · exact .inl hc
  retired u hu := mem_retired_retire.mpr (.inr hu)
  buried u hu c hc := by
    rw [cluster?_retire] at hc
    split at hc
    · cases hc
    · rename_i h
      exact ⟨(mem_retired_retire.mp hu).resolve_left fun e => h e.symm, c, hc⟩

end Ages

end Graph

namespace Request

variable {G G' : Graph ω} {g : GraphId} {r : Request ω} {rs : List (Request ω)}

theorem Changes.ages (h : Changes g G r G') (hkeep : r ≠ .clear g) : G.Ages G' := by
  cases h with
  | kept => exact .refl G
  | ensured e => exact .ensure G _ e
  | adjoined _ _ free => exact .adjoin free
  | retired v => exact .retire G v
  | linked l => exact .putLink G l _
  | unlinked l => exact .eraseLink G l
  | cleared => exact absurd rfl hkeep

theorem ages_run (m : Memory ω) (hkeep : .clear g ∉ rs) :
    (m.store.graph g).Ages ((run m rs).store.graph g) := by
  refine run_graph (P := (m.store.graph g).Ages) (.refl _) ?_
  intro r hr G G' hchange hages
  exact hages.trans (hchange.ages fun h => hkeep (h ▸ hr))

def moment (ids : IdSource) (rs : List (Request ω)) (n : Nat) : Memory ω :=
  run ⟨∅, ids⟩ (rs.take n)

/-- From one moment to a later one every graph ages. -/
theorem ages_moment (ids : IdSource) (hkeep : .clear g ∉ rs) {i j : Nat} (hij : i ≤ j) :
    ((moment ids rs i).store.graph g).Ages ((moment ids rs j).store.graph g) := by
  rw [moment, moment, run_take_of_le _ rs hij]
  exact ages_run _ fun h => hkeep (List.mem_of_mem_drop (List.mem_of_mem_take h))

theorem gone_of_retired (ids : IdSource) (hkeep : .clear g ∉ rs) (n : Nat) {v : VertexId}
    (hv : v ∈ ((moment ids rs n).store.graph g).retired) :
    ((moment ids rs n).store.graph g).cluster? v = none := by
  cases hlive : ((moment ids rs n).store.graph g).cluster? v with
  | none => rfl
  | some c =>
    obtain ⟨hnone, -⟩ := (ages_moment ids hkeep n.zero_le).buried v hv c hlive
    cases hnone

/-- Vertices do not change, and retirement is for good. Whatever is asked of a store that is not
told to forget a graph, and whatever identifiers are drawn: what is live at two moments is the same
cluster at every moment in between; what was live and is not any more is retired, and never live
again; a merge never answers with a vertex that was live before; and asking for the vertex of an
entity that is retired hands out its key and leaves it as it is. -/
theorem vertices_immutable_retirement_permanent (ids : IdSource) {rs : List (Request ω)}
    (hkeep : ∀ g, .clear g ∉ rs) :
    (∀ i j n k c c', i ≤ j → j ≤ n → (moment ids rs i).store.cluster? k = some c →
      (moment ids rs n).store.cluster? k = some c' →
        c' = c ∧ (moment ids rs j).store.cluster? k = some c) ∧
    (∀ i j k, i ≤ j → (moment ids rs i).store.live k = true →
      (moment ids rs j).store.live k = false →
        k.vertex ∈ ((moment ids rs j).store.graph k.graph).retired ∧
          ∀ n, j ≤ n → (moment ids rs n).store.live k = false) ∧
    (∀ i n a b w k m', i ≤ n → (moment ids rs n).merge a b w = (.ok k, m') →
      (moment ids rs i).store.live k = false) ∧
    ∀ n g e, e.singletonId g ∈ ((moment ids rs n).store.graph g).retired →
      ((moment ids rs n).store.singleton g e).1 = ⟨g, e.singletonId g⟩ ∧
        ((moment ids rs n).store.singleton g e).2.live ⟨g, e.singletonId g⟩ = false := by
  refine ⟨?_, ?_, ?_, ?_⟩
  · intro i j n k c c' hij hjn hi hn
    have hearly := ages_moment ids (hkeep k.graph) hij
    exact hearly.between (ages_moment ids (hkeep k.graph) hjn) hi hn
  · intro i j k hij hi hj
    have hretired := (ages_moment ids (hkeep k.graph) hij).retired_of_gone hi hj
    exact ⟨hretired, fun n hjn => (ages_moment ids (hkeep k.graph) hjn).not_live hretired hj⟩
  · intro i n a b w k m' hin hmerge
    obtain ⟨x, y, hjoins, -⟩ := Memory.merge_ok hmerge
    have hfree := hjoins.free
    rw [← hjoins.graph] at hfree
    -- A vertex that was ever live keeps its name taken, and a merge draws a free one.
    apply eq_false_of_ne_true
    intro hlive
    rw [(ages_moment ids (hkeep k.graph) hin).taken hlive] at hfree
    cases hfree
  · intro n g e hretired
    refine ⟨rfl, ?_⟩
    have htaken := Graph.taken_iff.mpr (.inr hretired)
    rw [Store.live, Store.graph_singleton, if_pos rfl, Graph.ensure, if_pos htaken,
      Graph.live_eq_isSome, gone_of_retired ids (hkeep g) n hretired]
    rfl

def numberedEntity (n : BitVec 128) : EntityKey := ⟨⟨⟨7⟩⟩, ⟨⟨n⟩⟩⟩

def numberedVertex (n : BitVec 128) : VertexKey := ⟨⟨⟨1⟩⟩, (numberedEntity n).singletonId ⟨⟨1⟩⟩⟩

/-- Two entities are joined, the union is removed, and the entities are joined anew. Then the first
entity is removed and asked for. -/
def rejoined : List (Request Binary64) :=
  [.call (.singleton ⟨⟨1⟩⟩ (numberedEntity 1)), .call (.singleton ⟨⟨1⟩⟩ (numberedEntity 2)),
    .call (.merge (numberedVertex 1) (numberedVertex 2) .zero),
    .call (.removeVertex ⟨⟨⟨1⟩⟩, ⟨.random 5⟩⟩),
    .call (.merge (numberedVertex 1) (numberedVertex 2) .zero),
    .call (.removeVertex (numberedVertex 1)), .call (.singleton ⟨⟨1⟩⟩ (numberedEntity 1))]

def repeating : IdSource := ⟨[⟨5⟩, ⟨5⟩, ⟨5⟩], 0⟩

theorem rejoined_union_never_returns :
    (∀ g, .clear g ∉ rejoined) ∧
      (moment repeating rejoined 3).store.live ⟨⟨⟨1⟩⟩, ⟨.random 5⟩⟩ = true ∧
      (∀ n, 4 ≤ n → (moment repeating rejoined n).store.live ⟨⟨⟨1⟩⟩, ⟨.random 5⟩⟩ = false) ∧
      (∃ k m', (moment repeating rejoined 4).merge (numberedVertex 1) (numberedVertex 2) .zero =
        (.ok k, m') ∧ k ≠ ⟨⟨⟨1⟩⟩, ⟨.random 5⟩⟩) ∧
      ((moment repeating rejoined 6).store.singleton ⟨⟨1⟩⟩ (numberedEntity 1)).2.live
        (numberedVertex 1) = false := by
  have hkeep : ∀ g, .clear g ∉ rejoined := by simp [rejoined]
  obtain ⟨-, hgone, hnew, hentity⟩ := vertices_immutable_retirement_permanent repeating hkeep
  have hlive : (moment repeating rejoined 3).store.live ⟨⟨⟨1⟩⟩, ⟨.random 5⟩⟩ = true := by
    decide +kernel
  have hremoved : (moment repeating rejoined 4).store.live ⟨⟨⟨1⟩⟩, ⟨.random 5⟩⟩ = false := by
    decide +kernel
  have hretired := SortedSet.contains_iff.mp (by decide +kernel :
    ((moment repeating rejoined 6).store.graph ⟨⟨1⟩⟩).retired.contains
      ((numberedEntity 1).singletonId ⟨⟨1⟩⟩) = true)
  refine ⟨hkeep, hlive, (hgone 3 4 _ (by decide) hlive hremoved).2, ?_, (hentity 6 _ _ hretired).2⟩
  have hok : ((moment repeating rejoined 4).merge (numberedVertex 1) (numberedVertex 2)
      .zero).1.isOk = true := by decide +kernel
  rcases hmerge : (moment repeating rejoined 4).merge (numberedVertex 1) (numberedVertex 2) .zero
    with ⟨cause | k, m'⟩
  · rw [hmerge] at hok
    cases hok
  · refine ⟨k, m', rfl, fun h => ?_⟩
    have hfresh := hnew 3 4 _ _ _ k m' (by decide) hmerge
    rw [h, hlive] at hfresh
    cases hfresh

end Request

end RecordLinkage
