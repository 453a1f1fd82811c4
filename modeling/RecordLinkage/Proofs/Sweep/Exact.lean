import RecordLinkage.Sweep
import RecordLinkage.Proofs.Drain.Anchored
import RecordLinkage.Proofs.Graph.Links
import RecordLinkage.Proofs.Store.Parts
import RecordLinkage.Proofs.Store.Refinement

namespace RecordLinkage

variable {ω : Type} [Weight ω]

namespace Store

variable {s : Store ω} {g : GraphId} {e : Edge} {es : List Edge} {v : VertexId}

def removeEdges (s : Store ω) (es : List Edge) : Store ω :=
  es.foldl (fun s e => (s.removeEdge e).2) s

/-- What the removal of a link preserves in a graph, the removal of edges preserves. -/
theorem removeEdges_induct {P : Graph ω → Prop} (herase : ∀ G l, P G → P (G.eraseLink l))
    (es : List Edge) (h : P (s.graph g)) : P ((s.removeEdges es).graph g) := by
  induction es generalizing s with
  | nil => exact h
  | cons e es ih =>
    apply ih
    rw [graph_removeEdge]
    split
    · rename_i hg
      exact herase _ _ (hg ▸ h)
    · exact h

theorem weight?_removeEdges (s : Store ω) (es : List Edge) (e : Edge) :
    (s.removeEdges es).weight? e = if e ∈ es then none else s.weight? e := by
  induction es generalizing s with
  | nil => simp [removeEdges]
  | cons e' es ih =>
    refine (ih (s.removeEdge e').2).trans ?_
    rw [weight?_removeEdge]
    by_cases h : e' = e
    · simp [h]
    · simp [h, Ne.symm h]

/-- Graphs of which no edge is removed are left as they are; they do not appear either. -/
theorem part_removeEdges (h : ∀ e ∈ es, e.graph ≠ g) : (s.removeEdges es).part g = s.part g := by
  induction es generalizing s with
  | nil => rfl
  | cons e es ih =>
    rw [List.forall_mem_cons] at h
    refine (ih h.2).trans ?_
    exact (Call.removeEdge e).part_perform_of_ne ⟨s, ⟨[], 0⟩⟩ h.1

theorem hasGraph_removeEdge (s : Store ω) (e : Edge) (g : GraphId) :
    (s.removeEdge e).2.hasGraph g = s.hasGraph g := by
  rw [removeEdge]
  split
  · rename_i hthere
    rw [hasGraph_eq, hasGraph_eq, part_setGraph]
    split
    · rename_i hg
      subst hg
      cases hpart : s.part e.graph with
      | some G => rfl
      | none =>
        -- In a graph that is not there no edge is.
        rw [weight?, graph_eq, hpart] at hthere
        cases hthere
    · rfl
  · rfl

theorem hasGraph_removeEdges (s : Store ω) (es : List Edge) (g : GraphId) :
    (s.removeEdges es).hasGraph g = s.hasGraph g := by
  induction es generalizing s with
  | nil => rfl
  | cons e es ih => exact (ih _).trans (hasGraph_removeEdge s e g)

/-- Each edge that is removed counts. -/
theorem edgeCount_removeEdges (hnodup : es.Nodup) (hgraph : ∀ e ∈ es, e.graph = g)
    (hthere : ∀ e ∈ es, (s.weight? e).isSome = true) :
    (s.removeEdges es).edgeCount g + es.length = s.edgeCount g := by
  induction es generalizing s with
  | nil => rfl
  | cons e es ih =>
    rw [List.nodup_cons] at hnodup
    rw [List.forall_mem_cons] at hgraph hthere
    have hrest := ih (s := (s.removeEdge e).2) hnodup.2 hgraph.2 fun e' he' => by
      have hne : e ≠ e' := fun heq => hnodup.1 (heq ▸ he')
      rw [weight?_removeEdge, if_neg hne, hthere.2 e' he']
    have hone : (s.removeEdge e).2.edgeCount g + 1 = s.edgeCount g := by
      rw [edgeCount, graph_removeEdge, if_pos hgraph.1, edgeCount, ← hgraph.1]
      exact Graph.size_eraseLink hthere.1
    rw [← hone, ← hrest, List.length_cons]
    rfl

theorem mem_edges (h : (s.graph g).edges.Coherent) {p : Edge × ω} :
    p ∈ s.edges g ↔ p.1.graph = g ∧ s.weight? p.1 = some p.2 := by
  obtain ⟨⟨g', l⟩, w⟩ := p
  rw [edges, List.mem_map]
  constructor
  · intro hp
    obtain ⟨q, hq, heq⟩ := hp
    cases heq
    exact ⟨rfl, (h.byWeight q.1 q.2).mp hq⟩
  · rintro ⟨rfl, hw⟩
    exact ⟨(w, l), (h.byWeight w l).mpr hw, rfl⟩

theorem edges_nodup (h : (s.graph g).edges.Coherent) : ((s.edges g).map Prod.fst).Nodup := by
  have hpairs : (s.edges g).Nodup := by
    apply List.Nodup.map
    · intro p q hpq
      simp only [Prod.mk.injEq, Edge.mk.injEq, true_and] at hpq
      exact Prod.ext hpq.2 hpq.1
    · exact (s.graph g).edges.byWeight.keys_distinct
  apply hpairs.map_on
  intro p hp q hq hpq
  have hw := ((mem_edges h).mp hp).2
  rw [hpq, ((mem_edges h).mp hq).2, Option.some.injEq] at hw
  exact Prod.ext hpq hw.symm

def vertices (s : Store ω) (g : GraphId) : SortedSet VertexId :=
  .ofList ((s.clusters g).map fun p => p.1.vertex)

theorem mem_vertices : v ∈ s.vertices g ↔ s.live ⟨g, v⟩ = true := by
  rw [vertices, SortedSet.mem_ofList, List.mem_map, live, Graph.live_iff]
  constructor
  · rintro ⟨p, hp, rfl⟩
    exact ⟨p.2, (mem_clusters.mp hp).2⟩
  · rintro ⟨c, hc⟩
    exact ⟨(⟨g, v⟩, c), mem_clusters.mpr ⟨rfl, hc⟩, rfl⟩

/-- The live vertices of a graph that are an end of none of its edges. -/
def isolated (s : Store ω) (g : GraphId) : SortedSet VertexId :=
  (s.vertices g).filter fun v => (s.edges g).all fun p => p.1.link.src ≠ v && p.1.link.dst ≠ v

theorem mem_isolated : v ∈ s.isolated g ↔
    s.live ⟨g, v⟩ = true ∧ ∀ p ∈ s.edges g, p.1.link.src ≠ v ∧ p.1.link.dst ≠ v := by
  simp [isolated, SortedBy.mem_filter, mem_vertices]

/-- The isolated vertices as they are reported. -/
theorem mem_map_isolated (h : (s.graph g).edges.Coherent) {k : VertexKey} :
    k ∈ (s.isolated g).toList.map (fun v => ⟨g, v⟩) ↔
      k.graph = g ∧ s.live k = true ∧ ∀ p ∈ s.edges g, p.1.src ≠ k ∧ p.1.dst ≠ k := by
  obtain ⟨g', v⟩ := k
  have hends (p : Edge × ω) (hp : p ∈ s.edges g) :
      p.1.src ≠ ⟨g, v⟩ ∧ p.1.dst ≠ ⟨g, v⟩ ↔ p.1.link.src ≠ v ∧ p.1.link.dst ≠ v := by
    have hp := ((mem_edges h).mp hp).1
    simp [Edge.src, Edge.dst, hp]
  have hisolated := mem_isolated (s := s) (g := g) (v := v)
  rw [← forall₂_congr hends] at hisolated
  rw [List.mem_map]
  constructor
  · rintro ⟨u, hu, heq⟩
    cases heq
    exact ⟨rfl, hisolated.mp hu⟩
  · rintro ⟨rfl, hv⟩
    exact ⟨v, hisolated.mpr hv, rfl⟩

theorem isolated_ascending (s : Store ω) (g : GraphId) :
    ((s.isolated g).toList.map fun v => (⟨g, v⟩ : VertexKey)).Pairwise
      fun k k' => compare k k' = .lt := by
  refine List.pairwise_map.mpr ((s.isolated g).ascending.imp ?_)
  intro u v huv
  show (compare g g).then (compare u v) = .lt
  rw [Std.compare_self]
  exact huv

/-- The edges of a graph of which an end is not live, lightest first. -/
def dangling (s : Store ω) (g : GraphId) : List Edge :=
  ((s.edges g).map Prod.fst).filter fun e => !(s.live e.src && s.live e.dst)

theorem mem_dangling (h : (s.graph g).edges.Coherent) : e ∈ s.dangling g ↔
    e.graph = g ∧ (s.weight? e).isSome = true ∧ (s.live e.src && s.live e.dst) = false := by
  rw [dangling, List.mem_filter, List.mem_map, Bool.not_eq_true', Option.isSome_iff_exists]
  simp only [mem_edges h, ← and_assoc]
  apply and_congr_left'
  constructor
  · rintro ⟨p, ⟨hg, hw⟩, rfl⟩
    exact ⟨hg, p.2, hw⟩
  · rintro ⟨hg, w, hw⟩
    exact ⟨(e, w), ⟨hg, hw⟩, rfl⟩

end Store

namespace Sweep

open Program

def holds (live : SortedSet VertexId) (e : Edge) : Bool :=
  live.contains e.link.src && live.contains e.link.dst

def lost (live : SortedSet VertexId) (l : List (Edge × ω)) : List Edge :=
  (l.map Prod.fst).filter fun e => !holds live e

theorem run_removeEdge (m : Memory ω) (e : Edge) : (Program.removeEdge e).run m =
    (.ok (m.store.removeEdge e).1, { m with store := (m.store.removeEdge e).2 }) := rfl

/-- Going through edges that are all there removes and counts just those that have lost an end, and
collects the ends of the others. -/
theorem run_overEdges (live : SortedSet VertexId) {l : List (Edge × ω)} {m : Memory ω}
    (hnodup : (l.map Prod.fst).Nodup) (hthere : ∀ p ∈ l, (m.store.weight? p.1).isSome = true)
    (removed : Nat) (connected : SortedSet VertexId) :
    ∃ connected', (overEdges live l removed connected).run m =
        (.ok (removed + (lost live l).length, connected'),
          { m with store := m.store.removeEdges (lost live l) }) ∧
      ∀ v, v ∈ connected' ↔ v ∈ connected ∨ ∃ p ∈ l, holds live p.1 = true ∧
        (v = p.1.link.src ∨ v = p.1.link.dst) := by
  induction l generalizing m removed connected with
  | nil => exact ⟨connected, rfl, by simp⟩
  | cons p rest ih =>
    obtain ⟨e, w⟩ := p
    rw [List.map_cons, List.nodup_cons] at hnodup
    rw [List.forall_mem_cons] at hthere
    rw [overEdges, ← holds]
    cases hends : holds live e with
    | true =>
      have hlost : lost live ((e, w) :: rest) = lost live rest := by
        simp [lost, hends]
      rw [if_pos rfl, hlost]
      obtain ⟨connected', hrun, hmem⟩ := ih hnodup.2 hthere.2 removed
        ((connected.insert e.link.src).insert e.link.dst)
      refine ⟨connected', hrun, fun v => ?_⟩
      rw [hmem, SortedSet.mem_insert, SortedSet.mem_insert]
      simp only [List.mem_cons, exists_eq_or_imp, hends, true_and]
      simp only [or_assoc, or_left_comm]
    | false =>
      have hlost : lost live ((e, w) :: rest) = e :: lost live rest := by
        simp [lost, hends]
      have htrue : (m.store.removeEdge e).1 = true := by
        rw [Store.removeEdge_fst, hthere.1]
      -- The edges still to come are others, so they stay.
      have hstays : ∀ p ∈ rest, ((m.store.removeEdge e).2.weight? p.1).isSome = true := by
        intro p hp
        have hne : e ≠ p.1 := by
          rintro rfl
          exact hnodup.1 (List.mem_map.mpr ⟨p, hp, rfl⟩)
        rw [Store.weight?_removeEdge, if_neg hne, hthere.2 p hp]
      rw [if_neg Bool.false_ne_true, run_bind_of_ok (run_removeEdge m e), htrue,
        if_pos rfl, hlost, List.length_cons]
      obtain ⟨connected', hrun, hmem⟩ := ih (m := { m with store := (m.store.removeEdge e).2 })
        hnodup.2 hstays (removed + 1) connected
      refine ⟨connected', ?_, fun v => ?_⟩
      · rw [hrun, Nat.add_assoc, Nat.add_comm 1]
        rfl
      · rw [hmem]
        simp [hends]

end Sweep

namespace Memory

def swept (m : Memory ω) (g : GraphId) : Memory ω :=
  { m with store := m.store.removeEdges (m.store.dangling g) }

variable {m : Memory ω} {g : GraphId} {e : Edge}

theorem weight?_swept (h : (m.store.graph g).edges.Coherent) (l : Link) :
    (m.swept g).store.weight? ⟨g, l⟩ =
      if (m.store.live ⟨g, l.src⟩ && m.store.live ⟨g, l.dst⟩) = true then m.store.weight? ⟨g, l⟩
      else none := by
  rw [swept, Store.weight?_removeEdges]
  have hmem : (⟨g, l⟩ : Edge) ∈ m.store.dangling g ↔ (m.store.weight? ⟨g, l⟩).isSome = true ∧
      (m.store.live ⟨g, l.src⟩ && m.store.live ⟨g, l.dst⟩) = false := by
    simp [Store.mem_dangling h, Edge.src, Edge.dst]
  cases hends : (m.store.live ⟨g, l.src⟩ && m.store.live ⟨g, l.dst⟩) <;>
    cases hw : m.store.weight? ⟨g, l⟩ <;> simp [hmem, hends, hw]

theorem clusters_swept (m : Memory ω) (g g' : GraphId) :
    ((m.swept g).store.graph g').clusters = (m.store.graph g').clusters :=
  Store.removeEdges_induct (P := fun G => G.clusters = (m.store.graph g').clusters)
    (fun _ _ h => h) _ rfl

theorem retired_swept (m : Memory ω) (g g' : GraphId) :
    ((m.swept g).store.graph g').retired = (m.store.graph g').retired :=
  Store.removeEdges_induct (P := fun G => G.retired = (m.store.graph g').retired)
    (fun _ _ h => h) _ rfl

@[simp] theorem live_swept (m : Memory ω) (g : GraphId) (k : VertexKey) :
    (m.swept g).store.live k = m.store.live k := by
  rw [Store.live, Graph.live, clusters_swept, ← Graph.live, ← Store.live]

theorem coherent_swept (h : (m.store.graph g).edges.Coherent) :
    ((m.swept g).store.graph g).edges.Coherent :=
  Store.removeEdges_induct (P := fun G => G.edges.Coherent) (fun _ l h => h.erase l) _ h

theorem part_swept_of_ne (h : (m.store.graph g).edges.Coherent) {g' : GraphId} (hg : g' ≠ g) :
    (m.swept g).store.part g' = m.store.part g' :=
  Store.part_removeEdges fun _ he => ((Store.mem_dangling h).mp he).1 ▸ hg.symm

theorem hasGraph_swept (m : Memory ω) (g g' : GraphId) :
    (m.swept g).store.hasGraph g' = m.store.hasGraph g' := Store.hasGraph_removeEdges _ _ _

theorem edgeCount_swept (h : (m.store.graph g).edges.Coherent) :
    (m.store.dangling g).length + (m.swept g).store.edgeCount g = m.store.edgeCount g := by
  rw [add_comm]
  apply Store.edgeCount_removeEdges
  · exact (Store.edges_nodup h).filter _
  · exact fun e he => ((Store.mem_dangling h).mp he).1
  · exact fun e he => ((Store.mem_dangling h).mp he).2.1

theorem edges_swept (h : (m.store.graph g).edges.Coherent) : (m.swept g).store.edges g =
    (m.store.edges g).filter fun p => m.store.live p.1.src && m.store.live p.1.dst := by
  have hindex : ((m.swept g).store.graph g).edges.byWeight =
      (m.store.graph g).edges.byWeight.filter fun p =>
        m.store.live ⟨g, p.2.src⟩ && m.store.live ⟨g, p.2.dst⟩ := by
    apply SortedBy.ext_mem
    intro ⟨w, l⟩
    have hweight := weight?_swept h l
    rw [Store.weight?, Store.weight?] at hweight
    rw [SortedBy.mem_filter, (coherent_swept h).byWeight, h.byWeight, hweight]
    simp [and_comm]
  rw [Store.edges, hindex, Store.edges, List.filter_map]
  rfl

/-- Nothing is left for another sweep. -/
theorem dangling_swept (h : (m.store.graph g).edges.Coherent) :
    (m.swept g).store.dangling g = [] := by
  have hnever (b : Bool) : (!b && b) = false := Bool.not_and_self b
  simp only [Store.dangling, edges_swept h, live_swept, List.filter_map, List.filter_filter,
    Function.comp_def, hnever, List.filter_false, List.map_nil]

theorem swept_swept (h : (m.store.graph g).edges.Coherent) : (m.swept g).swept g = m.swept g := by
  rw [swept, dangling_swept h]
  rfl

/-- A graph whose links are in normal form has nothing that a drain could find stale once it was
swept. -/
theorem anchored_swept (h : (m.store.graph g).edges.Coherent)
    (hnormal : ∀ p ∈ (m.swept g).store.edges g, compare p.1.link.src p.1.link.dst = .lt) :
    ((m.swept g).store.graph g).Anchored := by
  have hmem (l : Link) (w : ω) (hw : ((m.swept g).store.graph g).edges.weight? l = some w) :
      (⟨g, l⟩, w) ∈ (m.swept g).store.edges g := (Store.mem_edges (coherent_swept h)).mpr ⟨rfl, hw⟩
  refine ⟨⟨coherent_swept h, fun l w hw => hnormal _ (hmem l w hw)⟩, fun l w hw => ?_⟩
  have hends := hmem l w hw
  rw [edges_swept h, List.mem_filter, Bool.and_eq_true, ← live_swept m g, ← live_swept m g] at hends
  exact hends.2

end Memory

namespace Sweep

open Program

variable {m : Memory ω} {g : GraphId}

/-- A sweep removes and counts the dangling edges, and lists the vertices that are isolated then. -/
theorem run_sweep (h : (m.store.graph g).edges.Coherent) :
    (sweep g).run m = (.ok ⟨(m.store.dangling g).length,
      ((m.swept g).store.isolated g).toList.map fun v => ⟨g, v⟩⟩, m.swept g) := by
  have hholds (p : Edge × ω) (hp : p ∈ m.store.edges g) :
      holds (m.store.vertices g) p.1 = (m.store.live p.1.src && m.store.live p.1.dst) := by
    have hlive (v : VertexId) : (m.store.vertices g).contains v = m.store.live ⟨g, v⟩ := by
      rw [Bool.eq_iff_iff, SortedSet.contains_iff, Store.mem_vertices]
    obtain ⟨rfl, -⟩ := (Store.mem_edges h).mp hp
    rw [holds, hlive, hlive]
    rfl
  have hlost : lost (m.store.vertices g) (m.store.edges g) = m.store.dangling g := by
    rw [lost, Store.dangling, List.filter_map, List.filter_map]
    congr 1
    apply List.filter_congr
    intro p hp
    exact congrArg (! ·) (hholds p hp)
  have hthere : ∀ p ∈ m.store.edges g, (m.store.weight? p.1).isSome = true := by
    intro p hp
    rw [((Store.mem_edges h).mp hp).2]
    rfl
  -- The sweep goes through the edges that it listed, which are all still there.
  obtain ⟨connected, hrun, hconnected⟩ :=
    run_overEdges (m.store.vertices g) (Store.edges_nodup h) hthere 0 ∅
  -- The ends of the edges that are kept are the vertices that still have one.
  have hisolated : (m.store.vertices g).diff connected = (m.swept g).store.isolated g := by
    apply SortedBy.ext_mem
    intro v
    rw [SortedSet.diff, SortedBy.mem_filter, Store.mem_vertices, Store.mem_isolated,
      Memory.live_swept, Memory.edges_swept h]
    apply and_congr_right'
    rw [Bool.not_eq_true', ← Bool.not_eq_true, SortedSet.contains_iff, hconnected]
    simp only [SortedBy.not_mem_empty, false_or, not_exists, not_and, not_or, List.mem_filter,
      and_imp]
    apply forall₂_congr
    intro p hp
    rw [hholds p hp]
    simp only [ne_comm, ne_eq, eq_comm]
  unfold sweep
  rw [run_bind_of_ok (rfl : (Program.clusters g).run m = (.ok (m.store.clusters g), m)),
    run_bind_of_ok (rfl : (Program.edges g).run m = (.ok (m.store.edges g), m)),
    ← Store.vertices, run_bind_of_ok hrun, hlost, Nat.zero_add]
  dsimp only
  rw [hisolated]
  rfl

/-- Where all edges join live vertices a sweep changes nothing. -/
theorem run_sweep_of_anchored (h : (m.store.graph g).Anchored) :
    ∃ isolated, (sweep g).run m = (.ok ⟨0, isolated⟩, m) := by
  have hnone : m.store.dangling g = [] := by
    rw [List.eq_nil_iff_forall_not_mem]
    intro e he
    obtain ⟨rfl, hthere, hgone⟩ := (Store.mem_dangling h.coherent).mp he
    obtain ⟨w, hw⟩ := Option.isSome_iff_exists.mp hthere
    have hends := h.live e.link w hw
    rw [← Bool.and_eq_true] at hends
    cases hgone.symm.trans hends
  have hsame : m.swept g = m := by
    rw [Memory.swept, hnone]
    rfl
  have hrun := run_sweep h.coherent
  rw [hnone, hsame] at hrun
  exact ⟨_, hrun⟩

end Sweep

open Drain Program

/-- Whatever a store holds, a sweep of a graph leaves the edges whose two ends are live, as they
were, and nothing else of it changes. It counts the edges that go, and lists in order the live
vertices that have no edge then. A second sweep finds the same vertices and nothing to remove. If
the edges that are left are in normal form, no step of a drain that follows is stale. -/
theorem sweep_exact {m : Memory ω} (hm : m.Sound) (g : GraphId) :
    ∃ report m', (Sweep.sweep g).run m = (.ok report, m') ∧
      (m'.store.edges g =
        (m.store.edges g).filter fun p => m.store.live p.1.src && m.store.live p.1.dst) ∧
      (∀ l, m'.store.weight? ⟨g, l⟩ =
        if (m.store.live ⟨g, l.src⟩ && m.store.live ⟨g, l.dst⟩) = true then m.store.weight? ⟨g, l⟩
        else none) ∧
      (m'.store.graph g).clusters = (m.store.graph g).clusters ∧
      (m'.store.graph g).retired = (m.store.graph g).retired ∧
      m'.store.hasGraph g = m.store.hasGraph g ∧
      (∀ g', g' ≠ g → m'.store.part g' = m.store.part g') ∧ m'.ids = m.ids ∧
      report.removed + m'.store.edgeCount g = m.store.edgeCount g ∧
      (report.isolated.Pairwise fun k k' => compare k k' = .lt) ∧
      (∀ k, k ∈ report.isolated ↔ k.graph = g ∧ m'.store.live k = true ∧
        ∀ p ∈ m'.store.edges g, p.1.src ≠ k ∧ p.1.dst ≠ k) ∧
      (Sweep.sweep g).run m' = (.ok ⟨0, report.isolated⟩, m') ∧
      ((∀ p ∈ m'.store.edges g, compare p.1.link.src p.1.link.dst = .lt) → ∀ t : ω,
        (∀ n history m'', (steps g t n).run m' = (.ok history, m'') →
          history.countP Step.isStale = 0) ∧
        ∀ allowance report' m'', (cluster allowance g t).run m' = (.ok report', m'') →
          report'.stale = 0) := by
  have h := (hm g).toCoherent
  have hagain : (Sweep.sweep g).run (m.swept g) =
      (.ok ⟨0, ((m.swept g).store.isolated g).toList.map fun v => ⟨g, v⟩⟩, m.swept g) := by
    rw [Sweep.run_sweep (Memory.coherent_swept h), Memory.dangling_swept h, Memory.swept_swept h]
    rfl
  refine ⟨_, m.swept g, Sweep.run_sweep h, ?_⟩
  dsimp only
  refine ⟨Memory.edges_swept h, Memory.weight?_swept h, Memory.clusters_swept m g g,
    Memory.retired_swept m g g, Memory.hasGraph_swept m g g,
    fun g' hg => Memory.part_swept_of_ne h hg, rfl, Memory.edgeCount_swept h,
    Store.isolated_ascending _ g, fun k => Store.mem_map_isolated (Memory.coherent_swept h), hagain,
    ?_⟩
  intro hnormal t
  have hanchored := Memory.anchored_swept h hnormal
  constructor
  · intro n history m'' hsteps
    exact (run_steps_ok hsteps).countP_isStale hanchored
  · exact fun allowance report' m'' hcluster => stale_of_anchored hcluster hanchored

/-- In the untidy store vertex 2 is removed. A sweep removes its two edges and the two others that
have lost an end. The edge from vertex 3 to itself stays, so only vertex 1 is isolated. -/
theorem untidy_swept :
    let m := ((Call.removeVertex ⟨⟨⟨1⟩⟩, ⟨⟨2⟩⟩⟩).perform untidy).2
    m.Sound ∧ ∃ m', (Sweep.sweep ⟨⟨1⟩⟩).run m = (.ok ⟨4, [⟨⟨⟨1⟩⟩, ⟨⟨1⟩⟩⟩]⟩, m') ∧
      m'.store.edgeCount ⟨⟨1⟩⟩ = 1 ∧
      (Sweep.sweep ⟨⟨1⟩⟩).run m' = (.ok ⟨0, [⟨⟨⟨1⟩⟩, ⟨⟨1⟩⟩⟩]⟩, m') := by
  intro m
  have hm : m.Sound := Call.perform_sound _ untidy_sound
  have hreport : ((Sweep.sweep ⟨⟨1⟩⟩).run m).1.meets
      (fun report => decide (report = ⟨4, [⟨⟨⟨1⟩⟩, ⟨⟨1⟩⟩⟩]⟩)) = true := by decide +kernel
  have hedges : m.store.edgeCount ⟨⟨1⟩⟩ = 5 := by decide +kernel
  obtain ⟨report, m', hrun, -, -, -, -, -, -, -, hcount, -, -, hagain, -⟩ := sweep_exact hm ⟨⟨1⟩⟩
  rw [hrun] at hreport
  cases of_decide_eq_true hreport
  exact ⟨hm, m', hrun, by simp only at hcount; omega, hagain⟩

end RecordLinkage
