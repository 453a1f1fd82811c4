import RecordLinkage.Proofs.Store.Vertices
import RecordLinkage.Proofs.Uuid.Drawn

namespace RecordLinkage

variable {ω : Type} [Weight ω]

namespace Store

/-- What a store holds of a graph; nothing, unless something was written to it. -/
def part (s : Store ω) (g : GraphId) : Option (Graph ω) := SortedMap.get? s.graphs g

theorem graph_eq (s : Store ω) (g : GraphId) : s.graph g = (s.part g).getD ∅ := rfl

theorem hasGraph_eq (s : Store ω) (g : GraphId) : s.hasGraph g = (s.part g).isSome :=
  (SortedMap.get?_isSome s.graphs g).symm

theorem part_setGraph (s : Store ω) (g : GraphId) (G : Graph ω) (h : GraphId) :
    (s.setGraph g G).part h = if g = h then some G else s.part h :=
  SortedMap.get?_put s.graphs g h G

theorem graph_congr {s s' : Store ω} {g : GraphId} (h : s.part g = s'.part g) :
    s.graph g = s'.graph g := by
  rw [graph_eq, graph_eq, h]

end Store

theorem Memory.mergeable_congr {s s' : Store ω} {a : VertexKey}
    (h : s.graph a.graph = s'.graph a.graph) (b : VertexKey) (w : ω) :
    mergeable s a b w = mergeable s' a b w := by
  unfold mergeable
  by_cases hg : a.graph = b.graph
  · have ha : s.cluster? a = s'.cluster? a := by rw [Store.cluster?, Store.cluster?, h]
    have hb : s.cluster? b = s'.cluster? b := by rw [Store.cluster?, Store.cluster?, ← hg, h]
    rw [ha, hb]
  · rw [if_pos hg, if_pos hg]
    rfl

namespace Call

/-- The graph that a call is about. A merge across graphs is refused, so one of them will do. -/
def home : Call ω → GraphId
  | .singleton g _ | .clusters g | .lightest g | .edges g => g
  | .cluster k | .merge k _ _ | .removeVertex k | .destinations k | .sources k => k.graph
  | .putEdge e _ | .weight e | .removeEdge e => e.graph

/-- Other graphs are left as they are; they do not appear either. -/
theorem part_perform_of_ne (c : Call ω) (m : Memory ω) {g : GraphId} (h : c.home ≠ g) :
    (c.perform m).2.store.part g = m.store.part g := by
  cases c with
  | cluster | clusters | weight | lightest | edges | destinations | sources => rfl
  | singleton g' e => exact (Store.part_setGraph _ _ _ g).trans (if_neg h)
  | merge a b w =>
    simp only [perform]
    rcases hmerge : m.merge a b w with ⟨cause | k, m'⟩
    · rw [Memory.merge_error hmerge]
    · obtain ⟨x, y, -, hstore⟩ := Memory.merge_ok hmerge
      rw [hstore]
      exact (Store.part_setGraph _ _ _ g).trans (if_neg h)
  | removeVertex k =>
    simp only [perform, Store.removeVertex]
    split
    · exact (Store.part_setGraph _ _ _ g).trans (if_neg h)
    · rfl
  | putEdge e w =>
    simp only [perform]
    split
    · rename_i s' hs
      obtain ⟨-, rfl⟩ := Store.putEdge_eq_ok.mp hs
      exact (Store.part_setGraph _ _ _ g).trans (if_neg h)
    · rfl
  | removeEdge e =>
    simp only [perform, Store.removeEdge]
    split
    · exact (Store.part_setGraph _ _ _ g).trans (if_neg h)
    · rfl

/-- A call reads nothing but its graph and, if it merges, the source of identifiers. -/
theorem perform_congr (c : Call ω) (m m' : Memory ω)
    (hpart : m.store.part c.home = m'.store.part c.home) (hids : m.ids = m'.ids) :
    (c.perform m).1 = (c.perform m').1 ∧
      (c.perform m).2.store.part c.home = (c.perform m').2.store.part c.home ∧
      (c.perform m).2.ids = (c.perform m').2.ids := by
  have hgraph := Store.graph_congr hpart
  cases c with
  | cluster | clusters | weight | lightest | edges | destinations | sources =>
    simp only [home] at hgraph
    simp only [perform, Store.cluster?, Store.clusters, Store.weight?, Store.lightest?, Store.edges,
      Store.destinations, Store.sources, hgraph]
    exact ⟨trivial, hpart, hids⟩
  | singleton g e =>
    simp only [home] at hgraph
    simp only [perform, home, Store.singleton, Store.part_setGraph, if_true, hgraph]
    exact ⟨trivial, trivial, hids⟩
  -- Whether the merge is in order and which identifier is drawn depend on nothing else.
  | merge a b w =>
    simp only [home] at hgraph hpart
    simp only [perform, home, Memory.merge, Memory.mergeable_congr hgraph b w, hgraph, hids]
    split
    · exact ⟨rfl, hpart, hids⟩
    · split
      · exact ⟨rfl, hpart, hids⟩
      · simp only [Store.part_setGraph, if_true]
        exact ⟨rfl, trivial, trivial⟩
  | removeVertex k =>
    simp only [home] at hgraph hpart
    simp only [perform, home, Store.removeVertex, Store.hasGraph_eq, Store.live, hpart, hgraph]
    split
    · exact ⟨rfl, by rw [Store.part_setGraph, Store.part_setGraph, if_pos rfl, if_pos rfl], hids⟩
    · exact ⟨rfl, hpart, hids⟩
  | putEdge e w =>
    simp only [home] at hgraph hpart
    cases hw : Weight.storable w with
    | true =>
      have hput (s : Store ω) := (Store.putEdge_eq_ok (s := s) (e := e)).mpr ⟨hw, rfl⟩
      simp only [perform, home, hput, Store.part_setGraph, if_true, hgraph, hids, and_self]
    | false =>
      have hput (s : Store ω) : s.putEdge e w = .error (.invalidWeight w) := by
        rw [Store.putEdge, Store.checkWeight, hw]
        rfl
      simp only [perform, home, hput]
      exact ⟨trivial, hpart, hids⟩
  | removeEdge e =>
    simp only [home] at hgraph hpart
    have hweight : m.store.weight? e = m'.store.weight? e := by
      rw [Store.weight?, Store.weight?, hgraph]
    simp only [perform, home, Store.removeEdge, hweight, hgraph]
    split
    · exact ⟨rfl, by rw [Store.part_setGraph, Store.part_setGraph, if_pos rfl, if_pos rfl], hids⟩
    · exact ⟨rfl, hpart, hids⟩

/-- The identifiers that a call draws. Only a merge that is in order draws any. -/
def drawn (m : Memory ω) : Call ω → List Uuid
  | .merge a b w =>
    match Memory.mergeable m.store a b w with
    | .ok _ =>
      m.ids.drawn (fun u => (m.store.graph a.graph).taken ⟨u⟩)
        ((m.store.graph a.graph).clusters.size + (m.store.graph a.graph).retired.size)
    | .error _ => []
  | _ => []

def starved (m : Memory ω) (c : Call ω) : Bool :=
  match (c.perform m).1 with
  | .error (.backend _) => true
  | _ => false

/-- A call that meets its graph as it was, and a source that starts with the identifiers that it drew
then, does what it did then. -/
theorem perform_listed (c : Call ω) (m m' : Memory ω) (hfed : c.starved m = false)
    (hpart : m'.store.part c.home = m.store.part c.home) (rest : List Uuid) {x : BitVec 64}
    (hids : m'.ids = ⟨c.drawn m ++ rest, x⟩) :
    (c.perform m').1 = (c.perform m).1 ∧
      (c.perform m').2.store.part c.home = (c.perform m).2.store.part c.home ∧
      (c.perform m').2.ids = ⟨rest, x⟩ := by
  -- What is not drawn for does not depend on the source.
  obtain ⟨hanswer, hafter, -⟩ := c.perform_congr ⟨m'.store, m.ids⟩ m hpart rfl
  cases c with
  | merge a b w =>
    have hgraph : m'.store.graph a.graph = m.store.graph a.graph := Store.graph_congr hpart
    simp only [drawn] at hids
    simp only [perform, home, Memory.merge, Memory.mergeable_congr hgraph b w, hgraph]
    cases hmergeable : Memory.mergeable m.store a b w with
    | error cause =>
      rw [hmergeable] at hids
      exact ⟨rfl, hpart, hids⟩
    | ok p =>
      obtain ⟨y, z⟩ := p
      rw [hmergeable] at hids
      cases hdraw : m.ids.drawFree (fun u => (m.store.graph a.graph).taken ⟨u⟩)
          ((m.store.graph a.graph).clusters.size + (m.store.graph a.graph).retired.size) with
      | none =>
        simp only [starved, perform, Memory.merge, hmergeable, hdraw] at hfed
        cases hfed
      | some p =>
        obtain ⟨u, ids⟩ := p
        simp only [hids, IdSource.drawFree_listed hdraw, Store.part_setGraph, if_true]
        exact ⟨rfl, trivial, trivial⟩
  | putEdge e w =>
    refine ⟨?_, ?_, ?_⟩
    · rw [← hanswer]
      simp only [perform]
      cases m'.store.putEdge e w <;> rfl
    · rw [← hafter]
      simp only [perform]
      cases m'.store.putEdge e w <;> rfl
    · simp only [perform]
      cases m'.store.putEdge e w <;> exact hids
  | _ => exact ⟨hanswer, hafter, hids⟩

end Call

end RecordLinkage
