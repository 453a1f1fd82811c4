import RecordLinkage.Proofs.Graph.Distance
import RecordLinkage.Proofs.Sorted.Ext
import RecordLinkage.Proofs.Store.Request

namespace RecordLinkage

/-- A graph that keeps no index: its live clusters, its retired vertices, and one weight for each of
its links. -/
structure PlainGraph (ω : Type) where
  clusters : SortedMap VertexId (Cluster ω)
  retired : SortedSet VertexId
  weights : SortedMap Link ω

/-- The reference for a store. It answers by looking through all links of a graph. -/
structure PlainStore (ω : Type) where
  graphs : SortedMap GraphId (PlainGraph ω)
  ids : IdSource

namespace PlainGraph

variable {ω : Type}

def empty : PlainGraph ω := ⟨∅, ∅, ∅⟩

instance : EmptyCollection (PlainGraph ω) := ⟨empty⟩

def taken (P : PlainGraph ω) (v : VertexId) : Bool := P.clusters.contains v || P.retired.contains v

def scan (P : PlainGraph ω) (end? : Link → Option VertexId) : SortedMap VertexId ω :=
  .ofList (P.weights.toList.filterMap fun p => (end? p.1).map fun u => (u, p.2))

def ranked [Weight ω] (P : PlainGraph ω) : List (ω × Link) :=
  (P.weights.toList.map Prod.swap).mergeSort fun p q => (compare p q).isLE

end PlainGraph

namespace PlainStore

variable {ω : Type}

def graph (s : PlainStore ω) (g : GraphId) : PlainGraph ω := (SortedMap.get? s.graphs g).getD ∅

def setGraph (s : PlainStore ω) (g : GraphId) (P : PlainGraph ω) : PlainStore ω :=
  { s with graphs := SortedMap.put s.graphs g P }

def cluster? (s : PlainStore ω) (k : VertexKey) : Option (Cluster ω) :=
  SortedMap.get? (s.graph k.graph).clusters k.vertex

def weight? (s : PlainStore ω) (e : Edge) : Option ω :=
  SortedMap.get? (s.graph e.graph).weights e.link

def scan (s : PlainStore ω) (k : VertexKey) (end? : Link → VertexId → Option VertexId) :
    SortedMap VertexId ω := (s.graph k.graph).scan (end? · k.vertex)

variable [Weight ω]

def edges (s : PlainStore ω) (g : GraphId) : List (Edge × ω) :=
  (s.graph g).ranked.map fun p => (⟨g, p.2⟩, p.1)

def singleton (s : PlainStore ω) (g : GraphId) (e : EntityKey) : PlainStore ω :=
  let P := s.graph g
  let v := e.singletonId g
  s.setGraph g (if P.taken v then P else
    { P with clusters := SortedMap.put P.clusters v (.singleton e) })

def merge (s : PlainStore ω) (a b : VertexKey) (w : ω) :
    Except (StoreError ω) VertexKey × PlainStore ω :=
  if a.graph ≠ b.graph then (.error (.graphMismatch a.graph b.graph), s)
  else if a = b then (.error (.selfLoop a), s)
  else if !Weight.storable w then (.error (.invalidWeight w), s)
  else
    match s.cluster? a, s.cluster? b with
    | none, _ => (.error (.vertexNotFound a), s)
    | some _, none => (.error (.vertexNotFound b), s)
    | some x, some y =>
      let P := s.graph a.graph
      match s.ids.drawFree (fun u => P.taken ⟨u⟩) (P.clusters.size + P.retired.size) with
      | none => (.error (.backend "no unused vertex id"), s)
      | some (u, ids) =>
        (.ok ⟨a.graph, ⟨u⟩⟩, { s.setGraph a.graph
          { P with clusters := SortedMap.put P.clusters ⟨u⟩ (.merged x y w) } with ids := ids })

def removeVertex (s : PlainStore ω) (k : VertexKey) : PlainStore ω :=
  let P := s.graph k.graph
  if s.graphs.contains k.graph then
    s.setGraph k.graph
      { P with clusters := P.clusters.erase k.vertex, retired := P.retired.insert k.vertex }
  else s

def putEdge (s : PlainStore ω) (e : Edge) (w : ω) : Except (StoreError ω) Unit × PlainStore ω :=
  let P := s.graph e.graph
  if Weight.storable w then
    (.ok (), s.setGraph e.graph { P with weights := SortedMap.put P.weights e.link w })
  else (.error (.invalidWeight w), s)

def removeEdge (s : PlainStore ω) (e : Edge) : PlainStore ω :=
  let P := s.graph e.graph
  if (s.weight? e).isSome then s.setGraph e.graph { P with weights := P.weights.erase e.link }
  else s

end PlainStore

def Link.dst? (l : Link) (v : VertexId) : Option VertexId := if l.src = v then some l.dst else none

def Link.src? (l : Link) (v : VertexId) : Option VertexId := if l.dst = v then some l.src else none

namespace Request

variable {ω : Type} [Weight ω]

def answer : (r : Request ω) → PlainStore ω → Except (StoreError ω) r.Answer × PlainStore ω
  | .call (.singleton g e), s => (.ok ⟨g, e.singletonId g⟩, s.singleton g e)
  | .call (.cluster k), s => (.ok (s.cluster? k), s)
  | .call (.clusters g), s => (.ok ((s.graph g).clusters.toList.map fun p => (⟨g, p.1⟩, p.2)), s)
  | .call (.merge a b w), s => s.merge a b w
  | .call (.removeVertex k), s => (.ok (s.cluster? k).isSome, s.removeVertex k)
  | .call (.putEdge e w), s => s.putEdge e w
  | .call (.weight e), s => (.ok (s.weight? e), s)
  | .call (.removeEdge e), s => (.ok (s.weight? e).isSome, s.removeEdge e)
  | .call (.lightest g), s => (.ok (s.edges g).head?, s)
  | .call (.edges g), s => (.ok (s.edges g), s)
  | .call (.destinations k), s => (.ok (s.scan k Link.dst?), s)
  | .call (.sources k), s => (.ok (s.scan k Link.src?), s)
  | .present k, s => (.ok (s.cluster? k).isSome, s)
  | .neighbors k, s => (.ok (s.scan k Link.other?), s)
  | .graphCount, s => (.ok s.graphs.size, s)
  | .clear g, s => (.ok (s.graphs.contains g), { s with graphs := s.graphs.erase g })

def answerAll (s : PlainStore ω) (rs : List (Request ω)) : PlainStore ω :=
  rs.foldl (fun s r => (r.answer s).2) s

end Request

namespace Link

variable {l : Link} {u v : VertexId}

theorem dst?_eq_some : l.dst? v = some u ↔ l = ⟨v, u⟩ := by
  obtain ⟨a, b⟩ := l
  simp [dst?]

theorem src?_eq_some : l.src? v = some u ↔ l = ⟨u, v⟩ := by
  obtain ⟨a, b⟩ := l
  rw [src?, Link.mk.injEq, and_comm]
  simp

theorem other?_eq_some (h : compare l.src l.dst = .lt) :
    l.other? v = some u ↔ between? v u = some l := by
  rw [other?, between?_eq_iff (between?_ends h)]
  have hne := SortKey.ne_of_lt h
  by_cases hsrc : v = l.src
  · rw [if_pos hsrc, hsrc]
    simp [hne, eq_comm]
  · rw [if_neg hsrc]
    by_cases hdst : v = l.dst
    · rw [if_pos hdst, hdst]
      simp [hne.symm, eq_comm]
    · rw [if_neg hdst]
      simp [hsrc, hdst]

end Link

namespace PlainGraph

variable {ω : Type} {P : PlainGraph ω} {end? : Link → Option VertexId}

/-- Where no two links lead to one vertex, a scan gives each vertex the weight of its link. -/
theorem scan_eq {Q : Link → Prop} {m : SortedMap VertexId ω}
    (hQ : ∀ l w, SortedMap.get? P.weights l = some w → Q l)
    (hend : ∀ l l' u, Q l → Q l' → end? l = some u → end? l' = some u → l = l')
    (hm : ∀ u w, SortedMap.get? m u = some w ↔
      ∃ l, end? l = some u ∧ SortedMap.get? P.weights l = some w) : P.scan end? = m := by
  -- No vertex is met twice, so that the scan makes a map without losing anything.
  have hd : (P.weights.toList.filterMap fun p => (end? p.1).map fun u => (u, p.2)).Pairwise
      fun p q => p.1 ≠ q.1 := by
    apply List.pairwise_filterMap.mpr
    refine P.weights.keys_distinct.imp_of_mem ?_
    intro p q hp hq hne x hx y hy hxy
    obtain ⟨u, hu, rfl⟩ := Option.map_eq_some_iff.mp hx
    obtain ⟨u', hu', rfl⟩ := Option.map_eq_some_iff.mp hy
    obtain rfl : u = u' := hxy
    have hp := hQ _ _ (SortedMap.mem_toList.mp hp)
    have hq := hQ _ _ (SortedMap.mem_toList.mp hq)
    exact hne (hend _ _ u hp hq hu hu')
  apply SortedMap.ext_get?
  intro u
  apply Option.ext
  intro w
  rw [scan, SortedMap.get?_ofList_eq_some hd, List.mem_filterMap, hm]
  constructor
  · rintro ⟨p, hp, h⟩
    obtain ⟨u', hu', h⟩ := Option.map_eq_some_iff.mp h
    cases h
    exact ⟨p.1, hu', SortedMap.mem_toList.mp hp⟩
  · rintro ⟨l, hu, hl⟩
    exact ⟨(l, w), SortedMap.mem_toList.mpr hl, by rw [hu]; rfl⟩

end PlainGraph

variable {ω : Type} [Weight ω]

def Graph.plain (G : Graph ω) : PlainGraph ω := ⟨G.clusters, G.retired, G.edges.weights⟩

/-- The index by weight is the sorted list of all links. -/
theorem EdgeIndex.Coherent.ranked {G : Graph ω} (h : G.edges.Coherent) :
    G.plain.ranked = G.edges.byWeight.toList := by
  have hperm : (G.plain.weights.toList.map Prod.swap).Perm G.edges.byWeight.toList :=
    h.byWeight_perm.symm
  have hsorted : G.plain.ranked.Pairwise fun p q => (compare p q).isLE = true := by
    apply List.pairwise_mergeSort
    · exact fun _ _ _ => Std.TransCmp.isLE_trans
    · intro p q
      rw [@Std.OrientedCmp.eq_swap _ compare _ q p]
      cases compare p q <;> rfl
  have hascending : G.edges.byWeight.toList.Pairwise fun p q => (compare p q).isLE = true :=
    G.edges.byWeight.ascending.imp fun hlt => congrArg Ordering.isLE hlt
  refine List.Perm.eq_of_pairwise ?_ hsorted hascending ((List.mergeSort_perm _ _).trans hperm)
  intro p q _ _ hpq hqp
  exact Std.LawfulEqCmp.eq_of_compare (Std.OrientedCmp.isLE_antisymm hpq hqp)

namespace Graph.Canonical

variable {G : Graph ω} (h : G.Canonical) (v u : VertexId)
include h

theorem get?_destinations :
    SortedMap.get? (G.edges.destinations v) u = G.edges.weight? ⟨v, u⟩ := by
  classical
  rw [EdgeIndex.destinations, get?_adjacent]
  cases hw : G.edges.weight? ⟨v, u⟩ with
  | none => rw [if_neg (by rw [h.coherent.outgoing, hw]; exact Bool.false_ne_true)]
  | some w => rw [if_pos (by rw [h.coherent.outgoing, hw]; rfl), h.distance?_ends hw]

theorem get?_sources : SortedMap.get? (G.edges.sources v) u = G.edges.weight? ⟨u, v⟩ := by
  classical
  rw [EdgeIndex.sources, get?_adjacent]
  cases hw : G.edges.weight? ⟨u, v⟩ with
  | none => rw [if_neg (by rw [h.coherent.incoming, hw]; exact Bool.false_ne_true)]
  | some w =>
    rw [if_pos (by rw [h.coherent.incoming, hw]; rfl), distance?_comm, h.distance?_ends hw]

theorem scan_dst? : G.plain.scan (·.dst? v) = G.edges.destinations v := by
  refine PlainGraph.scan_eq h.normal ?_ fun u w => ?_
  · intro l l' u _ _ hl hl'
    rw [Link.dst?_eq_some.mp hl, Link.dst?_eq_some.mp hl']
  · rw [h.get?_destinations]
    simp only [Link.dst?_eq_some, exists_eq_left]
    rfl

theorem scan_src? : G.plain.scan (·.src? v) = G.edges.sources v := by
  refine PlainGraph.scan_eq h.normal ?_ fun u w => ?_
  · intro l l' u _ _ hl hl'
    rw [Link.src?_eq_some.mp hl, Link.src?_eq_some.mp hl']
  · rw [h.get?_sources]
    simp only [Link.src?_eq_some, exists_eq_left]
    rfl

theorem scan_other? : G.plain.scan (·.other? v) = G.neighbors v := by
  refine PlainGraph.scan_eq h.normal ?_ fun u w => ?_
  · intro l l' u hl hl' hu hu'
    rw [Link.other?_eq_some hl] at hu
    rw [Link.other?_eq_some hl'] at hu'
    exact Option.some.inj (hu.symm.trans hu')
  · rw [h.get?_neighbors, distance?, Option.bind_eq_some_iff]
    apply exists_congr
    intro l
    apply and_congr_left
    intro hl
    exact (Link.other?_eq_some (h.normal l w hl)).symm

end Graph.Canonical

end RecordLinkage
