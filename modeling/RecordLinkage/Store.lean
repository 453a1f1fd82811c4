import RecordLinkage.Graph.Basic
import RecordLinkage.Error
import RecordLinkage.Uuid.Source

namespace RecordLinkage

/-- Many linking graphs that never meet. A graph appears when something is written to it. -/
structure Store (ω : Type) [Weight ω] where
  graphs : SortedMap GraphId (Graph ω)
  deriving DecidableEq, Repr

structure Memory (ω : Type) [Weight ω] where
  store : Store ω
  ids : IdSource
  deriving DecidableEq, Repr

namespace Store

variable {ω : Type} [Weight ω]

def empty : Store ω := ⟨∅⟩

instance : EmptyCollection (Store ω) := ⟨empty⟩

/-- The graph as it is read; one that was never written to is empty. -/
def graph (s : Store ω) (g : GraphId) : Graph ω := (SortedMap.get? s.graphs g).getD ∅

def hasGraph (s : Store ω) (g : GraphId) : Bool := s.graphs.contains g

def setGraph (s : Store ω) (g : GraphId) (G : Graph ω) : Store ω := ⟨SortedMap.put s.graphs g G⟩

def graphCount (s : Store ω) : Nat := s.graphs.size

/-- Forgets a graph with its retired vertices; tells whether it was there. -/
def clear (s : Store ω) (g : GraphId) : Bool × Store ω := (s.hasGraph g, ⟨s.graphs.erase g⟩)

/-- The vertex of one entity, made when it is new. A retired one is handed out but not revived. -/
def singleton (s : Store ω) (g : GraphId) (e : EntityKey) : VertexKey × Store ω :=
  let v := e.singletonId g
  (⟨g, v⟩, s.setGraph g ((s.graph g).ensure v e))

def cluster? (s : Store ω) (k : VertexKey) : Option (Cluster ω) := (s.graph k.graph).cluster? k.vertex

def live (s : Store ω) (k : VertexKey) : Bool := (s.graph k.graph).live k.vertex

def clusters (s : Store ω) (g : GraphId) : List (VertexKey × Cluster ω) :=
  (s.graph g).clusters.toList.map fun p => (⟨g, p.1⟩, p.2)

/-- Retires a vertex; tells whether it was live. In a graph that is not there nothing happens. -/
def removeVertex (s : Store ω) (k : VertexKey) : Bool × Store ω :=
  if s.hasGraph k.graph then
    (s.live k, s.setGraph k.graph ((s.graph k.graph).retire k.vertex))
  else (false, s)

def checkWeight (w : ω) : Except (StoreError ω) Unit :=
  if Weight.storable w then .ok () else .error (.invalidWeight w)

def putEdge (s : Store ω) (e : Edge) (w : ω) : Except (StoreError ω) (Store ω) := do
  checkWeight w
  pure (s.setGraph e.graph ((s.graph e.graph).putLink e.link w))

def weight? (s : Store ω) (e : Edge) : Option ω := (s.graph e.graph).edges.weight? e.link

def removeEdge (s : Store ω) (e : Edge) : Bool × Store ω :=
  if (s.weight? e).isSome then (true, s.setGraph e.graph ((s.graph e.graph).eraseLink e.link))
  else (false, s)

def lightest? (s : Store ω) (g : GraphId) : Option (Edge × ω) :=
  (s.graph g).edges.lightest?.map fun p => (⟨g, p.2⟩, p.1)

def edges (s : Store ω) (g : GraphId) : List (Edge × ω) :=
  (s.graph g).edges.byWeight.toList.map fun p => (⟨g, p.2⟩, p.1)

def edgeCount (s : Store ω) (g : GraphId) : Nat := (s.graph g).edges.size

def destinations (s : Store ω) (k : VertexKey) : SortedMap VertexId ω :=
  (s.graph k.graph).edges.destinations k.vertex

def sources (s : Store ω) (k : VertexKey) : SortedMap VertexId ω :=
  (s.graph k.graph).edges.sources k.vertex

end Store

/-- The neighbours of `v` from both sides. One that is on both sides keeps its lesser weight. -/
def joinSides {ω : Type} [Weight ω] (v : VertexId) (destinations sources : SortedMap VertexId ω) :
    SortedMap VertexId ω :=
  (sources.toList.foldl
    (fun m p => SortedMap.alter m p.1 fun old =>
      some (match old with
        | some w => Weight.min w p.2
        | none => p.2))
    destinations).erase v

def Store.neighbors {ω : Type} [Weight ω] (s : Store ω) (k : VertexKey) : SortedMap VertexId ω :=
  joinSides k.vertex (s.destinations k) (s.sources k)

def Edge.between {ω : Type} (a b : VertexKey) : Except (StoreError ω) Edge :=
  if a.graph ≠ b.graph then .error (.graphMismatch a.graph b.graph)
  else
    match Link.between? a.vertex b.vertex with
    | some l => .ok ⟨a.graph, l⟩
    | none => .error (.selfLoop a)

namespace Memory

variable {ω : Type} [Weight ω]

def mergeable (s : Store ω) (a b : VertexKey) (w : ω) :
    Except (StoreError ω) (Cluster ω × Cluster ω) := do
  if a.graph ≠ b.graph then throw (.graphMismatch a.graph b.graph)
  if a = b then throw (.selfLoop a)
  Store.checkWeight w
  match s.cluster? a, s.cluster? b with
  | none, _ => throw (.vertexNotFound a)
  | _, none => throw (.vertexNotFound b)
  | some x, some y => pure (x, y)

/-- Makes the union of two live clusters under a fresh identifier. The clusters stay live, and no
edge changes. Nothing is drawn when the merge is refused. -/
def merge (m : Memory ω) (a b : VertexKey) (w : ω) :
    Except (StoreError ω) VertexKey × Memory ω :=
  match mergeable m.store a b w with
  | .error e => (.error e, m)
  | .ok (x, y) =>
    let G := m.store.graph a.graph
    match m.ids.drawFree (fun u => G.taken ⟨u⟩) (G.clusters.size + G.retired.size) with
    | none => (.error (.backend "no unused vertex id"), m)
    | some (u, ids) => (.ok ⟨a.graph, ⟨u⟩⟩, ⟨m.store.setGraph a.graph (G.adjoin ⟨u⟩ x y w), ids⟩)

end Memory

end RecordLinkage
