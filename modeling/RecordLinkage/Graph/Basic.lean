import RecordLinkage.Graph.Cluster
import RecordLinkage.Graph.EdgeIndex

namespace RecordLinkage

/-- One linking graph: its live clusters, the vertices that were removed, and its links. -/
structure Graph (ω : Type) [Weight ω] where
  clusters : SortedMap VertexId (Cluster ω)
  retired : SortedSet VertexId
  edges : EdgeIndex ω
  deriving DecidableEq, Repr

namespace Graph

variable {ω : Type} [Weight ω]

def empty : Graph ω := ⟨∅, ∅, ∅⟩

instance : EmptyCollection (Graph ω) := ⟨empty⟩

def cluster? (G : Graph ω) (v : VertexId) : Option (Cluster ω) := SortedMap.get? G.clusters v

def live (G : Graph ω) (v : VertexId) : Bool := G.clusters.contains v

/-- An identifier that is live or retired cannot be given to a new cluster. -/
def taken (G : Graph ω) (v : VertexId) : Bool := G.live v || G.retired.contains v

/-- Makes the cluster of one entity at `v`, unless `v` is live or retired. -/
def ensure (G : Graph ω) (v : VertexId) (e : EntityKey) : Graph ω :=
  if G.taken v then G else { G with clusters := SortedMap.put G.clusters v (.singleton e) }

/-- Adds the union of two clusters at `v`. The clusters and their links stay. -/
def adjoin (G : Graph ω) (v : VertexId) (a b : Cluster ω) (w : ω) : Graph ω :=
  { G with clusters := SortedMap.put G.clusters v (.merged a b w) }

/-- Removes a vertex for good. Its links stay. -/
def retire (G : Graph ω) (v : VertexId) : Graph ω :=
  { G with clusters := G.clusters.erase v, retired := G.retired.insert v }

def putLink (G : Graph ω) (l : Link) (w : ω) : Graph ω := { G with edges := G.edges.put l w }

def eraseLink (G : Graph ω) (l : Link) : Graph ω := { G with edges := G.edges.erase l }

end Graph

end RecordLinkage
