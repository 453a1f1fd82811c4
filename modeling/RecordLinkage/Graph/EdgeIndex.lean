import RecordLinkage.Graph.Edge
import RecordLinkage.Weight
import RecordLinkage.Sorted.Map

namespace RecordLinkage

/-- The weighted links of one graph, indexed for reading by link, by weight and from either end. -/
structure EdgeIndex (ω : Type) [Weight ω] where
  weights : SortedMap Link ω
  /-- Every weighted link once, lightest first; links of one weight in their own order. -/
  byWeight : SortedSet (ω × Link)
  /-- The destinations of each source. -/
  outgoing : SortedMap VertexId (SortedSet VertexId)
  /-- The sources of each destination. -/
  incoming : SortedMap VertexId (SortedSet VertexId)
  deriving DecidableEq, Repr

namespace EdgeIndex

variable {ω : Type} [Weight ω]

def empty : EdgeIndex ω := ⟨∅, ∅, ∅, ∅⟩

instance : EmptyCollection (EdgeIndex ω) := ⟨empty⟩

def size (x : EdgeIndex ω) : Nat := x.weights.size

def weight? (x : EdgeIndex ω) (l : Link) : Option ω := SortedMap.get? x.weights l

def join (m : SortedMap VertexId (SortedSet VertexId)) (a b : VertexId) :
    SortedMap VertexId (SortedSet VertexId) :=
  SortedMap.alter m a fun s => some ((s.getD ∅).insert b)

/-- Removes `b` from the set at `a`, and the set itself when nothing is left in it. -/
def part (m : SortedMap VertexId (SortedSet VertexId)) (a b : VertexId) :
    SortedMap VertexId (SortedSet VertexId) :=
  SortedMap.alter m a fun s => s.bind fun s =>
    let s := s.erase b
    if s.isEmpty then none else some s

/-- Drops the entry of a link under an earlier weight. -/
def unweigh (s : SortedSet (ω × Link)) (l : Link) (old : Option ω) : SortedSet (ω × Link) :=
  match old with
  | some w => s.erase (w, l)
  | none => s

def put (x : EdgeIndex ω) (l : Link) (w : ω) : EdgeIndex ω where
  weights := SortedMap.put x.weights l w
  byWeight := (unweigh x.byWeight l (x.weight? l)).insert (w, l)
  outgoing := join x.outgoing l.src l.dst
  incoming := join x.incoming l.dst l.src

/-- Removes a link; without it nothing changes. -/
def erase (x : EdgeIndex ω) (l : Link) : EdgeIndex ω :=
  match x.weight? l with
  | none => x
  | some w =>
    { weights := x.weights.erase l
      byWeight := x.byWeight.erase (w, l)
      outgoing := part x.outgoing l.src l.dst
      incoming := part x.incoming l.dst l.src }

def lightest? (x : EdgeIndex ω) : Option (ω × Link) := x.byWeight.toList.head?

/-- The weights of the links in normal form between `v` and the vertices that an index lists under
it. A listed link that is not in normal form is passed over, unless its normal form is stored too. -/
def adjacent (x : EdgeIndex ω) (index : SortedMap VertexId (SortedSet VertexId)) (v : VertexId) :
    SortedMap VertexId ω :=
  .ofList (((SortedMap.get? index v).getD ∅).toList.filterMap fun u =>
    (Link.between? v u).bind fun l => (x.weight? l).map fun w => (u, w))

def destinations (x : EdgeIndex ω) (v : VertexId) : SortedMap VertexId ω :=
  x.adjacent x.outgoing v

def sources (x : EdgeIndex ω) (v : VertexId) : SortedMap VertexId ω := x.adjacent x.incoming v

end EdgeIndex

end RecordLinkage
