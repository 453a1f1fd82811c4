import RecordLinkage.Key
import RecordLinkage.Weight
import RecordLinkage.Sorted.Map

namespace RecordLinkage

/-- A vertex of a linking graph: entities believed to be one, and the weight at which they were
joined. -/
structure Cluster (ω : Type) where
  diameter : ω
  members : SortedSet EntityKey
  deriving DecidableEq, Repr

namespace Cluster

variable {ω : Type}

def singleton [Weight ω] (e : EntityKey) : Cluster ω := ⟨Weight.zero, .ofList [e]⟩

def merged (a b : Cluster ω) (w : ω) : Cluster ω := ⟨w, SortedSet.union a.members b.members⟩

/-- Equality with diameters compared as numbers. -/
def same (a b : Cluster Binary64) : Bool :=
  a.diameter.same b.diameter && decide (a.members = b.members)

end Cluster

end RecordLinkage
