import RecordLinkage.Entity

namespace RecordLinkage

abbrev Features (ω : Type) := List (List ω)

abbrev Extractor (ω : Type) :=
  Entity → Entity → PropertyIndex → Outcome (ScoringError ω) (Features ω)

/-- How two sets of values meet: the sizes of their intersection and of their union. -/
structure Overlap where
  shared : Nat
  total : Nat
  deriving DecidableEq, Repr

namespace Overlap

def ofSets (a b : SortedSet String) : Overlap :=
  ⟨(SortedSet.inter a b).size, (SortedSet.union a b).size⟩

/-- A property that an entity lacks has no values. -/
def ofEntities (a b : Entity) (p : PropertyId) : Overlap :=
  ofSets ((a.values? p).getD ∅) ((b.values? p).getD ∅)

def exact (o : Overlap) : Bool := decide (0 < o.shared)

/-- Two columns: 1 if a value is shared, and the shared part of all values, 0 if there are none. -/
def row (o : Overlap) : List Binary64 :=
  [if o.exact then .ofNat 1 else .zero,
   if o.total = 0 then .zero else .ofRatio o.shared o.total]

end Overlap

def overlaps (a b : Entity) (index : PropertyIndex) : List Overlap :=
  index.properties.map (Overlap.ofEntities a b)

def overlapFeatures : Extractor Binary64 := fun a b index => .ok ((overlaps a b index).map Overlap.row)

end RecordLinkage
