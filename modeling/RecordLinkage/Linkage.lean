import RecordLinkage.Sorted.Map
import RecordLinkage.Key
import RecordLinkage.Weight

namespace RecordLinkage

variable {ω : Type} [Weight ω]

/-- The weight between a vertex and the union of two clusters joined at weight `w`. The vertex lies
at `a` from the one and at `b` from the other. From a side it does not touch it is reached through
the other side at the cost of `w`. Each distance is tightened that way, and the looser one holds. -/
def linkage (a b : Option ω) (w : ω) : Option ω :=
  match a, b with
  | none, none => none
  | none, some b => some (Weight.max (Weight.add b w) b)
  | some a, none => some (Weight.max a (Weight.add a w))
  | some a, some b =>
    some (Weight.max (Weight.min a (Weight.add b w)) (Weight.min (Weight.add a w) b))

/-- The weights to the union, for every vertex that touches one of its parts. -/
def relinked (fromA fromB : SortedMap VertexId ω) (w : ω) : SortedMap VertexId ω :=
  .ofList ((SortedSet.union (.ofList (SortedMap.keys fromA)) (.ofList (SortedMap.keys fromB))).toList
    |>.filterMap fun v =>
      (linkage (SortedMap.get? fromA v) (SortedMap.get? fromB v) w).map fun x => (v, x))

end RecordLinkage
