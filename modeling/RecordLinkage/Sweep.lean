import RecordLinkage.Program

namespace RecordLinkage

/-- What a sweep found. Isolated vertices are live and have no edge; they are left alone. -/
structure SweepReport where
  removed : Nat
  isolated : List VertexKey
  deriving DecidableEq, Repr

namespace Sweep

open Program

variable {ω : Type} [Weight ω]

/-- Goes through edges, removing those with an end that is not in `live`. Counts what it removes and
collects the ends of what it keeps. -/
def overEdges (live : SortedSet VertexId) :
    List (Edge × ω) → Nat → SortedSet VertexId → Program ω (Nat × SortedSet VertexId)
  | [], removed, connected => return (removed, connected)
  | (e, _) :: rest, removed, connected => do
    if live.contains e.link.src && live.contains e.link.dst then
      overEdges live rest removed ((connected.insert e.link.src).insert e.link.dst)
    else
      let removedNow ← removeEdge e
      overEdges live rest (if removedNow then removed + 1 else removed) connected

def sweep (g : GraphId) : Program ω SweepReport := do
  let live : SortedSet VertexId := .ofList ((← clusters g).map fun p => p.1.vertex)
  let (removed, connected) ← overEdges live (← edges g) 0 ∅
  return ⟨removed, (SortedSet.diff live connected).toList.map fun v => ⟨g, v⟩⟩

end Sweep

def Memory.sweep {ω : Type} [Weight ω] (m : Memory ω) (g : GraphId) :
    Outcome (Error ω) SweepReport × Memory ω :=
  (Sweep.sweep g).run m

end RecordLinkage
