import RecordLinkage.Linkage
import RecordLinkage.Program

namespace RecordLinkage

/-- Edges at or above this weight are not merged, unless another threshold is chosen. -/
def defaultThreshold : Binary64 := .ofDecimal false ⟨1, -1⟩

/-- Whether a graph may still hold edges below the threshold. -/
inductive DrainState where
  | draining
  | done
  deriving DecidableEq, Repr

/-- Why draining stops: no edge is left, or the lightest is at or above the threshold. -/
inductive StopReason (ω : Type) where
  | exhausted
  | thresholdReached (weight : ω)
  deriving DecidableEq, Repr

structure Merge (ω : Type) where
  a : VertexKey
  b : VertexKey
  merged : VertexKey
  weight : ω
  relinked : Nat
  deriving DecidableEq, Repr

inductive Step (ω : Type) where
  | merged (merge : Merge ω)
  | stale (edge : Edge)
  | done (reason : StopReason ω)
  deriving DecidableEq, Repr

def Step.state {ω : Type} : Step ω → DrainState
  | .done _ => .done
  | _ => .draining

/-- The summary of a drain: the clusters that are left are final. -/
structure DrainReport (ω : Type) where
  graph : GraphId
  threshold : ω
  merges : Nat
  stale : Nat
  stop : StopReason ω
  clusters : List (VertexKey × Cluster ω)
  deriving DecidableEq, Repr

namespace Drain

open Program

variable {ω : Type} [Weight ω]

def checkThreshold (t : ω) : Program ω Unit :=
  if Weight.bounding t then pure () else fail (.validation (.threshold t))

def edgeWithin (g : GraphId) (a b : VertexId) : Program ω Edge := ofStore (Edge.between ⟨g, a⟩ ⟨g, b⟩)

/-- Removes the edges between `v` and its former neighbours, here in ascending order. Any other order
leaves the same: the removal of one edge does not see the others. -/
def unlink (g : GraphId) (v : VertexId) (neighbors : List VertexId) : Program ω Unit :=
  neighbors.forM fun u => do discard (removeEdge (← edgeWithin g v u))

/-- Links the union to the neighbours of its parts, removes all that it supersedes, and retires the
parts. -/
def replaceParts (e : Edge) (merged : VertexId) (links fromA fromB : SortedMap VertexId ω) :
    Program ω Unit := do
  links.toList.forM fun p => do putEdge (← edgeWithin e.graph merged p.1) p.2
  unlink e.graph e.link.src (SortedMap.keys fromA)
  unlink e.graph e.link.dst (SortedMap.keys fromB)
  discard (removeEdge e)
  discard (removeVertex e.src)
  discard (removeVertex e.dst)

/-- Joins the ends of an edge. An end that vanished before the union was made leaves the edge stale,
and only the edge is removed. -/
def merge (e : Edge) (w : ω) : Program ω (Step ω) := do
  let fromA := (← neighbors e.src).erase e.link.dst
  let fromB := (← neighbors e.dst).erase e.link.src
  let links := relinked fromA fromB w
  .ask (.merge e.src e.dst w) fun
    | .ok merged => do
      replaceParts e merged.vertex links fromA fromB
      return .merged ⟨e.src, e.dst, merged, w, links.size⟩
    | .error (.vertexNotFound _) => do
      discard (removeEdge e)
      return .stale e
    | .error cause => fail (.store cause)
    | .crash => .done .crash

/-- Takes the lightest edge: merges its ends, or removes it if an end is gone, or stops. -/
def step (g : GraphId) (t : ω) : Program ω (Step ω) := do
  checkThreshold t
  match ← lightest? g with
  | none => return .done .exhausted
  | some (e, w) =>
    if !Weight.lt w t then return .done (.thresholdReached w)
    else
      let srcLive ← live e.src
      let dstLive ← if srcLive then live e.dst else pure false
      if dstLive then merge e w
      else
        discard (removeEdge e)
        return .stale e

/-- Steps until there is nothing left to merge, counting merges and stale edges. At most `allowance`
steps are made. -/
def loop (g : GraphId) (t : ω) : Nat → Nat → Nat → Program ω (Nat × Nat × StopReason ω)
  | 0, _, _ => fail (.internal "a drain used up its steps")
  | allowance + 1, merges, stale => do
    match ← step g t with
    | .merged _ => loop g t allowance (merges + 1) stale
    | .stale _ => loop g t allowance merges (stale + 1)
    | .done reason => return (merges, stale, reason)

def cluster (allowance : Nat) (g : GraphId) (t : ω) : Program ω (DrainReport ω) := do
  checkThreshold t
  let (merges, stale, stop) ← loop g t allowance 0 0
  return ⟨g, t, merges, stale, stop, ← clusters g⟩

end Drain

namespace Memory

variable {ω : Type} [Weight ω]

def step (m : Memory ω) (g : GraphId) (t : ω) : Outcome (Error ω) (Step ω) × Memory ω :=
  (Drain.step g t).run m

/-- Drains a graph while nobody else acts on it. Every step but the last removes an edge, so one
step more than there are edges is enough. -/
def cluster (m : Memory ω) (g : GraphId) (t : ω) :
    Outcome (Error ω) (DrainReport ω) × Memory ω :=
  (Drain.cluster (m.store.edgeCount g + 1) g t).run m

end Memory

end RecordLinkage
