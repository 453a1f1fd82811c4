import RecordLinkage.Program
import RecordLinkage.Scoring.MinWeight
import RecordLinkage.Scoring.Oracle

namespace RecordLinkage

def defaultBias : Binary64 := .ofDecimal false ⟨4, -1⟩

/-- How pairs are scored: features, then the oracle, then a constant on top. -/
structure Scorer (ω : Type) where
  extract : Extractor ω
  oracle : Oracle ω
  bias : ω

inductive PairOutcome (ω : Type) where
  | singleton (vertex : VertexKey)
  | edge (edge : Edge) (weight : ω)
  deriving DecidableEq, Repr

/-- The running figures of a scorer: the least weight and the number of the edges it wrote. -/
structure Tally (ω : Type) where
  least : MinWeight ω
  edges : Nat
  deriving DecidableEq, Repr

namespace Tally

variable {ω : Type} [Weight ω]

def empty : Tally ω := ⟨.empty, 0⟩

def record (t : Tally ω) : PairOutcome ω → Tally ω
  | .singleton _ => t
  | .edge _ w => ⟨t.least.observe w, t.edges + 1⟩

/-- Only a pair that was recorded counts. -/
def after (t : Tally ω) : Outcome (Error ω) (PairOutcome ω) → Tally ω
  | .ok r => t.record r
  | _ => t

end Tally

namespace Scorer

open Program

variable {ω : Type} [Weight ω]

def withBias (extract : Extractor ω) (oracle : Oracle ω) (bias : ω) :
    Except (ValidationError ω) (Scorer ω) :=
  if Weight.storable bias then .ok ⟨extract, oracle, bias⟩ else .error (.bias bias)

/-- The vertex of one entity, which must not have been merged away. -/
def liveSingleton (g : GraphId) (e : EntityKey) : Program ω VertexKey := do
  let k ← singleton g e
  if ← live k then return k else fail (.store (.vertexNotFound k))

def ofScoring {α : Type} (r : Outcome (ScoringError ω) α) : Program ω α :=
  .done (r.mapError Error.scoring)

def weigh (s : Scorer ω) (a b : Entity) (index : PropertyIndex) :
    Outcome (ScoringError ω) ω := do
  let score ← s.oracle (← s.extract a b index)
  let w := Weight.add score s.bias
  if Weight.storable w then return w else .error (.invalidScore score)

/-- Scores two entities and stores the result: both vertices, then the edge between them. For one
entity with itself only its vertex is made sure of. -/
def record (s : Scorer ω) (g : GraphId) (a : EntityKey) (entityA : Entity) (b : EntityKey)
    (entityB : Entity) (index : PropertyIndex) : Program ω (PairOutcome ω) := do
  if a = b then
    return .singleton (← liveSingleton g a)
  else
    let x ← liveSingleton g a
    let y ← liveSingleton g b
    let w ← ofScoring (s.weigh entityA entityB index)
    let e ← ofStore (Edge.between x y)
    putEdge e w
    return .edge e w

end Scorer

end RecordLinkage
