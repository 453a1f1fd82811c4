import RecordLinkage.Scoring.Figures

namespace RecordLinkage

/-- What all pairs of a block share: the versions of its entity sets and the compared properties. -/
structure BlockContext where
  syncs : SyncIds
  index : PropertyIndex
  deriving DecidableEq, Repr

structure PairTask where
  graph : GraphId
  a : EntityKey
  b : EntityKey
  context : BlockContext
  deriving DecidableEq, Repr

namespace PairTask

def selfPair (t : PairTask) : Bool := t.a = t.b

variable {ω : Type}

/-- The entities of a pair. That of a self-pair is read once. -/
def entities (t : PairTask) (source : EntitySource ω) : Outcome (Error ω) (Entity × Entity) := do
  let a ← source.require t.context.syncs t.a
  if t.selfPair then return (a, a)
  return (a, ← source.require t.context.syncs t.b)

variable [Weight ω]

def process (t : PairTask) (source : EntitySource ω) (scorer : Scorer ω) :
    Program ω (PairOutcome ω) := do
  let (a, b) ← Program.done (t.entities source)
  scorer.record t.graph t.a a t.b b t.context.index

/-- The same, with the figures of the scorer. -/
def score (t : PairTask) (source : EntitySource ω) (scorer : Scorer ω) :
    Tallied ω (PairOutcome ω) := do
  let (a, b) ← Tallied.lift (.done (t.entities source))
  scorer.score t.graph t.a a t.b b t.context.index

end PairTask

end RecordLinkage
