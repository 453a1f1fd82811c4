import RecordLinkage.Scoring.Pair

namespace RecordLinkage

/-- A procedure that changes the figures of a scorer on its way. An error or a crash ends it and
leaves the figures as they are by then. -/
def Tallied (ω α : Type) : Type := Tally ω → Program ω (Outcome (Error ω) α × Tally ω)

namespace Tallied

variable {ω α β : Type}

def bind (p : Tallied ω α) (f : α → Tallied ω β) : Tallied ω β := fun t => do
  match ← p t with
  | (.ok a, t) => f a t
  | (.error e, t) => return (.error e, t)
  | (.crash, t) => return (.crash, t)

instance : Monad (Tallied ω) where
  pure a t := return (.ok a, t)
  bind := bind

def lift (p : Program ω α) : Tallied ω α := fun t => return (← p.attempt, t)

def observe [Weight ω] (w : ω) : Tallied ω Unit :=
  fun t => return (.ok (), { t with least := t.least.observe w })

def countEdge : Tallied ω Unit := fun t => return (.ok (), { t with edges := t.edges + 1 })

end Tallied

open Tallied in
/-- Scores two entities and stores the result, and then, as the last of all, takes the edge into the
figures. -/
def Scorer.score {ω : Type} [Weight ω] (s : Scorer ω) (g : GraphId) (a : EntityKey)
    (entityA : Entity) (b : EntityKey) (entityB : Entity) (index : PropertyIndex) :
    Tallied ω (PairOutcome ω) := do
  if a = b then
    return .singleton (← lift (liveSingleton g a))
  else
    let x ← lift (liveSingleton g a)
    let y ← lift (liveSingleton g b)
    let w ← lift (ofScoring (s.weigh entityA entityB index))
    let e ← lift (.ofStore (Edge.between x y))
    lift (.putEdge e w)
    observe w
    countEdge
    return .edge e w

end RecordLinkage
