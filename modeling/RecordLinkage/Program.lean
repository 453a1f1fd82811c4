import RecordLinkage.Store
import RecordLinkage.Outcome

namespace RecordLinkage

/-- One call of a store. Each is atomic; nothing that takes several calls is. -/
inductive Call (ω : Type) where
  | singleton (g : GraphId) (e : EntityKey)
  | cluster (k : VertexKey)
  | clusters (g : GraphId)
  | merge (a b : VertexKey) (w : ω)
  | removeVertex (k : VertexKey)
  | putEdge (e : Edge) (w : ω)
  | weight (e : Edge)
  | removeEdge (e : Edge)
  | lightest (g : GraphId)
  | edges (g : GraphId)
  | destinations (k : VertexKey)
  | sources (k : VertexKey)
  deriving DecidableEq, Repr

namespace Call

variable {ω : Type}

def Answer : Call ω → Type
  | .singleton _ _ => VertexKey
  | .cluster _ => Option (Cluster ω)
  | .clusters _ => List (VertexKey × Cluster ω)
  | .merge _ _ _ => VertexKey
  | .removeVertex _ => Bool
  | .putEdge _ _ => Unit
  | .weight _ => Option ω
  | .removeEdge _ => Bool
  | .lightest _ => Option (Edge × ω)
  | .edges _ => List (Edge × ω)
  | .destinations _ => SortedMap VertexId ω
  | .sources _ => SortedMap VertexId ω

/-- What a caller gets: an answer, or an error, or its own end. -/
abbrev Reply (c : Call ω) : Type := Outcome (StoreError ω) c.Answer

variable [Weight ω]

/-- Carries a call out. A store in memory never takes its caller down. -/
def perform : (c : Call ω) → Memory ω → Except (StoreError ω) c.Answer × Memory ω
  | .singleton g e, m =>
    let (k, s) := m.store.singleton g e
    (.ok k, { m with store := s })
  | .cluster k, m => (.ok (m.store.cluster? k), m)
  | .clusters g, m => (.ok (m.store.clusters g), m)
  | .merge a b w, m => m.merge a b w
  | .removeVertex k, m =>
    let (b, s) := m.store.removeVertex k
    (.ok b, { m with store := s })
  | .putEdge e w, m =>
    match m.store.putEdge e w with
    | .ok s => (.ok (), { m with store := s })
    | .error err => (.error err, m)
  | .weight e, m => (.ok (m.store.weight? e), m)
  | .removeEdge e, m =>
    let (b, s) := m.store.removeEdge e
    (.ok b, { m with store := s })
  | .lightest g, m => (.ok (m.store.lightest? g), m)
  | .edges g, m => (.ok (m.store.edges g), m)
  | .destinations k, m => (.ok (m.store.destinations k), m)
  | .sources k, m => (.ok (m.store.sources k), m)

end Call

/-- A procedure over a store: a tree of calls, in which every reply chooses what comes next. Other
workers may act between two calls. -/
inductive Program (ω α : Type) where
  | done (outcome : Outcome (Error ω) α)
  | ask (c : Call ω) (next : c.Reply → Program ω α)

namespace Program

variable {ω α β : Type}

def bind : Program ω α → (α → Program ω β) → Program ω β
  | .done (.ok a), f => f a
  | .done (.error e), _ => .done (.error e)
  | .done .crash, _ => .done .crash
  | .ask c next, f => .ask c fun r => (next r).bind f

instance : Monad (Program ω) where
  pure a := .done (.ok a)
  bind := bind

def fail (e : Error ω) : Program ω α := .done (.error e)

def call (c : Call ω) : Program ω c.Answer := .ask c fun r => .done (r.mapError .store)

/-- Makes the outcome of a procedure its answer, so that neither an error nor a crash ends what
follows it. -/
def attempt : Program ω α → Program ω (Outcome (Error ω) α)
  | .done r => .done (.ok r)
  | .ask c next => .ask c fun r => (next r).attempt

def ofStore : Except (StoreError ω) α → Program ω α
  | .ok a => .done (.ok a)
  | .error e => .done (.error (.store e))

variable [Weight ω]

/-- Runs a procedure to its end while nobody else acts on the store. -/
def run : Program ω α → Memory ω → Outcome (Error ω) α × Memory ω
  | .done r, m => (r, m)
  | .ask c next, m =>
    let (r, m) := c.perform m
    (next (.ofExcept r)).run m

/-! The calls by name. -/

def singleton (g : GraphId) (e : EntityKey) : Program ω VertexKey := call (.singleton g e)

def cluster? (k : VertexKey) : Program ω (Option (Cluster ω)) := call (.cluster k)

def live (k : VertexKey) : Program ω Bool := return (← cluster? k).isSome

def clusters (g : GraphId) : Program ω (List (VertexKey × Cluster ω)) := call (.clusters g)

def removeVertex (k : VertexKey) : Program ω Bool := call (.removeVertex k)

def putEdge (e : Edge) (w : ω) : Program ω Unit := call (.putEdge e w)

def removeEdge (e : Edge) : Program ω Bool := call (.removeEdge e)

def lightest? (g : GraphId) : Program ω (Option (Edge × ω)) := call (.lightest g)

def edges (g : GraphId) : Program ω (List (Edge × ω)) := call (.edges g)

/-- Both sides are read, in two calls. -/
def neighbors (k : VertexKey) : Program ω (SortedMap VertexId ω) := do
  let destinations ← call (.destinations k)
  let sources ← call (.sources k)
  return joinSides k.vertex destinations sources

end Program

end RecordLinkage
