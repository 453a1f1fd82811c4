import RecordLinkage.Progress.Scripted
import RecordLinkage.Service
import RecordLinkage.Sweep

namespace RecordLinkage

structure Ticket where
  graph : GraphId
  dispatched : Nat
  counter : Nat
  /-- Several workers score the block, in no fixed order. -/
  unordered : Bool
  deriving DecidableEq, Repr

/-- A linking session: a store that may be disturbed, the entities, a scorer for direct use, tasks
that wait to be scored, and at most one service. -/
structure Session (ω : Type) [Weight ω] where
  memory : FaultyMemory ω
  catalog : Catalog
  /-- Entities that cannot be read, and why. -/
  unreadable : SortedMap EntityKey String
  scorer : Scorer ω
  tally : Tally ω
  deferred : List (PairTask × Nat)
  counters : Counters
  tickets : SortedMap String Ticket
  service : Option (Service ω)
  orders : SortedMap String Nat
  orderCount : Nat
  results : DrainResults ω

namespace Session

variable {ω α : Type} [Weight ω]

def start (ids : IdSource) (faults : List (Fault ω)) (unreadable : SortedMap EntityKey String)
    (scorer : Scorer ω) : Session ω where
  memory := ⟨⟨∅, ids⟩, faults, [], false⟩
  catalog := .empty
  unreadable := unreadable
  scorer := scorer
  tally := .empty
  deferred := []
  counters := ∅
  tickets := ∅
  service := none
  orders := ∅
  orderCount := 0
  results := ∅

def store (s : Session ω) : Store ω := s.memory.memory.store

def sizes (s : Session ω) (g : GraphId) : Nat × Nat :=
  ((s.store.clusters g).length, s.store.edgeCount g)

def perform (s : Session ω) (c : Call ω) : Except (StoreError ω) c.Answer × Session ω :=
  let (r, m) := c.perform s.memory.memory
  (r, { s with memory := { s.memory with memory := m } })

def clear (s : Session ω) (g : GraphId) : Bool × Session ω :=
  let (r, store) := s.store.clear g
  (r, { s with memory := s.memory.setStore store })

def execute (s : Session ω) (p : Program ω α) : Outcome (Error ω) α × Session ω :=
  let (r, m) := s.memory.complete p
  (r, { s with memory := m })

/-- Runs a procedure that changes the figures of the scorer, which are lost in a crash. -/
def executeTallied (s : Session ω) (p : Tallied ω α) : Outcome (Error ω) α × Session ω :=
  match s.memory.complete (p s.tally) with
  | (.ok (r, tally), m) => (r, { s with memory := m, tally := tally })
  | (.error e, m) => (.error e, { s with memory := m })
  | (.crash, m) => (.crash, { s with memory := m })

def step (s : Session ω) (g : GraphId) (t : ω) : Outcome (Error ω) (Step ω) × Session ω :=
  s.execute (Drain.step g t)

def cluster (s : Session ω) (g : GraphId) (t : ω) :
    Outcome (Error ω) (DrainReport ω) × Session ω :=
  s.execute (Drain.cluster DrainBoard.allowance g t)

def sweep (s : Session ω) (g : GraphId) : Outcome (Error ω) SweepReport × Session ω :=
  s.execute (Sweep.sweep g)

def addEntity (s : Session ω) (k : EntityKey) (v : SyncId) (e : Entity) : Session ω :=
  { s with catalog := s.catalog.insert k v e }

def source (s : Session ω) : EntitySource ω := fun k v =>
  match SortedMap.get? s.unreadable k with
  | some message => .error (.internal message)
  | none => s.catalog.source k v

def setScorer (s : Session ω) (scorer : Scorer ω) : Session ω :=
  { s with scorer := scorer, tally := .empty }

def score (s : Session ω) (g : GraphId) (a : EntityKey) (entityA : Entity) (b : EntityKey)
    (entityB : Entity) (index : PropertyIndex) : Outcome (Error ω) (PairOutcome ω) × Session ω :=
  s.executeTallied (s.scorer.score g a entityA b entityB index)

def process (s : Session ω) (t : PairTask) : Outcome (Error ω) (PairOutcome ω) × Session ω :=
  s.executeTallied (t.score s.source s.scorer)

end Session

end RecordLinkage
