import RecordLinkage.Block.Run
import RecordLinkage.Drain
import RecordLinkage.Fault
import RecordLinkage.Pool
import RecordLinkage.Settings.Basic

namespace RecordLinkage

/-- The workers of a service come in two kinds, which never compete for a job. -/
inductive WorkPath where
  | scoring
  | clustering
  deriving DecidableEq, Repr

namespace WorkPath

def name : WorkPath → String
  | .scoring => "scoring"
  | .clustering => "clustering"

def refused {ω : Type} (path : WorkPath) (capacity : Nat) : Refusal → Error ω
  | .full => .queueFull path.name capacity
  | .disconnected => .disconnected path.name

end WorkPath

structure ScoreOrder where
  counter : Nat
  task : PairTask
  deriving DecidableEq, Repr

structure DrainOrder (ω : Type) where
  number : Nat
  graph : GraphId
  threshold : ω
  deriving DecidableEq, Repr

abbrev Counters := SortedMap Nat Countdown

abbrev DrainResults (ω : Type) := SortedMap Nat (Outcome (Error ω) (DrainReport ω))

structure ScoreBoard (ω : Type) [Weight ω] where
  memory : FaultyMemory ω
  tally : Tally ω
  counters : Counters

structure DrainBoard (ω : Type) [Weight ω] where
  memory : FaultyMemory ω
  results : DrainResults ω

abbrev ScoreWork (ω : Type) := Nat × Held ω (PairOutcome ω)

abbrev DrainWork (ω : Type) := Nat × Held ω (DrainReport ω)

/-- A linking service: a scorer with its figures, a default threshold, and the workers that score
pairs and drain graphs. -/
structure Service (ω : Type) where
  scorer : Scorer ω
  tally : Tally ω
  threshold : ω
  scoring : Pool ScoreOrder (ScoreWork ω)
  drains : Pool (DrainOrder ω) (DrainWork ω)

namespace ScoreBoard

variable {ω : Type} [Weight ω]

/-- A pair that ended is counted once, also after a crash, which its worker outlives. -/
def file (number : Nat) (b : ScoreBoard ω) :
    Progress ω (PairOutcome ω) × FaultyMemory ω → Worker (ScoreWork ω) × ScoreBoard ω
  | (.held rest, m) => (.held (number, rest), { b with memory := m })
  | (.ended r, m) =>
    (.free,
      { memory := m
        tally := b.tally.after r
        counters := SortedMap.alter b.counters number (·.map (·.settleGuarded r)) })

def work (source : EntitySource ω) (scorer : Scorer ω) (order : ScoreOrder) (b : ScoreBoard ω) :
    Worker (ScoreWork ω) × ScoreBoard ω :=
  file order.counter b (b.memory.run (order.task.process source scorer))

def resume (held : ScoreWork ω) (b : ScoreBoard ω) : Worker (ScoreWork ω) × ScoreBoard ω :=
  file held.1 b (b.memory.resume held.2)

end ScoreBoard

namespace DrainBoard

variable {ω : Type} [Weight ω]

/-- More steps than a drain makes while its graph is in use. -/
def allowance : Nat := 0x10000000000000000

/-- A worker that ends a drain leaves its result and is free again; one that crashes is gone. -/
def file (number : Nat) (b : DrainBoard ω) :
    Progress ω (DrainReport ω) × FaultyMemory ω → Worker (DrainWork ω) × DrainBoard ω
  | (.held rest, m) => (.held (number, rest), { b with memory := m })
  | (.ended .crash, m) => (.gone, ⟨m, SortedMap.put b.results number .crash⟩)
  | (.ended r, m) => (.free, ⟨m, SortedMap.put b.results number r⟩)

def work (order : DrainOrder ω) (b : DrainBoard ω) : Worker (DrainWork ω) × DrainBoard ω :=
  file order.number b (b.memory.run (Drain.cluster allowance order.graph order.threshold))

def resume (held : DrainWork ω) (b : DrainBoard ω) : Worker (DrainWork ω) × DrainBoard ω :=
  file held.1 b (b.memory.resume held.2)

def lose (b : DrainBoard ω) (order : DrainOrder ω) : DrainBoard ω :=
  { b with results := SortedMap.put b.results order.number .crash }

/-- The answer to an order; `none` as long as it is not finished. An order whose worker crashed is
never answered, which shows as a broken connection. -/
def answer? (results : DrainResults ω) (number : Nat) :
    Option (Except (Error ω) (DrainReport ω)) :=
  (SortedMap.get? results number).map fun
    | .ok report => .ok report
    | .error e => .error e
    | .crash => .error (.disconnected WorkPath.clustering.name)

end DrainBoard

namespace Service

variable {ω : Type} [Weight ω]

def settleScoring (service : Service ω) (source : EntitySource ω) (m : FaultyMemory ω)
    (counters : Counters) : Service ω × FaultyMemory ω × Counters :=
  let (scoring, b) :=
    service.scoring.settle (ScoreBoard.work source service.scorer) ScoreBoard.resume
      ⟨m, service.tally, counters⟩
  ({ service with scoring := scoring, tally := b.tally }, b.memory, b.counters)

/-- Lets the workers that drain do what they can. Orders that no worker is left for are lost. -/
def settleDrains (service : Service ω) (b : DrainBoard ω) : Service ω × DrainBoard ω :=
  let (drains, b) := service.drains.settle DrainBoard.work DrainBoard.resume b
  let (lost, drains) := drains.abandon
  ({ service with drains := drains }, lost.foldl DrainBoard.lose b)

def orderScore (service : Service ω) (order : ScoreOrder) : Except (Error ω) (Service ω) :=
  match service.scoring.submit order with
  | .ok scoring => .ok { service with scoring := scoring }
  | .error refusal => .error (WorkPath.scoring.refused service.scoring.capacity refusal)

def orderDrain (service : Service ω) (order : DrainOrder ω) : Except (Error ω) (Service ω) :=
  match service.drains.submit order with
  | .ok drains => .ok { service with drains := drains }
  | .error refusal => .error (WorkPath.clustering.refused service.drains.capacity refusal)

def start (settings : Settings) (extract : Extractor Binary64) (oracle : Oracle Binary64) :
    Except (ValidationError Binary64) (Service Binary64) := do
  let s ← settings.validate
  return {
    scorer := ← Scorer.withBias extract oracle s.scoreBias
    tally := .empty
    threshold := s.threshold
    scoring := .start s.scoringWorkers s.queueCapacity
    drains := .start s.clusteringWorkers s.queueCapacity }

end Service

end RecordLinkage
