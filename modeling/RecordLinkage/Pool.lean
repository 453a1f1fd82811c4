namespace RecordLinkage

/-- One of a fixed number of workers: free, held in the middle of a job, or gone for good. -/
inductive Worker (β : Type) where
  | free
  | held (work : β)
  | gone
  deriving DecidableEq, Repr

namespace Worker

variable {β : Type}

def isFree : Worker β → Bool
  | .free => true
  | _ => false

def isGone : Worker β → Bool
  | .gone => true
  | _ => false

end Worker

structure Pool (α β : Type) where
  capacity : Nat
  queue : List α
  workers : List (Worker β)
  deriving DecidableEq, Repr

inductive Refusal where
  | full
  | disconnected
  deriving DecidableEq, Repr

namespace Pool

variable {α β σ : Type}

/-- A pool has at least one worker and room for at least one job. -/
def start (workers capacity : Nat) : Pool α β where
  capacity := max capacity 1
  queue := []
  workers := List.replicate (max workers 1) .free

def deserted (p : Pool α β) : Bool := p.workers.all Worker.isGone

/-- Queues a job without waiting for room. -/
def submit (p : Pool α β) (job : α) : Except Refusal (Pool α β) :=
  if p.deserted then .error .disconnected
  else if p.capacity ≤ p.queue.length then .error .full
  else .ok { p with queue := p.queue ++ [job] }

def release (resume : β → σ → Worker β × σ) : List (Worker β) → σ → List (Worker β) × σ
  | [], s => ([], s)
  | .held work :: rest, s =>
    let (w, s) := resume work s
    let (ws, s) := release resume rest s
    (w :: ws, s)
  | w :: rest, s =>
    let (ws, s) := release resume rest s
    (w :: ws, s)

/-- Gives queued jobs in order to free workers, until there is no job or no free worker. -/
def assign (work : α → σ → Worker β × σ) :
    List α → List (Worker β) → σ → List α × List (Worker β) × σ
  | [], ws, s => ([], ws, s)
  | job :: rest, ws, s =>
    match ws.findIdx? Worker.isFree with
    | none => (job :: rest, ws, s)
    | some i =>
      let (w, s) := work job s
      assign work rest (ws.set i w) s

def settle (work : α → σ → Worker β × σ) (resume : β → σ → Worker β × σ) (p : Pool α β) (s : σ) :
    Pool α β × σ :=
  let (ws, s) := release resume p.workers s
  let (queue, ws, s) := assign work p.queue ws s
  ({ p with queue := queue, workers := ws }, s)

/-- Gives up the queue of a deserted pool; the jobs that were in it are lost. -/
def abandon (p : Pool α β) : List α × Pool α β :=
  if p.deserted then (p.queue, { p with queue := [] }) else ([], p)

end Pool

end RecordLinkage
