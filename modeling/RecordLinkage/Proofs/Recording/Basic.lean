import RecordLinkage.Block.Run
import RecordLinkage.Pool
import RecordLinkage.Proofs.Crew.Basic
import RecordLinkage.Proofs.Program.Exchanges

namespace RecordLinkage

/-- A pair that somebody works at: the exchanges that were made for it, and what is left to do. -/
structure PairJob (ω : Type) where
  task : PairTask
  log : List (Exchange ω)
  rest : Program ω (PairOutcome ω)

structure PairResult (ω : Type) where
  task : PairTask
  log : List (Exchange ω)
  outcome : Outcome (Error ω) (PairOutcome ω)

/-- Who scores the pairs of a block: its caller, one after another, or workers with a bounded queue
in front of them. -/
inductive Dispatcher where
  | inline
  | workers (count capacity : Nat)
  deriving DecidableEq, Repr

namespace Dispatcher

variable {ω : Type}

/-- A caller who scores is a worker whose queue nobody uses. -/
def pool : Dispatcher → Pool PairTask (PairJob ω)
  | .inline => .start 1 1
  | .workers count capacity => .start count capacity

/-- Counts a pair. Only workers outlive crashes. -/
def settle [Weight ω] {α : Type} (d : Dispatcher) (c : Countdown) (o : Outcome (Error ω) α) :
    Countdown :=
  match d with
  | .inline => c.settle o
  | .workers _ _ => c.settleGuarded o

def afterwards {α : Type} (d : Dispatcher) (o : Outcome (Error ω) α) : Worker (PairJob ω) :=
  match d, o with
  | .inline, .crash => .gone
  | _, _ => .free

end Dispatcher

/-- What can happen next while a block is recorded: a pair is handed off, a worker takes a pair,
makes a call, or is done with a pair; the service is dropped, a worker leaves; others change the
store. -/
inductive Move (ω : Type) [Weight ω] where
  | handOff
  | take (i : Nat) (source : EntitySource ω) (scorer : Scorer ω)
  | call (i : Nat) (fate : Fate ω)
  | finish (i : Nat)
  | close
  | leave (i : Nat)
  | others (m : Memory ω)

/-- A block that is being recorded: the pairs that were not handed off yet, the queue and the workers,
the countdown of the block, the pairs that were done with, and the calls that were carried out. -/
structure Recording (ω : Type) [Weight ω] where
  memory : Memory ω
  tally : Tally ω
  pending : List PairTask
  pool : Pool PairTask (PairJob ω)
  closed : Bool
  countdown : Countdown
  ended : List (PairResult ω)
  history : List (Event ω)

namespace Recording

variable {ω : Type} [Weight ω]

def start (d : Dispatcher) (m : Memory ω) (tally : Tally ω) (total : Nat) (tasks : List PairTask) :
    Recording ω where
  memory := m
  tally := tally
  pending := tasks
  pool := d.pool
  closed := false
  countdown := .start total
  ended := []
  history := []

/-- The pair that comes next to a free worker, and what remains. A caller who scores takes it from
the block, workers from their queue. -/
def next? (d : Dispatcher) (r : Recording ω) : Option (PairTask × Recording ω) :=
  match d with
  | .inline =>
    match r.pending with
    | [] => none
    | t :: rest => some (t, { r with pending := rest })
  | .workers _ _ =>
    match r.pool.queue with
    | [] => none
    | t :: rest => some (t, { r with pool := { r.pool with queue := rest } })

def setWorker (r : Recording ω) (i : Nat) (w : Worker (PairJob ω)) : Recording ω :=
  { r with pool := { r.pool with workers := r.pool.workers.set i w } }

def handOff (d : Dispatcher) (r : Recording ω) : Recording ω :=
  match d, r.closed, r.pending with
  | .workers _ _, false, t :: rest =>
    match r.pool.submit t with
    | .ok pool => { r with pending := rest, pool := pool }
    | .error _ => r
  | _, _, _ => r

/-- A free worker takes the next pair, which the entities, the features and the oracle may treat in
any way. -/
def take (d : Dispatcher) (r : Recording ω) (i : Nat) (source : EntitySource ω)
    (scorer : Scorer ω) : Recording ω :=
  match r.pool.workers[i]?, r.next? d with
  | some .free, some (t, r) => r.setWorker i (.held ⟨t, [], t.process source scorer⟩)
  | _, _ => r

def carry (r : Recording ω) (c : Call ω) : Recording ω :=
  { r with memory := (c.perform r.memory).2, history := r.history ++ [⟨r.memory, c⟩] }

def call (r : Recording ω) (i : Nat) (fate : Fate ω) : Recording ω :=
  match r.pool.workers[i]? with
  | some (.held ⟨t, log, .ask c next⟩) =>
    let go (r : Recording ω) (reply : c.Reply) :=
      r.setWorker i (.held ⟨t, log ++ [⟨c, reply⟩], next reply⟩)
    match fate with
    | .served => go (r.carry c) (.ofExcept (c.perform r.memory).1)
    | .failed cause carriedOut => go (if carriedOut then r.carry c else r) (.error cause)
    | .crashed carriedOut => go (if carriedOut then r.carry c else r) .crash
  | _ => r

def finish (d : Dispatcher) (r : Recording ω) (i : Nat) : Recording ω :=
  match r.pool.workers[i]? with
  | some (.held ⟨t, log, .done o⟩) =>
    { r.setWorker i (d.afterwards o) with
      tally := r.tally.after o
      countdown := d.settle r.countdown o
      ended := r.ended ++ [⟨t, log, o⟩] }
  | _ => r

def leave (d : Dispatcher) (r : Recording ω) (i : Nat) : Recording ω :=
  match d, r.closed, r.pool.queue, r.pool.workers[i]? with
  | .workers _ _, true, [], some .free => r.setWorker i .gone
  | _, _, _, _ => r

/-- What cannot happen now changes nothing. -/
def move (d : Dispatcher) (r : Recording ω) : Move ω → Recording ω
  | .handOff => r.handOff d
  | .take i source scorer => r.take d i source scorer
  | .call i fate => r.call i fate
  | .finish i => r.finish d i
  | .close => { r with closed := true }
  | .leave i => r.leave d i
  | .others m => { r with memory := m }

def run (d : Dispatcher) (r : Recording ω) (moves : List (Move ω)) : Recording ω :=
  moves.foldl (move d) r

theorem run_append (d : Dispatcher) (r : Recording ω) (moves more : List (Move ω)) :
    r.run d (moves ++ more) = (r.run d moves).run d more := List.foldl_append

inductive Changes (d : Dispatcher) (r : Recording ω) : Move ω → Recording ω → Prop where
  | idle (mv : Move ω) : Changes d r mv r
  | handedOff {count capacity : Nat} {t : PairTask} {rest : List PairTask}
    (service : d = .workers count capacity) (unclosed : r.closed = false)
    (pending : r.pending = t :: rest) (room : r.pool.queue.length < r.pool.capacity) :
    Changes d r .handOff
      { r with pending := rest, pool := { r.pool with queue := r.pool.queue ++ [t] } }
  | taken {i : Nat} {source : EntitySource ω} {scorer : Scorer ω} {t : PairTask}
    {r' : Recording ω} (free : r.pool.workers[i]? = some .free) (found : r.next? d = some (t, r')) :
    Changes d r (.take i source scorer) (r'.setWorker i (.held ⟨t, [], t.process source scorer⟩))
  | missed {i : Nat} {fate : Fate ω} {t : PairTask} {log : List (Exchange ω)} {c : Call ω}
    {next : c.Reply → Program ω (PairOutcome ω)} (reply : c.Reply)
    (held : r.pool.workers[i]? = some (.held ⟨t, log, .ask c next⟩))
    (faulty : ∀ a, reply ≠ .ok a) (unserved : fate ≠ .served) :
    Changes d r (.call i fate) (r.setWorker i (.held ⟨t, log ++ [⟨c, reply⟩], next reply⟩))
  | carried {i : Nat} {fate : Fate ω} {t : PairTask} {log : List (Exchange ω)} {c : Call ω}
    {next : c.Reply → Program ω (PairOutcome ω)} (reply : c.Reply)
    (held : r.pool.workers[i]? = some (.held ⟨t, log, .ask c next⟩))
    (answered : ∀ a, reply = .ok a → (c.perform r.memory).1 = .ok a)
    (served : fate = .served → reply = .ofExcept (c.perform r.memory).1) :
    Changes d r (.call i fate)
      ((r.carry c).setWorker i (.held ⟨t, log ++ [⟨c, reply⟩], next reply⟩))
  | finished {i : Nat} {t : PairTask} {log : List (Exchange ω)}
    {o : Outcome (Error ω) (PairOutcome ω)}
    (held : r.pool.workers[i]? = some (.held ⟨t, log, .done o⟩)) :
    Changes d r (.finish i)
      { r.setWorker i (d.afterwards o) with
        tally := r.tally.after o
        countdown := d.settle r.countdown o
        ended := r.ended ++ [⟨t, log, o⟩] }
  | closed : Changes d r .close { r with closed := true }
  | left {i count capacity : Nat} (service : d = .workers count capacity)
    (closed : r.closed = true) (empty : r.pool.queue = [])
    (free : r.pool.workers[i]? = some .free) : Changes d r (.leave i) (r.setWorker i .gone)
  | others (m : Memory ω) : Changes d r (.others m) { r with memory := m }

theorem changes_call (d : Dispatcher) (r : Recording ω) (i : Nat) (fate : Fate ω) :
    r.Changes d (.call i fate) (r.call i fate) := by
  unfold call
  split
  · rename_i t log c next held
    cases fate with
    | served =>
      refine .carried _ held ?_ fun _ => rfl
      intro a ha
      cases hperform : (c.perform r.memory).1 with
      | ok b =>
        rw [hperform] at ha
        cases ha
        rfl
      | error cause =>
        rw [hperform] at ha
        cases ha
    | failed cause carriedOut =>
      cases carriedOut with
      | true => exact .carried _ held nofun nofun
      | false => exact .missed _ held nofun nofun
    | crashed carriedOut =>
      cases carriedOut with
      | true => exact .carried _ held nofun nofun
      | false => exact .missed _ held nofun nofun
  · exact .idle _

theorem changes (d : Dispatcher) (r : Recording ω) (mv : Move ω) :
    r.Changes d mv (r.move d mv) := by
  cases mv with
  | handOff =>
    show r.Changes d .handOff (r.handOff d)
    unfold handOff
    split
    · rename_i count capacity t rest hclosed hpending
      split
      · rename_i pool hsubmit
        unfold Pool.submit at hsubmit
        split at hsubmit
        · cases hsubmit
        · split at hsubmit
          · cases hsubmit
          · rename_i hroom
            cases hsubmit
            exact .handedOff rfl hclosed hpending (Nat.lt_of_not_le hroom)
      · exact .idle _
    · exact .idle _
  | take i source scorer =>
    show r.Changes d (.take i source scorer) (r.take d i source scorer)
    unfold take
    split
    · rename_i t r' hfree hfound
      exact .taken hfree hfound
    · exact .idle _
  | call i fate => exact changes_call d r i fate
  | finish i =>
    show r.Changes d (.finish i) (r.finish d i)
    unfold finish
    split
    · rename_i t log o held
      exact .finished held
    · exact .idle _
  | close => exact .closed
  | leave i =>
    show r.Changes d (.leave i) (r.leave d i)
    unfold leave
    split
    · rename_i hclosed hempty hfree
      exact .left rfl hclosed hempty hfree
    · exact .idle _
  | others m => exact .others m

theorem run_induct {d : Dispatcher} {I : Recording ω → Prop} {allowed : Move ω → Prop}
    (step : ∀ r mv r', allowed mv → r.Changes d mv r' → I r → I r') {r : Recording ω} (h : I r)
    {moves : List (Move ω)} (hmoves : ∀ mv ∈ moves, allowed mv) : I (r.run d moves) := by
  induction moves generalizing r with
  | nil => exact h
  | cons mv moves ih =>
    rw [List.forall_mem_cons] at hmoves
    exact ih (step _ _ _ hmoves.1 (r.changes d mv) h) hmoves.2

variable {d : Dispatcher} {r r' : Recording ω} {i : Nat} {t : PairTask}

theorem move_call {log : List (Exchange ω)} {c : Call ω}
    {next : c.Reply → Program ω (PairOutcome ω)}
    (held : r.pool.workers[i]? = some (.held ⟨t, log, .ask c next⟩)) :
    r.move d (.call i .served) = (r.carry c).setWorker i
      (.held ⟨t, log ++ [⟨c, .ofExcept (c.perform r.memory).1⟩],
        next (.ofExcept (c.perform r.memory).1)⟩) := by
  show r.call i .served = _
  rw [call, held]

theorem move_finish {log : List (Exchange ω)} {o : Outcome (Error ω) (PairOutcome ω)}
    (held : r.pool.workers[i]? = some (.held ⟨t, log, .done o⟩)) :
    r.move d (.finish i) = { r.setWorker i (d.afterwards o) with
      tally := r.tally.after o
      countdown := d.settle r.countdown o
      ended := r.ended ++ [⟨t, log, o⟩] } := by
  show r.finish d i = _
  rw [finish, held]

theorem move_take {source : EntitySource ω} {scorer : Scorer ω}
    (free : r.pool.workers[i]? = some .free) (found : r.next? d = some (t, r')) :
    r.move d (.take i source scorer) = r'.setWorker i (.held ⟨t, [], t.process source scorer⟩) := by
  show r.take d i source scorer = _
  rw [take, free, found]

theorem lookup_setWorker {w : Worker (PairJob ω)} (h : r.pool.workers[i]? = some w)
    (w' : Worker (PairJob ω)) : (r.setWorker i w').pool.workers[i]? = some w' := by
  show (r.pool.workers.set i w')[i]? = some w'
  rw [List.getElem?_set_self (List.getElem?_eq_some_iff.mp h).1]

end Recording

end RecordLinkage
