import RecordLinkage.Session.Orders

namespace RecordLinkage

/-- Who scores the pairs of a block: the caller, at once; the session, when it is asked to; the
caller, until a hand-over is refused after some pairs; or the workers of the service. -/
inductive BlockRoute where
  | inline
  | deferred
  | refusing (accepted : Nat)
  | service
  deriving DecidableEq, Repr

structure WaitReport where
  verdict : Verdict
  sleeps : Nat
  deriving DecidableEq, Repr

namespace Session

variable {ω : Type} [Weight ω]

def issue (s : Session ω) (plan : BlockPlan) (countdown : Countdown) (unordered : Bool) :
    Ticket × Session ω :=
  let number := s.counters.size
  (⟨plan.graph, plan.total, number, unordered⟩,
    { s with counters := SortedMap.put s.counters number countdown })

def keep (s : Session ω) (name : Option String) (t : Ticket) : Session ω :=
  match name with
  | some name => { s with tickets := SortedMap.put s.tickets name t }
  | none => s

def recordNow (s : Session ω) (total : Nat) (tasks : List PairTask) :
    Outcome (Error ω) Countdown × Session ω :=
  match s.execute (recordAll s.source s.scorer tasks (.start s.tally total)) with
  | (.ok b, s) => (if b.crashed then .crash else .ok b.countdown, { s with tally := b.tally })
  | (.error e, s) => (.error e, s)
  | (.crash, s) => (.crash, s)

/-- Scores a block at once; beyond the first `accepted` pairs none is taken. -/
def recordInline (s : Session ω) (plan : BlockPlan) (accepted : Nat) :
    Outcome (Error ω) Ticket × Session ω :=
  match s.recordNow plan.total (plan.tasks.take accepted) with
  | (.ok c, s) =>
    if accepted < plan.tasks.length then (.error (.queueFull WorkPath.scoring.name 1), s)
    else
      let (t, s) := s.issue plan c false
      (.ok t, s)
  | (.error e, s) => (.error e, s)
  | (.crash, s) => (.crash, s)

def defer (s : Session ω) (plan : BlockPlan) : Ticket × Session ω :=
  let (t, s) := s.issue plan (.start plan.total) false
  (t, { s with deferred := s.deferred ++ plan.tasks.map fun p => (p, t.counter) })

/-- Orders pairs one by one; each order is followed by whatever the workers can do. -/
def orderScores (number : Nat) : List PairTask → Session ω → Except (Error ω) Unit × Session ω
  | [], s => (.ok (), s)
  | t :: rest, s =>
    match s.service with
    | none => (.error (.disconnected WorkPath.scoring.name), s)
    | some service =>
      match service.orderScore ⟨number, t⟩ with
      | .error e => (.error e, s)
      | .ok service => orderScores number rest (settle { s with service := some service })

def recordByService (s : Session ω) (plan : BlockPlan) : Outcome (Error ω) Ticket × Session ω :=
  let unordered := s.service.any fun service => decide (1 < service.scoring.workers.length)
  let (t, s) := s.issue plan (.start plan.total) unordered
  match orderScores t.counter plan.tasks s with
  | (.ok (), s) => (.ok t, s)
  | (.error e, s) => (.error e, s)

/-- Hands the pairs of a block over for scoring. No ticket is kept when that fails on the way. -/
def recordBlock (s : Session ω) (g : GraphId) (entries : List BlockEntry) (context : BlockContext)
    (route : BlockRoute) (name : Option String) : Outcome (Error ω) Ticket × Session ω :=
  match BlockPlan.ofEntries g entries context with
  | .error e => (.error (.validation e), s)
  | .ok plan =>
    let (r, s) :=
      match route with
      | .inline => s.recordInline plan plan.tasks.length
      | .deferred => let (t, s) := s.defer plan; (.ok t, s)
      | .refusing accepted => s.recordInline plan accepted
      | .service => s.recordByService plan
    match r with
    | .ok t => (.ok t, s.keep name t)
    | r => (r, s)

def countdown? (s : Session ω) (t : Ticket) : Option Countdown :=
  SortedMap.get? s.counters t.counter

def ticket? (s : Session ω) (name : String) : Option Ticket := SortedMap.get? s.tickets name

def updateCountdown (s : Session ω) (number : Nat) (f : Countdown → Countdown) : Session ω :=
  { s with counters := SortedMap.alter s.counters number (·.map f) }

/-- Scores deferred tasks in order and counts them. A crash ends the run; its task is gone. -/
def runTasks : List (PairTask × Nat) → Session ω → List (Outcome (Error ω) (PairOutcome ω)) × Session ω
  | [], s => ([], s)
  | (t, number) :: rest, s =>
    let (r, s) := { s with deferred := s.deferred.tail }.process t
    let s := s.updateCountdown number (·.settle r)
    if r matches .crash then ([r], s)
    else
      let (rs, s) := runTasks rest s
      (r :: rs, s)

def run (s : Session ω) (count : Nat) : List (Outcome (Error ω) (PairOutcome ω)) × Session ω :=
  runTasks (s.deferred.take count) s

/-- What an event does to a session, and to the counter that is waited for. Nothing happens after a
crash. -/
def act (number : Nat) : WaitEvent → Session ω × Bool → Session ω × Bool
  | e, (s, crashed) =>
    if crashed then (s, crashed)
    else
      match e with
      | .run n =>
        let (rs, s) := s.run n
        (s, rs.any (· matches .crash))
      | e => (s.updateCountdown number (·.act e), false)

def around (number : Nat) : Surroundings (Scripted (Session ω × Bool)) :=
  let countdown (w : Scripted (Session ω × Bool)) : Countdown :=
    (SortedMap.get? w.state.1.counters number).getD (.start 0)
  Scripted.around (act number)
    (fun w => if w.state.2 then 0 else (countdown w).remaining)
    fun w => (countdown w).failed

def wait (s : Session ω) (t : Ticket) (policy : PollPolicy) (heedful : Bool)
    (script : List (List WaitEvent)) (cancelled : Bool) :
    Outcome (Error ω) WaitReport × Session ω :=
  let around := if heedful then around t.counter else Wait.steadfast (around t.counter)
  match Scripted.wait around policy 0 ⟨(s, false), script, 0, cancelled⟩ with
  | (some verdict, ⟨(s, false), _, sleeps, _⟩) => (.ok ⟨verdict, sleeps⟩, s)
  | (_, w) => (.crash, w.state.1)

end Session

end RecordLinkage
