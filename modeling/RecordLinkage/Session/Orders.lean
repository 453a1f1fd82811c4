import RecordLinkage.Session.Basic

namespace RecordLinkage.Session

variable {ω : Type} [Weight ω]

def settle (s : Session ω) : Session ω :=
  match s.service with
  | none => s
  | some service =>
    let (service, m, counters) := service.settleScoring s.source s.memory s.counters
    let (service, b) := service.settleDrains ⟨m, s.results⟩
    { s with
      service := some service, memory := b.memory, counters := counters, results := b.results }

def openGate (s : Session ω) : Session ω := { s with memory := s.memory.openGate }.settle

/-- Stops the service. Its workers first finish all that was ordered. -/
def stopService (s : Session ω) : Session ω := { s.openGate with service := none }

/-- A service makes room for the next one, also when that turns out not to start. -/
def startService (s : Session ω) (next : Except (ValidationError ω) (Service ω)) :
    Except (Error ω) (Service ω) × Session ω :=
  let s := if s.service.isSome then s.stopService else s
  match next with
  | .ok service => (.ok service, { s with service := some service })
  | .error e => (.error (.validation e), s)

def order (s : Session ω) (g : GraphId) (t : ω) : Except (Error ω) (Nat × Session ω) :=
  match s.service with
  | none => .error (.disconnected WorkPath.clustering.name)
  | some service =>
    (service.orderDrain ⟨s.orderCount, g, t⟩).map fun service =>
      (s.orderCount,
        settle { s with service := some service, orderCount := s.orderCount + 1 })

def orderAs (s : Session ω) (name : String) (g : GraphId) (t : ω) :
    Except (Error ω) (Session ω) :=
  (s.order g t).map fun (number, s) => { s with orders := SortedMap.put s.orders name number }

/-- The answer to an order. One that does not come in time is given up; `none` stands for waiting
without end. -/
def await (s : Session ω) (number : Nat) (timeout : Option Nat) :
    Option (Except (Error ω) (DrainReport ω)) :=
  match DrainBoard.answer? s.results number with
  | some answer => some answer
  | none => timeout.map fun ms => .error (.timeout ms)

def join (s : Session ω) (name : String) (timeout : Option Nat) :
    Option (Except (Error ω) (DrainReport ω) × Session ω) := do
  let number ← SortedMap.get? s.orders name
  let answer ← s.await number timeout
  return (answer, { s with orders := s.orders.erase name })

def drainByService (s : Session ω) (g : GraphId) :
    Option (Except (Error ω) (DrainReport ω) × Session ω) := do
  let service ← s.service
  match s.order g service.threshold with
  | .error e => return (.error e, s)
  | .ok (number, s) => return (← s.await number none, s)

end RecordLinkage.Session
