import RecordLinkage.Program

namespace RecordLinkage

inductive CallKind where
  | singleton
  | cluster
  | clusters
  | merge
  | removeVertex
  | putEdge
  | weight
  | removeEdge
  | lightest
  | edges
  | destinations
  | sources
  deriving DecidableEq, Repr

def Call.kind {ω : Type} : Call ω → CallKind
  | .singleton _ _ => .singleton
  | .cluster _ => .cluster
  | .clusters _ => .clusters
  | .merge _ _ _ => .merge
  | .removeVertex _ => .removeVertex
  | .putEdge _ _ => .putEdge
  | .weight _ => .weight
  | .removeEdge _ => .removeEdge
  | .lightest _ => .lightest
  | .edges _ => .edges
  | .destinations _ => .destinations
  | .sources _ => .sources

/-- What happens around a call: it fails, its caller crashes or is held at the gate, or somebody
else changes the store. -/
inductive Disturbance (ω : Type) where
  | fail (cause : StoreError ω)
  | crash
  | hold
  | removeVertex (k : VertexKey)
  | removeEdge (e : Edge)
  | putEdge (e : Edge) (w : ω)
  | clear (g : GraphId)
  deriving DecidableEq, Repr

/-- A disturbance of the `nth` call of a kind, counted from 1, before the call or after it has
succeeded. -/
structure Fault (ω : Type) where
  kind : CallKind
  nth : Nat
  after : Bool
  effect : Disturbance ω
  deriving DecidableEq, Repr

structure FaultyMemory (ω : Type) [Weight ω] where
  memory : Memory ω
  faults : List (Fault ω)
  /-- The kinds of the calls made so far, the latest first. -/
  history : List CallKind
  gateOpen : Bool

inductive Moment (ω : Type) where
  | disturb (effect : Disturbance ω)
  | perform

/-- A procedure that is held at the gate inside a call, with the parts of the call that are still
to come and the answer if there is one already. -/
structure Held (ω α : Type) where
  call : Call ω
  moments : List (Moment ω)
  answer : Option call.Answer
  next : call.Reply → Program ω α

inductive Progress (ω α : Type) where
  | ended (outcome : Outcome (Error ω) α)
  | held (rest : Held ω α)

inductive CallProgress (ω : Type) (c : Call ω) where
  | replied (reply : c.Reply)
  | held (moments : List (Moment ω)) (answer : Option c.Answer)

namespace FaultyMemory

variable {ω α : Type} [Weight ω]

def sound (m : Memory ω) : FaultyMemory ω := ⟨m, [], [], false⟩

def openGate (f : FaultyMemory ω) : FaultyMemory ω := { f with gateOpen := true }

def setStore (f : FaultyMemory ω) (s : Store ω) : FaultyMemory ω :=
  { f with memory := { f.memory with store := s } }

/-- Changes the store as somebody else would, unless the store refuses it. -/
def interfere (f : FaultyMemory ω) : Disturbance ω → Except (StoreError ω) (FaultyMemory ω)
  | .fail e => .error e
  | .removeVertex k => .ok (f.setStore (f.memory.store.removeVertex k).2)
  | .removeEdge e => .ok (f.setStore (f.memory.store.removeEdge e).2)
  | .putEdge e w => (f.memory.store.putEdge e w).map f.setStore
  | .clear g => .ok (f.setStore (f.memory.store.clear g).2)
  | .crash | .hold => .ok f

def moments (f : FaultyMemory ω) (kind : CallKind) : List (Moment ω) :=
  let due := f.faults.filter fun x => x.kind = kind ∧ x.nth = f.history.count kind + 1
  (due.filter fun x => !x.after).map (.disturb ·.effect) ++
    .perform :: (due.filter fun x => x.after).map (.disturb ·.effect)

/-- Goes through the parts of a call in order. The first error ends the call, be it of the call
itself or of what happens around it, and so does a crash. -/
def attend (c : Call ω) :
    List (Moment ω) → Option c.Answer → FaultyMemory ω → CallProgress ω c × FaultyMemory ω
  | [], some a, f => (.replied (.ok a), f)
  | [], none, f => (.replied .crash, f)
  | .perform :: rest, _, f =>
    match c.perform f.memory with
    | (.ok a, m) => attend c rest (some a) { f with memory := m }
    | (.error e, m) => (.replied (.error e), { f with memory := m })
  | .disturb .crash :: _, _, f => (.replied .crash, f)
  | .disturb .hold :: rest, answer, f =>
    if f.gateOpen then attend c rest answer f else (.held (.disturb .hold :: rest) answer, f)
  | .disturb effect :: rest, answer, f =>
    match f.interfere effect with
    | .ok f => attend c rest answer f
    | .error e => (.replied (.error e), f)

/-- Runs a procedure until it ends or is held. -/
def run : Program ω α → FaultyMemory ω → Progress ω α × FaultyMemory ω
  | .done r, f => (.ended r, f)
  | .ask c next, f =>
    match attend c (f.moments c.kind) none { f with history := c.kind :: f.history } with
    | (.replied reply, f) => run (next reply) f
    | (.held moments answer, f) => (.held ⟨c, moments, answer, next⟩, f)

def resume (h : Held ω α) (f : FaultyMemory ω) : Progress ω α × FaultyMemory ω :=
  match attend h.call h.moments h.answer f with
  | (.replied reply, f) => run (h.next reply) f
  | (.held moments answer, f) => (.held ⟨h.call, moments, answer, h.next⟩, f)

/-- Runs a procedure that nobody is there to release: to be held is its end. -/
def complete (p : Program ω α) (f : FaultyMemory ω) :
    Outcome (Error ω) α × FaultyMemory ω :=
  match run p f with
  | (.ended r, f) => (r, f)
  | (.held _, f) => (.crash, f)

end FaultyMemory

end RecordLinkage
