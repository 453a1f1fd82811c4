import RecordLinkage.Block.Plan
import RecordLinkage.Progress.Counter

namespace RecordLinkage

variable {ω : Type} [Weight ω]

/-- Counts a pair as recorded or as failed. A crash takes its worker along, so that it goes
uncounted. -/
def Countdown.settle {α : Type} (c : Countdown) : Outcome (Error ω) α → Countdown
  | .ok _ => c.completeOne
  | .error e => c.failOne e.message
  | .crash => c

def Countdown.settleGuarded {α : Type} (c : Countdown) : Outcome (Error ω) α → Countdown
  | .crash => c.failOne "pair scoring panicked"
  | r => c.settle r

/-- What the scoring of a block leaves besides the store: the figures of its scorer, the progress
counter, and whether the worker is still there. -/
structure BlockState (ω : Type) where
  tally : Tally ω
  countdown : Countdown
  crashed : Bool
  deriving DecidableEq, Repr

namespace BlockState

def start (tally : Tally ω) (total : Nat) : BlockState ω := ⟨tally, .start total, false⟩

def after (s : BlockState ω) (r : Outcome (Error ω) (PairOutcome ω)) : BlockState ω where
  tally := s.tally.after r
  countdown := s.countdown.settle r
  crashed := s.crashed || r matches .crash

end BlockState

/-- Scores pairs one after another. A pair that fails does not stop the others; a crash does. -/
def recordAll (source : EntitySource ω) (scorer : Scorer ω) :
    List PairTask → BlockState ω → Program ω (BlockState ω)
  | [], s => return s
  | t :: rest, s => do
    let s := s.after (← (t.process source scorer).attempt)
    if s.crashed then return s else recordAll source scorer rest s

def recordBlock (source : EntitySource ω) (scorer : Scorer ω) (tally : Tally ω) (g : GraphId)
    (entries : List BlockEntry) (context : BlockContext) : Program ω (BlockPlan × BlockState ω) :=
  match BlockPlan.ofEntries g entries context with
  | .error e => Program.fail (.validation e)
  | .ok plan => do
    return (plan, ← recordAll source scorer plan.tasks (.start tally plan.total))

end RecordLinkage
