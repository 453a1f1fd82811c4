namespace RecordLinkage

/-- A countdown of the pairs of a block. Failed pairs do not count down. -/
structure Countdown where
  remaining : Nat
  failed : Nat
  lastFailure : Option String
  deriving DecidableEq, Repr

namespace Countdown

def start (total : Nat) : Countdown := ⟨total, 0, none⟩

def completeOne (c : Countdown) : Countdown := { c with remaining := c.remaining - 1 }

def complete (c : Countdown) (n : Nat) : Countdown := { c with remaining := c.remaining - n }

/-- One pair failed, and stays outstanding. -/
def failOne (c : Countdown) (reason : String) : Countdown :=
  { c with failed := c.failed + 1, lastFailure := some reason }

def isComplete (c : Countdown) : Bool := c.remaining = 0

end Countdown

end RecordLinkage
