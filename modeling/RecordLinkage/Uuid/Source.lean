import RecordLinkage.Uuid.Basic

namespace RecordLinkage

/-- Where random identifiers come from: a list handed out in order, then a generator. -/
structure IdSource where
  listed : List Uuid
  state : BitVec 64
  deriving DecidableEq, Repr

namespace IdSource

def advance (x : BitVec 64) : BitVec 64 := x * 6364136223846793005#64 + 1442695040888963407#64

/-- Draws one random identifier; the generator spends two steps on it. -/
def draw (s : IdSource) : Uuid × IdSource :=
  match s.listed with
  | u :: rest => (.random u.bits, { s with listed := rest })
  | [] =>
    let high := advance s.state
    let low := advance high
    (.random (high ++ low), { s with state := low })

def drawFreeWithin (taken : Uuid → Bool) : Nat → IdSource → Option (Uuid × IdSource)
  | 0, _ => none
  | attempts + 1, s =>
    let (u, s) := s.draw
    if taken u then drawFreeWithin taken attempts s else some (u, s)

/-- Draws until an identifier is not taken. Enough attempts are made to use up the list and then to
pass over every taken identifier once more. -/
def drawFree (s : IdSource) (taken : Uuid → Bool) (takenCount : Nat) : Option (Uuid × IdSource) :=
  drawFreeWithin taken (s.listed.length + takenCount + 1) s

end IdSource

end RecordLinkage
